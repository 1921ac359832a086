import AssetAudit.Proofs.UnremovedListener
import AssetAudit.Scan

/-!
# Removals of other events

Two things silence a registration. A removal of its own file does if both have one key, a text made of
the element and the event; a removal of any script file does if both handlers have one declaration, and
there neither the element nor the event has a part.

So a registration whose event no call removes can still be silenced: by a removal of another event with
the same handler, or by one whose key is divided at another colon (`event_eq_or_suffix`). Otherwise it is
reported, at its place among the reports of the other registrations and once
(`other_event_reported_once`). `other_event_silences` shows each of the ways.
-/
namespace AssetAudit.Analysis.Listener

open AssetAudit.Script (Facts)

/-- The issues that report registrations which are never removed. -/
def unremovedReports (audit : Audit) : List Issue :=
  (issues audit (Memory.ofFiles audit.root audit.files)).1.filter
    (fun issue => issue.typeName = "unremoved_event_listener")

/-! ## The report of each registration -/

/-- What a registration of a script file adds to the reports. -/
def reportOf (audit : Audit) (file : SurveyedFile) (facts : Facts) (listener : Script.Listener) :
    List Issue :=
  if Stays audit file facts listener then
    [unremovedIssue ⟨file, listener, audit.origin file listener.location⟩]
  else []

/-- What the registrations of a file add to the reports. -/
def reportsIn (audit : Audit) (file : SurveyedFile) : List Issue :=
  match file.ownScript? with
  | none => []
  | some facts => facts.added.flatMap (reportOf audit file facts)

theorem reportsIn_eq (audit : Audit) (file : SurveyedFile) :
    reportsIn audit file =
      ((candidates audit file).filter fun c => IsKept audit c.listener c.origin).map unremovedIssue := by
  rw [map_kept_candidates, reportsIn]
  cases file.ownScript? with
  | none => rfl
  | some facts =>
    -- a registration adds one issue or none, so its share is a singleton under the test
    dsimp only
    rw [List.map_eq_flatMap, flatMap_filter]
    refine List.flatMap_congr fun listener _ => ?_
    simp only [reportOf, decide_eq_true_eq]

/-- The reports are what the registrations add, file by file. -/
theorem unremovedReports_eq {audit : Audit}
    (hon : audit.options.rules.unRemovedEventListener = true) :
    unremovedReports audit = audit.files.flatMap (reportsIn audit) := by
  have hsound : Sound (projectOf audit) audit.files (Memory.ofFiles audit.root audit.files) :=
    sound_ofFiles (projectOf audit) audit.files
  unfold unremovedReports
  rw [filter_issues_unremoved, if_pos hon, unremoved_eq hsound, flatMap_candidates,
    List.filter_flatMap, List.map_flatMap]
  exact List.flatMap_congr fun file _ => (reportsIn_eq audit file).symm

/-! ## What silences a registration -/

/-- Keys are the same for the same event, or else one event ends with a colon and the other event. -/
theorem event_eq_or_suffix {a b : Script.Listener} (h : a.key = b.key) :
    a.event = b.event ∨ ':' :: a.event.toList <:+ b.event.toList ∨
      ':' :: b.event.toList <:+ a.event.toList := by
  have htext : a.element.toList ++ ':' :: a.event.toList =
      b.element.toList ++ ':' :: b.event.toList := by
    have := congrArg String.toList h
    simpa [Script.Listener.key] using this
  rcases List.append_eq_append_iff.1 htext with ⟨middle, -, hevent⟩ | ⟨middle, -, hevent⟩
  · cases middle with
    | nil => exact .inl (String.toList_inj.1 (by simpa using hevent))
    | cons c middle =>
      obtain ⟨-, hevent⟩ : c = ':' ∧ a.event.toList = middle ++ ':' :: b.event.toList := by
        simpa [eq_comm] using hevent
      exact .inr (.inr ⟨middle, hevent.symm⟩)
  · cases middle with
    | nil => exact .inl (String.toList_inj.1 (by simpa using hevent.symm))
    | cons c middle =>
      obtain ⟨-, hevent⟩ : c = ':' ∧ b.event.toList = middle ++ ':' :: a.event.toList := by
        simpa [eq_comm] using hevent
      exact .inr (.inl ⟨middle, hevent.symm⟩)

/-- A removal of the same script has the key of a registration, where one event ends with a colon and
the other event. -/
def SharesKey (facts : Facts) (listener : Script.Listener) : Prop :=
  ∃ removal ∈ facts.removed, removal.key = listener.key ∧
    (':' :: removal.event.toList <:+ listener.event.toList ∨
      ':' :: listener.event.toList <:+ removal.event.toList)

/-- A removal of some script file leads to the declaration of a registration's handler. -/
def SharesDeclaration (audit : Audit) (listener : Script.Listener) (origin : SourceMap.Origin) :
    Prop :=
  ∃ key, keyOf? audit listener origin = some key ∧
    ∃ file ∈ audit.files, ∃ facts ∈ file.ownScript?, ∃ removal ∈ facts.removed,
      keyOf? audit removal (audit.origin file removal.location) = some key

theorem isKept_iff_not_sharesDeclaration {audit : Audit} {listener : Script.Listener}
    {origin : SourceMap.Origin} :
    IsKept audit listener origin ↔ ¬ SharesDeclaration audit listener origin := by
  unfold IsKept SharesDeclaration
  constructor
  · rintro hkept ⟨key, hkey, file, hfile, facts, hfacts, removal, hremoval, hsame⟩
    rcases hkept with hnone | hkept
    · simp [hnone] at hkey
    · exact hkept file hfile facts hfacts removal hremoval (hsame.trans hkey.symm)
  · intro hnot
    cases hkey : keyOf? audit listener origin with
    | none => exact .inl rfl
    | some key =>
      refine .inr fun file hfile facts hfacts removal hremoval hsame => ?_
      exact hnot ⟨key, hkey, file, hfile, facts, hfacts, removal, hremoval, hsame⟩

/-! ## Registrations of an event that nothing removes -/

/-- A registration of a script file, with the files and the registrations around it. -/
structure Registration (audit : Audit) where
  before : List SurveyedFile
  file : SurveyedFile
  after : List SurveyedFile
  files_eq : audit.files = before ++ file :: after
  facts : Facts
  script : file.ownScript? = some facts
  earlier : List Script.Listener
  listener : Script.Listener
  later : List Script.Listener
  added_eq : facts.added = earlier ++ listener :: later

namespace Registration

variable {audit : Audit}

/-- Where the registration comes from. -/
def origin (r : Registration audit) : SourceMap.Origin :=
  audit.origin r.file r.listener.location

/-- What the registrations before this one add to the reports. -/
def reportsBefore (r : Registration audit) : List Issue :=
  r.before.flatMap (reportsIn audit) ++ r.earlier.flatMap (reportOf audit r.file r.facts)

/-- What the registrations after this one add to the reports. -/
def reportsAfter (r : Registration audit) : List Issue :=
  r.later.flatMap (reportOf audit r.file r.facts) ++ r.after.flatMap (reportsIn audit)

theorem unremovedReports_eq (r : Registration audit)
    (hon : audit.options.rules.unRemovedEventListener = true) :
    unremovedReports audit =
      r.reportsBefore ++ (reportOf audit r.file r.facts r.listener ++ r.reportsAfter) := by
  have hfile : reportsIn audit r.file = r.earlier.flatMap (reportOf audit r.file r.facts) ++
      (reportOf audit r.file r.facts r.listener ++
        r.later.flatMap (reportOf audit r.file r.facts)) := by
    unfold reportsIn
    rw [r.script]
    dsimp only
    rw [r.added_eq, List.flatMap_append, List.flatMap_cons]
  rw [Listener.unremovedReports_eq hon, r.files_eq, List.flatMap_append, List.flatMap_cons, hfile]
  simp only [reportsBefore, reportsAfter, List.append_assoc]

/-- No removal of any script file is for the event of the registration. -/
def EventIsNeverRemoved (r : Registration audit) : Prop :=
  ∀ file ∈ audit.files, ∀ facts ∈ file.ownScript?, ∀ removal ∈ facts.removed,
    removal.event ≠ r.listener.event

theorem key_eq_iff_sharesKey (r : Registration audit) (hevent : r.EventIsNeverRemoved) :
    (∃ removal ∈ r.facts.removed, removal.key = r.listener.key) ↔ SharesKey r.facts r.listener := by
  constructor
  · rintro ⟨removal, hremoval, hkey⟩
    have hfile : r.file ∈ audit.files := by
      rw [r.files_eq]
      exact List.mem_append_right _ List.mem_cons_self
    have hother := hevent r.file hfile r.facts r.script removal hremoval
    exact ⟨removal, hremoval, hkey, (event_eq_or_suffix hkey).resolve_left hother⟩
  · rintro ⟨removal, hremoval, hkey, -⟩
    exact ⟨removal, hremoval, hkey⟩

/-- A registration of an event that nothing removes stays, unless a removal shares its key or the
declaration of its handler. -/
theorem stays_iff (r : Registration audit) (hnamed : r.listener.anonymous = false)
    (hliteral : r.listener.hasDynamicEvent = false)
    (hreported : audit.filter.ignores r.file.asset r.origin.line? (some r.origin.source) = false)
    (hevent : r.EventIsNeverRemoved) :
    Stays audit r.file r.facts r.listener ↔
      ¬ (SharesKey r.facts r.listener ∨ SharesDeclaration audit r.listener r.origin) := by
  rw [Listener.stays_iff, isKept_iff_not_sharesDeclaration, not_or, ← r.key_eq_iff_sharesKey hevent]
  refine and_congr ?_ Iff.rfl
  unfold origin at hreported
  simp [isCandidate, isRemovedHere, hnamed, hliteral, hreported]

end Registration

/-- A registration with a named handler and a literal event that no call removes is reported once, between
the reports of the registrations before and after it, if no removal shares its key or the declaration
of its handler. If one does it is not reported. -/
theorem other_event_reported_once (audit : Audit) (r : Registration audit)
    (hon : audit.options.rules.unRemovedEventListener = true)
    (hnamed : r.listener.anonymous = false) (hliteral : r.listener.hasDynamicEvent = false)
    (hreported : audit.filter.ignores r.file.asset r.origin.line? (some r.origin.source) = false)
    (hevent : r.EventIsNeverRemoved) :
    (¬ SharesKey r.facts r.listener → ¬ SharesDeclaration audit r.listener r.origin →
      unremovedReports audit =
        r.reportsBefore ++ unremovedIssue ⟨r.file, r.listener, r.origin⟩ :: r.reportsAfter) ∧
    (SharesKey r.facts r.listener ∨ SharesDeclaration audit r.listener r.origin →
      unremovedReports audit = r.reportsBefore ++ r.reportsAfter) := by
  have hstays := r.stays_iff hnamed hliteral hreported hevent
  rw [r.unremovedReports_eq hon]
  constructor
  · intro hkey hdeclaration
    rw [reportOf, if_pos (hstays.2 (not_or.2 ⟨hkey, hdeclaration⟩))]
    rfl
  · intro hshares
    rw [reportOf, if_neg fun h => hstays.1 h hshares]
    rfl

theorem open_reported_beside_close :
    let closing : Asset :=
      ⟨"src/b.js", "function onClose() \x7b\x7d\nwindow.removeEventListener('close', onClose);\n", none⟩
    let opening : Asset :=
      ⟨"src/a.js", "function onOpen() \x7b\x7d\nwindow.addEventListener('open', onOpen);\n", none⟩
    let removal : Script.Listener :=
      ⟨.removeEventListener, "close", "window", "window.removeEventListener('close', onClose)",
        ⟨⟨2, 1⟩, ⟨2, 45⟩⟩, "onClose", false⟩
    let listener : Script.Listener :=
      ⟨.addEventListener, "open", "window", "window.addEventListener('open', onOpen)",
        ⟨⟨2, 1⟩, ⟨2, 40⟩⟩, "onOpen", false⟩
    let closingFacts : Facts :=
      { removed := [removal], functions := [⟨"onClose", [], false, ⟨⟨1, 1⟩, ⟨1, 22⟩⟩⟩] }
    let openingFacts : Facts :=
      { added := [listener], functions := [⟨"onOpen", [], false, ⟨⟨1, 1⟩, ⟨1, 21⟩⟩⟩] }
    let options : Options := { compile := false }
    let filter := IgnoreFilter.ofEntries "/app" []
    let audit : Audit := ⟨.atDirectory "/app", "/app", options, filter,
      [⟨closing, .script closingFacts false⟩, ⟨opening, .script openingFacts false⟩]⟩
    (Survey.ofAssets options filter ⟨[closing, opening], [], []⟩).files.map (·.ownScript?) =
      [some closingFacts, some openingFacts] ∧
    ∃ r : Registration audit, r.listener = listener ∧ r.EventIsNeverRemoved ∧
      ¬ SharesKey r.facts listener ∧ ¬ SharesDeclaration audit listener r.origin ∧
      unremovedReports audit = [unremovedIssue ⟨r.file, listener, r.origin⟩] := by
  intro closing opening removal listener closingFacts openingFacts options filter audit
  let r : Registration audit :=
    { before := [⟨closing, .script closingFacts false⟩]
      file := ⟨opening, .script openingFacts false⟩
      after := []
      files_eq := rfl
      facts := openingFacts
      script := rfl
      earlier := []
      listener
      later := []
      added_eq := rfl }
  have hevent : r.EventIsNeverRemoved := by
    unfold Registration.EventIsNeverRemoved
    decide +kernel
  have hkey : ¬ SharesKey r.facts r.listener := by
    rintro ⟨removal, hremoval, -⟩
    cases hremoval
  have hdeclaration : ¬ SharesDeclaration audit r.listener r.origin :=
    isKept_iff_not_sharesDeclaration.1 (by decide +kernel)
  refine ⟨by decide +kernel, r, rfl, hevent, hkey, hdeclaration, ?_⟩
  exact (other_event_reported_once audit r rfl rfl (by decide +kernel) (by decide +kernel)
    hevent).1 hkey hdeclaration

/-- A registration that nothing removes goes unreported: beside a removal of another event with the same
handler, beside one with the same key, and where the name of its event is the word for an unknown one. -/
theorem other_event_silences :
    let options : Options := { compile := false }
    let filter := IgnoreFilter.ofEntries "/app" []
    let auditOf (text : String) : Audit :=
      Scan.auditOf (.atDirectory "/app") "/app" options filter
        (Survey.ofAssets options filter ⟨[⟨"a.js", text, none⟩], [], []⟩)
    let sameHandler := "function h() \x7b\x7d\nwindow.addEventListener('open', h);\n" ++
      "window.removeEventListener('close', h);\n"
    let sameKey := "$('x').on(\"b'):c\", f);\n$(\"x'):b\").off('c', g);\n"
    let markedEvent := "window.addEventListener('unknown', h);\n"
    ∀ text ∈ [sameHandler, sameKey, markedEvent],
      (auditOf text).options.rules.unRemovedEventListener = true ∧
      (∃ file ∈ (auditOf text).files, ∃ facts ∈ file.ownScript?, ∃ listener ∈ facts.added,
        listener.anonymous = false ∧
        (listener.hasDynamicEvent = false ∨ text = markedEvent ∧ listener.event = "unknown") ∧
        ((auditOf text).reported? file listener.location).isSome ∧
        ∀ removal ∈ facts.removed, removal.event ≠ listener.event) ∧
      (auditOf text).files.length = 1 ∧ unremovedReports (auditOf text) = [] := by
  decide +kernel

end AssetAudit.Analysis.Listener
