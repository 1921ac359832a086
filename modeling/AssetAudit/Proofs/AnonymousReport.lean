import AssetAudit.Proofs.BoundHandler
import AssetAudit.Proofs.NodeFact
import AssetAudit.Proofs.OtherEvent

/-!
# Reports of anonymous handlers

The scripts of a scan are its script files and the scripts that its pages run, and the registrations in them
are found node by node. So are the issues: those about anonymous handlers and those about listeners that are
never removed are what the nodes of all scripts add, one after another (`anonymousReports_eq`,
`unremovedReports_eq_flatMap`), and a node adds one issue at most.

A registration whose handler is a function, or a function bound once or more, is known by the definition of
functions without a name. If it is anonymous it adds one issue to the former and none to the latter, whatever
removals there are (`function_handlers_reported`). A bound function that is no arrow function can be missed:
`function onClick() {}.bind(this)` has none of the marks that its text is searched for
(`bound_function_not_anonymous`).
-/
namespace AssetAudit

open Script (Facts factsAt Fact)

/-! ## The nodes of scripts -/

/-- Whether a page runs a script. -/
def Page.InlineScript.isRun (script : Page.InlineScript) : Bool :=
  !(Text.isBlankText script.content || !Page.executedKinds.contains script.kind)

/-- The scripts of a file, with their dialects. -/
def SurveyedFile.scripts (file : SurveyedFile) : List (Script.Dialect × String) :=
  match file.findings with
  | .script _ _ => (Script.Dialect.ofExtension? file.extension).toList.map (·, file.asset.content)
  | .page page => (page.resources.inlineScripts.filter (·.isRun)).map (.javascript, ·.content)
  | _ => []

/-- A node of a script, with the file that the script is in and the text of the script. -/
structure ScriptNode where
  file : SurveyedFile
  unit : List Char
  visit : Script.Visit

/-- The nodes of a script. One that cannot be read has none. -/
def SurveyedFile.nodesOf (file : SurveyedFile) (script : Script.Dialect × String) : List ScriptNode :=
  match Script.parse script.1 script.2.toList with
  | .ok tree => tree.visits.map (⟨file, script.2.toList, ·⟩)
  | .error _ => []

def SurveyedFile.nodes (file : SurveyedFile) : List ScriptNode := file.scripts.flatMap file.nodesOf

/-- The nodes of all scripts, those of script files before those of pages. -/
def Audit.nodes (audit : Audit) : List ScriptNode := audit.scriptsAndPages.flatMap (·.nodes)

/-- The registrations at a node. -/
def ScriptNode.added (node : ScriptNode) : List Script.Listener :=
  (factsAt node.unit node.visit).filterMap (Fact.listener? true)

theorem added_foldl_merge : ∀ (scripts : List Facts) (start : Facts),
    (scripts.foldl Facts.merge start).added = start.added ++ scripts.flatMap (·.added)
  | [], start => by simp
  | first :: scripts, start => by
    rw [List.foldl_cons, added_foldl_merge scripts, List.flatMap_cons, ← List.append_assoc]
    rfl

theorem added_treeFacts (reading : Script.Reading) (unit : List Char) (tree : Script.Tree) :
    (Script.treeFacts reading unit tree).added =
      tree.visits.flatMap fun visit => (factsAt unit visit).filterMap (Fact.listener? true) := by
  show ((tree.visits.flatMap (factsAt unit)).filterMap (Fact.listener? true)) = _
  rw [List.filterMap_flatMap]

/-- The registrations of a script are found at its nodes. -/
theorem added_extract (file : SurveyedFile) {dialect : Script.Dialect} {classic : Bool}
    {ignored : List String} {code : String} {facts : Facts}
    (h : Script.extract ⟨dialect, classic, ignored⟩ code = .ok facts) :
    facts.added = (file.nodesOf (dialect, code)).flatMap ScriptNode.added := by
  unfold Script.extract at h
  unfold SurveyedFile.nodesOf
  cases hparse : Script.parse dialect code.toList with
  | ok tree =>
    simp only [hparse] at h ⊢
    cases h
    rw [added_treeFacts, List.flatMap_map]
    rfl
  | error offset =>
    simp only [hparse] at h
    cases h

theorem nodesOf_eq_nil (file : SurveyedFile) {dialect : Script.Dialect} {classic : Bool}
    {ignored : List String} {code : String} {error : Script.SyntaxError}
    (h : Script.extract ⟨dialect, classic, ignored⟩ code = .error error) :
    file.nodesOf (dialect, code) = [] := by
  unfold Script.extract at h
  unfold SurveyedFile.nodesOf
  cases hparse : Script.parse dialect code.toList with
  | ok tree =>
    simp only [hparse] at h
    cases h
  | error offset => rfl

theorem added_scriptFacts (file : SurveyedFile) (ignored : List String) {script : Page.InlineScript}
    (h : script.isRun = true) : (Page.scriptFacts ignored script).added =
      (file.nodesOf (.javascript, script.content)).flatMap ScriptNode.added := by
  rw [Page.InlineScript.isRun, Bool.not_eq_true'] at h
  rw [Page.scriptFacts, h]
  cases hfacts : Script.extract ⟨.javascript, script.kind != "module", ignored⟩ script.content with
  | ok facts => exact added_extract file hfacts
  | error error =>
    rw [nodesOf_eq_nil file hfacts]
    rfl

theorem added_scriptFacts_eq_nil (ignored : List String) {script : Page.InlineScript}
    (h : script.isRun = false) : (Page.scriptFacts ignored script).added = [] := by
  rw [Page.InlineScript.isRun, Bool.not_eq_false'] at h
  rw [Page.scriptFacts, h]
  rfl

/-- The registrations of a page are found at the nodes of the scripts that it runs. -/
theorem added_page (asset : Asset) (ignored : List String) (exclude : Bool) :
    (Page.extract ignored exclude asset.content).script.added =
      (SurveyedFile.mk asset (.page (Page.extract ignored exclude asset.content))).nodes.flatMap
        ScriptNode.added := by
  generalize hpage : Page.extract ignored exclude asset.content = page
  have hscript : page.script = (page.resources.inlineScripts.map (Page.scriptFacts ignored)).foldl
      Facts.merge Facts.empty := by
    rw [← hpage]
    rfl
  rw [hscript, added_foldl_merge, List.flatMap_map, SurveyedFile.nodes, SurveyedFile.scripts,
    List.flatMap_assoc, List.flatMap_map,
    ← flatMap_filter_of_forall fun script => added_scriptFacts_eq_nil ignored]
  refine (List.nil_append _).trans (List.flatMap_congr fun script hscript => ?_)
  exact added_scriptFacts _ ignored (List.mem_filter.1 hscript).2

/-- The registrations of a script file are found at its nodes. -/
theorem added_script {asset : Asset} {dialect : Script.Dialect} {ignored : List String} {facts : Facts}
    (hdialect : Script.Dialect.ofExtension? asset.extension = some dialect)
    (h : Script.extract ⟨dialect, false, ignored⟩ asset.content = .ok facts) :
    facts.added = (SurveyedFile.mk asset (.script facts dialect.typed)).nodes.flatMap ScriptNode.added := by
  have hscripts : (SurveyedFile.mk asset (.script facts dialect.typed)).scripts =
      [(dialect, asset.content)] := by
    simp only [SurveyedFile.scripts, SurveyedFile.extension, hdialect, Option.toList_some, List.map_cons,
      List.map_nil]
  rw [SurveyedFile.nodes, hscripts, List.flatMap_singleton]
  exact added_extract _ h

/-- The registrations of a file are found at the nodes of its scripts. -/
theorem added_surveyFile {options : Options} {filter : IgnoreFilter} {asset : Asset} {facts : Facts}
    (h : (Survey.surveyFile options filter asset).script? = some facts) :
    facts.added = (Survey.surveyFile options filter asset).nodes.flatMap ScriptNode.added := by
  generalize hfile : Survey.surveyFile options filter asset = file at h ⊢
  unfold Survey.surveyFile Survey.examine at hfile
  simp only at hfile
  split at hfile
  · subst hfile
    cases h
  · split at hfile
    · subst hfile
      cases h
      exact added_page asset _ _
    · split at hfile
      · subst hfile
        cases h
      · split at hfile
        · subst hfile
          cases h
        · rename_i dialect hdialect
          split at hfile
          · rename_i found hfound
            subst hfile
            cases h
            exact added_script hdialect hfound
          · subst hfile
            cases h

/-! ## What nodes add to the reports -/

namespace Analysis.Listener

/-- The issues about anonymous handlers. -/
def anonymousReports (audit : Audit) : List Issue :=
  (issues audit (Memory.ofFiles audit.root audit.files)).1.filter
    (fun issue => issue.typeName = "anonymous_event_handler")

/-- The issue about the anonymous handler of a registration. -/
def anonymousIssue (audit : Audit) (file : SurveyedFile) (listener : Script.Listener) : Issue :=
  (issueAt file (audit.origin file listener.location)
    (.anonymousEventHandler listener.event listener.element) .info
    ("Anonymous handler for " ++ listener.event ++ " can never be removed")
    listener.code).inPage Issue.inlineScriptLabel file.isPage

/-- Whether a rule says to ignore a place of a file. -/
def isIgnored (audit : Audit) (file : SurveyedFile) (place : Location) : Bool :=
  let origin := audit.origin file place
  audit.filter.ignores file.asset origin.line? (some origin.source)

/-- What a registration adds to the issues about anonymous handlers. -/
def anonymousReportOf (audit : Audit) (file : SurveyedFile) (listener : Script.Listener) : List Issue :=
  if listener.anonymous && !isIgnored audit file listener.location then [anonymousIssue audit file listener]
  else []

/-- What a node adds to the issues about anonymous handlers. -/
def anonymousAt (audit : Audit) (node : ScriptNode) : List Issue :=
  node.added.flatMap (anonymousReportOf audit node.file)

/-- What a node adds to the issues about listeners that are never removed. -/
def unremovedAt (audit : Audit) (node : ScriptNode) : List Issue :=
  match node.file.ownScript? with
  | none => []
  | some facts => node.added.flatMap (reportOf audit node.file facts)

theorem anonymousIssues_eq {audit : Audit} {file : SurveyedFile} {facts : Facts}
    (h : file.script? = some facts) (hon : audit.options.rules.anonymousEventHandler = true) :
    anonymousIssues audit file = facts.added.flatMap (anonymousReportOf audit file) := by
  simp only [anonymousIssues, h, hon, if_true]
  induction facts.added with
  | nil => rfl
  | cons listener rest ih =>
    rw [List.flatMap_cons, ← ih, List.filter_cons]
    unfold anonymousReportOf
    by_cases hanonymous : listener.anonymous = true
    · rw [if_pos hanonymous, List.filterMap_cons]
      by_cases hignored : isIgnored audit file listener.location = true
      · have hnone : audit.reported? file listener.location = none := if_pos hignored
        simp [hnone, hignored]
      · have hsome : audit.reported? file listener.location =
            some (audit.origin file listener.location) := if_neg hignored
        simp [hsome, hanonymous, hignored, anonymousIssue]
    · simp [hanonymous]

theorem anonymousReports_eq_flatMap (audit : Audit) :
    anonymousReports audit = audit.scriptsAndPages.flatMap (anonymousIssues audit) := by
  rw [anonymousReports, filter_issues, if_neg (by decide), List.append_nil]
  refine List.flatMap_congr fun file _ => ?_
  rw [if_pos rfl, if_neg (by decide), List.append_nil]

theorem file_of_mem_nodes {file : SurveyedFile} {node : ScriptNode} (h : node ∈ file.nodes) :
    node.file = file := by
  obtain ⟨script, -, h⟩ := List.mem_flatMap.1 h
  unfold SurveyedFile.nodesOf at h
  split at h
  · obtain ⟨visit, -, rfl⟩ := List.mem_map.1 h
    rfl
  · cases h

theorem nodes_eq_nil {file : SurveyedFile} (h : file.script? = none) : file.nodes = [] := by
  unfold SurveyedFile.nodes SurveyedFile.scripts
  unfold SurveyedFile.script? at h
  cases hfindings : file.findings with
  | script _ _ | page _ =>
    rw [hfindings] at h
    cases h
  | _ => rfl

section Surveyed

variable (audit : Audit) {options : Options} {filter : IgnoreFilter} (asset : Asset)

theorem anonymousIssues_surveyFile (hon : audit.options.rules.anonymousEventHandler = true) :
    anonymousIssues audit (Survey.surveyFile options filter asset) =
      (Survey.surveyFile options filter asset).nodes.flatMap (anonymousAt audit) := by
  cases hscript : (Survey.surveyFile options filter asset).script? with
  | none => simp [anonymousIssues, hscript, nodes_eq_nil hscript]
  | some facts =>
    rw [anonymousIssues_eq hscript hon, added_surveyFile hscript, List.flatMap_assoc]
    refine List.flatMap_congr fun node hnode => ?_
    rw [anonymousAt, file_of_mem_nodes hnode]

theorem reportsIn_surveyFile : reportsIn audit (Survey.surveyFile options filter asset) =
    (Survey.surveyFile options filter asset).nodes.flatMap (unremovedAt audit) := by
  generalize hfile : Survey.surveyFile options filter asset = file
  unfold reportsIn
  cases hown : file.ownScript? with
  | none =>
    symm
    rw [List.flatMap_eq_nil_iff]
    intro node hnode
    rw [unremovedAt, file_of_mem_nodes hnode, hown]
  | some facts =>
    have hscript : file.script? = some facts := by
      unfold SurveyedFile.ownScript? at hown
      unfold SurveyedFile.script?
      split at hown
      · rename_i hfindings
        rw [hfindings]
        exact hown
      · cases hown
    subst hfile
    dsimp only
    rw [added_surveyFile hscript, List.flatMap_assoc]
    refine List.flatMap_congr fun node hnode => ?_
    rw [unremovedAt, file_of_mem_nodes hnode, hown]

end Surveyed

/-! ## The reports of a scan -/

section Scans

variable (disk : Disk) (root : String) (options : Options) (filter : IgnoreFilter) (assets : AssetMap)

theorem exists_of_mem_files {file : SurveyedFile}
    (h : file ∈ (Survey.ofAssets options filter assets).files) :
    ∃ asset, file = Survey.surveyFile options filter asset := by
  obtain ⟨asset, -, rfl⟩ := List.mem_map.1 h
  exact ⟨asset, rfl⟩

theorem mem_files_of_mem_scriptsAndPages {audit : Audit} {file : SurveyedFile}
    (h : file ∈ audit.scriptsAndPages) : file ∈ audit.files := by
  rcases List.mem_append.1 h with h | h
  · exact List.mem_of_mem_filter h
  · exact List.mem_of_mem_filter h

/-- The issues about anonymous handlers are what the nodes of all scripts add. -/
theorem anonymousReports_eq :
    let audit := Scan.auditOf disk root options filter (Survey.ofAssets options filter assets)
    anonymousReports audit =
      if options.rules.anonymousEventHandler then audit.nodes.flatMap (anonymousAt audit) else [] := by
  intro audit
  rw [anonymousReports_eq_flatMap]
  split
  · rename_i hon
    rw [Audit.nodes, List.flatMap_assoc]
    refine List.flatMap_congr fun file hfile => ?_
    obtain ⟨asset, rfl⟩ := exists_of_mem_files options filter assets (mem_files_of_mem_scriptsAndPages hfile)
    exact anonymousIssues_surveyFile audit asset hon
  · rename_i hoff
    rw [List.flatMap_eq_nil_iff]
    intro file hfile
    have hrule : audit.options.rules.anonymousEventHandler = false := Bool.eq_false_iff.2 hoff
    unfold anonymousIssues
    split
    · rfl
    · rw [hrule]
      rfl

/-- The issues about listeners that are never removed are what the nodes of all scripts add. -/
theorem unremovedReports_eq_flatMap :
    let audit := Scan.auditOf disk root options filter (Survey.ofAssets options filter assets)
    unremovedReports audit =
      if options.rules.unRemovedEventListener then audit.nodes.flatMap (unremovedAt audit) else [] := by
  intro audit
  split
  · rename_i hon
    have hon' : audit.options.rules.unRemovedEventListener = true := hon
    have hnone : ∀ file : SurveyedFile, file.ownScript? = none → reportsIn audit file = [] := by
      intro file hfile
      rw [reportsIn, hfile]
    rw [unremovedReports_eq hon', ← flatMap_scriptsAndPages audit hnone, Audit.nodes, List.flatMap_assoc]
    refine List.flatMap_congr fun file hfile => ?_
    obtain ⟨asset, rfl⟩ := exists_of_mem_files options filter assets (mem_files_of_mem_scriptsAndPages hfile)
    exact reportsIn_surveyFile audit asset
  · rename_i hoff
    have hrule : ¬ audit.options.rules.unRemovedEventListener = true := hoff
    rw [unremovedReports, filter_issues_unremoved, if_neg hrule]

end Scans

/-! ## Registrations of functions -/

/-- A call at a node that registers a listener, with the event and the handler it is given. -/
structure Registers (node : ScriptNode) (object event handler : Script.Tree)
    (method : Script.ListenerMethod) : Prop where
  call : ∃ name, Script.MethodCall node.unit node.visit.node object name ∧
    Script.listenerMethod? name (Script.jqueryElement? node.unit object).isSome = some method
  arguments : ∃ more, Script.callArguments node.visit.node = event :: handler :: more
  adds : method.adds = true

/-- What is known of a registration. -/
def registered (node : ScriptNode) (object event handler : Script.Tree)
    (method : Script.ListenerMethod) : Script.Listener :=
  ⟨method, Script.eventName node.unit event,
    (Script.jqueryElement? node.unit object).getD (Script.elementName node.unit object),
    node.visit.node.text node.unit, node.visit.node.location node.unit,
    Script.definitionName node.unit handler, Script.isAnonymous node.unit handler⟩

theorem Registers.added_eq {node : ScriptNode} {object event handler : Script.Tree}
    {method : Script.ListenerMethod} (h : Registers node object event handler method) :
    node.added = [registered node object event handler method] := by
  obtain ⟨⟨name, hcall, hmethod⟩, ⟨more, harguments⟩, hadds⟩ := h
  have hmem : registered node object event handler method ∈ node.added :=
    List.mem_filterMap.2 ⟨_, Script.mem_factsAt.2 (.listener hcall harguments hmethod), by
      simp [Fact.listener?, registered, hadds]⟩
  have hlength : node.added.length ≤ 1 := Script.length_filterMap_factsAt_le (fun _ => rfl) node.visit
  obtain ⟨listener, hadded⟩ :=
    List.length_eq_one_iff.1 (Nat.le_antisymm hlength (List.length_pos_of_mem hmem))
  rw [hadded] at hmem ⊢
  rw [List.mem_singleton.1 hmem]

/-- The nodes that are looked at are nodes of trees that were read from their texts. -/
theorem exists_tree_of_mem_nodes {audit : Audit} {node : ScriptNode} (h : node ∈ audit.nodes) :
    ∃ dialect tree, Script.parse dialect node.unit = .ok tree ∧ node.visit ∈ tree.visits := by
  obtain ⟨file, -, h⟩ := List.mem_flatMap.1 h
  obtain ⟨script, -, h⟩ := List.mem_flatMap.1 h
  unfold SurveyedFile.nodesOf at h
  split at h
  · rename_i tree hparse
    obtain ⟨visit, hvisit, rfl⟩ := List.mem_map.1 h
    exact ⟨script.1, tree, hparse, hvisit⟩
  · cases h

/-- A handler is a node below the list of arguments. -/
theorem Registers.exists_list {node : ScriptNode} {object event handler : Script.Tree}
    {method : Script.ListenerMethod} (h : Registers node object event handler method) :
    ∃ list ∈ node.visit.node.children, handler ∈ list.children := by
  obtain ⟨more, harguments⟩ := h.arguments
  have hmem : handler ∈ Script.callArguments node.visit.node := by
    rw [harguments]
    simp
  unfold Script.callArguments at hmem
  split at hmem
  · rename_i list hlist
    split at hmem
    · exact ⟨list, Script.Tree.mem_of_child? hlist,
        (Script.Tree.mem_named.1 (List.mem_of_mem_filter hmem)).1⟩
    · cases hmem
  · cases hmem

/-- A registration whose handler is a function, or a function bound once or more, is known by the definition
of functions without a name. It is anonymous if the handler is the function itself, if the function is an
arrow function, or if the text of the handler has one of three marks. If so, and if no rule ignores its place,
it adds one issue to those about anonymous handlers and none to those about listeners that are never removed.
Otherwise it adds none to the former. -/
theorem function_handlers_reported (disk : Disk) (root : String) (options : Options) (filter : IgnoreFilter)
    (assets : AssetMap) :
    let audit := Scan.auditOf disk root options filter (Survey.ofAssets options filter assets)
    (anonymousReports audit =
      if options.rules.anonymousEventHandler then audit.nodes.flatMap (anonymousAt audit) else []) ∧
    (unremovedReports audit =
      if options.rules.unRemovedEventListener then audit.nodes.flatMap (unremovedAt audit) else []) ∧
    ∀ node ∈ audit.nodes, ∀ object event handler method function,
      Registers node object event handler method → Script.BindsFunction node.unit function handler →
      isIgnored audit node.file (node.visit.node.location node.unit) = false →
      let listener := registered node object event handler method
      listener.definition = "anonymous" ∧
      (listener.anonymous = true ↔ handler.IsFunction ∨ function.kind = .arrow ∨
        ∃ mark ∈ ["=>", "function(", "function ("], mark.toList <:+: handler.chars node.unit) ∧
      (listener.anonymous = true → anonymousAt audit node = [anonymousIssue audit node.file listener] ∧
        unremovedAt audit node = []) ∧
      (listener.anonymous = false → anonymousAt audit node = []) := by
  intro audit
  refine ⟨anonymousReports_eq disk root options filter assets,
    unremovedReports_eq_flatMap disk root options filter assets, ?_⟩
  intro node hnode object event handler method function hregisters hbinds hreported listener
  obtain ⟨dialect, tree, hparse, hvisit⟩ := exists_tree_of_mem_nodes hnode
  obtain ⟨list, hlist, hhandler⟩ := hregisters.exists_list
  have hnodePlaced := (Script.placed_parse hparse).of_mem_visitsFrom hvisit
  have hplaced := (hnodePlaced.laid.of_mem hlist).laid.of_mem hhandler
  have hnodeMade := (Script.wellMade_parse hparse).of_mem_visitsFrom hvisit
  have hmade := (hnodeMade.of_mem_children hlist).of_mem_children hhandler
  have hadded : node.added = [listener] := hregisters.added_eq
  have hplace : isIgnored audit node.file listener.location = false := hreported
  refine ⟨Script.definitionName_of_bindsFunction hbinds hmade, hbinds.isAnonymous_iff hplaced hmade,
    fun hanonymous => ⟨?_, ?_⟩, fun hnamed => ?_⟩
  · rw [anonymousAt, hadded, List.flatMap_singleton, anonymousReportOf, hanonymous, hplace]
    rfl
  · unfold unremovedAt
    cases node.file.ownScript? with
    | none => rfl
    | some facts =>
      have hstays : ¬ Stays audit node.file facts listener := by
        rintro ⟨hnamed, -⟩
        rw [hanonymous] at hnamed
        cases hnamed
      simp only [hadded, List.flatMap_singleton, reportOf, if_neg hstays]
  · rw [anonymousAt, hadded, List.flatMap_singleton, anonymousReportOf, hnamed]
    rfl

example :
    let text := "el.on('a', (() => 1).bind(x));\nel.off('a', f);\n"
    let options : Options := { compile := false }
    let filter := IgnoreFilter.ofEntries "/app" []
    let audit := Scan.auditOf (.atDirectory "/app") "/app" options filter
      (Survey.ofAssets options filter ⟨[⟨"a.js", text, none⟩], [], []⟩)
    (anonymousReports audit).length = 1 ∧ unremovedReports audit = [] := by
  decide +kernel

/-- A bound function with a name of its own is not taken to be anonymous, and so no issue is about its handler
being anonymous, but one about its listener not being removed. -/
theorem bound_function_not_anonymous :
    let text := "el.addEventListener('click', function onClick() \x7b\x7d.bind(this));\n"
    let options : Options := { compile := false }
    let filter := IgnoreFilter.ofEntries "/app" []
    let audit := Scan.auditOf (.atDirectory "/app") "/app" options filter
      (Survey.ofAssets options filter ⟨[⟨"a.js", text, none⟩], [], []⟩)
    options.rules.anonymousEventHandler = true ∧
    (∃ node ∈ audit.nodes, ∃ object event handler method function,
      Registers node object event handler method ∧ Script.BindsFunction node.unit function handler ∧
      isIgnored audit node.file (node.visit.node.location node.unit) = false ∧
      (registered node object event handler method).definition = "anonymous" ∧
      (registered node object event handler method).anonymous = false) ∧
    anonymousReports audit = [] ∧ (unremovedReports audit).length = 1 := by
  intro text options filter audit
  have hfound : (∃ node ∈ audit.nodes, node.visit.node.kind = .call ∧
      (∃ callee ∈ node.visit.node.child? .callee, callee.kind = .member ∧
        ∃ object ∈ callee.child? .object, ∃ property ∈ callee.child? .property,
          Script.listenerMethod? (property.text node.unit)
            (Script.jqueryElement? node.unit object).isSome = some .addEventListener) ∧
      (∃ event ∈ (Script.callArguments node.visit.node).head?,
        ∃ handler ∈ (Script.callArguments node.visit.node).tail.head?, handler.kind = .call ∧
          (∃ member ∈ handler.child? .callee, member.kind = .member ∧
            ∃ function ∈ member.child? .object, function.kind = .functionExpression ∧
              ∃ property ∈ member.child? .property, property.text node.unit = "bind") ∧
          Script.definitionName node.unit handler = "anonymous" ∧
          Script.isAnonymous node.unit handler = false) ∧
      isIgnored audit node.file (node.visit.node.location node.unit) = false) ∧
      anonymousReports audit = [] ∧ (unremovedReports audit).length = 1 := by
    decide +kernel
  refine ⟨rfl, ?_, hfound.2⟩
  obtain ⟨node, hnode, hcall, ⟨callee, hcallee, hmember, object, hobject, property, hproperty, hmethod⟩,
    ⟨event, hevent, handler, hhandler, hbound, ⟨member, hbinder, hkind, function, hfunction, hform, word,
      hword, hbind⟩, hdefinition, hnamed⟩, hreported⟩ := hfound.1
  obtain ⟨rest, harguments⟩ := List.head?_eq_some_iff.1 hevent
  rw [harguments, List.tail_cons] at hhandler
  obtain ⟨more, rfl⟩ := List.head?_eq_some_iff.1 hhandler
  exact ⟨node, hnode, object, event, handler, .addEventListener, function,
    ⟨⟨_, ⟨hcall, callee, property, hcallee, hmember, hobject, hproperty, rfl⟩, hmethod⟩,
      ⟨more, harguments⟩, rfl⟩,
    .bind hbound hbinder hkind hfunction hword hbind (.direct (.inr hform)), hreported, hdefinition, hnamed⟩

end Analysis.Listener
end AssetAudit
