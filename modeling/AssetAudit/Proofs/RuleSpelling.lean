import AssetAudit.Proofs.AbsolutePath

/-!
# Spellings of a path in ignore rules

A file can be asked for by its path from the root or by its absolute path. A rule on one file resolves
both to the same place (`resolve_forward_join`). A pattern is compared with the path as it is written, so
for a list of rules the two spellings give the same answer exactly where a file entry names the file or
the patterns agree on the two texts (`spelling_shows_in_patterns`). Collected assets have absolute names,
which no pattern accepts that starts with a character of its own; with `*/` before it a pattern accepts
below the root whatever it accepts from there.

What a pattern accepts is said by the relation `Matches`, one constructor for each kind of character
(`accepts_iff_matches`).
-/
namespace AssetAudit

/-! ## What a pattern accepts -/

namespace Text.Glob

inductive Matches : List Char → List Char → Prop
  | done : Matches [] []
  | star {pattern run text : List Char} :
    '\n' ∉ run → Matches pattern text → Matches ('*' :: pattern) (run ++ text)
  | mark {pattern text : List Char} {c : Char} :
    c ≠ '\n' → Matches pattern text → Matches ('?' :: pattern) (c :: text)
  | literal {pattern text : List Char} {c : Char} :
    c ≠ '*' → c ≠ '?' → Matches pattern text → Matches (c :: pattern) (c :: text)

theorem suffixRow_literal_cons {x : Char} (hstar : x ≠ '*') (hmark : x ≠ '?')
    (pattern text : List Char) :
    suffixRow (x :: pattern) text = stepRow (· == x) text (suffixRow pattern text) := by
  rw [suffixRow]
  · exact hstar
  · exact hmark

/-- The row of a text is its first entry before the row of the text's tail. -/
theorem suffixRow_cons (c : Char) (text : List Char) : ∀ pattern : List Char,
    suffixRow pattern (c :: text) =
      (suffixRow pattern (c :: text)).headD false :: suffixRow pattern text
  | [] => rfl
  | x :: pattern => by
    have ih := suffixRow_cons c text pattern
    by_cases hstar : x = '*'
    · rw [hstar, suffixRow, suffixRow, ih]
      rfl
    · by_cases hmark : x = '?'
      · rw [hmark, suffixRow, suffixRow, ih]
        rfl
      · rw [suffixRow_literal_cons hstar hmark, suffixRow_literal_cons hstar hmark, ih]
        rfl

/-- Whether the pattern accepts the whole text, as a condition on the two. -/
def Fits (pattern text : List Char) : Prop := (suffixRow pattern text).headD false = true

theorem fits_nil_iff {text : List Char} : Fits [] text ↔ text = [] := by
  cases text <;> simp [Fits, suffixRow]

theorem fits_star_nil_iff {pattern : List Char} : Fits ('*' :: pattern) [] ↔ Fits pattern [] := by
  simp [Fits, suffixRow, starRow]

theorem fits_star_cons_iff {pattern text : List Char} {c : Char} :
    Fits ('*' :: pattern) (c :: text) ↔
      Fits pattern (c :: text) ∨ c ≠ '\n' ∧ Fits ('*' :: pattern) text := by
  unfold Fits
  rw [suffixRow, suffixRow, suffixRow_cons]
  simp [starRow]

theorem not_fits_step_nil {x : Char} {pattern : List Char} (hstar : x ≠ '*') :
    ¬ Fits (x :: pattern) [] := by
  unfold Fits
  by_cases hmark : x = '?'
  · simp [hmark, suffixRow, stepRow]
  · simp [suffixRow_literal_cons hstar hmark, stepRow]

theorem fits_mark_cons_iff {pattern text : List Char} {c : Char} :
    Fits ('?' :: pattern) (c :: text) ↔ c ≠ '\n' ∧ Fits pattern text := by
  unfold Fits
  rw [suffixRow, suffixRow_cons]
  simp [stepRow]

theorem fits_literal_cons_iff {pattern text : List Char} {x c : Char} (hstar : x ≠ '*')
    (hmark : x ≠ '?') : Fits (x :: pattern) (c :: text) ↔ c = x ∧ Fits pattern text := by
  unfold Fits
  rw [suffixRow_literal_cons hstar hmark, suffixRow_cons]
  simp [stepRow]

theorem fits_of_matches {pattern text : List Char} (h : Matches pattern text) :
    Fits pattern text := by
  induction h with
  | done => exact fits_nil_iff.2 rfl
  | @star pattern run text hrun _ ih =>
    induction run with
    | nil =>
      cases text with
      | nil => exact fits_star_nil_iff.2 ih
      | cons c text => exact fits_star_cons_iff.2 (.inl ih)
    | cons c run ihrun =>
      rw [List.mem_cons, not_or] at hrun
      exact fits_star_cons_iff.2 (.inr ⟨Ne.symm hrun.1, ihrun hrun.2⟩)
  | mark hc _ ih => exact fits_mark_cons_iff.2 ⟨hc, ih⟩
  | literal hstar hmark _ ih => exact (fits_literal_cons_iff hstar hmark).2 ⟨rfl, ih⟩

theorem matches_of_fits : ∀ {pattern text : List Char}, Fits pattern text → Matches pattern text
  | [], text, h => by
    rw [fits_nil_iff.1 h]
    exact .done
  | x :: pattern, text, h => by
    by_cases hstar : x = '*'
    · subst hstar
      -- The star takes characters of the text until the rest of the pattern accepts what is left.
      induction text with
      | nil =>
        exact @Matches.star pattern [] [] List.not_mem_nil (matches_of_fits (fits_star_nil_iff.1 h))
      | cons c text ih =>
        rcases fits_star_cons_iff.1 h with h | ⟨hc, h⟩
        · exact @Matches.star pattern [] _ List.not_mem_nil (matches_of_fits h)
        · cases ih h with
          | @star _ run rest hrun hrest =>
            have hrun : '\n' ∉ c :: run := by
              rw [List.mem_cons, not_or]
              exact ⟨Ne.symm hc, hrun⟩
            exact Matches.star hrun hrest
          | literal hother => exact absurd rfl hother
    · cases text with
      | nil => exact absurd h (not_fits_step_nil hstar)
      | cons c text =>
        by_cases hmark : x = '?'
        · subst hmark
          obtain ⟨hc, h⟩ := fits_mark_cons_iff.1 h
          exact .mark hc (matches_of_fits h)
        · obtain ⟨rfl, hrest⟩ := (fits_literal_cons_iff hstar hmark).1 h
          exact .literal hstar hmark (matches_of_fits hrest)

theorem accepts_iff_matches {pattern text : String} :
    accepts pattern text = true ↔ Matches pattern.toList text.toList :=
  ⟨matches_of_fits, fits_of_matches⟩

/-- What a pattern accepts starts with the character the pattern starts with, unless that is a wildcard. -/
theorem head?_eq_of_accepts {pattern text : String} (h : accepts pattern text = true)
    (hstar : pattern.toList.head? ≠ some '*') (hmark : pattern.toList.head? ≠ some '?') :
    text.toList.head? = pattern.toList.head? := by
  have hmatches := accepts_iff_matches.1 h
  generalize pattern.toList = p, text.toList = t at hmatches hstar hmark ⊢
  cases hmatches with
  | done => rfl
  | star => exact absurd rfl hstar
  | mark => exact absurd rfl hmark
  | literal => rfl

/-- A pattern that starts neither with a wildcard nor with a slash accepts no absolute path. -/
theorem accepts_forward_eq_false {pattern path : String}
    (hpattern : pattern.toList.head? ∉ [some '*', some '?', some '/'])
    (hpath : Path.isAbsolute path = true) : accepts pattern (Path.forward path) = false := by
  simp only [List.mem_cons, List.not_mem_nil, or_false, not_or] at hpattern
  obtain ⟨hstar, hmark, hslash⟩ := hpattern
  rw [Bool.eq_false_iff]
  intro haccepts
  have hhead := head?_eq_of_accepts haccepts hstar hmark
  rw [Path.head?_forward hpath] at hhead
  exact hslash hhead.symm

/-- With `*/` before it a pattern accepts what it accepts, below any directory. -/
theorem accepts_below {pattern text directory : String} (hfeed : '\n' ∉ directory.toList)
    (h : accepts pattern text = true) :
    accepts ("*/" ++ pattern) (directory ++ "/" ++ text) = true := by
  rw [accepts_iff_matches] at h ⊢
  have hslash : Matches ('/' :: pattern.toList) ('/' :: text.toList) :=
    .literal (by decide) (by decide) h
  simpa using Matches.star hfeed hslash

end Text.Glob

/-! ## Two spellings of a file -/

namespace Path

/-- A relative path is joined behind the directory's text and a slash. -/
theorem exists_join_eq {root : String} (hroot : isAbsolute root = true) :
    ∃ top, (root = top ∨ root = top ++ "/") ∧
      ∀ path, isAbsolute path = false → join root path = top ++ "/" ++ path := by
  have hne : root.isEmpty = false := by
    rw [String.isEmpty_eq_false_iff]
    rintro rfl
    cases hroot
  by_cases hslash : root.toList.getLast? = some '/'
  · obtain ⟨text, htext⟩ := List.getLast?_eq_some_iff.1 hslash
    have htop : root = String.ofList text ++ "/" := by
      rw [← String.toList_inj, htext]
      simp
    refine ⟨String.ofList text, .inr htop, ?_⟩
    intro path hpath
    simp [join, hpath, hne, hslash, ← htop]
  · refine ⟨root, .inl rfl, ?_⟩
    intro path hpath
    simp [join, hpath, hne, hslash]

theorem isAbsolute_forward {path : String} (hslash : path.toList.head? ≠ some '/')
    (hback : path.toList.head? ≠ some '\\') : isAbsolute (forward path) = false := by
  rw [isAbsolute, beq_eq_false_iff_ne, toList_forward hback, List.head?_map]
  cases hhead : path.toList.head? with
  | none => simp
  | some c =>
    rw [hhead, ne_eq, Option.some.injEq] at hslash hback
    simp [hslash, hback]

/-- Backslashes in a relative path are turned before or after it is joined to a root without any. -/
theorem forward_join {root path : String} (hroot : isAbsolute root = true)
    (hplain : '\\' ∉ root.toList) (hslash : path.toList.head? ≠ some '/')
    (hback : path.toList.head? ≠ some '\\') :
    forward (join root path) = join root (forward path) := by
  obtain ⟨top, htop, hjoin⟩ := exists_join_eq hroot
  have hpath : isAbsolute path = false := by
    rw [isAbsolute, beq_eq_false_iff_ne]
    exact hslash
  have hnone : '\\' ∉ top.toList := by
    rcases htop with rfl | rfl
    · exact hplain
    · exact fun hmem => hplain (by simp [hmem])
  have hhead : (join root path).toList.head? ≠ some '\\' := by
    have habsolute := isAbsolute_join hroot path
    rw [isAbsolute, beq_iff_eq] at habsolute
    rw [habsolute]
    decide
  rw [← String.toList_inj, toList_forward hhead, hjoin path hpath,
    hjoin _ (isAbsolute_forward hslash hback)]
  simp only [String.toList_append, List.map_append, map_turned_eq_self hnone,
    toList_forward hback]
  rfl

theorem join_of_isAbsolute {base path : String} (h : isAbsolute path = true) :
    join base path = path := by
  rw [join, h]
  rfl

end Path

/-- From the root both spellings of a file lead to the same place. -/
theorem IgnoreRule.resolve_forward_join {root path : String} (hroot : Path.isAbsolute root = true)
    (hplain : '\\' ∉ root.toList) (hslash : path.toList.head? ≠ some '/')
    (hback : path.toList.head? ≠ some '\\') :
    resolve root (Path.forward (Path.join root path)) = resolve root (Path.forward path) := by
  unfold resolve
  rw [Path.forward_join hroot hplain hslash hback,
    Path.join_of_isAbsolute (Path.isAbsolute_join hroot _)]

/-! ## Lists of rules -/

theorem IgnoreRule.covers_pattern (glob root path : String) :
    (pattern glob).covers root path = Text.Glob.accepts glob path := rfl

theorem IgnoreRule.covers_ofEntry_file (file root path : String) :
    (ofEntry root (.file file none)).covers root path = (resolve root file == resolve root path) := rfl

/-- Whether a file entry leads from the root to the same place as a path. -/
def NamesFile (root : String) (entries : List IgnoreEntry) (path : String) : Prop :=
  ∃ file, .file file none ∈ entries ∧ IgnoreRule.resolve root file = IgnoreRule.resolve root path

/-- Whether a pattern of the list, or one that every list has, accepts a text. -/
def PatternAccepts (entries : List IgnoreEntry) (text : String) : Prop :=
  ∃ glob, (.pattern glob ∈ entries ∨ glob ∈ IgnoreFilter.runtimePatterns) ∧
    Text.Glob.accepts glob text = true

theorem ignoresFile_ofEntries_iff (root : String) (entries : List IgnoreEntry) (path : String) :
    (IgnoreFilter.ofEntries root entries).ignoresFile path = true ↔
      NamesFile root entries (Path.forward path) ∨ PatternAccepts entries (Path.forward path) := by
  unfold IgnoreFilter.ignoresFile IgnoreFilter.ofEntries
  rw [List.any_eq_true]
  constructor
  · rintro ⟨rule, hrule, hcovers⟩
    rcases List.mem_append.1 hrule with hrule | hrule
    · obtain ⟨entry, hentry, rfl⟩ := List.mem_map.1 hrule
      cases entry with
      | pattern glob =>
        rw [IgnoreRule.ofEntry, IgnoreRule.covers_pattern] at hcovers
        exact .inr ⟨glob, .inl hentry, hcovers⟩
      | file file lines =>
        cases lines with
        | none =>
          rw [IgnoreRule.covers_ofEntry_file, beq_iff_eq] at hcovers
          exact .inl ⟨file, hentry, hcovers⟩
        | some numbers =>
          rw [IgnoreRule.ofEntry, IgnoreRule.covers] at hcovers
          cases hcovers
    · obtain ⟨glob, hglob, rfl⟩ := List.mem_map.1 hrule
      rw [IgnoreRule.covers_pattern] at hcovers
      exact .inr ⟨glob, .inr hglob, hcovers⟩
  · rintro (⟨file, hentry, hsame⟩ | ⟨glob, hglob | hglob, haccepts⟩)
    · refine ⟨_, List.mem_append_left _ (List.mem_map_of_mem hentry), ?_⟩
      rw [IgnoreRule.covers_ofEntry_file, beq_iff_eq]
      exact hsame
    · exact ⟨_, List.mem_append_left _ (List.mem_map_of_mem hglob), haccepts⟩
    · exact ⟨_, List.mem_append_right _ (List.mem_map_of_mem hglob), haccepts⟩

/-- A list of rules gives a file the same answer under both its spellings exactly where a file entry names
it or the patterns agree on the two texts. Each rule on one file covers both spellings or none. A
pattern that starts with a character of its own covers no collected asset; with `*/` before it a pattern
covers the absolute spelling of what it covers. -/
theorem spelling_shows_in_patterns (entries : List IgnoreEntry) {root path : String}
    (hroot : Path.isAbsolute root = true) (hplain : '\\' ∉ root.toList)
    (hslash : path.toList.head? ≠ some '/') (hback : path.toList.head? ≠ some '\\') :
    ((IgnoreFilter.ofEntries root entries).ignoresFile path =
        (IgnoreFilter.ofEntries root entries).ignoresFile (Path.join root path) ↔
      NamesFile root entries (Path.forward path) ∨
        (PatternAccepts entries (Path.forward path) ↔
          PatternAccepts entries (Path.forward (Path.join root path)))) ∧
    (∀ file, (IgnoreRule.ofEntry root (.file file none)).covers root (Path.forward path) =
      (IgnoreRule.ofEntry root (.file file none)).covers root (Path.forward (Path.join root path))) ∧
    (∀ glob : String, glob.toList.head? ∉ [some '*', some '?', some '/'] →
      ∀ (disk : Disk) (settings : Dependency.Settings) (target : String) (assets : AssetMap),
        settings.base = root → Dependency.collect disk settings target = .ok assets →
        ∀ asset ∈ assets.all,
          (IgnoreRule.pattern glob).covers root (Path.forward asset.name) = false) ∧
    ('\n' ∉ root.toList → ∀ glob : String,
      (IgnoreRule.pattern glob).covers root (Path.forward path) = true →
      (IgnoreRule.pattern ("*/" ++ glob)).covers root (Path.forward (Path.join root path)) = true) := by
  have hresolve := IgnoreRule.resolve_forward_join hroot hplain hslash hback
  refine ⟨?_, ?_, ?_, ?_⟩
  · have hnames : NamesFile root entries (Path.forward (Path.join root path)) ↔
        NamesFile root entries (Path.forward path) := by
      unfold NamesFile
      rw [hresolve]
    rw [Bool.eq_iff_iff, ignoresFile_ofEntries_iff, ignoresFile_ofEntries_iff, hnames]
    by_cases hnamed : NamesFile root entries (Path.forward path)
    · simp only [hnamed, true_or]
    · simp only [hnamed, false_or]
  · intro file
    rw [IgnoreRule.covers_ofEntry_file, IgnoreRule.covers_ofEntry_file, hresolve]
  · rintro glob hglob disk settings target assets rfl hcollect asset hasset
    have hname : Path.isAbsolute asset.name = true := by
      rw [Path.isAbsolute, beq_iff_eq]
      exact Dependency.head?_name_of_mem_collect hroot hcollect hasset
    rw [IgnoreRule.covers_pattern]
    exact Text.Glob.accepts_forward_eq_false hglob hname
  · intro hfeed glob hcovers
    obtain ⟨top, htop, hjoin⟩ := Path.exists_join_eq hroot
    have hnone : '\n' ∉ top.toList := by
      rcases htop with rfl | rfl
      · exact hfeed
      · exact fun hmem => hfeed (by simp [hmem])
    rw [IgnoreRule.covers_pattern] at hcovers ⊢
    rw [Path.forward_join hroot hplain hslash hback,
      hjoin _ (Path.isAbsolute_forward hslash hback)]
    exact Text.Glob.accepts_below hnone hcovers

theorem legacy_pattern_misses_collected :
    let entries : List IgnoreEntry := [.pattern "src/legacy/*", .file "src/a.js" none]
    let filter := IgnoreFilter.ofEntries "/project" entries
    let disk : Disk := ⟨["project"], [(["project", "src", "legacy", "a.js"], .text "")]⟩
    let assets : AssetMap := ⟨[⟨"/project/src/legacy/a.js", "", none⟩], [], []⟩
    Dependency.collect disk { base := "/project" } "src" = .ok assets ∧
    (∀ asset ∈ assets.all,
      (IgnoreRule.pattern "src/legacy/*").covers "/project" (Path.forward asset.name) = false) ∧
    (IgnoreRule.pattern "*/src/legacy/*").covers "/project"
      (Path.forward (Path.join "/project" "src\\legacy\\a.js")) = true ∧
    (filter.ignoresFile "src/a.js" = filter.ignoresFile (Path.join "/project" "src/a.js")) := by
  intro entries filter disk assets
  have hcollect : Dependency.collect disk { base := "/project" } "src" = .ok assets := by
    decide +kernel
  have hlegacy := spelling_shows_in_patterns entries
    (by decide : Path.isAbsolute "/project" = true) (by decide)
    (by decide : ("src\\legacy\\a.js").toList.head? ≠ some '/') (by decide)
  have hfile := spelling_shows_in_patterns entries
    (by decide : Path.isAbsolute "/project" = true) (by decide)
    (by decide : "src/a.js".toList.head? ≠ some '/') (by decide)
  refine ⟨hcollect, ?_, ?_, ?_⟩
  · exact hlegacy.2.2.1 "src/legacy/*" (by decide) disk _ "src" assets rfl hcollect
  · exact hlegacy.2.2.2 (by decide) "src/legacy/*" (by decide +kernel)
  · exact hfile.1.2 (.inl ⟨"src/a.js", by decide, by decide +kernel⟩)

/-- The two spellings get different answers: from a pattern that starts with a directory below the root,
under a root with a backslash, and for a path that starts with one. -/
theorem spellings_answered_differently :
    let legacy := IgnoreFilter.ofEntries "/project" [.pattern "src/legacy/*"]
    let crooked := IgnoreFilter.ofEntries "/pro\\ject" [.file "a.js" none]
    let etc := IgnoreFilter.ofEntries "/project" [.file "etc/x.js" none]
    legacy.ignoresFile "src/legacy/a.js" = true ∧
    legacy.ignoresFile (Path.join "/project" "src/legacy/a.js") = false ∧
    crooked.ignoresFile "a.js" = true ∧
    crooked.ignoresFile (Path.join "/pro\\ject" "a.js") = false ∧
    etc.ignoresFile "\\etc\\x.js" = false ∧
    etc.ignoresFile (Path.join "/project" "\\etc\\x.js") = true := by
  decide +kernel

end AssetAudit
