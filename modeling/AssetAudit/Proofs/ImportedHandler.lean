import AssetAudit.Proofs.DefinitionLookup

/-!
# Handlers that two files import

A scan follows imports under its options, the search for a declaration under settings of its own: no
aliases, the extensions of scripts only, and one ignored text. Where neither an alias nor that text has a
part in an import that leads to a script, both find the same file (`resolve?_search`): the paths that
only the scan tries are those of style sheets.

So a file that a script imports is among those the search goes through, and a file which that one
imports is too (`Imports.mem_reachable`, `Imports.mem_reachable_next`). The search goes by the name of
the handler and takes the first declaration it meets. Two listeners whose files import a handler from
the same file have the same key if they name it alike and meet no other declaration of that name
before (`imported_handlers_share_key`), and need not otherwise (`imports_without_shared_key`).
-/
namespace AssetAudit

theorem Disk.isFile_of_read? {disk : Disk} {path content : String}
    (h : disk.read? path = some content) : disk.isFile path = true := by
  unfold read? at h
  unfold isFile
  split at h
  · rename_i found hfound
    rw [hfound]
  · cases h

/-! ## The specifiers of a script -/

namespace Dependency

/-- The module specifiers of a script, in their order. A file that is no script, or that cannot be read
or parsed, has none. -/
def specifiersOf (disk : Disk) (file : String) : List String :=
  if scriptExtensions.contains (Path.extension file) then
    match disk.read? file with
    | none => []
    | some content =>
      let dialect := (Script.Dialect.ofExtension? (Path.extension file)).getD .javascript
      match Script.extract ⟨dialect, false, []⟩ content with
      | .ok facts => facts.specifiers
      | .error _ => []
  else []

variable {disk : Disk} {settings : Settings} {file specifier target : String}

theorem isFile_of_mem_specifiersOf (h : specifier ∈ specifiersOf disk file) :
    disk.isFile file = true := by
  unfold specifiersOf at h
  split at h
  · split at h
    · cases h
    · rename_i content hread
      exact Disk.isFile_of_read? hread
  · cases h

theorem mem_edges_of_specifier (h : specifier ∈ specifiersOf disk file)
    (hresolve : resolve? disk settings (Path.directory file) specifier = some target) :
    target ∈ edges disk settings file := by
  unfold specifiersOf at h
  split at h
  · rename_i hscript
    split at h
    · cases h
    · rename_i content hread
      dsimp only at h
      split at h
      · rename_i facts hfacts
        simp only [edges, hread, hscript, if_true, ofScript, hfacts]
        exact List.mem_filterMap.2 ⟨specifier, h, hresolve⟩
      · cases h
  · cases h

/-! ## Two ways to resolve a specifier -/

/-- Without an alias the path a specifier stands for hangs on the base only. -/
theorem candidate?_of_unaliased (settings others : Settings) (hbase : settings.base = others.base)
    (h : matchingAlias? settings.aliases specifier = none)
    (hothers : matchingAlias? others.aliases specifier = none) (directory : String) :
    candidate? settings directory specifier = candidate? others directory specifier := by
  unfold candidate?
  rw [h, hothers, hbase]

/-- What is found outside of a part of a list is found without that part. -/
theorem find?_without_middle {α : Type} {p : α → Bool} {front middle back : List α} {item : α}
    (h : (front ++ (middle ++ back)).find? p = some item) (hmiddle : item ∉ middle) :
    (front ++ back).find? p = some item := by
  rw [List.find?_append, List.find?_append] at h
  rw [List.find?_append]
  cases hfound : middle.find? p with
  | none => rwa [hfound, Option.none_or] at h
  | some other =>
    cases hfront : front.find? p with
    | some first => rwa [hfront, Option.some_or] at h
    | none =>
      rw [hfront, hfound, Option.none_or, Option.some_or] at h
      rw [Option.some.inj h] at hfound
      exact absurd (List.mem_of_find?_eq_some hfound) hmiddle

/-- Extensions that are tried behind others say nothing about a file that has none of them. -/
theorem find?_variants_of_append {others : Settings} {more : List String} {candidate : String}
    {p : String → Bool} (hextensions : settings.extensions = others.extensions ++ more)
    (h : (variants settings candidate).find? p = some target)
    (hfile : target ∉ more.map (candidate ++ ·))
    (hindex : target ∉ more.map fun extension => Path.join candidate ("index" ++ extension)) :
    (variants others candidate).find? p = some target := by
  unfold variants at h ⊢
  rw [hextensions, List.map_append, List.map_append, List.append_assoc, ← List.cons_append] at h
  have hshort := find?_without_middle h hfile
  rw [← List.append_assoc, ← List.append_nil (more.map _), ← List.append_assoc,
    List.append_assoc _ (more.map _)] at hshort
  have hown := find?_without_middle hshort hindex
  rwa [List.append_nil, List.cons_append] at hown

/-- A path with the ending of a style sheet is not one of a script. -/
theorem extension_append_style (path : String) {ending : String} (h : ending ∈ styleExtensions) :
    Path.extension (path ++ ending) ∉ [".js", ".jsx", ".ts", ".tsx"] := by
  have happend : ∀ back : List Char, '.' ∉ back → Path.IsNamePart (String.ofList ('.' :: back)) →
      "." ++ Text.lowercase (String.ofList back) ∉ [".js", ".jsx", ".ts", ".tsx"] →
      Path.extension (path ++ String.ofList ('.' :: back)) ∉ [".js", ".jsx", ".ts", ".tsx"] := by
    intro back hdot hpart hother
    rcases Path.extension_append path hdot hpart with hext | hext
    · rw [hext]
      decide
    · rw [hext]
      exact hother
  simp only [styleExtensions, List.mem_cons, List.not_mem_nil, or_false] at h
  rcases h with rfl | rfl | rfl
  · exact happend "css".toList (by decide) ⟨by decide, 'c', by decide, by decide⟩ (by decide +kernel)
  · exact happend "scss".toList (by decide) ⟨by decide, 's', by decide, by decide⟩ (by decide +kernel)
  · exact happend "less".toList (by decide) ⟨by decide, 'l', by decide, by decide⟩ (by decide +kernel)

end Dependency

namespace Analysis

open Dependency (Settings Chain Qualifies specifiersOf resolve? matchingAlias? reachable)
open Memory (searchSettings)
open Listener (projectOf resolveKey resolveKeys sourceFile)

/-- An import that the options of a scan resolve to a script without an alias is resolved alike by the
search. -/
theorem resolve?_search {disk : Disk} {root directory specifier target : String} {options : Options}
    (halias : matchingAlias? options.aliases specifier = none)
    (hresolve : resolve? disk (.ofOptions root options) directory specifier = some target)
    (hscript : Path.extension target ∈ [".js", ".jsx", ".ts", ".tsx"]) :
    resolve? disk (searchSettings root) directory specifier = some target := by
  obtain ⟨candidate, hcandidate, hfind⟩ := Option.bind_eq_some_iff.1 hresolve
  have hsame : Dependency.candidate? (searchSettings root) directory specifier = some candidate := by
    rw [← hcandidate]
    exact Dependency.candidate?_of_unaliased (searchSettings root) (.ofOptions root options) rfl rfl
      halias directory
  have hfile : target ∉ Dependency.styleExtensions.map (candidate ++ ·) := by
    intro hmem
    obtain ⟨ending, hending, rfl⟩ := List.mem_map.1 hmem
    exact Dependency.extension_append_style candidate hending hscript
  have hindex : target ∉ Dependency.styleExtensions.map fun ending =>
      Path.join candidate ("index" ++ ending) := by
    intro hmem
    obtain ⟨ending, hending, rfl⟩ := List.mem_map.1 hmem
    rcases Dependency.join_index candidate ending with hjoin | hjoin
    · rw [hjoin, ← String.append_assoc] at hscript
      exact Dependency.extension_append_style _ hending hscript
    · rw [hjoin, ← String.append_assoc] at hscript
      exact Dependency.extension_append_style _ hending hscript
  unfold resolve?
  rw [hsame, Option.bind_some]
  exact Dependency.find?_variants_of_append rfl hfind hfile hindex

/-! ## Imports that the search follows -/

/-- The script at a path imports another one in a way that the search for declarations follows. -/
structure Imports (audit : Audit) (file specifier target : String) : Prop where
  named : specifier ∈ specifiersOf audit.disk file
  unaliased : matchingAlias? audit.options.aliases specifier = none
  /-- Under the options of the scan the specifier leads to the file. -/
  resolved : resolve? audit.disk (.ofOptions audit.root audit.options) (Path.directory file)
    specifier = some target
  script : Path.extension target ∈ [".js", ".jsx", ".ts", ".tsx"]
  /-- The search leaves neither file out. -/
  enters : ∀ path ∈ [file, target], (searchSettings audit.root).ignoresPath path = false

instance (audit : Audit) (file specifier target : String) :
    Decidable (Imports audit file specifier target) :=
  decidable_of_iff (_ ∧ _ ∧ _ ∧ _ ∧ _)
    ⟨fun h => ⟨h.1, h.2.1, h.2.2.1, h.2.2.2.1, h.2.2.2.2⟩,
      fun h => ⟨h.named, h.unaliased, h.resolved, h.script, h.enters⟩⟩

namespace Imports

variable {audit : Audit} {file specifier target start : String}

theorem resolved_search (h : Imports audit file specifier target) :
    resolve? audit.disk (searchSettings audit.root) (Path.directory file) specifier = some target :=
  resolve?_search h.unaliased h.resolved h.script

theorem qualifies_file (h : Imports audit file specifier target) :
    Qualifies audit.disk (searchSettings audit.root) file :=
  ⟨Dependency.isFile_of_mem_specifiersOf h.named, h.enters file (by simp)⟩

theorem next (h : Imports audit file specifier target) {length : Nat}
    (hchain : Chain audit.disk (searchSettings audit.root) start length file) :
    Chain audit.disk (searchSettings audit.root) start (length + 1) target := by
  obtain ⟨candidate, -, hfind⟩ := Option.bind_eq_some_iff.1 h.resolved
  have hfile : audit.disk.isFile target = true := List.find?_some hfind
  exact .next hchain (Dependency.mem_edges_of_specifier h.named h.resolved_search)
    ⟨hfile, h.enters target (by simp)⟩

theorem isNormal (h : Imports audit file specifier target) : Path.IsNormal target := by
  obtain ⟨candidate, hcandidate, hfind⟩ := Option.bind_eq_some_iff.1 h.resolved_search
  exact Dependency.variants_isNormal (searchSettings_isNamePart audit.root)
    (Dependency.candidate?_isNormal hcandidate) (List.mem_of_find?_eq_some hfind)

end Imports

/-- A file at the end of a chain is reached, if the chain is not longer than the search goes. -/
theorem mem_reachable_of_chain {disk : Disk} {root file target : String} {length : Nat}
    (hchain : Chain disk (searchSettings root) (Path.normalize (Path.join root file)) length target)
    (hlength : length ≤ Memory.searchDepth) (htarget : Path.IsNormal target) :
    target ∈ reachable disk (searchSettings root) file := by
  obtain ⟨result, hwalk, hresult⟩ := Dependency.walk_reachable disk (searchSettings root) file
  have hinv := hwalk.inv (Dependency.walkInv_start disk (searchSettings root) _)
  have hallows : (searchSettings root).Allows length := by
    intro limit hlimit
    cases hlimit
    exact hlength
  obtain ⟨entry, hentry, hcomponents, -⟩ := hinv.visited_of_chain hchain hallows
  have hmem : entry.1 ∈ reachable disk (searchSettings root) file := by
    rw [← hresult]
    exact List.mem_map_of_mem hentry
  have hnormal := Dependency.reachable_isNormal (searchSettings_isNamePart root) hmem
  rwa [hnormal.eq_of_components htarget hcomponents] at hmem

section

variable {audit : Audit} {file specifier specifier' target further : String}

theorem Imports.mem_reachable
    (h : Imports audit (Path.normalize (Path.join audit.root file)) specifier target) :
    target ∈ reachable audit.disk (searchSettings audit.root) file :=
  mem_reachable_of_chain (h.next (.here h.qualifies_file)) (by decide) h.isNormal

theorem Imports.mem_reachable_next
    (h : Imports audit (Path.normalize (Path.join audit.root file)) specifier target)
    (hnext : Imports audit target specifier' further) :
    further ∈ reachable audit.disk (searchSettings audit.root) file :=
  mem_reachable_of_chain (hnext.next (h.next (.here h.qualifies_file))) (by decide) hnext.isNormal

end

/-! ## The memory of a scan -/

/-- What is remembered of the imports of a file holds for every spelling of its path. -/
theorem Sound.fst_dependenciesOf {project : Project} {files : List SurveyedFile} {memory : Memory}
    (h : Sound project files memory) (file : String) :
    (memory.dependenciesOf project.disk project.root file).1 =
      reachable project.disk (searchSettings project.root) file := by
  unfold Memory.dependenciesOf
  split
  · rename_i found hfound
    obtain ⟨other, -, heq⟩ := h.dependencies _ (mem_of_lookup hfound)
    obtain ⟨hcomponents, hreached⟩ := Prod.mk.inj heq
    rw [hreached, reachable, reachable, Path.normalize_join_path_congr hcomponents]
  · dsimp only

/-- What is remembered after some lookups of a scan. -/
def memoryAfter (audit : Audit) (queries : List (Script.Listener × SourceMap.Origin)) : Memory :=
  (resolveKeys audit queries (.ofFiles audit.root audit.files)).2

theorem sound_memoryAfter (audit : Audit) (queries : List (Script.Listener × SourceMap.Origin)) :
    Sound (projectOf audit) audit.files (memoryAfter audit queries) :=
  (Listener.resolveKeys_eq queries (sound_ofFiles (projectOf audit) audit.files)).2

/-! ## Handlers from one file -/

/-- The first file of a list that declares a handler gives its key. -/
theorem declaredIn?_of_first {project : Project} {files : List SurveyedFile} {handler : String}
    {paths : List String} {declaring : String} (hmem : declaring ∈ paths)
    (hfirst : declaredIn? project files handler (paths.takeWhile (· ≠ declaring)) = none)
    (hdeclared : (declaredIn? project files handler [declaring]).isSome) :
    declaredIn? project files handler paths = declaredIn? project files handler [declaring] := by
  obtain ⟨before, after, rfl, hbefore⟩ := List.eq_append_cons_of_mem hmem
  have hothers : ∀ path ∈ before, decide (path ≠ declaring) = true := by
    intro path hpath
    rw [decide_eq_true_iff]
    rintro rfl
    exact hbefore hpath
  rw [List.takeWhile_append_of_pos hothers, List.takeWhile_cons_of_neg (by simp),
    List.append_nil] at hfirst
  obtain ⟨key, hkey⟩ := Option.isSome_iff_exists.1 hdeclared
  rw [declaredIn?_append, hfirst, Option.none_or, ← List.singleton_append, declaredIn?_append, hkey,
    Option.some_or]

/-- The file of a listener imports its handler from `target`, and `declaring` is where the search
finds it: `target` itself or a file that `target` imports, and none that is searched before it declares
a handler of that name. -/
structure ImportsHandler (audit : Audit) (listener : Script.Listener) (origin : SourceMap.Origin)
    (specifier target declaring : String) : Prop where
  known : origin.isKnown = true
  imports : Imports audit (Path.normalize (Path.join audit.root (sourceFile audit.root origin)))
    specifier target
  provides : declaring = target ∨ ∃ specifier', Imports audit target specifier' declaring
  declared : (declaredIn? (projectOf audit) audit.files listener.definition [declaring]).isSome
  first :
    let source := sourceFile audit.root origin
    let searched := (source :: importsOf (projectOf audit) source).takeWhile (· ≠ declaring)
    declaredIn? (projectOf audit) audit.files listener.definition searched = none

theorem ImportsHandler.key_eq {audit : Audit} {listener : Script.Listener} {origin : SourceMap.Origin}
    {specifier target declaring : String}
    (h : ImportsHandler audit listener origin specifier target declaring)
    (queries : List (Script.Listener × SourceMap.Origin)) :
    (resolveKey audit listener origin (memoryAfter audit queries)).1 =
      declaredIn? (projectOf audit) audit.files listener.definition [declaring] := by
  have hreached : declaring ∈ reachable audit.disk (searchSettings audit.root)
      (sourceFile audit.root origin) := by
    rcases h.provides with rfl | ⟨specifier', hnext⟩
    · exact h.imports.mem_reachable
    · exact h.imports.mem_reachable_next hnext
  have hmem : declaring ∈ sourceFile audit.root origin ::
      importsOf (projectOf audit) (sourceFile audit.root origin) := by
    by_cases hown : declaring = sourceFile audit.root origin
    · rw [hown]
      exact List.mem_cons_self
    · exact List.mem_cons_of_mem _ (List.mem_filter.2 ⟨hreached, decide_eq_true hown⟩)
  rw [(Listener.resolveKey_eq (sound_memoryAfter audit queries) listener origin).1]
  unfold Listener.keyOf?
  rw [if_neg ((Listener.isKnown_iff origin).1 h.known)]
  exact declaredIn?_of_first hmem h.first h.declared

/-- A script that a file imports is among the files its search goes through, whatever was looked up
before. A registration and a removal whose files import a handler of one name from the same file have
the same key, that of its declaration, if the search of neither meets another one of that name before. -/
theorem imported_handlers_share_key (audit : Audit) :
    (∀ queries file specifier target,
      Imports audit (Path.normalize (Path.join audit.root file)) specifier target →
      target ∈ ((memoryAfter audit queries).dependenciesOf audit.disk audit.root file).1) ∧
    ∀ (added removed : Script.Listener) (addedAt removedAt : SourceMap.Origin)
      (specifier specifier' target declaring : String), added.definition = removed.definition →
      ImportsHandler audit added addedAt specifier target declaring →
      ImportsHandler audit removed removedAt specifier' target declaring →
      ∃ key, declaredIn? (projectOf audit) audit.files added.definition [declaring] = some key ∧
        ∀ queries, (resolveKey audit added addedAt (memoryAfter audit queries)).1 = some key ∧
          (resolveKey audit removed removedAt (memoryAfter audit queries)).1 = some key := by
  constructor
  · intro queries file specifier target himports
    have hdependencies := (sound_memoryAfter audit queries).fst_dependenciesOf file
    simp only [projectOf] at hdependencies
    rw [hdependencies]
    exact himports.mem_reachable
  · intro added removed addedAt removedAt specifier specifier' target declaring hname hadded hremoved
    obtain ⟨key, hkey⟩ := Option.isSome_iff_exists.1 hadded.declared
    refine ⟨key, hkey, fun queries => ⟨?_, ?_⟩⟩
    · rw [hadded.key_eq, hkey]
    · rw [hremoved.key_eq, ← hname, hkey]

theorem exported_handler_shares_key :
    let disk : Disk := ⟨["app"], [
      (["app", "src", "a.js"], .text "import \x7b h \x7d from './g';\n"),
      (["app", "b.ts"], .text "import \x7b h \x7d from './src/g';\n"),
      (["app", "src", "g.ts"], .text "export \x7b h \x7d from './h';\n"),
      (["app", "src", "h.js"], .text "export function h() \x7b\x7d\n")]⟩
    let audit : Audit := ⟨disk, "/app", { compile := false }, .ofEntries "/app" [], []⟩
    let added : Script.Listener :=
      ⟨.addEventListener, "click", "window", "", ⟨⟨2, 1⟩, ⟨2, 36⟩⟩, "h", false⟩
    let removed : Script.Listener :=
      ⟨.removeEventListener, "click", "window", "", ⟨⟨2, 1⟩, ⟨2, 39⟩⟩, "h", false⟩
    let addedAt : SourceMap.Origin := ⟨none, "src/a.js", none, none, none⟩
    let removedAt : SourceMap.Origin := ⟨none, "b.ts", none, none, none⟩
    ImportsHandler audit added addedAt "./g" "/app/src/g.ts" "/app/src/h.js" ∧
    ImportsHandler audit removed removedAt "./src/g" "/app/src/g.ts" "/app/src/h.js" ∧
    (∀ queries, "/app/src/g.ts" ∈
      ((memoryAfter audit queries).dependenciesOf disk "/app" (sourceFile "/app" addedAt)).1) ∧
    ∃ key, declaredIn? (projectOf audit) audit.files "h" ["/app/src/h.js"] = some key ∧
      ∀ queries, (resolveKey audit added addedAt (memoryAfter audit queries)).1 = some key ∧
        (resolveKey audit removed removedAt (memoryAfter audit queries)).1 = some key := by
  intro disk audit added removed addedAt removedAt
  have hfound :
      let place (origin : SourceMap.Origin) :=
        Path.normalize (Path.join audit.root (sourceFile audit.root origin))
      let declared (paths : List String) := declaredIn? (projectOf audit) audit.files "h" paths
      Imports audit "/app/src/g.ts" "./h" "/app/src/h.js" ∧
      Imports audit (place addedAt) "./g" "/app/src/g.ts" ∧
      Imports audit (place removedAt) "./src/g" "/app/src/g.ts" ∧
      (declared ["/app/src/h.js"]).isSome ∧
      ∀ source ∈ [sourceFile audit.root addedAt, sourceFile audit.root removedAt],
        declared ((source :: importsOf (projectOf audit) source).takeWhile (· ≠ "/app/src/h.js")) =
          none := by
    decide +kernel
  obtain ⟨hnext, hadds, hremoves, hdeclared, hfirst⟩ := hfound
  have hadded : ImportsHandler audit added addedAt "./g" "/app/src/g.ts" "/app/src/h.js" :=
    ⟨rfl, hadds, .inr ⟨"./h", hnext⟩, hdeclared, hfirst _ (by simp)⟩
  have hremoved : ImportsHandler audit removed removedAt "./src/g" "/app/src/g.ts" "/app/src/h.js" :=
    ⟨rfl, hremoves, .inr ⟨"./h", hnext⟩, hdeclared, hfirst _ (by simp)⟩
  obtain ⟨hsearched, hkeys⟩ := imported_handlers_share_key audit
  exact ⟨hadded, hremoved, fun queries => hsearched queries _ _ _ hadded.imports,
    hkeys added removed addedAt removedAt _ _ _ _ rfl hadded hremoved⟩

/-- Two files import one handler from `g.js`, and the first has another declaration of that name in a
function, which its search meets before. A file under an ignored path and one whose import needs an
alias do not reach `g.js`, though the scan does. -/
theorem imports_without_shared_key :
    let disk : Disk := ⟨["app"], [
      (["app", "src", "a.js"],
        .text "import \x7b h \x7d from './g';\nfunction f() \x7b function h() \x7b\x7d \x7d\n"),
      (["app", "src", "b.js"], .text "import \x7b h \x7d from './g';\n"),
      (["app", "src", "c.js"], .text "import \x7b h \x7d from '@/g';\n"),
      (["app", "node_modules", "d.js"], .text "import \x7b h \x7d from '../src/g';\n"),
      (["app", "src", "g.js"], .text "export function h() \x7b\x7d\n")]⟩
    let options : Options := { compile := false, aliases := [("@", "src")] }
    let audit : Audit := ⟨disk, "/app", options, .ofEntries "/app" [], []⟩
    let settings := Settings.ofOptions "/app" options
    let listener : Script.Listener :=
      ⟨.addEventListener, "click", "window", "", ⟨⟨3, 1⟩, ⟨3, 36⟩⟩, "h", false⟩
    let keyIn (source : String) := (resolveKey audit listener ⟨none, source, none, none, none⟩ {}).1
    let filesOf (file : String) := (Memory.dependenciesOf disk "/app" file {}).1
    settings.ignoresPath "/app/src/g.js" = false ∧
    ("./g" ∈ specifiersOf disk "/app/src/a.js" ∧ "./g" ∈ specifiersOf disk "/app/src/b.js" ∧
      resolve? disk settings "/app/src" "./g" = some "/app/src/g.js" ∧
      keyIn "src/a.js" ≠ keyIn "src/b.js") ∧
    ("../src/g" ∈ specifiersOf disk "/app/node_modules/d.js" ∧
      resolve? disk settings "/app/node_modules" "../src/g" = some "/app/src/g.js" ∧
      "/app/src/g.js" ∉ filesOf "/app/node_modules/d.js") ∧
    ("@/g" ∈ specifiersOf disk "/app/src/c.js" ∧
      resolve? disk settings "/app/src" "@/g" = some "/app/src/g.js" ∧
      "/app/src/g.js" ∉ filesOf "/app/src/c.js") := by
  decide +kernel

end Analysis
end AssetAudit
