import AssetAudit.Proofs.DiskPlace
import AssetAudit.Proofs.LocatedPlace
import Mathlib.Data.List.Nodup

/-!
# Listed sources

The text of a map is read twice: as a map, to look up where places come from, and for its list of
sources alone, to ask the rules about them. Where a place leads to a file that can be read, the file is
one of the list, under the root directory that the map states (`located_source_listed`). So without a
root directory both readings speak of the same sources.

The map has to be written without a guard line and without sections: a guard line hides the list, and
sections bring sources of their own (`unlisted_sources`). An entry that is null has no name and leads to
a directory at most (`read?_null`).
-/
namespace AssetAudit

/-! ## Records -/

namespace Json

theorem length_eraseDups_le : ∀ keys : List String, keys.eraseDups.length ≤ keys.length
  | [] => Nat.le_refl 0
  | key :: keys => by
    have hfilter := List.length_filter_le (fun other => !other == key) keys
    have hle := length_eraseDups_le (keys.filter fun other => !other == key)
    rw [List.eraseDups_cons, List.length_cons, List.length_cons]
    omega
termination_by keys => keys.length
decreasing_by
  have := List.length_filter_le (fun other => !other == key) keys
  rw [List.length_cons]
  omega

theorem length_eraseDups_eq_iff : ∀ {keys : List String},
    keys.eraseDups.length = keys.length ↔ keys.Nodup
  | [] => by simp
  | key :: keys => by
    have hfilter := List.length_filter_le (fun other => !other == key) keys
    have hle := length_eraseDups_le (keys.filter fun other => !other == key)
    have hself : keys.filter (fun other => !other == key) = keys ↔ key ∉ keys := by
      rw [List.filter_eq_self]
      constructor
      · intro h hkey
        simpa using h key hkey
      · intro h other hother
        simpa using fun (heq : other = key) => h (heq ▸ hother)
    rw [List.eraseDups_cons, List.length_cons, List.length_cons, List.nodup_cons, ← hself,
      ← length_eraseDups_eq_iff]
    constructor
    · -- Nothing is lost, so the filter keeps every key.
      intro h
      have hall : keys.filter (fun other => !other == key) = keys :=
        List.filter_sublist.eq_of_length (by omega)
      rw [hall] at h
      exact ⟨hall, by omega⟩
    · rintro ⟨hall, h⟩
      rw [hall, h]

theorem record?_object_eq_some {keys : List String} {fields known : List (String × Value)} :
    (Value.object fields).record? keys = some known ↔
      known = fields.filter (fun field => keys.contains field.1) ∧ (known.map (·.1)).Nodup := by
  have hcount : (known.map (·.1)).eraseDups.length = known.length ↔ (known.map (·.1)).Nodup := by
    rw [← length_eraseDups_eq_iff, List.length_map]
  simp only [Value.record?, Option.ite_none_right_eq_some, beq_iff_eq, Option.some.injEq]
  constructor
  · rintro ⟨h, rfl⟩
    exact ⟨rfl, hcount.1 h⟩
  · rintro ⟨rfl, h⟩
    exact ⟨hcount.2 h, rfl⟩

/-- A record with some of the keys can be read where one with all of them can. -/
theorem record?_of_subset {keys fewer : List String} {fields known : List (String × Value)}
    (hsubset : fewer ⊆ keys) (h : (Value.object fields).record? keys = some known) :
    (Value.object fields).record? fewer =
      some (fields.filter fun field => fewer.contains field.1) := by
  obtain ⟨rfl, hnodup⟩ := record?_object_eq_some.1 h
  refine record?_object_eq_some.2 ⟨rfl, hnodup.sublist (List.Sublist.map _ ?_)⟩
  refine List.monotone_filter_right fields ?_
  intro field hfield
  simp only [List.contains_iff_mem] at hfield ⊢
  exact hsubset hfield

theorem lookup_filter {keys : List String} {key : String} (hkey : key ∈ keys) :
    ∀ fields : List (String × Value),
      (fields.filter fun field => keys.contains field.1).lookup key = fields.lookup key
  | [] => rfl
  | (other, v) :: fields => by
    have ih := lookup_filter hkey fields
    by_cases hother : key = other
    · subst hother
      simp [hkey]
    · have hne : (key == other) = false := beq_eq_false_iff_ne.2 hother
      rw [List.filter_cons, List.lookup_cons, hne, ← ih]
      split
      · rw [List.lookup_cons, hne]
      · rfl

end Json

namespace SourceMap

open Json (parse? Value)

/-! ## The list of a map -/

/-- A field of the object that a text writes. -/
def fieldOf? (text key : String) : Option Value :=
  match parse? text with
  | some (.object fields) => fields.lookup key
  | _ => none

/-- The root directory that the text of a map states. -/
def sourceRoot (text : String) : String := ((fieldOf? text "sourceRoot").bind Value.string?).getD ""

/-- A field is what its decoder gives, if null is nothing to that. -/
theorem field?_eq_some {α : Type} {fields : List (String × Value)} {key : String}
    {decode : Value → Option α} {found : Option α} (hnull : decode .null = none)
    (h : field? fields key decode = some found) : found = (fields.lookup key).bind decode := by
  unfold field? Json.optional? at h
  split at h
  · rename_i v hv
    rw [hv, Option.bind_some]
    unfold Value.optional? at h
    split at h
    · cases h
      exact hnull.symm
    · obtain ⟨x, hx, rfl⟩ := Option.map_eq_some_iff.1 h
      exact hx.symm
  · rename_i hmissing
    cases h
    rw [hmissing]
    rfl

theorem getD_listed? {text : String} {fields known : List (String × Value)}
    (htext : parse? text = some (.object fields))
    (hknown : (Value.object fields).record? keys = some known) :
    (listed? text).getD [] = (((fieldOf? text "sources").bind
      (Value.all? (Value.optional? Value.string?))).getD []).filterMap id := by
  have hsubset : ["sources"] ⊆ keys := by decide
  have hrecord := Json.record?_of_subset hsubset hknown
  unfold listed? Json.optional? fieldOf?
  simp only [htext, hrecord, Option.bind_eq_bind, Option.bind_some,
    Json.lookup_filter (List.mem_singleton_self "sources")]
  cases fields.lookup "sources" with
  | none => rfl
  | some v => cases hlisted : Value.all? (Value.optional? Value.string?) v <;> simp [hlisted]

/-! ## Decoding -/

theorem decodeFlat?_eq_some {fields : List (String × Value)} {map : Mapping}
    (h : decodeFlat? fields = some map) :
    let sources := ((fields.lookup "sources").bind
      (Value.all? (Value.optional? Value.string?))).getD []
    let root := ((fields.lookup "sourceRoot").bind Value.string?).getD ""
    ∃ tokens, map = .flat tokens (sources.map fun source => underRoot root (source.getD "")) := by
  unfold decodeFlat? at h
  obtain ⟨sources, hsources, h⟩ := Option.bind_eq_some_iff.1 h
  obtain ⟨names, -, h⟩ := Option.bind_eq_some_iff.1 h
  obtain ⟨root, hroot, h⟩ := Option.bind_eq_some_iff.1 h
  obtain ⟨mappings, -, h⟩ := Option.bind_eq_some_iff.1 h
  obtain ⟨ranges, -, h⟩ := Option.bind_eq_some_iff.1 h
  obtain ⟨tokens, -, h⟩ := Option.bind_eq_some_iff.1 h
  cases h
  rw [← field?_eq_some rfl hsources, ← field?_eq_some rfl hroot]
  exact ⟨tokens, by rw [List.map_map]; rfl⟩

theorem decodeValue?_eq_some {n : Nat} {value : Value} {map : Mapping}
    (h : decodeValue? n value = some map) :
    ∃ fields known sections, value = .object fields ∧
      (Value.object fields).record? keys = some known ∧
      field? known "sections" Value.list? = some sections ∧
      (sections = none → decodeFlat? known = some map) := by
  unfold decodeValue? at h
  split at h
  · rename_i n fields
    obtain ⟨known, hknown, h⟩ := Option.bind_eq_some_iff.1 h
    simp only [Option.bind_eq_bind] at h
    split at h
    · cases h
    · obtain ⟨sections, hsections, h⟩ := Option.bind_eq_some_iff.1 h
      refine ⟨fields, known, sections, rfl, hknown, hsections, ?_⟩
      rintro rfl
      exact h
  · cases h

/-- A map without guard and sections is read from the fields of its text. -/
theorem decodeFlat?_of_decode? {text : String} {map : Mapping}
    (hguard : withoutGuard? text.toList = some text.toList)
    (hflat : (fieldOf? text "sections").bind Value.list? = none) (h : decode? text = some map) :
    ∃ fields known, parse? text = some (.object fields) ∧
      (Value.object fields).record? keys = some known ∧ decodeFlat? known = some map ∧
      ∀ key ∈ keys, known.lookup key = fieldOf? text key := by
  unfold decode? at h
  simp only [hguard, String.ofList_toList, Option.bind_eq_bind, Option.bind_some] at h
  obtain ⟨value, htext, h⟩ := Option.bind_eq_some_iff.1 h
  obtain ⟨fields, known, sections, rfl, hknown, hsections, hdecoded⟩ := decodeValue?_eq_some h
  have hfield : ∀ key ∈ keys, known.lookup key = fieldOf? text key := by
    intro key hkey
    obtain ⟨rfl, -⟩ := Json.record?_object_eq_some.1 hknown
    rw [Json.lookup_filter hkey fields, fieldOf?, htext]
  have hnone : sections = none := by
    rw [field?_eq_some rfl hsections, hfield "sections" (by decide), hflat]
  exact ⟨fields, known, htext, hknown, hdecoded hnone, hfield⟩

/-- A map without guard and sections has the sources it lists, under its root directory, and the root
directory itself for null. -/
theorem decode?_eq_flat {text : String} {map : Mapping}
    (hguard : withoutGuard? text.toList = some text.toList)
    (hflat : (fieldOf? text "sections").bind Value.list? = none) (h : decode? text = some map) :
    ∃ tokens sources, map = .flat tokens sources ∧ ∀ source ∈ sources,
      source = underRoot (sourceRoot text) "" ∨
        ∃ raw ∈ (listed? text).getD [], source = underRoot (sourceRoot text) raw := by
  obtain ⟨fields, known, htext, hknown, hdecoded, hfield⟩ := decodeFlat?_of_decode? hguard hflat h
  obtain ⟨tokens, rfl⟩ := decodeFlat?_eq_some hdecoded
  refine ⟨tokens, _, rfl, ?_⟩
  rw [getD_listed? htext hknown, hfield "sources" (by decide), hfield "sourceRoot" (by decide)]
  intro source hsource
  obtain ⟨raw?, hraw, rfl⟩ := List.mem_map.1 hsource
  cases raw? with
  | none => exact Or.inl rfl
  | some raw => exact Or.inr ⟨raw, List.mem_filterMap.2 ⟨some raw, hraw, rfl⟩, rfl⟩

/-! ## Looking up -/

theorem lookup?_flat {tokens : List Token} {sources : List String} {line column : Nat}
    {target : Target} {source : String}
    (h : (Mapping.flat tokens sources).lookup? line column = some target)
    (hsource : target.source = some source) : source ∈ sources := by
  rw [Mapping.lookup?] at h
  obtain ⟨token, -, rfl⟩ := Option.map_eq_some_iff.1 h
  obtain ⟨i, -, hi⟩ := Option.bind_eq_some_iff.1 hsource
  exact List.mem_of_getElem? hi

theorem placeInSource?_flat {tokens : List Token} {sources : List String} {place start : Position}
    {name : String} (h : placeInSource? (.flat tokens sources) place = some (start, name)) :
    ∃ source ∈ sources, source ≠ "" ∧ name = normalizeSource source := by
  obtain ⟨_, target, source, -, hlookup, -, hsource, hne, -, rfl⟩ := placeInSource?_eq_some_iff.1 h
  exact ⟨source, lookup?_flat hlookup hsource, hne, rfl⟩

/-! ## Entries that are null -/

theorem suffix_of_afterNamespace? {source rest : List Char}
    (h : afterNamespace? source = some rest) : rest <:+ source := by
  unfold afterNamespace? at h
  split at h
  · cases h
  · rename_i inside hinside
    split at h
    · cases h
    · rename_i c after hafter
      cases h
      calc rest <:+ c :: rest := List.suffix_cons c rest
        _ <:+ inside := hafter ▸ List.dropWhile_suffix _
        _ <:+ source := Text.suffix_of_after? hinside

theorem normalizeSource_suffix (source : String) :
    (normalizeSource source).toList <:+ source.toList := by
  have hgetD : ∀ {text : List Char} {rest? : Option (List Char)},
      (∀ rest, rest? = some rest → rest <:+ text) → rest?.getD text <:+ text := by
    intro text rest? h
    cases rest? with
    | none => exact List.suffix_rfl
    | some rest => exact h rest rfl
  rw [normalizeSource, String.toList_ofList]
  exact (hgetD fun _ h => Text.suffix_of_after? h).trans (hgetD fun _ h => suffix_of_afterNamespace? h)

/-- Where an entry is null, there is no file to read. -/
theorem read?_null (disk : Disk) (base : String) {root : String} (hroot : root ≠ "") :
    disk.read? (Path.join base (normalizeSource (underRoot root ""))) = none := by
  have hunder : (underRoot root "").toList.getLast? = some '/' := by
    simp [underRoot, hroot, Text.startsWith]
  have hsource : ∀ c, (normalizeSource (underRoot root "")).toList.getLast? = some c → c = '/' := by
    intro c hc
    obtain ⟨front, hfront⟩ := normalizeSource_suffix (underRoot root "")
    rw [← hfront, List.getLast?_append, hc] at hunder
    simpa using hunder
  have hafter : ∀ front : List Char, front.getLast? = some '/' → ∀ c,
      (front ++ (normalizeSource (underRoot root "")).toList).getLast? = some c → c = '/' := by
    intro front hfront c hc
    rw [List.getLast?_append, hfront] at hc
    cases hlast : (normalizeSource (underRoot root "")).toList.getLast? with
    | none => simpa [hlast] using hc.symm
    | some last => exact hsource c (by simpa [hlast] using hc)
  refine Disk.read?_slash disk ?_
  unfold Path.join
  split
  · exact hsource
  · split
    · rename_i hbase
      rw [String.toList_append]
      exact hafter _ (beq_iff_eq.1 hbase)
    · rw [String.toList_append, String.toList_append]
      exact hafter _ List.getLast?_concat

/-! ## Places that lead to files -/

theorem underRoot_empty (source : String) : underRoot "" source = source := by
  simp [underRoot]

theorem ends?_eq_some {asset : Asset} {place mapped : Location} {source : String}
    (h : ends? asset place = some (mapped, source)) :
    asset.isPage = false ∧ ∃ text map, asset.sourceMap? = some text ∧ decode? text = some map ∧
      placeInSource? map place.start = some (mapped.start, source) := by
  obtain ⟨hpage, text, map, _, htext, hblank, hmap, hstart, -⟩ := ends?_eq_some_iff.1 h
  exact ⟨hpage, text, map, sourceMap?_eq_some_iff.2 ⟨htext, hblank⟩, hmap, hstart⟩

/-- The file of a place is read under the name of a source that the map leads to. -/
theorem ends?_of_locate_file {disk : Disk} {options : Options} {root : String} {asset : Asset}
    {place : Location} (hfile : (locate disk options root asset (some place)).file.isSome) :
    let source := (locate disk options root asset (some place)).source
    (∃ mapped, ends? asset place = some (mapped, source)) ∧
      (disk.read? (Path.join root source)).isSome := by
  unfold locate at hfile ⊢
  simp only at hfile ⊢
  split at hfile
  · rename_i mapped source hends
    unfold inSource at hfile ⊢
    cases hread : disk.read? (Path.join root source) with
    | none => simp [hread] at hfile
    | some content => simpa [hread] using ⟨mapped, hends⟩
  · cases hfile

/-- A place that leads to a file leads to a listed source under the root directory of the map, and
hence to a listed source where the map states no root directory. -/
theorem located_source_listed (disk : Disk) (options : Options) (root : String) (asset : Asset)
    {text : String} (hmap : asset.sourceMap? = some text)
    (hguard : withoutGuard? text.toList = some text.toList)
    (hflat : (fieldOf? text "sections").bind Value.list? = none) (place : Location)
    (hfile : (locate disk options root asset (some place)).file.isSome) :
    let origin := locate disk options root asset (some place)
    (∃ raw ∈ (listed? text).getD [],
      origin.source = normalizeSource (underRoot (sourceRoot text) raw)) ∧
    (sourceRoot text = "" → origin.source ∈ sourcesOf asset.sourceMap?) := by
  intro origin
  obtain ⟨⟨mapped, hends⟩, hread⟩ := ends?_of_locate_file hfile
  obtain ⟨-, _, map, htext, hdecode, hplace⟩ := ends?_eq_some hends
  obtain rfl : text = _ := Option.some.inj (hmap.symm.trans htext)
  obtain ⟨tokens, sources, rfl, hsources⟩ := decode?_eq_flat hguard hflat hdecode
  obtain ⟨source, hsource, hne, hname⟩ := placeInSource?_flat hplace
  have hraw : ∃ raw ∈ (listed? text).getD [],
      origin.source = normalizeSource (underRoot (sourceRoot text) raw) := by
    rcases hsources source hsource with rfl | ⟨raw, hraw, rfl⟩
    · -- A null entry: it is refused without a root directory, and leads to no file with one.
      exfalso
      by_cases hroot : sourceRoot text = ""
      · rw [hroot] at hne
        exact hne (underRoot_empty "")
      · rw [hname, read?_null disk root hroot] at hread
        cases hread
    · exact ⟨raw, hraw, hname⟩
  refine ⟨hraw, fun hroot => ?_⟩
  obtain ⟨raw, hlisted, hname⟩ := hraw
  rw [hname, hroot, underRoot_empty]
  simp only [sourcesOf, hmap, Option.bind_some]
  exact List.mem_map_of_mem hlisted

theorem webpack_source_listed :
    let text := "\x7b\"sources\":[\"webpack://app/./src/a.js\",null],\"mappings\":\"AAAA\"\x7d"
    let asset : Asset := ⟨"dist/main.js", "window.a = 1;", some text⟩
    let disk : Disk := ⟨["app"], [(["app", "src", "a.js"], .text "window.a = 1;\n")]⟩
    let origin := locate disk {} "/app" asset (some ⟨⟨1, 1⟩, ⟨1, 13⟩⟩)
    origin.file.isSome ∧ origin.source ∈ sourcesOf asset.sourceMap? := by
  intro text asset disk origin
  have hmap : asset.sourceMap? = some text := by decide +kernel
  have hguard : withoutGuard? text.toList = some text.toList := by decide +kernel
  have hflat : (fieldOf? text "sections").bind Value.list? = none := by decide +kernel
  have hroot : sourceRoot text = "" := by decide +kernel
  have hfile : origin.file.isSome := by decide +kernel
  exact ⟨hfile, (located_source_listed disk {} "/app" asset hmap hguard hflat _ hfile).2 hroot⟩

/-- A root directory, sections and a guard line each lead to a file whose name is not listed. -/
theorem unlisted_sources :
    let plain := "\x7b\"sources\":[\"src/a.js\"],\"mappings\":\"AAAA\"\x7d"
    let rooted := "\x7b\"sourceRoot\":\"src\",\"sources\":[\"a.js\"],\"mappings\":\"AAAA\"\x7d"
    let sectioned := "\x7b\"sections\":[\x7b\"offset\":\x7b\"line\":0,\"column\":0\x7d,\"map\":" ++
      plain ++ "\x7d]\x7d"
    let guarded := ")]\x7d'\n" ++ plain
    let disk : Disk := ⟨["app"], [(["app", "src", "a.js"], .text "window.a = 1;\n")]⟩
    ∀ text ∈ [rooted, sectioned, guarded],
      let asset : Asset := ⟨"dist/main.js", "window.a = 1;", some text⟩
      let origin := locate disk {} "/app" asset (some ⟨⟨1, 1⟩, ⟨1, 13⟩⟩)
      origin.file.isSome ∧ origin.source = "src/a.js" ∧
        origin.source ∉ sourcesOf asset.sourceMap? := by
  decide +kernel

end SourceMap
end AssetAudit
