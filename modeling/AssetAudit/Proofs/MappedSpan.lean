import AssetAudit.Proofs.HeldToken
import AssetAudit.Proofs.ListedSource

/-!
# Spans in the sources

A place of an asset leads to a place in a source if a token of the map holds there, stands on the line
of the place and names a source (`LeadsTo`). A span is told in the coordinates of the sources if both
of its ends lead to such places, and as it is otherwise, so that its ends are never counted in two texts
(`span_mapping_exact`). Lines and columns that do not have 32 bits lead nowhere. In a map of sections
only those that start on the first line lead to sources: the line of a token is counted in its section
(`spans_left_unmapped`).

The two ends are looked up one by one, and the source is that of the start. So the whole span is in this
source if and only if the end leads to the same one (`span_in_one_source_iff`), which nothing ensures in
a map of several sources (`span_ends_in_other_source`).
-/
namespace AssetAudit.SourceMap

/-- A place of the generated text leads to a place in a source. -/
def LeadsTo (map : Mapping) (place found : Position) (source : String) : Prop :=
  ∃ spot above target name, Counts place spot ∧ Holds map spot above target ∧
    above + target.line = spot.1 ∧ target.source = some name ∧ name ≠ "" ∧
    found = ⟨target.sourceLine + 1, target.sourceColumn + 1⟩ ∧ source = normalizeSource name

/-- The token that holds at a place stands in no section that starts below the first line. -/
def IsAtTop (map : Mapping) (place : Position) : Prop :=
  ∀ spot above target, Counts place spot → Holds map spot above target → above = 0

/-! ## Ends -/

theorem LeadsTo.of_placeInSource? {map : Mapping} (hmap : map.Ordered) {place found : Position}
    {source : String} (h : placeInSource? map place = some (found, source)) :
    LeadsTo map place found source := by
  obtain ⟨spot, target, name, hcounts, hlookup, hline, hrest⟩ := placeInSource?_eq_some_iff.1 h
  obtain ⟨above, hholds⟩ := (lookup?_eq_some_iff hmap).1 hlookup
  -- the token stands no lower than the place, so no line is above its section
  have hle := hholds.line_le
  simp only at hle
  exact ⟨spot, above, target, name, hcounts, hholds, by omega, hrest⟩

theorem LeadsTo.placeInSource?_eq {map : Mapping} (hmap : map.Ordered) {place found : Position}
    {source : String} (htop : IsAtTop map place) (h : LeadsTo map place found source) :
    placeInSource? map place = some (found, source) := by
  obtain ⟨spot, above, target, name, hcounts, hholds, hline, hrest⟩ := h
  have habove := htop spot above target hcounts hholds
  refine placeInSource?_eq_some_iff.2 ⟨spot, target, name, hcounts, ?_, by omega, hrest⟩
  exact (lookup?_eq_some_iff hmap).2 ⟨above, hholds⟩

theorem LeadsTo.unique {map : Mapping} (hmap : map.Ordered) {place found found' : Position}
    {source source' : String} (h : LeadsTo map place found source)
    (h' : LeadsTo map place found' source') : found = found' ∧ source = source' := by
  obtain ⟨⟨line, column⟩, above, target, name, hcounts, hholds, -, hname, -, rfl, rfl⟩ := h
  obtain ⟨⟨line', column'⟩, above', target', name', hcounts', hholds', -, hname', -, rfl, rfl⟩ := h'
  obtain rfl : line = line' := by
    have := hcounts.line
    have := hcounts'.line
    omega
  obtain rfl : column = column' := hcounts.column.trans hcounts'.column.symm
  have htarget : target = target' := by
    have hlookup := (lookup?_eq_some_iff hmap).2 ⟨above, hholds⟩
    rw [(lookup?_eq_some_iff hmap).2 ⟨above', hholds'⟩] at hlookup
    exact (Option.some.inj hlookup).symm
  subst htarget
  rw [hname] at hname'
  exact ⟨rfl, by rw [Option.some.inj hname']⟩

/-! ## Spans -/

/-- Both ends of a span lead to places in sources, that of the start in `source`. -/
def SpanLeadsTo (asset : Asset) (place mapped : Location) (source : String) : Prop :=
  asset.isPage = false ∧ ∃ text map last, asset.map = some text ∧ Text.isBlankText text = false ∧
    decode? text = some map ∧ LeadsTo map place.start mapped.start source ∧
    LeadsTo map place.stop mapped.stop last

theorem ends?_eq_some_iff_leads {asset : Asset} {place : Location}
    (htop : ∀ text map, asset.map = some text → decode? text = some map →
      IsAtTop map place.start ∧ IsAtTop map place.stop) {mapped : Location} {source : String} :
    ends? asset place = some (mapped, source) ↔ SpanLeadsTo asset place mapped source := by
  rw [ends?_eq_some_iff]
  refine and_congr_right fun _ => ?_
  constructor
  · rintro ⟨text, map, last, htext, hblank, hmap, hstart, hstop⟩
    have hordered := ordered_of_decode? hmap
    exact ⟨text, map, last, htext, hblank, hmap, .of_placeInSource? hordered hstart,
      .of_placeInSource? hordered hstop⟩
  · rintro ⟨text, map, last, htext, hblank, hmap, hstart, hstop⟩
    have hordered := ordered_of_decode? hmap
    obtain ⟨hstartTop, hstopTop⟩ := htop text map htext hmap
    exact ⟨text, map, last, htext, hblank, hmap, hstart.placeInSource?_eq hordered hstartTop,
      hstop.placeInSource?_eq hordered hstopTop⟩

/-- A span is told in the sources if both ends lead there, and as it is if not. -/
theorem span_mapping_exact (disk : Disk) (options : Options) (root : String) (asset : Asset)
    (place : Location) (htop : ∀ text map, asset.map = some text → decode? text = some map →
      IsAtTop map place.start ∧ IsAtTop map place.stop) :
    let origin := locate disk options root asset (some place)
    (∀ mapped source, ends? asset place = some (mapped, source) ↔
      SpanLeadsTo asset place mapped source) ∧
    (∀ mapped source, SpanLeadsTo asset place mapped source → origin.location = some mapped ∧
      origin.source =
        if (disk.read? (Path.join root source)).isSome then source else unknownSource) ∧
    ((∀ mapped source, ¬SpanLeadsTo asset place mapped source) →
      origin = ⟨some place, if !options.compile || options.dir.isSome then asset.name
        else unknownSource, none, none, none⟩) := by
  intro origin
  have hends : ∀ mapped source, ends? asset place = some (mapped, source) ↔
      SpanLeadsTo asset place mapped source := fun _ _ => ends?_eq_some_iff_leads htop
  refine ⟨hends, ?_, ?_⟩
  · intro mapped source hleads
    have horigin : origin = inSource disk root source mapped :=
      locate_eq_inSource disk options root ((hends mapped source).2 hleads)
    rw [horigin]
    exact ⟨inSource_location .., inSource_source ..⟩
  · intro hnone
    have hfallback : ends? asset place = none := by
      cases hfound : ends? asset place with
      | none => rfl
      | some found => exact absurd ((hends _ _).1 hfound) (hnone found.1 found.2)
    simp only [origin, locate, hfallback]
    rfl

/-- On the first line every section starts at the top. -/
theorem isAtTop_of_first_line (map : Mapping) {place : Position} (h : place.line = 1) :
    IsAtTop map place := by
  intro spot above target hcounts hholds
  have hline := hcounts.line
  have hle := hholds.line_le
  omega

theorem first_section_mapped :
    let text := "\x7b\"sections\":[\x7b\"offset\":\x7b\"line\":0,\"column\":4\x7d,\"map\":\x7b" ++
      "\"sources\":[\"webpack://app/./src/a.js\"],\"mappings\":\"AAEC\"\x7d\x7d]\x7d"
    let asset : Asset := ⟨"dist/main.js", "console.log(1);", some text⟩
    let place : Location := ⟨⟨1, 5⟩, ⟨1, 9⟩⟩
    let mapped : Location := ⟨⟨3, 2⟩, ⟨3, 2⟩⟩
    let disk : Disk := ⟨["app"], [(["app", "src", "a.js"], .text "// a\n\n window.flag = true;\n")]⟩
    SpanLeadsTo asset place mapped "src/a.js" ∧
      (locate disk {} "/app" asset (some place)).location = some mapped ∧
      (locate disk {} "/app" asset (some place)).source = "src/a.js" := by
  intro text asset place mapped disk
  have hexact := span_mapping_exact disk {} "/app" asset place fun _ map _ _ =>
    ⟨isAtTop_of_first_line map rfl, isAtTop_of_first_line map rfl⟩
  have hends : ends? asset place = some (mapped, "src/a.js") := by decide +kernel
  have hread : (disk.read? (Path.join "/app" "src/a.js")).isSome = true := by decide +kernel
  have hleads := (hexact.1 _ _).1 hends
  obtain ⟨hlocation, hsource⟩ := hexact.2.1 _ _ hleads
  exact ⟨hleads, hlocation, by rw [hsource, if_pos hread]⟩

theorem holds_on_first_line {map : Mapping} (hmap : map.Ordered) {column : Nat} {target : Target}
    (h : map.lookup? 0 column = some target) : Holds map (0, column) 0 target := by
  obtain ⟨above, hholds⟩ := (lookup?_eq_some_iff hmap).1 h
  obtain rfl : above = 0 := by
    have := hholds.line_le
    omega
  exact hholds

theorem holds_in_section {start : Nat × Nat} {tokens : List Token} {sources : List String}
    {line column : Nat} {target : Target}
    (hmap : (Mapping.sections [(start, .flat tokens sources)]).Ordered)
    (h : (Mapping.sections [(start, .flat tokens sources)]).lookup? line column = some target) :
    Holds (.sections [(start, .flat tokens sources)]) (line, column) start.1 target := by
  obtain ⟨above, hholds⟩ := (lookup?_eq_some_iff hmap).1 h
  obtain rfl : above = start.1 := by
    cases hholds with
    | @inSection _ _ part above _ held inner =>
      obtain rfl := List.mem_singleton.1 held.mem
      cases inner
      rfl
  exact hholds

/-- Whether a map has a single section, which starts at a place and has no sections of its own. -/
def Mapping.isSectionAt (place : Nat × Nat) : Mapping → Bool
  | .sections [(start, .flat _ _)] => start == place
  | _ => false

theorem Mapping.eq_of_isSectionAt {map : Mapping} {place : Nat × Nat} (h : map.isSectionAt place = true) :
    ∃ tokens sources, map = .sections [(place, .flat tokens sources)] := by
  unfold isSectionAt at h
  split at h
  · rename_i start tokens sources
    obtain rfl := beq_iff_eq.1 h
    exact ⟨tokens, sources, rfl⟩
  · cases h

/-- A column of more than 32 bits, and a section that starts on the second line: the tokens stand on the
lines of the ends, but the span is left as it is. -/
theorem spans_left_unmapped :
    let plain := "\x7b\"sources\":[\"src/a.js\"],\"mappings\":\"AAAA\"\x7d"
    let sectioned := "\x7b\"sections\":[\x7b\"offset\":\x7b\"line\":1,\"column\":0\x7d,\"map\":" ++
      plain ++ "\x7d]\x7d"
    let asset (text : String) : Asset := ⟨"dist/main.js", "\nwindow.a = 1;", some text⟩
    let disk : Disk := ⟨["app"], [(["app", "src", "a.js"], .text "window.a = 1;\n")]⟩
    let wide : Location := ⟨⟨1, 1⟩, ⟨1, 4294967297⟩⟩
    let below : Location := ⟨⟨2, 1⟩, ⟨2, 13⟩⟩
    ((∃ map target, decode? plain = some map ∧ Holds map (0, 0) 0 target ∧
        Holds map (0, 4294967296) 0 target ∧ target.line = 0 ∧ target.source = some "src/a.js") ∧
      locate disk {} "/app" (asset plain) (some wide) = ⟨some wide, "unknown", none, none, none⟩) ∧
    (SpanLeadsTo (asset sectioned) below ⟨⟨1, 1⟩, ⟨1, 1⟩⟩ "src/a.js" ∧
      locate disk {} "/app" (asset sectioned) (some below) =
        ⟨some below, "unknown", none, none, none⟩) := by
  intro plain sectioned asset disk wide below
  refine ⟨⟨?_, by decide +kernel⟩, ?_, by decide +kernel⟩
  · have hfound : ∀ column ∈ [0, 4294967296], (decode? plain).bind (·.lookup? 0 column) =
        some ⟨0, some "src/a.js", 0, 0⟩ := by decide +kernel
    obtain ⟨map, hmap, hfirst⟩ := Option.bind_eq_some_iff.1 (hfound 0 (by simp))
    have hlast := hfound 4294967296 (by simp)
    rw [hmap, Option.bind_some] at hlast
    have hordered := ordered_of_decode? hmap
    exact ⟨map, _, hmap, holds_on_first_line hordered hfirst, holds_on_first_line hordered hlast,
      rfl, rfl⟩
  · have hshape : (decode? sectioned).any (·.isSectionAt (1, 0)) = true := by decide +kernel
    have hfound : ∀ column ∈ [0, 12], (decode? sectioned).bind (·.lookup? 1 column) =
        some ⟨0, some "src/a.js", 0, 0⟩ := by decide +kernel
    have hpage : (asset sectioned).isPage = false := by decide +kernel
    have hblank : Text.isBlankText sectioned = false := by decide +kernel
    have hname : "src/a.js" = normalizeSource "src/a.js" := by decide +kernel
    obtain ⟨map, hmap, hstart⟩ := (Option.any_eq_true _ _).1 hshape
    obtain ⟨tokens, sources, rfl⟩ := Mapping.eq_of_isSectionAt hstart
    have hleads : ∀ column ∈ [0, 12], LeadsTo (.sections [((1, 0), .flat tokens sources)])
        ⟨2, column + 1⟩ ⟨1, 1⟩ "src/a.js" := by
      intro column hcolumn
      have hlookup := hfound column hcolumn
      rw [hmap, Option.bind_some] at hlookup
      have hholds := holds_in_section (ordered_of_decode? hmap) hlookup
      have hcounts : Counts ⟨2, column + 1⟩ (1, column) := by
        refine ⟨rfl, rfl, show 1 < wordSize by decide, ?_⟩
        have hfits : ∀ column ∈ [0, 12], column < wordSize := by decide
        exact hfits column hcolumn
      exact ⟨(1, column), _, _, "src/a.js", hcounts, hholds, rfl, rfl, by decide, rfl, hname⟩
    exact ⟨hpage, sectioned, _, "src/a.js", rfl, hblank, hmap, hleads 0 (by simp),
      hleads 12 (by simp)⟩

/-! ## The source of a span -/

/-- The names of the sources of a map. -/
inductive Mapping.Names : Mapping → String → Prop
  | flat {tokens : List Token} {sources : List String} {name : String} (mem : name ∈ sources) :
      Names (.flat tokens sources) name
  | inSection {parts : List ((Nat × Nat) × Mapping)} {part : (Nat × Nat) × Mapping} {name : String}
      (mem : part ∈ parts) (inner : part.2.Names name) : Names (.sections parts) name

theorem Holds.names {map : Mapping} {place : Nat × Nat} {above : Nat} {target : Target}
    (h : Holds map place above target) {name : String} (hname : target.source = some name) :
    map.Names name := by
  induction h with
  | @flat tokens sources _ token _ =>
    obtain ⟨i, -, hi⟩ := Option.bind_eq_some_iff.1 hname
    exact .flat (List.mem_of_getElem? hi)
  | inSection held _ ih => exact .inSection held.mem (ih hname)

theorem LeadsTo.names {map : Mapping} {place found : Position} {source : String}
    (h : LeadsTo map place found source) : ∃ name, map.Names name ∧ source = normalizeSource name := by
  obtain ⟨_, _, _, name, -, hholds, -, hname, -, -, hsource⟩ := h
  exact ⟨name, hholds.names hname, hsource⟩

/-- A span that is told in a known source starts there. It ends there too if and only if the token at its
end names the same source, as it does in a map of one source. -/
theorem span_in_one_source_iff (disk : Disk) (options : Options) (root : String) (asset : Asset)
    (place : Location) {mapped : Location} {source : String}
    (hends : ends? asset place = some (mapped, source))
    (hknown : (locate disk options root asset (some place)).isKnown = true) :
    let origin := locate disk options root asset (some place)
    origin.location = some mapped ∧ origin.source = source ∧
    ∃ map last, asset.sourceMap?.bind decode? = some map ∧
      LeadsTo map place.start mapped.start source ∧ LeadsTo map place.stop mapped.stop last ∧
      (LeadsTo map place.stop mapped.stop source ↔ last = source) ∧
      ((∀ a b, map.Names a → map.Names b → normalizeSource a = normalizeSource b) →
        last = source) := by
  intro origin
  have horigin : origin = inSource disk root source mapped :=
    locate_eq_inSource disk options root hends
  have hsource : origin.source = source := by
    change origin.isKnown = true at hknown
    rw [horigin, Origin.isKnown, inSource_source] at hknown
    rw [horigin, inSource_source]
    split at hknown
    · rename_i hread
      rw [if_pos hread]
    · cases hknown
  obtain ⟨-, text, map, last, htext, hblank, hmap, hstart, hstop⟩ := ends?_eq_some_iff.1 hends
  have hordered := ordered_of_decode? hmap
  have hfirst := LeadsTo.of_placeInSource? hordered hstart
  have hlast := LeadsTo.of_placeInSource? hordered hstop
  refine ⟨horigin ▸ inSource_location .., hsource, map, last, ?_, hfirst, hlast, ?_, ?_⟩
  · rw [sourceMap?_eq_some_iff.2 ⟨htext, hblank⟩, Option.bind_some, hmap]
  · constructor
    · exact fun hsame => (hlast.unique hordered hsame).2
    · rintro rfl
      exact hlast
  · intro hone
    obtain ⟨a, ha, rfl⟩ := hfirst.names
    obtain ⟨b, hb, rfl⟩ := hlast.names
    exact hone b a hb ha

/-- A text field of a map, empty where it is missing. -/
def writtenIn (text key : String) : List Char :=
  (((fieldOf? text key).bind Json.Value.string?).getD "").toList

/-- The tokens of a map without guard and sections are those of its mappings, in order. -/
theorem decode?_eq_sorted {text : String} {map : Mapping}
    (hguard : withoutGuard? text.toList = some text.toList)
    (hflat : (fieldOf? text "sections").bind Json.Value.list? = none) (h : decode? text = some map) :
    ∃ tokens sources, map = .flat (tokens.mergeSort fun a b => notAfter a.start b.start) sources ∧
      linesTokens? sources.length
        (((fieldOf? text "names").bind (Json.Value.all? some)).getD []).length 0
        (Text.splitAt ';' (writtenIn text "rangeMappings")) {}
        (Text.splitAt ';' (writtenIn text "mappings")) = some tokens := by
  obtain ⟨_, known, -, -, hdecoded, hfield⟩ := decodeFlat?_of_decode? hguard hflat h
  unfold decodeFlat? at hdecoded
  obtain ⟨sources, -, hdecoded⟩ := Option.bind_eq_some_iff.1 hdecoded
  obtain ⟨names, hnames, hdecoded⟩ := Option.bind_eq_some_iff.1 hdecoded
  obtain ⟨root, -, hdecoded⟩ := Option.bind_eq_some_iff.1 hdecoded
  obtain ⟨mappings, hmappings, hdecoded⟩ := Option.bind_eq_some_iff.1 hdecoded
  obtain ⟨ranges, hranges, hdecoded⟩ := Option.bind_eq_some_iff.1 hdecoded
  obtain ⟨sorted, hsorted, hdecoded⟩ := Option.bind_eq_some_iff.1 hdecoded
  cases hdecoded
  obtain ⟨tokens, htokens, rfl⟩ := Option.map_eq_some_iff.1 hsorted
  refine ⟨tokens, _, rfl, ?_⟩
  rw [List.length_map, ← htokens, writtenIn, writtenIn, ← hfield "names" (by decide),
    ← hfield "mappings" (by decide), ← hfield "rangeMappings" (by decide), field?_eq_some rfl hnames,
    field?_eq_some rfl hmappings, field?_eq_some rfl hranges]

/-! A bundle of two sources, the second one from the ninth column on. -/

def bundleText : String :=
  "\x7b\"sources\":[\"src/a.js\",\"src/b.js\"],\"mappings\":\"AAAA,QCIA\"\x7d"

def bundle : Mapping :=
  .flat [⟨0, 0, some 0, 0, 0, false⟩, ⟨0, 8, some 1, 4, 0, false⟩] ["src/a.js", "src/b.js"]

/-- Whether a map has no sections and lists the given sources. -/
def Mapping.lists (names : List String) : Mapping → Bool
  | .flat _ sources => sources == names
  | .sections _ => false

theorem decode?_bundleText : decode? bundleText = some bundle := by
  have hguard : withoutGuard? bundleText.toList = some bundleText.toList := by decide +kernel
  have hflat : (fieldOf? bundleText "sections").bind Json.Value.list? = none := by decide +kernel
  have hlisted : (decode? bundleText).any (·.lists ["src/a.js", "src/b.js"]) = true := by decide +kernel
  have hnames : ((fieldOf? bundleText "names").bind (Json.Value.all? some)).getD [] = [] := by
    decide +kernel
  have hranges : writtenIn bundleText "rangeMappings" = [] := by decide +kernel
  have hmappings : writtenIn bundleText "mappings" = "AAAA,QCIA".toList := by decide +kernel
  have hwritten : linesTokens? ["src/a.js", "src/b.js"].length ([] : List Json.Value).length 0
      (Text.splitAt ';' []) {} (Text.splitAt ';' "AAAA,QCIA".toList) =
      some [⟨0, 0, some 0, 0, 0, false⟩, ⟨0, 8, some 1, 4, 0, false⟩] := by decide +kernel
  -- the sort is no help to evaluation, so the tokens are read first and seen to be in order
  obtain ⟨map, hmap, hsources⟩ := (Option.any_eq_true _ _).1 hlisted
  obtain ⟨tokens, sources, rfl, htokens⟩ := decode?_eq_sorted hguard hflat hmap
  obtain rfl : sources = ["src/a.js", "src/b.js"] := beq_iff_eq.1 hsources
  rw [hnames, hranges, hmappings, hwritten] at htokens
  obtain rfl := Option.some.inj htokens
  rw [hmap, List.mergeSort_of_pairwise (by decide), bundle]

theorem ends?_bundle {place mapped : Location} {source last : String}
    (hstart : placeInSource? bundle place.start = some (mapped.start, source))
    (hstop : placeInSource? bundle place.stop = some (mapped.stop, last)) :
    ends? ⟨"dist/main.js", "let a=1;let b=2;", some bundleText⟩ place = some (mapped, source) :=
  ends?_eq_some_iff.2 ⟨by decide +kernel, bundleText, bundle, last, rfl, by decide +kernel,
    decode?_bundleText, hstart, hstop⟩

/-- A span of the first source of the bundle, which ends before the second one starts. -/
theorem span_in_first_source :
    let asset : Asset := ⟨"dist/main.js", "let a=1;let b=2;", some bundleText⟩
    let disk : Disk := ⟨["app"], [(["app", "src", "a.js"], .text "let a=1;\n")]⟩
    let place : Location := ⟨⟨1, 1⟩, ⟨1, 8⟩⟩
    let origin := locate disk {} "/app" asset (some place)
    origin.isKnown = true ∧ origin.location = some ⟨⟨1, 1⟩, ⟨1, 1⟩⟩ ∧ origin.source = "src/a.js" ∧
      LeadsTo bundle place.start ⟨1, 1⟩ "src/a.js" ∧ LeadsTo bundle place.stop ⟨1, 1⟩ "src/a.js" := by
  intro asset disk place origin
  have hstop : placeInSource? bundle place.stop = some (⟨1, 1⟩, "src/a.js") := by decide +kernel
  have hends : ends? asset place = some (⟨⟨1, 1⟩, ⟨1, 1⟩⟩, "src/a.js") :=
    ends?_bundle (by decide +kernel) hstop
  have hread : (disk.read? (Path.join "/app" "src/a.js")).isSome = true := by decide +kernel
  have hknown : origin.isKnown = true := by
    rw [Origin.isKnown, show origin = _ from locate_eq_inSource disk {} "/app" hends, inSource_source,
      if_pos hread]
    decide
  obtain ⟨hlocation, hsource, map, last, hmap, hfirst, hlast, hsame, -⟩ :=
    span_in_one_source_iff disk {} "/app" asset place hends hknown
  obtain rfl : map = bundle := by
    have htext : asset.sourceMap? = some bundleText := by decide +kernel
    rw [htext, Option.bind_some, decode?_bundleText] at hmap
    exact (Option.some.inj hmap).symm
  have hordered := ordered_of_decode? decode?_bundleText
  have hone := (LeadsTo.of_placeInSource? hordered hstop).unique hordered hlast
  exact ⟨hknown, hlocation, hsource, hfirst, hsame.2 hone.2.symm⟩

/-- A span over both sources of the bundle: the line of its end is that of a place in the second source,
told as a line of the first, where no place of the bundle leads. -/
theorem span_ends_in_other_source :
    let asset : Asset := ⟨"dist/main.js", "let a=1;let b=2;", some bundleText⟩
    let disk : Disk := ⟨["app"], [(["app", "src", "a.js"], .text "let a=1;\n"),
      (["app", "src", "b.js"], .text "\n\n\n\nlet b=2;\n")]⟩
    let place : Location := ⟨⟨1, 1⟩, ⟨1, 9⟩⟩
    let origin := locate disk {} "/app" asset (some place)
    decode? bundleText = some bundle ∧ origin.isKnown = true ∧ origin.source = "src/a.js" ∧
      origin.location = some ⟨⟨1, 1⟩, ⟨5, 1⟩⟩ ∧ LeadsTo bundle place.stop ⟨5, 1⟩ "src/b.js" ∧
      ∀ elsewhere, ¬LeadsTo bundle elsewhere ⟨5, 1⟩ "src/a.js" := by
  intro asset disk place origin
  have hstop : placeInSource? bundle place.stop = some (⟨5, 1⟩, "src/b.js") := by decide +kernel
  have hends : ends? asset place = some (⟨⟨1, 1⟩, ⟨5, 1⟩⟩, "src/a.js") :=
    ends?_bundle (by decide +kernel) hstop
  have hread : (disk.read? (Path.join "/app" "src/a.js")).isSome = true := by decide +kernel
  have horigin : origin = inSource disk "/app" "src/a.js" ⟨⟨1, 1⟩, ⟨5, 1⟩⟩ :=
    locate_eq_inSource disk {} "/app" hends
  have hsource : origin.source = "src/a.js" := by rw [horigin, inSource_source, if_pos hread]
  have hordered := ordered_of_decode? decode?_bundleText
  refine ⟨decode?_bundleText, by rw [Origin.isKnown, hsource]; decide, hsource,
    horigin ▸ inSource_location .., .of_placeInSource? hordered hstop, ?_⟩
  rintro elsewhere ⟨_, _, _, name, -, hholds, -, hname, -, hfound, hsame⟩
  -- the first token leads to the first line, the second one to the other source
  cases hholds with
  | @flat _ _ _ token held =>
    rcases List.mem_cons.1 held.mem with rfl | hmem
    · have hline : 5 = 1 := congrArg Position.line hfound
      omega
    · obtain rfl := List.mem_singleton.1 hmem
      obtain rfl : "src/b.js" = name := Option.some.inj hname
      exact absurd hsame (by decide +kernel)

end AssetAudit.SourceMap
