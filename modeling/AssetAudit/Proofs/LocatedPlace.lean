import AssetAudit.SourceMap.Locate

/-!
# Locating, step by step

What each step of locating a span gives: the place that an end leads to, with the token that says so
(`placeInSource?_eq_some_iff`), both ends of a span (`ends?_eq_some_iff`), and the source a span is
attributed to (`inSource_source`).
-/
namespace AssetAudit.SourceMap

/-- A place as maps count it: from zero, with lines and columns of 32 bits. A column of zero is taken for
the first one. -/
structure Counts (place : Position) (spot : Nat × Nat) : Prop where
  line : place.line = spot.1 + 1
  column : spot.2 = place.column - 1
  line_lt : spot.1 < wordSize
  column_lt : spot.2 < wordSize

theorem placeInSource?_eq_some_iff {map : Mapping} {place found : Position} {source : String} :
    placeInSource? map place = some (found, source) ↔
      ∃ spot target name, Counts place spot ∧ map.lookup? spot.1 spot.2 = some target ∧
        target.line = spot.1 ∧ target.source = some name ∧ name ≠ "" ∧
        found = ⟨target.sourceLine + 1, target.sourceColumn + 1⟩ ∧ source = normalizeSource name := by
  unfold placeInSource?
  simp only
  constructor
  · intro h
    split at h
    · cases h
    · rename_i hcounts
      simp only [Bool.or_eq_true, beq_iff_eq, decide_eq_true_eq, not_or, Nat.not_le] at hcounts
      split at h
      · rename_i tokenLine name sourceLine sourceColumn hlookup
        simp only [Option.ite_none_right_eq_some, Bool.and_eq_true, beq_iff_eq, Bool.not_eq_true',
          Option.some.injEq, Prod.mk.injEq] at h
        obtain ⟨⟨hline, hname⟩, hfound, hsource⟩ := h
        refine ⟨(place.line - 1, place.column - 1), _, name, ⟨?_, rfl, ?_, ?_⟩, hlookup, hline, rfl, ?_,
          hfound.symm, hsource.symm⟩
        · simp only
          omega
        · exact hcounts.1.2
        · exact hcounts.2
        · rintro rfl
          cases hname
      · cases h
  · rintro ⟨⟨line, column⟩, target, name, ⟨hline, hcolumn, hline_lt, hcolumn_lt⟩, hlookup, hown, hsource,
      hname, rfl, rfl⟩
    simp only at hline hcolumn hline_lt hcolumn_lt hlookup hown
    have hfits : ¬(place.line == 0 || decide (place.line - 1 ≥ wordSize) ||
        decide (place.column - 1 ≥ wordSize)) = true := by
      simp only [Bool.or_eq_true, beq_iff_eq, decide_eq_true_eq, not_or, Nat.not_le]
      omega
    have hspot : place.line - 1 = line := by omega
    obtain ⟨tokenLine, source, sourceLine, sourceColumn⟩ := target
    simp only at hown hsource
    subst hown hsource
    rw [if_neg hfits, hspot, ← hcolumn, hlookup]
    simp [hname]

theorem sourceMap?_eq_some_iff {asset : Asset} {text : String} :
    asset.sourceMap? = some text ↔ asset.map = some text ∧ Text.isBlankText text = false := by
  rw [Asset.sourceMap?, Option.filter_eq_some_iff, Bool.not_eq_true']

theorem ends?_eq_some_iff {asset : Asset} {place mapped : Location} {source : String} :
    ends? asset place = some (mapped, source) ↔ asset.isPage = false ∧ ∃ text map last,
      asset.map = some text ∧ Text.isBlankText text = false ∧ decode? text = some map ∧
      placeInSource? map place.start = some (mapped.start, source) ∧
      placeInSource? map place.stop = some (mapped.stop, last) := by
  unfold ends?
  simp only [Option.bind_eq_bind]
  constructor
  · intro h
    split at h
    · cases h
    · rename_i hpage
      obtain ⟨text, htext, h⟩ := Option.bind_eq_some_iff.1 h
      obtain ⟨map, hmap, h⟩ := Option.bind_eq_some_iff.1 h
      obtain ⟨⟨start, found⟩, hstart, h⟩ := Option.bind_eq_some_iff.1 h
      obtain ⟨⟨stop, last⟩, hstop, h⟩ := Option.bind_eq_some_iff.1 h
      cases h
      obtain ⟨htext, hblank⟩ := sourceMap?_eq_some_iff.1 htext
      exact ⟨Bool.eq_false_iff.2 hpage, text, map, last, htext, hblank, hmap, hstart, hstop⟩
  · rintro ⟨hpage, text, map, last, htext, hblank, hmap, hstart, hstop⟩
    rw [hpage, sourceMap?_eq_some_iff.2 ⟨htext, hblank⟩]
    simp [hmap, hstart, hstop]

theorem locate_eq_inSource (disk : Disk) (options : Options) (root : String) {asset : Asset}
    {place mapped : Location} {source : String} (h : ends? asset place = some (mapped, source)) :
    locate disk options root asset (some place) = inSource disk root source mapped := by
  simp only [locate, h]

theorem inSource_location (disk : Disk) (root source : String) (place : Location) :
    (inSource disk root source place).location = some place := by
  unfold inSource
  simp only
  split <;> rfl

theorem inSource_source (disk : Disk) (root source : String) (place : Location) :
    (inSource disk root source place).source =
      if (disk.read? (Path.join root source)).isSome then source else unknownSource := by
  unfold inSource
  simp only
  split <;> simp [*]

end AssetAudit.SourceMap
