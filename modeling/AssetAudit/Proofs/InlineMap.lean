import AssetAudit.Proofs.BlankText
import AssetAudit.Proofs.TextSearch
import AssetAudit.SourceMap.Reference

/-!
# Maps inside a comment

`encode` writes bytes in base 64, and reading them back gives the bytes (`decode?_encode`), so the text
whose UTF-8 form is written is read back too (`decodeText?_encodeText`).

A reference may run over line ends, since blanks do, but one that starts before the last line of a text
never reaches a comment on that line (`passed_le_of_urlAt?`). So the search for references comes to the
comment whatever it has found before (`exists_lastUrl_eq`).

Main statement: `inline_map_read_back`.
-/
namespace AssetAudit

namespace Text.Base64

/-! ## Writing base 64 -/

def alphabet : List Char :=
  "ABCDEFGHIJKLMNOPQRSTUVWXYZabcdefghijklmnopqrstuvwxyz0123456789+/".toList

/-- The digit that stands for six bits. -/
def digit (n : Nat) : Char := alphabet.getD n '='

/-- Every three bytes become four digits. What is left at the end is filled up with zero bits to whole
digits and with `=` to a whole group. -/
def encode : List UInt8 → List Char
  | [] => []
  | [a] => [digit (a.toNat / 4), digit (a.toNat % 4 * 16), '=', '=']
  | [a, b] =>
    [digit (a.toNat / 4), digit (a.toNat % 4 * 16 + b.toNat / 16), digit (b.toNat % 16 * 4), '=']
  | a :: b :: c :: rest =>
    digit (a.toNat / 4) :: digit (a.toNat % 4 * 16 + b.toNat / 16) ::
      digit (b.toNat % 16 * 4 + c.toNat / 64) :: digit (c.toNat % 64) :: encode rest

/-- The UTF-8 form of a text in base 64. -/
def encodeText (text : String) : List Char := encode text.toUTF8.data.toList

example : encodeText "light w" = "bGlnaHQgdw==".toList := by decide +kernel

example : encodeText "é€!" = "w6nigqwh".toList := by decide +kernel

/-! ## Reading it back -/

theorem digit?_digit : ∀ n < 64, digit? (digit n) = some n := by decide +kernel

theorem digit_ne_pad : ∀ n < 64, digit n ≠ '=' := by decide +kernel

theorem decode?_encode : ∀ bytes : List UInt8, decode? (encode bytes) = some bytes
  | [] => rfl
  | [a] => by
    have ha := a.toNat_lt
    have hfirst : a.toNat / 4 * 4 + a.toNat % 4 * 16 / 16 = a.toNat := by omega
    have hzero : a.toNat % 4 * 16 % 16 = 0 := by omega
    rw [encode, decode?, digit?_digit _ (by omega), digit?_digit _ (by omega)]
    simp only [Option.bind_eq_bind, Option.bind_some, hfirst, hzero, UInt8.ofNat_toNat]
    rfl
  | [a, b] => by
    have ha := a.toNat_lt
    have hb := b.toNat_lt
    have hfirst : a.toNat / 4 * 4 + (a.toNat % 4 * 16 + b.toNat / 16) / 16 = a.toNat := by omega
    have hsecond : (a.toNat % 4 * 16 + b.toNat / 16) % 16 * 16 + b.toNat % 16 * 4 / 4 = b.toNat := by
      omega
    have hzero : b.toNat % 16 * 4 % 4 = 0 := by omega
    have hpad := digit_ne_pad (b.toNat % 16 * 4) (by omega)
    rw [encode, decode?, digit?_digit _ (by omega), digit?_digit _ (by omega),
      digit?_digit _ (by omega)]
    · simp only [Option.bind_eq_bind, Option.bind_some, hfirst, hsecond, hzero, UInt8.ofNat_toNat]
      rfl
    · exact hpad
  | a :: b :: c :: rest => by
    have ha := a.toNat_lt
    have hb := b.toNat_lt
    have hc := c.toNat_lt
    have hfirst : a.toNat / 4 * 4 + (a.toNat % 4 * 16 + b.toNat / 16) / 16 = a.toNat := by omega
    have hsecond : (a.toNat % 4 * 16 + b.toNat / 16) % 16 * 16 +
        (b.toNat % 16 * 4 + c.toNat / 64) / 4 = b.toNat := by omega
    have hthird : (b.toNat % 16 * 4 + c.toNat / 64) % 4 * 64 + c.toNat % 64 = c.toNat := by omega
    have hpad := digit_ne_pad (c.toNat % 64) (by omega)
    rw [encode, decode?, digit?_digit _ (by omega), digit?_digit _ (by omega),
      digit?_digit _ (by omega), digit?_digit _ (by omega), decode?_encode rest]
    · simp only [Option.bind_eq_bind, Option.bind_some, hfirst, hsecond, hthird, UInt8.ofNat_toNat]
      rfl
    · exact fun _ h => absurd h hpad
    · exact fun h => absurd h hpad

theorem decodeText?_encodeText (text : String) : decodeText? (encodeText text) = some text := by
  have hvalid : ByteArray.IsValidUTF8 ⟨text.toUTF8.data.toList.toArray⟩ := text.isValidUTF8
  rw [decodeText?, encodeText, decode?_encode, Option.bind_some, String.fromUTF8?, dif_pos hvalid]
  rfl

end Text.Base64

namespace SourceMap

open Text.Base64 (digit encode encodeText)

/-! ## Addresses in base 64 -/

theorem isUrlChar_digit : ∀ n < 64, isUrlChar (digit n) = true := by decide +kernel

theorem isUrlChar_encode : ∀ bytes : List UInt8, ∀ c ∈ encode bytes, isUrlChar c = true
  | [] => by simp [encode]
  | [a] => by
    have ha := a.toNat_lt
    have hpad : isUrlChar '=' = true := by decide
    simp [encode, hpad, isUrlChar_digit (a.toNat / 4) (by omega),
      isUrlChar_digit (a.toNat % 4 * 16) (by omega)]
  | [a, b] => by
    have ha := a.toNat_lt
    have hb := b.toNat_lt
    have hpad : isUrlChar '=' = true := by decide
    simp [encode, hpad, isUrlChar_digit (a.toNat / 4) (by omega),
      isUrlChar_digit (a.toNat % 4 * 16 + b.toNat / 16) (by omega),
      isUrlChar_digit (b.toNat % 16 * 4) (by omega)]
  | a :: b :: c :: rest => by
    have ha := a.toNat_lt
    have hb := b.toNat_lt
    have hc := c.toNat_lt
    have hrest := isUrlChar_encode rest
    simpa [encode, isUrlChar_digit (a.toNat / 4) (by omega),
      isUrlChar_digit (a.toNat % 4 * 16 + b.toNat / 16) (by omega),
      isUrlChar_digit (b.toNat % 16 * 4 + c.toNat / 64) (by omega),
      isUrlChar_digit (c.toNat % 64) (by omega)] using hrest

/-- The address of a map that is written in base 64 holds the map. -/
theorem ofUrl?_encodeText (map : String) :
    ofUrl? ("data:application/json;base64,".toList ++ encodeText map) = some (.inline map) := by
  let kind := "application/json;base64".toList
  have hdata : Text.after? "data:".toList ("data:application/json;base64,".toList ++ encodeText map) =
      some (kind ++ ',' :: encodeText map) := Text.after?_eq_some_iff.2 rfl
  have hkind : ∀ d ∈ kind, (d != ',') = true := by decide
  have hbase : Text.endsWith ";base64".toList kind = true := by decide
  rw [ofUrl?, hdata]
  simp only [Text.takeWhile_front hkind (by decide : (',' != ',') = false),
    Text.dropWhile_front hkind (by decide : (',' != ',') = false), hbase, if_pos,
    Text.Base64.decodeText?_encodeText, Option.map_some]

/-! ## The search for references -/

/-- What holds no line feed and starts a text stands before the text's last line. -/
theorem exists_of_append_eq_line {start rest front line : List Char} (hstart : '\n' ∉ start)
    (h : front ++ '\n' :: line = start ++ rest) :
    ∃ more, front = start ++ more ∧ rest = more ++ '\n' :: line := by
  rcases List.append_eq_append_iff.1 h with ⟨more, rfl, hline⟩ | ⟨more, rfl, hrest⟩
  · cases more with
    | nil => exact ⟨[], by simp, by simpa using hline.symm⟩
    | cons c more =>
      rw [List.cons_append, List.cons.injEq] at hline
      rw [← hline.1] at hstart
      simp at hstart
  · exact ⟨more, rfl, hrest⟩

theorem eq_of_afterOpening? {text rest : List Char} (h : afterOpening? text = some rest) :
    ∃ mark sign, text = ['/', mark, sign] ++ rest ∧ '\n' ∉ ['/', mark, sign] := by
  have hopened : ∀ {mark sign : Char} {after : List Char}, mark ≠ '\n' →
      (if sign == '#' || sign == '@' then some after else none) = some rest →
      '/' :: mark :: sign :: after = ['/', mark, sign] ++ rest ∧ '\n' ∉ ['/', mark, sign] := by
    intro mark sign after hmark hafter
    rw [Option.ite_none_right_eq_some, Option.some.injEq] at hafter
    obtain ⟨hsign, rfl⟩ := hafter
    refine ⟨rfl, ?_⟩
    have hline : sign ≠ '\n' := by
      rintro rfl
      exact absurd hsign (by decide)
    simp [hmark.symm, hline.symm]
  unfold afterOpening? at h
  split at h
  · exact ⟨_, _, hopened (by decide) h⟩
  · exact ⟨_, _, hopened (by decide) h⟩
  · cases h

/-- A reference that starts before the last line of a text has its address before that line if the line
starts with a slash. -/
theorem passed_le_of_urlAt? {c : Char} {front line url : List Char}
    (h : urlAt? (c :: (front ++ '\n' :: '/' :: line)) = some url) :
    2 + (((front ++ '\n' :: '/' :: line).drop 2).takeWhile Text.isBlank).length +
      "sourceMappingURL=".length + url.length ≤ front.length := by
  simp only [urlAt?, Option.bind_eq_bind, Option.bind_eq_some_iff,
    Option.ite_none_right_eq_some, Option.some.injEq] at h
  obtain ⟨rest, hopening, address, haddress, -, hurl⟩ := h
  obtain ⟨mark, sign, hrest, hno⟩ := eq_of_afterOpening? hopening
  rw [← List.cons_append] at hrest
  obtain ⟨more, hmore, rfl⟩ := exists_of_append_eq_line hno hrest
  obtain ⟨-, rfl⟩ : c = '/' ∧ front = mark :: sign :: more := by simpa using hmore
  have hdrop : (mark :: sign :: more ++ '\n' :: '/' :: line).drop 2 = more ++ '\n' :: '/' :: line := rfl
  rw [hdrop]
  by_cases hblank : more.dropWhile Text.isBlank = []
  · -- the blanks behind the opening lead to the last line, which starts with a slash
    have hslash : (more ++ '\n' :: '/' :: line).dropWhile Text.isBlank = '/' :: line := by
      rw [List.dropWhile_append, hblank]
      rfl
    rw [hslash, Text.after?_eq_some_iff] at haddress
    simp at haddress
  · have hleft : (more ++ '\n' :: '/' :: line).dropWhile Text.isBlank =
        more.dropWhile Text.isBlank ++ '\n' :: '/' :: line := by
      rw [List.dropWhile_append, if_neg (by simpa using hblank)]
    rw [hleft, Text.after?_eq_some_iff] at haddress
    obtain ⟨tail, htail, rfl⟩ := exists_of_append_eq_line (by decide) haddress
    have hno : '\n' ∉ url := by
      rw [← hurl]
      intro hmem
      exact absurd (List.mem_takeWhile_imp hmem) (by decide)
    obtain ⟨after, rfl, -⟩ := exists_of_append_eq_line hno
      ((List.takeWhile_append_dropWhile (p := isUrlChar)).symm.trans (by rw [hurl]))
    have hsplit := List.takeWhile_append_dropWhile (p := Text.isBlank) (l := more)
    rw [htail] at hsplit
    have hblanks : (more ++ '\n' :: '/' :: line).takeWhile Text.isBlank = more.takeWhile Text.isBlank := by
      conv_lhs => rw [← hsplit]
      rw [List.append_assoc]
      exact Text.takeWhile_front (fun d hd => List.mem_takeWhile_imp hd) (by decide)
    have hlength := congrArg List.length hsplit
    simp only [List.length_append, String.length_toList] at hlength
    rw [hblanks]
    simp only [List.length_cons]
    omega

/-- The search passes over what stands before the last line of a text. -/
theorem exists_lastUrl_eq (line : List Char) : ∀ (front : List Char) (last : Option (List Char))
    (passed : Nat), passed ≤ front.length →
    ∃ last', lastUrl last passed (front ++ '\n' :: '/' :: line) = lastUrl last' 0 ('/' :: line)
  | [], last, 0, _ => ⟨last, rfl⟩
  | c :: front, last, passed + 1, h =>
    exists_lastUrl_eq line front last passed (Nat.le_of_succ_le_succ h)
  | c :: front, last, 0, _ => by
    rw [List.cons_append, lastUrl]
    split
    · rename_i url hurl
      exact exists_lastUrl_eq line front (some url) _ (passed_le_of_urlAt? hurl)
    · exact exists_lastUrl_eq line front last 0 (Nat.zero_le _)

theorem lastUrl_of_length_le : ∀ (last : Option (List Char)) (passed : Nat) (text : List Char),
    text.length ≤ passed → lastUrl last passed text = last
  | _, 0, [], _ => rfl
  | _, _ + 1, [], _ => rfl
  | last, passed + 1, _ :: rest, h => lastUrl_of_length_le last passed rest (Nat.le_of_succ_le_succ h)

/-- A comment at the end of a text is the last reference. -/
theorem lastUrl_comment (last : Option (List Char)) {url : List Char} (hne : url ≠ [])
    (hurl : ∀ c ∈ url, isUrlChar c = true) :
    lastUrl last 0 ("//# sourceMappingURL=".toList ++ url) = some url := by
  have hopening : afterOpening? ("//# sourceMappingURL=".toList ++ url) =
      some (' ' :: "sourceMappingURL=".toList ++ url) := rfl
  have hblank : (' ' :: "sourceMappingURL=".toList ++ url).dropWhile Text.isBlank =
      "sourceMappingURL=".toList ++ url := rfl
  have haddress : Text.after? "sourceMappingURL=".toList ("sourceMappingURL=".toList ++ url) = some url :=
    Text.after?_eq_some_iff.2 rfl
  have htake : url.takeWhile isUrlChar = url := List.takeWhile_eq_self_iff.2 hurl
  have hdrop : url.dropWhile isUrlChar = [] := List.dropWhile_eq_nil_iff.2 hurl
  have hends : (!url.isEmpty && endsLine []) = true := by simp [hne, endsLine, blanksEndLine]
  have hfound : urlAt? ('/' :: ("/# sourceMappingURL=".toList ++ url)) = some url := by
    show urlAt? ("//# sourceMappingURL=".toList ++ url) = some url
    rw [urlAt?, hopening, Option.bind_eq_bind, Option.bind_some, hblank, haddress, Option.bind_some]
    simp only [htake, hdrop, hends, if_pos]
  have hgap : ((("/# sourceMappingURL=".toList ++ url).drop 2).takeWhile Text.isBlank) = [' '] := rfl
  have hword : "sourceMappingURL=".length = 17 := rfl
  have hrest : "/# sourceMappingURL=".length = 20 := rfl
  show lastUrl last 0 ('/' :: ("/# sourceMappingURL=".toList ++ url)) = some url
  rw [lastUrl, hfound]
  refine lastUrl_of_length_le _ _ _ ?_
  simp only [List.length_append, String.length_toList, hgap, hword, hrest, List.length_singleton]
  omega

/-- A text whose last line is a comment with a map in base 64 refers to this map, whatever comments,
directives without an end or other references stand before it. -/
theorem inline_map_read_back (content map : String) :
    reference? (content ++ "\n//# sourceMappingURL=data:application/json;base64," ++
      String.ofList (encodeText map)) = some (.inline map) := by
  let url := "data:application/json;base64,".toList ++ encodeText map
  have hdata : ∀ c ∈ "data:application/json;base64,".toList, isUrlChar c = true := by decide
  have hurl : ∀ c ∈ url, isUrlChar c = true := by
    intro c hc
    rcases List.mem_append.1 hc with hc | hc
    · exact hdata c hc
    · exact isUrlChar_encode _ c hc
  have htext : (content ++ "\n//# sourceMappingURL=data:application/json;base64," ++
      String.ofList (encodeText map)).toList =
        content.toList ++ '\n' :: ("//# sourceMappingURL=".toList ++ url) := by
    simp [url]
  obtain ⟨last, hlast⟩ := exists_lastUrl_eq ("/# sourceMappingURL=".toList ++ url) content.toList none 0
    (Nat.zero_le _)
  have hfound : lastUrl none 0 (content.toList ++ '\n' :: ("//# sourceMappingURL=".toList ++ url)) =
      some url := hlast.trans (lastUrl_comment last (by simp [url]) hurl)
  rw [reference?, htext, hfound]
  exact ofUrl?_encodeText map

end SourceMap
end AssetAudit
