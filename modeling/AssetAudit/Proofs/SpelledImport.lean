import AssetAudit.Proofs.ReferenceSearch
import AssetAudit.Proofs.SheetImport

/-!
# Imports as they are written

An import is written with its address between quotation marks, alone or inside a call of `url`
(`Target`). One that is written so is read with this address (`importTarget_eq`), and the search for
imports finds the same (`importAt?_eq`).
-/
namespace AssetAudit.Style

open Dependency (isQuote isBlank_quote)
open Text (Blanks)

/-- An address that stands for itself between quotation marks: not empty, without marks and line feeds,
without a backslash before the closing mark, and without a call of another import. -/
structure IsAddress (address : List Char) : Prop where
  ne_nil : address ≠ []
  chars : ∀ c ∈ address, isQuote c = false ∧ c ≠ '\n'
  last : address.getLast? ≠ some '\\'
  quiet : ∀ part, part <:+ address → ¬ Dependency.Calls "@import".toList part

/-- The text of a target, with the address it names and the text behind the closing mark. -/
inductive Target : List Char → List Char → List Char → Prop where
  | quoted {mark : Char} {address rest : List Char} (hmark : isQuote mark = true) :
      Target (mark :: (address ++ mark :: rest)) address rest
  | called {mark : Char} {before after address rest : List Char} (hmark : isQuote mark = true)
      (hbefore : Blanks before) (hafter : Blanks after) :
      Target ("url(".toList ++ (before ++ mark :: (address ++ mark :: (after ++ ')' :: rest)))) address
        (after ++ ')' :: rest)

/-! ## Lexemes -/

theorem quoteRest?_eq {mark : Char} (rest : List Char) : ∀ {address : List Char} {escaped : Bool},
    (∀ c ∈ address, c ≠ mark ∧ c ≠ '\n') → address.getLast? ≠ some '\\' →
    (address = [] → escaped = false) →
    quoteRest? mark escaped (address ++ mark :: rest) = some (address.length + 1)
  | [], escaped, _, _, hnil => by
    rw [hnil rfl, List.nil_append, quoteRest?]
    simp
  | c :: address, escaped, hchars, hlast, _ => by
    obtain ⟨⟨hmark, hline⟩, hchars⟩ := List.forall_mem_cons.1 hchars
    have hrest : ∀ escaped : Bool, (address = [] → escaped = false) →
        quoteRest? mark escaped (address ++ mark :: rest) = some (address.length + 1) := by
      intro escaped hnil
      refine quoteRest?_eq rest hchars ?_ hnil
      cases address with
      | nil => simp
      | cons d address => rwa [List.getLast?_cons_cons] at hlast
    rw [List.cons_append, quoteRest?, beq_eq_false_iff_ne.2 hmark, beq_eq_false_iff_ne.2 hline]
    cases escaped with
    | true =>
      rw [if_pos rfl, hrest false fun _ => rfl]
      rfl
    | false =>
      rw [if_neg (by decide), if_neg (by decide), if_neg (by decide), hrest _ ?_]
      · rfl
      · rintro rfl
        rw [beq_eq_false_iff_ne]
        rintro rfl
        exact hlast rfl

theorem quoted?_eq_length {mark : Char} {address : List Char} (hmark : isQuote mark = true)
    (h : IsAddress address) (rest : List Char) :
    quoted? (mark :: (address ++ mark :: rest)) = some (address.length + 2) := by
  have hchars : ∀ c ∈ address, c ≠ mark ∧ c ≠ '\n' := by
    intro c hc
    refine ⟨?_, (h.chars c hc).2⟩
    rintro rfl
    rw [(h.chars c hc).1] at hmark
    cases hmark
  have hrest := quoteRest?_eq rest hchars h.last (fun hnil => absurd hnil h.ne_nil : _ → false = false)
  rw [isQuote, Bool.or_eq_true, beq_iff_eq, beq_iff_eq] at hmark
  rcases hmark with rfl | rfl
  · rw [quoted?, hrest]
    rfl
  · rw [quoted?, hrest]
    rfl

theorem bracketRest?_pass (depth : Nat) (rest : List Char) : ∀ front : List Char,
    bracketRest? depth front.length (front ++ rest) =
      (bracketRest? depth 0 rest).map (· + front.length)
  | [] => by simp
  | c :: front => by
    rw [List.cons_append, List.length_cons, bracketRest?, bracketRest?_pass depth rest front,
      Option.map_map]
    rfl

theorem quoted?_eq_none {c : Char} (h : isQuote c = false) (text : List Char) :
    quoted? (c :: text) = none := by
  unfold quoted?
  split
  · rename_i heq
    rw [(List.cons.inj heq).1] at h
    cases h
  · rename_i heq
    rw [(List.cons.inj heq).1] at h
    cases h
  · rfl

theorem comment?_eq_none {c : Char} (h : c ≠ '/') (text : List Char) : comment? (c :: text) = none := by
  unfold comment?
  split
  · rename_i heq
    exact absurd (List.cons.inj heq).1 h
  · rfl

/-- A character that is neither a bracket nor a brace, and starts no lexeme, is stepped over. -/
theorem bracketRest?_cons {c : Char} {depth : Nat} (hquote : isQuote c = false)
    (hother : c ∉ ['/', '(', '[', ')', ']', openBrace, closeBrace]) (text : List Char) :
    bracketRest? depth 0 (c :: text) = (bracketRest? depth 0 text).map (· + 1) := by
  simp only [List.mem_cons, List.not_mem_nil, or_false, not_or] at hother
  rw [bracketRest?]
  simp [quoted?_eq_none hquote, comment?_eq_none hother.1, hother]

theorem bracketRest?_blanks (depth : Nat) (rest : List Char) : ∀ {gap : List Char}, Blanks gap →
    bracketRest? depth 0 (gap ++ rest) = (bracketRest? depth 0 rest).map (· + gap.length)
  | [], _ => by simp
  | c :: gap, h => by
    obtain ⟨hc, hgap⟩ := List.forall_mem_cons.1 h
    have hquote : isQuote c = false := by
      rw [← Bool.not_eq_true]
      intro hquote
      rw [Text.isAsciiBlank_eq_false (isBlank_quote hquote)] at hc
      cases hc
    have hother : c ∉ ['/', '(', '[', ')', ']', openBrace, closeBrace] := by
      intro hmem
      have hnone : ∀ d ∈ ['/', '(', '[', ')', ']', openBrace, closeBrace],
          Text.isAsciiBlank d = false := by decide
      rw [hnone c hmem] at hc
      cases hc
    rw [List.cons_append, bracketRest?_cons hquote hother, bracketRest?_blanks depth rest hgap,
      Option.map_map]
    rfl

theorem bracketRest?_quoted {mark : Char} {address : List Char} (depth : Nat)
    (hmark : isQuote mark = true) (h : IsAddress address) (rest : List Char) :
    bracketRest? depth 0 (mark :: (address ++ mark :: rest)) =
      (bracketRest? depth 0 rest).map (· + (address.length + 2)) := by
  have hpass := bracketRest?_pass depth rest (address ++ [mark])
  rw [List.append_assoc, List.length_append, List.length_singleton] at hpass
  rw [bracketRest?]
  simp only [quoted?_eq_length hmark h]
  rw [show address.length + 2 - 1 = address.length + 1 from rfl]
  rw [show address ++ mark :: rest = address ++ ([mark] ++ rest) from rfl, hpass, Option.map_map]
  rfl

theorem bracketed?_call {mark : Char} {before after address : List Char} (hmark : isQuote mark = true)
    (h : IsAddress address) (hbefore : Blanks before) (hafter : Blanks after) (rest : List Char) :
    bracketed? ('(' :: (before ++ mark :: (address ++ mark :: (after ++ ')' :: rest)))) =
      some (before.length + address.length + after.length + 4) := by
  have hclose : bracketRest? 1 0 (')' :: rest) = some 1 := by
    rw [bracketRest?]
    simp [quoted?_eq_none (show isQuote ')' = false from rfl), comment?_eq_none (show ')' ≠ '/' by decide)]
  rw [bracketed?, if_pos (by decide), bracketRest?_blanks 1 _ hbefore, bracketRest?_quoted 1 hmark h,
    bracketRest?_blanks 1 _ hafter, hclose]
  simp only [Option.map_some, Option.some.injEq]
  omega

/-! ## Addresses -/

theorem dropRepeated_eq_self {needle text : List Char} (h : Text.after? needle text = none) :
    ∀ n : Nat, dropRepeated needle n text = text
  | 0 => rfl
  | n + 1 => by rw [dropRepeated, h]

theorem trimMatches_quotes {mark : Char} {address : List Char} (hmark : isQuote mark = true)
    (h : IsAddress address) :
    Text.trimMatches Selector.isQuote (mark :: (address ++ [mark])) = address := by
  have hsame : ∀ c, Selector.isQuote c = isQuote c := fun c => Bool.or_comm _ _
  have hbare : ∀ c ∈ address, Selector.isQuote c = false := fun c hc =>
    (hsame c).trans (h.chars c hc).1
  rw [Text.trimMatches_between ((hsame mark).trans hmark), Text.trimMatches_eq_self_iff,
    Option.any_eq_false, Option.any_eq_false]
  exact ⟨fun c hc => hbare c (List.mem_of_mem_head? hc), fun c hc => hbare c (List.mem_of_getLast? hc)⟩

/-- The address between the marks, once nothing is left around them. -/
theorem importAddress_inner {mark : Char} {before after address text : List Char}
    (hmark : isQuote mark = true) (h : IsAddress address) (hbefore : Blanks before)
    (hafter : Blanks after)
    (htext : ((dropRepeated "url(".toList (Text.trim text).length (Text.trim text)).reverse.dropWhile
      (· == ')')).reverse = before ++ mark :: (address ++ mark :: after)) :
    importAddress text = String.ofList address := by
  rw [importAddress, htext,
    Text.trim_blanks hbefore hafter (isBlank_quote hmark) (isBlank_quote hmark),
    trimMatches_quotes hmark h]

theorem importAddress_quoted {mark : Char} {address : List Char} (hmark : isQuote mark = true)
    (h : IsAddress address) : importAddress (mark :: (address ++ [mark])) = String.ofList address := by
  have hblanks : Blanks [] := by rintro _ ⟨⟩
  have hne : ∀ c, isQuote c = false → mark ≠ c := by
    rintro c hc rfl
    rw [hmark] at hc
    cases hc
  refine importAddress_inner hmark h hblanks hblanks ?_
  have htrim : Text.trim (mark :: (address ++ [mark])) = mark :: (address ++ [mark]) :=
    Text.trim_blanks hblanks hblanks (isBlank_quote hmark) (isBlank_quote hmark)
  have hreverse : (mark :: (address ++ [mark])).reverse = mark :: (mark :: address).reverse := by simp
  have hurl : Text.after? "url(".toList (mark :: (address ++ [mark])) = none :=
    Text.after?_cons_of_ne (hne 'u' rfl).symm _ _
  rw [htrim, dropRepeated_eq_self hurl, hreverse,
    List.dropWhile_cons_of_neg (by simpa using hne ')' rfl)]
  simp

theorem dropRepeated_url {inner : List Char} (h : Text.after? "url(".toList inner = none) :
    dropRepeated "url(".toList ("url(".toList ++ inner).length ("url(".toList ++ inner) = inner := by
  have hlength : ("url(".toList ++ inner).length = inner.length + 3 + 1 := by simp
  rw [hlength, dropRepeated, Text.after?_eq_some_iff.2 rfl]
  exact dropRepeated_eq_self h _

theorem importAddress_called {mark : Char} {before after address : List Char}
    (hmark : isQuote mark = true) (h : IsAddress address) (hbefore : Blanks before)
    (hafter : Blanks after) :
    importAddress ("url(".toList ++ (before ++ mark :: (address ++ mark :: (after ++ [')'])))) =
      String.ofList address := by
  have hblanks : Blanks [] := by rintro _ ⟨⟩
  have hne : ∀ {gap : List Char} {c : Char}, Blanks gap → isQuote c = false → Text.isAsciiBlank c = false →
      ∀ d ∈ mark :: gap, d ≠ c := by
    rintro gap c hgap hquote hblank d hd rfl
    rcases List.mem_cons.1 hd with rfl | hd
    · rw [hmark] at hquote
      cases hquote
    · rw [hgap d hd] at hblank
      cases hblank
  have htrim : Text.trim ("url(".toList ++ (before ++ mark :: (address ++ mark :: (after ++ [')'])))) =
      "url(".toList ++ (before ++ mark :: (address ++ mark :: (after ++ [')']))) := by
    have hends := @Text.trim_blanks [] [] ("rl(".toList ++ (before ++ mark :: (address ++ mark :: after)))
      'u' ')' hblanks hblanks (by decide) (by decide)
    simpa using hends
  have hinner : Text.after? "url(".toList (before ++ mark :: (address ++ mark :: (after ++ [')']))) =
      none := by
    cases before with
    | nil =>
      have hu : mark ≠ 'u' := hne hblanks (by decide) (by decide) mark List.mem_cons_self
      exact Text.after?_cons_of_ne hu.symm _ _
    | cons d before =>
      have hu : d ≠ 'u' :=
        hne hbefore (by decide) (by decide) d (List.mem_cons_of_mem _ List.mem_cons_self)
      exact Text.after?_cons_of_ne hu.symm _ _
  have hlast : (before ++ mark :: (address ++ mark :: after)).reverse.head? ≠ some ')' := by
    intro hhead
    rw [List.head?_reverse, ← List.cons_append, ← List.append_assoc,
      List.getLast?_append_of_ne_nil _ (List.cons_ne_nil _ _)] at hhead
    exact hne hafter (by decide) (by decide) ')' (List.mem_of_getLast? hhead) rfl
  refine importAddress_inner hmark h hbefore hafter ?_
  rw [htrim, dropRepeated_url hinner]
  rw [show before ++ mark :: (address ++ mark :: (after ++ [')'])) =
    before ++ mark :: (address ++ mark :: after) ++ [')'] from by simp, List.reverse_append,
    List.reverse_singleton, List.singleton_append, List.dropWhile_cons_of_pos (by rfl),
    List.dropWhile_beq_eq_self_of_head?_ne hlast, List.reverse_reverse]

/-! ## Reading a written import -/

section Import

variable {gap target address rest : List Char}

theorem Target.exists_head (h : Target target address rest) :
    ∃ c back, target = c :: back ∧ Text.isBlank c = false ∧ c ≠ '/' := by
  cases h with
  | @quoted mark _ _ hmark =>
    refine ⟨mark, _, rfl, isBlank_quote hmark, ?_⟩
    rintro rfl
    cases hmark
  | called => exact ⟨'u', _, rfl, by decide, by decide⟩

/-- The text of a target up to its end, which is what the reader takes. -/
theorem Target.importAddress_take (h : Target target address rest) (haddress : IsAddress address) :
    importAddress (target.take (targetLength target)) = String.ofList address := by
  cases h with
  | @quoted mark _ _ hmark =>
    have hlength : targetLength (mark :: (address ++ mark :: rest)) = (mark :: (address ++ [mark])).length := by
      rw [targetLength, quoted?_eq_length hmark haddress]
      simp
    have htext : mark :: (address ++ mark :: rest) = mark :: (address ++ [mark]) ++ rest := by simp
    rw [hlength, htext, List.take_left]
    exact importAddress_quoted hmark haddress
  | @called mark before after _ rest hmark hbefore hafter =>
    have hword : wordLength ("url(".toList ++ (before ++ mark :: (address ++ mark :: (after ++ ')' :: rest)))) =
        3 := rfl
    have hcall : bracketed?
        (("url(".toList ++ (before ++ mark :: (address ++ mark :: (after ++ ')' :: rest)))).drop 3) =
        some (before.length + address.length + after.length + 4) :=
      bracketed?_call hmark haddress hbefore hafter rest
    have hlength : targetLength
        ("url(".toList ++ (before ++ mark :: (address ++ mark :: (after ++ ')' :: rest)))) =
        ("url(".toList ++ (before ++ mark :: (address ++ mark :: (after ++ [')'])))).length := by
      rw [targetLength, show quoted? ("url(".toList ++ _) = none from quoted?_eq_none (by decide) _]
      simp only [hword, hcall, Option.getD_some, List.length_append, List.length_cons, List.length_nil]
      have hurl : "url(".toList.length = 4 := rfl
      omega
    have htext : "url(".toList ++ (before ++ mark :: (address ++ mark :: (after ++ ')' :: rest))) =
        "url(".toList ++ (before ++ mark :: (address ++ mark :: (after ++ [')']))) ++ rest := by simp
    rw [hlength, htext, List.take_left]
    exact importAddress_called hmark haddress hbefore hafter

theorem importTarget_eq (hgap : Blanks gap) (h : Target target address rest)
    (haddress : IsAddress address) : importTarget (gap ++ target) = String.ofList address := by
  obtain ⟨c, back, hback, hblank, hslash⟩ := h.exists_head
  have htarget : (gap ++ target).drop ((gap ++ target).takeWhile Text.isAsciiBlank).length = target := by
    rw [Text.drop_length_takeWhile, hback]
    exact Text.dropWhile_front hgap (Text.isAsciiBlank_eq_false hblank)
  have hcomment : comment? target = none := by
    rw [hback]
    exact comment?_eq_none hslash back
  unfold importTarget
  simp only [htarget, hcomment, Option.getD_none]
  exact h.importAddress_take haddress

/-! ## Finding a written import -/

theorem importAt?_eq (hgap : Blanks gap) (hne : gap ≠ []) (h : Target target address rest)
    (haddress : IsAddress address) :
    Dependency.importAt? ("@import".toList ++ (gap ++ target)) = some (address, rest) := by
  have hchars : ∀ c ∈ address, isQuote c = false := fun c hc => (haddress.chars c hc).1
  have htrim : Text.trimStart target = target := by
    obtain ⟨c, back, rfl, hblank, -⟩ := h.exists_head
    exact Text.trimStart_cons hblank back
  have hquoted : Dependency.quoted? ((Dependency.afterCall? "url".toList target).getD target) =
      some (address, rest) := by
    cases h with
    | @quoted mark _ _ hmark =>
      have hu : 'u' ≠ mark := by
        rintro rfl
        cases hmark
      have hcall : Dependency.afterCall? "url".toList (mark :: (address ++ mark :: rest)) = none := by
        rw [Dependency.afterCall?, show Text.after? "url".toList (mark :: (address ++ mark :: rest)) = none from
          Text.after?_cons_of_ne hu _ _]
        rfl
      rw [hcall, Option.getD_none]
      exact Dependency.quoted?_eq hmark hchars haddress.ne_nil rest
    | @called mark before after _ rest hmark hbefore hafter =>
      have hcall : Dependency.afterCall? "url".toList
          ("url(".toList ++ (before ++ mark :: (address ++ mark :: (after ++ ')' :: rest)))) =
          some (mark :: (address ++ mark :: (after ++ ')' :: rest))) := by
        have hafter : Text.after? "url".toList
            ("url(".toList ++ (before ++ mark :: (address ++ mark :: (after ++ ')' :: rest)))) =
            some ('(' :: (before ++ mark :: (address ++ mark :: (after ++ ')' :: rest)))) :=
          Text.after?_eq_some_iff.2 rfl
        rw [Dependency.afterCall?, hafter, Option.map_some, Text.trimStart_cons (by decide)]
        simp only
        rw [Text.trimStart_blanks hbefore, Text.trimStart_cons (isBlank_quote hmark)]
      rw [hcall, Option.getD_some]
      exact Dependency.quoted?_eq hmark hchars haddress.ne_nil _
  unfold Dependency.importAt?
  rw [Text.after?_eq_some_iff.2 rfl, Option.bind_eq_bind, Option.bind_some,
    Dependency.afterBlanks?_append hgap hne, htrim]
  exact hquoted

theorem Target.exists_front (h : Target target address rest) :
    ∃ front mark, target = front ++ (address ++ mark :: rest) ∧ '@' ∉ front ∧ isQuote mark = true := by
  cases h with
  | @quoted mark _ _ hmark =>
    refine ⟨[mark], mark, rfl, ?_, hmark⟩
    rw [List.mem_singleton]
    rintro rfl
    cases hmark
  | @called mark before after _ rest hmark hbefore hafter =>
    refine ⟨"url(".toList ++ (before ++ [mark]), mark, by simp, ?_, hmark⟩
    simp only [List.mem_append, List.mem_singleton, not_or]
    refine ⟨by decide, fun hmem => ?_, ?_⟩
    · exact absurd (hbefore _ hmem) (by decide)
    · rintro rfl
      cases hmark

/-- Between the keyword of an import and what follows its closing mark there is no other one. -/
theorem callsOnce_import (hgap : Blanks gap) (h : Target target address rest)
    (haddress : IsAddress address) :
    Dependency.CallsOnce "@import".toList ("@import".toList ++ (gap ++ target)) rest := by
  obtain ⟨inside, mark, rfl, hinside, hmark⟩ := h.exists_front
  have hmarks : ∀ c ∈ "@import".toList, isQuote c = false := by decide
  have hword : mark ∉ "@import".toList := by
    intro hmem
    rw [hmarks mark hmem] at hmark
    cases hmark
  have hfront : '@' ∉ "import".toList ++ (gap ++ inside) := by
    simp only [List.mem_append, not_or]
    exact ⟨by decide, hgap.not_mem (by decide), hinside⟩
  refine ⟨'@', "import".toList ++ (gap ++ inside) ++ (address ++ [mark]), by simp, ?_⟩
  intro part hpart hne
  rcases Text.suffix_append_cases hpart with hpart | ⟨front, hsuffix, hfrontne, rfl⟩
  · rcases Text.suffix_append_cases hpart with hpart | ⟨inner, hinner, -, rfl⟩
    · refine Dependency.not_calls_part (fun hat => hword ?_) hpart hne rest
      rw [← List.mem_singleton.1 hat]
      decide
    · intro hcalls
      rw [List.append_assoc] at hcalls
      exact haddress.quiet inner hinner (hcalls.of_append hword (isBlank_quote hmark))
  · rw [List.append_assoc]
    exact Dependency.not_calls_part hfront hsuffix hfrontne _

end Import

end AssetAudit.Style
