import AssetAudit.Style.Lexeme
import AssetAudit.Style.Selector
import AssetAudit.Text.Lowercase

/-!
# Style sheets

A sheet is a list of items: rules, declarations, media queries, imports, keyframes and other blocks.
Reading never fails. Where no item can be read, the text is passed over up to a lexeme that can only
start an item (`startsItem`) or close the block; words alone do not bring the reader back. A rule that
the end of the text leaves open is closed there if its last item is complete and no block is open
around it; otherwise the block falls apart into its items.
-/
namespace AssetAudit.Style

/-- `property: value`, with or without a mark of importance. -/
structure Declaration where
  property : String
  value : String
  important : Bool
  deriving DecidableEq, Repr, Inhabited

inductive Item where
  | rule (span : Span) (selectors : List String) (block : List Item)
  | declaration (declaration : Declaration)
  | media (span : Span) (query : String) (block : List Item)
  | importing (span : Span) (target : String)
  | keyframes (span : Span) (name : String)
  /-- A block of another kind, of which only the items count. -/
  | group (block : List Item)
  deriving Inhabited

def Item.isDeclaration : Item → Bool
  | .declaration _ => true
  | _ => false

/-! ## Selector lists -/

/-- Whether a list of selectors may end here. -/
def endsSelector (text : List Char) : Bool :=
  match text with
  | c :: _ => c == openBrace || c == ','
  | [] => false

/-- Length of a name, which may be missing where the list of selectors ends. -/
def owedName? (c : Cursor) : Option Nat :=
  let n := nameLength c.rest
  if n > 0 then some n else if endsSelector (next c).rest then some 0 else none

/-- Length of a name and the bracketed text after it. -/
def called? (c : Cursor) : Option Nat :=
  (owedName? c).map fun n => n + (bracketed? ((c.rest).drop n)).getD 0

/-- Length of a simple selector other than a type. -/
def qualifier? (c : Cursor) : Option Nat :=
  match c.rest with
  | '.' :: _ | '#' :: _ => (owedName? (c.skip 1)).map (· + 1)
  | '[' :: _ => bracketed? c.rest
  | ':' :: ':' :: _ => (called? (c.skip 2)).map (· + 2)
  | ':' :: _ => (called? (c.skip 1)).map (· + 1)
  | '|' :: rest =>
    if rest.head? == some '*' then some 2
    else
      let n := nameLength rest
      if n > 0 then some (n + 1) else none
  | _ => none

/-- Length of a simple selector. -/
def simple? (c : Cursor) : Option Nat :=
  match c.rest with
  | '*' :: _ | '&' :: _ => some 1
  | '"' :: _ | '\'' :: _ => quoted? c.rest
  | _ =>
    match qualifier? c with
    | some n => some n
    | none =>
      let n := nameLength c.rest
      if n > 0 then some n else none

/-- Whether a part below the one before a blank may start here. -/
def startsDescendant : List Char → Bool
  | ':' :: c :: _ => !Text.isAsciiBlank c
  | c :: _ =>
    c.isAlphanum || c == '#' || c == '.' || c == '[' || c == '-' || c == '*' || c == '&'
  | [] => false

/-- The end of a selector of which everything before the cursor has been read. -/
def selectorEnd : Nat → Cursor → Cursor
  | 0, c => c
  | n + 1, c =>
    match qualifier? c with
    | some length => selectorEnd n (c.skip length)
    | none =>
      let between := gap c
      match between.next.rest with
      | [] => c
      | x :: rest =>
        if Selector.isCombinator x then
          let after := between.next.skip 1
          let part := next after
          match simple? part with
          | some length => selectorEnd n (part.skip length)
          | none => if endsSelector part.rest then after else c
        else if between.spaced && startsDescendant (x :: rest) then
          match simple? between.next with
          | some length => selectorEnd n (between.next.skip length)
          | none => c
        else c

/-- The end of the selector at a cursor. A combinator may stand first. -/
def selector? (fuel : Nat) (c : Cursor) : Option Cursor :=
  let first := match c.rest with
    | x :: _ => if Selector.isCombinator x then next (c.skip 1) else c
    | [] => c
  (simple? first).map fun length => selectorEnd fuel (first.skip length)

/-- Whether an at-rule starts here. -/
def startsAtRule : List Char → Bool
  | '@' :: c :: _ => c.isAlpha || c == '-' || c == '_'
  | _ => false

/-- Length of a lexeme that is passed over. -/
def strayLength (text : List Char) : Nat :=
  match quoted? text, comment? text with
  | some n, _ | none, some n => n
  | none, none => 1

/-- Whether the selector before stray text goes on here. -/
def resumesSelector : List Char → Bool
  | ':' :: ':' :: _ => true
  | c :: _ => c == '.' || c == '#' || c == '[' || Selector.isCombinator c
  | [] => false

/-- The selectors up to the block of a rule, last one first, and the block; or the place where the
rule is given up. `stray` says that text that fits nowhere has been met since the last selector. -/
def selectorList (inBlock : Bool) :
    Nat → Bool → List Span → Cursor → Except Cursor (List Span × Cursor)
  | 0, _, _, c => .error c
  | n + 1, stray, found, c =>
    let between := gap c
    let here := between.next
    match here.rest with
    | [] => .error here
    | x :: _ =>
      if x == openBrace then .ok (found, here)
      else if x == ',' then
        let after := gap (here.skip 1)
        let found := after.notes.reverse ++ (between.notes.reverse ++ found)
        match selector? n after.next with
        | some stop =>
          selectorList inBlock n false (⟨after.next.offset, stop.offset⟩ :: found) stop
        | none => selectorList inBlock n true found after.next
      else if (x == closeBrace && inBlock) || startsAtRule here.rest then .error here
      else
        let length := strayLength here.rest
        match stray && resumesSelector here.rest, found, selector? n here with
        | true, last :: before, some stop =>
          selectorList inBlock n false (⟨last.start, stop.offset⟩ :: before) stop
        | _, _, _ => selectorList inBlock n true found (here.skip length)

/-! ## Declarations -/

/-- Whether a brace opens before the declaration at this text could end. `pass` characters of a comment
are still to be passed. -/
def opensBlock (pass : Nat) : List Char → Bool
  | [] => false
  | c :: rest =>
    match pass with
    | n + 1 => opensBlock n rest
    | 0 =>
      match comment? (c :: rest) with
      | some n => opensBlock (n - 1) rest
      | none =>
        if c == ';' || c == closeBrace then false
        else c == openBrace || opensBlock 0 rest

/-- What has been read of the value of a declaration. -/
structure Value where
  /-- From the first to the last lexeme. -/
  span : Option Span
  important : Bool
  /-- The end of stray text or a line note, which counts only if the declaration goes on. -/
  pending : Option Nat

namespace Value

def empty : Value := ⟨none, false, none⟩

/-- The value with another lexeme. -/
def extend (v : Value) (start stop : Nat) : Value :=
  { v with
    span := some ⟨(v.span.map (·.start)).getD start, stop⟩
    pending := none }

/-- The value with what is pending. -/
def settle (v : Value) : Value :=
  match v.span, v.pending with
  | some span, some stop => ⟨some ⟨span.start, stop⟩, v.important, none⟩
  | _, _ => v

end Value

/-- Characters that end a word of a value. -/
def endsWord (c : Char) : Bool :=
  Text.isAsciiBlank c || c == '/' || c == ',' || c == ';' || c == '!' || c == openBrace || c == closeBrace ||
    c == '(' || c == ')' || c == '[' || c == ']'

def wordLength (text : List Char) : Nat := (text.takeWhile (!endsWord ·)).length

def isSign (c : Char) : Bool := c == '+' || c == '-' || c == '*' || c == '/' || c == ','

/-- Length of a lexeme of a value. Stray text swallows the words after it. -/
def valueLexeme? (stray : Bool) (text : List Char) : Option Nat :=
  match text with
  | [] => none
  | c :: rest =>
    match quoted? text, bracketed? text with
    | some n, _ | none, some n => some n
    | none, none =>
      if c.isDigit || c == '#' || c == '.' || c == '+' || (c == '-' && !stray) then
        some (wordLength rest + 1)
      else if isSign c then some 1
      else if (isNameStart c || c == '\\') && !stray then some (wordLength text)
      else none

/-- The value up to the semicolon or brace that ends its declaration, and the place of that. -/
def valueFrom : Nat → Bool → Value → Cursor → Value × Cursor
  | 0, _, v, c => (v, c)
  | n + 1, stray, v, c =>
    let between := gap c
    let here := between.next
    let v := match between.notes.getLast? with
      | some note => { v with pending := some note.stop }
      | none => v
    match here.rest with
    | [] => (v, here)
    | x :: _ =>
      if x == ';' || x == closeBrace then (v, here)
      else if Text.startsWith "!important".toList here.rest then
        valueFrom n false { v.settle with important := true } (here.skip 10)
      else
        match valueLexeme? stray here.rest with
        | some length =>
          let stop := here.skip length
          valueFrom n false (v.extend here.offset stop.offset) stop
        | none =>
          let stop := here.skip 1
          valueFrom n true { v with pending := some stop.offset } stop

/-- How the reading of an item ended. -/
inductive Step where
  /-- An item, and the place after it. -/
  | item (item : Item) (after : Cursor)
  /-- Nothing to keep, and the place after it. -/
  | nothing (after : Cursor)
  /-- No item starts here. -/
  | lost (after : Cursor)
  /-- The text ended. What could be kept of the item, and whether only its brace is missing. -/
  | ended (kept : List Item)

def declarationOf (text : List Char) (name : Span) (v : Value) : Declaration where
  property := Text.lowercase (String.ofList (Text.slice text name))
  value := match v.span with
    | some span => Text.compact (String.ofList (Text.slice text span))
    | none => ""
  important := v.important || v.span.isNone

/-- The declaration at a cursor. -/
def declaration? (text : List Char) (inBlock : Bool) (fuel : Nat) (c : Cursor) : Option Step :=
  let length := nameLength c.rest
  let name := c.skip length
  let colon := next name
  match length, colon.rest with
  | _ + 1, ':' :: rest =>
    if rest.head? == some ':' || opensBlock 0 rest then none
    else
      let (v, stop) := valueFrom fuel false Value.empty (colon.skip 1)
      let span : Span := ⟨c.offset, name.offset⟩
      match stop.rest with
      | ';' :: _ => some (.item (.declaration (declarationOf text span v.settle)) (stop.skip 1))
      | _ :: _ =>
        if inBlock then some (.item (.declaration (declarationOf text span v)) stop)
        else some (.lost stop)
      | [] => some (.ended [])
  | _, _ => none

/-! ## At-rules -/

/-- The place where the prelude of an at-rule ends: at a brace, or at a semicolon if `semicolon`
is on. -/
def preludeEnd (semicolon : Bool) : Nat → Cursor → Cursor
  | 0, c => c
  | n + 1, c =>
    let here := next c
    match here.rest with
    | [] => here
    | x :: _ =>
      if x == openBrace || x == closeBrace || (x == ';' && semicolon) then here
      else
        let length := (bracketed? here.rest).getD (strayLength here.rest)
        preludeEnd semicolon n (here.skip length)

/-- The end of the last lexeme before `stop`. -/
def lexemesEnd (stop : Nat) : Nat → Cursor → Cursor
  | 0, c => c
  | n + 1, c =>
    let here := next c
    if here.offset < stop then
      lexemesEnd stop n (here.skip ((bracketed? here.rest).getD (strayLength here.rest)))
    else c

/-- Length of the target of an import: a quoted text, a call or a word. -/
def targetLength (text : List Char) : Nat :=
  match quoted? text with
  | some n => n
  | none =>
    let word := wordLength text
    word + (bracketed? (text.drop word)).getD 0

def dropRepeated (needle : List Char) : Nat → List Char → List Char
  | 0, text => text
  | n + 1, text =>
    match Text.after? needle text with
    | some rest => dropRepeated needle n rest
    | none => text

/-- The address an import names: without the call around it and without quotation marks. -/
def importAddress (target : List Char) : String :=
  let text := Text.trim target
  let inner := dropRepeated "url(".toList text.length text
  let inner := (inner.reverse.dropWhile (· == ')')).reverse
  String.ofList (Text.trimMatches Selector.isQuote (Text.trim inner))

/-- The import whose keyword starts at `start` and ends at `c`. -/
def importFrom (fuel start : Nat) (c : Cursor) : Step :=
  let target := c.skip (c.rest.takeWhile Text.isAsciiBlank).length
  let length := (comment? target.rest).getD (targetLength target.rest)
  let address := importAddress (target.rest.take length)
  let stop := preludeEnd true fuel c
  let last := lexemesEnd stop.offset fuel c
  match stop.rest with
  | ';' :: _ => .item (.importing ⟨start, stop.offset + 1⟩ address) (stop.skip 1)
  | [] => if length == 0 then .ended [] else .item (.importing ⟨start, last.offset⟩ address) stop
  | _ => if length == 0 then .lost stop else .item (.importing ⟨start, last.offset⟩ address) stop

/-- Length of what closes `depth` open braces. -/
def bracesRest? (depth pass : Nat) : List Char → Option Nat
  | [] => none
  | c :: rest =>
    match pass with
    | n + 1 => (bracesRest? depth n rest).map (· + 1)
    | 0 =>
      match quoted? (c :: rest), comment? (c :: rest) with
      | some n, _ | none, some n => (bracesRest? depth (n - 1) rest).map (· + 1)
      | none, none =>
        if c == openBrace then (bracesRest? (depth + 1) 0 rest).map (· + 1)
        else if c == closeBrace then
          if depth ≤ 1 then some 1 else (bracesRest? (depth - 1) 0 rest).map (· + 1)
        else (bracesRest? depth 0 rest).map (· + 1)

/-- The keyframes whose keyword starts at `start` and ends at `c`. -/
def keyframesFrom (fuel start : Nat) (c : Cursor) : Step :=
  let name := next c
  let length := nameLength name.rest
  let block := preludeEnd false fuel name
  match block.rest with
  | [] => .ended []
  | x :: rest =>
    if x == closeBrace then .lost block
    else
      match bracesRest? 1 0 rest with
      | none => .ended []
      | some n =>
        let stop := block.skip (n + 1)
        if length == 0 then .nothing stop
        else .item (.keyframes ⟨start, stop.offset⟩ (String.ofList (name.rest.take length))) stop

def isKeyframesWord (word : String) : Bool :=
  word == "keyframes" ||
    (Text.endsWith "keyframes".toList word.toList &&
      word.toList.all (fun c => c == '-' || c.isLower))

/-! ## Items -/

/-- Whether text that fits nowhere ends here, because an item starts. -/
def startsItem : List Char → Bool
  | ':' :: ':' :: _ => true
  | c :: rest =>
    startsAtRule (c :: rest) || c == '.' || c == '#' || c == '[' || c == '*' || c == '&' ||
      Selector.isQuote c || Selector.isCombinator c
  | [] => false

/-- A block that has been read. -/
structure Block where
  items : List Item
  /-- The end of its last item or of its brace. -/
  stop : Nat
  after : Cursor
  /-- Whether the closing brace was found. -/
  closed : Bool
  /-- Whether the last item is complete. -/
  complete : Bool

/-- What becomes of a block that belongs to an item: `build` makes the item from its end and its
items. -/
def Block.finish (block : Block) (nested : Bool) (build : Nat → List Item → Item) : Step :=
  if block.closed then .item (build block.stop block.items) block.after
  else if block.complete && !nested then .item (build block.stop block.items) block.after
  else .ended block.items

def selectorTexts (text : List Char) (found : List Span) : List String :=
  (found.reverse.map fun span => String.ofList (Selector.normalize (Text.slice text span))).filter
    (!·.isEmpty)

mutual

/-- The items of a block, or of the sheet if `inBlock` is off. The items found so far come last one
first; `lost` says that the text before fits nowhere. -/
def itemsFrom (text : List Char) (inBlock : Bool) :
    Nat → Bool → List Item → Nat → Cursor → Block
  | 0, _, found, stop, c => ⟨found.reverse, stop, c, false, true⟩
  | n + 1, lost, found, stop, c =>
    let here := next c
    match here.rest with
    | [] => ⟨found.reverse, stop, here, false, !lost⟩
    | x :: _ =>
      if x == closeBrace && inBlock then
        ⟨found.reverse, here.offset + 1, here.skip 1, true, true⟩
      else if lost && !startsItem here.rest then
        if x == openBrace && inBlock then
          itemsFrom text inBlock n false (found.filter (!·.isDeclaration)) stop (here.skip 1)
        else itemsFrom text inBlock n true found stop (here.skip (strayLength here.rest))
      else
        match itemAt text inBlock n here with
        | .item item after => itemsFrom text inBlock n false (item :: found) after.offset after
        | .nothing after => itemsFrom text inBlock n false found after.offset after
        | .lost after =>
          let after := if after.offset == here.offset then here.skip 1 else after
          itemsFrom text inBlock n true found stop after
        | .ended kept => ⟨found.reverse ++ kept, stop, ⟨[], here.offset⟩, false, false⟩

/-- The item at a cursor. -/
def itemAt (text : List Char) (inBlock : Bool) : Nat → Cursor → Step
  | 0, c => .lost c
  | n + 1, c =>
    if startsAtRule c.rest then
      let word := String.ofList
        (c.rest.tail.takeWhile fun ch => ch.isAlpha || ch == '-' || ch == '_')
      let after := c.skip (word.length + 1)
      if word == "import" then importFrom n c.offset after
      else if isKeyframesWord word then keyframesFrom n c.offset after
      else
        let isMedia := word == "media"
        let prelude := preludeEnd (!isMedia) n after
        match prelude.rest with
        | [] => .ended []
        | x :: _ =>
          if x == openBrace then
            let block := itemsFrom text true n false [] (prelude.offset + 1) (prelude.skip 1)
            if isMedia then
              let query := Text.slice text ⟨after.offset, prelude.offset⟩
              block.finish inBlock fun stop items =>
                .media ⟨c.offset, stop⟩ (Text.compact (String.ofList query)) items
            else block.finish inBlock fun _ items => .group items
          else if x == ';' then .nothing (prelude.skip 1)
          else .lost prelude
    else
      match declaration? text inBlock n c with
      | some step => step
      | none =>
        match selector? n c with
        | none => .lost c
        | some stop =>
          match selectorList inBlock n false [⟨c.offset, stop.offset⟩] stop with
          | .error after => .lost after
          | .ok (found, brace) =>
            let block := itemsFrom text true n false [] (brace.offset + 1) (brace.skip 1)
            block.finish inBlock fun stop items =>
              .rule ⟨c.offset, stop⟩ (selectorTexts text found) items

end

/-- The items of a sheet. A mark of byte order before them is passed over. -/
def readSheet (text : List Char) : List Item :=
  let start := Cursor.ofText text
  let start := if text.head? == some (Char.ofNat 0xfeff) then start.skip 1 else start
  (itemsFrom text false (2 * text.length + 2) false [] 0 start).items

end AssetAudit.Style
