import AssetAudit.Page.Element
import AssetAudit.Text.Cursor
import AssetAudit.Text.Lowercase
import AssetAudit.Text.Search

/-!
# Reading pages

Reading never fails. Elements are kept on a stack while they are open; an end tag, a start tag their
content model excludes or the end of the text closes them. Text that is no markup is passed over.

Elements that the end of the text finds open are closed after their last child if that costs no more
than giving up the open part, of which then only the complete elements inside stay. Closing costs
`closingCost` for each element; giving up costs `lossCost`, and more for every node, byte and line.
-/
namespace AssetAudit.Page

/-! ## Tags -/

def isTagChar (c : Char) : Bool := c.isAlphanum || c == '-' || c == ':'

def isAttributeChar (c : Char) : Bool :=
  !(Text.isAsciiBlank c || c == '<' || c == '>' || c == '"' || c == '\'' || c == '/' || c == '=')

/-- Characters of a value without quotation marks. -/
def isValueChar (c : Char) : Bool := isAttributeChar c || c == '/'

def passBlanks (c : Cursor) : Cursor := c.skip (c.rest.takeWhile Text.isAsciiBlank).length

/-- The value at a cursor, and the place after it; nothing if the closing mark is missing. -/
def attributeValue (c : Cursor) : Option (String × Cursor) :=
  match c.rest with
  | [] => none
  | mark :: rest =>
    if mark == '"' || mark == '\'' then
      let value := rest.takeWhile (· != mark)
      if value.length < rest.length then some (String.ofList value, c.skip (value.length + 2))
      else none
    else
      let value := c.rest.takeWhile isValueChar
      some (String.ofList value, c.skip value.length)

/-- How a start tag ends. -/
inductive TagEnd where
  | opened
  | selfClosed
  /-- The text ends first. -/
  | broken
  deriving DecidableEq

/-- The attributes of a start tag, those found so far last one first. -/
def attributesFrom : Nat → List Attribute → Cursor → List Attribute × TagEnd × Cursor
  | 0, found, c => (found.reverse, .broken, c)
  | n + 1, found, c =>
    let here := passBlanks c
    match here.rest with
    | [] => (found.reverse, .broken, here)
    | '>' :: _ => (found.reverse, .opened, here.skip 1)
    | '<' :: _ => (found.reverse, .opened, c)
    | '/' :: '>' :: _ => (found.reverse, .selfClosed, here.skip 2)
    | _ :: _ =>
      let name := here.rest.takeWhile isAttributeChar
      if name.isEmpty then attributesFrom n found (here.skip 1)
      else
        let label := Text.lowercase (String.ofList name)
        let bare := here.skip name.length
        let equals := passBlanks bare
        match equals.rest with
        | '=' :: _ =>
          let valueStart := passBlanks (equals.skip 1)
          match attributeValue valueStart with
          | none => (found.reverse, .broken, ⟨[], valueStart.offset⟩)
          | some (value, after) =>
            let stop := if value.isEmpty && after.offset == valueStart.offset then equals.skip 1
              else after
            attributesFrom n (⟨label, value, ⟨here.offset, stop.offset⟩⟩ :: found) after
        | _ => attributesFrom n (⟨label, "", ⟨here.offset, bare.offset⟩⟩ :: found) bare

/-- Length of the text before the end tag of a script or style sheet. A character that fails to go on
with the end tag is text and is not tried as its start. `found` characters of `wanted` have been seen
before. -/
def rawLength (wanted : List Char) : List Char → List Char → Nat → Option Nat
  | [], _, _ => some 0
  | _ :: _, [], _ => none
  | w :: ws, c :: rest, found =>
    if c.toLower == w then rawLength wanted ws rest (found + 1)
    else (rawLength wanted wanted rest 0).map (· + found + 1)

/-! ## Open elements -/

/-- An element that has not ended yet, its children last one first. -/
structure Frame where
  start : Nat
  tag : Tag
  children : List Element
  /-- Number of nodes read inside, texts included. -/
  nodes : Nat

structure Reader where
  /-- Open elements, innermost first. -/
  opened : List Frame
  /-- Elements outside all others, last one first. -/
  roots : List Element
  /-- The end of the last node. -/
  last : Nat

namespace Reader

/-- Count a node that is no element. -/
def node (r : Reader) (stop : Nat) : Reader :=
  match r.opened with
  | frame :: outer => { r with opened := { frame with nodes := frame.nodes + 1 } :: outer, last := stop }
  | [] => { r with last := stop }

/-- Add a complete element. -/
def add (r : Reader) (element : Element) (stop : Nat) : Reader :=
  match r.opened with
  | frame :: outer =>
    let frame :=
      { frame with children := element :: frame.children, nodes := frame.nodes + 1 }
    { r with opened := frame :: outer, last := stop }
  | [] => { r with roots := element :: r.roots, last := stop }

def push (r : Reader) (start : Nat) (tag : Tag) (stop : Nat) : Reader :=
  { r with opened := ⟨start, tag, [], 0⟩ :: r.opened, last := stop }

/-- End the innermost element. -/
def close (r : Reader) (stop : Nat) : Reader :=
  match r.opened with
  | [] => r
  | frame :: outer =>
    { r with opened := outer }.add
      (.mk ⟨frame.start, stop⟩ frame.tag "" frame.children.reverse) stop

/-- Whether the innermost element ends because a start tag of this name, or none, comes next. -/
def yields (r : Reader) (name : String) : Bool :=
  match r.opened with
  | frame :: _ => isVoid frame.tag.name || (!name.isEmpty && !mayContain frame.tag.name name)
  | [] => false

end Reader

/-! ## The end of the text -/

def closingCost : Nat := 610

def lossCost : Nat := 500

/-- Close the innermost elements that end with the page. -/
def closePage (stop : Nat) : Nat → Reader → Reader
  | 0, r => r
  | n + 1, r =>
    match r.opened with
    | frame :: _ =>
      if isVoid frame.tag.name || pageTags.contains frame.tag.name then
        closePage stop n (r.close stop)
      else r
    | [] => r

def closeAll (stop : Nat) : Nat → Reader → Reader
  | 0, r => r
  | n + 1, r => if r.opened.isEmpty then r else closeAll stop n (r.close stop)

/-- The elements inside open ones. -/
def spilled (r : Reader) : List Element :=
  r.roots.reverse ++ r.opened.reverse.flatMap (·.children.reverse)

/-- The elements of a page that has been read up to its end. -/
def finish (text : List Char) (stop : Nat) (r : Reader) : List Element :=
  let r := closePage stop r.opened.length r
  match r.opened.getLast? with
  | none => r.roots.reverse
  | some outermost =>
    let region := Text.slice text ⟨outermost.start, r.last⟩
    let nodes := r.opened.foldl (fun n element => n + element.nodes + 1) 0
    let loss := lossCost + 100 * nodes + Text.byteLength region + 30 * region.count '\n'
    if closingCost * r.opened.length ≤ loss then
      (closeAll r.last r.opened.length r).roots.reverse
    else spilled r

/-! ## Reading -/

/-- Length of a comment after its opening: up to a `>` after two dashes. -/
def commentRest? (dashes : Nat) : List Char → Option Nat
  | [] => none
  | '-' :: rest => (commentRest? (dashes + 1) rest).map (· + 1)
  | '>' :: rest => if dashes ≥ 2 then some 1 else (commentRest? 0 rest).map (· + 1)
  | _ :: rest => (commentRest? 0 rest).map (· + 1)

def comment? : List Char → Option Nat
  | '<' :: '!' :: '-' :: '-' :: rest => (commentRest? 0 rest).map (· + 4)
  | _ => none

def isTextChar (c : Char) : Bool := c != '<' && c != '>' && c != '&'

def tagName (text : List Char) : List Char := text.takeWhile isTagChar

def nameOf (chars : List Char) : String := Text.lowercase (String.ofList chars)

/-- Step over the character at the cursor. -/
def stray (r : Reader) (c : Cursor) : Reader × Cursor := (r.node (c.offset + 1), c.skip 1)

/-- The place after the `>` that ends the tag at the cursor. -/
def afterTag (c : Cursor) : Cursor :=
  c.skip ((c.rest.takeWhile (· != '>')).length + 1)

/-- A script or style sheet whose tag ends at `c`; nothing if it has no end. -/
def rawElement? (start : Nat) (tag : Tag) (c : Cursor) : Option (Element × Cursor) :=
  let wanted := "</".toList ++ tag.name.toList
  (rawLength wanted wanted c.rest 0).map fun n =>
    let stop := afterTag (c.skip (n + wanted.length))
    (.mk ⟨start, stop.offset⟩ tag (String.ofList (c.rest.take n)) [], stop)

def isRaw (name : String) : Bool := name == "script" || name == "style"

/-- One step at the `<` of a start tag; nothing if the text ends inside. -/
def startTag? (fuel : Nat) (r : Reader) (c : Cursor) : Option (Reader × Cursor) :=
  let nameStart := passBlanks (c.skip 1)
  let chars := tagName nameStart.rest
  if chars.isEmpty then some (stray r c)
  else
    let name := nameOf chars
    let (attributes, ending, after) := attributesFrom fuel [] (nameStart.skip chars.length)
    let tag : Tag := ⟨name, attributes⟩
    match ending with
    | .broken => none
    | .selfClosed =>
      if isRaw name then some (r.node after.offset, after)
      else some (r.add (.mk ⟨c.offset, after.offset⟩ tag "" []) after.offset, after)
    | .opened =>
      if isRaw name then
        (rawElement? c.offset tag after).map fun (element, stop) => (r.add element stop.offset, stop)
      else some (r.push c.offset tag after.offset, after)

/-- One step at `</`. -/
def endTag (r : Reader) (c : Cursor) : Reader × Cursor :=
  let chars := tagName (c.rest.drop 2)
  let name := nameOf chars
  let stop := afterTag c
  if chars.isEmpty then (r.node (c.offset + 2), c.skip 2)
  else if (r.opened.head?.map (·.tag.name)) == some name then (r.close stop.offset, stop)
  else if r.opened.any (sameKind name ·.tag.name) then (r.close c.offset, c)
  else (r.node stop.offset, stop)

/-- One step at a character that is no blank; nothing if the rest of the text cannot be read. -/
def step? (fuel : Nat) (r : Reader) (c : Cursor) : Option (Reader × Cursor) :=
  match comment? c.rest with
  | some length => some (r, c.skip length)
  | none =>
    match c.rest with
    | '<' :: '!' :: rest =>
      if (String.ofList (rest.take 7)).toLower == "doctype" then
        let stop := afterTag c
        some (r.node stop.offset, stop)
      else some (r, c.skip 2)
    | '<' :: '/' :: _ => some (endTag r c)
    | '<' :: rest =>
      if r.yields (nameOf (tagName rest)) then some (r.close c.offset, c)
      else startTag? fuel r c
    | '&' :: rest =>
      let n := (rest.takeWhile fun ch => ch.isAlphanum || ch == '#').length
      let n := if (rest.drop n).head? == some ';' then n + 1 else n
      let stop := c.skip (n + 1)
      some (r.node stop.offset, stop)
    | '>' :: _ => some (stray r c)
    | _ =>
      let run := c.rest.takeWhile isTextChar
      let kept := (run.reverse.dropWhile Text.isAsciiBlank).reverse
      let stop := c.skip kept.length
      some (r.node stop.offset, stop)

def readFrom (text : List Char) : Nat → Reader → Cursor → List Element
  | 0, r, c => finish text c.offset r
  | n + 1, r, c =>
    let here := passBlanks c
    if here.rest.isEmpty then finish text here.offset r
    else
      match step? n r here with
      | some (r, after) => readFrom text n r after
      | none => spilled r

/-- The elements of a page. -/
def readPage (text : List Char) : List Element :=
  readFrom text (2 * text.length + 2) ⟨[], [], 0⟩ (Cursor.ofText text)

end AssetAudit.Page
