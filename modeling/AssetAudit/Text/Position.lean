/-!
# Places in a text

Offsets count bytes of the UTF-8 form of a text. Readers are told lines and columns, both counted
from one, a column being a number of characters. `positionAt` goes from the first to the second,
and `slice` cuts the characters between two offsets.
-/
namespace AssetAudit

/-- A place in a text: line and character column, both counted from one. -/
structure Position where
  line : Nat
  column : Nat
  deriving DecidableEq, Repr, Inhabited

/-- A stretch of a text, `stop` excluded. -/
structure Location where
  start : Position
  stop : Position
  deriving DecidableEq, Repr, Inhabited

/-- A stretch of a text in byte offsets, `stop` excluded. -/
structure Span where
  start : Nat
  stop : Nat
  deriving DecidableEq, Repr, Inhabited

namespace Position

/-- The first place of every text. -/
def origin : Position := ⟨1, 1⟩

/-- The place after the character `c`. -/
def advance (p : Position) (c : Char) : Position :=
  if c = '\n' then ⟨p.line + 1, 1⟩ else ⟨p.line, p.column + 1⟩

end Position

namespace Text

/-- The place `offset` bytes further than `here`. An offset inside a character is given the first
column of its line, one past the end the place of the end. -/
def positionFrom (here : Position) : List Char → Nat → Position
  | [], _ => here
  | c :: rest, offset =>
    if offset = 0 then here
    else if offset < c.utf8Size then ⟨here.line, 1⟩
    else positionFrom (here.advance c) rest (offset - c.utf8Size)

/-- The place of a byte offset (`position`). -/
def positionAt (text : List Char) (offset : Nat) : Position :=
  positionFrom Position.origin text offset

/-- The place of a span (`location`). -/
def locate (text : List Char) (span : Span) : Location :=
  ⟨positionAt text span.start, positionAt text span.stop⟩

/-- Number of bytes of the UTF-8 form. -/
def byteLength : List Char → Nat
  | [] => 0
  | c :: rest => c.utf8Size + byteLength rest

def dropBytes : List Char → Nat → List Char
  | text, 0 => text
  | [], _ + 1 => []
  | c :: rest, n + 1 => dropBytes rest (n + 1 - c.utf8Size)

def takeBytes : List Char → Nat → List Char
  | _, 0 => []
  | [], _ + 1 => []
  | c :: rest, n + 1 => c :: takeBytes rest (n + 1 - c.utf8Size)

/-- The characters of a span. -/
def slice (text : List Char) (span : Span) : List Char :=
  takeBytes (dropBytes text span.start) (span.stop - span.start)

end Text
end AssetAudit
