import AssetAudit.Text.Blank
import AssetAudit.Text.Cursor
import AssetAudit.Text.Position

/-!
# Lexemes of style sheets

Lengths, in characters, of the lexemes a style sheet is made of. Blanks, comments and line notes
(`//` up to the end of the line) may stand between any two lexemes; such a stretch is a gap.
-/
namespace AssetAudit.Style

def openBrace : Char := '\x7b'

def closeBrace : Char := '\x7d'

/-- Letters that may start a name: ASCII letters, the underscore and the upper half of Latin-1. -/
def isNameStart (c : Char) : Bool :=
  c.isAlpha || c == '_' || (0xa0 ≤ c.toNat && c.toNat ≤ 0xff)

def isNameChar (c : Char) : Bool := isNameStart c || c.isDigit || c == '-'

def isHexDigit (c : Char) : Bool :=
  c.isDigit || ('a' ≤ c && c ≤ 'f') || ('A' ≤ c && c ≤ 'F')

/-- Length of an escape after its backslash: up to six hexadecimal digits and a space, or one other
character. -/
def escapeLength : List Char → Nat
  | [] => 0
  | c :: rest =>
    if isHexDigit c then
      let digits := ((c :: rest).take 6).takeWhile isHexDigit
      match rest.drop (digits.length - 1) with
      | d :: _ => if Text.isAsciiBlank d then digits.length + 1 else digits.length
      | [] => digits.length
    else if c == '\n' then 0
    else 1

/-- Length of the characters and escapes that continue a name; `pass` characters of an escape are
still to be passed. -/
def nameRest (pass : Nat) : List Char → Nat
  | [] => 0
  | c :: rest =>
    match pass with
    | n + 1 => nameRest n rest + 1
    | 0 =>
      if c == '\\' then
        let n := escapeLength rest
        if n == 0 then 0 else nameRest n rest + 1
      else if isNameChar c then nameRest 0 rest + 1
      else 0

/-- Length of a name, zero if none starts here. -/
def nameLength : List Char → Nat
  | '-' :: '-' :: rest => nameRest 0 rest + 2
  | '-' :: c :: rest => if isNameStart c || c == '\\' then nameRest 0 (c :: rest) + 1 else 0
  | c :: rest => if isNameStart c || c == '\\' then nameRest 0 (c :: rest) else 0
  | [] => 0

/-- Length of a comment after its opening, if it is closed. -/
def commentRest? (star : Bool) : List Char → Option Nat
  | [] => none
  | c :: rest =>
    if star && c == '/' then some 1 else (commentRest? (c == '*') rest).map (· + 1)

def comment? : List Char → Option Nat
  | '/' :: '*' :: rest => (commentRest? false rest).map (· + 2)
  | _ => none

/-- Length of a line note. -/
def note? : List Char → Option Nat
  | '/' :: '/' :: rest => some ((rest.takeWhile (· != '\n')).length + 2)
  | _ => none

/-- Length of a quoted text after its opening mark, if it is closed on its line. -/
def quoteRest? (mark : Char) (escaped : Bool) : List Char → Option Nat
  | [] => none
  | c :: rest =>
    if escaped then (quoteRest? mark false rest).map (· + 1)
    else if c == mark then some 1
    else if c == '\n' then none
    else (quoteRest? mark (c == '\\') rest).map (· + 1)

def quoted? : List Char → Option Nat
  | '"' :: rest => (quoteRest? '"' false rest).map (· + 1)
  | '\'' :: rest => (quoteRest? '\'' false rest).map (· + 1)
  | _ => none

/-- Length of what closes `depth` open brackets. Quoted texts and comments count as a whole; `pass`
characters of one are still to be passed. -/
def bracketRest? (depth pass : Nat) : List Char → Option Nat
  | [] => none
  | c :: rest =>
    match pass with
    | n + 1 => (bracketRest? depth n rest).map (· + 1)
    | 0 =>
      match quoted? (c :: rest), comment? (c :: rest) with
      | some n, _ | none, some n => (bracketRest? depth (n - 1) rest).map (· + 1)
      | none, none =>
        if c == '(' || c == '[' then (bracketRest? (depth + 1) 0 rest).map (· + 1)
        else if c == ')' || c == ']' then
          if depth ≤ 1 then some 1 else (bracketRest? (depth - 1) 0 rest).map (· + 1)
        else if c == openBrace || c == closeBrace then none
        else (bracketRest? depth 0 rest).map (· + 1)

/-- Length of a bracketed text. -/
def bracketed? : List Char → Option Nat
  | c :: rest =>
    if c == '(' || c == '[' then (bracketRest? 1 0 rest).map (· + 1) else none
  | [] => none

/-- What was passed between two lexemes. -/
structure Gap where
  /-- Where the next lexeme stands. -/
  next : Cursor
  /-- Whether the last thing passed was a blank. -/
  spaced : Bool
  /-- The line notes passed. -/
  notes : List Span

/-- `pass` characters of a comment or note are still to be passed. -/
def passGap (offset pass : Nat) (spaced : Bool) (notes : List Span) : List Char → Gap
  | [] => ⟨⟨[], offset⟩, spaced, notes.reverse⟩
  | c :: rest =>
    match pass with
    | n + 1 => passGap (offset + c.utf8Size) n false notes rest
    | 0 =>
      if Text.isAsciiBlank c then passGap (offset + c.utf8Size) 0 true notes rest
      else
        match comment? (c :: rest), note? (c :: rest) with
        | some n, _ => passGap (offset + c.utf8Size) (n - 1) false notes rest
        | none, some n =>
          let note : Span := ⟨offset, offset + Text.byteLength ((c :: rest).take n)⟩
          passGap (offset + c.utf8Size) (n - 1) false (note :: notes) rest
        | none, none => ⟨⟨c :: rest, offset⟩, spaced, notes.reverse⟩

/-- The gap at a cursor. -/
def gap (c : Cursor) : Gap := passGap c.offset 0 false [] c.rest

/-- The next lexeme. -/
def next (c : Cursor) : Cursor := (gap c).next

end AssetAudit.Style
