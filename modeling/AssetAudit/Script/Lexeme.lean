/-!
# Lexemes of scripts

A lexeme is a class of tokens. `Lexeme.length? l text` is the number of characters at the start of
`text` that belong to the token, if one of the class stands there; the classes are looked for where
the grammar wants them, so a slash is an operator in one place and opens a regular expression in
another.
-/
namespace AssetAudit.Script

/-- The grave accent, which quotes templates. -/
def backtick : Char := Char.ofNat 0x60

/-- Space separators (Unicode category `Zs`). -/
def isSpaceSeparator (c : Char) : Bool :=
  let n := c.toNat
  n == 0x20 || n == 0xa0 || n == 0x1680 || (0x2000 ≤ n && n ≤ 0x200a) || n == 0x202f ||
    n == 0x205f || n == 0x3000

/-- The blanks of the six one-byte control and space characters. -/
def isPlainSpace (c : Char) : Bool :=
  let n := c.toNat
  n == 0x20 || (0x09 ≤ n && n ≤ 0x0d)

def isSpace (c : Char) : Bool :=
  let n := c.toNat
  isPlainSpace c || isSpaceSeparator c || n == 0xfeff || n == 0x2028 || n == 0x2029 ||
    n == 0x2060 || n == 0x200b

def isLineBreak (c : Char) : Bool :=
  c == '\n' || c.toNat == 0x2028 || c.toNat == 0x2029

def isHexDigit (c : Char) : Bool :=
  c.isDigit || ('a' ≤ c && c ≤ 'f') || ('A' ≤ c && c ≤ 'F')

/-- The characters of the operators, quotes and brackets. -/
def isPunctuation (c : Char) : Bool :=
  c == backtick || ":;\"'@#.,|^&<=>+-*/\\%?!~()[]\x7b\x7d".toList.contains c

def isWordPart (c : Char) : Bool :=
  !(c.toNat < 0x20 || isSpace c || isPunctuation c)

/-- Length of an escaped character of a word, written as a backslash, `u` and hexadecimal digits. -/
def wordEscape? : List Char → Option Nat
  | '\\' :: 'u' :: '\x7b' :: rest =>
    let digits := rest.takeWhile isHexDigit
    if !digits.isEmpty && (rest.drop digits.length).head? == some '\x7d' then
      some (digits.length + 4)
    else none
  | '\\' :: 'u' :: a :: b :: c :: d :: _ =>
    if isHexDigit a && isHexDigit b && isHexDigit c && isHexDigit d then some 6 else none
  | _ => none

/-- Number of characters that continue a word; `escaped` characters of an escape are still to be
passed over. -/
def wordTail (escaped : Nat) : List Char → Nat
  | [] => 0
  | c :: rest =>
    match escaped with
    | n + 1 => wordTail n rest + 1
    | 0 =>
      if isWordPart c then wordTail 0 rest + 1
      else match wordEscape? (c :: rest) with
        | some n => wordTail (n - 1) rest + 1
        | none => 0

/-- A word starts with no digit. -/
def word? (text : List Char) : Option Nat :=
  match text with
  | [] => none
  | c :: _ => if c.isDigit then none else
    match wordTail 0 text with
    | 0 => none
    | n => some n

/-- The words that never name a variable in an expression. -/
def expressionWords : List String :=
  ["function", "class", "new", "this", "super", "true", "false", "null", "undefined", "import",
    "typeof", "void", "delete", "await", "yield"]

/-! ## Numbers -/

/-- Length of digits of a class, single underscores between them allowed. -/
def digits (ok : Char → Bool) : List Char → Nat
  | c :: '_' :: d :: rest =>
    if ok c then
      if ok d then digits ok (d :: rest) + 2 else 1
    else 0
  | c :: rest => if ok c then digits ok rest + 1 else 0
  | [] => 0

def exponent (text : List Char) : Nat :=
  match text with
  | e :: sign :: rest =>
    if e == 'e' || e == 'E' then
      if sign == '+' || sign == '-' then
        match digits Char.isDigit rest with
        | 0 => 0
        | n => n + 2
      else match digits Char.isDigit (sign :: rest) with
        | 0 => 0
        | n => n + 1
    else 0
  | _ => 0

def radixNumber (ok : Char → Bool) (rest : List Char) : Option Nat :=
  match digits ok rest with
  | 0 => none
  | n => some (n + 2 + if (rest.drop n).head? == some 'n' then 1 else 0)

/-- Length of a decimal number: integer part, fraction, exponent, or a big integer. -/
def decimal? (text : List Char) : Option Nat :=
  let whole := digits Char.isDigit text
  match text.drop whole with
  | '.' :: rest =>
    let fraction := digits Char.isDigit rest
    if whole == 0 && fraction == 0 then none
    else some (whole + 1 + fraction + exponent (rest.drop fraction))
  | 'n' :: _ => if whole == 0 then none else some (whole + 1)
  | rest => if whole == 0 then none else some (whole + exponent rest)

def number? (text : List Char) : Option Nat :=
  match text with
  | '0' :: x :: rest =>
    if x == 'x' || x == 'X' then radixNumber isHexDigit rest
    else if x == 'b' || x == 'B' then radixNumber (fun c => c == '0' || c == '1') rest
    else if x == 'o' || x == 'O' then radixNumber (fun c => '0' ≤ c && c ≤ '7') rest
    else decimal? text
  | _ => decimal? text

/-! ## Quoted text -/

/-- Number of characters after the backslash that belong to an escape. -/
def escape? : List Char → Option Nat
  | 'x' :: a :: b :: _ => if isHexDigit a && isHexDigit b then some 3 else none
  | 'u' :: '\x7b' :: rest =>
    let n := (rest.takeWhile isHexDigit).length
    if n != 0 && (rest.drop n).head? == some '\x7d' then some (n + 3) else none
  | 'u' :: a :: b :: c :: d :: _ =>
    if isHexDigit a && isHexDigit b && isHexDigit c && isHexDigit d then some 5 else none
  | 'x' :: _ => none
  | 'u' :: _ => none
  | '\x0d' :: '\n' :: _ => some 2
  | _ :: _ => some 1
  | [] => none

/-- Length of the rest of a string literal, its closing quote included. -/
def quotedTail (quote : Char) (escaped : Nat) : List Char → Option Nat
  | [] => none
  | c :: rest =>
    match escaped with
    | n + 1 => (quotedTail quote n rest).map (· + 1)
    | 0 =>
      if c == quote then some 1
      else if c == '\\' then
        match escape? rest with
        | some n => (quotedTail quote n rest).map (· + 1)
        | none => none
      else if c == '\n' || c == '\x0d' then none
      else (quotedTail quote 0 rest).map (· + 1)

def quoted? : List Char → Option Nat
  | '"' :: rest => (quotedTail '"' 0 rest).map (· + 1)
  | '\'' :: rest => (quotedTail '\'' 0 rest).map (· + 1)
  | _ => none

/-- Number of characters of a template up to its end or its next substitution. -/
def templateText (escaped : Nat) : List Char → Option Nat
  | [] => some 0
  | c :: rest =>
    match escaped with
    | n + 1 => (templateText n rest).map (· + 1)
    | 0 =>
      if c == backtick then some 0
      else if c == '$' && rest.head? == some '\x7b' then some 0
      else if c == '\\' then
        match escape? rest with
        | some n => (templateText n rest).map (· + 1)
        | none => none
      else (templateText 0 rest).map (· + 1)

/-- Length of the rest of a regular expression, its closing slash included. -/
def regexTail (inClass escaped : Bool) : List Char → Option Nat
  | [] => none
  | c :: rest =>
    if c == '\n' then none
    else if escaped then (regexTail inClass false rest).map (· + 1)
    else if c == '\\' then (regexTail inClass true rest).map (· + 1)
    else if inClass then (regexTail (c != ']') false rest).map (· + 1)
    else if c == '/' then some 1
    else (regexTail (c == '[') false rest).map (· + 1)

def regex? : List Char → Option Nat
  | '/' :: '/' :: _ => none
  | '/' :: rest =>
    match regexTail false false rest with
    | some n => some (n + 1 + ((rest.drop n).takeWhile (fun c => 'a' ≤ c && c ≤ 'z')).length)
    | none => none
  | _ => none

/-! ## Markup inside scripts -/

/-- Length of a character reference such as `&amp;`. -/
def charReference? : List Char → Option Nat
  | '&' :: '#' :: x :: rest =>
    if x == 'x' || x == 'X' then
      let n := (rest.takeWhile isHexDigit).length
      if 1 ≤ n && n ≤ 6 && (rest.drop n).head? == some ';' then some (n + 4) else none
    else
      let n := ((x :: rest).takeWhile Char.isDigit).length
      if 1 ≤ n && n ≤ 5 && ((x :: rest).drop n).head? == some ';' then some (n + 3) else none
  | '&' :: rest =>
    let n := (rest.takeWhile Char.isAlpha).length
    if 1 ≤ n && n ≤ 30 && (rest.drop n).head? == some ';' then some (n + 2) else none
  | _ => none

/-- Length of the text between two tags, character references included. -/
def markupText (escaped : Nat) : List Char → Nat
  | [] => 0
  | c :: rest =>
    match escaped with
    | n + 1 => markupText n rest + 1
    | 0 =>
      if c == '&' then
        match charReference? (c :: rest) with
        | some n => markupText (n - 1) rest + 1
        | none => 0
      else if c == '<' || c == '>' || c == '\x7b' || c == '\x7d' then 0
      else markupText 0 rest + 1

/-- Length of the rest of an attribute value, its closing quote included. An ampersand that opens no
character reference takes the character after it along. -/
def markupQuotedTail (quote : Char) (escaped : Nat) : List Char → Option Nat
  | [] => none
  | c :: rest =>
    match escaped with
    | n + 1 => (markupQuotedTail quote n rest).map (· + 1)
    | 0 =>
      if c == quote then some 1
      else if c == '&' then
        match charReference? (c :: rest) with
        | some n => (markupQuotedTail quote (n - 1) rest).map (· + 1)
        | none =>
          match rest with
          | d :: _ =>
            if d == '#' || d.isAlpha then none
            else (markupQuotedTail quote 1 rest).map (· + 1)
          | [] => none
      else (markupQuotedTail quote 0 rest).map (· + 1)

def markupQuoted? : List Char → Option Nat
  | '"' :: rest => (markupQuotedTail '"' 0 rest).map (· + 1)
  | '\'' :: rest => (markupQuotedTail '\'' 0 rest).map (· + 1)
  | _ => none

/-- A name of a tag or attribute: a word, or words of letters and digits joined by hyphens. -/
def markupName? (text : List Char) : Option Nat :=
  match word? text with
  | none => none
  | some n =>
    let hyphened := (text.takeWhile (fun c => c.isAlphanum || c == '_' || c == '$' || c == '-')).length
    some (max n hyphened)

/-! ## The classes -/

inductive Lexeme where
  /-- The word, standing alone. -/
  | keyword (word : String)
  /-- The symbol, not followed by one of the characters of `barred`. -/
  | symbol (text : String) (barred : String)
  /-- A word that can name a variable in an expression. -/
  | identifier
  /-- Any word. -/
  | word
  /-- Any word but the listed ones. -/
  | wordExcept (words : List String)
  | privateName
  | number
  | quoted
  | regex
  | templateText
  | markupText
  | markupName
  | markupQuoted
  /-- The first line of a unit that names its interpreter. -/
  | hashbang

namespace Lexeme

def startsWith : List Char → List Char → Bool
  | [], _ => true
  | _ :: _, [] => false
  | a :: as, b :: bs => a == b && startsWith as bs

def keyword? (word : String) (text : List Char) : Option Nat :=
  let letters := word.toList
  if startsWith letters text then
    match (text.drop letters.length).head? with
    | some c => if isWordPart c || c == '\\' then none else some letters.length
    | none => some letters.length
  else none

def length? : Lexeme → List Char → Option Nat
  | keyword w, text => keyword? w text
  | symbol s barred, text =>
    let letters := s.toList
    if startsWith letters text then
      match (text.drop letters.length).head? with
      | some c => if barred.toList.contains c then none else some letters.length
      | none => some letters.length
    else none
  | identifier, text =>
    match word? text with
    | some n => if expressionWords.contains (String.ofList (text.take n)) then none else some n
    | none => none
  | word, text => word? text
  | wordExcept words, text =>
    match word? text with
    | some n => if words.contains (String.ofList (text.take n)) then none else some n
    | none => none
  | privateName, text =>
    match text with
    | '#' :: rest => (word? rest).map (· + 1)
    | _ => none
  | number, text => number? text
  | quoted, text => quoted? text
  | regex, text => regex? text
  | templateText, text =>
    match Script.templateText 0 text with
    | some 0 => none
    | n => n
  | markupText, text =>
    match Script.markupText 0 text with
    | 0 => none
    | n => some n
  | markupName, text => markupName? text
  | markupQuoted, text => markupQuoted? text
  | hashbang, text =>
    match text with
    | '#' :: '!' :: rest => some ((rest.takeWhile (fun c => c != '\n' && c != '\x0d')).length + 2)
    | _ => none

end Lexeme
end AssetAudit.Script
