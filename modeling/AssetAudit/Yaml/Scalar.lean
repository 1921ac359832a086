import AssetAudit.Json.Number
import AssetAudit.Text.Search

/-!
# Scalars of YAML

How a text is written as a scalar. A text with a line feed is a literal block, one that a reader could
take for another type is quoted, any other is plain; where the characters of a text do not allow a
style, the next stronger one is taken.
-/
namespace AssetAudit.Yaml

/-! ## Texts that look like another type -/

def isNull (text : String) : Bool := ["", "null", "Null", "NULL", "~"].contains text

/-- Truth values of any version of the format. -/
def isTruthValue (text : String) : Bool :=
  ["y", "Y", "yes", "Yes", "YES", "n", "N", "no", "No", "NO", "true", "True", "TRUE", "false",
    "False", "FALSE", "on", "On", "ON", "off", "Off", "OFF"].contains text

/-- The text without one sign. -/
def unsigned : List Char → List Char
  | '-' :: rest | '+' :: rest => rest
  | text => text

/-- Digits after a leading zero. -/
def isZeroPadded (text : List Char) : Bool :=
  match unsigned text with
  | '0' :: c :: rest => (c :: rest).all Char.isDigit
  | _ => false

/-- The value of a digit in a base up to sixteen. -/
def digitIn? (base : Nat) (c : Char) : Option Nat :=
  let value :=
    if c.isDigit then c.toNat - 48
    else if 'a' ≤ c && c ≤ 'f' then c.toNat - 87
    else if 'A' ≤ c && c ≤ 'F' then c.toNat - 55
    else 16
  if value < base then some value else none

/-- The number that digits of a base write, at least one digit. -/
def numberIn? (base : Nat) (digits : List Char) : Option Nat :=
  if digits.isEmpty then none
  else digits.foldlM (fun n c => (digitIn? base c).map (base * n + ·)) 0

/-- A number with the mark of its base. -/
def markedNumber? : List Char → Option Nat
  | '0' :: 'x' :: digits => numberIn? 16 digits
  | '0' :: 'o' :: digits => numberIn? 8 digits
  | '0' :: 'b' :: digits => numberIn? 2 digits
  | _ => none

/-- An integer of at most 128 bits with the mark of its base. -/
def isMarkedInteger : List Char → Bool
  | '-' :: rest => (markedNumber? rest).any (· ≤ Nat.pow 2 127)
  | '+' :: rest => (markedNumber? rest).any (· < Nat.pow 2 128)
  | text => (markedNumber? text).any (· < Nat.pow 2 128)

/-- Whether a text without sign is a decimal number: digits with a point anywhere among them, and an
exponent. -/
def isDecimal (text : List Char) : Bool :=
  let isMark := fun c => c == 'e' || c == 'E'
  let mantissa := text.takeWhile (!isMark ·)
  let exponentOk := match text.dropWhile (!isMark ·) with
    | [] => true
    | _ :: exponent =>
      let digits := unsigned exponent
      !digits.isEmpty && digits.all Char.isDigit
  mantissa.any Char.isDigit && mantissa.all (fun c => c.isDigit || c == '.') &&
    mantissa.count '.' ≤ 1 && exponentOk

/-- Whether a text is a number that is not too large, or one of the names of infinity and of no
number. -/
def isFloat (text : String) : Bool :=
  [".inf", ".Inf", ".INF", "+.inf", "+.Inf", "+.INF", "-.inf", "-.Inf", "-.INF", ".nan", ".NaN",
    ".NAN"].contains text ||
    (isDecimal (unsigned text.toList) &&
      Json.Number.isFinite (String.ofList (unsigned text.toList)))

/-- Whether a reader could take a plain text for something else than text. -/
def looksTyped (text : String) : Bool :=
  isNull text || isTruthValue text || isZeroPadded text.toList || isMarkedInteger text.toList ||
    isFloat text

/-! ## What characters allow -/

def isBreak (c : Char) : Bool :=
  c == '\n' || c == '\r' || c == '\u0085' || c == '\u2028' || c == '\u2029'

/-- A space, a tab, a line break or the end of the text. -/
def isGap : Option Char → Bool
  | none => true
  | some c => c == ' ' || c == '\t' || isBreak c

def isPrintable (c : Char) : Bool :=
  let n := c.toNat
  n == 0x0a || (0x20 ≤ n && n ≤ 0x7e) || (0xa0 ≤ n && n != 0xfeff && n != 0xfffe && n != 0xffff)

/-- Characters that mean something at the start of a plain scalar. -/
def startIndicators : List Char := "#,[]\x7b\x7d&*!|>'\"%@`".toList

/-- Whether a character at the start of a scalar, followed by `next`, is an indicator. -/
def isStartIndicator (c : Char) (next : Option Char) : Bool :=
  startIndicators.contains c || ((c == '?' || c == ':' || c == '-') && isGap next)

/-- Whether an indicator stands inside a scalar. -/
def hasInnerIndicator : List Char → Bool
  | a :: b :: rest =>
    (b == ':' && isGap rest.head?) || (b == '#' && isGap (some a)) || hasInnerIndicator (b :: rest)
  | _ => false

/-- Whether a text could be taken for structure. -/
def hasIndicators (text : List Char) : Bool :=
  Text.startsWith "---".toList text || Text.startsWith "...".toList text ||
    (match text with
      | c :: rest => isStartIndicator c rest.head?
      | [] => false) ||
    hasInnerIndicator text

/-- Whether a character of one class stands right before one of another. -/
def hasPair (first second : Char → Bool) : List Char → Bool
  | a :: b :: rest => (first a && second b) || hasPair first second (b :: rest)
  | _ => false

def isSpace (c : Char) : Bool := c == ' '

def hasBreak (text : List Char) : Bool := text.any isBreak

/-- Whether only the double-quoted style can hold the text. -/
def isSpecial (text : List Char) : Bool :=
  hasPair isSpace isBreak text || text.any (!isPrintable ·)

inductive Style where
  | plain
  | single
  | double
  | literal
  deriving DecidableEq, Repr

def allowsPlain (text : List Char) : Bool :=
  !(text.head?.any isSpace) && !(text.getLast?.any isSpace) && !hasBreak text && !isSpecial text &&
    !hasIndicators text

def allowsSingle (text : List Char) : Bool :=
  !isSpecial text && !hasPair isBreak isSpace text

def allowsLiteral (text : List Char) : Bool := !isSpecial text && !(text.getLast?.any isSpace)

def styleOf (text : String) : Style :=
  let chars := text.toList
  if chars.contains '\n' then if allowsLiteral chars then .literal else .double
  else if !looksTyped text && allowsPlain chars then .plain
  else if allowsSingle chars then .single
  else .double

/-! ## Writing -/

def spaces (n : Nat) : List Char := List.replicate n ' '

def hexUpper (n : Nat) : Char := if n < 10 then Char.ofNat (48 + n) else Char.ofNat (55 + n)

/-- The last `width` hexadecimal digits of a number. -/
def hexDigits : Nat → Nat → List Char
  | 0, _ => []
  | width + 1, n => hexDigits width (n / 16) ++ [hexUpper (n % 16)]

def escapeChar (c : Char) : List Char :=
  let n := c.toNat
  if c == '"' || c == '\\' then ['\\', c]
  else if isPrintable c && !isBreak c then [c]
  else
    match n with
    | 0x00 => ['\\', '0']
    | 0x07 => ['\\', 'a']
    | 0x08 => ['\\', 'b']
    | 0x09 => ['\\', 't']
    | 0x0a => ['\\', 'n']
    | 0x0b => ['\\', 'v']
    | 0x0c => ['\\', 'f']
    | 0x0d => ['\\', 'r']
    | 0x1b => ['\\', 'e']
    | 0x85 => ['\\', 'N']
    | 0x2028 => ['\\', 'L']
    | 0x2029 => ['\\', 'P']
    | _ =>
      if n ≤ 0xff then '\\' :: 'x' :: hexDigits 2 n
      else if n ≤ 0xffff then '\\' :: 'u' :: hexDigits 4 n
      else '\\' :: 'U' :: hexDigits 8 n

def writeDouble (text : List Char) : List Char := '"' :: (text.flatMap escapeChar ++ ['"'])

/-- The inside of a single-quoted scalar. A line after a break starts at the indent; `broken` says that
a break was just written. -/
def writeSingleFrom (indent : Nat) (broken : Bool) : List Char → List Char
  | [] => if broken then spaces indent else []
  | c :: rest =>
    if isBreak c then c :: writeSingleFrom indent true rest
    else
      (if broken then spaces indent else []) ++ (if c == '\'' then ['\'', '\''] else [c]) ++
        writeSingleFrom indent false rest

def writeSingle (indent : Nat) (text : List Char) : List Char :=
  '\'' :: (writeSingleFrom indent false text ++ ['\''])

/-- What the head of a literal block says of the end of the text: nothing, that there is no line end, or
that there are several. -/
def chompMark (text : List Char) : List Char :=
  match text.reverse with
  | a :: b :: _ => if isBreak a then if isBreak b then ['+'] else [] else ['-']
  | [a] => if isBreak a then ['+'] else ['-']
  | [] => ['-']

/-- The lines of a literal block, each that is not empty at the indent. -/
def writeLines (indent : Nat) (broken : Bool) : List Char → List Char
  | [] => []
  | c :: rest =>
    if isBreak c then c :: writeLines indent true rest
    else (if broken then spaces indent else []) ++ c :: writeLines indent false rest

/-- A literal block. The indent is told in its head if the text starts with a blank. -/
def writeLiteral (indent : Nat) (text : List Char) : List Char :=
  let hint := if text.head?.any (fun c => isSpace c || isBreak c) then ['2'] else []
  '|' :: (hint ++ chompMark text ++ ['\n'] ++ writeLines indent true text)

/-- A text as a scalar whose further lines start at the indent. -/
def writeScalar (indent : Nat) (text : String) : List Char :=
  match styleOf text with
  | .plain => text.toList
  | .single => writeSingle indent text.toList
  | .double => writeDouble text.toList
  | .literal => writeLiteral indent text.toList

end AssetAudit.Yaml
