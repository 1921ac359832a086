/-!
# Finding text inside text

Prefixes, suffixes and substrings of lists of characters.
-/
namespace AssetAudit.Text

def startsWith : List Char → List Char → Bool
  | [], _ => true
  | _ :: _, [] => false
  | a :: needle, b :: text => a == b && startsWith needle text

def endsWith (needle text : List Char) : Bool := startsWith needle.reverse text.reverse

/-- Whether `needle` occurs in the text. -/
def contains (needle : List Char) : List Char → Bool
  | [] => needle.isEmpty
  | c :: text => startsWith needle (c :: text) || contains needle text

/-- The text after `needle`, if it starts with it. -/
def after? : List Char → List Char → Option (List Char)
  | [], text => some text
  | _ :: _, [] => none
  | a :: needle, b :: text => if a == b then after? needle text else none

/-- The text without the characters of a class at both ends. -/
def trimMatches (ok : Char → Bool) (text : List Char) : List Char :=
  ((text.dropWhile ok).reverse.dropWhile ok).reverse

/-- The parts before and after the last occurrence of `c`. -/
def splitLast? (c : Char) (text : List Char) : Option (List Char × List Char) :=
  if text.contains c then
    let back := text.reverse
    some ((back.dropWhile (· != c)).tail.reverse, (back.takeWhile (· != c)).reverse)
  else none

/-- The parts between the occurrences of `c`. -/
def splitAt (c : Char) : List Char → List (List Char)
  | [] => [[]]
  | d :: text =>
    if d == c then [] :: splitAt c text
    else
      match splitAt c text with
      | part :: parts => (d :: part) :: parts
      | [] => [[d]]

/-- A line without the carriage return that belongs to its line feed. -/
def chompReturn (line : List Char) : List Char :=
  if line.getLast? == some '\r' then line.dropLast else line

/-- The lines of the parts between line feeds. Nothing after the last one is no line. -/
def linesOf : List (List Char) → List (List Char)
  | [] => []
  | [last] => if last.isEmpty then [] else [last]
  | line :: rest => chompReturn line :: linesOf rest

/-- The lines of a text, without their ends. -/
def lines (text : List Char) : List (List Char) := linesOf (splitAt '\n' text)

end AssetAudit.Text
