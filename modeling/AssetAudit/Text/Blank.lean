/-!
# Blank characters

A character is blank if it has the Unicode property `White_Space`. Words are the maximal runs of
other characters.
-/
namespace AssetAudit.Text

/-- The Unicode property `White_Space`. -/
def isBlank (c : Char) : Bool :=
  let n := c.toNat
  (0x09 ≤ n && n ≤ 0x0d) || n == 0x20 || n == 0x85 || n == 0xa0 || n == 0x1680 ||
    (0x2000 ≤ n && n ≤ 0x200a) || n == 0x2028 || n == 0x2029 || n == 0x202f || n == 0x205f ||
    n == 0x3000

/-- The blanks of ASCII. -/
def isAsciiBlank (c : Char) : Bool := c == ' ' || ('\t' ≤ c && c ≤ '\r')

/-- The runs between gaps, the run under way being `run`, last character first. -/
def runsFrom (gap : Char → Bool) (run : List Char) : List Char → List (List Char)
  | [] => if run.isEmpty then [] else [run.reverse]
  | c :: rest =>
    if gap c then
      if run.isEmpty then runsFrom gap [] rest else run.reverse :: runsFrom gap [] rest
    else runsFrom gap (c :: run) rest

/-- The maximal runs of characters that are no gap. -/
def runs (gap : Char → Bool) (text : List Char) : List (List Char) := runsFrom gap [] text

def words (text : List Char) : List (List Char) := runs isBlank text

/-- Every run of blanks becomes one space, and none is left at either end (`compact_whitespace`). -/
def compact (text : String) : String :=
  " ".intercalate ((words text.toList).map String.ofList)

def trimStart (text : List Char) : List Char := text.dropWhile isBlank

def trimEnd (text : List Char) : List Char := (text.reverse.dropWhile isBlank).reverse

def trim (text : List Char) : List Char := trimEnd (trimStart text)

def isBlankText (text : String) : Bool := text.toList.all isBlank

/-- A trimmed text of at most `limit` characters; what is cut off is marked by three dots
(`truncate_line`). -/
def truncate (text : String) (limit : Nat) : String :=
  let kept := trim text.toList
  if kept.length > limit then String.ofList (kept.take (limit - 3)) ++ "..." else String.ofList kept

end AssetAudit.Text
