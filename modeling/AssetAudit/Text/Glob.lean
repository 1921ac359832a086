/-!
# Glob patterns

A star stands for any run of characters without a line feed, a question mark for one character
other than a line feed, every other character for itself. `accepts` compares a whole text with a
whole pattern. It works on rows: `suffixRow pattern text` says for every suffix of the text, the
whole text first and the empty one last, whether the pattern accepts it, so the time is the product
of the two lengths.
-/
namespace AssetAudit.Text.Glob

/-- From the row of the rest of a pattern to the row of the pattern that first asks for one
character with `ok`. -/
def stepRow (ok : Char → Bool) : List Char → List Bool → List Bool
  | c :: text, _ :: row => (ok c && row.headD false) :: stepRow ok text row
  | _, _ => [false]

/-- From the row of the rest of a pattern to the row of the pattern that first has a star. -/
def starRow : List Char → List Bool → List Bool
  | c :: text, here :: row =>
    let later := starRow text row
    (here || (c != '\n' && later.headD false)) :: later
  | _, row => [row.headD false]

def suffixRow : List Char → List Char → List Bool
  | [], text => text.map (fun _ => false) ++ [true]
  | '*' :: pattern, text => starRow text (suffixRow pattern text)
  | '?' :: pattern, text => stepRow (· != '\n') text (suffixRow pattern text)
  | x :: pattern, text => stepRow (· == x) text (suffixRow pattern text)

/-- Whether the pattern accepts the whole text (`glob_to_regex`). -/
def accepts (pattern text : String) : Bool :=
  (suffixRow pattern.toList text.toList).headD false

/-- Whether one of the patterns accepts the whole text. -/
def anyAccepts (patterns : List String) (text : String) : Bool :=
  patterns.any (accepts · text)

end AssetAudit.Text.Glob
