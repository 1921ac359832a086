import AssetAudit.Script.Lexeme

/-!
# Where a statement ends without a semicolon

A statement that is not closed by a semicolon ends at a closing brace, at the end of the unit, or at
a line break after which the statement cannot go on. The two dialect families read the text after
the statement slightly differently: JavaScript looks through comments on the way to the line break,
TypeScript does not, and TypeScript lets a line that starts with an opening bracket continue only
what can be an expression.
-/
namespace AssetAudit.Script

/-- What a look through blanks and comments found; the text is what comes after it. -/
inductive Gap where
  | open (rest : List Char)
  | sameLine (rest : List Char)
  | blocked

/-- Where `lookThrough` stands. -/
inductive GapState where
  | between
  | slash
  | line
  | block (star : Bool)

/-- Pass over blanks and comments. With `stopAtBlock` the look ends after the first block comment,
and tells whether a line break was inside (`broken`). -/
def lookThrough (stopAtBlock broken : Bool) (state : GapState) : List Char → Gap
  | [] =>
    match state with
    | .between => .open []
    | .slash => .blocked
    | .line => .open []
    | .block _ => .open []
  | c :: rest =>
    match state with
    | .between =>
      if isPlainSpace c then lookThrough stopAtBlock broken .between rest
      else if c == '/' then lookThrough stopAtBlock broken .slash rest
      else .open (c :: rest)
    | .slash =>
      if c == '/' then lookThrough stopAtBlock broken .line rest
      else if c == '*' then lookThrough stopAtBlock broken (.block false) rest
      else .blocked
    | .line =>
      if isLineBreak c then lookThrough stopAtBlock broken .between (rest)
      else lookThrough stopAtBlock broken .line rest
    | .block star =>
      if star && c == '/' then
        if stopAtBlock && rest.head? != some '/' then
          if broken then .open rest else .sameLine rest
        else lookThrough stopAtBlock broken .between rest
      else
        lookThrough stopAtBlock (broken || isLineBreak c) (.block (c == '*')) rest

/-- Whether the text is the operator `in` or `instanceof`, the first letter already read. -/
def isMembershipOperator : List Char → Bool
  | 'n' :: rest =>
    match rest with
    | [] => true
    | c :: _ =>
      if !c.isAlpha then true
      else Lexeme.startsWith "stanceof".toList rest &&
        (match (rest.drop 8).head? with
          | some d => !d.isAlpha
          | none => true)
  | _ => false

/-- Whether a statement may not go on with `text` on a new line. -/
def opensStatement (typed afterExpression : Bool) : List Char → Bool
  | [] => true
  | c :: rest =>
    if c == backtick || ",;*%><=?^|&/:".toList.contains c then false
    else if c == '.' then
      if typed then false
      else match rest with
        | d :: _ => d.isDigit
        | [] => false
    else if c == '(' || c == '[' then typed && !afterExpression
    else if c == '+' then rest.head? == some '+'
    else if c == '-' then rest.head? == some '-'
    else if c == '!' then rest.head? != some '='
    else if c == 'i' then !isMembershipOperator rest
    else true

/-- Whether the statement ends before `text`, which starts on a new line. -/
def endsBeforeLine (typed afterExpression : Bool) (text : List Char) : Bool :=
  match lookThrough false false .between text with
  | .open rest => opensStatement typed afterExpression rest
  | _ => false

/-- The same with the text still on the line of the statement, in TypeScript. -/
def endsTyped (afterExpression : Bool) : List Char → Bool
  | [] => true
  | c :: rest =>
    if c == '\x7d' then
      match (rest.dropWhile isPlainSpace).head? with
      | some ':' => afterExpression
      | _ => true
    else if c == '\n' then endsBeforeLine true afterExpression rest
    else if isPlainSpace c then endsTyped afterExpression rest
    else false

/-- The same in JavaScript, at most `n` steps on. `passed` tells that a comment was just passed. -/
def endsUntyped (afterExpression : Bool) : Nat → Bool → List Char → Bool
  | 0, _, _ => false
  | _ + 1, passed, [] => !passed
  | n + 1, passed, c :: rest =>
    if c == '/' && !passed then
      match lookThrough true false .slash rest with
      | .blocked => false
      | .open after =>
        if !afterExpression && after.head? != some ',' && after.head? != some '=' then true
        else endsUntyped afterExpression n true after
      | .sameLine after => endsUntyped afterExpression n true after
    else if c == '\x7d' then true
    else if isLineBreak c then endsBeforeLine false afterExpression rest
    else if isPlainSpace c then endsUntyped afterExpression n false rest
    else false

/-- Whether a statement ends before `text` although no semicolon stands there. -/
def endsStatement (typed afterExpression : Bool) (n : Nat) (text : List Char) : Bool :=
  if typed then endsTyped afterExpression text else endsUntyped afterExpression n false text

end AssetAudit.Script
