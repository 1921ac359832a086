import AssetAudit.Text.Cursor
import AssetAudit.Script.Tree
import AssetAudit.Script.LineEnd

/-!
# Grammar rules and how they are read

A grammar is a function from symbols to rules. Rules are read by ordered choice: the first
alternative that can be read is taken. Reading builds a forest of trees; `Rule.node` closes the part
of the forest its rule has read into one tree, and `Rule.chain` grows a tree to the right, which is
how postfix and binary operators nest to the left.

`read` recurses on a bound for the depth of the reading. A reading that goes no deeper than the bound
does not depend on it, and `Grammar.depth` is linear in the length of the text.

The furthest offset at which a token was wanted and not found is carried along: it is where a text
that cannot be read goes wrong.
-/
namespace AssetAudit.Script

/-! ## Blanks and comments -/

def blanks : List Char → Nat
  | [] => 0
  | c :: rest => if isSpace c then blanks rest + 1 else 0

def lineComment (text : List Char) : Nat :=
  (text.takeWhile (fun c => !(isLineBreak c || c == '\x0d'))).length

/-- Length of a block comment after its opening, if it is closed. -/
def blockComment? (star : Bool) : List Char → Option Nat
  | [] => none
  | c :: rest =>
    if star && c == '/' then some 1 else (blockComment? (c == '*') rest).map (· + 1)

/-- Length of a comment. Where a statement may start, the comments of markup count too. -/
def comment? (atStatement : Bool) : List Char → Option Nat
  | '/' :: '/' :: rest => some (lineComment rest + 2)
  | '/' :: '*' :: rest => (blockComment? false rest).map (· + 2)
  | '<' :: '!' :: '-' :: '-' :: rest => if atStatement then some (lineComment rest + 4) else none
  | '-' :: '-' :: '>' :: rest => if atStatement then some (lineComment rest + 3) else none
  | _ => none

/-- Pass over blanks and comments; the comments are put on the forest. -/
def passTrivia (atStatement : Bool) : Nat → Cursor → List Tree → Cursor × List Tree
  | 0, cursor, forest => (cursor, forest)
  | n + 1, cursor, forest =>
    let start := cursor.skip (blanks cursor.rest)
    match comment? atStatement start.rest with
    | none => (start, forest)
    | some length =>
      let stop := start.skip length
      passTrivia atStatement n stop (.mk .comment .plain ⟨start.offset, stop.offset⟩ [] :: forest)

/-- Whether a line break stands before the next token. -/
def breaksLine : Nat → List Char → Bool
  | 0, _ => false
  | n + 1, text =>
    let space := blanks text
    if (text.take space).any isLineBreak then true
    else
      let rest := text.drop space
      match comment? false rest with
      | none => false
      | some length =>
        (rest.take length).any isLineBreak || breaksLine n (rest.drop length)

/-! ## Looking past brackets -/

/-- What stands before a place in code, as far as it tells what a slash is there. -/
inductive Before where
  /-- An operand, which a slash divides. -/
  | operand
  /-- An operator, or nothing yet: a slash opens a regular expression. -/
  | operator
  /-- A word whose parentheses are followed by a statement. -/
  | condition
  /-- The closing brace of a block, an object or a value in markup. -/
  | brace

namespace Before

/-- The words that are followed by an expression. -/
def operatorWords : List String :=
  ["return", "typeof", "instanceof", "in", "of", "new", "delete", "void", "throw", "case", "do", "else",
    "yield", "await"]

def conditionWords : List String := ["if", "while", "for", "with"]

def ofWord (word : String) : Before :=
  if conditionWords.contains word then condition
  else if operatorWords.contains word then operator
  else operand

/-- Whether a slash at the start of `text` opens a regular expression. Behind a brace it may close a
tag. -/
def opensRegex (text : List Char) : Before → Bool
  | operand => false
  | operator | condition => true
  | brace => text.tail.head? != some '>'

end Before

/-- Length of the token at the start of code, and what stands before the place behind it. A name behind
a dot is no keyword. -/
def tokenAhead (before : Before) (text : List Char) : Nat × Before :=
  match text with
  | '+' :: '+' :: _ | '-' :: '-' :: _ => (2, .operand)
  | '<' :: '/' :: _ => (2, .operator)
  | '.' :: '.' :: '.' :: _ => (3, .operator)
  | '.' :: rest =>
    match word? rest with
    | some n => (n + 1, .operand)
    | none => (1, before)
  | '/' :: _ =>
    match comment? false text with
    | some n => (n, before)
    | none =>
      if before.opensRegex text then
        match regex? text with
        | some n => (n, .operand)
        | none => (1, .operator)
      else (1, .operator)
  | c :: _ =>
    if isSpace c then (1, before)
    else if c == '"' || c == '\'' then ((quoted? text).getD 1, .operand)
    else
      match wordTail 0 text with
      | 0 => (1, .operator)
      | n => (n, .ofWord (String.ofList (text.take n)))
  | [] => (0, before)

/-- What is open around a place in code. -/
inductive Frame where
  | template
  /-- A bracket, or a substitution of a template, with what its end is to the place behind it. -/
  | bracket (after : Before)

def Frame.after : Frame → Before
  | template => .operand
  | bracket after => after

/-- The text behind the bracket that closes an open one around `frames`, which are all closed before it.
Brackets in quotes, comments and regular expressions do not count. `passed` characters belong to a token
that starts further in front. -/
def afterBracket (passed : Nat) (before : Before) (frames : List Frame) : List Char → Option (List Char)
  | [] => none
  | c :: rest =>
    match passed with
    | n + 1 => afterBracket n before frames rest
    | 0 =>
      match frames with
      | .template :: outer =>
        if c == backtick then afterBracket 0 .operand outer rest
        else if c == '\\' then afterBracket 1 before frames rest
        else if c == '$' && rest.head? == some '\x7b' then
          afterBracket 1 .operator (.bracket .operator :: frames) rest
        else afterBracket 0 before frames rest
      | _ =>
        if c == backtick then afterBracket 0 before (.template :: frames) rest
        else if c == '(' then
          let after := match before with
            | .condition => .operator
            | _ => .operand
          afterBracket 0 .operator (.bracket after :: frames) rest
        else if c == '[' then afterBracket 0 .operator (.bracket .operand :: frames) rest
        else if c == '\x7b' then afterBracket 0 .operator (.bracket .brace :: frames) rest
        else if c == ')' || c == ']' || c == '\x7d' then
          match frames with
          | [] => some rest
          | frame :: outer => afterBracket 0 frame.after outer rest
        else
          let (length, behind) := tokenAhead before (c :: rest)
          afterBracket (length - 1) behind frames rest

/-! ## Rules -/

/-- How a statement ends where a semicolon may be left out. -/
inductive Ending where
  | expression
  | plain
  /-- After declarators: an expression if the last one has a value. -/
  | declarators

/-- A test on the text ahead that reads nothing. -/
inductive Condition where
  /-- No line break before the next token, or inside brackets. -/
  | sameLine
  | newLine
  /-- The bracket here closes before an arrow, or before the type of its result. -/
  | arrowAhead
  /-- The bracket here closes before an equals sign. -/
  | assignmentAhead
  /-- The result of an arrow function may be given a type here. -/
  | arrowTypes
  | unitEnd
  deriving DecidableEq

mutual

inductive Rule (σ : Type) where
  | token (lexeme : Lexeme) (kind : Kind)
  /-- A token with no blank before it. -/
  | glued (lexeme : Lexeme) (kind : Kind)
  | semicolon (ending : Ending)
  /-- The end of a statement that takes no semicolon. -/
  | lineEnd (ending : Ending)
  /-- Blanks and comments before a statement. -/
  | trivia
  | check (condition : Condition)
  | nothing
  | never
  | seq (first second : Rule σ)
  | either (first second : Rule σ)
  | many (rule : Rule σ)
  | node (kind : Kind) (rule : Rule σ)
  | role (role : Role) (rule : Rule σ)
  | chain (base : Rule σ) (links : List (Link σ))
  | ahead (rule : Rule σ)
  | barred (rule : Rule σ)
  /-- Line breaks end no statement inside the rule, or end them again. -/
  | bracketed (inside : Bool) (rule : Rule σ)
  /-- No type of a result before an arrow inside the rule. -/
  | untypedArrows (rule : Rule σ)
  | sym (symbol : σ)

/-- One way to grow a tree of one of the kinds `onto` (any kind if there is none) to the right. -/
inductive Link (σ : Type) where
  | mk (kind : Kind) (role : Role) (onto : List Kind) (rule : Rule σ)

end

namespace Rule

variable {σ : Type}

def all : List (Rule σ) → Rule σ
  | [] => nothing
  | [r] => r
  | r :: rest => seq r (all rest)

def any : List (Rule σ) → Rule σ
  | [] => never
  | [r] => r
  | r :: rest => either r (any rest)

def opt (r : Rule σ) : Rule σ := either r nothing

/-- A keyword. -/
def word (w : String) : Rule σ := token (.keyword w) .token

/-- A symbol, whatever follows. -/
def mark (s : String) : Rule σ := token (.symbol s "") .token

/-- A symbol not followed by one of the characters. -/
def op (s stop : String) : Rule σ := token (.symbol s stop) .token

/-- Items between commas; places may be empty. -/
def commaHoles (r : Rule σ) : Rule σ := seq (opt r) (many (seq (mark ",") (opt r)))

/-- At least one item, commas between them. -/
def comma1 (r : Rule σ) : Rule σ := seq r (many (seq (mark ",") r))

/-- At least one item, commas between them and perhaps after the last. -/
def commaSome (r : Rule σ) : Rule σ := seq (comma1 r) (opt (mark ","))

/-- Items between commas, perhaps a comma after the last or alone. -/
def commaList (r : Rule σ) : Rule σ := seq (opt (comma1 r)) (opt (mark ","))

end Rule

abbrev Grammar (σ : Type) := σ → Rule σ

/-! ## Reading -/

/-- What a reading has done so far: where it stands, the trees read, the last one first, and the
furthest offset at which a token was missed. -/
structure Progress where
  cursor : Cursor
  forest : List Tree
  missed : Nat

inductive Reply where
  | done (progress : Progress)
  | failed (missed : Nat)

/-- What holds around the place of reading. -/
structure Setting where
  typed : Bool
  bracketed : Bool
  arrowTypes : Bool

namespace Setting

def holds (s : Setting) (n : Nat) (cursor : Cursor) : Condition → Bool
  | .sameLine => s.bracketed || !breaksLine n cursor.rest
  | .newLine => breaksLine n cursor.rest
  | .arrowAhead =>
    let text := (passTrivia false n cursor []).1.rest
    match text with
    | '(' :: rest =>
      match afterBracket 0 .operator [] rest with
      | some after =>
        match (passTrivia false n ⟨after, 0⟩ []).1.rest with
        | '=' :: '>' :: _ => true
        | ':' :: _ => s.typed && s.arrowTypes
        | _ => false
      | none => false
    | _ => false
  | .assignmentAhead =>
    let text := (passTrivia false n cursor []).1.rest
    match text with
    | b :: rest =>
      if b == '[' || b == '\x7b' then
        match afterBracket 0 .operator [] rest with
        | some after =>
          match (passTrivia false n ⟨after, 0⟩ []).1.rest with
          | '=' :: c :: _ => c != '=' && c != '>'
          | ['='] => true
          | _ => false
        | none => false
      else false
    | [] => false
  | .arrowTypes => s.arrowTypes
  | .unitEnd => (passTrivia false n cursor []).1.rest.isEmpty

end Setting

/-- The span from the first tree of a forest to the last, empty at `offset` if there is none. -/
def forestSpan (offset : Nat) (trees : List Tree) : Span :=
  match trees.head?, trees.getLast? with
  | some first, some last => ⟨first.span.start, last.span.stop⟩
  | _, _ => ⟨offset, offset⟩

/-- Close what was read since `before` into a node. Comments in front stay outside. -/
def closeNode (kind : Kind) (before : List Tree) (inner : List Tree) (offset : Nat) : List Tree :=
  let trees := inner.reverse
  let leading := trees.takeWhile (·.kind == .comment)
  let body := trees.dropWhile (·.kind == .comment)
  .mk kind .plain (forestSpan offset body) body :: (leading.reverse ++ before)

def setRole (r : Role) (trees : List Tree) : List Tree :=
  trees.map (fun t => if t.kind == .comment then t else t.withRole r)

/-- Whether the statement just read ended in an expression. -/
def Ending.isExpression (forest : List Tree) : Ending → Bool
  | expression => true
  | plain => false
  | declarators =>
    match forest with
    | t :: _ => t.children.any (·.role == .value)
    | [] => false

/-- Read a token at a cursor where it must stand. -/
def readToken (lexeme : Lexeme) (kind : Kind) (cursor : Cursor) (forest : List Tree)
    (missed : Nat) : Reply :=
  match lexeme.length? cursor.rest with
  | none => .failed (max missed cursor.offset)
  | some length =>
    let stop := cursor.skip length
    .done ⟨stop, .mk kind .plain ⟨cursor.offset, stop.offset⟩ [] :: forest, missed⟩

/-- The end of a statement: a semicolon if it may be `written`, or the place where it is left out. -/
def readEnd (typed afterExpression written : Bool) : Nat → Progress → Reply
  | 0, p => .failed (max p.missed p.cursor.offset)
  | n + 1, p =>
    if endsStatement typed afterExpression n p.cursor.rest then
      .done ⟨p.cursor, .mk .token .plain ⟨p.cursor.offset, p.cursor.offset⟩ [] :: p.forest, p.missed⟩
    else
      let start := p.cursor.skip (blanks p.cursor.rest)
      match comment? false start.rest with
      | some length =>
        let stop := start.skip length
        readEnd typed afterExpression written n
          ⟨stop, .mk .comment .plain ⟨start.offset, stop.offset⟩ [] :: p.forest, p.missed⟩
      | none =>
        if written then readToken (.symbol ";" "") .token start p.forest p.missed
        else .failed p.missed

variable {σ : Type}

mutual

/-- Read a rule, at most `n` deep. -/
def read (g : Grammar σ) (s : Setting) : Nat → Rule σ → Progress → Reply
  | 0, _, p => .failed p.missed
  | n + 1, rule, p =>
    match rule with
    | .token lexeme kind =>
      let (cursor, forest) := passTrivia false n p.cursor p.forest
      readToken lexeme kind cursor forest p.missed
    | .glued lexeme kind => readToken lexeme kind p.cursor p.forest p.missed
    | .semicolon ending => readEnd s.typed (ending.isExpression p.forest) true n p
    | .lineEnd ending => readEnd s.typed (ending.isExpression p.forest) false n p
    | .trivia =>
      let (cursor, forest) := passTrivia true n p.cursor p.forest
      .done ⟨cursor, forest, p.missed⟩
    | .check condition =>
      if s.holds n p.cursor condition then .done p
      else .failed (max p.missed (passTrivia false n p.cursor []).1.offset)
    | .nothing => .done p
    | .never => .failed p.missed
    | .seq first second =>
      match read g s n first p with
      | .done p => read g s n second p
      | .failed missed => .failed missed
    | .either first second =>
      match read g s n first p with
      | .done p => .done p
      | .failed missed => read g s n second { p with missed := missed }
    | .many rule =>
      match read g s n rule p with
      | .done q =>
        if q.cursor.offset == p.cursor.offset then .done q
        else read g s n (.many rule) q
      | .failed missed => .done { p with missed := missed }
    | .node kind rule =>
      match read g s n rule { p with forest := [] } with
      | .done q => .done { q with forest := closeNode kind p.forest q.forest q.cursor.offset }
      | .failed missed => .failed missed
    | .role r rule =>
      match read g s n rule { p with forest := [] } with
      | .done q => .done { q with forest := setRole r q.forest ++ p.forest }
      | .failed missed => .failed missed
    | .chain base links =>
      match read g s n base { p with forest := [] } with
      | .done q =>
        match grow g s n links q with
        | .done q => .done { q with forest := q.forest ++ p.forest }
        | .failed missed => .failed missed
      | .failed missed => .failed missed
    | .ahead rule =>
      match read g s n rule p with
      | .done q => .done { p with missed := q.missed }
      | .failed missed => .failed missed
    | .barred rule =>
      match read g s n rule p with
      | .done _ => .failed (max p.missed (passTrivia false n p.cursor []).1.offset)
      | .failed _ => .done p
    | .bracketed inside rule => read g { s with bracketed := inside } n rule p
    | .untypedArrows rule => read g { s with arrowTypes := false } n rule p
    | .sym symbol => read g s n (g symbol) p

/-- Grow the last tree of the forest by the links as often as one of them can be read. -/
def grow (g : Grammar σ) (s : Setting) : Nat → List (Link σ) → Progress → Reply
  | 0, _, p => .done p
  | n + 1, links, p =>
    match readLink g s n links p with
    | .done q => grow g s n links q
    | .failed missed => .done { p with missed := missed }

/-- Grow the last tree of the forest once. -/
def readLink (g : Grammar σ) (s : Setting) : Nat → List (Link σ) → Progress → Reply
  | 0, _, p => .failed p.missed
  | _ + 1, [], p => .failed p.missed
  | n + 1, .mk kind role onto rule :: links, p =>
    match p.forest with
    | [] => .failed p.missed
    | base :: before =>
      if onto.isEmpty || onto.contains base.kind then
        match read g s n rule { p with forest := [] } with
        | .done q =>
          let children := base.withRole role :: q.forest.reverse
          .done { q with
            forest := .mk kind .plain (forestSpan q.cursor.offset children) children :: before }
        | .failed missed => readLink g s n links { p with missed := missed }
      else readLink g s n links p

end

/-- How deep a reading of the text can go. -/
def Grammar.depth (text : List Char) : Nat := 400 * (text.length + 4)

end AssetAudit.Script
