import AssetAudit.Text.Search

/-!
# Command-line arguments

Options with one value may be given once. Options with many values take every argument up to the next
option and may be given again. A value may follow its option as the next argument, after an equals
sign, or right after the letter of a short option. There are no other arguments.
-/
namespace AssetAudit.CommandLine

/-- The options that take values. -/
inductive Key where
  | entry
  | dir
  | config
  | cwd
  | maxDepth
  | compile
  | unknownDir
  | ignore
  | ignoredGlobalVar
  | importAlias
  | enable
  | disable
  | json
  | yaml
  deriving DecidableEq, Repr

/-- What an option is for. -/
inductive Switch where
  | valued (key : Key)
  | verbose
  | quiet
  | help
  | version
  deriving DecidableEq, Repr

def longSwitch? : String → Option Switch
  | "entry" => some (.valued .entry)
  | "dir" => some (.valued .dir)
  | "config" => some (.valued .config)
  | "cwd" => some (.valued .cwd)
  | "max-depth" => some (.valued .maxDepth)
  | "compile" => some (.valued .compile)
  | "unknown-dir" => some (.valued .unknownDir)
  | "ignore" => some (.valued .ignore)
  | "ignored-global-var" => some (.valued .ignoredGlobalVar)
  | "alias" => some (.valued .importAlias)
  | "enable" => some (.valued .enable)
  | "disable" => some (.valued .disable)
  | "json" => some (.valued .json)
  | "yaml" => some (.valued .yaml)
  | "verbose" => some .verbose
  | "quiet" => some .quiet
  | "help" => some .help
  | "version" => some .version
  | _ => none

def shortSwitch? : Char → Option Switch
  | 'e' => some (.valued .entry)
  | 'd' => some (.valued .dir)
  | 'c' => some (.valued .config)
  | 'v' => some .verbose
  | 'q' => some .quiet
  | 'h' => some .help
  | 'V' => some .version
  | _ => none

namespace Key

/-- Whether the option takes many values. -/
def isMany : Key → Bool
  | ignore | ignoredGlobalVar | importAlias | enable | disable => true
  | _ => false

end Key

/-- A number below 2^64, with or without a plus sign. -/
def number? (text : String) : Option Nat :=
  let digits := match text.toList with
    | '+' :: rest => rest
    | chars => chars
  if digits.isEmpty || !digits.all Char.isDigit then none
  else
    let n := digits.foldl (fun n c => 10 * n + (c.toNat - 48)) 0
    if n < Nat.pow 2 64 then some n else none

def truth? : String → Option Bool
  | "true" => some true
  | "false" => some false
  | _ => none

/-- Whether a text is a value of the option. A path is not empty. -/
def Key.accepts (key : Key) (value : String) : Bool :=
  match key with
  | entry | dir | config | cwd | json | yaml => !value.isEmpty
  | maxDepth => (number? value).isSome
  | compile => (truth? value).isSome
  | _ => true

/-- The options given so far. -/
structure Given where
  values : List (Key × List String) := []
  /-- The option that may still take values, with those it has. -/
  pending : Option (Key × List String) := none
  verbose : Bool := false
  quiet : Bool := false

inductive Verdict where
  | help
  | version
  /-- The arguments are not understood. -/
  | rejected
  | accepted (given : Given)

namespace Given

/-- Take over an option with all its values. -/
def commit? (given : Given) (key : Key) (values : List String) : Option Given :=
  let isRepeated := !key.isMany && given.values.any (·.1 == key)
  if values.isEmpty || isRepeated || !values.all key.accepts then none
  else some { given with values := given.values ++ [(key, values)] }

/-- Take over the pending option. -/
def settle? (given : Given) : Option Given :=
  match given.pending with
  | some (key, values) => { given with pending := none }.commit? key values
  | none => some given

/-- A bare argument is a value of the pending option. -/
def addValue? (given : Given) (value : String) : Option Given :=
  match given.pending with
  | some (key, values) =>
    if key.isMany || values.isEmpty then
      some { given with pending := some (key, values ++ [value]) }
    else none
  | none => none

/-- An option with the value attached to it, if any. -/
def switch (given : Given) (switch : Switch) (attached : Option String) : Verdict :=
  match given.settle?, switch, attached with
  | none, _, _ => .rejected
  | some given, .valued key, some value =>
    match given.commit? key [value] with
    | some given => .accepted given
    | none => .rejected
  | some given, .valued key, none => .accepted { given with pending := some (key, []) }
  | some _, _, some _ => .rejected
  | some given, .verbose, none => .accepted { given with verbose := true }
  | some given, .quiet, none => .accepted { given with quiet := true }
  | some _, .help, none => .help
  | some _, .version, none => .version

/-- A long option, without its hyphens. -/
def long (given : Given) (text : List Char) : Verdict :=
  let name := text.takeWhile (· != '=')
  let attached := match text.dropWhile (· != '=') with
    | _ :: value => some (String.ofList value)
    | [] => none
  match longSwitch? (String.ofList name) with
  | some found => given.switch found attached
  | none => .rejected

/-- Short options in one argument. One with a value takes the rest of the argument. -/
def shorts (given : Given) : List Char → Verdict
  | [] => .accepted given
  | c :: rest =>
    match shortSwitch? c with
    | none => .rejected
    | some (.valued key) =>
      let attached := match rest with
        | [] => none
        | '=' :: value => some (String.ofList value)
        | value => some (String.ofList value)
      given.switch (.valued key) attached
    | some found =>
      match given.switch found none with
      | .accepted given => given.shorts rest
      | verdict => verdict

/-- One argument. -/
def argument (given : Given) (text : String) : Verdict :=
  match text.toList with
  | '-' :: '-' :: name => given.long name
  | '-' :: c :: rest => given.shorts (c :: rest)
  | _ =>
    match given.addValue? text with
    | some given => .accepted given
    | none => .rejected

/-- The end of the arguments. Verbose and quiet exclude each other. -/
def finish (given : Given) : Verdict :=
  match given.settle? with
  | some given => if given.verbose && given.quiet then .rejected else .accepted given
  | none => .rejected

end Given

/-- All arguments. After two bare hyphens no option may follow. -/
def read (given : Given) : List String → Verdict
  | [] => given.finish
  | ["--"] => given.finish
  | text :: rest =>
    if text == "--" then .rejected
    else
      match given.argument text with
      | .accepted given => read given rest
      | verdict => verdict

namespace Given

/-- The value of an option that is given at most once. -/
def one? (given : Given) (key : Key) : Option String :=
  (given.values.lookup key).bind List.head?

/-- The values of an option, in their order. -/
def many (given : Given) (key : Key) : List String :=
  (given.values.filter (·.1 == key)).flatMap (·.2)

end Given
end AssetAudit.CommandLine
