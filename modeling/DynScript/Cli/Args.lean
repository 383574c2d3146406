import DynScript.Decimal.Nearest
import DynScript.Eval.Machine

/-
  This file reads the arguments of the command line.

  Key definitions include:
    * `Cli.Command`
    * `Cli.Command.ofArgs?`
-/

namespace DynScript.Cli

------------------------------------------------------------
-- Commands
------------------------------------------------------------

/- What the program is asked to do. -/
inductive Command where
  | repl
  | version
  | dump (file : String)
  | run (file : String) (maxDepth : Nat)
deriving DecidableEq

/- The arguments of a command, collected so far. -/
structure Collected where
  verbose : Bool
  file : Option String
  maxDepth : Option Nat

/- Nothing collected yet. -/
def Collected.none : Collected :=
  ⟨false, .none, .none⟩

/- Take the switch for more messages, which may come once. -/
def Collected.withVerbose?
    (c : Collected) : Option Collected :=
  if c.verbose then .none else some { c with verbose := true }

/- Take a file, of which there is one. -/
def Collected.withFile?
    (c : Collected)
    (file : String) : Option Collected :=
  if c.file.isSome then .none else some { c with file := some file }

/- A number of calls: digits, a plus before them allowed, below 2^64. -/
def depth?
    (text : String) : Option Nat :=
  let ds :=
    match text.toList with
    | '+' :: ds => ds
    | ds => ds
  let n := Decimal.natOfDigits ds
  if ds.isEmpty || !ds.all Char.isDigit || 18446744073709551615 < n then
    .none
  else
    some n

/- Take the limit on calls, which may come once. -/
def Collected.withDepth?
    (c : Collected)
    (text : String) : Option Collected := do
  let n ← depth? text
  if c.maxDepth.isSome then .none else some { c with maxDepth := some n }

/- Whether an argument is a switch and no plain value. -/
def isSwitch
    (arg : String) : Bool :=
  arg.startsWith "-" && arg != "-"

/- The value of an option written as `name=value`. -/
def valueOf?
    (name arg : String) : Option String :=
  let lead := (name ++ "=").toList
  if arg.toList.take lead.length == lead then
    some (String.ofList (arg.toList.drop lead.length))
  else
    .none

/-
  Collect the arguments behind the name of a command. After
  `--` all arguments are plain values.
-/
def collect?
    (takesDepth plainOnly : Bool)
    (c : Collected) : List String → Option Collected
  | [] => some c
  | arg :: rest =>
    if plainOnly || !isSwitch arg then
      match c.withFile? arg with
      | some c => collect? takesDepth plainOnly c rest
      | .none => .none
    else if arg == "--" then
      collect? takesDepth true c rest
    else if arg == "-v" || arg == "--verbose" then
      match c.withVerbose? with
      | some c => collect? takesDepth plainOnly c rest
      | .none => .none
    else if takesDepth && arg == "--max-depth" then
      match rest with
      | text :: rest =>
        if isSwitch text then .none
        else
          match c.withDepth? text with
          | some c => collect? takesDepth plainOnly c rest
          | .none => .none
      | [] => .none
    else if takesDepth then
      match valueOf? "--max-depth" arg with
      | some text =>
        match c.withDepth? text with
        | some c => collect? takesDepth plainOnly c rest
        | .none => .none
      | .none => .none
    else
      .none

/- What switches of one letter, written together, ask for. -/
inductive Letters where
  | version
  | verbose (given : Bool)

/-
  Read switches of one letter from the left. The one for the
  version settles the matter, whatever is behind it.
-/
def Letters.read?
    (verbose : Bool) : List Char → Option Letters
  | [] => some (.verbose verbose)
  | 'V' :: _ => some .version
  | 'v' :: cs => if verbose then .none else Letters.read? true cs
  | _ => .none

/- The switches of one letter that an argument holds. -/
def Letters.ofArg?
    (verbose : Bool)
    (arg : String) : Option Letters :=
  match arg.toList with
  | '-' :: c :: cs => Letters.read? verbose (c :: cs)
  | _ => .none

/- The command that arguments ask for, unless they are misused. -/
def Command.ofArgsAfter?
    (verbose : Bool) : List String → Option Command
  | [] => some .repl
  | ["--"] => some .repl
  | "--version" :: _ => some .version
  | "--verbose" :: rest =>
    if verbose then .none else ofArgsAfter? true rest
  | "parser" :: rest => do
    let c ← collect? false false .none rest
    return .dump (← c.file)
  | "run" :: rest => do
    let c ← collect? true false .none rest
    return .run (← c.file) (c.maxDepth.getD defaultMaxDepth)
  | arg :: rest =>
    match Letters.ofArg? verbose arg with
    | some .version => some .version
    | some (.verbose given) => ofArgsAfter? given rest
    | .none => .none

/- The command that all arguments together ask for. -/
def Command.ofArgs?
    (args : List String) : Option Command :=
  Command.ofArgsAfter? false args

/- The file that a command reads, if it reads one. -/
def Command.file? : Command → Option String
  | .dump file => some file
  | .run file _ => some file
  | _ => .none

end DynScript.Cli
