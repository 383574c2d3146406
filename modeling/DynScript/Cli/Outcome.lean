import DynScript.Cli.Args
import DynScript.Cli.Repl
import DynScript.Syntax.Dump

/-
  This file defines what the program shows and how it ends,
  given its arguments, its input and the files it can read.

  Key definitions include:
    * `Cli.ReadError`
    * `Cli.Directory`
    * `Cli.dumpFile`
    * `Cli.runFile`
    * `Cli.outcomeWith`
    * `Cli.outcome`
-/

namespace DynScript.Cli

------------------------------------------------------------
-- Files
------------------------------------------------------------

/- Why a file cannot be read. -/
inductive ReadError where
  | notFound
  | isDirectory
  | notDirectory
  | nameTooLong
  | other (text : String)
deriving DecidableEq

/- The text of the reason. -/
def ReadError.message : ReadError → String
  | notFound => "No such file or directory (os error 2)"
  | isDirectory => "Is a directory (os error 21)"
  | notDirectory => "Not a directory (os error 20)"
  | nameTooLong => "File name too long (os error 36)"
  | other text => text

/- A directory of files only. -/
structure Directory where
  files : List (String × ByteArray)

/- Where a path has led: to the directory, out of it, or to a file. -/
inductive Place where
  | here
  | outside
  | file (content : ByteArray)

/- The most bytes that a name may have. -/
def maxName : Nat :=
  255

/- The most bytes that a path may have. -/
def maxPath : Nat :=
  4095

/-
  Follow one part of a path. Only directories have parts. No
  file outside of the directory is known.
-/
def Directory.follow
    (d : Directory)
    (place : Place)
    (part : String) : Except ReadError Place :=
  match place with
  | .file _ => .error .notDirectory
  | place =>
    if part = "" || part = "." then
      .ok place
    else if part = ".." then
      .ok .outside
    else if maxName < part.utf8ByteSize then
      .error .nameTooLong
    else
      match place, d.files.lookup part with
      | .here, some content => .ok (.file content)
      | _, _ => .error .notFound

/- The file that a path leads to from inside the directory. -/
def Directory.read
    (d : Directory)
    (path : String) : Except ReadError ByteArray := do
  if path = "" then throw .notFound
  if maxPath < path.utf8ByteSize then throw .nameTooLong
  let start := if path.startsWith "/" then Place.outside else Place.here
  match ← (path.splitOn "/").foldlM d.follow start with
  | .file content => return content
  | _ => throw .isDirectory

------------------------------------------------------------
-- Outcomes
------------------------------------------------------------

/- What is shown about misused arguments. -/
def usageError : Outcome :=
  ⟨2, .ofErr ("error: invalid arguments\n\nUsage: " ++
    programName ++
    " [-v] [parser FILE | run FILE [--max-depth N]]\n")⟩

/- The failure to read a file. -/
def unreadable
    (file : String)
    (reason : String) : Outcome :=
  .failure (.ofErr
    ("Error reading file '" ++ file ++ "': " ++ reason ++ "\n"))

/- The failure to read a program. -/
def unparsable
    (e : ParseError) : Outcome :=
  .failure (.ofErr ("Parse error: " ++ e.message ++ "\n"))

/- What is shown about a missing file. -/
def missing
    (file : String) : Outcome :=
  .success (.ofOut ("file not found " ++ file ++ "\n"))

/- Show the syntax tree of a file. A missing file is no failure. -/
def dumpFile
    (file : String) : Except ReadError ByteArray → Outcome
  | .error .notFound => missing file
  | .error .notDirectory => missing file
  | .error .nameTooLong => missing file
  | .error e => unreadable file e.message
  | .ok bytes =>
    match readStatements bytes with
    | .error e => unparsable e
    | .ok b => .success (.ofOut (b.toJson.pretty ++ "\n"))

/- Run a file and show its value. -/
def runFile
    (file : String)
    (maxDepth : Nat) : Except ReadError ByteArray → Outcome
  | .error e => unreadable file e.message
  | .ok bytes =>
    match String.fromUTF8? bytes with
    | none => unreadable file "stream did not contain valid UTF-8"
    | some source =>
      match parse source with
      | .error e => unparsable e
      | .ok b =>
        match runShown (.fresh .empty maxDepth none 0) b with
        | (.ok _, shown, _) => .success shown
        | (.error _, shown, _) => .failure shown

/- Carry a command out. -/
def Command.outcome
    (editor : Editor)
    (read : String → Except ReadError ByteArray)
    (input : String) : Command → Outcome
  | .repl => dialogue editor input
  | .version =>
    .success (.ofOut (programName ++ " " ++ programVersion ++ "\n"))
  | .dump file => dumpFile file (read file)
  | .run file maxDepth => runFile file maxDepth (read file)

/- The outcome of the program for its arguments. -/
def outcomeWith
    (editor : Editor)
    (read : String → Except ReadError ByteArray)
    (input : String)
    (args : List String) : Outcome :=
  match Command.ofArgs? args with
  | some command => command.outcome editor read input
  | none => usageError

/- The outcome where the input is no terminal. -/
def outcome
    (read : String → Except ReadError ByteArray)
    (input : String)
    (args : List String) : Outcome :=
  outcomeWith pipeEditor read input args

end DynScript.Cli
