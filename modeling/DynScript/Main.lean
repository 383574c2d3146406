import DynScript.Cli.Outcome

/-
  This file is the program: it reads what a command needs and
  shows what the command makes of it. Editing on a terminal and
  the log, which the switch for more messages is about, are not
  part of what is modelled.

  Key definitions include:
    * `Cli.readSystemFile`
    * `Cli.converse`
    * `Cli.start`
-/

namespace DynScript.Cli

/- A file of the system, or why it cannot be read. -/
def readSystemFile
    (path : String) : IO (Except ReadError ByteArray) := do
  try
    let bytes ← IO.FS.readBinFile path
    return .ok bytes
  catch
    | .noFileOrDirectory .. => return .error .notFound
    | .inappropriateType _ 20 _ => return .error .notDirectory
    | .inappropriateType .. => return .error .isDirectory
    | .invalidArgument _ 36 _ => return .error .nameTooLong
    | e => return .error (.other (toString e))

/- Show a transcript on the two channels of the system. -/
def showTranscript
    (t : Transcript) : IO Unit := do
  IO.print t.out
  IO.eprint t.err
  (← IO.getStdout).flush

/-
  Hold the dialogue with whoever types; the result is the exit
  code.
-/
partial def converse
    (d : Dialogue) : IO UInt32 := do
  let typed ← (← IO.getStdin).getLine
  match pipeEditor typed with
  | [] =>
    showTranscript d.finish
    return 0
  | none :: _ => return Outcome.brokenOff.code.toUInt32
  | some line :: _ =>
    let (shown, next) := d.step line
    showTranscript shown
    match next with
    | some d => converse d
    | none => return 0

/- Do what the arguments ask for; the result is the exit code. -/
def start
    (args : List String) : IO UInt32 := do
  match Command.ofArgs? args with
  | some .repl =>
    showTranscript banner
    converse .fresh
  | command? =>
    let content ←
      match command?.bind Command.file? with
      | some file => readSystemFile file
      | none => pure (.error .notFound)
    let result := outcome (fun _ => content) "" args
    showTranscript result.shown
    return result.code.toUInt32

end DynScript.Cli

/- Run the program. -/
def main
    (args : List String) : IO UInt32 :=
  DynScript.Cli.start args
