import DynScript.Cli.Line
import DynScript.Eval.Session
import DynScript.Text.Blank

/-
  This file defines the dialogue with someone who types
  programs line by line. All lines run on one machine. A line
  that leaves brackets open is continued by the next ones. The
  list of earlier lines that an editor keeps, and what is
  written to a log, are not part of what is modelled.

  Key definitions include:
    * `Cli.bracketDepth`
    * `Cli.Transcript`
    * `Cli.Outcome`
    * `Cli.evaluate`
    * `Cli.Dialogue`
    * `Cli.Dialogue.step`
    * `Cli.Dialogue.replay`
    * `Cli.dialogue`
-/

namespace DynScript.Cli

------------------------------------------------------------
-- Brackets
------------------------------------------------------------

/- What counting brackets keeps track of. -/
structure BracketCount where
  depth : Int
  quote : Option Char
  previous : Char

/-
  Count one more character. A quote behind a backslash closes
  nothing.
-/
def BracketCount.next
    (b : BracketCount)
    (c : Char) : BracketCount :=
  match b.quote with
  | some q =>
    let closes := c = q && b.previous != '\\'
    { b with
      quote := if closes then none else some q
      previous := c }
  | none =>
    if c = '"' || c = '\'' then
      { b with quote := some c, previous := c }
    else if c = '{' || c = '(' then
      { b with depth := b.depth + 1, previous := c }
    else if c = '}' || c = ')' then
      { b with depth := b.depth - 1, previous := c }
    else
      { b with previous := c }

/-
  How many more brackets a text opens than it closes, outside
  of quotes.
-/
def bracketDepth
    (text : String) : Int :=
  (text.toList.foldl BracketCount.next ⟨0, none, ' '⟩).depth

------------------------------------------------------------
-- Transcripts and outcomes
------------------------------------------------------------

/- What is shown: results on one channel, faults on the other. -/
structure Transcript where
  out : String
  err : String

namespace Transcript

/- Nothing shown. -/
def empty : Transcript :=
  ⟨"", ""⟩

/- A text among the results. -/
def ofOut
    (text : String) : Transcript :=
  ⟨text, ""⟩

/- A text among the faults. -/
def ofErr
    (text : String) : Transcript :=
  ⟨"", text⟩

/- One transcript after another. -/
def append
    (s t : Transcript) : Transcript :=
  ⟨s.out ++ t.out, s.err ++ t.err⟩

instance : Append Transcript :=
  ⟨append⟩

end Transcript

/- The exit code of the program and what it shows. -/
structure Outcome where
  code : Nat
  shown : Transcript

namespace Outcome

/- A run that went well. -/
def success
    (shown : Transcript) : Outcome :=
  ⟨0, shown⟩

/- A run that failed. -/
def failure
    (shown : Transcript) : Outcome :=
  ⟨1, shown⟩

/-
  A run that the line editor has broken off. What the editor
  shows of that is not known.
-/
def brokenOff : Outcome :=
  ⟨101, .empty⟩

/- What follows when something was shown before. -/
def behind
    (shown : Transcript)
    (o : Outcome) : Outcome :=
  ⟨o.code, shown ++ o.shown⟩

end Outcome

/- What a machine has written, as text. -/
def outputText
    (m : Machine) : String :=
  (String.fromUTF8? m.sink.written).getD ""

/- How a result is shown: nothing for nil. -/
def showResult : Except RuntimeError Value → Transcript
  | .ok .nil => .empty
  | .ok v => .ofOut (v.display ++ "\n")
  | .error e => .ofErr ("Runtime error: " ++ e.message ++ "\n")

/-
  Run a program on a machine, and show what it writes and what
  it gives.
-/
def runShown
    (m : Machine)
    (b : Block) : Except RuntimeError Value × Transcript × Machine :=
  let (result, m) := m.run b
  (result, .ofOut (outputText m) ++ showResult result, m.clearOutput)

------------------------------------------------------------
-- The dialogue
------------------------------------------------------------

/- What is shown for a typed text, and the machine after it. -/
def evaluate
    (m : Machine)
    (text : String) : Transcript × Machine :=
  match parse text with
  | .ok b =>
    let (_, shown, m) := runShown m b
    (shown, m)
  | .error e => (.ofErr ("Parse error: " ++ e.message ++ "\n"), m)

/-
  A dialogue: its machine, and a typed text with brackets still
  open.
-/
structure Dialogue where
  machine : Machine
  pending : Option String

namespace Dialogue

/- A dialogue in which nothing was typed yet. -/
def fresh : Dialogue :=
  ⟨.fresh .empty defaultMaxDepth none 0, none⟩

/- Evaluate a typed text, unless it has to be continued. -/
def submit
    (d : Dialogue)
    (text : String) : Transcript × Dialogue :=
  if 0 < bracketDepth text then
    (.empty, { d with pending := some text })
  else
    let (shown, m) := evaluate d.machine (Text.trim text)
    (shown, ⟨m, none⟩)

/- What is shown when the dialogue is over. -/
def farewell : Transcript :=
  .ofOut "Goodbye!\n"

/-
  What is shown for one more line, and how the dialogue goes
  on, if it does.
-/
def step
    (d : Dialogue)
    (line : String) : Transcript × Option Dialogue :=
  match d.pending with
  | some text =>
    let (shown, d) := d.submit (text ++ line ++ "\n")
    (shown, some d)
  | none =>
    let word := Text.trim line
    if word = "" then
      (.empty, some d)
    else if word = "quit" ∨ word = "exit" then
      (farewell, none)
    else
      let (shown, d) := d.submit (line ++ "\n")
      (shown, some d)

/-
  What is shown at the end of the input; an open text is
  evaluated as it is.
-/
def finish
    (d : Dialogue) : Transcript :=
  match d.pending with
  | some text => (evaluate d.machine (Text.trim text)).1 ++ farewell
  | none => farewell

/-
  How a dialogue ends, from the lines that are still to be
  delivered.
-/
def replay
    (d : Dialogue) : List (Option String) → Outcome
  | [] => .success d.finish
  | none :: _ => .brokenOff
  | some line :: rest =>
    match d.step line with
    | (shown, some d) => (d.replay rest).behind shown
    | (shown, none) => .success shown

end Dialogue

/- The name of the program. -/
def programName : String :=
  "funny"

/- The version of the program. -/
def programVersion : String :=
  "0.1.0"

/- What is shown first. -/
def banner : Transcript :=
  .ofOut (programName ++ " v" ++ programVersion ++
    "\nType 'quit' to exit\n\n")

/- The whole dialogue over an input that an editor reads. -/
def dialogue
    (editor : Editor)
    (input : String) : Outcome :=
  (Dialogue.fresh.replay (editor input)).behind banner

end DynScript.Cli
