import DynScript.Text.Cluster

/-
  This file says how an input becomes lines. That is done by a
  line editor, which the program only uses: everything about a
  dialogue is defined for any editor. The editor that programs
  are run with, where the input is no terminal, divides the
  input at line feeds, and a backspace takes back the cluster
  that was typed before it.

  Key definitions include:
    * `Cli.Editor`
    * `Cli.Typed`
    * `Cli.settle`
    * `Cli.pipeEditor`
-/

namespace DynScript.Cli

------------------------------------------------------------
-- Editors
------------------------------------------------------------

/-
  What a line editor makes of an input: the lines that it
  delivers, one after the other. Where it breaks down instead,
  nothing is delivered.
-/
abbrev Editor :=
  String → List (Option String)

------------------------------------------------------------
-- Taking back
------------------------------------------------------------

/-
  A line while it is typed: its characters and the widths of
  its clusters, both with the last one first.
-/
structure Typed where
  chars : List Char
  widths : List Nat

/-
  The width of a cluster in bytes. It is kept in one byte, so
  that only the rest counts of a cluster with 256 or more.
-/
def width
    (cluster : List Char) : Nat :=
  cluster.foldl (fun n c => n + c.utf8Size) 0 % 256

/-
  Drop characters that have a number of bytes together. No
  character is divided.
-/
def dropBytes : (count : Nat) → List Char → Option (List Char)
  | 0, cs => some cs
  | _ + 1, [] => none
  | count, c :: cs =>
    if c.utf8Size ≤ count then
      dropBytes (count - c.utf8Size) cs
    else
      none

namespace Typed

/- Nothing typed yet. -/
def empty : Typed :=
  ⟨[], []⟩

/- Take the last cluster back, if there is one. -/
def takeBack
    (t : Typed) : Option Typed :=
  match t.widths with
  | [] => some t
  | w :: ws => (dropBytes w t.chars).map fun cs => ⟨cs, ws⟩

/- Type one more cluster; a backspace is one of its own. -/
def press
    (t : Typed)
    (cluster : List Char) : Option Typed :=
  if cluster = ['\x08'] then
    t.takeBack
  else
    some ⟨cluster.reverse ++ t.chars, width cluster :: t.widths⟩

end Typed

/- What a line comes to when all its keys are pressed. -/
def settle
    (line : List Char) : Option String :=
  ((Text.clusters line).foldlM Typed.press .empty).map fun t =>
    String.ofList t.chars.reverse

------------------------------------------------------------
-- Lines
------------------------------------------------------------

/- A line without the carriage return that may end it. -/
def dropReturn
    (line : List Char) : List Char :=
  match line.reverse with
  | '\r' :: rest => rest.reverse
  | _ => line

/- The lines of a text; the last one need not be ended. -/
def linesFrom
    (line : List Char) : List Char → List (Option String)
  | [] => if line.isEmpty then [] else [settle line.reverse]
  | '\n' :: cs =>
    settle (dropReturn line.reverse) :: linesFrom [] cs
  | c :: cs => linesFrom (c :: line) cs

/- The editor of inputs that are no terminal. -/
def pipeEditor : Editor := fun input =>
  linesFrom [] input.toList

end DynScript.Cli
