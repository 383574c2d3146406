/-
  This file defines places in a source text. A place
  counts lines and columns from one for people, and UTF-8
  bytes from zero for tools.

  Key definitions include:
    * `Position`
    * `Position.start`
    * `Position.advance`
    * `Position.after`
    * `Position.render`
-/

namespace DynScript

------------------------------------------------------------
-- Positions
------------------------------------------------------------

/-
  A place in a source text. The column counts code points
  since the last line feed, the offset counts bytes since
  the beginning.
-/
structure Position where
  line : Nat
  column : Nat
  offset : Nat
deriving DecidableEq

namespace Position

/- The place before the first character of a text. -/
def start : Position :=
  ⟨1, 1, 0⟩

/-
  The place after one more character. Only a line feed ends
  a line.
-/
def advance
    (p : Position)
    (c : Char) : Position :=
  if c = '\n' then
    ⟨p.line + 1, 1, p.offset + c.utf8Size⟩
  else
    ⟨p.line, p.column + 1, p.offset + c.utf8Size⟩

/- The place after a run of characters. -/
def after
    (p : Position)
    (cs : List Char) : Position :=
  cs.foldl advance p

/- Nothing read leaves the place alone. -/
@[simp]
theorem after_nil
    (p : Position) :
    p.after [] = p :=
  rfl

/- A place is moved one character at a time. -/
@[simp]
theorem after_cons
    (p : Position)
    (c : Char)
    (cs : List Char) :
    p.after (c :: cs) = (p.advance c).after cs :=
  rfl

/- Reading two runs one after the other is reading both. -/
theorem after_append
    (p : Position)
    (cs ds : List Char) :
    p.after (cs ++ ds) = (p.after cs).after ds :=
  List.foldl_append

/- The form shown in diagnostics, `line:column`. -/
def render
    (p : Position) : String :=
  toString p.line ++ ":" ++ toString p.column

end Position

end DynScript
