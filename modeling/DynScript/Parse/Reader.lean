import DynScript.Parse.Stmt
import DynScript.Text.Utf8

/-
  This file reads source texts, whole or one statement at a
  time. A reader that has met a fault stays halted. What is
  written to a log while reading is not part of what is
  modelled.

  Key definitions include:
    * `maxNesting`
    * `parseWithin`
    * `parse`
    * `Reader`
    * `Reader.consume`
    * `Reader.readStatement`
    * `Reader.readAll`
    * `readStatements`
-/

namespace DynScript

------------------------------------------------------------
-- Whole texts
------------------------------------------------------------

/- How deep blocks may nest and how high expressions may be. -/
def maxNesting : Nat :=
  512

/-
  The program of a source text, with or without a limit on its
  nesting.
-/
def parseWithin
    (limit : Option Nat)
    (source : String) : Except ParseError Block :=
  let s := TokenStream.ofSource source
  Parse.statements limit s.ending s.tokens

/- The program of a source text. -/
def parse
    (source : String) : Except ParseError Block :=
  parseWithin (some maxNesting) source

------------------------------------------------------------
-- Reading in steps
------------------------------------------------------------

/-
  A source text of which a part is still to be read, with the
  number of blocks that are open.
-/
structure Reader where
  rest : List Token
  ending : Ending
  halted : Bool
  blocks : Nat

namespace Reader

/- A reader at the beginning of a source text. -/
def ofSource
    (source : String) : Reader :=
  let s := TokenStream.ofSource source
  ⟨s.tokens, s.ending, false, 0⟩

/- A reader at the beginning of a source text given as bytes. -/
def ofBytes
    (bytes : ByteArray) : Except ParseError Reader :=
  match Text.decode bytes with
  | .ok source => .ok (ofSource source)
  | .error offset => .error (.invalidUtf8 offset)

/-
  One step of a reader: its result and the reader behind it. A
  fault halts the reader, and a halted reader takes no steps.
-/
def step
    {α : Type}
    (r : Reader)
    (result : Except ParseError (α × Reader)) :
    Except ParseError α × Reader :=
  if r.halted then
    (.error .halted, r)
  else
    match result with
    | .ok (a, behind) => (.ok a, behind)
    | .error e => (.error e, { r with halted := true })

/-
  Skip the next token, which must be spelled `text`. The empty
  text skips nothing, and only looks whether a token can be
  read.
-/
def consume
    (text : String)
    (r : Reader) : Except ParseError Unit × Reader :=
  r.step <|
    match r.rest with
    | [] =>
      if text = "" then do
        r.ending.look
        return ((), r)
      else
        .error (r.ending.fault (.spelling text))
    | t :: rest =>
      if text = "" then
        .ok ((), r)
      else if t.text = text then
        .ok ((), { r with rest })
      else
        .error (t.fault (.spelling text))

/- The next statement, or nothing at the end of the input. -/
def readStatement
    (r : Reader) : Except ParseError (Option Stmt) × Reader :=
  r.step do
    match ← Parse.countedNext (some maxNesting) r.ending r.blocks
      r.rest with
    | none => return (none, { r with rest := [] })
    | some ⟨s, rest, _⟩ =>
      return (some s.value, { r with rest, blocks := s.blocks })

/- All statements that are left. -/
def readAll
    (r : Reader) : Except ParseError Block × Reader :=
  r.step do
    let ss ← Parse.countedStatements (some maxNesting) r.ending
      r.blocks r.rest
    return (ss.value, { r with rest := [], blocks := ss.blocks })

end Reader

/- The program of a source text given as bytes. -/
def readStatements
    (bytes : ByteArray) : Except ParseError Block := do
  let r ← Reader.ofBytes bytes
  let (primed, r) := r.consume ""
  primed
  r.readAll.1

end DynScript
