import DynScript.Text.Joining

/-
  This file divides a text into clusters: what its readers
  take for one character, such as a letter with its accents,
  a flag, or a family of pictographs.

  Key definitions include:
    * `Text.Context`
    * `Text.Context.breaksBefore`
    * `Text.clusters`

  Main results include:
    * `Text.flatten_clusters`
-/

namespace DynScript.Text

------------------------------------------------------------
-- Boundaries
------------------------------------------------------------

/-
  How far two characters with something between them are on
  the way to join: nothing, the first one, or also what links
  it to the second.
-/
inductive Chain where
  | absent
  | begun
  | linked
deriving DecidableEq

/- What is remembered of the characters before a place. -/
structure Context where
  last : Joining
  conjunct : Chain
  picture : Chain
  oddFlags : Bool

namespace Context

/- Before the first character. -/
def start : Context :=
  ⟨.control, .absent, .absent, false⟩

/- A conjunct: consonants with a linker and marks between them. -/
def nextConjunct
    (ctx : Context) : Joining → Chain
  | .consonant => .begun
  | .linker => if ctx.conjunct = .absent then .absent else .linked
  | .mark => ctx.conjunct
  | .joiner => ctx.conjunct
  | _ => .absent

/-
  A joint picture: pictographs with marks and then a joiner
  between them.
-/
def nextPicture
    (ctx : Context) : Joining → Chain
  | .pictograph => .begun
  | .joiner => if ctx.picture = .begun then .linked else .absent
  | .mark => if ctx.picture = .begun then .begun else .absent
  | .linker => if ctx.picture = .begun then .begun else .absent
  | .nonJoiner => if ctx.picture = .begun then .begun else .absent
  | _ => .absent

/- Go past one character. -/
def next
    (ctx : Context)
    (j : Joining) : Context :=
  ⟨j, ctx.nextConjunct j, ctx.nextPicture j, j = .flag && !ctx.oddFlags⟩

/-
  Whether a cluster ends before a character that joins in the
  given way.
-/
def breaksBefore
    (ctx : Context)
    (j : Joining) : Bool :=
  if ctx.last = .carriageReturn && j = .lineFeed then false
  else if ctx.last.isBreak || j.isBreak then true
  else if j.attaches || ctx.last = .prepend then false
  else
    match j with
    | .consonant => ctx.conjunct != .linked
    | .pictograph => ctx.picture != .linked
    | .flag => !ctx.oddFlags
    | .vowel => !ctx.last.takesVowel
    | .trailing => !ctx.last.takesTrailing
    | .leading => ctx.last != .leading
    | .openSyllable => ctx.last != .leading
    | .closedSyllable => ctx.last != .leading
    | _ => true

end Context

------------------------------------------------------------
-- Clusters
------------------------------------------------------------

/-
  A text divided so far: the finished clusters and the one
  that may go on, each with the last part first.
-/
structure Division where
  context : Context
  finished : List (List Char)
  current : List Char

namespace Division

/- Nothing divided yet. -/
def start : Division :=
  ⟨.start, [], []⟩

/- All clusters so far, the last one first. -/
def closed
    (d : Division) : List (List Char) :=
  if d.current.isEmpty then
    d.finished
  else
    d.current.reverse :: d.finished

/- Take one more character. -/
def next
    (d : Division)
    (c : Char) : Division :=
  let j := Joining.of c
  if d.context.breaksBefore j then
    ⟨d.context.next j, d.closed, [c]⟩
  else
    ⟨d.context.next j, d.finished, c :: d.current⟩

/- The text that has been divided. -/
def text
    (d : Division) : List Char :=
  d.closed.reverse.flatten

/- A step adds its character to the text. -/
theorem text_next
    (d : Division)
    (c : Char) :
    (d.next c).text = d.text ++ [c] := by
  unfold next
  by_cases h : d.context.breaksBefore (Joining.of c)
  · simp [h, text, closed]
  · cases hc : d.current <;> simp [h, hc, text, closed]

/- All steps together add all characters. -/
theorem text_foldl
    (cs : List Char)
    (d : Division) :
    (cs.foldl next d).text = d.text ++ cs := by
  induction cs generalizing d with
  | nil => simp
  | cons c cs ih => simp [ih, text_next]

end Division

/- The clusters of a text. -/
def clusters
    (cs : List Char) : List (List Char) :=
  (cs.foldl Division.next .start).closed.reverse

/- The clusters, one behind the other, are the text. -/
theorem flatten_clusters
    (cs : List Char) :
    (clusters cs).flatten = cs :=
  Division.text_foldl cs .start

end DynScript.Text
