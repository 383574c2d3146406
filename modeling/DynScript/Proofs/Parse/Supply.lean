import Mathlib.Data.List.Basic
import DynScript.Proofs.Parse.Outcome

/-
  A reader does not hold the tokens of a text. It is supplied
  with them one after the other: what it looks at is kept until
  it is taken, and behind the last token the end of the input
  is handed out as often as the reader asks. So a supply never
  runs dry, and a reader of one may never end. A lexical fault
  leaves a supply behind which ends of the input are handed
  out as well.

  Key definitions include:
    * `Item`
    * `Supply`
    * `Supply.pull`
    * `Supply.take`
    * `Supply.Stands`

  Main statements include:
    * `Supply.pull_behind_fault`
    * `Supply.Stands.exists_used`
    * `Supply.exists_end_of_itemAt`
    * `Supply.exists_fault_of_itemAt`
    * `Supply.Stands.pull`
    * `Supply.Stands.take`
-/

namespace DynScript

------------------------------------------------------------
-- Items
------------------------------------------------------------

/- What is handed out: a token, or the end of the input. -/
inductive Item where
  | token (t : Token)
  | endOfInput (pos : Position)

namespace Item

/- The kind of a token; the end of the input has none. -/
def kind? : Item → Option TokenKind
  | token t => some t.kind
  | endOfInput _ => none

/- Where an item stands. -/
def pos : Item → Position
  | token t => t.pos
  | endOfInput pos => pos

/- The text of a token; the end of the input has none. -/
def text : Item → String
  | token t => t.text
  | endOfInput _ => ""

/- The fault of an item that does not fit. -/
def fault
    (expected : Expected) : Item → ParseError
  | token t => t.fault expected
  | endOfInput pos => .unexpected expected .endOfInput pos

@[simp]
theorem kind?_token
    (t : Token) :
    (token t).kind? = some t.kind :=
  rfl

@[simp]
theorem kind?_endOfInput
    (pos : Position) :
    (endOfInput pos).kind? = none :=
  rfl

end Item

------------------------------------------------------------
-- Supplies
------------------------------------------------------------

/-
  The items that were looked at and not taken, the tokens still
  to come and what ends them as long as that was not handed
  out, the place of the end once it was, and all items taken so
  far.
-/
structure Supply where
  ahead : List Item
  coming : List Token
  ending? : Option Ending
  eof : Position
  taken : List Item

namespace Supply

/-
  Nothing of the stream was looked at. The end has no place
  yet, since lines and columns are counted from one.
-/
def ofStream
    (s : TokenStream) : Supply :=
  ⟨[], s.tokens, some s.ending, ⟨0, 0, 0⟩, []⟩

/-
  Look at one more item. The end is handed out again and
  again. A fault is met once, and behind it there are ends.
-/
def pull
    (b : Supply) : Except ParseError Unit × Supply :=
  match b.coming, b.ending? with
  | t :: rest, _ =>
    (.ok (), { b with
      ahead := b.ahead ++ [.token t]
      coming := rest })
  | [], some (.endOfInput pos) =>
    (.ok (), { b with
      ahead := b.ahead ++ [.endOfInput pos]
      ending? := none
      eof := pos })
  | [], some (.failed e) =>
    (.error (.lex e), { b with ending? := none })
  | [], none =>
    (.ok (), { b with ahead := b.ahead ++ [.endOfInput b.eof] })

/- Take the next item, which was looked at. -/
def take
    (b : Supply) : Except ParseError Item × Supply :=
  match b.ahead with
  | item :: ahead =>
    (.ok item, { b with ahead, taken := b.taken ++ [item] })
  | [] => (.error .halted, b)

/-
  Behind a lexical fault the end of the input is handed out,
  though at no place of the text.
-/
theorem pull_behind_fault
    {s : TokenStream}
    {e : LexError}
    (h : s.ending = .failed e)
    (ahead taken : List Item)
    (eof : Position) :
    let b : Supply := ⟨ahead, [], some s.ending, eof, taken⟩
    b.pull.1 = .error (.lex e) ∧
      b.pull.2.pull =
        (.ok (), ⟨ahead ++ [.endOfInput eof], [], none, eof, taken⟩) := by
  rw [h]
  exact ⟨rfl, rfl⟩

/-
  A supply of the stream `s` that stands before the tokens
  `toks`: only tokens were taken, and all in front of these.
  What was looked at are some of these and, once all were,
  ends.
-/
inductive Stands
    (s : TokenStream) : Supply → List Token → Prop where
  | open
      (looked coming : List Token)
      (eof : Position)
      (taken : List Token)
      (hTokens : s.tokens = taken ++ (looked ++ coming)) :
      Stands s
        ⟨looked.map .token, coming, some s.ending, eof, taken.map .token⟩
        (looked ++ coming)
  | closed
      (looked : List Token)
      (ends : Nat)
      {eof : Position}
      (taken : List Token)
      (hEnding : s.ending = .endOfInput eof)
      (hTokens : s.tokens = taken ++ looked) :
      Stands s
        ⟨looked.map .token ++ List.replicate ends (.endOfInput eof), [],
          none, eof, taken.map .token⟩
        looked

variable {s : TokenStream}
variable {b b' : Supply}
variable {toks rest : List Token}

theorem stands_ofStream
    (s : TokenStream) :
    Stands s (ofStream s) s.tokens :=
  .open [] s.tokens _ [] rfl

/- What was taken are the tokens in front. -/
theorem Stands.exists_taken
    (h : Stands s b toks) :
    ∃ taken, b.taken = taken.map .token ∧ s.tokens = taken ++ toks := by
  cases h with
  | «open» looked coming eof taken hTokens => exact ⟨_, rfl, hTokens⟩
  | closed looked ends taken hEnding hTokens => exact ⟨_, rfl, hTokens⟩

/- Between two places of a stream only tokens are taken. -/
theorem Stands.exists_used
    (h : Stands s b toks)
    (h' : Stands s b' rest)
    (hLength : rest.length ≤ toks.length) :
    ∃ used, toks = used ++ rest ∧
      b'.taken = b.taken ++ used.map .token := by
  rcases h.exists_taken with ⟨taken, hTaken, hTokens⟩
  rcases h'.exists_taken with ⟨taken', hTaken', hTokens'⟩
  rcases List.append_eq_append_iff.mp (hTokens.symm.trans hTokens') with
    ⟨used, hMore, hSplit⟩ | ⟨used, hMore, hSplit⟩
  · refine ⟨used, hSplit, ?_⟩
    rw [hTaken', hMore, List.map_append, hTaken]
  · -- Tokens given back would be more than there were.
    have hNone : used = [] := by
      apply List.eq_nil_of_length_eq_zero
      have hSum := congrArg List.length hSplit
      rw [List.length_append] at hSum
      omega
    subst hNone
    refine ⟨[], hSplit.symm, ?_⟩
    rw [hTaken', hTaken, hMore]
    simp

------------------------------------------------------------
-- Looking ahead
------------------------------------------------------------

/- The item with a number before certain tokens. -/
def itemAt
    (ending : Ending)
    (toks : List Token)
    (n : Nat) : Except ParseError Item :=
  match toks[n]?, ending with
  | some t, _ => .ok (.token t)
  | none, .endOfInput pos => .ok (.endOfInput pos)
  | none, .failed e => .error (.lex e)

section ItemAt

variable {ending : Ending}
variable {n : Nat}

theorem itemAt_of_some
    {t : Token}
    (h : toks[n]? = some t) :
    itemAt ending toks n = .ok (.token t) := by
  unfold itemAt
  rw [h]

theorem itemAt_endOfInput
    (h : toks.length ≤ n)
    (pos : Position) :
    itemAt (.endOfInput pos) toks n = .ok (.endOfInput pos) := by
  unfold itemAt
  rw [List.getElem?_eq_none h]

theorem itemAt_failed
    (h : toks.length ≤ n)
    (e : LexError) :
    itemAt (.failed e) toks n = .error (.lex e) := by
  unfold itemAt
  rw [List.getElem?_eq_none h]

/- A fault stands behind all tokens. -/
theorem exists_fault_of_itemAt
    {e : ParseError}
    (h : itemAt ending toks n = .error e) :
    toks.length ≤ n ∧
      ∃ fault, ending = .failed fault ∧ e = .lex fault := by
  unfold itemAt at h
  split at h
  · cases h
  · cases h
  · next fault hNone =>
      rcases Except.error.inj h with rfl
      exact ⟨List.getElem?_eq_none_iff.mp hNone, fault, rfl, rfl⟩

/- An item behind all tokens is the end of the input. -/
theorem exists_end_of_itemAt
    {item : Item}
    (h : itemAt ending toks n = .ok item)
    (hEnd : toks.length ≤ n) :
    ∃ pos, ending = .endOfInput pos ∧ item = .endOfInput pos := by
  cases ending with
  | endOfInput pos =>
      rw [itemAt_endOfInput hEnd] at h
      exact ⟨pos, rfl, (Except.ok.inj h).symm⟩
  | failed e =>
      rw [itemAt_failed hEnd] at h
      cases h

/- Behind a fault there is nothing but the fault. -/
theorem itemAt_error_of_le
    {e : ParseError}
    {i : Nat}
    (h : itemAt ending toks i = .error e)
    (hLe : i ≤ n) :
    itemAt ending toks n = .error e := by
  rcases exists_fault_of_itemAt h with ⟨hEnd, fault, rfl, rfl⟩
  exact itemAt_failed (Nat.le_trans hEnd hLe) fault

end ItemAt

/-
  One more item is looked at, and it is the one that stands at
  its place, unless the tokens end in a fault there.
-/
theorem Stands.pull
    (h : Stands s b toks) :
    (∃ b' item, b.pull = (.ok (), b') ∧ Stands s b' toks ∧
        itemAt s.ending toks b.ahead.length = .ok item ∧
        b'.ahead = b.ahead ++ [item]) ∨
      ∃ e b', b.pull = (.error e, b') ∧
        itemAt s.ending toks b.ahead.length = .error e := by
  cases h with
  | «open» looked coming eof taken hTokens =>
      cases coming with
      | cons t rest =>
          refine .inl
            ⟨_, .token t, rfl, ?_, itemAt_of_some (by simp), rfl⟩
          have hLooked :=
            Stands.open (looked ++ [t]) rest eof taken
              (by simpa using hTokens)
          simpa using hLooked
      | nil =>
          cases hEnding : s.ending with
          | endOfInput pos =>
              refine .inl ⟨_, .endOfInput pos, rfl, ?_,
                itemAt_endOfInput (by simp) pos, rfl⟩
              rw [List.append_nil]
              exact .closed _ 1 taken hEnding (by simpa using hTokens)
          | failed e =>
              exact .inr ⟨.lex e, _, rfl, itemAt_failed (by simp) e⟩
  | @closed _ ends eof taken hEnding hTokens =>
      rw [hEnding]
      refine .inl ⟨_, .endOfInput eof, rfl, ?_,
        itemAt_endOfInput (by simp) eof, rfl⟩
      have hMore :=
        Stands.closed toks (ends + 1) taken hEnding hTokens
      simpa [List.replicate_succ'] using hMore

/- What was looked at is what stands at its place. -/
theorem Stands.itemAt_of_ahead
    (h : Stands s b toks)
    {n : Nat}
    {item : Item}
    (hAhead : b.ahead[n]? = some item) :
    itemAt s.ending toks n = .ok item := by
  cases h with
  | «open» looked coming eof taken hTokens =>
      rw [List.getElem?_map, Option.map_eq_some_iff] at hAhead
      rcases hAhead with ⟨t, hLooked, rfl⟩
      have hPlace := (List.getElem?_eq_some_iff.mp hLooked).1
      apply itemAt_of_some
      rw [List.getElem?_append_left hPlace, hLooked]
  | @closed looked ends eof taken hEnding hTokens =>
      by_cases hPlace : n < toks.length
      · rw [List.getElem?_append_left (by simpa using hPlace),
          List.getElem?_map, List.getElem?_eq_getElem hPlace] at hAhead
        rcases Option.some.inj hAhead with rfl
        exact itemAt_of_some (List.getElem?_eq_getElem hPlace)
      · have hEnd : toks.length ≤ n := Nat.le_of_not_lt hPlace
        rw [List.getElem?_append_right (by simpa using hEnd)] at hAhead
        have hItem := List.eq_of_mem_replicate
          (List.mem_of_getElem? hAhead)
        rw [hEnding, hItem]
        exact itemAt_endOfInput hEnd eof

/- A token that was looked at is taken. -/
theorem Stands.take
    {t : Token}
    (h : Stands s b (t :: rest))
    (hAhead : b.ahead ≠ []) :
    ∃ b', b.take = (.ok (.token t), b') ∧ Stands s b' rest := by
  rcases hItems : b.ahead with _ | ⟨item, ahead⟩
  · exact absurd hItems hAhead
  have hItem : itemAt s.ending (t :: rest) 0 = .ok item :=
    h.itemAt_of_ahead (by rw [hItems]; rfl)
  rcases Except.ok.inj hItem with rfl
  refine ⟨_, by rw [Supply.take, hItems], ?_⟩
  generalize hToks : t :: rest = toks at h
  cases h with
  | «open» looked coming eof taken hTokens =>
      cases looked with
      | nil => cases hItems
      | cons u looked =>
          rcases List.cons.inj hToks with ⟨rfl, rfl⟩
          rcases List.cons.inj hItems with ⟨_, rfl⟩
          have hTaken :=
            Stands.open looked coming eof (taken ++ [t])
              (by simpa using hTokens)
          simpa using hTaken
  | @closed looked ends eof taken hEnding hTokens =>
      subst hToks
      rcases List.cons.inj hItems with ⟨_, rfl⟩
      have hTaken :=
        Stands.closed rest ends (taken ++ [t]) hEnding
          (by simpa using hTokens)
      simpa using hTaken

/- Where no token is left, an end that was looked at is taken. -/
theorem Stands.take_end
    (h : Stands s b [])
    (hAhead : b.ahead ≠ []) :
    ∃ pos b', s.ending = .endOfInput pos ∧
      b.take = (.ok (.endOfInput pos), b') := by
  rcases hItems : b.ahead with _ | ⟨item, ahead⟩
  · exact absurd hItems hAhead
  have hItem : itemAt s.ending [] 0 = .ok item :=
    h.itemAt_of_ahead (by rw [hItems]; rfl)
  rcases exists_end_of_itemAt hItem (Nat.le_refl 0) with
    ⟨pos, hEnding, rfl⟩
  exact ⟨pos, _, hEnding, by rw [Supply.take, hItems]⟩

end Supply

end DynScript
