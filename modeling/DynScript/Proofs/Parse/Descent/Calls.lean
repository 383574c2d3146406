import DynScript.Proofs.Parse.Descent.Progress
import DynScript.Proofs.Parse.Incremental

/-
  A parser that is supplied with tokens answers every sequence
  of calls as the reader does that holds the tokens that are
  left. Between two calls both have stopped, or the parser
  stands before the tokens of the reader and no block is open.

  Key definitions include:
    * `Descent.perform`
    * `Descent.replies`
    * `Serves`

  Main statements include:
    * `Serves.consume`
    * `Serves.perform`
    * `Serves.replies`
    * `Descent.replies_ofSource`
-/

namespace DynScript

open Reading

------------------------------------------------------------
-- Calls
------------------------------------------------------------

namespace Descent

/- One call. -/
def perform
    (d : Descent) : Reader.Call → Reading Reader.Reply
  | .prime => do
    d.consume ""
    return .primed
  | .readStatement => do
    let st? ← d.readStatement
    return .statement st?
  | .readAll => do
    let b ← d.program []
    return .program b

/-
  The replies of one parser to a sequence of calls, if every
  call comes to an end.
-/
def replies
    (d : Descent) :
    Parser → List Reader.Call →
      Option (List (Except ParseError Reader.Reply))
  | _, [] => some []
  | p, c :: calls =>
    (d.perform c p).bind fun answer =>
      (replies d answer.2 calls).map (answer.1 :: ·)

end Descent

/-
  The parser `p` and the reader `r` of the stream `s` have both
  stopped, or both go on in front of the same tokens.
-/
inductive Serves
    (s : TokenStream)
    (p : Parser) : Reader → Prop where
  | running
      {toks : List Token}
      (hStands : p.Stands s 0 toks) :
      Serves s p ⟨toks, s.ending, false, 0⟩
  | stopped
      {r : Reader}
      (hParser : p.halted = true)
      (hReader : r.halted = true) :
      Serves s p r

/- In front of a whole text. -/
theorem serves_ofSource
    (source : String) :
    Serves (.ofSource source) (.ofStream (.ofSource source))
      (Reader.ofSource source) :=
  .running (Parser.stands_ofStream _)

/-
  The next step of a reader that has not stopped, from what is
  read of its tokens.
-/
def Reader.following
    {α : Type}
    (r : Reader)
    (x : Except ParseError (α × List Token)) :
    Except ParseError α × Reader :=
  r.step (x.map fun q => (q.1, { r with rest := q.2 }))

section Steps

variable {α : Type}
variable {s : TokenStream}
variable {p p' : Parser}
variable {r : Reader}
variable {toks : List Token}

------------------------------------------------------------
-- One call
------------------------------------------------------------

/- A call that fails leaves a parser that has stopped. -/
theorem halted_of_guarded
    {x : Reading α}
    {e : ParseError}
    (h : guarded x p = some (.error e, p')) :
    p'.halted = true := by
  cases hHalted : p.halted with
  | true =>
      rw [guarded_of_halted hHalted] at h
      cases h
      exact hHalted
  | false =>
      cases hInside : x p with
      | none =>
          rw [guarded_of_none hHalted hInside] at h
          cases h
      | some answer =>
          rw [guarded_of_some hHalted hInside] at h
          rcases Prod.mk.inj (Option.some.inj h) with ⟨hFault, rfl⟩
          rw [hFault, behindCall]

/-
  Parsers that follow what is read from the tokens of a reader,
  and stop where they fail, serve as the reader.
-/
theorem Follows.serves
    {x : Reading α}
    {result : Except ParseError (α × List Token)}
    (h : Follows s 0 x p result)
    (hStops : ∀ e p', x p = some (.error e, p') → p'.halted = true) :
    let r : Reader := ⟨toks, s.ending, false, 0⟩
    ∃ p', x p = some ((r.following result).1, p') ∧
      Serves s p' (r.following result).2 := by
  cases h with
  | ok hAnswer hStands _ =>
      exact ⟨_, hAnswer, .running hStands⟩
  | fault hAnswer _ _ =>
      exact ⟨_, hAnswer, .stopped (hStops _ _ hAnswer) rfl⟩

/- Who has stopped only says so. -/
theorem serves_of_halted
    {x : Reading α}
    (hParser : p.halted = true)
    (hReader : r.halted = true)
    (result : Except ParseError (α × Reader)) :
    ∃ p', guarded x p = some ((r.step result).1, p') ∧
      Serves s p' (r.step result).2 := by
  rw [Reader.step_of_halted hReader, guarded_of_halted hParser]
  exact ⟨p, rfl, .stopped hParser hReader⟩

------------------------------------------------------------
-- Skipping a token
------------------------------------------------------------

/- What skipping a token is on a list of tokens. -/
theorem Reader.consume_eq_following
    (text : String)
    (toks : List Token)
    (ending : Ending) :
    let r : Reader := ⟨toks, ending, false, 0⟩
    r.consume text = r.following
      (match toks with
      | [] =>
        if text = "" then
          ending.look >>= fun _ => .ok ((), [])
        else
          .error (ending.fault (.spelling text))
      | t :: rest =>
        if text = "" then
          .ok ((), t :: rest)
        else if t.text = text then
          .ok ((), rest)
        else
          .error (t.fault (.spelling text))) := by
  intro r
  cases toks with
  | nil =>
      show r.step _ = r.step _
      by_cases hEmpty : text = ""
      · simp only [r, if_pos hEmpty]
        cases ending with
        | endOfInput pos => rfl
        | failed e => rfl
      · simp only [r, if_neg hEmpty]
        rfl
  | cons t rest =>
      show r.step _ = r.step _
      by_cases hEmpty : text = ""
      · simp only [r, if_pos hEmpty]
        rfl
      · by_cases hText : t.text = text
        · simp only [r, if_neg hEmpty, if_pos hText]
          rfl
        · simp only [r, if_neg hEmpty, if_neg hText]
          rfl

/- Skipping a token, whichever it has to be. -/
theorem Serves.consume
    (d : Descent)
    (h : Serves s p r)
    (text : String) :
    ∃ p', d.consume text p = some ((r.consume text).1, p') ∧
      Serves s p' (r.consume text).2 := by
  cases h with
  | stopped hParser hReader =>
      exact serves_of_halted hParser hReader _
  | @running toks hStands =>
      rw [Reader.consume_eq_following, Descent.consume]
      refine (Follows.guarded hStands.running ?_).serves
        fun e p' => halted_of_guarded
      cases toks with
      | nil =>
          apply Follows.peek_end hStands
          · intro pos p₁ hEnding hStands
            rw [hEnding]
            by_cases hEmpty : text = ""
            · simp only [if_pos hEmpty]
              exact follows_pure hStands ()
            · have hOther : Item.text (.endOfInput pos) ≠ text :=
                fun hText => hEmpty hText.symm
              simp only [if_neg hEmpty, if_neg hOther]
              exact follows_fail hStands _
          · intro e hEnding
            rw [hEnding]
            by_cases hEmpty : text = ""
            · simp only [if_pos hEmpty]
              rfl
            · simp only [if_neg hEmpty]
              rfl
      | cons t rest =>
          apply Follows.peek_token hStands
          intro p₁ hStands
          by_cases hEmpty : text = ""
          · simp only [if_pos hEmpty]
            exact follows_pure hStands ()
          · by_cases hText : t.text = text
            · have hItem : Item.text (.token t) = text := hText
              simp only [if_neg hEmpty, if_pos hItem, if_pos hText]
              apply Follows.advance_token hStands
              intro p₂ hRest
              exact follows_pure hRest ()
            · have hItem : Item.text (.token t) ≠ text := hText
              simp only [if_neg hEmpty, if_neg hItem, if_neg hText]
              exact follows_fail hStands _

------------------------------------------------------------
-- Reading statements
------------------------------------------------------------

namespace Parse

variable {limit : Option Nat}
variable {ending : Ending}

/- The next statement, and what is left behind it. -/
theorem nextStatement_map
    (toks : List Token) :
    ((nextStatement limit ending toks).map fun
      | none => (none, [])
      | some q => (some q.value, q.rest)) =
      nextRead limit ending toks := by
  induction toks with
  | nil =>
      rw [nextStatement, countedNext, nextRead, behindSeparators]
      cases ending with
      | endOfInput pos => rfl
      | failed e => rfl
  | cons t rest ih =>
      rw [nextStatement, countedNext, nextRead]
      by_cases hSemicolon : t.kind = .symbol .semicolon
      · rw [behindSeparators_of_eq rest hSemicolon,
          if_pos hSemicolon]
        rw [nextRead, nextStatement] at ih
        rw [← ih]
        cases countedNext limit ending 0 rest with
        | error e => rfl
        | ok p? =>
            cases p? with
            | none => rfl
            | some q => rfl
      · rw [behindSeparators_of_ne rest hSemicolon,
          if_neg hSemicolon]
        dsimp only
        rw [statement]
        cases countedStatement limit ending 0 (t :: rest) with
        | error e => rfl
        | ok q => rfl

end Parse

namespace Reader

variable {ending : Ending}

theorem readStatement_eq_following
    (toks : List Token)
    (ending : Ending) :
    let r : Reader := ⟨toks, ending, false, 0⟩
    r.readStatement =
      r.following (Parse.nextRead (some maxNesting) ending toks) := by
  intro r
  rw [readStatement, following, ← Parse.nextStatement_map,
    Parse.countedNext_eq]
  cases Parse.nextStatement (some maxNesting) ending toks with
  | error e => rfl
  | ok p? =>
      cases p? with
      | none => rfl
      | some q => rfl

theorem readAll_eq_following
    (toks : List Token)
    (ending : Ending) :
    let r : Reader := ⟨toks, ending, false, 0⟩
    r.readAll = r.following
      (Parse.statements (some maxNesting) ending toks >>= fun ss =>
        .ok ([] ++ ss, [])) := by
  intro r
  rw [readAll, following, Parse.countedStatements_eq]
  cases Parse.statements (some maxNesting) ending toks with
  | error e => rfl
  | ok ss => rfl

end Reader

namespace Descent

variable {d : Descent}

/- A program whose reading fails leaves a parser that has stopped. -/
theorem halted_of_program
    {read : Block}
    {e : ParseError}
    (h : p.Stands s 0 toks)
    (hAnswer : d.program read p = some (.error e, p')) :
    p'.halted = true := by
  induction hLength : toks.length using Nat.strong_induction_on
    generalizing toks p read with
  | _ length ih =>
      rw [program] at hAnswer
      have hTurn := follows_programTurn (d := d) read h
      rcases bind_eq_some hAnswer with
        ⟨e', hFault, _⟩ | ⟨turn, p₁, hFirst, hSecond⟩
      · rw [programTurn] at hFault
        rcases bind_eq_some hFault with
          ⟨e₁, hRead, _⟩ | ⟨st?, p₂, _, hLast⟩
        · exact halted_of_guarded hRead
        · cases st? with
          | none => cases hLast
          | some st => cases hLast
      · rcases hTurn.of_answer hFirst with ⟨rest, hRead, hStands⟩
        cases turn with
        | again more =>
            have hShorter := Parse.length_lt_of_programTurn hRead
            exact ih rest.length (hLength ▸ hShorter) hStands hSecond
              rfl
        | done all => cases hSecond

end Descent

/- The next statement. -/
theorem Serves.readStatement
    (h : Serves s p r) :
    ∃ p', Descent.standard.readStatement p =
        some (r.readStatement.1, p') ∧
      Serves s p' r.readStatement.2 := by
  cases h with
  | stopped hParser hReader =>
      exact serves_of_halted hParser hReader _
  | running hStands =>
      rw [Reader.readStatement_eq_following]
      exact (Descent.follows_readStatement hStands).serves
        fun e p' => halted_of_guarded

/- A loop of calls on a parser that has stopped makes no turn. -/
theorem Descent.program_of_halted
    {d : Descent}
    (h : p.halted = true)
    (read : Block) :
    d.program read p = some (.error .halted, p) := by
  have hRead : d.readStatement p = some (.error .halted, p) :=
    guarded_of_halted h _
  have hTurn : d.programTurn read p = some (.error .halted, p) := by
    rw [programTurn, bind_of_error hRead]
  rw [program, bind_of_error hTurn]

/- All statements that are left. -/
theorem Serves.readAll
    (h : Serves s p r) :
    ∃ p', Descent.standard.program [] p =
        some (r.readAll.1, p') ∧
      Serves s p' r.readAll.2 := by
  cases h with
  | stopped hParser hReader =>
      rw [Reader.readAll, Reader.step_of_halted hReader,
        Descent.program_of_halted hParser]
      exact ⟨p, rfl, .stopped hParser hReader⟩
  | running hStands =>
      rw [Reader.readAll_eq_following]
      exact (Descent.follows_program [] hStands).serves
        fun e p' => Descent.halted_of_program hStands

------------------------------------------------------------
-- Sequences of calls
------------------------------------------------------------

/- An answer that is put into a reply. -/
theorem Serves.reply
    {β : Type}
    {x : Reading α}
    {f : α → β}
    {answer : Except ParseError α}
    (h : x p = some (answer, p')) :
    (x >>= fun a => pure (f a)) p = some (answer.map f, p') := by
  cases answer with
  | error e => exact bind_of_error h _
  | ok a => exact bind_of_ok h _

/- Every call. -/
theorem Serves.perform
    (h : Serves s p r)
    (c : Reader.Call) :
    ∃ p', Descent.standard.perform c p =
        some ((r.perform c).1, p') ∧
      Serves s p' (r.perform c).2 := by
  cases c with
  | prime =>
      rcases h.consume .standard "" with ⟨p', hAnswer, hServes⟩
      exact ⟨p', Serves.reply hAnswer, hServes⟩
  | readStatement =>
      rcases h.readStatement with ⟨p', hAnswer, hServes⟩
      exact ⟨p', Serves.reply hAnswer, hServes⟩
  | readAll =>
      rcases h.readAll with ⟨p', hAnswer, hServes⟩
      exact ⟨p', Serves.reply hAnswer, hServes⟩

/- All sequences of calls. -/
theorem Serves.replies
    (h : Serves s p r)
    (calls : List Reader.Call) :
    Descent.standard.replies p calls = some (r.replies calls) := by
  induction calls generalizing p r with
  | nil => rfl
  | cons c calls ih =>
      rcases h.perform c with ⟨p', hAnswer, hServes⟩
      rw [Descent.replies, hAnswer, Reader.replies]
      show Option.map _ (Descent.standard.replies p' calls) = _
      rw [ih hServes]
      rfl

end Steps

/-
  Whatever is asked of it, a parser that is supplied with the
  tokens of a source text one after the other gives the replies
  of the reader of the text.
-/
theorem Descent.replies_ofSource
    (source : String)
    (calls : List Reader.Call) :
    standard.replies (.ofStream (.ofSource source)) calls =
      some ((Reader.ofSource source).replies calls) :=
  (serves_ofSource source).replies calls

end DynScript
