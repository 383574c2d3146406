import DynScript.Proofs.Parse.Faults
import DynScript.Proofs.Parse.Yield

/-
  A program may be read in steps, and the steps in which it is
  read make no difference. Whatever is asked of a reader, it
  hands out the statements of its text from first to last, and
  it meets the fault of the text or none. A reader that has
  met the fault only reports that it has stopped.

  Key definitions include:
    * `Reader.Call`
    * `Reader.Reply`
    * `Reader.perform`
    * `Reader.replies`
    * `Reader.remaining`
    * `Reader.readable`
    * `Reader.Ready`
    * `Reader.Steps`
    * `Reader.Runs`

  Main statements include:
    * `Reader.steps_perform`
    * `Reader.runs_replies`
    * `Reader.replies_readStatement`
    * `readStatements_toUTF8`
    * `reading_in_steps`
-/

namespace DynScript

------------------------------------------------------------
-- Statements before a fault
------------------------------------------------------------

namespace Parse

variable {limit : Option Nat}
variable {ending : Ending}
variable {toks : List Token}

/- The statements that can be read one after the other. -/
def readable
    (limit : Option Nat)
    (ending : Ending)
    (toks : List Token) : Block :=
  match nextStatement limit ending toks with
  | .ok (some ⟨s, rest, _⟩) => s :: readable limit ending rest
  | _ => []
termination_by toks.length

theorem statements_of_next_some
    {s : Stmt}
    {rest : List Token}
    {hShorter : rest.length < toks.length}
    (h :
      nextStatement limit ending toks = .ok (some ⟨s, rest, hShorter⟩)) :
    statements limit ending toks =
      (statements limit ending rest).map (s :: ·) := by
  rw [statements, countedStatements, countedNext_eq, h, statements]
  show Except.map _ (countedStatements limit ending 0 rest >>= _) = _
  cases countedStatements limit ending 0 rest with
  | ok ss => rfl
  | error e => rfl

theorem statements_of_next_none
    (h : nextStatement limit ending toks = .ok none) :
    statements limit ending toks = .ok [] := by
  rw [statements, countedStatements, countedNext_eq, h]
  rfl

theorem statements_of_next_error
    {e : ParseError}
    (h : nextStatement limit ending toks = .error e) :
    statements limit ending toks = .error e := by
  rw [statements, countedStatements, countedNext_eq, h]
  rfl

theorem readable_of_next_some
    {s : Stmt}
    {rest : List Token}
    {hShorter : rest.length < toks.length}
    (h :
      nextStatement limit ending toks = .ok (some ⟨s, rest, hShorter⟩)) :
    readable limit ending toks = s :: readable limit ending rest := by
  rw [readable, h]

theorem readable_of_next_none
    (h : nextStatement limit ending toks = .ok none) :
    readable limit ending toks = [] := by
  rw [readable, h]

theorem readable_of_next_error
    {e : ParseError}
    (h : nextStatement limit ending toks = .error e) :
    readable limit ending toks = [] := by
  rw [readable, h]

/- Without a fault, all statements can be read. -/
theorem readable_of_statements
    (toks : List Token)
    (b : Block)
    (h : statements limit ending toks = .ok b) :
    readable limit ending toks = b := by
  rcases hNext : nextStatement limit ending toks with
    e | _ | ⟨s, rest, hShorter⟩
  · rw [statements_of_next_error hNext] at h
    cases h
  · rw [statements_of_next_none hNext] at h
    rw [readable_of_next_none hNext]
    exact Except.ok.inj h
  · rw [statements_of_next_some hNext] at h
    cases hRest : statements limit ending rest with
    | error e =>
        rw [hRest] at h
        cases h
    | ok ss =>
        rw [hRest] at h
        rw [readable_of_next_some hNext,
          readable_of_statements rest ss hRest]
        exact Except.ok.inj h
termination_by toks.length

end Parse

------------------------------------------------------------
-- Calls and replies
------------------------------------------------------------

namespace Reader

/- What can be asked of a reader whatever its text is. -/
inductive Call where
  | prime
  | readStatement
  | readAll
deriving DecidableEq

/- What is given back by a call that does not fail. -/
inductive Reply where
  | primed
  | statement (s? : Option Stmt)
  | program (b : Block)

namespace Reply

/- The statements of a reply. -/
def statements : Reply → Block
  | primed => []
  | statement s? => s?.toList
  | program b => b

/- A reply behind which no statement is left. -/
def isLast : Reply → Bool
  | primed => false
  | statement s? => s?.isNone
  | program _ => true

end Reply

/- The statements of replies one after the other. -/
def given
    (answers : List Reply) : Block :=
  answers.flatMap Reply.statements

/- One call, and the reader behind it. -/
def perform
    (r : Reader) : Call → Except ParseError Reply × Reader
  | .prime => Prod.map (Except.map fun _ => .primed) id (r.consume "")
  | .readStatement => Prod.map (Except.map .statement) id r.readStatement
  | .readAll => Prod.map (Except.map .program) id r.readAll

/- The replies of one reader to a sequence of calls. -/
def replies : Reader → List Call → List (Except ParseError Reply)
  | _, [] => []
  | r, c :: calls => (r.perform c).1 :: replies (r.perform c).2 calls

/- The program that is left to be read. -/
def remaining
    (r : Reader) : Except ParseError Block :=
  Parse.statements (some maxNesting) r.ending r.rest

/- The statements that are left before the end or the fault. -/
def readable
    (r : Reader) : Block :=
  Parse.readable (some maxNesting) r.ending r.rest

------------------------------------------------------------
-- Readers that have stopped
------------------------------------------------------------

theorem step_of_halted
    {α : Type}
    {r : Reader}
    (h : r.halted = true)
    (result : Except ParseError (α × Reader)) :
    r.step result = (.error .halted, r) := by
  unfold step
  rw [if_pos h]

theorem perform_of_halted
    {r : Reader}
    (h : r.halted = true)
    (c : Call) :
    r.perform c = (.error .halted, r) := by
  cases c with
  | prime =>
      rw [perform, consume, step_of_halted h]
      rfl
  | readStatement =>
      rw [perform, readStatement, step_of_halted h]
      rfl
  | readAll =>
      rw [perform, readAll, step_of_halted h]
      rfl

/- A reader that has stopped says so at every call. -/
theorem replies_of_halted
    {r : Reader}
    (h : r.halted = true)
    (calls : List Call) :
    r.replies calls = List.replicate calls.length (.error .halted) := by
  induction calls with
  | nil => rfl
  | cons c calls ih =>
      rw [replies, perform_of_halted h, ih]
      rfl

------------------------------------------------------------
-- One call
------------------------------------------------------------

/-
  A reader that has not stopped, outside all blocks. Between
  two calls no block is ever open.
-/
structure Ready
    (r : Reader) : Prop where
  running : r.halted = false
  outside : r.blocks = 0

theorem ready_ofSource
    (source : String) :
    (ofSource source).Ready :=
  ⟨rfl, rfl⟩

theorem Ready.leaving
    {r : Reader}
    (h : r.Ready)
    (rest : List Token) :
    ({ r with rest } : Reader).Ready :=
  ⟨h.running, h.outside⟩

theorem step_ok
    {α : Type}
    {r : Reader}
    (h : r.halted = false)
    (a : α)
    (behind : Reader) :
    r.step (.ok (a, behind)) = (.ok a, behind) := by
  simp [step, h]

theorem step_error
    {α : Type}
    {r : Reader}
    (h : r.halted = false)
    (e : ParseError) :
    r.step (.error e : Except ParseError (α × Reader)) =
      (.error e, { r with halted := true }) := by
  simp [step, h]

/-
  Priming changes nothing, unless the fault of the text stands
  right behind what has been read.
-/
theorem consume_empty
    {r : Reader}
    (h : r.halted = false) :
    r.consume "" = (.ok (), r) ∨
      ∃ e, r.consume "" = (.error e, { r with halted := true }) ∧
        r.remaining = .error e := by
  rcases r with ⟨_ | ⟨t, rest⟩, ending, halted, blocks⟩
  · cases ending with
    | endOfInput pos => exact .inl (step_ok h () _)
    | failed e =>
        refine .inr ⟨.lex e, step_error h (.lex e), ?_⟩
        exact Parse.statements_nil
  · exact .inl (step_ok h () _)

/- A reader that has not stopped reads all that is left. -/
theorem readAll_eq
    {r : Reader}
    (h : r.Ready) :
    (∃ b, r.readAll = (.ok b, { r with rest := [] }) ∧
        r.remaining = .ok b) ∨
      ∃ e, r.readAll = (.error e, { r with halted := true }) ∧
        r.remaining = .error e := by
  rcases r with ⟨rest, ending, halted, blocks⟩
  rcases h with ⟨rfl, rfl⟩
  rw [readAll, Parse.countedStatements_eq, remaining]
  dsimp only
  cases Parse.statements (some maxNesting) ending rest with
  | ok b => exact .inl ⟨b, step_ok rfl b _, rfl⟩
  | error e => exact .inr ⟨e, step_error rfl e, rfl⟩

/-
  What one call does to a reader that has not met the fault of
  its text. The call hands out a beginning of what is left, or
  it meets the fault, and then the reader has stopped.
-/
inductive Steps
    (r : Reader) : Except ParseError Reply × Reader → Prop where
  | answered
      {a : Reply}
      {r' : Reader}
      (hReady : r'.Ready)
      (hLeft : r.remaining = r'.remaining.map (a.statements ++ ·))
      (hReadable : r.readable = a.statements ++ r'.readable)
      (hLast : a.isLast = true → r'.remaining = .ok []) :
      Steps r (.ok a, r')
  | failed
      {e : ParseError}
      {r' : Reader}
      (hHalted : r'.halted = true)
      (hFault : r.remaining = .error e) :
      Steps r (.error e, r')

theorem remaining_map_nil
    (r : Reader) :
    r.remaining.map ([] ++ ·) = r.remaining := by
  cases r.remaining with
  | ok b => rfl
  | error e => rfl

theorem steps_prime
    {r : Reader}
    (h : r.Ready) :
    r.Steps (r.perform .prime) := by
  rw [perform]
  rcases consume_empty h.running with hPrimed | ⟨e, hFailed, hFault⟩
  · rw [hPrimed]
    refine .answered h r.remaining_map_nil.symm rfl ?_
    intro hLast
    cases hLast
  · rw [hFailed]
    exact .failed rfl hFault

/- Where all that is left has no fault, there is none at the end. -/
theorem remaining_at_end
    {r : Reader}
    {b : Block}
    (h : r.remaining = .ok b) :
    ({ r with rest := [] } : Reader).remaining = .ok [] := by
  rw [remaining, Parse.statements_nil, Parse.look_of_statements h]
  rfl

theorem readable_of_remaining
    {r : Reader}
    {b : Block}
    (h : r.remaining = .ok b) :
    r.readable = b :=
  Parse.readable_of_statements r.rest b h

/- A call that hands out all that is left. -/
theorem steps_to_end
    {r : Reader}
    {a : Reply}
    (h : r.Ready)
    (hLeft : r.remaining = .ok a.statements) :
    r.Steps (.ok a, { r with rest := [] }) := by
  have hEnd := remaining_at_end hLeft
  refine .answered (h.leaving []) ?_ ?_ fun _ => hEnd
  · rw [hLeft, hEnd, Except.map, List.append_nil]
  · rw [readable_of_remaining hLeft, readable_of_remaining hEnd,
      List.append_nil]

theorem readStatement_of_next_some
    {r : Reader}
    {s : Stmt}
    {rest : List Token}
    {hShorter : rest.length < r.rest.length}
    (h : r.Ready)
    (hNext : Parse.nextStatement (some maxNesting) r.ending r.rest =
      .ok (some ⟨s, rest, hShorter⟩)) :
    r.readStatement = (.ok (some s), { r with rest }) := by
  rcases r with ⟨toks, ending, halted, blocks⟩
  rcases h with ⟨rfl, rfl⟩
  rw [readStatement, Parse.countedNext_eq, hNext]
  exact step_ok rfl (some s) _

theorem readStatement_of_next_none
    {r : Reader}
    (h : r.Ready)
    (hNext :
      Parse.nextStatement (some maxNesting) r.ending r.rest =
        .ok none) :
    r.readStatement = (.ok none, { r with rest := [] }) := by
  rcases r with ⟨toks, ending, halted, blocks⟩
  rcases h with ⟨rfl, rfl⟩
  rw [readStatement, Parse.countedNext_eq, hNext]
  exact step_ok rfl none _

theorem readStatement_of_next_error
    {r : Reader}
    {e : ParseError}
    (h : r.Ready)
    (hNext :
      Parse.nextStatement (some maxNesting) r.ending r.rest =
        .error e) :
    r.readStatement = (.error e, { r with halted := true }) := by
  rcases r with ⟨toks, ending, halted, blocks⟩
  rcases h with ⟨rfl, rfl⟩
  rw [readStatement, Parse.countedNext_eq, hNext]
  exact step_error rfl e

theorem steps_readStatement
    {r : Reader}
    (h : r.Ready) :
    r.Steps (r.perform .readStatement) := by
  rw [perform]
  rcases hNext :
    Parse.nextStatement (some maxNesting) r.ending r.rest with
    e | _ | ⟨s, rest, hShorter⟩
  · rw [readStatement_of_next_error h hNext]
    exact .failed rfl (Parse.statements_of_next_error hNext)
  · rw [readStatement_of_next_none h hNext]
    exact steps_to_end h (Parse.statements_of_next_none hNext)
  · rw [readStatement_of_next_some h hNext]
    refine .answered (h.leaving rest)
      (Parse.statements_of_next_some hNext)
      (Parse.readable_of_next_some hNext) ?_
    intro hLast
    cases hLast

theorem steps_readAll
    {r : Reader}
    (h : r.Ready) :
    r.Steps (r.perform .readAll) := by
  rw [perform]
  rcases readAll_eq h with ⟨b, hRead, hLeft⟩ | ⟨e, hFailed, hFault⟩
  · rw [hRead]
    exact steps_to_end h hLeft
  · rw [hFailed]
    exact .failed rfl hFault

/- Every call of a reader that has not stopped. -/
theorem steps_perform
    {r : Reader}
    (h : r.Ready)
    (c : Call) :
    r.Steps (r.perform c) := by
  cases c with
  | prime => exact steps_prime h
  | readStatement => exact steps_readStatement h
  | readAll => exact steps_readAll h

------------------------------------------------------------
-- Sequences of calls
------------------------------------------------------------

/-
  The replies of a reader that has not met the fault of its
  text. Either no call meets it, and the calls leave the
  reader `r'`, or the fault is the reply to the first call that
  meets it, and the reader has stopped for all others.
-/
inductive Runs
    (r : Reader) : List (Except ParseError Reply) → Prop where
  | answered
      (answers : List Reply)
      (r' : Reader)
      (hLeft : r.remaining = r'.remaining.map (given answers ++ ·))
      (hReadable : r.readable = given answers ++ r'.readable)
      (hLast : ∀ a ∈ answers, a.isLast = true → r'.remaining = .ok []) :
      Runs r (answers.map .ok)
  | failed
      (answers : List Reply)
      (e : ParseError)
      (n : Nat)
      (hFault : r.remaining = .error e)
      (hReadable : given answers <+: r.readable)
      (hLast : ∀ a ∈ answers, a.isLast = false) :
      Runs r
        (answers.map .ok ++ .error e :: List.replicate n (.error .halted))

theorem given_cons
    (a : Reply)
    (answers : List Reply) :
    given (a :: answers) = a.statements ++ given answers :=
  List.flatMap_cons

/- A program that is read behind other statements. -/
theorem eq_ok_of_map_append
    {left : Except ParseError Block}
    {ss b : Block}
    (h : left.map (ss ++ ·) = .ok b) :
    ∃ later, left = .ok later ∧ ss ++ later = b := by
  cases left with
  | ok later => exact ⟨later, rfl, Except.ok.inj h⟩
  | error e => cases h

/- Where nothing was left before a call, nothing is left behind it. -/
theorem eq_ok_nil_of_map_append
    {left : Except ParseError Block}
    {ss : Block}
    (h : left.map (ss ++ ·) = .ok []) :
    left = .ok [] := by
  rcases eq_ok_of_map_append h with ⟨later, hLater, hNil⟩
  rw [hLater, (List.append_eq_nil_iff.mp hNil).2]

/- One call that is answered before others. -/
theorem Runs.cons
    {r r' : Reader}
    {a : Reply}
    {later : List (Except ParseError Reply)}
    (hLeft : r.remaining = r'.remaining.map (a.statements ++ ·))
    (hReadable : r.readable = a.statements ++ r'.readable)
    (hLast : a.isLast = true → r'.remaining = .ok [])
    (h : r'.Runs later) :
    r.Runs (.ok a :: later) := by
  cases h with
  | answered answers r'' hLeft' hReadable' hLast' =>
      refine .answered (a :: answers) r'' ?_ ?_ ?_
      · rw [hLeft, hLeft', given_cons]
        cases r''.remaining with
        | ok b => simp [Except.map]
        | error e => rfl
      · rw [hReadable, hReadable', given_cons, List.append_assoc]
      · intro a' hMem hLastReply
        rcases List.mem_cons.mp hMem with rfl | hLater
        · exact eq_ok_nil_of_map_append
            (hLeft'.symm.trans (hLast hLastReply))
        · exact hLast' a' hLater hLastReply
  | failed answers e n hFault hReadable' hLast' =>
      refine .failed (a :: answers) e n ?_ ?_ ?_
      · rw [hLeft, hFault]
        rfl
      · rw [hReadable, given_cons]
        exact (List.prefix_append_right_inj _).mpr hReadable'
      · intro a' hMem
        rcases List.mem_cons.mp hMem with rfl | hLater
        · -- Behind a last reply there is no fault to meet.
          rw [Bool.eq_false_iff]
          intro hLastReply
          rw [hLast hLastReply] at hFault
          cases hFault
        · exact hLast' a' hLater

/- All sequences of calls. -/
theorem runs_replies
    {r : Reader}
    (h : r.Ready)
    (calls : List Call) :
    r.Runs (r.replies calls) := by
  induction calls generalizing r with
  | nil =>
      refine .answered [] r r.remaining_map_nil.symm rfl ?_
      intro a hMem
      cases hMem
  | cons c calls ih =>
      rw [replies]
      cases hStep : r.perform c with
      | mk reply r' =>
      cases hStep ▸ steps_perform h c with
      | answered hReady hLeft hReadable hLast =>
          exact .cons hLeft hReadable hLast (ih hReady)
      | @failed e _ hHalted hFault =>
          rw [replies_of_halted hHalted]
          refine .failed [] e calls.length hFault List.nil_prefix ?_
          intro a hMem
          cases hMem

/- The replies where what is left has no fault. -/
theorem Runs.of_remaining_ok
    {r : Reader}
    {b : Block}
    {results : List (Except ParseError Reply)}
    (h : r.Runs results)
    (hLeft : r.remaining = .ok b) :
    ∃ answers,
      results = answers.map .ok ∧
      given answers <+: b ∧
      ∀ a ∈ answers, a.isLast = true → given answers = b := by
  cases h with
  | answered answers r' hStep hReadable hLast =>
      rcases eq_ok_of_map_append (hStep.symm.trans hLeft) with
        ⟨later, hLater, hWhole⟩
      refine ⟨answers, rfl, ⟨later, hWhole⟩, ?_⟩
      intro a hMem hLastReply
      have hNil : later = [] :=
        Except.ok.inj (hLater.symm.trans (hLast a hMem hLastReply))
      rw [← hWhole, hNil, List.append_nil]
  | failed answers e n hFault hReadable hLast =>
      rw [hFault] at hLeft
      cases hLeft

/- The replies where what is left has a fault. -/
theorem Runs.of_remaining_error
    {r : Reader}
    {e : ParseError}
    {results : List (Except ParseError Reply)}
    (h : r.Runs results)
    (hFault : r.remaining = .error e) :
    ∃ answers,
      given answers <+: r.readable ∧
      (∀ a ∈ answers, a.isLast = false) ∧
      (results = answers.map .ok ∨
        ∃ n, results =
          answers.map .ok ++ .error e ::
            List.replicate n (.error .halted)) := by
  cases h with
  | answered answers r' hStep hReadable hLast =>
      refine ⟨answers, ⟨_, hReadable.symm⟩, ?_, .inl rfl⟩
      intro a hMem
      rw [Bool.eq_false_iff]
      intro hLastReply
      rw [hStep, hLast a hMem hLastReply] at hFault
      cases hFault
  | failed answers e' n hFault' hReadable hLast =>
      rcases Except.error.inj (hFault'.symm.trans hFault) with rfl
      exact ⟨answers, hReadable, hLast, .inr ⟨n, rfl⟩⟩

/-
  Statements that are read one at a time, up to the end of the
  text or its fault.
-/
theorem replies_readStatement
    (r : Reader)
    (h : r.Ready) :
    r.replies (List.replicate (r.readable.length + 1) .readStatement) =
      r.readable.map (fun s => .ok (.statement (some s)))
        ++ [r.remaining.map fun _ => .statement none] := by
  rcases hNext :
    Parse.nextStatement (some maxNesting) r.ending r.rest with
    e | _ | ⟨s, rest, hShorter⟩
  · have hNone : r.readable = [] := Parse.readable_of_next_error hNext
    have hFault : r.remaining = .error e :=
      Parse.statements_of_next_error hNext
    rw [hNone, hFault]
    simp [replies, perform, readStatement_of_next_error h hNext,
      Except.map]
  · have hNone : r.readable = [] := Parse.readable_of_next_none hNext
    have hLeft : r.remaining = .ok [] :=
      Parse.statements_of_next_none hNext
    rw [hNone, hLeft]
    simp [replies, perform, readStatement_of_next_none h hNext,
      Except.map]
  · let r' : Reader := { r with rest }
    have hSome : r.readable = s :: r'.readable :=
      Parse.readable_of_next_some hNext
    have hLeft : r.remaining = r'.remaining.map (s :: ·) :=
      Parse.statements_of_next_some hNext
    rw [hSome, hLeft, List.length_cons, List.replicate_succ, replies,
      perform, readStatement_of_next_some h hNext]
    dsimp only [Prod.map, Except.map, id_eq]
    rw [replies_readStatement r' (h.leaving rest)]
    cases r'.remaining with
    | ok b => rfl
    | error e => rfl
termination_by r.rest.length

end Reader

------------------------------------------------------------
-- Whole texts in steps
------------------------------------------------------------

/- The bytes of a text are read as the text. -/
theorem Reader.ofBytes_toUTF8
    (source : String) :
    Reader.ofBytes source.toUTF8 = .ok (Reader.ofSource source) := by
  have hText : String.fromUTF8? source.toUTF8 = some source := by
    unfold String.fromUTF8?
    exact dif_pos source.isValidUTF8
  rw [Reader.ofBytes, Text.decode, hText]

/- What is left to be read at the beginning is the whole program. -/
theorem Reader.remaining_ofSource
    (source : String) :
    (Reader.ofSource source).remaining = parse source :=
  rfl

/- Looking ahead first makes no difference to what is read. -/
theorem readStatements_toUTF8
    (source : String) :
    readStatements source.toUTF8 = parse source := by
  rw [readStatements, Reader.ofBytes_toUTF8, ok_bind,
    ← Reader.remaining_ofSource]
  have hReady := Reader.ready_ofSource source
  rcases Reader.consume_empty hReady.running with
    hPrimed | ⟨e, hFailed, hFault⟩
  · rw [hPrimed]
    rcases Reader.readAll_eq hReady with
      ⟨b, hRead, hLeft⟩ | ⟨e, hFailed, hFault⟩
    · simp [hRead, hLeft]
    · simp [hFailed, hFault]
  · simp [hFailed, hFault]

/-
  However a text is read, its statements come in their order.
  If it is a program, no call fails, and all statements have
  been handed out once the reader has found the end. Otherwise
  the first call that fails meets the fault of the text, all
  others report that the reader has stopped, and no statement
  is handed out that would not also be read alone.
-/
theorem reading_in_steps
    (source : String) :
    (match parse source with
    | .ok b =>
      (Reader.ofSource source).replies
          (List.replicate (b.length + 1) .readStatement) =
        b.map (fun s => .ok (.statement (some s))) ++
          [.ok (.statement none)] ∧
      ∀ calls, ∃ answers,
        (Reader.ofSource source).replies calls = answers.map .ok ∧
        Reader.given answers <+: b ∧
        ∀ a ∈ answers, a.isLast = true → Reader.given answers = b
    | .error e =>
      e ≠ .halted ∧
      ∃ ss,
        (Reader.ofSource source).replies
            (List.replicate (ss.length + 1) .readStatement) =
          ss.map (fun s => .ok (.statement (some s))) ++ [.error e] ∧
        ∀ calls, ∃ answers,
          Reader.given answers <+: ss ∧
          (∀ a ∈ answers, a.isLast = false) ∧
          ((Reader.ofSource source).replies calls = answers.map .ok ∨
            ∃ n, (Reader.ofSource source).replies calls =
              answers.map .ok ++ .error e ::
                List.replicate n (.error .halted))) ∧
      readStatements source.toUTF8 = parse source := by
  refine ⟨?_, readStatements_toUTF8 source⟩
  have hReady := Reader.ready_ofSource source
  have hAlone := Reader.replies_readStatement _ hReady
  rw [Reader.remaining_ofSource] at hAlone
  cases hParse : parse source with
  | ok b =>
      have hAll : (Reader.ofSource source).readable = b :=
        Reader.readable_of_remaining hParse
      rw [hParse, hAll] at hAlone
      refine ⟨hAlone, fun calls => ?_⟩
      exact (Reader.runs_replies hReady calls).of_remaining_ok hParse
  | error e =>
      rw [hParse] at hAlone
      refine ⟨?_, (Reader.ofSource source).readable, hAlone,
        fun calls => ?_⟩
      · rintro rfl
        cases Parse.placed_statements _ _ hParse
      · exact (Reader.runs_replies hReady calls).of_remaining_error hParse

end DynScript
