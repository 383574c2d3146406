import DynScript.Cli.Outcome
import DynScript.Proofs.Cli.Lines
import DynScript.Proofs.Eval.Limits
import DynScript.Proofs.Parse.RoundTrip
import DynScript.Proofs.Parse.Trimming

/-
  A dialogue and a session. A session is a host program that
  runs programs one after the other on one machine; what it
  shows is fixed by the results of the runs and by what they
  add to the output. A dialogue evaluates trimmed texts and
  forgets what was written after each of them, and still shows
  what the session with the programs of the lines shows. Which
  lines these are is up to a line editor.

  Key definitions include:
    * `Cli.Entry`
    * `Cli.Session`
    * `Restriction.ofHistory`

  Main statements include:
    * `Cli.Session.unique`
    * `Cli.replay_entries`
    * `Cli.outcomeWith_delivered`
    * `Cli.dialogue_is_session`
-/

namespace DynScript

namespace Cli

------------------------------------------------------------
-- The end of a line
------------------------------------------------------------

/- The end of a line opens and closes no brackets. -/
theorem bracketDepth_append_feed
    (text : String) :
    bracketDepth (text ++ "\n") = bracketDepth text := by
  have hNext : ∀ b : BracketCount, (b.next '\n').depth = b.depth := by
    intro b
    rcases b with ⟨depth, _ | q, previous⟩
    · rfl
    · rfl
  rw [bracketDepth, bracketDepth, String.toList_append, List.foldl_append]
  exact hNext _

/- The end of a line is trimmed away. -/
theorem trim_append_feed
    (text : String) :
    Text.trim (text ++ "\n") = Text.trim text := by
  have hChars : ∀ cs : List Char,
      Text.trimChars (cs ++ ['\n']) = Text.trimChars cs := by
    intro cs
    have hFeed : Text.isBlank '\n' = true := by decide
    rw [Text.trimChars, Text.trimChars, List.dropWhile_append]
    cases cs.dropWhile Text.isBlank with
    | nil => rfl
    | cons c rest => simp [hFeed]
  rw [Text.trim, Text.trim, String.toList_append]
  exact congrArg String.ofList (hChars text.toList)

end Cli

------------------------------------------------------------
-- Forgetting what was written
------------------------------------------------------------

/- A text that is written without a limit is written in full. -/
theorem Sink.write_of_no_limit
    {s : Sink}
    (h : s.limit = none)
    (text : String) :
    s.write text =
      (true, { s with written := s.written ++ text.toUTF8 }) :=
  Sink.write_of_fits fun n hn => by
    rw [h] at hn
    cases hn

namespace Restriction

/-
  The second machine has written something before that the
  first knows nothing of. Neither has a limit for its output,
  so that none is ever stopped.
-/
def ofHistory
    (before : ByteArray)
    (calls : Nat) : Restriction where
  level := fun s t =>
    s.limit = none ∧ t.limit = none ∧
      ∃ text : String, s.written = text.toUTF8 ∧
        t.written = before ++ text.toUTF8
  behind := fun _ _ => False
  stops := fun _ => False
  low := calls
  high := calls

theorem fair_ofHistory
    (before : ByteArray)
    (calls : Nat) :
    (ofHistory before calls).Fair where
  write := by
    rintro s t text ⟨hLimit, hLimit', front, hFirst, hSecond⟩
    rw [Sink.write_of_no_limit hLimit, Sink.write_of_no_limit hLimit']
    refine .inl ⟨rfl, hLimit, hLimit', front ++ text, ?_, ?_⟩
    · exact (congrArg (· ++ text.toUTF8) hFirst).trans
        String.toByteArray_append.symm
    · refine (congrArg (· ++ text.toUTF8) hSecond).trans ?_
      rw [ByteArray.append_assoc]
      exact congrArg (before ++ ·) String.toByteArray_append.symm
  grow := fun hBehind => hBehind.elim
  calls := .inl rfl

/-
  A program has the same result whatever was written before it,
  and the text that it adds to what was written is the text
  that it writes where nothing was. With that text forgotten,
  the machines can go on in the same way.
-/
theorem run_ofHistory
    {m n : Machine}
    {calls : Nat}
    (h : (ofHistory n.sink.written calls).InStep m n)
    (b : Block) :
    (m.run b).1 = (n.run b).1 ∧
      ∃ text : String,
        (m.run b).2.sink.written = text.toUTF8 ∧
        (n.run b).2.sink.written = n.sink.written ++ text.toUTF8 ∧
        (ofHistory (n.run b).2.sink.written calls).InStep
          (m.run b).2.clearOutput (n.run b).2 := by
  rcases (fair_ofHistory _ _).run h b with
    ⟨hResult, hStep⟩ | ⟨_, hNever, _⟩
  · rcases hStep.sink with ⟨hLimit, hLimit', text, hFirst, hSecond⟩
    refine ⟨hResult, text, hFirst, hSecond, ?_⟩
    refine ⟨hStep.env, hStep.calls, hStep.identity, ?_, hStep.low,
      hStep.high⟩
    refine ⟨?_, hLimit', "", rfl, ByteArray.append_empty.symm⟩
    change (m.run b).2.sink.limit.map _ = none
    rw [hLimit]
    rfl
  · exact hNever.elim

end Restriction

namespace Cli

------------------------------------------------------------
-- Sessions
------------------------------------------------------------

/-
  What is shown when programs are run one after the other on
  one machine, each on the state that the one before it left,
  also if that one failed: what each of them adds to the
  output, then its value, unless it is nil; and a line for each
  of them that fails.
-/
inductive Session : Machine → List Block → Transcript → Prop where
  | done
      (m : Machine) :
      Session m [] ⟨"", ""⟩
  | quiet
      {m m' : Machine} {b : Block} {bs : List Block}
      {text out err : String}
      (hRun : m.run b = (.ok .nil, m'))
      (hText : m'.sink.written = m.sink.written ++ text.toUTF8)
      (hLater : Session m' bs ⟨out, err⟩) :
      Session m (b :: bs) ⟨text ++ out, err⟩
  | value
      {m m' : Machine} {b : Block} {bs : List Block} {v : Value}
      {text out err : String}
      (hRun : m.run b = (.ok v, m'))
      (hValue : v ≠ .nil)
      (hText : m'.sink.written = m.sink.written ++ text.toUTF8)
      (hLater : Session m' bs ⟨out, err⟩) :
      Session m (b :: bs) ⟨text ++ v.display ++ "\n" ++ out, err⟩
  | fault
      {m m' : Machine} {b : Block} {bs : List Block} {e : RuntimeError}
      {text out err : String}
      (hRun : m.run b = (.error e, m'))
      (hText : m'.sink.written = m.sink.written ++ text.toUTF8)
      (hLater : Session m' bs ⟨out, err⟩) :
      Session m (b :: bs)
        ⟨text ++ out, "Runtime error: " ++ e.message ++ "\n" ++ err⟩

/- Transcripts are put together channel by channel. -/
theorem Transcript.append_mk
    (out err out' err' : String) :
    (⟨out, err⟩ ++ ⟨out', err'⟩ : Transcript) =
      ⟨out ++ out', err ++ err'⟩ :=
  rfl

theorem Transcript.append_assoc
    (s t u : Transcript) :
    s ++ t ++ u = s ++ (t ++ u) :=
  congrArg₂ Transcript.mk (String.append_assoc ..)
    (String.append_assoc ..)

/- The value that is shown for a result that is not nil. -/
theorem showResult_of_ne_nil
    {v : Value}
    (h : v ≠ .nil) :
    showResult (.ok v) = ⟨v.display ++ "\n", ""⟩ := by
  cases v with
  | nil => exact absurd rfl h
  | _ => rfl

/- A session is a run of its first program and a session behind it. -/
theorem session_cons_iff
    {m : Machine}
    {b : Block}
    {bs : List Block}
    {shown : Transcript} :
    Session m (b :: bs) shown ↔
      ∃ (text : String) (later : Transcript),
        (m.run b).2.sink.written = m.sink.written ++ text.toUTF8 ∧
        Session (m.run b).2 bs later ∧
        shown = .ofOut text ++ showResult (m.run b).1 ++ later := by
  rcases hRun : m.run b with ⟨result, m'⟩
  constructor
  · intro h
    cases h with
    | quiet hRun' hText hLater =>
        cases hRun.symm.trans hRun'
        refine ⟨_, _, hText, hLater, ?_⟩
        simp [showResult, Transcript.ofOut, Transcript.empty,
          Transcript.append_mk]
    | value hRun' hValue hText hLater =>
        cases hRun.symm.trans hRun'
        refine ⟨_, _, hText, hLater, ?_⟩
        simp [showResult_of_ne_nil hValue, Transcript.ofOut,
          Transcript.append_mk, String.append_assoc]
    | fault hRun' hText hLater =>
        cases hRun.symm.trans hRun'
        refine ⟨_, _, hText, hLater, ?_⟩
        simp [showResult, Transcript.ofOut, Transcript.ofErr,
          Transcript.append_mk]
  · rintro ⟨text, ⟨out, err⟩, hText, hLater, rfl⟩
    rcases result with e | v
    · simpa [showResult, Transcript.ofOut, Transcript.ofErr,
        Transcript.append_mk] using Session.fault hRun hText hLater
    · by_cases hNil : v = .nil
      · subst hNil
        simpa [showResult, Transcript.ofOut, Transcript.empty,
          Transcript.append_mk] using Session.quiet hRun hText hLater
      · simpa [showResult_of_ne_nil hNil, Transcript.ofOut,
          Transcript.append_mk, String.append_assoc]
          using Session.value hRun hNil hText hLater

/- What a session shows is fixed by its programs. -/
theorem Session.unique
    {m : Machine}
    {bs : List Block}
    {s t : Transcript}
    (hFirst : Session m bs s)
    (hSecond : Session m bs t) :
    s = t := by
  induction bs generalizing m s t with
  | nil =>
      cases hFirst
      cases hSecond
      rfl
  | cons b bs ih =>
      rcases session_cons_iff.mp hFirst with
        ⟨text, later, hText, hLater, rfl⟩
      rcases session_cons_iff.mp hSecond with
        ⟨text', later', hText', hLater', rfl⟩
      have hSame : text = text' :=
        String.toByteArray_inj.mp
          ((ByteArray.append_right_inj _).mp (hText.symm.trans hText'))
      rw [hSame, ih hLater hLater']

------------------------------------------------------------
-- Entries
------------------------------------------------------------

/-
  A text that is a program by itself and is taken for nothing
  else: it is not blank, does not ask to quit and leaves no
  brackets open for the count.
-/
structure Entry
    (text : String)
    (b : Block) : Prop where
  program : parse text = .ok b
  notBlank : Text.trim text ≠ ""
  notQuit : Text.trim text ≠ "quit"
  notExit : Text.trim text ≠ "exit"
  closed : bracketDepth text ≤ 0

/- An entry is evaluated at once, as the program that it is. -/
theorem Entry.step
    {text : String}
    {b : Block}
    (h : Entry text b)
    (m : Machine) :
    Dialogue.step ⟨m, none⟩ text =
      ((runShown m b).2.1, some ⟨(runShown m b).2.2, none⟩) := by
  have hOpen : ¬ 0 < bracketDepth (text ++ "\n") := by
    rw [bracketDepth_append_feed]
    exact Int.not_lt.mpr h.closed
  have hProgram : parse (Text.trim (text ++ "\n")) = .ok b := by
    rw [trim_append_feed]
    exact parse_trim h.program
  have hGoes : ¬ (Text.trim text = "quit" ∨ Text.trim text = "exit") := by
    simp [h.notQuit, h.notExit]
  simp only [Dialogue.step, if_neg h.notBlank, if_neg hGoes,
    Dialogue.submit, if_neg hOpen, evaluate, hProgram]

/- What a machine has written is shown as the text that it is. -/
theorem outputText_of_written
    {m : Machine}
    {text : String}
    (h : m.sink.written = text.toUTF8) :
    outputText m = text := by
  have hText : String.fromUTF8? text.toUTF8 = some text := by
    unfold String.fromUTF8?
    exact dif_pos text.isValidUTF8
  rw [outputText, h, hText]
  rfl

/-
  A dialogue over entries shows what the session with their
  programs shows, and takes its leave. By induction on the
  entries: both machines are kept alike but for what was
  written before.
-/
theorem replay_entries
    {texts : List String}
    {programs : List Block}
    (hEntries : List.Forall₂ Entry texts programs)
    {m n : Machine}
    {calls : Nat}
    (hStep :
      (Restriction.ofHistory n.sink.written calls).InStep m n) :
    ∃ shown, Session n programs shown ∧
      Dialogue.replay ⟨m, none⟩ (texts.map some) =
        .success (shown ++ Dialogue.farewell) := by
  induction hEntries generalizing m n with
  | nil => exact ⟨_, .done n, rfl⟩
  | @cons line b texts programs hEntry hOthers ih =>
      rcases Restriction.run_ofHistory hStep b with
        ⟨hResult, text, hWritten, hAdded, hNext⟩
      rcases ih hNext with ⟨later, hLater, hReplay⟩
      refine ⟨_, session_cons_iff.mpr
        ⟨text, later, hAdded, hLater, rfl⟩, ?_⟩
      rw [List.map_cons, Dialogue.replay, hEntry.step]
      simp only [runShown]
      rw [hReplay, outputText_of_written hWritten, hResult]
      simp only [Outcome.behind, Outcome.success,
        Transcript.append_assoc]

/- The machine on which a dialogue and a session begin. -/
def freshMachine : Machine :=
  .fresh .empty defaultMaxDepth none 0

/-
  Whatever the editor does with an input: where it delivers
  entries, the session with their programs is shown.
-/
theorem outcomeWith_delivered
    {editor : Editor}
    {input : String}
    {texts : List String}
    {programs : List Block}
    (read : String → Except ReadError ByteArray)
    (hDelivered : editor input = texts.map some)
    (hEntries : List.Forall₂ Entry texts programs) :
    ∃ shown, Session freshMachine programs shown ∧
      outcomeWith editor read input [] =
        ⟨0, banner ++ shown ++ Dialogue.farewell⟩ := by
  have hStart : (Restriction.ofHistory freshMachine.sink.written
      defaultMaxDepth).InStep freshMachine freshMachine :=
    ⟨rfl, rfl, rfl, ⟨rfl, rfl, "", rfl, rfl⟩, rfl, rfl⟩
  rcases replay_entries hEntries hStart with
    ⟨shown, hSession, hReplay⟩
  refine ⟨shown, hSession, ?_⟩
  have hCommand : Command.ofArgs? [] = some .repl := by decide
  rw [outcomeWith, hCommand]
  change dialogue editor input = _
  rw [dialogue, hDelivered, Transcript.append_assoc]
  exact congrArg (Outcome.behind banner) hReplay

/-
  A line is run as the program that it is without its outer
  blanks. What a dialogue shows for plain lines that are
  programs is its head, what the session with their programs
  shows, and its farewell; and this is the only thing that the
  session shows. Of the editor it is only known that it
  delivers plain lines as they are typed.
-/
theorem dialogue_is_session
    {editor : Editor}
    {ls : List String}
    {programs : List Block}
    (hEditor : editor.DeliversPlain)
    (read : String → Except ReadError ByteArray)
    (hLines : ∀ line ∈ ls, Plain line)
    (hEntries : List.Forall₂ Entry ls programs) :
    ∃ out err,
      (∀ shown,
        Session (.fresh .empty defaultMaxDepth none 0) programs shown ↔
          shown = ⟨out, err⟩) ∧
      outcomeWith editor read (typed ls) [] =
        ⟨0, "funny v0.1.0\nType 'quit' to exit\n\n" ++ out ++
          "Goodbye!\n", err⟩ := by
  rcases outcomeWith_delivered read (hEditor ls hLines) hEntries with
    ⟨⟨out, err⟩, hSession, hOutcome⟩
  refine ⟨out, err, fun shown => ⟨fun h => h.unique hSession, ?_⟩, ?_⟩
  · rintro rfl
    exact hSession
  · rw [hOutcome]
    have hHead :
        banner = ⟨"funny v0.1.0\nType 'quit' to exit\n\n", ""⟩ :=
      congrArg (Transcript.mk · "") (by decide)
    have hShown :
        banner ++ ⟨out, err⟩ ++ Dialogue.farewell =
          ⟨"funny v0.1.0\nType 'quit' to exit\n\n" ++ out ++
            "Goodbye!\n", "" ++ err ++ ""⟩ :=
      hHead ▸ rfl
    rw [hShown, String.empty_append, String.append_empty]

/-
  A line with blanks, a line that fails behind its output, and
  a line with a comment.
-/
theorem dialogue_of_three_lines :
    let ls :=
      ["\tn = 'it' //\u00a0", "(echo(n) / 0)", "n // 'end'"]
    let programs : List Block :=
      [[.assign "n" (.str "it")],
        [.expr (.binary .div (.call "echo" [.var "n"]) (.int 0))],
        [.expr (.var "n")]]
    pipeEditor.DeliversPlain ∧
    (∀ line ∈ ls, Plain line) ∧
    List.Forall₂ Entry ls programs ∧
    outcomeWith pipeEditor (fun _ => .error .notFound) (typed ls) [] =
      ⟨0, "funny v0.1.0\nType 'quit' to exit\n\n" ++ "itit\n" ++
        "Goodbye!\n",
        "Runtime error: cannot apply `/` to nil and int\n"⟩ := by
  intro ls programs
  have hLines : ∀ line ∈ ls, Plain line := by
    have hDecided : ∀ line ∈ ls, '\n' ∉ line.toList ∧
        line.toList.getLast? ≠ some '\r' ∧ '\x08' ∉ line.toList := by
      decide
    intro line hMem
    rcases hDecided line hMem with ⟨hFeed, hReturn, hBackspace⟩
    exact ⟨hFeed, hReturn, hBackspace⟩
  have hSession : Session (.fresh .empty defaultMaxDepth none 0) programs
      ⟨"itit\n", "Runtime error: cannot apply `/` to nil and int\n"⟩ := by
    refine @Session.quiet _ _ _ _ "" "itit\n" _ rfl rfl ?_
    refine @Session.fault _ _ _ _ (.typeMismatch .div .nil .int) "it"
      "it\n" "" rfl rfl ?_
    refine @Session.value _ _ _ _ (.str "it") "" "" _ rfl (by simp) rfl
      ?_
    exact .done _
  have hFirst : Entry "\tn = 'it' //\u00a0" [.assign "n" (.str "it")] :=
    { program := parse_of_kinds
        [⟨.ident "n", "n", ⟨1, 2, 1⟩⟩,
          ⟨.symbol .assign, "=", ⟨1, 4, 3⟩⟩,
          ⟨.str "it", "'it'", ⟨1, 6, 5⟩⟩]
        ⟨1, 14, 14⟩ (by cbv) rfl (by decide +kernel)
      notBlank := by decide
      notQuit := by decide
      notExit := by decide
      closed := by decide }
  have hSecond : Entry "(echo(n) / 0)"
      [.expr (.binary .div (.call "echo" [.var "n"]) (.int 0))] :=
    { program := parse_of_kinds
        [⟨.symbol .parenL, "(", ⟨1, 1, 0⟩⟩,
          ⟨.ident "echo", "echo", ⟨1, 2, 1⟩⟩,
          ⟨.symbol .parenL, "(", ⟨1, 6, 5⟩⟩,
          ⟨.ident "n", "n", ⟨1, 7, 6⟩⟩,
          ⟨.symbol .parenR, ")", ⟨1, 8, 7⟩⟩,
          ⟨.symbol .slash, "/", ⟨1, 10, 9⟩⟩,
          ⟨.int 0, "0", ⟨1, 12, 11⟩⟩,
          ⟨.symbol .parenR, ")", ⟨1, 13, 12⟩⟩]
        ⟨1, 14, 13⟩ (by cbv) rfl (by decide +kernel)
      notBlank := by decide
      notQuit := by decide
      notExit := by decide
      closed := by decide }
  have hThird : Entry "n // 'end'" [.expr (.var "n")] :=
    { program := parse_of_kinds
        [⟨.ident "n", "n", ⟨1, 1, 0⟩⟩]
        ⟨1, 11, 10⟩ (by cbv) rfl (by decide +kernel)
      notBlank := by decide
      notQuit := by decide
      notExit := by decide
      closed := by decide }
  have hEntries : List.Forall₂ Entry ls programs :=
    .cons hFirst (.cons hSecond (.cons hThird .nil))
  refine ⟨deliversPlain_pipeEditor, hLines, hEntries, ?_⟩
  rcases dialogue_is_session deliversPlain_pipeEditor
    (fun _ => .error .notFound) hLines hEntries with
    ⟨out, err, hOnly, hOutcome⟩
  cases (hOnly _).mp hSession
  exact hOutcome

/-
  A backspace in a string makes another program of a line that
  is piped in: as it is typed the line is a program with a
  letter and a backspace in its value, but what is run has
  neither.
-/
theorem backspace_changes_program :
    let line := "'a\x08'"
    let program : Block := [.expr (.str "a\x08")]
    ('\n' ∉ line.toList ∧ line.toList.getLast? ≠ some '\r') ∧
    Entry line program ∧
    (∀ shown,
      Session (.fresh .empty defaultMaxDepth none 0) [program] shown ↔
        shown = ⟨"a\x08\n", ""⟩) ∧
    outcome (fun _ => .error .notFound) (typed [line]) [] ≠
      ⟨0, "funny v0.1.0\nType 'quit' to exit\n\n" ++ "a\x08\n" ++
        "Goodbye!\n", ""⟩ := by
  intro line program
  have hLine :
      '\n' ∉ line.toList ∧ line.toList.getLast? ≠ some '\r' := by
    decide
  have hEntry : Entry line program :=
    { program := parse_of_kinds
        [⟨.str "a\x08", "'a\x08'", ⟨1, 1, 0⟩⟩]
        ⟨1, 5, 4⟩ (by cbv) rfl (by decide +kernel)
      notBlank := by decide
      notQuit := by decide
      notExit := by decide
      closed := by decide }
  have hTyped : Session freshMachine [program] ⟨"a\x08\n", ""⟩ :=
    @Session.value _ _ _ _ (.str "a\x08") "" "" _ rfl (by simp) rfl
      (.done _)
  refine ⟨hLine, hEntry, fun shown => ⟨fun h => h.unique hTyped, ?_⟩, ?_⟩
  · rintro rfl
    exact hTyped
  intro hSame
  -- What is delivered is the empty string, and its session shows less.
  have hSettled : settle line.toList = some "''" := by
    decide +kernel
  have hDelivered : pipeEditor (typed [line]) = ["''"].map some := by
    rw [pipeEditor_typed_cons hLine.1 hLine.2, hSettled]
    rfl
  have hEmpty : Entry "''" [.expr (.str "")] :=
    { program := parse_of_kinds [⟨.str "", "''", ⟨1, 1, 0⟩⟩]
        ⟨1, 3, 2⟩ (by cbv) rfl (by decide +kernel)
      notBlank := by decide
      notQuit := by decide
      notExit := by decide
      closed := by decide }
  have hShown : Session freshMachine [[.expr (.str "")]] ⟨"\n", ""⟩ :=
    @Session.value _ _ _ _ (.str "") "" "" _ rfl (by simp) rfl (.done _)
  rcases outcomeWith_delivered (fun _ => .error .notFound) hDelivered
    (.cons hEmpty .nil) with ⟨shown, hSession, hOutcome⟩
  cases hSession.unique hShown
  rw [outcome, hOutcome] at hSame
  have hOut := congrArg (fun o : Outcome => o.shown.out.length) hSame
  exact absurd hOut (by decide)

end Cli

end DynScript
