import DynScript.Proofs.Eval.Lockstep

/-
  Limits only cut runs short. With a lower limit on the calls
  inside one another, or with room for fewer bytes of output,
  a run is the same as without, or it is stopped by the limit
  and has written a first part of what it would have written.

  Key definitions include:
    * `Machine.limitCalls`
    * `Machine.limitOutput`
    * `Restriction.ofCalls`
    * `Restriction.ofOutput`

  Main statements include:
    * `Restriction.fair_ofCalls`
    * `Restriction.fair_ofOutput`
    * `call_limit_cuts_short`
    * `output_limit_cuts_short`
-/

namespace DynScript

namespace Machine

/- The machine with another limit on the calls inside one another. -/
def limitCalls
    (m : Machine)
    (limit : Nat) : Machine :=
  { m with maxDepth := limit }

/- The machine with another limit on all that is written. -/
def limitOutput
    (m : Machine)
    (limit : Option Nat) : Machine :=
  { m with sink := { m.sink with limit } }

end Machine

------------------------------------------------------------
-- Calls inside one another
------------------------------------------------------------

namespace Restriction

/- Fewer calls may be inside one another. -/
def ofCalls
    (low high : Nat) : Restriction where
  level := fun s t => t = s
  behind := Sink.Extends
  stops := fun x => ∃ limit, x = .stackOverflow limit
  low := low
  high := high

theorem fair_ofCalls
    {low high : Nat}
    (h : low ≤ high) :
    (ofCalls low high).Fair where
  write := by
    rintro s t text rfl
    exact .inl ⟨rfl, rfl⟩
  grow := Sink.Extends.trans
  calls := by
    rcases Nat.eq_or_lt_of_le h with hEq | hLt
    · exact .inl hEq
    · refine .inr ⟨hLt, ⟨low, rfl⟩, ?_⟩
      rintro s t rfl
      exact .refl t

/- Machines in step are the same but for their limits. -/
theorem eq_of_inStep_ofCalls
    {low high : Nat}
    {m n : Machine}
    (h : (ofCalls low high).InStep m n) :
    n = m.limitCalls high := by
  rcases m with ⟨env, sink, depth, maxDepth, nextIdentity⟩
  rcases n with ⟨env', sink', depth', maxDepth', nextIdentity'⟩
  rcases h with ⟨rfl, rfl, rfl, hSink, _, rfl⟩
  rcases hSink with rfl
  rfl

end Restriction

/-
  A run with a lower limit on the calls inside one another is
  the run with the higher limit, unless the limit is met; then
  it has written a first part of what is written with the
  higher limit.
-/
theorem call_limit_cuts_short
    (m : Machine)
    (b : Block)
    {low high : Nat}
    (h : low ≤ high) :
    let short := (m.limitCalls low).run b
    let long := (m.limitCalls high).run b
    ((∀ limit, short.1 ≠ .error (.stackOverflow limit)) →
      long.1 = short.1 ∧ long.2 = short.2.limitCalls high) ∧
    ∀ limit, short.1 = .error (.stackOverflow limit) →
      ∃ more, long.2.sink.written = short.2.sink.written ++ more := by
  intro short long
  have hStep : (Restriction.ofCalls low high).InStep
      (m.limitCalls low) (m.limitCalls high) :=
    ⟨rfl, rfl, rfl, rfl, rfl, rfl⟩
  rcases (Restriction.fair_ofCalls h).run hStep b with
    ⟨hResult, hSame⟩ | ⟨x, ⟨limit, rfl⟩, hResult, hBehind⟩
  · constructor
    · intro _
      exact ⟨hResult.symm, Restriction.eq_of_inStep_ofCalls hSame⟩
    · intro limit _
      have hSink : long.2.sink = short.2.sink := hSame.sink
      rw [hSink]
      exact Sink.Extends.refl short.2.sink
  · constructor
    · intro hNever
      exact absurd hResult (hNever limit)
    · intro _ _
      exact hBehind

/- A function that writes and may call itself once more. -/
def relay : Block :=
  [.function "f" ["more"]
      [.expr (.call "echo" [.str "x"]),
        .branch (.var "more") [.expr (.call "f" [.bool false])] none],
    .expr (.call "f" [.bool true])]

def relayStart : Machine :=
  .fresh .empty 0 none 0

/- Its run with a limit on the calls inside one another. -/
def relayRun
    (limit : Nat) : Except RuntimeError Value × Machine :=
  (relayStart.limitCalls limit).run relay

/- One call is too few for it, two are as good as three. -/
theorem relay_cut_short :
    ((relayRun 1).1 = .error (.stackOverflow 1) ∧
      ∃ more, (relayRun 2).2.sink.written =
        (relayRun 1).2.sink.written ++ more) ∧
    (∀ limit, (relayRun 2).1 ≠ .error (.stackOverflow limit)) ∧
      (relayRun 3).1 = (relayRun 2).1 ∧
      (relayRun 3).2 = (relayRun 2).2.limitCalls 3 := by
  have hStopped : (relayRun 1).1 = .error (.stackOverflow 1) := by rfl
  have hNever :
      ∀ limit, (relayRun 2).1 ≠ .error (.stackOverflow limit) := by
    have hDone : (relayRun 2).1.isOk = true := by decide +kernel
    intro limit hError
    rw [hError] at hDone
    cases hDone
  have hOneTwo : 1 ≤ 2 := by decide
  have hTwoThree : 2 ≤ 3 := by decide
  unfold relayRun at *
  refine ⟨⟨hStopped, ?_⟩, hNever, ?_⟩
  · exact (call_limit_cuts_short relayStart relay hOneTwo).2 1 hStopped
  · exact (call_limit_cuts_short relayStart relay hTwoThree).1 hNever

------------------------------------------------------------
-- Bytes of output
------------------------------------------------------------

/- All bytes are the first ones where there are no more. -/
theorem extract_of_size_le
    {bytes : ByteArray}
    {n : Nat}
    (h : bytes.size ≤ n) :
    bytes.extract 0 n = bytes := by
  apply ByteArray.ext
  rw [ByteArray.data_extract]
  exact Array.extract_eq_self_of_le h

/- The first bytes go beyond the front part. -/
theorem extract_append_of_size_le
    {front : ByteArray}
    (back : ByteArray)
    {n : Nat}
    (h : front.size ≤ n) :
    (front ++ back).extract 0 n =
      front ++ back.extract 0 (n - front.size) := by
  rw [ByteArray.extract_append, extract_of_size_le h, Nat.zero_sub]

/- The first bytes lie in the front part. -/
theorem extract_append_of_le_size
    {front : ByteArray}
    (back : ByteArray)
    {n : Nat}
    (h : n ≤ front.size) :
    (front ++ back).extract 0 n = front.extract 0 n := by
  rw [ByteArray.extract_append, Nat.sub_eq_zero_of_le h, Nat.zero_sub,
    ByteArray.extract_same, ByteArray.append_empty]

/- A text that finds room is written. -/
theorem Sink.write_of_fits
    {s : Sink}
    {text : String}
    (h : ∀ n ∈ s.limit, text.toUTF8.size ≤ n - s.written.size) :
    s.write text =
      (true, { s with written := s.written ++ text.toUTF8 }) := by
  rcases s with ⟨written, limit⟩
  cases limit with
  | none =>
      simp only [Sink.write, Nat.le_refl, decide_true,
        ByteArray.extract_zero_size]
  | some n =>
      have hRoom : text.toUTF8.size ≤ n - written.size := h n rfl
      simp only [Sink.write, hRoom, decide_true,
        extract_of_size_le hRoom]

/- Of a text without room for it, the first bytes are written. -/
theorem Sink.write_of_full
    {s : Sink}
    {text : String}
    {n : Nat}
    (hLimit : s.limit = some n)
    (h : n - s.written.size < text.toUTF8.size) :
    s.write text =
      (false, { s with
        written := s.written ++
          text.toUTF8.extract 0 (n - s.written.size) }) := by
  simp only [Sink.write, hLimit, Nat.not_le_of_lt h, decide_false]

namespace Restriction

/- There is room for so many bytes only. -/
def ofOutput
    (limit calls : Nat) : Restriction where
  level := fun s t =>
    s.limit = some limit ∧ s.written.size ≤ limit ∧
      t = { s with limit := none }
  behind := fun s t =>
    s.written = t.written.extract 0 limit ∧ limit < t.written.size
  stops := fun x => x = .outputFull
  low := calls
  high := calls

theorem fair_ofOutput
    (limit calls : Nat) :
    (ofOutput limit calls).Fair where
  write := by
    rintro s t text ⟨hLimit, hSize, rfl⟩
    have hFree : ({ s with limit := none } : Sink).write text =
        (true, ⟨s.written ++ text.toUTF8, none⟩) :=
      Sink.write_of_fits fun n hn => by cases hn
    by_cases hFits : text.toUTF8.size ≤ limit - s.written.size
    · have hWrite : s.write text =
          (true, { s with written := s.written ++ text.toUTF8 }) := by
        apply Sink.write_of_fits
        intro n hn
        rcases Option.some.inj (hLimit.symm.trans hn) with rfl
        exact hFits
      rw [hWrite, hFree]
      refine .inl ⟨rfl, hLimit, ?_, rfl⟩
      rw [ByteArray.size_append]
      omega
    · have hFull := Nat.lt_of_not_le hFits
      rw [Sink.write_of_full hLimit hFull, hFree]
      refine .inr ⟨rfl, rfl, ?_, ?_⟩
      · exact (extract_append_of_size_le text.toUTF8 hSize).symm
      · rw [ByteArray.size_append]
        omega
  grow := by
    rintro s t u ⟨hFirst, hMore⟩ ⟨more, hExtends⟩
    constructor
    · rw [hExtends, extract_append_of_le_size more (Nat.le_of_lt hMore)]
      exact hFirst
    · rw [hExtends, ByteArray.size_append]
      exact Nat.lt_add_right more.size hMore
  calls := .inl rfl

end Restriction

/-
  With room for a number of bytes, a run is the run without a
  limit when what is written finds room. Otherwise it ends
  with the error of the full sink, and the first bytes of what
  is written without a limit fill the room.
-/
theorem output_limit_cuts_short
    (m : Machine)
    (b : Block)
    (room : Nat) :
    let before := m.sink.written
    let free := (m.limitOutput none).run b
    let limited := (m.limitOutput (some (before.size + room))).run b
    ∃ output, free.2.sink.written = before ++ output ∧
      (output.size ≤ room →
        limited.1 = free.1 ∧ limited.2.env = free.2.env ∧
          limited.2.sink.written = before ++ output) ∧
      (room < output.size →
        limited.1 = .error .outputFull ∧
          limited.2.sink.written =
            before ++ output.extract 0 room) := by
  intro before free limited
  rcases (m.limitOutput none).extends_run b with ⟨output, hOutput⟩
  have hWritten : free.2.sink.written = before ++ output := hOutput
  have hStep :
      (Restriction.ofOutput (before.size + room) m.maxDepth).InStep
      (m.limitOutput (some (before.size + room)))
      (m.limitOutput none) :=
    ⟨rfl, rfl, rfl, ⟨rfl, Nat.le_add_right _ _, rfl⟩, rfl, rfl⟩
  refine ⟨output, hWritten, ?_⟩
  rcases (Restriction.fair_ofOutput _ _).run hStep b with
    ⟨hResult, hSame⟩ | ⟨x, rfl, hResult, hFirst, hMore⟩
  · rcases hSame.sink with ⟨_, hSize, hSink⟩
    have hEqual : limited.2.sink.written = before ++ output := by
      rw [← hWritten]
      exact (congrArg Sink.written hSink).symm
    have hLimit : limited.2.sink.written.size ≤ before.size + room :=
      hSize
    rw [hEqual, ByteArray.size_append] at hLimit
    constructor
    · intro _
      exact ⟨hResult, hSame.env.symm, hEqual⟩
    · intro hLarge
      omega
  · have hLarge : before.size + room < free.2.sink.written.size := hMore
    have hCut : limited.2.sink.written =
        free.2.sink.written.extract 0 (before.size + room) := hFirst
    rw [hWritten, ByteArray.size_append] at hLarge
    rw [hWritten, extract_append_of_size_le output (Nat.le_add_right _ _),
      Nat.add_sub_cancel_left] at hCut
    constructor
    · intro hSmall
      omega
    · intro _
      exact ⟨hResult, hCut⟩

end DynScript
