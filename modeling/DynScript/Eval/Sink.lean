/-
  This file defines where a program's output goes: a record of
  the bytes written, which may be limited in size.

  Key definitions include:
    * `Sink`
    * `Sink.write`
-/

namespace DynScript

/- The bytes written so far, and how many there may be. -/
structure Sink where
  written : ByteArray
  limit : Option Nat

namespace Sink

/- Nothing written yet. -/
def empty
    (limit : Option Nat) : Sink :=
  ⟨.empty, limit⟩

/-
  Write a text, and say whether all of it found room. Of a text
  that does not fit, the bytes that do are kept.
-/
def write
    (s : Sink)
    (text : String) : Bool × Sink :=
  let bytes := text.toUTF8
  let room :=
    match s.limit with
    | none => bytes.size
    | some n => n - s.written.size
  (bytes.size ≤ room,
    { s with written := s.written ++ bytes.extract 0 room })

end Sink

end DynScript
