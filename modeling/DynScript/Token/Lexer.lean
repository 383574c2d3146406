import DynScript.Token.Stream

/-
  This file reads the tokens of a source text one at a time.
  The end of the text and the first fault are handed out once;
  nothing follows them. What is written to a log about tokens
  is not part of what is modelled.

  Key definitions include:
    * `Lexer`
    * `Lexer.Item`
    * `Lexer.next`
    * `Lexer.answers`
-/

namespace DynScript

/-
  A text of which a part is still to be read, and where that
  part begins.
-/
structure Lexer where
  pos : Position
  rest : List Char
  done : Bool

namespace Lexer

/- What a lexer hands out: a token, or what ends its tokens. -/
inductive Item where
  | token (t : Token)
  | last (ending : Ending)
deriving DecidableEq

/- A lexer at the beginning of a source text. -/
def ofSource
    (source : String) : Lexer :=
  ⟨.start, source.toList, false⟩

/- The next thing that a lexer hands out, if it does. -/
def next
    (l : Lexer) : Option Item × Lexer :=
  if l.done then
    (none, l)
  else
    match splitGap false l.rest with
    | (gap, []) =>
      (some (.last (.endOfInput (l.pos.after gap))),
        { l with done := true })
    | (gap, c :: rest) =>
      let start := l.pos.after gap
      let x := firstLexeme c rest
      match x.kind start with
      | .error e => (some (.last (.failed e)), { l with done := true })
      | .ok kind =>
        (some (.token ⟨kind, String.ofList x.text, start⟩),
          ⟨start.after x.text, x.rest, false⟩)

/- What a lexer answers when it is asked a number of times. -/
def answers
    (l : Lexer) : Nat → List (Option Item)
  | 0 => []
  | n + 1 =>
    let (item, l) := l.next
    item :: l.answers n

/- One more question is one step and the questions behind it. -/
theorem answers_succ
    (l : Lexer)
    (n : Nat) :
    l.answers (n + 1) = l.next.1 :: l.next.2.answers n :=
  rfl

end Lexer

end DynScript
