/-
  Every number of a line can be read.

  Tokens keep numbers as they are written, and a number is read only when the tokens are evaluated.
  So an evaluation may find that a text is no number.  It never does if the tokens come from a line,
  whatever the last answer is, infinite or not a number.

  1. **Blame (`Token.failsOnly_evaluate`)** — a text that is found to be no number is the text of a
     number of the row, at whatever depth: what holds of all these texts (`Token.Numbers`) holds of
     it.  Of the stages of an evaluation only the reading of a number finds such a text; a reduction
     never does (`Reduction.failsOnly_reduceRow`), and bracketing changes no number
     (`Brackets.nest_forall`).

  2. **Lines (`Line.areSpelled_of_writes`)** — each number of a line is a numeral, or what is
     written for the number of a constant.  Both are numbers by the grammar of the reader, the words
     for the infinities and for not-a-number included (`Number.spelled_chars`).
-/
import Reckoner.Proofs.Grouping
import Reckoner.Proofs.Number.ReadBack
import Reckoner.Proofs.Reading
import Reckoner.Proofs.Refusals

namespace Reckoner

open Outcome (FailsOnly)

variable {P : String → Prop}

/-! ## Blame -/

/-- If the error is that a text is no number, then it is none, and `P` holds of it. -/
def ReductionError.BlamesOnly (P : String → Prop) (e : ReductionError) : Prop :=
  ∀ text, e = .unreadable text → P text ∧ Number.read? text = none

/-- An error that is not about a text blames none. -/
theorem ReductionError.blamesOnly_of_ne {e : ReductionError} (h : ∀ text, e ≠ .unreadable text) :
    BlamesOnly P e :=
  fun text heq => (h text heq).elim

open ReductionError (BlamesOnly blamesOnly_of_ne)

/-! ## Reductions -/

/-- **A reduction blames no text.**  It fails at an operator or because of a miscount. -/
theorem Reduction.failsOnly_reduceRow (row : List Item) :
    FailsOnly (BlamesOnly P) (reduceRow row) := by
  rw [reduceRow_eq]
  refine ((failsOnly_reduced row).mono ?_).bind fun reduced =>
    (failsOnly_result reduced).mono ?_
  · rintro e (_ | _)
    · exact blamesOnly_of_ne (by simp)
    · exact blamesOnly_of_ne (by simp)
  · rintro e (_ | _)
    · exact blamesOnly_of_ne (by simp)
    · exact blamesOnly_of_ne (by simp)

/-! ## Trees -/

/-- `P` holds of the text of every number of a row, at any depth. -/
inductive Token.Numbers (P : String → Prop) : List Token → Prop
  | nil : Numbers P []
  | number {text : String} {rest : List Token} (h : P text) (hrest : Numbers P rest) :
      Numbers P (.number text :: rest)
  | operator (op : Operator) {rest : List Token} (hrest : Numbers P rest) :
      Numbers P (.operator op :: rest)
  | opening {rest : List Token} (hrest : Numbers P rest) : Numbers P (.opening :: rest)
  | closing {rest : List Token} (hrest : Numbers P rest) : Numbers P (.closing :: rest)
  | group {children rest : List Token} (hchildren : Numbers P children)
      (hrest : Numbers P rest) : Numbers P (.group children :: rest)

namespace Term

/-- A group blames no text that its contents do not. -/
theorem failsOnly_group (terms : List Term)
    (h : ∀ term ∈ terms, FailsOnly (BlamesOnly P) term.resolve) :
    FailsOnly (BlamesOnly P) (resolve (.group terms)) := by
  rw [resolve]
  exact (failsOnly_resolveAll h).bind fun items =>
    (Reduction.failsOnly_reduceRow items).bind fun x => .ok _

theorem failsOnly_number {text : String} (h : P text) :
    FailsOnly (BlamesOnly P) (resolve (.number text)) := by
  rw [resolve]
  cases hread : Number.read? text with
  | none =>
    refine .error fun text' heq => ?_
    cases heq
    exact ⟨h, hread⟩
  | some x => exact .ok _

/-- The items of a row blame its numbers only.  By induction on the row; the contents of a group are
    bracketed on their own. -/
theorem failsOnly_of_mem_marksOfTokens {tokens : List Token} (h : Token.Numbers P tokens) :
    ∀ term, .item term ∈ marksOfTokens tokens → FailsOnly (BlamesOnly P) term.resolve := by
  induction h with
  | nil => exact fun term hterm => nomatch hterm
  | number h _ ih =>
    intro term hterm
    rcases List.mem_cons.1 hterm with heq | hterm
    · cases heq; exact failsOnly_number h
    · exact ih term hterm
  | operator op _ ih =>
    intro term hterm
    rcases List.mem_cons.1 hterm with heq | hterm
    · cases heq; exact .ok _
    · exact ih term hterm
  | opening _ ih | closing _ ih =>
    intro term hterm
    rcases List.mem_cons.1 hterm with heq | hterm
    · cases heq
    · exact ih term hterm
  | group _ _ ihchildren ih =>
    intro term hterm
    rcases List.mem_cons.1 hterm with heq | hterm
    · cases heq
      exact failsOnly_group _ (Brackets.nest_forall failsOnly_group ihchildren)
    · exact ih term hterm

end Term

/-- **An evaluation blames the numbers of its row only.** -/
theorem Token.failsOnly_evaluate {tokens : List Token} (h : Numbers P tokens) :
    FailsOnly (BlamesOnly P) (evaluate tokens) := by
  have hterms := Brackets.nest_forall Term.failsOnly_group (Term.failsOnly_of_mem_marksOfTokens h)
  exact (Term.failsOnly_resolveAll hterms).bind Reduction.failsOnly_reduceRow

/-- The text of each number of a row, at any depth, is a number by the grammar. -/
def Token.AreSpelled (tokens : List Token) : Prop :=
  Numbers (fun text => Number.Spelled text.toList) tokens

/-- Where every number is one by the grammar, none is found to be unreadable. -/
theorem Token.evaluate_ne_unreadable {tokens : List Token} (h : AreSpelled tokens) (text : String) :
    evaluate tokens ≠ .error (.unreadable text) := by
  intro he
  obtain ⟨hspelled, hnone⟩ := failsOnly_evaluate h _ he text rfl
  obtain ⟨x, hx⟩ := Number.exists_read?_iff.2 hspelled
  rw [hnone] at hx
  cases hx

/-! ## What is written -/

theorem Number.signText_signChars (sign : Float.Model.UnpackedFloat.Sign) :
    SignText (signChars sign) := by
  cases sign with
  | negative => exact .minus
  | positive => exact .none

/-- **What is written for a number is a number by the grammar.** -/
theorem Number.spelled_chars (x : Float) : Spelled (chars x) := by
  rw [chars]
  cases x.toModel.unpack with
  | notANumber => exact .signed .none (.word (by decide))
  | infinity sign => exact .signed (signText_signChars sign) (.word (by decide))
  | zero sign =>
    have hzero : UnsignedNumeral ['0'] := Atom.isUnsignedNumeral_iff.1 (by decide)
    exact .signed (signText_signChars sign) (unsignedText_of_unsignedNumeral hzero)
  | finite sign mantissa exponent hpos =>
    have hdecimal := Decimal.unsignedNumeral_chars (Decimal.shortest mantissa exponent hpos)
    exact .signed (signText_signChars sign) (unsignedText_of_unsignedNumeral hdecimal)

/-! ## Lines -/

namespace Line

variable {lastAnswer : Option Float}

theorem areSpelled_of_writes {as : List (List Char)} {tokens : List Token}
    (h : List.Forall₂ (Writes lastAnswer) as tokens) : Token.AreSpelled tokens := by
  induction h with
  | nil => exact .nil
  | cons htoken _ ih =>
    cases htoken with
    | numeral h =>
      refine .number ?_ ih
      rw [String.toList_ofList]
      exact Number.spelled_of_numeral h
    | @constant _ named x _ _ =>
      refine .number ?_ ih
      rw [Number.text, String.toList_ofList]
      exact Number.spelled_chars x
    | operator op => exact .operator op ih
    | opening => exact .opening ih
    | closing => exact .closing ih

/-- **Every number of a line can be read.**  Whatever the last answer is, the numbers of a line that
    has tokens are numbers by the grammar of the reader, so the line is not refused because one of
    them cannot be read, whether its parentheses are grouped first or not. -/
theorem read_ne_unreadable {line : String} {tokens : List Token}
    (h : read lastAnswer line = .ok tokens) :
    Token.AreSpelled tokens ∧
      (∀ text, Token.evaluate tokens ≠ .error (.unreadable text)) ∧
      ∀ text, Token.evaluate (Token.groupAll tokens) ≠ .error (.unreadable text) := by
  have hspelled : Token.AreSpelled tokens := areSpelled_of_writes (writes_of_read h)
  have hflat := Token.evaluate_ne_unreadable hspelled
  refine ⟨hspelled, hflat, fun text => ?_⟩
  rw [Token.evaluate_groupAll]
  exact hflat text

/-- The last answer is infinite, and its negative is asked for. -/
theorem read_negative_infinity :
    let tokens : List Token :=
      [.opening, .number "-inf", .operator (.binary .subtract), .number "2.5", .closing]
    read (some Number.infinity) "( -ans - 2.5 )" = .ok tokens ∧
      Token.AreSpelled tokens ∧
      (∀ text, Token.evaluate tokens ≠ .error (.unreadable text)) ∧
      ∀ text, Token.evaluate (Token.groupAll tokens) ≠ .error (.unreadable text) := by
  intro tokens
  have hread : read (some Number.infinity) "( -ans - 2.5 )" = .ok tokens := rfl
  exact ⟨hread, read_ne_unreadable hread⟩

end Line

end Reckoner
