/-
  Expressions side by side.

  A row in which an operator was forgotten, such as `2 cos 0`, is not refused where it breaks.  The
  passes go through the whole row and know of no boundary between its expressions; only when no
  operator is left are the numbers counted.

  1. **Neighbours do not meet (`evaluate_flatten`)** — each expression settles to its value whatever
     stands around it, so expressions side by side become their values side by side, in their
     order.  By induction on the expressions, with `Settles.append` at every seam.

  2. **What is counted are expressions (`exists_parts_of_miscount`)** — a miscount is found when
     every operator has been applied, and what is left by then stands for expressions that are,
     side by side, the tokens of the row.

  So too many results are reported exactly for two or more expressions side by side, with the
  numbers of the first two (`tooManyResults_iff_juxtaposed`).
-/
import Reckoner.Proofs.Expressions
import Reckoner.Proofs.Refusals

namespace Reckoner

open Reduction
open ReductionError (IsMiscount)

/-! ## From the expressions to the count -/

/-- Nothing settles to nothing. -/
theorem Settles.nil {stages : List (Operator → Bool)} : Settles stages [] (some []) := by
  induction stages with
  | nil => exact ⟨[], rfl, rfl⟩
  | cons passes earlier ih => exact ⟨some [], ih, fun _ _ => rfl⟩

/-- Expressions side by side settle to their values side by side. -/
theorem settles_flatten {parts : List (List Token)} {values : List Value}
    (h : List.Forall₂ (Means .sum) parts values) :
    Settles Category.sum.passes parts.flatten (some (values.map .value)) := by
  induction h with
  | nil => exact Settles.nil
  | cons hpart _ ih => exact (Derives.settles hpart).append ih

/-- **Expressions side by side are counted by their values**, in their order. -/
theorem evaluate_flatten {parts : List (List Token)} {values : List Value}
    (h : List.Forall₂ (Means .sum) parts values) :
    Token.evaluate parts.flatten = result (values.map .value) := by
  obtain ⟨outcome, rfl, heval⟩ := (settles_flatten h).evaluate
  exact heval

/-! ## From the count to the expressions -/

/-- A row of values stands for blocks side by side, one for each value. -/
theorem Spans.exists_parts {Block : List Token → Value → Prop} {ts : List Token}
    {values : List Value} (h : Spans Block ts (values.map .value)) :
    ∃ parts, ts = parts.flatten ∧ List.Forall₂ Block parts values := by
  induction values generalizing ts with
  | nil =>
    rcases h with _ | _ | _
    exact ⟨[], rfl, .nil⟩
  | cons v values ih =>
    rcases h with _ | ⟨hblock, hrest⟩ | _
    obtain ⟨parts, rfl, hparts⟩ := ih hrest
    exact ⟨_ :: parts, rfl, .cons hblock hparts⟩

/-- **A row that is miscounted is expressions side by side**, if its groups have values. -/
theorem exists_parts_of_miscount {ts : List Token} (hplain : Token.arePlain ts = true)
    (hgroups : ∀ children, .group children ∈ ts → ∃ x, Token.evaluate children = .ok x)
    {e : ReductionError} (hcount : e.IsMiscount) (h : Token.evaluate ts = .error e) :
    ∃ parts values, ts = parts.flatten ∧ List.Forall₂ (Means .sum) parts values ∧
      result (values.map .value) = .error e := by
  rcases unreadable_or_spans hplain hgroups with ⟨text, htext⟩ | ⟨items, hitems, heval⟩
  · rw [htext] at h
    cases h
    cases hcount
  · rw [heval] at h
    obtain ⟨row, hrow, hresult⟩ := exists_reduced_of_isMiscount h hcount
    obtain ⟨values, rfl⟩ := exists_values (operator_not_mem_of_reduced hrow)
    obtain ⟨parts, hts, hparts⟩ := (spans_of_reduced hitems hrow).exists_parts
    exact ⟨parts, values, hts, hparts, hresult⟩

/-! ## Too many results -/

/-- Too many values are left when there are two, and the first two are named. -/
theorem result_eq_tooManyResults_iff {values : List Value} {x y : Float} :
    result (values.map .value) = .error (.tooManyResults x y) ↔
      ∃ v w rest, values = v :: w :: rest ∧ v.number = x ∧ w.number = y := by
  rw [result, filterMap_value?]
  constructor
  · intro h
    rcases values with _ | ⟨v, _ | ⟨w, rest⟩⟩
    · cases h
    · cases h
    · cases h
      exact ⟨v, w, rest, rfl, rfl, rfl⟩
  · rintro ⟨v, w, rest, rfl, rfl, rfl⟩
    rfl

/-- The tokens are two expressions or more, side by side, and these are the numbers of the first
    two. -/
def Juxtaposed (ts : List Token) (x y : Float) : Prop :=
  ∃ parts v w rest, ts = parts.flatten ∧ List.Forall₂ (Means .sum) parts (v :: w :: rest) ∧
    v.number = x ∧ w.number = y

/-- **Too many results are reported exactly for expressions side by side.**  Two expressions or
    more fail with the numbers of the first two; and when a row whose groups have values fails with
    two numbers too many, it is two expressions or more, and the numbers are those of the first
    two. -/
theorem tooManyResults_iff_juxtaposed :
    (∀ ts x y, Juxtaposed ts x y → Token.evaluate ts = .error (.tooManyResults x y)) ∧
      ∀ ts, Token.arePlain ts = true →
        (∀ children, .group children ∈ ts → ∃ x, Token.evaluate children = .ok x) →
        ∀ x y, Token.evaluate ts = .error (.tooManyResults x y) → Juxtaposed ts x y := by
  constructor
  · rintro ts x y ⟨parts, v, w, rest, rfl, hparts, hv, hw⟩
    rw [evaluate_flatten hparts, result_eq_tooManyResults_iff]
    exact ⟨v, w, rest, rfl, hv, hw⟩
  · intro ts hplain hgroups x y h
    obtain ⟨parts, values, hts, hparts, hresult⟩ :=
      exists_parts_of_miscount hplain hgroups (.tooManyResults x y) h
    obtain ⟨v, w, rest, rfl, hv, hw⟩ := result_eq_tooManyResults_iff.1 hresult
    exact ⟨parts, v, w, rest, hts, hparts, hv, hw⟩

/-- `7 abs ( 1 - 3 ) 5` is three expressions, with the values 7, 2 and 5: the function starts a new
    one behind the value in front of it, and the group ends it. -/
theorem tooManyResults_around_function :
    let ts : List Token := [.number "7", .operator (.function .absolute),
      .group [.number "1", .operator (.binary .subtract), .number "3"], .number "5"]
    (Juxtaposed ts 7 2 ∧ Token.evaluate ts = .error (.tooManyResults 7 2)) ∧
      Token.arePlain ts = true ∧
      (∀ children, .group children ∈ ts → ∃ x, Token.evaluate children = .ok x) ∧
      ∃ parts v w rest, ts = parts.flatten ∧
        List.Forall₂ (Means .sum) parts (v :: w :: rest) ∧ v.number = 7 ∧ w.number = 2 := by
  intro ts
  have hnumber : ∀ {text x}, Number.read? text = some x →
      Means .post [.number text] ⟨x, some text⟩ :=
    fun hread => .atom (.number hread)
  have hsum : ∀ {part v}, Means .head part v → Means .sum part v :=
    fun hhead => .product (.power (.head hhead))
  have hseven := hnumber (show Number.read? "7" = some 7 by decide)
  have hone := hnumber (show Number.read? "1" = some 1 by decide)
  have hthree := hnumber (show Number.read? "3" = some 3 by decide)
  have hfive := hnumber (show Number.read? "5" = some 5 by decide)
  have hdifference : Derives .sum [.number "1", .operator (.binary .subtract), .number "3"]
      (BinaryOperator.value? .subtract ⟨1, some "1"⟩ ⟨3, some "3"⟩) :=
    .sums (hsum (.post hone)) (by decide) (.power (.head (.post hthree)))
  have habsolute : Means .head [.operator (.function .absolute),
      .group [.number "1", .operator (.binary .subtract), .number "3"]] (.computed 2) := by
    have hvalue : ((BinaryOperator.value? .subtract ⟨1, some "1"⟩ ⟨3, some "3"⟩).map
        fun v => Value.computed v.number).map (UnaryFunction.value .absolute) =
          some (.computed 2) := by
      decide +kernel
    rw [Means, ← hvalue]
    exact .function (.atom (.group hdifference))
  have hjuxtaposed : Juxtaposed ts 7 2 := by
    have hparts : List.Forall₂ (Means .sum)
        [[.number "7"], [.operator (.function .absolute),
          .group [.number "1", .operator (.binary .subtract), .number "3"]], [.number "5"]]
        [⟨7, some "7"⟩, .computed 2, ⟨5, some "5"⟩] :=
      .cons (hsum (.post hseven)) (.cons (hsum habsolute) (.cons (hsum (.post hfive)) .nil))
    exact ⟨_, _, _, _, rfl, hparts, rfl, rfl⟩
  have hplain : Token.arePlain ts = true := by decide
  have hgroups : ∀ children, .group children ∈ ts → ∃ x, Token.evaluate children = .ok x := by
    intro children hmem
    obtain rfl : children = [.number "1", .operator (.binary .subtract), .number "3"] := by
      simpa [ts] using hmem
    exact ⟨-2, by decide +kernel⟩
  have heval : Token.evaluate ts = .error (.tooManyResults 7 2) := by decide +kernel
  exact ⟨⟨hjuxtaposed, tooManyResults_iff_juxtaposed.1 ts 7 2 hjuxtaposed⟩, hplain, hgroups,
    tooManyResults_iff_juxtaposed.2 ts hplain hgroups 7 2 heval⟩

end Reckoner
