/-
  The grammar of expressions, with meanings.

  The evaluator never parses: it rewrites a row until one number is left.  This file says what it
  is that gets evaluated, as a grammar in the usual form:

      sum     :=  product  |  sum (+ - log) product
      product :=  power    |  product (* / % nCr nPr) power
      power   :=  head     |  power (** //) post
      head    :=  post     |  function post
      post    :=  atom     |  post !
      atom    :=  a number that can be read  |  a group that is a sum

  Every chain leans to the left, and a function takes a single operand with its factorials: it
  binds tighter than the power behind it.

  `Derives category tokens meaning` derives and evaluates at once.  The meaning is built from the
  meanings of the parts, from the bottom to the top; it is `none` when an operator refuses its
  operands somewhere inside.  A number carries the text it was written as, and whatever was
  computed, a group included, carries none.
-/
import Reckoner.Term.Evaluation

namespace Reckoner

/-! ## The meaning of an operator -/

/-- The value of an operator between two operands, unless it refuses them. -/
def BinaryOperator.value? (op : BinaryOperator) (a b : Value) : Option Value :=
  (op.apply a b).toOption.map .computed

/-- The value of a function. -/
def UnaryFunction.value (f : UnaryFunction) (b : Value) : Value :=
  .computed (f.apply b.number)

/-- The value of the factorial, unless it refuses its operand. -/
def Value.factorial? (a : Value) : Option Value :=
  (Arithmetic.factorial a.number).toOption.map .computed

/-! ## The operators of each chain -/

/-- The operators of a chain of powers. -/
def BinaryOperator.powers : List BinaryOperator := [.power, .root]

/-- The operators of a chain of products. -/
def BinaryOperator.products : List BinaryOperator :=
  [.multiply, .divide, .remainder, .combinations, .permutations]

/-- The operators of a chain of sums. -/
def BinaryOperator.sums : List BinaryOperator := [.add, .subtract, .logarithm]

theorem BinaryOperator.mem_powers_iff (op : BinaryOperator) :
    op ∈ powers ↔ (Operator.binary op).tier = .power := by
  cases op <;> decide

theorem BinaryOperator.mem_products_iff (op : BinaryOperator) :
    op ∈ products ↔ (Operator.binary op).tier = .product := by
  cases op <;> decide

theorem BinaryOperator.mem_sums_iff (op : BinaryOperator) :
    op ∈ sums ↔ (Operator.binary op).tier = .sum := by
  cases op <;> decide

/-! ## Derivations -/

/-- What a derivation is a derivation of. -/
inductive Category where
  /-- One operand: a number or a group. -/
  | atom
  /-- An operand with the factorials behind it. -/
  | post
  /-- An operand with the function in front of it, if there is one. -/
  | head
  /-- A chain of powers and roots. -/
  | power
  /-- A chain of products, quotients, remainders and selections. -/
  | product
  /-- A chain of sums, differences and logarithms: a whole expression. -/
  | sum
deriving DecidableEq, Repr

/-- The tokens are derived from the category, with the meaning. -/
inductive Derives : Category → List Token → Option Value → Prop
  | number {text : String} {x : Float} (hread : Number.read? text = some x) :
      Derives .atom [.number text] (some ⟨x, some text⟩)
  | group {children : List Token} {m : Option Value} (h : Derives .sum children m) :
      Derives .atom [.group children] (m.map fun v => .computed v.number)
  | atom {ts : List Token} {m : Option Value} (h : Derives .atom ts m) : Derives .post ts m
  | factorial {ts : List Token} {m : Option Value} (h : Derives .post ts m) :
      Derives .post (ts ++ [.operator .factorial]) (m.bind Value.factorial?)
  | post {ts : List Token} {m : Option Value} (h : Derives .post ts m) : Derives .head ts m
  | function {f : UnaryFunction} {ts : List Token} {m : Option Value} (h : Derives .post ts m) :
      Derives .head (.operator (.function f) :: ts) (m.map f.value)
  | head {ts : List Token} {m : Option Value} (h : Derives .head ts m) : Derives .power ts m
  | powers {op : BinaryOperator} {ts us : List Token} {m n : Option Value}
      (left : Derives .power ts m) (hop : op ∈ BinaryOperator.powers)
      (right : Derives .post us n) :
      Derives .power (ts ++ .operator (.binary op) :: us) (m.bind fun a => n.bind (op.value? a))
  | power {ts : List Token} {m : Option Value} (h : Derives .power ts m) : Derives .product ts m
  | products {op : BinaryOperator} {ts us : List Token} {m n : Option Value}
      (left : Derives .product ts m) (hop : op ∈ BinaryOperator.products)
      (right : Derives .power us n) :
      Derives .product (ts ++ .operator (.binary op) :: us) (m.bind fun a => n.bind (op.value? a))
  | product {ts : List Token} {m : Option Value} (h : Derives .product ts m) : Derives .sum ts m
  | sums {op : BinaryOperator} {ts us : List Token} {m n : Option Value}
      (left : Derives .sum ts m) (hop : op ∈ BinaryOperator.sums)
      (right : Derives .product us n) :
      Derives .sum (ts ++ .operator (.binary op) :: us) (m.bind fun a => n.bind (op.value? a))

end Reckoner
