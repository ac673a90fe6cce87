/-
  The operators, and how they stand among their operands.

  Operators come in three shapes: between two operands, in front of one (the functions), and
  behind one (the factorial alone).  The shape is a constructor, so an operator cannot be asked
  for a value on operands that do not suit it.  `arity` reads the shape off again, and `tier`
  says when an operator is applied: powers and functions first, then products, then sums.

  `ofSymbol?_symbol` is the main statement: the spelling of an operator finds it again.  So a text
  names an operator exactly when it is that operator's spelling (`ofSymbol?_eq_some_iff`).
-/

namespace Reckoner

/-- When something in a row is applied. -/
inductive Tier where
  /-- Numbers and groups: never applied, only used as operands. -/
  | operand
  /-- Powers, roots, factorials and functions: applied first. -/
  | power
  /-- Products, quotients, remainders and selections: applied second. -/
  | product
  /-- Sums, differences and logarithms: applied last. -/
  | sum
deriving DecidableEq, Repr

/-- The tiers that are applied, in their order. -/
def Tier.applied : List Tier := [.power, .product, .sum]

/-- Which neighbours something in a row uses as operands. -/
inductive Arity where
  | none
  | left
  | right
  | both
deriving DecidableEq, Repr

/-- Whether the neighbour on the left is an operand. -/
def Arity.takesLeft (a : Arity) : Bool := a = .left ∨ a = .both

/-- Whether the neighbour on the right is an operand. -/
def Arity.takesRight (a : Arity) : Bool := a = .right ∨ a = .both

/-- Operators that stand between their operands. -/
inductive BinaryOperator where
  | add
  | subtract
  /-- In `a log b`: the logarithm of `a` to the base `b`. -/
  | logarithm
  | multiply
  | divide
  | remainder
  /-- In `n nCr r`: the number of unordered selections. -/
  | combinations
  /-- In `n nPr r`: the number of ordered selections. -/
  | permutations
  | power
  /-- In `a // b`: the root of degree `a` of `b`. -/
  | root
deriving DecidableEq, Repr

/-- Operators that stand in front of their operand. -/
inductive UnaryFunction where
  | sine
  | cosine
  | tangent
  | sineOfDegrees
  | cosineOfDegrees
  | tangentOfDegrees
  | absolute
deriving DecidableEq, Repr

/-- An operator of any shape. -/
inductive Operator where
  | binary (op : BinaryOperator)
  | function (f : UnaryFunction)
  /-- In `a !`: the only operator that stands behind its operand. -/
  | factorial
deriving DecidableEq, Repr

/-! ## Spelling -/

/-- How an operator between operands is written. -/
def BinaryOperator.symbol : BinaryOperator → String
  | .add => "+"
  | .subtract => "-"
  | .logarithm => "log"
  | .multiply => "*"
  | .divide => "/"
  | .remainder => "%"
  | .combinations => "nCr"
  | .permutations => "nPr"
  | .power => "**"
  | .root => "//"

/-- How a function is written. -/
def UnaryFunction.symbol : UnaryFunction → String
  | .sine => "sin"
  | .cosine => "cos"
  | .tangent => "tan"
  | .sineOfDegrees => "dsin"
  | .cosineOfDegrees => "dcos"
  | .tangentOfDegrees => "dtan"
  | .absolute => "abs"

namespace Operator

/-- How an operator is written. -/
def symbol : Operator → String
  | .binary op => op.symbol
  | .function f => f.symbol
  | .factorial => "!"

/-- Every operator, once. -/
def all : List Operator :=
  [.binary .add, .binary .subtract, .binary .logarithm, .binary .multiply, .binary .divide,
   .binary .remainder, .binary .combinations, .binary .permutations, .binary .power,
   .binary .root, .function .sine, .function .cosine, .function .tangent,
   .function .sineOfDegrees, .function .cosineOfDegrees, .function .tangentOfDegrees,
   .function .absolute, .factorial]

/-- The operator with a given spelling. -/
def ofSymbol? (symbol : String) : Option Operator :=
  all.find? (·.symbol = symbol)

/-- The spelling of an operator finds it again. -/
theorem ofSymbol?_symbol (op : Operator) : ofSymbol? op.symbol = some op := by
  cases op with
  | binary op => cases op <;> decide
  | function f => cases f <;> decide
  | factorial => decide

/-- A text names an operator exactly when it is that operator's spelling. -/
theorem ofSymbol?_eq_some_iff {symbol : String} {op : Operator} :
    ofSymbol? symbol = some op ↔ symbol = op.symbol := by
  constructor
  · intro h
    have hsymbol := List.find?_some h
    exact (of_decide_eq_true hsymbol).symm
  · intro h
    rw [h, ofSymbol?_symbol]

/-! ## Place in a row -/

/-- When an operator is applied. -/
def tier : Operator → Tier
  | .binary .power | .binary .root | .function _ | .factorial => .power
  | .binary .multiply | .binary .divide | .binary .remainder | .binary .combinations
  | .binary .permutations => .product
  | .binary .add | .binary .subtract | .binary .logarithm => .sum

/-- Which neighbours an operator uses. -/
def arity : Operator → Arity
  | .binary _ => .both
  | .function _ => .right
  | .factorial => .left

/-- Every operator is applied in one of the applied tiers. -/
theorem tier_mem_applied (op : Operator) : op.tier ∈ Tier.applied := by
  cases op with
  | binary op => cases op <;> decide
  | function _ => exact List.mem_cons_self
  | factorial => exact List.mem_cons_self

end Operator

end Reckoner
