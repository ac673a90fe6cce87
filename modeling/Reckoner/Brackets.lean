/-
  Bracketing: from marks in a row to nested lists.

  A row of items with opening and closing marks among them is read once from left to right.
  The reader keeps the items of the innermost open bracket and, outside it, those of every
  bracket around it.  A closing mark wraps up the innermost bracket and puts it, as one item,
  into the bracket around it.

  The row need not balance.  A closing mark outside all brackets is dropped, and a bracket still
  open at the end is closed there.  Nothing else is ever lost, moved or invented.

  What a bracket becomes is the parameter `wrap`, so that the same reading serves tokens, whose
  groups may still hold parentheses, and terms, which hold none.
-/

namespace Reckoner.Brackets

/-- One position of a row. -/
inductive Mark (α : Type) where
  | item (a : α)
  | opening
  | closing

/-- What has been read: the innermost open bracket and the ones around it, from the inside to
    the outside, the latest item of each first. -/
structure Levels (α : Type) where
  /-- The items of the innermost open bracket. -/
  innermost : List α
  /-- The items of the brackets around it. -/
  around : List (List α)

/-- Reads one position. -/
def Levels.read {α : Type} (wrap : List α → α) (levels : Levels α) : Mark α → Levels α
  | .item a => ⟨a :: levels.innermost, levels.around⟩
  | .opening => ⟨[], levels.innermost :: levels.around⟩
  | .closing =>
    match levels.around with
    | [] => levels
    | outer :: around => ⟨wrap levels.innermost.reverse :: outer, around⟩

/-- Closes every open bracket. -/
def Levels.close {α : Type} (wrap : List α → α) (levels : Levels α) : List α :=
  (levels.around.foldl (fun inner outer => wrap inner.reverse :: outer)
    levels.innermost).reverse

/-- The nested list that a row of items and marks writes. -/
def nest {α : Type} (wrap : List α → α) (row : List (Mark α)) : List α :=
  (row.foldl (Levels.read wrap) ⟨[], []⟩).close wrap

/-- Items alone are left as they are. -/
theorem nest_map_item {α : Type} (wrap : List α → α) (items : List α) :
    nest wrap (items.map .item) = items := by
  have hread : ∀ (items : List α) (levels : Levels α),
      (items.map Mark.item).foldl (Levels.read wrap) levels =
        ⟨items.reverse ++ levels.innermost, levels.around⟩ := by
    intro items
    induction items with
    | nil => intro levels; rfl
    | cons a items ih =>
      intro levels
      rw [List.map_cons, List.foldl_cons, ih]
      simp [Levels.read]
  rw [nest, hread]
  simp [Levels.close]

end Reckoner.Brackets
