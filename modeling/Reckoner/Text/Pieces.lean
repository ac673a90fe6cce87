/-
  Cutting a list at a separator.

  A list with `n` separators has `n + 1` pieces, some of them perhaps empty.  The main statement
  is `pieces_append`: cutting commutes with putting lists together at a separator.  With it,
  pieces without a separator are found again when they have been put together with separators
  between them (`pieces_intercalate`).
-/

namespace Reckoner.Text

variable {α : Type} [DecidableEq α]

/-- The piece before the first separator, and the pieces behind it. -/
def cut (separator : α) : List α → List α × List (List α)
  | [] => ([], [])
  | a :: rest =>
    if a = separator then ([], (cut separator rest).1 :: (cut separator rest).2)
    else (a :: (cut separator rest).1, (cut separator rest).2)

/-- The pieces between the separators. -/
def pieces (separator : α) (items : List α) : List (List α) :=
  (cut separator items).1 :: (cut separator items).2

/-- Cutting at a separator that is there. -/
theorem pieces_append (separator : α) (items items' : List α) :
    pieces separator (items ++ separator :: items') =
      pieces separator items ++ pieces separator items' := by
  induction items with
  | nil => simp [pieces, cut]
  | cons a rest ih =>
    simp only [pieces, List.cons_append, List.cons.injEq] at ih
    by_cases h : a = separator
    · simp [pieces, cut, h, ih.1, ih.2]
    · simp [pieces, cut, h, ih.1, ih.2]

/-- A list without the separator is its own only piece. -/
theorem pieces_of_not_mem {separator : α} {items : List α} (h : separator ∉ items) :
    pieces separator items = [items] := by
  induction items with
  | nil => rfl
  | cons a rest ih =>
    have hrest := ih fun hmem => h (List.mem_cons_of_mem _ hmem)
    have ha : a ≠ separator := fun heq => h (heq ▸ List.mem_cons_self)
    simp only [pieces, List.cons.injEq] at hrest
    simp [pieces, cut, ha, hrest.1, hrest.2]

/-- There is no separator in a piece. -/
theorem not_mem_of_mem_pieces {separator : α} {items piece : List α}
    (h : piece ∈ pieces separator items) : separator ∉ piece := by
  induction items generalizing piece with
  | nil =>
    obtain rfl := List.mem_singleton.1 h
    exact List.not_mem_nil
  | cons a rest ih =>
    by_cases ha : a = separator
    · rw [pieces, cut, if_pos ha] at h
      rcases List.mem_cons.1 h with rfl | h
      · exact List.not_mem_nil
      · exact ih h
    · rw [pieces, cut, if_neg ha] at h
      rcases List.mem_cons.1 h with rfl | h
      · have hfirst : separator ∉ (cut separator rest).1 := ih List.mem_cons_self
        exact fun hmem => (List.mem_cons.1 hmem).elim (fun heq => ha heq.symm) hfirst
      · exact ih (List.mem_cons_of_mem _ h)

/-- Pieces without a separator are found again. -/
theorem pieces_intercalate {separator : α} {parts : List (List α)} (hne : parts ≠ [])
    (h : ∀ part ∈ parts, separator ∉ part) :
    pieces separator ([separator].intercalate parts) = parts := by
  induction parts with
  | nil => exact (hne rfl).elim
  | cons part rest ih =>
    have hpart := pieces_of_not_mem (h part List.mem_cons_self)
    cases rest with
    | nil => rw [List.intercalate_singleton, hpart]
    | cons next rest =>
      have hrest := ih (List.cons_ne_nil _ _) fun p hp => h p (List.mem_cons_of_mem _ hp)
      rw [List.intercalate_cons_cons, List.append_assoc, List.singleton_append, pieces_append,
        hpart, hrest, List.singleton_append]

/-- Cutting loses the separators and nothing else. -/
theorem flatten_pieces (separator : α) (items : List α) :
    (pieces separator items).flatten = items.filter (· ≠ separator) := by
  rw [pieces, List.flatten_cons]
  induction items with
  | nil => rfl
  | cons a rest ih =>
    by_cases h : a = separator
    · rw [cut, if_pos h, List.filter_cons_of_neg (by simp [h]), ← ih]
      rfl
    · rw [cut, if_neg h, List.filter_cons_of_pos (by simp [h]), ← ih]
      rfl

end Reckoner.Text
