/-
  Bracketing as a recursion.

  `nest` reads a row once, with the open brackets on a stack.  The same nested list can be found
  from the front of the row: an item stays, a stray closing mark is dropped, and an opening mark
  is followed by the contents of its bracket, up to the closing mark that belongs to it or, if
  there is none, up to the end of the row.

  1. **Depth (`depthAfter?`)** — how many brackets are open after a row.  A row that closes no
     bracket it has not opened has a depth, and leaves what stands outside it on the stack alone
     (`readRow_append`).

  2. **Where a bracket ends (`isOpen_or_closes`)** — either the row has a depth, or it has a first
     closing mark too many, and what stands in front of that is balanced.

  3. **The recursion** — `row_induction` takes a row apart in these ways, and `nest_item`,
     `nest_closing`, `nest_bracket` and `nest_unclosed` say what becomes of each.
-/
import Reckoner.Brackets

namespace Reckoner.Brackets

variable {α : Type} {wrap : List α → α}

/-! ## Depth -/

/-- How many brackets are open after a row if some are before it; none if the row closes more
    than are open. -/
def depthAfter? : Nat → List (Mark α) → Option Nat
  | depth, [] => some depth
  | depth, .item _ :: row => depthAfter? depth row
  | depth, .opening :: row => depthAfter? (depth + 1) row
  | 0, .closing :: _ => none
  | depth + 1, .closing :: row => depthAfter? depth row

theorem depthAfter?_append (depth : Nat) (row row' : List (Mark α)) :
    depthAfter? depth (row ++ row') = (depthAfter? depth row).bind (depthAfter? · row') := by
  fun_induction depthAfter? depth row with
  | case1 depth => rfl
  | case2 depth a row ih => exact ih
  | case3 depth row ih => exact ih
  | case4 row => rfl
  | case5 depth row ih => exact ih

/-- More open brackets around a row only add to its depth. -/
theorem depthAfter?_add {depth depth' : Nat} {row : List (Mark α)}
    (h : depthAfter? depth row = some depth') (n : Nat) :
    depthAfter? (depth + n) row = some (depth' + n) := by
  fun_induction depthAfter? depth row with
  | case1 depth => cases h; rfl
  | case2 depth a row ih => exact ih h
  | case3 depth row ih =>
    rw [depthAfter?, show depth + n + 1 = depth + 1 + n from by omega]
    exact ih h
  | case4 row => cases h
  | case5 depth row ih =>
    rw [show depth + 1 + n = depth + n + 1 from by omega, depthAfter?]
    exact ih h

/-- A balanced bracket changes no depth. -/
theorem depthAfter?_bracket {inner : List (Mark α)} (h : depthAfter? 0 inner = some 0)
    (depth : Nat) (rest : List (Mark α)) :
    depthAfter? depth (.opening :: inner ++ .closing :: rest) = depthAfter? depth rest := by
  have hdepth := depthAfter?_add h (depth + 1)
  rw [Nat.zero_add] at hdepth
  rw [List.cons_append, depthAfter?, depthAfter?_append, hdepth]
  rfl

/-- A row either has a depth or has a first closing mark that is one too many. -/
theorem isOpen_or_closes (depth : Nat) (row : List (Mark α)) :
    (∃ depth', depthAfter? depth row = some depth') ∨
      ∃ inner rest, row = inner ++ .closing :: rest ∧ depthAfter? depth inner = some 0 := by
  fun_induction depthAfter? depth row with
  | case1 depth => exact .inl ⟨depth, rfl⟩
  | case2 depth a row ih =>
    rcases ih with hopen | ⟨inner, rest, rfl, hinner⟩
    · exact .inl hopen
    · exact .inr ⟨.item a :: inner, rest, rfl, hinner⟩
  | case3 depth row ih =>
    rcases ih with hopen | ⟨inner, rest, rfl, hinner⟩
    · exact .inl hopen
    · exact .inr ⟨.opening :: inner, rest, rfl, hinner⟩
  | case4 row => exact .inr ⟨[], row, rfl, rfl⟩
  | case5 depth row ih =>
    rcases ih with hopen | ⟨inner, rest, rfl, hinner⟩
    · exact .inl hopen
    · exact .inr ⟨.closing :: inner, rest, rfl, hinner⟩

/-- **A row, taken apart from the front.**  An opening mark comes with the contents of its
    bracket. -/
theorem row_induction {motive : List (Mark α) → Prop} (nil : motive [])
    (item : ∀ a row, motive row → motive (.item a :: row))
    (closing : ∀ row, motive row → motive (.closing :: row))
    (bracket : ∀ inner rest, depthAfter? 0 inner = some 0 → motive inner → motive rest →
      motive (.opening :: inner ++ .closing :: rest))
    (unclosed : ∀ inner depth, depthAfter? 0 inner = some depth → motive inner →
      motive (.opening :: inner)) :
    ∀ row, motive row
  | [] => nil
  | .item a :: row => item a row (row_induction nil item closing bracket unclosed row)
  | .closing :: row => closing row (row_induction nil item closing bracket unclosed row)
  | .opening :: row => by
    rcases isOpen_or_closes 0 row with ⟨depth, hopen⟩ | ⟨inner, rest, hrow, hinner⟩
    · exact unclosed row depth hopen (row_induction nil item closing bracket unclosed row)
    · have hlength : row.length = inner.length + rest.length + 1 := by
        rw [hrow, List.length_append, List.length_cons]
        omega
      have hmotive := bracket inner rest hinner
        (row_induction nil item closing bracket unclosed inner)
        (row_induction nil item closing bracket unclosed rest)
      rw [hrow]
      exact hmotive
termination_by row => row.length
decreasing_by all_goals simp only [List.length_cons]; omega

/-! ## Reading with more around -/

/-- Reads a row, one position after the other. -/
def Levels.readRow (wrap : List α → α) (levels : Levels α) (row : List (Mark α)) : Levels α :=
  row.foldl (Levels.read wrap) levels

theorem Levels.readRow_append (levels : Levels α) (row row' : List (Mark α)) :
    levels.readRow wrap (row ++ row') = (levels.readRow wrap row).readRow wrap row' :=
  List.foldl_append

/-- Reading a row that has a depth leaves what stands outside it alone.  By induction on the row;
    its depth is the number of levels around the innermost one. -/
theorem Levels.readRow_outside (wrap : List α → α) (innermost : List α) (around : List (List α))
    {depth : Nat} {row : List (Mark α)} (h : depthAfter? around.length row = some depth)
    (outside : List (List α)) :
    ∃ levels : Levels α, levels.around.length = depth ∧
      Levels.readRow wrap ⟨innermost, around⟩ row = levels ∧
      Levels.readRow wrap ⟨innermost, around ++ outside⟩ row =
        ⟨levels.innermost, levels.around ++ outside⟩ := by
  induction row generalizing innermost around with
  | nil => exact ⟨⟨innermost, around⟩, Option.some.inj h, rfl, rfl⟩
  | cons mark row ih =>
    cases mark with
    | item a => exact ih (a :: innermost) around h
    | opening => exact ih [] (innermost :: around) h
    | closing =>
      -- the bracket that closes was opened in the row, or the row would have no depth
      cases around with
      | nil => cases h
      | cons outer around => exact ih (wrap innermost.reverse :: outer) around h

/-- A balanced row leaves the brackets around it as they are, and its own nested list innermost. -/
theorem Levels.readRow_balanced {inner : List (Mark α)} (h : depthAfter? 0 inner = some 0)
    (outside : List (List α)) :
    Levels.readRow wrap ⟨[], outside⟩ inner = ⟨(nest wrap inner).reverse, outside⟩ := by
  obtain ⟨⟨innermost, around⟩, hlength, hread, houtside⟩ :=
    Levels.readRow_outside wrap [] [] h outside
  obtain rfl : around = [] := List.length_eq_zero_iff.1 hlength
  have hnest : nest wrap inner = innermost.reverse := congrArg (Levels.close wrap) hread
  rw [hnest, List.reverse_reverse]
  exact houtside

/-- Reading a balanced bracket adds it, wrapped up, to what has been read. -/
theorem Levels.readRow_bracket {inner : List (Mark α)} (h : depthAfter? 0 inner = some 0)
    (base : List α) (outside : List (List α)) (rest : List (Mark α)) :
    Levels.readRow wrap ⟨base, outside⟩ (.opening :: inner ++ .closing :: rest) =
      Levels.readRow wrap ⟨wrap (nest wrap inner) :: base, outside⟩ rest := by
  rw [Levels.readRow_append]
  show Levels.readRow wrap (Levels.readRow wrap ⟨[], base :: outside⟩ inner) (.closing :: rest) = _
  rw [Levels.readRow_balanced h, Levels.readRow, List.foldl_cons, Levels.read,
    List.reverse_reverse]
  rfl

/-- A row whose brackets stay open, with a bracket around it, is the contents of that bracket. -/
theorem Levels.close_readRow_unclosed {inner : List (Mark α)} {depth : Nat}
    (h : depthAfter? 0 inner = some depth) (base : List α) :
    (Levels.readRow wrap ⟨[], [base]⟩ inner).close wrap =
      base.reverse ++ [wrap (nest wrap inner)] := by
  obtain ⟨⟨innermost, around⟩, -, hread, houtside⟩ :=
    Levels.readRow_outside wrap [] [] h [base]
  have hnest : nest wrap inner = Levels.close wrap ⟨innermost, around⟩ :=
    congrArg (Levels.close wrap) hread
  rw [hnest]
  rw [List.nil_append] at houtside
  rw [houtside]
  simp only [Levels.close, List.foldl_append, List.foldl_cons, List.foldl_nil, List.reverse_cons]

/-- **What has been read outside all brackets stays in front.**  By the recursion on the row. -/
theorem Levels.close_readRow (row : List (Mark α)) : ∀ base : List α,
    (Levels.readRow wrap ⟨base, []⟩ row).close wrap = base.reverse ++ nest wrap row := by
  induction row using row_induction with
  | nil => exact fun base => (List.append_nil base.reverse).symm
  | item a row ih =>
    intro base
    have hnest : nest wrap (.item a :: row) = [a] ++ nest wrap row := ih [a]
    have hread := ih (a :: base)
    rw [List.reverse_cons, List.append_assoc, ← hnest] at hread
    exact hread
  | closing row ih => exact ih
  | bracket inner rest hinner _ ih =>
    intro base
    have hnest : nest wrap (.opening :: inner ++ .closing :: rest) =
        [wrap (nest wrap inner)] ++ nest wrap rest :=
      (congrArg (Levels.close wrap) (Levels.readRow_bracket hinner [] [] rest)).trans (ih _)
    rw [Levels.readRow_bracket hinner, ih, hnest, List.reverse_cons, List.append_assoc]
  | unclosed inner depth hinner _ =>
    -- nothing comes behind the bracket, so the induction is not needed
    intro base
    have hnest : nest wrap (.opening :: inner) = [wrap (nest wrap inner)] :=
      Levels.close_readRow_unclosed hinner []
    rw [hnest]
    exact Levels.close_readRow_unclosed hinner base

/-! ## The recursion -/

/-- An item outside all brackets stays. -/
theorem nest_item (a : α) (row : List (Mark α)) :
    nest wrap (.item a :: row) = a :: nest wrap row :=
  Levels.close_readRow row [a]

/-- A closing mark outside all brackets is dropped. -/
theorem nest_closing (row : List (Mark α)) : nest wrap (.closing :: row) = nest wrap row :=
  rfl

/-- A balanced bracket is wrapped up. -/
theorem nest_bracket {inner : List (Mark α)} (h : depthAfter? 0 inner = some 0)
    (rest : List (Mark α)) :
    nest wrap (.opening :: inner ++ .closing :: rest) =
      wrap (nest wrap inner) :: nest wrap rest := by
  have hread : nest wrap (.opening :: inner ++ .closing :: rest) =
      (Levels.readRow wrap ⟨[wrap (nest wrap inner)], []⟩ rest).close wrap :=
    congrArg (Levels.close wrap) (Levels.readRow_bracket h [] [] rest)
  rw [hread, Levels.close_readRow]
  rfl

/-- A bracket that is never closed holds the rest of the row. -/
theorem nest_unclosed {inner : List (Mark α)} {depth : Nat}
    (h : depthAfter? 0 inner = some depth) :
    nest wrap (.opening :: inner) = [wrap (nest wrap inner)] :=
  Levels.close_readRow_unclosed h []

end Reckoner.Brackets
