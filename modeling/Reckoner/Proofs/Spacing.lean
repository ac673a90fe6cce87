/-
  Blanks that do not matter.

  A line may be written more loosely: with more blanks at its ends, next to its blanks, and next to
  its parentheses.

  1. **Atoms (`atoms_append_blank`, `atoms_append_parenthesis`)** — a line can be cut at any blank
     and at any parenthesis: its atoms are those in front of the cut and those behind it.  So they
     stay the same wherever blanks are added at such a place (`Loosened.atoms_eq`).

  2. **Chunks (`Loosened.unmixed`)** — a blank cuts a chunk in two, and neither part holds a
     parenthesis that the chunk did not hold.  Adding blanks makes no chunk mixed; taking them away
     can, so the tokens carry over in one direction only.

  3. **Tidy lines (`atoms_tidy`)** — a line and its tidy form, in which all blanks that do not
     matter are the same, are both tight forms of a third line, so they have the same atoms.
-/
import Mathlib.Data.List.DropRight
import Reckoner.Proofs.Chunks
import Reckoner.Proofs.Reading

namespace Reckoner

/-! ## Pieces of two lists -/

namespace Text

variable {α : Type} [DecidableEq α] {separator : α}

/-- Where two lists meet, the last piece of the one and the first piece of the other are one. -/
theorem exists_pieces_append (separator : α) (front back : List α) :
    ∃ before last, pieces separator front = before ++ [last] ∧
      pieces separator (front ++ back) =
        before ++ (last ++ (cut separator back).1) :: (cut separator back).2 := by
  induction front with
  | nil => exact ⟨[], [], rfl, rfl⟩
  | cons a front ih =>
    obtain ⟨before, last, hfront, happend⟩ := ih
    by_cases ha : a = separator
    · refine ⟨[] :: before, last, ?_, ?_⟩
      · rw [pieces, cut, if_pos ha]
        exact congrArg ([] :: ·) hfront
      · rw [List.cons_append, pieces, cut, if_pos ha]
        exact congrArg ([] :: ·) happend
    · rw [pieces] at hfront happend
      -- the element belongs to the first piece, which may be the last one too
      cases before with
      | nil =>
        rw [List.nil_append, List.cons.injEq] at hfront happend
        refine ⟨[], a :: last, ?_, ?_⟩
        · rw [pieces, cut, if_neg ha, hfront.1, hfront.2]
          rfl
        · rw [List.cons_append, pieces, cut, if_neg ha, happend.1, happend.2]
          rfl
      | cons first before =>
        rw [List.cons_append, List.cons.injEq] at hfront happend
        refine ⟨(a :: first) :: before, last, ?_, ?_⟩
        · rw [pieces, cut, if_neg ha, hfront.1, hfront.2]
          rfl
        · rw [List.cons_append, pieces, cut, if_neg ha, happend.1, happend.2]
          rfl

/-- A piece of the first of two lists is part of a piece of both. -/
theorem exists_subset_of_mem_front {front : List α} (back : List α) {piece : List α}
    (h : piece ∈ pieces separator front) :
    ∃ piece' ∈ pieces separator (front ++ back), piece ⊆ piece' := by
  obtain ⟨before, last, hfront, happend⟩ := exists_pieces_append separator front back
  rw [hfront] at h
  rw [happend]
  rcases List.mem_append.1 h with h | h
  · exact ⟨piece, List.mem_append_left _ h, List.Subset.refl _⟩
  · obtain rfl := List.mem_singleton.1 h
    exact ⟨_, List.mem_append_right _ List.mem_cons_self, List.subset_append_left _ _⟩

/-- A piece of the second of two lists is part of a piece of both. -/
theorem exists_subset_of_mem_back (front : List α) {back : List α} {piece : List α}
    (h : piece ∈ pieces separator back) :
    ∃ piece' ∈ pieces separator (front ++ back), piece ⊆ piece' := by
  obtain ⟨before, last, -, happend⟩ := exists_pieces_append separator front back
  rw [happend]
  rcases List.mem_cons.1 h with rfl | h
  · exact ⟨_, List.mem_append_right _ List.mem_cons_self, List.subset_append_right _ _⟩
  · exact ⟨piece, List.mem_append_right _ (List.mem_cons_of_mem _ h), List.Subset.refl _⟩

end Text

namespace Line

variable {lastAnswer : Option Float}

/-! ## Cutting a line -/

theorem atoms_nil : atoms [] = [] := rfl

/-- A line can be cut at any blank. -/
theorem atoms_append_blank (front back : List Char) :
    atoms (front ++ ' ' :: back) = atoms front ++ atoms back := by
  rw [atoms, Text.pieces_append, List.flatMap_append]
  rfl

/-- A line can be cut at any parenthesis. -/
theorem atoms_append_parenthesis {c : Char} (hc : Chunk.isParenthesis c = true)
    (front back : List Char) : atoms (front ++ c :: back) = atoms front ++ [c] :: atoms back := by
  have hblank : c ≠ ' ' := by
    rintro rfl
    exact absurd hc (by decide)
  obtain ⟨before, last, hfront, happend⟩ := Text.exists_pieces_append ' ' front (c :: back)
  rw [Text.cut, if_neg hblank] at happend
  rw [atoms, happend, atoms, hfront, atoms, Text.pieces]
  simp only [List.flatMap_append, List.flatMap_cons, List.flatMap_nil, List.append_nil,
    Chunk.atoms_append_parenthesis hc, List.append_assoc, List.cons_append]

/-! ## Places for blanks -/

/-- A place in a line where blanks may be added: at an end, or next to a blank or a parenthesis. -/
inductive Loose : List Char → List Char → Prop
  | start (back : List Char) : Loose [] back
  | stop (front : List Char) : Loose front []
  | behindBlank (front back : List Char) : Loose (front ++ [' ']) back
  | beforeBlank (front back : List Char) : Loose front (' ' :: back)
  | behind {c : Char} (hc : Chunk.isParenthesis c = true) (front back : List Char) :
      Loose (front ++ [c]) back
  | before {c : Char} (hc : Chunk.isParenthesis c = true) (front back : List Char) :
      Loose front (c :: back)

/-- A line with blanks added, any number at each of any number of such places. -/
inductive Loosened (line : List Char) : List Char → Prop
  | refl : Loosened line line
  | add {front back : List Char} (h : Loosened line (front ++ back)) (hplace : Loose front back)
      (blanks : Nat) : Loosened line (front ++ (List.replicate blanks ' ' ++ back))

/-! ## The atoms of a loosened line -/

/-- At a place for blanks a line can be cut. -/
theorem Loose.atoms_append {front back : List Char} (h : Loose front back) :
    atoms (front ++ back) = atoms front ++ atoms back := by
  cases h with
  | start back => rfl
  | stop front => rw [List.append_nil, atoms_nil, List.append_nil]
  | behindBlank front back =>
    rw [List.append_assoc, List.singleton_append, atoms_append_blank, atoms_append_blank, atoms_nil,
      List.append_nil]
  | beforeBlank front back =>
    have hback : atoms (' ' :: back) = atoms back := atoms_append_blank [] back
    rw [atoms_append_blank, hback]
  | behind hc front back =>
    rw [List.append_assoc, List.singleton_append, atoms_append_parenthesis hc,
      atoms_append_parenthesis hc, atoms_nil, List.append_assoc]
    rfl
  | @before c hc front back =>
    have hback : atoms (c :: back) = [c] :: atoms back := atoms_append_parenthesis hc [] back
    rw [atoms_append_parenthesis hc, hback]

/-- Blanks at the front of a line do not count. -/
theorem atoms_replicate_append (blanks : Nat) (back : List Char) :
    atoms (List.replicate blanks ' ' ++ back) = atoms back := by
  induction blanks with
  | zero => rfl
  | succ blanks ih =>
    rw [List.replicate_succ, List.cons_append, ← ih]
    exact atoms_append_blank [] _

/-- **Added blanks change no atom.** -/
theorem Loosened.atoms_eq {line line' : List Char} (h : Loosened line line') :
    atoms line' = atoms line := by
  induction h with
  | refl => rfl
  | @add front back _ hplace blanks ih =>
    rw [← ih, hplace.atoms_append]
    cases blanks with
    | zero => exact hplace.atoms_append
    | succ blanks =>
      rw [List.replicate_succ, List.cons_append, atoms_append_blank, atoms_replicate_append]

/-! ## The chunks of a loosened line -/

/-- No chunk of a line holds parentheses of both kinds. -/
def Unmixed (line : List Char) : Prop :=
  ∀ chunk ∈ Text.pieces ' ' line, ¬ ('(' ∈ chunk ∧ ')' ∈ chunk)

theorem Unmixed.front {front back : List Char} (h : Unmixed (front ++ back)) : Unmixed front := by
  intro chunk hchunk hmixed
  obtain ⟨chunk', hchunk', hsubset⟩ := Text.exists_subset_of_mem_front back hchunk
  exact h chunk' hchunk' ⟨hsubset hmixed.1, hsubset hmixed.2⟩

theorem Unmixed.back {front back : List Char} (h : Unmixed (front ++ back)) : Unmixed back := by
  intro chunk hchunk hmixed
  obtain ⟨chunk', hchunk', hsubset⟩ := Text.exists_subset_of_mem_back front hchunk
  exact h chunk' hchunk' ⟨hsubset hmixed.1, hsubset hmixed.2⟩

theorem Unmixed.append_blank {front back : List Char} (hfront : Unmixed front)
    (hback : Unmixed back) : Unmixed (front ++ ' ' :: back) := by
  intro chunk hchunk
  rw [Text.pieces_append] at hchunk
  rcases List.mem_append.1 hchunk with hchunk | hchunk
  · exact hfront chunk hchunk
  · exact hback chunk hchunk

theorem Unmixed.nil : Unmixed [] := by
  intro chunk hchunk hmixed
  obtain rfl := List.mem_singleton.1 hchunk
  cases hmixed.1

/-- **Added blanks mix no chunk.** -/
theorem Loosened.unmixed {line line' : List Char} (h : Loosened line line')
    (hline : Unmixed line) : Unmixed line' := by
  induction h with
  | refl => exact hline
  | @add front back _ _ blanks ih =>
    -- all of the blanks but the first stand at the front of what is behind it
    have hback : ∀ blanks, Unmixed (List.replicate blanks ' ' ++ back) := by
      intro blanks
      induction blanks with
      | zero => exact ih.back
      | succ blanks ih => exact Unmixed.nil.append_blank ih
    cases blanks with
    | zero => exact ih
    | succ blanks => exact ih.front.append_blank (hback blanks)

/-! ## Reading a loosened line -/

/-- **A line has tokens** if no chunk is mixed, its atoms write them, and they balance. -/
theorem readChars_eq_ok_iff {line : List Char} {tokens : List Token} :
    readChars lastAnswer line = .ok tokens ↔
      Unmixed line ∧ List.Forall₂ (Writes lastAnswer) (atoms line) tokens ∧
        surplus? tokens = none := by
  constructor
  · intro h
    cases hparts : (Text.pieces ' ' line).mapM (readChunk lastAnswer) with
    | error e =>
      rw [readChars_of_fault (readChunks_eq_error_iff.1 hparts)] at h
      cases h
    | ok parts =>
      rw [readChars_of_parts hparts] at h
      cases hsurplus : surplus? parts.flatten with
      | some surplus => rw [hsurplus] at h; cases h
      | none =>
        rw [hsurplus] at h
        cases h
        refine ⟨fun chunk hchunk hmixed => ?_, writes_of_readChunks hparts, hsurplus⟩
        have hfault : ∃ e, ChunkFault lastAnswer chunk e := ⟨_, .mixed hmixed⟩
        obtain ⟨e, hfault⟩ := hfault
        have hsound : ∀ e, ¬ LineFault lastAnswer line e := by
          intro e he
          rw [readChunks_eq_error_iff.2 he] at hparts
          cases hparts
        exact Outcome.First.sound_iff.1 hsound chunk hchunk e hfault
  · rintro ⟨hunmixed, hwrites, hsurplus⟩
    have hread : (atoms line).mapM (readAtom lastAnswer) = .ok tokens :=
      Outcome.mapM_eq_ok_iff.2 (hwrites.imp fun _ _ => readAtom_of_writes)
    have hsound : ∀ atom ∈ atoms line, ∀ e, ¬ readAtom lastAnswer atom = .error e := by
      refine Outcome.First.sound_iff.1 fun e he => ?_
      rw [Outcome.mapM_eq_error_iff.2 he] at hread
      cases hread
    cases hparts : (Text.pieces ' ' line).mapM (readChunk lastAnswer) with
    | ok parts =>
      obtain rfl := eq_of_writes hwrites (writes_of_readChunks hparts)
      rw [readChars_of_parts hparts, hsurplus]
    | error e =>
      obtain ⟨chunk, hchunk, hfault⟩ := (readChunks_eq_error_iff.1 hparts).exists_mem
      cases hfault with
      | mixed hmixed => exact (hunmixed chunk hchunk hmixed).elim
      | atom _ hfirst =>
        obtain ⟨atom, hatom, hfault⟩ := hfirst.exists_mem
        have hmem : atom ∈ atoms line := List.mem_flatMap.2 ⟨chunk, hchunk, hatom⟩
        exact (hsound atom hmem e (readAtom_of_fault hfault)).elim

/-! ## Tidy lines -/

/-- A line with a blank on both sides of each parenthesis. -/
def spread (line : List Char) : List Char :=
  line.flatMap fun c => if Chunk.isParenthesis c then [' ', c, ' '] else [c]

/-- A line with one blank in the place of each run of blanks. -/
def squeeze : List Char → List Char
  | [] => []
  | c :: rest => if c = ' ' ∧ rest.head? = some ' ' then squeeze rest else c :: squeeze rest

/-- A line without the blanks at its ends. -/
def strip (line : List Char) : List Char :=
  (line.dropWhile (· = ' ')).rdropWhile (· = ' ')

/-- A line in its tidy form: each parenthesis between single blanks, no runs of blanks, and no
    blanks at the ends. -/
def tidy (line : List Char) : List Char :=
  strip (squeeze (spread line))

/-- Blanks are added around each parenthesis of the rest of a line. -/
theorem Loosened.append_spread {line front rest : List Char} (h : Loosened line (front ++ rest)) :
    Loosened line (front ++ spread rest) := by
  induction rest generalizing front with
  | nil => exact h
  | cons c rest ih =>
    rw [spread, List.flatMap_cons, ← spread]
    by_cases hc : Chunk.isParenthesis c = true
    · have hbefore : Loosened line ((front ++ [' ']) ++ [c] ++ rest) := by
        simpa using h.add (.before hc front rest) 1
      have hbehind : Loosened line ((front ++ [' ', c, ' ']) ++ rest) := by
        simpa using hbefore.add (.behind hc _ _) 1
      rw [if_pos hc, ← List.append_assoc]
      exact ih hbehind
    · rw [if_neg hc, ← List.append_assoc]
      refine ih ?_
      rwa [List.append_assoc, List.singleton_append]

/-- Blanks are added to the runs of blanks of the rest of a line. -/
theorem loosened_squeeze (front rest : List Char) :
    Loosened (front ++ squeeze rest) (front ++ rest) := by
  induction rest generalizing front with
  | nil => exact .refl
  | cons c rest ih =>
    rw [squeeze]
    split
    · next h =>
      obtain ⟨rfl, hhead⟩ := h
      obtain ⟨rest, rfl⟩ := List.head?_eq_some_iff.1 hhead
      exact (ih front).add (.beforeBlank front rest) 1
    · have hrest := ih (front ++ [c])
      rwa [List.append_assoc, List.append_assoc] at hrest

/-- Blanks are added at both ends of a line. -/
theorem loosened_strip (line : List Char) : Loosened (strip line) line := by
  have hblanks : ∀ {cs : List Char}, (∀ c ∈ cs, c = ' ') → List.replicate cs.length ' ' = cs :=
    fun h => (List.eq_replicate_iff.2 ⟨rfl, h⟩).symm
  have hfront : List.replicate (line.takeWhile (· = ' ')).length ' ' = line.takeWhile (· = ' ') :=
    hblanks fun c hc => by simpa using List.mem_takeWhile_imp hc
  have hback : List.replicate ((line.dropWhile (· = ' ')).rtakeWhile (· = ' ')).length ' ' =
      (line.dropWhile (· = ' ')).rtakeWhile (· = ' ') :=
    hblanks fun c hc => by simpa using List.mem_rtakeWhile_imp hc
  have hstop : Loosened (strip line) (strip line ++ []) := by
    rw [List.append_nil]
    exact .refl
  have hstart : Loosened (strip line) ([] ++ line.dropWhile (· = ' ')) := by
    have hadd := hstop.add (.stop (strip line))
      ((line.dropWhile (· = ' ')).rtakeWhile (· = ' ')).length
    rwa [hback, List.append_nil, strip, List.rdropWhile_append_rtakeWhile] at hadd
  have hadd := hstart.add (.start _) (line.takeWhile (· = ' ')).length
  rwa [hfront, List.nil_append, List.takeWhile_append_dropWhile] at hadd

/-- **A line and its tidy form have the same atoms.** -/
theorem atoms_tidy (line : List Char) : atoms (tidy line) = atoms line := by
  have hline : Loosened line ([] ++ line) := .refl
  have hspread : Loosened line (spread line) := hline.append_spread
  have hsqueeze : Loosened (squeeze (spread line)) (spread line) := loosened_squeeze [] _
  calc atoms (tidy line)
      = atoms (squeeze (spread line)) := (loosened_strip _).atoms_eq.symm
    _ = atoms (spread line) := hsqueeze.atoms_eq.symm
    _ = atoms line := hspread.atoms_eq

/-- **Blanks next to blanks and parentheses do not matter.**  A line that can be read is read as the
    same tokens when any number of blanks is added at its ends, next to its blanks and next to its
    parentheses.  And a line with the same tidy form that can be read has the same tokens. -/
theorem read_of_loosened {line : String} {tokens : List Token}
    (h : read lastAnswer line = .ok tokens) :
    (∀ line' : String, Loosened line.toList line'.toList → read lastAnswer line' = .ok tokens) ∧
      ∀ (line' : String) (tokens' : List Token), tidy line.toList = tidy line'.toList →
        read lastAnswer line' = .ok tokens' → tokens' = tokens := by
  obtain ⟨hunmixed, hwrites, hsurplus⟩ := readChars_eq_ok_iff.1 h
  constructor
  · intro line' hline'
    refine readChars_eq_ok_iff.2 ⟨hline'.unmixed hunmixed, ?_, hsurplus⟩
    rw [hline'.atoms_eq]
    exact hwrites
  · intro line' tokens' htidy h'
    obtain ⟨-, hwrites', -⟩ := readChars_eq_ok_iff.1 h'
    rw [← atoms_tidy, ← htidy, atoms_tidy] at hwrites'
    exact eq_of_writes hwrites' hwrites

/-- Blanks on both sides of a parenthesis, and at the end of the line. -/
theorem read_loosened_product :
    let tokens : List Token :=
      [.number "3", .operator (.binary .multiply), .opening, .number "4", .closing]
    read none "3 *(4 )" = .ok tokens ∧
      Loosened "3 *(4 )".toList "3 *  ( 4 ) ".toList ∧
      read none "3 *  ( 4 ) " = .ok tokens ∧
      tidy "3 *(4 )".toList = tidy " 3 * ( 4)".toList ∧
      ∀ tokens', read none " 3 * ( 4)" = .ok tokens' → tokens' = tokens := by
  intro tokens
  have hread : read none "3 *(4 )" = .ok tokens := rfl
  -- the line is cut at the parenthesis, behind it, and at its end
  have hbefore : Loosened "3 *(4 )".toList ("3 *".toList ++ '(' :: "4 )".toList) := .refl
  have hbehind : Loosened "3 *(4 )".toList (("3 *  ".toList ++ ['(']) ++ "4 )".toList) :=
    hbefore.add (.before rfl _ _) 2
  have hstop : Loosened "3 *(4 )".toList ("3 *  ( 4 )".toList ++ []) :=
    hbehind.add (.behind rfl _ _) 1
  have hloosened : Loosened "3 *(4 )".toList "3 *  ( 4 ) ".toList := hstop.add (.stop _) 1
  have htidy : tidy "3 *(4 )".toList = tidy " 3 * ( 4)".toList := by decide
  obtain ⟨hloose, hsame⟩ := read_of_loosened hread
  exact ⟨hread, hloosened, hloose _ hloosened, htidy, fun _ => hsame _ _ htidy⟩

end Line

end Reckoner
