/-
  Cutting a chunk by bytes.

  A program that keeps a text as its UTF-8 bytes finds a parenthesis at an offset in bytes, and
  takes what is in front of it, the parenthesis, and what is behind it as slices of bytes.  A slice
  may divide a character or run backwards; then there is no text to take.

  1. **Slices (`slice_append`)** — where a text consists of three parts, the middle one can be
     taken by the sizes of the parts, whatever characters they hold.

  2. **The loop (`cutAt_eq`)** — it cuts at the first parenthesis and goes on behind it, with fewer
     bytes each time.  Since a parenthesis is one byte, the three slices are parts of the text, and
     since a chunk can be cut at any parenthesis, what is collected are its atoms.

  3. **All chunks (`split_determined`)** — so no slice divides a character, and the result is the
     only list of atoms that has the characters of the chunk.
-/
import Mathlib.Data.List.Basic
import Reckoner.Proofs.Chunks

namespace Reckoner.Bytes

/-! ## Slices -/

/-- Why work by bytes stops without a result. -/
inductive Stop where
  /-- A slice that is no text. -/
  | slice (text : String) (start stop : Nat)
  /-- The text cannot be read. -/
  | refusal (e : LineError)

/-- The slice of a text from one byte up to another. -/
structure Slice (text : String) (start stop : Nat) where
  /-- The text that it is. -/
  content : String
  /-- It does not run backwards. -/
  ordered : start ≤ stop
  /-- It lies in the text. -/
  within : stop ≤ text.utf8ByteSize
  /-- It leaves nothing out. -/
  size_content : content.utf8ByteSize = stop - start

/-- Takes a slice out of a text.  Both of its ends have to lie between two characters. -/
def slice (text : String) (start stop : Nat) : Except Stop (Slice text start stop) :=
  if h : start ≤ stop ∧ String.Pos.Raw.IsValid text ⟨start⟩ ∧
      String.Pos.Raw.IsValid text ⟨stop⟩ then
    .ok ⟨text.extract (text.pos ⟨start⟩ h.2.1) (text.pos ⟨stop⟩ h.2.2), h.1,
      h.2.2.le_utf8ByteSize, by
        have hwithin : stop ≤ text.utf8ByteSize := h.2.2.le_utf8ByteSize
        rw [← String.size_toByteArray, String.toByteArray_extract, ByteArray.size_extract,
          String.size_toByteArray]
        exact congrArg (· - start) (Nat.min_eq_left hwithin)⟩
  else .error (.slice text start stop)

/-- The middle of three parts of a text can be taken. -/
theorem slice_append (front middle back : String) {text : String} {start stop : Nat}
    (htext : text = front ++ (middle ++ back)) (hstart : start = front.utf8ByteSize)
    (hstop : stop = start + middle.utf8ByteSize) :
    ∃ part, slice text start stop = .ok part ∧ part.content = middle := by
  have hordered : start ≤ stop := hstop ▸ Nat.le_add_right ..
  have hstartValid : String.Pos.Raw.IsValid text ⟨start⟩ :=
    String.Pos.Raw.isValid_iff_exists_append.2 ⟨front, middle ++ back, htext, by rw [hstart]; rfl⟩
  have hstopValid : String.Pos.Raw.IsValid text ⟨stop⟩ := by
    refine String.Pos.Raw.isValid_iff_exists_append.2
      ⟨front ++ middle, back, by rw [htext, String.append_assoc], String.Pos.Raw.ext ?_⟩
    rw [hstop, hstart]
    exact (String.utf8ByteSize_append ..).symm
  rw [slice, dif_pos ⟨hordered, hstartValid, hstopValid⟩]
  refine ⟨_, rfl, String.toByteArray_inj.1 ?_⟩
  show text.toByteArray.extract start stop = middle.toByteArray
  rw [htext, String.toByteArray_append, String.toByteArray_append, hstop, hstart,
    ← String.size_toByteArray, ← String.size_toByteArray, ← Nat.add_zero front.toByteArray.size,
    Nat.add_assoc, ByteArray.extract_append_size_add, Nat.zero_add,
    ByteArray.extract_append_eq_left rfl]

/-! ## The loop -/

/-- Where a character first stands in a text, in bytes. -/
def offset? (c : Char) (text : String) : Option Nat :=
  if c ∈ text.toList then
    some (String.ofList (text.toList.takeWhile (· ≠ c))).utf8ByteSize
  else none

/-- What is in front of an offset, unless nothing is. -/
def before (text : String) (offset : Nat) : Except Stop (List String) :=
  if 0 < offset then do
    let front ← slice text 0 offset
    return [front.content]
  else return []

/-- Cuts a text at each occurrence of a character, behind the atoms that were cut off before. -/
def cutAt (c : Char) (text : String) (done : List String) : Except Stop (List String) :=
  match offset? c text with
  | none => .ok (if text = "" then done else done ++ [text])
  | some offset => do
    let front ← before text offset
    let mark ← slice text offset (offset + 1)
    let rest ← slice text (offset + 1) text.utf8ByteSize
    cutAt c rest.content (done ++ front ++ [mark.content])
termination_by text.utf8ByteSize
decreasing_by
  have hordered := rest.ordered
  have hsize := rest.size_content
  omega

/-- The atoms of a chunk, cut off one by one. -/
def split (chunk : String) : Except Stop (List String) :=
  if '(' ∈ chunk.toList then
    if ')' ∈ chunk.toList then .error (.refusal (.mixedParentheses chunk))
    else cutAt '(' chunk []
  else if ')' ∈ chunk.toList then cutAt ')' chunk []
  else .ok (if chunk = "" then [] else [chunk])

/-- A character that stands behind a text without it is found behind this text. -/
theorem offset?_append {c : Char} {front : List Char} (hfront : c ∉ front) (back : List Char) :
    offset? c (String.ofList (front ++ c :: back)) = some (String.ofList front).utf8ByteSize := by
  have hmem : c ∈ front ++ c :: back := List.mem_append_right _ List.mem_cons_self
  have hother : ∀ d ∈ front, decide (d ≠ c) = true := by
    intro d hd
    exact decide_eq_true fun heq => hfront (heq ▸ hd)
  rw [offset?, String.toList_ofList, if_pos hmem, List.takeWhile_append_of_pos hother,
    List.takeWhile_cons_of_neg (by simp), List.append_nil]

example : offset? '(' "é(" = some 2 := by decide

/-- What is in front of a part of a text is a stretch, unless it is empty. -/
theorem before_append (front back : List Char) :
    before (String.ofList (front ++ back)) (String.ofList front).utf8ByteSize =
      .ok ((Chunk.consStretch front []).map String.ofList) := by
  rw [before, Chunk.consStretch]
  by_cases hnil : front = []
  · rw [hnil]
    rfl
  · have hpos : 0 < (String.ofList front).utf8ByteSize :=
      Nat.pos_of_ne_zero fun hzero =>
        hnil (String.ofList_eq_empty_iff.1 (String.utf8ByteSize_eq_zero_iff.1 hzero))
    have htext : String.ofList (front ++ back) =
        "" ++ (String.ofList front ++ String.ofList back) := by
      rw [String.empty_append, String.ofList_append]
    obtain ⟨part, hslice, hcontent⟩ :=
      slice_append "" (String.ofList front) (String.ofList back) htext
        (show 0 = "".utf8ByteSize from rfl) (Nat.zero_add _).symm
    rw [if_pos hpos, if_neg hnil, hslice]
    show Except.ok [part.content] = Except.ok [String.ofList front]
    rw [hcontent]

/-- What the loop does where the character first stands: it collects what is in front of it, unless
    that is empty, and the character, and goes on behind it. -/
theorem cutAt_append {c : Char} (hsize : c.utf8Size = 1) {front : List Char} (hfront : c ∉ front)
    (back : List Char) (done : List String) :
    cutAt c (String.ofList (front ++ c :: back)) done =
      cutAt c (String.ofList back)
        (done ++ (Chunk.consStretch front []).map String.ofList ++ [String.ofList [c]]) := by
  have hmark : (String.ofList [c]).utf8ByteSize = 1 := by
    rw [← String.singleton_eq_ofList, String.utf8ByteSize_singleton, hsize]
  have htext : String.ofList (front ++ c :: back) =
      String.ofList front ++ (String.ofList [c] ++ String.ofList back) := by
    rw [← String.ofList_append, ← String.ofList_append]
    rfl
  have hbehind : String.ofList (front ++ c :: back) =
      String.ofList front ++ String.ofList [c] ++ (String.ofList back ++ "") := by
    rw [htext, String.append_empty, String.append_assoc]
  have htotal : (String.ofList (front ++ c :: back)).utf8ByteSize =
      (String.ofList front).utf8ByteSize + 1 + (String.ofList back).utf8ByteSize := by
    rw [htext, String.utf8ByteSize_append, String.utf8ByteSize_append, hmark, Nat.add_assoc]
  obtain ⟨mark, hmarkSlice, hmarkContent⟩ :=
    slice_append (String.ofList front) (String.ofList [c]) (String.ofList back) htext rfl
      (congrArg _ hmark.symm)
  obtain ⟨rest, hrestSlice, hrestContent⟩ :=
    slice_append (String.ofList front ++ String.ofList [c]) (String.ofList back) "" hbehind
      (by rw [String.utf8ByteSize_append, hmark]) htotal
  rw [cutAt, offset?_append hfront]
  show (before _ _ >>= _) = _
  rw [before_append]
  show (slice _ _ _ >>= _) = _
  rw [hmarkSlice]
  show (slice _ _ _ >>= _) = _
  rw [hrestSlice]
  show cutAt c rest.content _ = _
  rw [hmarkContent, hrestContent]

/-- What is left behind the last occurrence is a stretch, unless it is empty. -/
theorem cutAt_plain {c : Char} {cs : List Char} (hc : c ∉ cs) (done : List String) :
    cutAt c (String.ofList cs) done =
      .ok (done ++ (Chunk.consStretch cs []).map String.ofList) := by
  rw [cutAt, offset?, String.toList_ofList, if_neg hc, Chunk.consStretch]
  by_cases hnil : cs = []
  · rw [if_pos hnil, hnil]
    exact congrArg Except.ok (List.append_nil done).symm
  · rw [if_neg hnil]
    exact congrArg Except.ok (if_neg (mt String.ofList_eq_empty_iff.1 hnil))

/-- **The loop collects the atoms of a chunk.** -/
theorem cutAt_eq {c : Char} (hc : Chunk.isParenthesis c = true) (hsize : c.utf8Size = 1)
    (cs : List Char) (honly : ∀ d ∈ cs, Chunk.isParenthesis d = true → d = c)
    (done : List String) :
    cutAt c (String.ofList cs) done = .ok (done ++ (Chunk.atoms cs).map String.ofList) := by
  -- without the character no parenthesis is left
  have hplain : ∀ front : List Char, front ⊆ cs → c ∉ front →
      ∀ d ∈ front, Chunk.isParenthesis d = false := by
    intro front hsubset hfront d hd
    refine Bool.eq_false_iff.2 fun hparenthesis => hfront ?_
    rwa [← honly d (hsubset hd) hparenthesis]
  by_cases hmem : c ∈ cs
  · obtain ⟨front, back, rfl, hfront⟩ := List.eq_append_cons_of_mem hmem
    have hback : ∀ d ∈ back, Chunk.isParenthesis d = true → d = c := fun d hd =>
      honly d (List.mem_append_right _ (List.mem_cons_of_mem _ hd))
    have hatoms := Chunk.atoms_plain (hplain front (List.subset_append_left _ _) hfront)
    rw [cutAt_append hsize hfront, cutAt_eq hc hsize back hback, Chunk.atoms_append_parenthesis hc,
      hatoms, List.map_append, List.append_assoc, List.append_assoc]
    rfl
  · rw [cutAt_plain hmem, Chunk.atoms_plain (hplain cs (List.Subset.refl _) hmem)]
termination_by cs.length

/-! ## All chunks -/

theorem split_of_mixed {chunk : String} (h : '(' ∈ chunk.toList ∧ ')' ∈ chunk.toList) :
    split chunk = .error (.refusal (.mixedParentheses chunk)) := by
  rw [split, if_pos h.1, if_pos h.2]

/-- A chunk without parentheses is its only atom, unless it is empty. -/
theorem whole_eq {chunk : String} (h : ∀ d ∈ chunk.toList, Chunk.isParenthesis d = false) :
    (if chunk = "" then [] else [chunk]) = (Chunk.atoms chunk.toList).map String.ofList := by
  rw [Chunk.atoms_plain h, Chunk.consStretch]
  by_cases hempty : chunk = ""
  · rw [hempty]
    rfl
  · have hnil : chunk.toList ≠ [] := mt String.toList_eq_nil_iff.1 hempty
    rw [if_neg hempty, if_neg hnil, List.map_singleton, String.ofList_toList]

/-- A chunk that is not refused is cut into its atoms. -/
theorem split_of_not_mixed {chunk : String} (h : ¬ ('(' ∈ chunk.toList ∧ ')' ∈ chunk.toList)) :
    split chunk = .ok ((Chunk.atoms chunk.toList).map String.ofList) := by
  have hkind : ∀ {d : Char}, Chunk.isParenthesis d = true → d = '(' ∨ d = ')' := of_decide_eq_true
  rw [split]
  by_cases hopening : '(' ∈ chunk.toList
  · have hclosing : ')' ∉ chunk.toList := fun hclosing => h ⟨hopening, hclosing⟩
    have honly : ∀ d ∈ chunk.toList, Chunk.isParenthesis d = true → d = '(' := fun d hd hd' =>
      (hkind hd').resolve_right fun heq => hclosing (heq ▸ hd)
    have hloop := cutAt_eq (c := '(') rfl rfl chunk.toList honly []
    rw [if_pos hopening, if_neg hclosing]
    rwa [String.ofList_toList] at hloop
  · rw [if_neg hopening]
    by_cases hclosing : ')' ∈ chunk.toList
    · have honly : ∀ d ∈ chunk.toList, Chunk.isParenthesis d = true → d = ')' := fun d hd hd' =>
        (hkind hd').resolve_left fun heq => hopening (heq ▸ hd)
      have hloop := cutAt_eq (c := ')') rfl rfl chunk.toList honly []
      rw [if_pos hclosing]
      rwa [String.ofList_toList] at hloop
    · have hplain : ∀ d ∈ chunk.toList, Chunk.isParenthesis d = false := by
        intro d hd
        refine Bool.eq_false_iff.2 fun hparenthesis => ?_
        rcases hkind hparenthesis with rfl | rfl
        · exact hopening hd
        · exact hclosing hd
      rw [if_neg hclosing, whole_eq hplain]

example : split "é(9" = .ok ["é", "(", "9"] := by cbv

/-- The cut by bytes is the cut by characters. -/
theorem split_eq (chunk : String) :
    split chunk =
      ((Chunk.split chunk.toList).map (List.map String.ofList)).mapError .refusal := by
  rw [Chunk.split]
  split
  · next h =>
    rw [split_of_mixed h, String.ofList_toList]
    rfl
  · next h => exact split_of_not_mixed h

/-- Texts that are atoms of a chunk are all of its atoms if together they have its characters. -/
theorem eq_map_atoms_iff {chunk : String} {atoms : List String} :
    atoms = (Chunk.atoms chunk.toList).map String.ofList ↔
      String.join atoms = chunk ∧ Chunk.AreAtoms (atoms.map String.toList) := by
  have htexts : ((Chunk.atoms chunk.toList).map String.ofList).map String.toList =
      Chunk.atoms chunk.toList := by
    rw [List.map_map]
    exact List.map_id'' (fun _ => String.toList_ofList) _
  constructor
  · rintro rfl
    rw [← String.toList_inj, String.toList_join, List.flatMap_def, htexts, Chunk.flatten_atoms]
    exact ⟨rfl, Chunk.areAtoms_atoms _⟩
  · rintro ⟨rfl, hatoms⟩
    rw [String.toList_join, List.flatMap_def, Chunk.atoms_flatten hatoms, List.map_map]
    exact (List.map_id'' (fun _ => String.ofList_toList) _).symm

/-- **The atoms of a chunk are determined by what they are.**  A chunk is refused exactly if it
    holds parentheses of both kinds; any other chunk is cut, and what it is cut into is the only
    list of parentheses and stretches, no stretch next to a stretch, that has the characters of the
    chunk.  No slice divides a character, and the cut is the one by characters. -/
theorem split_determined (chunk : String) :
    (∀ stop, split chunk = .error stop ↔
      ('(' ∈ chunk.toList ∧ ')' ∈ chunk.toList) ∧ stop = .refusal (.mixedParentheses chunk)) ∧
    (∀ atoms, split chunk = .ok atoms ↔
      ¬ ('(' ∈ chunk.toList ∧ ')' ∈ chunk.toList) ∧
        String.join atoms = chunk ∧ Chunk.AreAtoms (atoms.map String.toList)) ∧
    split chunk =
      ((Chunk.split chunk.toList).map (List.map String.ofList)).mapError .refusal := by
  refine ⟨fun stop => ?_, fun atoms => ?_, split_eq chunk⟩
  · by_cases h : '(' ∈ chunk.toList ∧ ')' ∈ chunk.toList
    · rw [split_of_mixed h, Except.error.injEq, and_iff_right h, eq_comm]
    · rw [split_of_not_mixed h]
      exact ⟨(nomatch ·), fun hmixed => (h hmixed.1).elim⟩
  · by_cases h : '(' ∈ chunk.toList ∧ ')' ∈ chunk.toList
    · rw [split_of_mixed h]
      exact ⟨(nomatch ·), fun hunmixed => (hunmixed.1 h).elim⟩
    · rw [split_of_not_mixed h, and_iff_right h, ← eq_map_atoms_iff, Except.ok.injEq, eq_comm]

end Reckoner.Bytes
