/-
  What the atoms of a chunk are.

  The atoms of a chunk are its parentheses and the stretches of other characters between them; a
  stretch is not empty and is never followed by a stretch.

  1. **No other lists (`areAtoms_atoms`, `atoms_flatten`)** — these properties determine the atoms:
     a list that has them is what its characters are cut into.

  2. **Cutting (`atoms_append_parenthesis`)** — a chunk can be cut at any of its parentheses: its
     atoms are those in front of the parenthesis, the parenthesis, and those behind it.

  3. **Changing the atoms (`atoms_rewrite`)** — so a chunk may be changed atom by atom, as long as
     parentheses stay what they are and stretches stay stretches: the changed chunk is cut where
     the chunk was cut.
-/
import Mathlib.Data.List.Chain
import Reckoner.Line.Chunk

namespace Reckoner.Chunk

/-! ## Marks and stretches -/

/-- A text is a parenthesis. -/
def IsMark (atom : List Char) : Prop :=
  ∃ c, isParenthesis c = true ∧ atom = [c]

/-- A text consists of characters other than parentheses, at least one. -/
structure IsStretch (atom : List Char) : Prop where
  ne_nil : atom ≠ []
  plain : ∀ c ∈ atom, isParenthesis c = false

theorem IsStretch.not_isMark {atom : List Char} (h : IsStretch atom) : ¬ IsMark atom := by
  rintro ⟨c, hc, rfl⟩
  rw [h.plain c List.mem_cons_self] at hc
  cases hc

/-- Some texts can be the atoms of a chunk. -/
structure AreAtoms (as : List (List Char)) : Prop where
  /-- Each is a parenthesis or a stretch. -/
  kind : ∀ a ∈ as, IsMark a ∨ IsStretch a
  /-- No stretch stands next to a stretch. -/
  apart : as.IsChain fun a b => IsMark a ∨ IsMark b

namespace AreAtoms

variable {a : List Char} {as : List (List Char)}

theorem nil : AreAtoms [] := ⟨fun _ ha => (nomatch ha), .nil⟩

theorem tail (h : AreAtoms (a :: as)) : AreAtoms as :=
  ⟨fun b hb => h.kind b (List.mem_cons_of_mem _ hb), h.apart.tail⟩

theorem cons_mark (ha : IsMark a) (h : AreAtoms as) : AreAtoms (a :: as) where
  kind := by
    intro b hb
    rcases List.mem_cons.1 hb with rfl | hb
    · exact .inl ha
    · exact h.kind b hb
  apart := by
    cases as with
    | nil => exact .singleton _
    | cons b rest => exact List.isChain_cons_cons.2 ⟨.inl ha, h.apart⟩

theorem cons_stretch (h : AreAtoms as) (ha : IsStretch a) (hnext : ∀ b ∈ as.head?, IsMark b) :
    AreAtoms (a :: as) where
  kind := by
    intro b hb
    rcases List.mem_cons.1 hb with rfl | hb
    · exact .inr ha
    · exact h.kind b hb
  apart := by
    cases as with
    | nil => exact .singleton _
    | cons b rest => exact List.isChain_cons_cons.2 ⟨.inr (hnext b rfl), h.apart⟩

theorem consStretch {stretch : List Char} (hplain : ∀ c ∈ stretch, isParenthesis c = false)
    (h : AreAtoms as) (hnext : ∀ b ∈ as.head?, IsMark b) : AreAtoms (consStretch stretch as) := by
  rw [Chunk.consStretch]
  split
  · exact h
  · next hne => exact h.cons_stretch ⟨hne, hplain⟩ hnext

/-- What stands behind a stretch is a parenthesis. -/
theorem isMark_head? (h : AreAtoms (a :: as)) (ha : IsStretch a) : ∀ b ∈ as.head?, IsMark b := by
  intro b hb
  cases as with
  | nil => cases hb
  | cons b' rest =>
    obtain rfl := Option.some.inj hb
    exact (List.isChain_cons_cons.1 h.apart).1.resolve_left ha.not_isMark

end AreAtoms

/-! ## The cut -/

/-- A parenthesis is cut off. -/
theorem atoms_mark {c : Char} (hc : isParenthesis c = true) (rest : List Char) :
    atoms (c :: rest) = [c] :: atoms rest := by
  rw [atoms, cut, if_pos hc]
  rfl

theorem cut_append {stretch : List Char} (h : ∀ c ∈ stretch, isParenthesis c = false)
    (rest : List Char) : cut (stretch ++ rest) = (stretch ++ (cut rest).1, (cut rest).2) := by
  induction stretch with
  | nil => rfl
  | cons c stretch ih =>
    have hc : ¬ isParenthesis c = true := by rw [h c List.mem_cons_self]; exact Bool.false_ne_true
    rw [List.cons_append, cut, if_neg hc, ih fun c hc => h c (List.mem_cons_of_mem _ hc)]
    rfl

/-- A stretch is cut off if a parenthesis, or nothing, stands behind it. -/
theorem atoms_stretch {stretch : List Char} (h : IsStretch stretch) {rest : List Char}
    (hrest : (cut rest).1 = []) : atoms (stretch ++ rest) = stretch :: atoms rest := by
  rw [atoms, cut_append h.plain, hrest, List.append_nil, consStretch, if_neg h.ne_nil, atoms, hrest]
  rfl

theorem consStretch_append (stretch : List Char) (as as' : List (List Char)) :
    consStretch stretch (as ++ as') = consStretch stretch as ++ as' := by
  unfold consStretch
  split
  · rfl
  · rfl

/-- A chunk can be cut at any of its parentheses. -/
theorem atoms_append_parenthesis {c : Char} (hc : isParenthesis c = true)
    (front back : List Char) : atoms (front ++ c :: back) = atoms front ++ [c] :: atoms back := by
  have hcut : cut (front ++ c :: back) = ((cut front).1, (cut front).2 ++ [c] :: atoms back) := by
    induction front with
    | nil =>
      show cut (c :: back) = ([], [c] :: atoms back)
      rw [cut, if_pos hc]
      rfl
    | cons d front ih =>
      by_cases hd : isParenthesis d = true
      · rw [List.cons_append, cut, if_pos hd, ih, cut, if_pos hd, consStretch_append]
        rfl
      · rw [List.cons_append, cut, if_neg hd, ih, cut, if_neg hd]
  rw [atoms, hcut, consStretch_append]
  rfl

/-- A chunk without parentheses is one stretch, or empty. -/
theorem atoms_plain {chunk : List Char} (h : ∀ c ∈ chunk, isParenthesis c = false) :
    atoms chunk = consStretch chunk [] := by
  have hcut := cut_append h []
  simp only [cut, List.append_nil] at hcut
  rw [atoms, hcut]

/-- What a chunk is cut into are atoms. -/
theorem areAtoms_atoms (chunk : List Char) : AreAtoms (atoms chunk) := by
  -- the stretch in front of the atoms is still growing, and a parenthesis stands behind it
  have hcut : (∀ c ∈ (cut chunk).1, isParenthesis c = false) ∧ AreAtoms (cut chunk).2 ∧
      ∀ b ∈ (cut chunk).2.head?, IsMark b := by
    induction chunk with
    | nil => exact ⟨fun _ hc => (nomatch hc), .nil, fun _ hb => (nomatch hb)⟩
    | cons c rest ih =>
      obtain ⟨hplain, hatoms, hnext⟩ := ih
      by_cases hc : isParenthesis c = true
      · have hmark : IsMark [c] := ⟨c, hc, rfl⟩
        rw [cut, if_pos hc]
        refine ⟨fun _ hc => (nomatch hc), (hatoms.consStretch hplain hnext).cons_mark hmark, ?_⟩
        intro b hb
        obtain rfl := Option.some.inj hb
        exact hmark
      · rw [cut, if_neg hc]
        refine ⟨fun d hd => ?_, hatoms, hnext⟩
        rcases List.mem_cons.1 hd with rfl | hd
        · exact Bool.eq_false_iff.2 hc
        · exact hplain d hd
  exact hcut.2.1.consStretch hcut.1 hcut.2.2

/-- **Atoms are what their characters are cut into.** -/
theorem atoms_flatten {as : List (List Char)} (h : AreAtoms as) : atoms as.flatten = as := by
  induction as with
  | nil => rfl
  | cons a rest ih =>
    have hrest := ih h.tail
    rw [List.flatten_cons]
    rcases h.kind a List.mem_cons_self with ⟨c, hc, rfl⟩ | ha
    · rw [List.singleton_append, atoms_mark hc, hrest]
    · have hcut : (cut rest.flatten).1 = [] := by
        cases rest with
        | nil => rfl
        | cons b rest =>
          obtain ⟨c, hc, rfl⟩ := h.isMark_head? ha b rfl
          rw [List.flatten_cons, List.singleton_append, cut, if_pos hc]
      rw [atoms_stretch ha hcut, hrest]

/-- A parenthesis is in a chunk exactly if it is one of its atoms. -/
theorem mem_iff_mem_atoms {c : Char} (hc : isParenthesis c = true) (chunk : List Char) :
    c ∈ chunk ↔ [c] ∈ atoms chunk := by
  constructor
  · intro h
    rw [← flatten_atoms chunk] at h
    obtain ⟨a, ha, hca⟩ := List.mem_flatten.1 h
    rcases (areAtoms_atoms chunk).kind a ha with ⟨d, -, rfl⟩ | hstretch
    · obtain rfl := List.mem_singleton.1 hca
      exact ha
    · rw [hstretch.plain c hca] at hc
      cases hc
  · intro h
    rw [← flatten_atoms chunk]
    exact List.mem_flatten.2 ⟨[c], h, List.mem_cons_self⟩

/-! ## Changing the atoms -/

/-- A way to write atoms that leaves parentheses as they are, and stretches stretches. -/
structure Rewrites (write : List Char → List Char) : Prop where
  mark : ∀ c, isParenthesis c = true → write [c] = [c]
  stretch : ∀ a, IsStretch a → IsStretch (write a)

/-- A chunk with each of its atoms written in another way. -/
def rewrite (write : List Char → List Char) (chunk : List Char) : List Char :=
  (atoms chunk).flatMap write

section
variable {write : List Char → List Char} (h : Rewrites write)
include h

theorem AreAtoms.map {as : List (List Char)} (hatoms : AreAtoms as) : AreAtoms (as.map write) where
  kind := by
    intro b hb
    obtain ⟨a, ha, rfl⟩ := List.mem_map.1 hb
    rcases hatoms.kind a ha with ⟨c, hc, rfl⟩ | ha
    · exact .inl ⟨c, hc, h.mark c hc⟩
    · exact .inr (h.stretch a ha)
  apart := by
    have hmark : ∀ {a : List Char}, IsMark a → IsMark (write a) := by
      rintro _ ⟨c, hc, rfl⟩
      exact ⟨c, hc, h.mark c hc⟩
    rw [List.isChain_map]
    exact hatoms.apart.imp fun a b => Or.imp hmark hmark

/-- **A changed chunk is cut where the chunk was cut.** -/
theorem atoms_rewrite (chunk : List Char) : atoms (rewrite write chunk) = (atoms chunk).map write := by
  rw [rewrite, List.flatMap_def, atoms_flatten ((areAtoms_atoms chunk).map h)]

/-- A changed chunk has the parentheses that the chunk has. -/
theorem mem_rewrite_iff {c : Char} (hc : isParenthesis c = true) (chunk : List Char) :
    c ∈ rewrite write chunk ↔ c ∈ chunk := by
  rw [mem_iff_mem_atoms hc, mem_iff_mem_atoms hc, atoms_rewrite h, List.mem_map]
  constructor
  · rintro ⟨a, ha, heq⟩
    rcases (areAtoms_atoms chunk).kind a ha with ⟨d, hd, rfl⟩ | hstretch
    · rw [h.mark d hd] at heq
      rw [← heq]
      exact ha
    · exact ((h.stretch a hstretch).not_isMark ⟨c, hc, heq⟩).elim
  · intro hmem
    exact ⟨[c], hmem, h.mark c hc⟩

end

end Reckoner.Chunk
