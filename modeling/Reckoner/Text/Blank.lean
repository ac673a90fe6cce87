/-
  Blank characters, and texts without them at their ends.

  The table holds the 25 characters that Unicode gives the property `White_Space`.

  The main statements are `trimChars_eq_iff` and, for texts, `trim_eq_iff`: trimming takes away
  all blank characters at both ends and nothing else.  What is left is the one text without blank
  ends (`IsTrimmed`) that the whole is made of by putting blank characters around it.
-/

namespace Reckoner.Text

/-- Whether a character has the property `White_Space`. -/
def isBlank (c : Char) : Bool :=
  let n := c.toNat
  (0x9 ≤ n && n ≤ 0xD) || n = 0x20 || n = 0x85 || n = 0xA0 || n = 0x1680
    || (0x2000 ≤ n && n ≤ 0x200A) || n = 0x2028 || n = 0x2029 || n = 0x202F || n = 0x205F
    || n = 0x3000

/-- The characters without the blank ones at both ends. -/
def trimChars (cs : List Char) : List Char :=
  ((cs.dropWhile isBlank).reverse.dropWhile isBlank).reverse

/-- A text without the blank characters at both ends. -/
def trim (text : String) : String :=
  String.ofList (trimChars text.toList)

/-! ## What trimming leaves -/

/-- Neither the first character nor the last is blank. -/
structure IsTrimmed (cs : List Char) : Prop where
  first : ∀ c ∈ cs.head?, isBlank c = false
  last : ∀ c ∈ cs.getLast?, isBlank c = false

/-- `cs` is `middle` with blank characters around it. -/
def Pads (middle cs : List Char) : Prop :=
  ∃ front back, cs = front ++ middle ++ back ∧ (∀ c ∈ front, isBlank c = true) ∧
    ∀ c ∈ back, isBlank c = true

/-- Dropping the blank characters in front leaves the rest that does not begin with one. -/
theorem dropWhile_isBlank_eq_iff {cs rest : List Char} :
    cs.dropWhile isBlank = rest ↔
      ∃ front, cs = front ++ rest ∧ (∀ c ∈ front, isBlank c = true) ∧
        ∀ c ∈ rest.head?, isBlank c = false := by
  constructor
  · rintro rfl
    refine ⟨cs.takeWhile isBlank, List.takeWhile_append_dropWhile.symm,
      List.all_eq_true.1 List.all_takeWhile, fun c hc => ?_⟩
    have hnot := List.head?_dropWhile_not isBlank cs
    rw [Option.mem_def.1 hc] at hnot
    exact hnot
  · rintro ⟨front, rfl, hfront, hrest⟩
    rw [List.dropWhile_append_of_pos hfront]
    cases rest with
    | nil => rfl
    | cons c rest => rw [List.dropWhile_cons_of_neg (by simp [hrest c rfl])]

theorem pads_trimChars (cs : List Char) : Pads (trimChars cs) cs := by
  obtain ⟨front, hcs, hfront, -⟩ := dropWhile_isBlank_eq_iff.1 (Eq.refl (cs.dropWhile isBlank))
  obtain ⟨back, hrest, hback, -⟩ :=
    dropWhile_isBlank_eq_iff.1 (Eq.refl ((cs.dropWhile isBlank).reverse.dropWhile isBlank))
  refine ⟨front, back.reverse, ?_, hfront, fun c hc => hback c (List.mem_reverse.1 hc)⟩
  rw [trimChars, List.append_assoc, ← List.reverse_append, ← hrest, List.reverse_reverse, ← hcs]

theorem isTrimmed_trimChars (cs : List Char) : IsTrimmed (trimChars cs) := by
  obtain ⟨-, -, -, hfirst⟩ := dropWhile_isBlank_eq_iff.1 (Eq.refl (cs.dropWhile isBlank))
  obtain ⟨back, hrest, -, hlast⟩ :=
    dropWhile_isBlank_eq_iff.1 (Eq.refl ((cs.dropWhile isBlank).reverse.dropWhile isBlank))
  constructor
  · -- the first character that is left stands first already before the end is trimmed
    intro c hc
    apply hfirst c
    rw [← List.reverse_reverse (cs.dropWhile isBlank), hrest, List.reverse_append,
      List.head?_append]
    rw [trimChars] at hc
    rw [Option.mem_def.1 hc]
    rfl
  · intro c hc
    rw [trimChars, List.getLast?_reverse] at hc
    exact hlast c hc

/-- What has no blank ends is found again between blank characters. -/
theorem trimChars_of_pads {middle cs : List Char} (hpads : Pads middle cs)
    (htrimmed : IsTrimmed middle) : trimChars cs = middle := by
  obtain ⟨front, back, rfl, hfront, hback⟩ := hpads
  cases middle with
  | nil =>
    have hblank : ∀ c ∈ front ++ [] ++ back, isBlank c = true := by
      intro c hc
      rw [List.append_nil] at hc
      exact (List.mem_append.1 hc).elim (hfront c) (hback c)
    have hdrop : (front ++ [] ++ back).dropWhile isBlank = [] :=
      dropWhile_isBlank_eq_iff.2 ⟨_, (List.append_nil _).symm, hblank, nofun⟩
    rw [trimChars, hdrop]
    rfl
  | cons c middle =>
    have hdrop : (front ++ c :: middle ++ back).dropWhile isBlank = c :: middle ++ back :=
      dropWhile_isBlank_eq_iff.2 ⟨front, List.append_assoc .., hfront, htrimmed.first⟩
    have hlast : ∀ d ∈ (c :: middle).reverse.head?, isBlank d = false := by
      rw [List.head?_reverse]
      exact htrimmed.last
    rw [trimChars, hdrop, List.reverse_append,
      dropWhile_isBlank_eq_iff.2 ⟨back.reverse, rfl, by simpa using hback, hlast⟩,
      List.reverse_reverse]

/-- **Trimming takes away the blank ends** and nothing else. -/
theorem trimChars_eq_iff {cs middle : List Char} :
    trimChars cs = middle ↔ Pads middle cs ∧ IsTrimmed middle := by
  constructor
  · rintro rfl
    exact ⟨pads_trimChars cs, isTrimmed_trimChars cs⟩
  · rintro ⟨hpads, htrimmed⟩
    exact trimChars_of_pads hpads htrimmed

theorem trim_eq_iff {text word : String} :
    trim text = word ↔ Pads word.toList text.toList ∧ IsTrimmed word.toList := by
  rw [trim, ← trimChars_eq_iff, ← String.toList_inj, String.toList_ofList]

end Reckoner.Text
