/-
  The grammar of atoms.

      digits    :=  one or more of 0 … 9
      numeral   :=  digits  |  digits . digits  |  - numeral, with one sign at most
      operator  :=  the symbol of an operator
      constant  :=  the name of a constant  |  - the name of a constant
      opening   :=  (
      closing   :=  )

  `Atom.Spelled` is this grammar.  Its kinds exclude each other, so the order in which
  `Atom.ofChars?` tries them does not matter, and it decides exactly the grammar
  (`ofChars?_eq_some_iff`).  What a line is cut at, blanks and parentheses, is not part of any
  atom but the parentheses themselves (`Spelled.blank_not_mem`, `Spelled.isParenthesis_eq_false`).
-/
import Mathlib.Data.List.TakeWhile
import Reckoner.Line.Atom
import Reckoner.Line.Chunk

namespace Reckoner

/-! ## The grammar -/

/-- The characters are digits, and at least one. -/
structure Digits (cs : List Char) : Prop where
  ne_nil : cs ≠ []
  isDigit : ∀ c ∈ cs, c.isDigit = true

/-- The characters are a numeral without a sign. -/
inductive UnsignedNumeral : List Char → Prop
  | whole {cs : List Char} (h : Digits cs) : UnsignedNumeral cs
  | point {whole fraction : List Char} (hwhole : Digits whole) (hfraction : Digits fraction) :
      UnsignedNumeral (whole ++ '.' :: fraction)

/-- The characters are a numeral. -/
inductive Numeral : List Char → Prop
  | unsigned {cs : List Char} (h : UnsignedNumeral cs) : Numeral cs
  | negative {cs : List Char} (h : UnsignedNumeral cs) : Numeral ('-' :: cs)

/-- How an atom is written. -/
inductive Atom.Spelled : Atom → List Char → Prop
  | numeral {cs : List Char} (h : Numeral cs) : Spelled .numeral cs
  | operator (op : Operator) : Spelled (.operator op) op.symbol.toList
  | constant (named : Constant) : Spelled (.constant ⟨named, false⟩) named.name.toList
  | negated (named : Constant) : Spelled (.constant ⟨named, true⟩) ('-' :: named.name.toList)
  | opening : Spelled .opening ['(']
  | closing : Spelled .closing [')']

namespace Atom

/-! ## Numerals are recognized -/

theorem areDigits_iff {cs : List Char} : areDigits cs = true ↔ Digits cs := by
  rw [areDigits, Bool.and_eq_true, Bool.not_eq_true', List.isEmpty_eq_false_iff, List.all_eq_true]
  exact ⟨fun h => ⟨h.1, h.2⟩, fun h => ⟨h.ne_nil, h.isDigit⟩⟩

theorem isUnsignedNumeral_iff {cs : List Char} :
    isUnsignedNumeral cs = true ↔ UnsignedNumeral cs := by
  constructor
  · intro h
    obtain ⟨hwhole, hrest⟩ := Bool.and_eq_true_iff.1 h
    have hcs : cs.takeWhile Char.isDigit ++ cs.dropWhile Char.isDigit = cs :=
      List.takeWhile_append_dropWhile
    split at hrest
    · next hdrop =>
      rw [hdrop, List.append_nil] at hcs
      rw [hcs] at hwhole
      exact .whole (areDigits_iff.1 hwhole)
    · next fraction hdrop =>
      rw [hdrop] at hcs
      rw [← hcs]
      exact .point (areDigits_iff.1 hwhole) (areDigits_iff.1 hrest)
    · cases hrest
  · intro h
    cases h with
    | whole h =>
      have htake : cs.takeWhile Char.isDigit = cs := List.takeWhile_eq_self_iff.2 h.isDigit
      have hdrop : cs.dropWhile Char.isDigit = [] := List.dropWhile_eq_nil_iff.2 h.isDigit
      rw [isUnsignedNumeral, htake, hdrop, areDigits_iff.2 h]
      rfl
    | @point whole fraction hwhole hfraction =>
      have htake : (whole ++ '.' :: fraction).takeWhile Char.isDigit = whole := by
        rw [List.takeWhile_append_of_pos hwhole.isDigit, List.takeWhile_cons_of_neg (by decide),
          List.append_nil]
      have hdrop : (whole ++ '.' :: fraction).dropWhile Char.isDigit = '.' :: fraction := by
        rw [List.dropWhile_append_of_pos hwhole.isDigit, List.dropWhile_cons_of_neg (by decide)]
      rw [isUnsignedNumeral, htake, hdrop, areDigits_iff.2 hwhole]
      exact areDigits_iff.2 hfraction

theorem splitMinus_digits {digits : List Char} (h : Digits digits) (rest : List Char) :
    splitMinus (digits ++ rest) = (false, digits ++ rest) := by
  obtain ⟨d, digits, rfl⟩ := List.exists_cons_of_ne_nil h.ne_nil
  have hd : d ≠ '-' := by
    rintro rfl
    exact absurd (h.isDigit '-' List.mem_cons_self) (by decide)
  rw [List.cons_append, splitMinus]
  exact fun rest' heq => hd (List.cons.inj heq).1

/-- A numeral without a sign begins with a digit, so no minus sign is split off. -/
theorem splitMinus_of_unsignedNumeral {cs : List Char} (h : UnsignedNumeral cs) :
    splitMinus cs = (false, cs) := by
  cases h with
  | whole h =>
    have hsplit := splitMinus_digits h []
    rwa [List.append_nil] at hsplit
  | point hwhole _ => exact splitMinus_digits hwhole _

theorem isNumeral_iff {cs : List Char} : isNumeral cs = true ↔ Numeral cs := by
  rw [isNumeral, isUnsignedNumeral_iff]
  constructor
  · intro h
    unfold splitMinus at h
    split at h
    · exact .negative h
    · exact .unsigned h
  · intro h
    cases h with
    | unsigned h => rw [splitMinus_of_unsignedNumeral h]; exact h
    | negative h => exact h

/-! ## The characters of an atom -/

theorem mem_unsignedNumeral {cs : List Char} (h : UnsignedNumeral cs) :
    ∀ c ∈ cs, c.isDigit = true ∨ c = '.' := by
  cases h with
  | whole h => exact fun c hc => .inl (h.isDigit c hc)
  | point hwhole hfraction =>
    intro c hc
    rcases List.mem_append.1 hc with hc | hc
    · exact .inl (hwhole.isDigit c hc)
    · rcases List.mem_cons.1 hc with rfl | hc
      · exact .inr rfl
      · exact .inl (hfraction.isDigit c hc)

/-- A numeral consists of digits, points and minus signs. -/
theorem mem_numeral {cs : List Char} (h : Numeral cs) :
    ∀ c ∈ cs, c.isDigit = true ∨ c = '.' ∨ c = '-' := by
  have hunsigned : ∀ {cs : List Char}, UnsignedNumeral cs →
      ∀ c ∈ cs, c.isDigit = true ∨ c = '.' ∨ c = '-' := by
    intro cs h c hc
    rcases mem_unsignedNumeral h c hc with hc | hc
    · exact .inl hc
    · exact .inr (.inl hc)
  cases h with
  | unsigned h => exact hunsigned h
  | negative h =>
    intro c hc
    rcases List.mem_cons.1 hc with rfl | hc
    · exact .inr (.inr rfl)
    · exact hunsigned h c hc

theorem not_mem_numeral {cs : List Char} (h : Numeral cs) {c : Char} (hdigit : c.isDigit = false)
    (hpoint : c ≠ '.') (hminus : c ≠ '-') : c ∉ cs := by
  intro hmem
  rcases mem_numeral h c hmem with hc | hc | hc
  · rw [hdigit] at hc; cases hc
  · exact hpoint hc
  · exact hminus hc

/-- Only the two parentheses are written with parentheses. -/
theorem Spelled.isParenthesis_eq_false {atom : Atom} {cs : List Char} (h : atom.Spelled cs)
    (hopening : atom ≠ .opening) (hclosing : atom ≠ .closing) :
    ∀ c ∈ cs, Chunk.isParenthesis c = false := by
  -- the spellings of operators and constants are compared one by one
  have hnone : ∀ {cs : List Char}, cs.any Chunk.isParenthesis = false →
      ∀ c ∈ cs, Chunk.isParenthesis c = false := by
    intro cs hany c hc
    rw [Bool.eq_false_iff]
    exact List.any_eq_false.1 hany c hc
  cases h with
  | numeral h =>
    intro c hc
    rw [Bool.eq_false_iff]
    intro hparenthesis
    rcases of_decide_eq_true hparenthesis with rfl | rfl
    · exact not_mem_numeral h (by decide) (by decide) (by decide) hc
    · exact not_mem_numeral h (by decide) (by decide) (by decide) hc
  | operator op =>
    cases op with
    | binary op => cases op <;> exact hnone (by decide)
    | function f => cases f <;> exact hnone (by decide)
    | factorial => exact hnone (by decide)
  | constant named => cases named <;> exact hnone (by decide)
  | negated named => cases named <;> exact hnone (by decide)
  | opening => exact (hopening rfl).elim
  | closing => exact (hclosing rfl).elim

/-- No atom is written with a blank. -/
theorem Spelled.blank_not_mem {atom : Atom} {cs : List Char} (h : atom.Spelled cs) :
    ' ' ∉ cs := by
  cases h with
  | numeral h => exact not_mem_numeral h (by decide) (by decide) (by decide)
  | operator op =>
    cases op with
    | binary op => cases op <;> decide
    | function f => cases f <;> decide
    | factorial => decide
  | constant named => cases named <;> decide
  | negated named => cases named <;> decide
  | opening => decide
  | closing => decide

/-- No atom is empty. -/
theorem Spelled.ne_nil {atom : Atom} {cs : List Char} (h : atom.Spelled cs) : cs ≠ [] := by
  cases h with
  | numeral h =>
    cases h with
    | unsigned h =>
      cases h with
      | whole h => exact h.ne_nil
      | point _ _ => simp
    | negative _ => exact List.cons_ne_nil _ _
  | operator op =>
    cases op with
    | binary op => cases op <;> decide
    | function f => cases f <;> decide
    | factorial => decide
  | constant named => cases named <;> decide
  | negated named => exact List.cons_ne_nil _ _
  | opening => exact List.cons_ne_nil _ _
  | closing => exact List.cons_ne_nil _ _

/-! ## The grammar is decided -/

theorem toList_of_ofName? {cs : List Char} {named : Constant}
    (h : Constant.ofName? (String.ofList cs) = some named) : cs = named.name.toList := by
  rw [← Constant.ofName?_eq_some_iff.1 h, String.toList_ofList]

theorem spelled_of_constant? {cs : List Char} {constant : SignedConstant}
    (h : constant? cs = some constant) : Spelled (.constant constant) cs := by
  by_cases hminus : ∃ rest, cs = '-' :: rest
  · obtain ⟨rest, rfl⟩ := hminus
    obtain ⟨named, hnamed, rfl⟩ := Option.map_eq_some_iff.1 h
    have hrest : rest = named.name.toList := toList_of_ofName? hnamed
    rw [hrest]
    exact .negated named
  · have hsplit : splitMinus cs = (false, cs) := by
      unfold splitMinus
      split
      · next rest => exact (hminus ⟨rest, rfl⟩).elim
      · rfl
    rw [constant?, hsplit] at h
    obtain ⟨named, hnamed, rfl⟩ := Option.map_eq_some_iff.1 h
    have hcs : cs = named.name.toList := toList_of_ofName? hnamed
    rw [hcs]
    exact .constant named

/-- **The grammar of atoms is decided.** -/
theorem ofChars?_eq_some_iff {cs : List Char} {atom : Atom} :
    ofChars? cs = some atom ↔ atom.Spelled cs := by
  constructor
  · intro h
    unfold ofChars? at h
    split at h
    · next hopening => cases h; rw [hopening]; exact .opening
    split at h
    · next hclosing => cases h; rw [hclosing]; exact .closing
    split at h
    · next hnumeral => cases h; exact .numeral (isNumeral_iff.1 hnumeral)
    split at h
    · next op hop =>
      cases h
      have hcs : cs = op.symbol.toList := by
        rw [← Operator.ofSymbol?_eq_some_iff.1 hop, String.toList_ofList]
      rw [hcs]
      exact .operator op
    · obtain ⟨constant, hconstant, rfl⟩ := Option.map_eq_some_iff.1 h
      exact spelled_of_constant? hconstant
  · intro h
    cases h with
    | numeral h =>
      have hopening : cs ≠ ['('] := by
        rintro rfl
        exact not_mem_numeral h (by decide) (by decide) (by decide) List.mem_cons_self
      have hclosing : cs ≠ [')'] := by
        rintro rfl
        exact not_mem_numeral h (by decide) (by decide) (by decide) List.mem_cons_self
      rw [ofChars?, if_neg hopening, if_neg hclosing, if_pos (isNumeral_iff.2 h)]
    | operator op =>
      cases op with
      | binary op => cases op <;> decide
      | function f => cases f <;> decide
      | factorial => decide
    | constant named => cases named <;> decide
    | negated named => cases named <;> decide
    | opening => rfl
    | closing => rfl

end Atom

end Reckoner
