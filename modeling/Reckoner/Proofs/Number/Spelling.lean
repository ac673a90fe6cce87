/-
  Which texts are numbers.

      sign      :=  nothing  |  -  |  +
      exponent  :=  nothing  |  e sign digits  |  E sign digits
      unsigned  :=  inf  |  infinity  |  nan, in any letter case
                 |  digits exponent
                 |  digits . digits exponent, with digits missing on one side of the point at most
      number    :=  sign unsigned

  1. **The reader (`exists_read?_iff`)** — a text is read as a number exactly if it is one by this
     grammar (`Spelled`).  Each part of the reader decides its part of the grammar: what it cuts off
     in front is all there is of this part, since no exponent begins with a digit or a point, and no
     number without a sign begins with a sign.

  2. **Numerals (`spelled_of_numeral`)** — every numeral of a line is a number.  Numerals have a
     grammar of their own, which knows no words, no exponents and no plus signs.
-/
import Mathlib.Data.List.Basic
import Reckoner.Number.Text
import Reckoner.Proofs.Atoms

namespace Reckoner.Number

/-! ## The grammar -/

/-- A sign, or none. -/
inductive SignText : List Char → Prop
  | none : SignText []
  | minus : SignText ['-']
  | plus : SignText ['+']

/-- An exponent behind the digits, or none. -/
inductive ExponentText : List Char → Prop
  | none : ExponentText []
  | some {mark : Char} {sign digits : List Char} (hmark : mark = 'e' ∨ mark = 'E')
      (hsign : SignText sign) (hdigits : Digits digits) : ExponentText (mark :: (sign ++ digits))

/-- The words for the numbers that have no digits, in small letters. -/
def words : List (List Char) := ["inf".toList, "infinity".toList, "nan".toList]

/-- A number without a sign. -/
inductive UnsignedText : List Char → Prop
  | word {cs : List Char} (h : cs.map Char.toLower ∈ words) : UnsignedText cs
  | whole {digits exponent : List Char} (hdigits : Digits digits)
      (hexponent : ExponentText exponent) : UnsignedText (digits ++ exponent)
  | point {whole fraction exponent : List Char} (hdigits : Digits (whole ++ fraction))
      (hexponent : ExponentText exponent) : UnsignedText (whole ++ '.' :: (fraction ++ exponent))

/-- A number. -/
inductive Spelled : List Char → Prop
  | signed {sign cs : List Char} (hsign : SignText sign) (h : UnsignedText cs) :
      Spelled (sign ++ cs)

/-! ## Signs -/

/-- What is split off in front is a sign. -/
theorem exists_signText (cs : List Char) :
    ∃ sign, SignText sign ∧ sign ++ (splitSign cs).2 = cs := by
  unfold splitSign
  split
  · exact ⟨['-'], .minus, rfl⟩
  · exact ⟨['+'], .plus, rfl⟩
  · exact ⟨[], .none, rfl⟩

/-- A sign is split off, and nothing more if no other sign follows. -/
theorem splitSign_append {sign cs : List Char} (hsign : SignText sign)
    (hminus : cs.head? ≠ some '-') (hplus : cs.head? ≠ some '+') :
    (splitSign (sign ++ cs)).2 = cs := by
  cases hsign with
  | minus => rfl
  | plus => rfl
  | none =>
    show (splitSign cs).2 = cs
    unfold splitSign
    split
    · exact (hminus rfl).elim
    · exact (hplus rfl).elim
    · rfl

/-- Digits do not begin with a character that is no digit. -/
theorem head?_ne_of_digits {digits : List Char} (h : Digits digits) {c : Char}
    (hc : c.isDigit = false) : digits.head? ≠ some c := by
  intro hhead
  have hdigit := h.isDigit c (List.mem_of_head? hhead)
  rw [hc] at hdigit
  cases hdigit

/-! ## Exponents -/

theorem isSome_readDigits?_iff {cs : List Char} : (readDigits? cs).isSome = true ↔ Digits cs := by
  have hdigits : (cs ≠ [] ∧ cs.all Char.isDigit = true) ↔ Digits cs := by
    rw [List.all_eq_true]
    exact ⟨fun h => ⟨h.1, h.2⟩, fun h => ⟨h.ne_nil, h.isDigit⟩⟩
  rw [readDigits?, ← hdigits]
  split
  · next h => exact ⟨fun _ => h, fun _ => rfl⟩
  · next h => exact ⟨(nomatch ·), fun hsome => (h hsome).elim⟩

theorem isSome_readExponent?_cons {mark : Char} (hmark : mark = 'e' ∨ mark = 'E')
    (rest : List Char) :
    (readExponent? (mark :: rest)).isSome = (readDigits? (splitSign rest).2).isSome := by
  rw [readExponent?, if_pos hmark, Option.isSome_map]
  cases readDigits? (splitSign rest).2 <;> rfl

theorem isSome_readExponent?_iff {cs : List Char} :
    (readExponent? cs).isSome = true ↔ ExponentText cs := by
  constructor
  · intro h
    cases cs with
    | nil => exact .none
    | cons mark rest =>
      by_cases hmark : mark = 'e' ∨ mark = 'E'
      · rw [isSome_readExponent?_cons hmark, isSome_readDigits?_iff] at h
        obtain ⟨sign, hsign, hrest⟩ := exists_signText rest
        rw [← hrest]
        exact .some hmark hsign h
      · rw [readExponent?, if_neg hmark] at h
        cases h
  · intro h
    cases h with
    | none => rfl
    | @some mark sign digits hmark hsign hdigits =>
      have hminus := head?_ne_of_digits (c := '-') hdigits (by decide)
      have hplus := head?_ne_of_digits (c := '+') hdigits (by decide)
      rw [isSome_readExponent?_cons hmark, splitSign_append hsign hminus hplus]
      exact isSome_readDigits?_iff.2 hdigits

namespace ExponentText

variable {exponent : List Char} (h : ExponentText exponent)
include h

/-- No exponent begins with a digit or a point. -/
theorem cases_head :
    exponent = [] ∨ ∃ c rest, exponent = c :: rest ∧ c.isDigit = false ∧ c ≠ '.' := by
  cases h with
  | none => exact .inl rfl
  | some hmark _ _ =>
    refine .inr ⟨_, _, rfl, ?_⟩
    rcases hmark with rfl | rfl
    · decide
    · decide

theorem takeWhile_digits {digits : List Char} (hdigits : ∀ c ∈ digits, c.isDigit = true) :
    (digits ++ exponent).takeWhile Char.isDigit = digits := by
  rw [List.takeWhile_append_of_pos hdigits]
  rcases h.cases_head with rfl | ⟨c, rest, rfl, hc, -⟩
  · exact List.append_nil digits
  · rw [List.takeWhile_cons_of_neg (Bool.eq_false_iff.1 hc), List.append_nil]

theorem dropWhile_digits {digits : List Char} (hdigits : ∀ c ∈ digits, c.isDigit = true) :
    (digits ++ exponent).dropWhile Char.isDigit = exponent := by
  rw [List.dropWhile_append_of_pos hdigits]
  rcases h.cases_head with rfl | ⟨c, rest, rfl, hc, -⟩
  · rfl
  · exact List.dropWhile_cons_of_neg (Bool.eq_false_iff.1 hc)

end ExponentText

/-! ## Digits -/

/-- What is split is put together again, with a point between the digits or without. -/
theorem splitDigits_spec (cs : List Char) {whole fraction rest : List Char}
    (h : splitDigits cs = (whole, fraction, rest)) :
    cs = whole ++ rest ∧ fraction = [] ∨ cs = whole ++ '.' :: (fraction ++ rest) := by
  have hcs : cs.takeWhile Char.isDigit ++ cs.dropWhile Char.isDigit = cs :=
    List.takeWhile_append_dropWhile
  unfold splitDigits at h
  split at h
  · next behind hdrop =>
    cases h
    rw [hdrop] at hcs
    rw [List.takeWhile_append_dropWhile]
    exact .inr hcs.symm
  · cases h
    exact .inl ⟨hcs.symm, rfl⟩

theorem splitDigits_whole {digits exponent : List Char} (hdigits : ∀ c ∈ digits, c.isDigit = true)
    (h : ExponentText exponent) : splitDigits (digits ++ exponent) = (digits, [], exponent) := by
  rw [splitDigits, h.takeWhile_digits hdigits, h.dropWhile_digits hdigits]
  rcases h.cases_head with rfl | ⟨c, rest, rfl, -, hpoint⟩
  · rfl
  · split
    · next heq => exact (hpoint (List.cons.inj heq).1).elim
    · rfl

theorem splitDigits_point {whole fraction exponent : List Char}
    (hwhole : ∀ c ∈ whole, c.isDigit = true) (hfraction : ∀ c ∈ fraction, c.isDigit = true)
    (h : ExponentText exponent) :
    splitDigits (whole ++ '.' :: (fraction ++ exponent)) = (whole, fraction, exponent) := by
  have htake : (whole ++ '.' :: (fraction ++ exponent)).takeWhile Char.isDigit = whole := by
    rw [List.takeWhile_append_of_pos hwhole, List.takeWhile_cons_of_neg (by decide),
      List.append_nil]
  have hdrop : (whole ++ '.' :: (fraction ++ exponent)).dropWhile Char.isDigit =
      '.' :: (fraction ++ exponent) := by
    rw [List.dropWhile_append_of_pos hwhole, List.dropWhile_cons_of_neg (by decide)]
  rw [splitDigits, hdrop, htake]
  simp only [h.takeWhile_digits hfraction, h.dropWhile_digits hfraction]

theorem isSome_readDecimal?_iff {cs whole fraction rest : List Char}
    (h : splitDigits cs = (whole, fraction, rest)) :
    (readDecimal? cs).isSome = true ↔ Digits (whole ++ fraction) ∧ ExponentText rest := by
  rw [← isSome_readDigits?_iff, ← isSome_readExponent?_iff, readDecimal?, h]
  cases hdigits : readDigits? (whole ++ fraction) with
  | none => simp [hdigits]
  | some units => simp [hdigits]

/-! ## Numbers -/

/-- A number without a sign is a word or is written in digits. -/
theorem isSome_readUnsigned?_iff_or {cs : List Char} :
    (readUnsigned? cs).isSome = true ↔
      cs.map Char.toLower ∈ words ∨ (readDecimal? cs).isSome = true := by
  rw [readUnsigned?, words, List.mem_cons, List.mem_cons, List.mem_singleton, ← or_assoc]
  split
  · next hinfinite => exact ⟨fun _ => .inl (.inl hinfinite), fun _ => rfl⟩
  · next hinfinite =>
    split
    · next hnan => exact ⟨fun _ => .inl (.inr hnan), fun _ => rfl⟩
    · next hnan => rw [or_iff_right (not_or.2 ⟨hinfinite, hnan⟩)]

theorem isSome_readUnsigned?_iff {cs : List Char} :
    (readUnsigned? cs).isSome = true ↔ UnsignedText cs := by
  rw [isSome_readUnsigned?_iff_or]
  constructor
  · rintro (hword | hdecimal)
    · exact .word hword
    · rcases hsplit : splitDigits cs with ⟨whole, fraction, rest⟩
      obtain ⟨hdigits, hexponent⟩ := (isSome_readDecimal?_iff hsplit).1 hdecimal
      rcases splitDigits_spec cs hsplit with ⟨rfl, rfl⟩ | rfl
      · rw [List.append_nil] at hdigits
        exact .whole hdigits hexponent
      · exact .point hdigits hexponent
  · intro h
    cases h with
    | word hword => exact .inl hword
    | whole hdigits hexponent =>
      have hsplit := splitDigits_whole hdigits.isDigit hexponent
      refine .inr ((isSome_readDecimal?_iff hsplit).2 ⟨?_, hexponent⟩)
      rwa [List.append_nil]
    | point hdigits hexponent =>
      obtain ⟨hwhole, hfraction⟩ := List.forall_mem_append.1 hdigits.isDigit
      have hsplit := splitDigits_point hwhole hfraction hexponent
      exact .inr ((isSome_readDecimal?_iff hsplit).2 ⟨hdigits, hexponent⟩)

/-- A number without a sign begins with a digit, a point, or the letter of a word. -/
theorem UnsignedText.head?_ne {cs : List Char} (h : UnsignedText cs) {c : Char}
    (hdigit : c.isDigit = false) (hpoint : c ≠ '.') (hletter : c.toLower ≠ 'i' ∧ c.toLower ≠ 'n') :
    cs.head? ≠ some c := by
  cases h with
  | word hword =>
    intro hhead
    obtain ⟨rest, rfl⟩ := List.head?_eq_some_iff.1 hhead
    rw [words, List.mem_cons, List.mem_cons, List.mem_singleton] at hword
    rcases hword with hinf | hinfinity | hnan
    · exact hletter.1 (List.cons.inj hinf).1
    · exact hletter.1 (List.cons.inj hinfinity).1
    · exact hletter.2 (List.cons.inj hnan).1
  | whole hdigits _ =>
    rw [List.head?_append_of_ne_nil _ hdigits.ne_nil]
    exact head?_ne_of_digits hdigits hdigit
  | @point whole fraction exponent hdigits _ =>
    by_cases hwhole : whole = []
    · rw [hwhole]
      exact fun hhead => hpoint (Option.some.inj hhead).symm
    · have hhead := head?_ne_of_digits hdigits hdigit
      rw [List.head?_append_of_ne_nil _ hwhole] at hhead ⊢
      exact hhead

theorem isSome_readChars?_iff {cs : List Char} : (readChars? cs).isSome = true ↔ Spelled cs := by
  rw [readChars?, Option.isSome_map, isSome_readUnsigned?_iff]
  constructor
  · intro h
    obtain ⟨sign, hsign, hcs⟩ := exists_signText cs
    rw [← hcs]
    exact .signed hsign h
  · intro h
    cases h with
    | signed hsign h =>
      have hminus := h.head?_ne (c := '-') (by decide) (by decide) (by decide)
      have hplus := h.head?_ne (c := '+') (by decide) (by decide) (by decide)
      rwa [splitSign_append hsign hminus hplus]

/-- **A text is read exactly if it is a number by the grammar.** -/
theorem exists_read?_iff {text : String} :
    (∃ x, read? text = some x) ↔ Spelled text.toList := by
  rw [← Option.isSome_iff_exists]
  exact isSome_readChars?_iff

/-! ## Numerals -/

theorem unsignedText_of_unsignedNumeral {cs : List Char} (h : UnsignedNumeral cs) :
    UnsignedText cs := by
  cases h with
  | whole h =>
    rw [← List.append_nil cs]
    exact .whole h .none
  | @point whole fraction hwhole hfraction =>
    have hdigits : Digits (whole ++ fraction) :=
      ⟨List.append_ne_nil_of_left_ne_nil hwhole.ne_nil _,
        List.forall_mem_append.2 ⟨hwhole.isDigit, hfraction.isDigit⟩⟩
    have hpoint : UnsignedText (whole ++ '.' :: (fraction ++ [])) := .point hdigits .none
    rwa [List.append_nil] at hpoint

/-- A numeral is a number. -/
theorem spelled_of_numeral {cs : List Char} (h : Numeral cs) : Spelled cs := by
  cases h with
  | unsigned h => exact .signed .none (unsignedText_of_unsignedNumeral h)
  | negative h => exact .signed .minus (unsignedText_of_unsignedNumeral h)

end Reckoner.Number
