/-
  The text of a number reads back as the number.

  1. **Digits (`readDecimal?_chars`)** — the text of a decimal is a numeral without a sign, and is
     read as the float nearest to the decimal.

  2. **Parts of a float (`fits_of_unpack`, `unpack_pack_of_unpack`)** — a mantissa and an exponent
     that were unpacked are in the form that rounding aims at, and may be packed and unpacked again
     with either sign.

  3. **All numbers (`read?_text`)** — the infinities, not-a-number and both zeros included.
-/
import Mathlib
import Reckoner.Number.Text
import Reckoner.Proofs.Atoms
import Reckoner.Proofs.Number.Rounding
import Reckoner.Proofs.Number.Spelling

namespace Reckoner

open Float.Model (Format totalExponent)
open Float.Model.UnpackedFloat

/-! ## The text of a decimal -/

namespace Decimal

theorem digits_wholeDigits (d : Decimal) : Digits d.wholeDigits where
  ne_nil := d.wholeDigits_ne_nil
  isDigit _ hc := isDigit_of_mem_digits (List.mem_of_mem_take hc)

theorem digits_fractionDigits {d : Decimal} (h : d.places ≠ 0) : Digits d.fractionDigits where
  ne_nil hnil := by
    have hlength := d.length_fractionDigits
    rw [hnil] at hlength
    exact h hlength.symm
  isDigit _ hc := isDigit_of_mem_digits (List.mem_of_mem_drop hc)

/-- The text of a decimal is a numeral without a sign. -/
theorem unsignedNumeral_chars (d : Decimal) : UnsignedNumeral d.chars := by
  rw [chars]
  split
  · exact .whole d.digits_wholeDigits
  · next hplaces => exact .point d.digits_wholeDigits (digits_fractionDigits hplaces)

end Decimal

namespace Number

/-- The digits of a numeral without a sign. -/
theorem splitDigits_chars (d : Decimal) :
    splitDigits d.chars = (d.wholeDigits, d.fractionDigits, []) := by
  have hwhole := d.digits_wholeDigits.isDigit
  rw [Decimal.chars]
  split
  · next hplaces =>
    have hfraction : d.fractionDigits = [] :=
      List.length_eq_zero_iff.1 (d.length_fractionDigits.trans hplaces)
    have hsplit := splitDigits_whole hwhole .none
    rw [List.append_nil] at hsplit
    rw [hsplit, hfraction]
  · next hplaces =>
    have hfraction := (Decimal.digits_fractionDigits hplaces).isDigit
    have hsplit := splitDigits_point hwhole hfraction .none
    rwa [List.append_nil] at hsplit

/-- **The text of a decimal is read as the float nearest to it.** -/
theorem readDecimal?_chars (d : Decimal) : readDecimal? d.chars = some d.toFloat := by
  have hdigits : readDigits? d.digits = some d.units := by
    have hall : d.digits.all Char.isDigit = true :=
      List.all_eq_true.2 fun c hc => Decimal.isDigit_of_mem_digits hc
    have hne : d.digits ≠ [] := by
      intro hnil
      have hlength := d.places_lt_length_digits
      rw [hnil] at hlength
      cases hlength
    rw [readDigits?, if_pos ⟨hne, hall⟩, Decimal.ofDigitChars_digits]
  rw [readDecimal?, splitDigits_chars]
  simp only [Decimal.wholeDigits_append_fractionDigits, hdigits, Option.bind_some, readExponent?,
    Option.map_some, Decimal.length_fractionDigits, Int.zero_sub, Decimal.toFloat]

theorem toLower_of_isDigit {c : Char} (h : c.isDigit = true) : c.toLower = c := by
  refine Char.toLower_eq_of_not_isUpper fun hupper => ?_
  simp only [Char.isDigit, Char.isUpper, Bool.and_eq_true, decide_eq_true_eq] at h hupper
  exact absurd (UInt32.le_trans hupper.1 h.2) (by decide)

/-- A numeral without a sign begins with a digit. -/
theorem exists_cons_of_unsignedNumeral {cs : List Char} (h : UnsignedNumeral cs) :
    ∃ c rest, cs = c :: rest ∧ c.isDigit = true := by
  have hdigits : ∀ {digits : List Char}, Digits digits → ∀ rest : List Char,
      ∃ c rest', digits ++ rest = c :: rest' ∧ c.isDigit = true := by
    intro digits hdigits rest
    obtain ⟨c, digits, rfl⟩ := List.exists_cons_of_ne_nil hdigits.ne_nil
    exact ⟨c, digits ++ rest, rfl, hdigits.isDigit c List.mem_cons_self⟩
  cases h with
  | whole h =>
    have hcons := hdigits h []
    rwa [List.append_nil] at hcons
  | point hwhole _ => exact hdigits hwhole _

/-- A numeral without a sign is no word. -/
theorem readUnsigned?_of_unsignedNumeral {cs : List Char} (h : UnsignedNumeral cs) :
    readUnsigned? cs = readDecimal? cs := by
  obtain ⟨c, rest, rfl, hdigit⟩ := exists_cons_of_unsignedNumeral h
  have hword : ∀ {first : Char} {word : List Char}, first.isDigit = false →
      (c :: rest).map Char.toLower ≠ first :: word := by
    intro first word hfirst heq
    have hhead := (List.cons.inj heq).1
    rw [toLower_of_isDigit hdigit] at hhead
    rw [hhead, hfirst] at hdigit
    cases hdigit
  rw [readUnsigned?, if_neg, if_neg]
  · exact hword (by decide)
  · rintro (heq | heq)
    · exact hword (by decide) heq
    · exact hword (by decide) heq

/-- A numeral with a sign that is written only if it is negative. -/
theorem readChars?_signChars {cs : List Char} {x : Float} (sign : Sign) (h : UnsignedNumeral cs)
    (hread : readDecimal? cs = some x) :
    readChars? (signChars sign ++ cs) =
      some (match sign with
        | .negative => -x
        | .positive => x) := by
  have hunsigned := readUnsigned?_of_unsignedNumeral h
  cases sign with
  | negative =>
    show (readUnsigned? cs).map _ = _
    rw [hunsigned, hread]
    rfl
  | positive =>
    obtain ⟨c, rest, rfl, hdigit⟩ := exists_cons_of_unsignedNumeral h
    have hsplit : splitSign (c :: rest) = (.positive, c :: rest) := by
      unfold splitSign
      split
      · next heq => cases heq; cases hdigit
      · next heq => cases heq; cases hdigit
      · rfl
    show readChars? (c :: rest) = some x
    rw [readChars?, hsplit, hunsigned, hread]
    rfl

/-! ## The parts of a float -/

/-- A float is what its parts are packed to. -/
theorem ofModel_pack_unpack (x : Float) : .ofModel (.pack x.toModel.unpack) = x := by
  have hbits : pack Format.binary64 x.toModel.unpack = x.toModel.toBits.toBitVec :=
    pack_unpack_of_valid x.toModel.valid
  rw [Float.Model.pack]
  simp only [hbits]

section
variable {bits : BitVec Format.binary64.numBits} {sign : Sign} {mantissa : Nat} {exponent : Int}
  {hpos : 0 < mantissa}

/-- What is unpacked is in the form that rounding aims at. -/
theorem fits_of_unpack (h : unpack Format.binary64 bits = .finite sign mantissa exponent hpos) :
    Fits mantissa exponent := by
  have hlt : (unpackMantissa bits).toNat < 2 ^ 52 := (unpackMantissa bits).isLt
  rw [unpack] at h
  simp only [Fits, totalExponent, Format.targetExponent, Format.minExponent, Format.mantissaBits]
  split_ifs at h with hspecial hmantissa hleast hzero
  · -- a subnormal number has the least exponent and less than all bits
    cases h
    have hlog : (unpackMantissa bits).toNat.log2 < 52 := (Nat.log2_lt hpos.ne').2 hlt
    simp only [hleast, Format.exponentBias, BitVec.toNat_ofNat]
    omega
  · -- a normal number has all bits, and an exponent that is not less than the least
    cases h
    have hnat : (1#1 ++ unpackMantissa bits).toNat = 2 ^ 52 + (unpackMantissa bits).toNat := by
      rw [BitVec.toNat_append, ← Nat.shiftLeft_add_eq_or_of_lt hlt]
      rfl
    have hlog : (1#1 ++ unpackMantissa bits).toNat.log2 = 52 := by
      rw [hnat, Nat.log2_eq_iff (by omega)]
      omega
    have hexponent : (unpackExponent bits).toNat ≠ 0 := by
      intro hexponent
      exact hleast (BitVec.eq_of_toNat_eq hexponent)
    rw [hlog]
    simp only [Format.exponentBias]
    omega

/-- What is unpacked has no larger exponent than the largest float. -/
theorem le_of_unpack (h : unpack Format.binary64 bits = .finite sign mantissa exponent hpos) :
    exponent ≤ 971 := by
  have hlt : (unpackExponent bits).toNat < 2 ^ 11 := (unpackExponent bits).isLt
  rw [unpack] at h
  split_ifs at h with hspecial hmantissa hleast hzero
  · cases h
    simp only [hleast, Format.exponentBias, BitVec.toNat_ofNat]
    omega
  · cases h
    have hne : (unpackExponent bits).toNat ≠ 2047 := fun heq => hspecial (BitVec.eq_of_toNat_eq heq)
    simp only [Format.exponentBias]
    omega

/-- What is unpacked may be packed with either sign, and unpacked again. -/
theorem unpack_pack_of_unpack
    (h : unpack Format.binary64 bits = .finite sign mantissa exponent hpos) (sign' : Sign) :
    unpack Format.binary64 (pack Format.binary64 (.finite sign' mantissa exponent hpos)) =
      .finite sign' mantissa exponent hpos := by
  -- the same bits with the other sign
  obtain ⟨bits', hvalid, hunpack⟩ : ∃ bits', Format.binary64.Valid bits' ∧
      unpack Format.binary64 bits' = .finite sign' mantissa exponent hpos := by
    refine ⟨packComponents Format.binary64 sign' (unpackExponent bits) (unpackMantissa bits),
      ?_, ?_⟩
    · refine ⟨fun hspecial hmantissa => ?_⟩
      simp only [unpackMantissa_packComponents, unpackExponent_packComponents] at hspecial hmantissa
      rw [unpack] at h
      simp [hspecial, hmantissa] at h
    · rw [unpack] at h ⊢
      simp only [unpackMantissa_packComponents, unpackExponent_packComponents,
        unpackSign_packComponents, Sign.ofBitVec_toBitVec]
      split_ifs at h ⊢ with hspecial hmantissa hleast hzero
      · cases h
        rfl
      · cases h
        rfl
  rw [← hunpack, pack_unpack_of_valid hvalid]

end

/-! ## All numbers -/

/-- The parts of the negative of a float. -/
theorem unpack_neg (x : Float) : (-x).toModel.unpack = .neg x.toModel.unpack := by
  show (Float.Model.pack (.neg x.toModel.unpack)).unpack = _
  cases hparts : x.toModel.unpack with
  | notANumber => rfl
  | infinity sign => cases sign <;> rfl
  | zero sign => cases sign <;> rfl
  | finite sign mantissa exponent hpos => exact unpack_pack_of_unpack hparts (-sign)

/-- The negative of a float that is packed from parts that were unpacked. -/
theorem neg_ofModel_pack {x : Float} {mantissa : Nat} {exponent : Int} {hpos : 0 < mantissa}
    (h : x.toModel.unpack = .finite .negative mantissa exponent hpos) :
    -(Float.ofModel (.pack (.finite .positive mantissa exponent hpos))) = x := by
  have hunpack : (Float.Model.pack (.finite .positive mantissa exponent hpos)).unpack =
      .finite .positive mantissa exponent hpos := unpack_pack_of_unpack h .positive
  rw [← ofModel_pack_unpack x, h]
  show Float.ofModel (.pack (neg (Float.Model.pack _).unpack)) = _
  rw [hunpack]
  rfl

/-- **The text of a number reads back as the number.** -/
theorem read?_text (x : Float) : read? (text x) = some x := by
  have hpack := ofModel_pack_unpack x
  rw [read?, text, String.toList_ofList, chars]
  cases hunpack : x.toModel.unpack with
  | notANumber =>
    rw [hunpack] at hpack
    rw [← hpack]
    decide +kernel
  | infinity sign =>
    rw [hunpack] at hpack
    rw [← hpack]
    cases sign <;> decide +kernel
  | zero sign =>
    rw [hunpack] at hpack
    rw [← hpack]
    cases sign <;> decide +kernel
  | finite sign mantissa exponent hpos =>
    have hfits : Fits mantissa exponent := fits_of_unpack hunpack
    have hread := readDecimal?_chars (Decimal.shortest mantissa exponent hpos)
    rw [Decimal.toFloat_shortest hpos hfits] at hread
    rw [readChars?_signChars sign (Decimal.unsignedNumeral_chars _) hread]
    congr 1
    cases sign with
    | negative => exact neg_ofModel_pack hunpack
    | positive =>
      rw [hunpack] at hpack
      exact hpack

end Number

end Reckoner
