/-
  The rules of atoms.

  The grammar of atoms is regular.  Here it is once more, as rules that a scanner can follow: each
  has a pattern, and says what a text that matches the pattern is.

      numeral    -?[0-9]+(\.[0-9]+)?
      constant   -?name, for each of the constants; negated if the text begins with the sign
      operator   symbol, for each of the operators
      opening    \(
      closing    \)

  1. **Patterns (`Pattern.mem_numeral`)** — what the patterns match, as characters.

  2. **Rules (`Atom.spelled_iff`)** — a text is spelled like an atom exactly when it matches a rule
     as a whole, and the rule makes this atom of it.

  3. **No two rules match the same text (`Rule.eq_of_matches`)** — although many of them match
     fronts of what others match: the sign is an operator, `c` a constant and the front of `cos`.
-/
import Mathlib.Computability.RegularExpressions
import Reckoner.Proofs.Atoms

namespace Reckoner

/-! ## Patterns -/

namespace Pattern

/-- These characters, one after the other. -/
def word : List Char → RegularExpression Char
  | [] => 1
  | c :: cs => .char c * word cs

/-- One of these characters. -/
def oneOf : List Char → RegularExpression Char
  | [] => 0
  | c :: cs => .char c + oneOf cs

/-- The pattern, or nothing. -/
def optional (p : RegularExpression Char) : RegularExpression Char := p + 1

/-- The pattern, once or more often. -/
def oneOrMore (p : RegularExpression Char) : RegularExpression Char := p * p.star

/-- The pattern, with a minus sign in front if there is one. -/
def signed (p : RegularExpression Char) : RegularExpression Char := optional (.char '-') * p

/-- One decimal digit. -/
def digit : RegularExpression Char := oneOf ['0', '1', '2', '3', '4', '5', '6', '7', '8', '9']

/-- A numeral: digits, and a point with more digits if there is one, signed or not. -/
def numeral : RegularExpression Char :=
  signed (oneOrMore digit * optional (.char '.' * oneOrMore digit))

variable {cs : List Char}

theorem mem_char {c : Char} : cs ∈ (RegularExpression.char c).matches' ↔ cs = [c] :=
  Iff.rfl

theorem mem_mul {p q : RegularExpression Char} :
    cs ∈ (p * q).matches' ↔ ∃ front ∈ p.matches', ∃ behind ∈ q.matches', front ++ behind = cs :=
  Language.mem_mul

theorem mem_optional {p : RegularExpression Char} :
    cs ∈ (optional p).matches' ↔ cs ∈ p.matches' ∨ cs = [] :=
  Iff.rfl

theorem mem_word {letters : List Char} : cs ∈ (word letters).matches' ↔ cs = letters := by
  induction letters generalizing cs with
  | nil => exact Iff.rfl
  | cons c letters ih =>
    rw [word, mem_mul]
    constructor
    · rintro ⟨front, hfront, behind, hbehind, rfl⟩
      rw [mem_char.1 hfront, ih.1 hbehind]
      rfl
    · rintro rfl
      exact ⟨[c], mem_char.2 rfl, letters, ih.2 rfl, rfl⟩

theorem mem_oneOf {choices : List Char} :
    cs ∈ (oneOf choices).matches' ↔ ∃ c ∈ choices, cs = [c] := by
  induction choices with
  | nil => exact ⟨fun h => h.elim, fun ⟨c, hc, _⟩ => nomatch hc⟩
  | cons c choices ih =>
    have hor : cs ∈ (oneOf (c :: choices)).matches' ↔ cs = [c] ∨ cs ∈ (oneOf choices).matches' :=
      Iff.rfl
    rw [hor, ih, List.exists_mem_cons_iff]

/-- What a pattern matches once or more often is pieces that it matches, and at least one. -/
theorem mem_oneOrMore {p : RegularExpression Char} :
    cs ∈ (oneOrMore p).matches' ↔
      ∃ piece pieces, (piece :: pieces).flatten = cs ∧ ∀ x ∈ piece :: pieces, x ∈ p.matches' := by
  rw [oneOrMore, mem_mul]
  constructor
  · rintro ⟨piece, hpiece, behind, hbehind, rfl⟩
    obtain ⟨pieces, rfl, hpieces⟩ := Language.mem_kstar.1 hbehind
    exact ⟨piece, pieces, rfl, List.forall_mem_cons.2 ⟨hpiece, hpieces⟩⟩
  · rintro ⟨piece, pieces, rfl, hmatches⟩
    obtain ⟨hpiece, hpieces⟩ := List.forall_mem_cons.1 hmatches
    exact ⟨piece, hpiece, pieces.flatten, Language.mem_kstar.2 ⟨pieces, rfl, hpieces⟩, rfl⟩

theorem mem_digit : cs ∈ digit.matches' ↔ ∃ c, c.isDigit = true ∧ cs = [c] := by
  rw [digit, mem_oneOf]
  constructor
  · rintro ⟨c, hc, rfl⟩
    have hall : ['0', '1', '2', '3', '4', '5', '6', '7', '8', '9'].all Char.isDigit = true := rfl
    exact ⟨c, List.all_eq_true.1 hall c hc, rfl⟩
  · rintro ⟨c, hc, rfl⟩
    obtain ⟨hle, hge⟩ := Char.isDigit_iff_toNat.1 hc
    have hten : ∀ n, n ≤ '9'.toNat → '0'.toNat ≤ n →
        Char.ofNat n ∈ ['0', '1', '2', '3', '4', '5', '6', '7', '8', '9'] := by
      decide +kernel
    have hmem := hten c.toNat hge hle
    rw [Char.ofNat_toNat] at hmem
    exact ⟨c, hmem, rfl⟩

/-- One digit or more. -/
theorem mem_digits : cs ∈ (oneOrMore digit).matches' ↔ Digits cs := by
  rw [mem_oneOrMore]
  constructor
  · rintro ⟨piece, pieces, rfl, hpieces⟩
    constructor
    · obtain ⟨c, -, rfl⟩ := mem_digit.1 (hpieces piece List.mem_cons_self)
      exact List.cons_ne_nil _ _
    · intro c hc
      obtain ⟨x, hx, hcx⟩ := List.mem_flatten.1 hc
      obtain ⟨d, hd, rfl⟩ := mem_digit.1 (hpieces x hx)
      rw [List.mem_singleton.1 hcx]
      exact hd
  · rintro ⟨hne, hdigit⟩
    obtain ⟨c, cs, rfl⟩ := List.exists_cons_of_ne_nil hne
    -- every digit is a piece of its own
    refine ⟨[c], cs.map fun d => [d], List.flatMap_singleton' (c :: cs), ?_⟩
    have hpieces : ∀ x ∈ (c :: cs).map fun d => [d], x ∈ digit.matches' := by
      refine List.forall_mem_map.2 fun d hd => ?_
      exact mem_digit.2 ⟨d, hdigit d hd, rfl⟩
    exact hpieces

/-- Digits, and a point with more digits if there is one. -/
theorem mem_unsigned :
    cs ∈ (oneOrMore digit * optional (.char '.' * oneOrMore digit)).matches' ↔
      UnsignedNumeral cs := by
  rw [mem_mul]
  constructor
  · rintro ⟨whole, hwhole, rest, hrest, rfl⟩
    rw [mem_digits] at hwhole
    rcases mem_optional.1 hrest with hpoint | rfl
    · obtain ⟨point, rfl, fraction, hfraction, rfl⟩ := mem_mul.1 hpoint
      exact .point hwhole (mem_digits.1 hfraction)
    · rw [List.append_nil]
      exact .whole hwhole
  · intro h
    cases h with
    | whole h => exact ⟨cs, mem_digits.2 h, [], mem_optional.2 (.inr rfl), List.append_nil cs⟩
    | @point whole fraction hwhole hfraction =>
      have hpoint : '.' :: fraction ∈ (.char '.' * oneOrMore digit).matches' :=
        mem_mul.2 ⟨['.'], mem_char.2 rfl, fraction, mem_digits.2 hfraction, rfl⟩
      exact ⟨whole, mem_digits.2 hwhole, _, mem_optional.2 (.inl hpoint), rfl⟩

theorem mem_signed {p : RegularExpression Char} :
    cs ∈ (signed p).matches' ↔ cs ∈ p.matches' ∨ ∃ rest ∈ p.matches', cs = '-' :: rest := by
  rw [signed, mem_mul]
  constructor
  · rintro ⟨sign, hsign, rest, hrest, rfl⟩
    rcases mem_optional.1 hsign with hminus | rfl
    · rw [mem_char.1 hminus]
      exact .inr ⟨rest, hrest, rfl⟩
    · exact .inl hrest
  · rintro (h | ⟨rest, hrest, rfl⟩)
    · exact ⟨[], mem_optional.2 (.inr rfl), cs, h, rfl⟩
    · exact ⟨['-'], mem_optional.2 (.inl (mem_char.2 rfl)), rest, hrest, rfl⟩

/-- **The pattern of a numeral matches the numerals.** -/
theorem mem_numeral : cs ∈ numeral.matches' ↔ Numeral cs := by
  rw [numeral, mem_signed, mem_unsigned]
  constructor
  · rintro (h | ⟨rest, hrest, rfl⟩)
    · exact .unsigned h
    · exact .negative (mem_unsigned.1 hrest)
  · intro h
    cases h with
    | unsigned h => exact .inl h
    | negative h => exact .inr ⟨_, mem_unsigned.2 h, rfl⟩

end Pattern

/-! ## Rules -/

/-- A way in which a text can be an atom. -/
inductive Rule where
  | numeral
  | constant (named : Constant)
  | operator (op : Operator)
  | opening
  | closing
deriving DecidableEq, Repr

namespace Rule

open Pattern (word)

/-- What a rule matches. -/
def pattern : Rule → RegularExpression Char
  | numeral => Pattern.numeral
  | constant named => Pattern.signed (word named.name.toList)
  | operator op => word op.symbol.toList
  | opening => word ['(']
  | closing => word [')']

/-- What a text that the rule matches is.  A constant is negated if the text begins with a sign. -/
def atom : Rule → List Char → Atom
  | numeral, _ => .numeral
  | constant named, text => .constant ⟨named, text.head? = some '-'⟩
  | operator op, _ => .operator op
  | opening, _ => .opening
  | closing, _ => .closing

/-- The rule matches the characters as a whole. -/
def Matches (rule : Rule) (cs : List Char) : Prop :=
  cs ∈ rule.pattern.matches'

/-- Whether the rule matches the characters as a whole. -/
def accepts (rule : Rule) (cs : List Char) : Bool :=
  rule.pattern.rmatch cs

theorem accepts_iff {rule : Rule} {cs : List Char} : rule.accepts cs = true ↔ rule.Matches cs :=
  rule.pattern.rmatch_iff_matches' cs

end Rule

/-- The rule that an atom comes from. -/
def Atom.rule : Atom → Rule
  | .numeral => .numeral
  | .constant signed => .constant signed.constant
  | .operator op => .operator op
  | .opening => .opening
  | .closing => .closing

theorem Rule.rule_atom (rule : Rule) (cs : List Char) : (rule.atom cs).rule = rule := by
  cases rule <;> rfl

theorem Rule.matches_constant_iff {named : Constant} {cs : List Char} :
    (Rule.constant named).Matches cs ↔
      cs = named.name.toList ∨ cs = '-' :: named.name.toList := by
  rw [Matches, pattern, Pattern.mem_signed, Pattern.mem_word]
  constructor
  · rintro (h | ⟨rest, hrest, rfl⟩)
    · exact .inl h
    · exact .inr (by rw [Pattern.mem_word.1 hrest])
  · rintro (h | rfl)
    · exact .inl h
    · exact .inr ⟨_, Pattern.mem_word.2 rfl, rfl⟩

/-- The name of a constant does not begin with a sign. -/
theorem Rule.atom_name (named : Constant) :
    (Rule.constant named).atom named.name.toList = .constant ⟨named, false⟩ := by
  cases named <;> rfl

/-- What matches a rule is spelled like the atom that the rule makes of it. -/
theorem Rule.Matches.spelled {rule : Rule} {cs : List Char} (h : rule.Matches cs) :
    (rule.atom cs).Spelled cs := by
  cases rule with
  | numeral => exact .numeral (Pattern.mem_numeral.1 h)
  | operator op =>
    obtain rfl := Pattern.mem_word.1 h
    exact .operator op
  | opening =>
    obtain rfl := Pattern.mem_word.1 h
    exact .opening
  | closing =>
    obtain rfl := Pattern.mem_word.1 h
    exact .closing
  | constant named =>
    rcases matches_constant_iff.1 h with rfl | rfl
    · rw [atom_name]
      exact .constant named
    · exact .negated named

/-- What is spelled like an atom matches its rule, and the rule makes this atom of it. -/
theorem Atom.Spelled.matches_rule {atom : Atom} {cs : List Char} (h : atom.Spelled cs) :
    atom.rule.Matches cs ∧ atom.rule.atom cs = atom := by
  cases h with
  | numeral h => exact ⟨Pattern.mem_numeral.2 h, rfl⟩
  | operator op => exact ⟨Pattern.mem_word.2 rfl, rfl⟩
  | constant named => exact ⟨Rule.matches_constant_iff.2 (.inl rfl), Rule.atom_name named⟩
  | negated named => exact ⟨Rule.matches_constant_iff.2 (.inr rfl), rfl⟩
  | opening => exact ⟨Pattern.mem_word.2 rfl, rfl⟩
  | closing => exact ⟨Pattern.mem_word.2 rfl, rfl⟩

/-- **A text is spelled like an atom exactly when it matches a rule that makes this atom of it.** -/
theorem Atom.spelled_iff {atom : Atom} {cs : List Char} :
    atom.Spelled cs ↔ ∃ rule : Rule, rule.Matches cs ∧ rule.atom cs = atom := by
  constructor
  · intro h
    exact ⟨atom.rule, h.matches_rule⟩
  · rintro ⟨rule, hrule, rfl⟩
    exact hrule.spelled

/-- If a rule makes the same atom of everything that it matches, matching the rule is all. -/
theorem Atom.spelled_iff_matches {atom : Atom} (h : ∀ cs, atom.rule.atom cs = atom)
    {cs : List Char} : atom.Spelled cs ↔ atom.rule.Matches cs := by
  constructor
  · exact fun hspelled => hspelled.matches_rule.1
  · intro hrule
    have hspelled := hrule.spelled
    rwa [h] at hspelled

/-- A text is spelled like one atom at most. -/
theorem Atom.Spelled.unique {atom atom' : Atom} {cs : List Char} (h : atom.Spelled cs)
    (h' : atom'.Spelled cs) : atom = atom' := by
  have hsome : some atom = some atom' := by
    rw [← Atom.ofChars?_eq_some_iff.2 h, Atom.ofChars?_eq_some_iff.2 h']
  exact Option.some.inj hsome

/-- **No two rules match the same text.** -/
theorem Rule.eq_of_matches {rule rule' : Rule} {cs : List Char} (h : rule.Matches cs)
    (h' : rule'.Matches cs) : rule = rule' := by
  have hatom : rule.atom cs = rule'.atom cs := h.spelled.unique h'.spelled
  rw [← rule.rule_atom cs, hatom, rule'.rule_atom cs]

end Reckoner
