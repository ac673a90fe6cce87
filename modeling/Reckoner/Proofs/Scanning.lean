/-
  Atoms, found by a scanner.

  A scanner reads a text from the front: it finds the longest front that one of the rules matches,
  and says what it is and where it ends.  A text is then an atom if the scanner finds one that
  covers it.  This file shows that nothing is gained or lost on the way.

  1. **What is asked of the scanner (`FindsLongest`)** — what it finds is the longest front of the
     text that a rule matches; and if it finds nothing, no rule matches a front.  Which rule it
     takes when several match the same front is left open.

  2. **A text that matches a rule is found as a whole** — no front is longer, so whatever the
     scanner finds covers the text; and since no two rules match the same text, what it finds there
     is what the rule makes of it (`classifyBy_eq_ok_iff`).  A text of which only a front matches,
     such as `3.5.1` or `-cos`, is not covered.

  3. **There is such a scanner (`findsLongest_scanLongest`)** — one that tries the fronts of a text
     from the longest to the shortest.
-/
import Reckoner.Proofs.Patterns

namespace Reckoner

/-! ## Scanners -/

/-- What a scanner does at the front of a text. -/
structure Scan where
  /-- The atom that is found; a failure, if no atom is; nothing at the end of the input. -/
  found : Option (Except Unit Atom)
  /-- The byte at which the characters begin that were read. -/
  start : Nat
  /-- The byte at which they end. -/
  stop : Nat

/-- What a scanner finds is the longest front that a rule matches, and it finds one if there is
    any. -/
structure FindsLongest (scan : String → Scan) : Prop where
  longest : ∀ text atom, (scan text).found = some (.ok atom) →
    ∃ rule front, front <+: text.toList ∧ Rule.Matches rule front ∧ atom = rule.atom front ∧
      (scan text).start = 0 ∧ (scan text).stop = (String.ofList front).utf8ByteSize ∧
      ∀ rule' front', front' <+: text.toList → Rule.Matches rule' front' →
        front'.length ≤ front.length
  nothing : ∀ text, (∀ atom, (scan text).found ≠ some (.ok atom)) →
    ∀ rule front, front <+: text.toList → ¬ Rule.Matches rule front

/-- What a text is, as a whole: what is found at its front, if that covers the text. -/
def Scan.asWhole (first : Scan) (text : String) : Except LineError Atom :=
  match first.found with
  | some (.ok atom) =>
    if first.start = 0 ∧ first.stop = text.utf8ByteSize then .ok atom
    else .error (.unknownAtom text)
  | some (.error _) | none => .error (.unknownAtom text)

/-- What a text is, as a whole, if a scanner is asked. -/
def Atom.classifyBy (scan : String → Scan) (text : String) : Except LineError Atom :=
  (scan text).asWhole text

/-! ## Covering a text -/

/-- A front that is as long as the text in bytes is the text. -/
theorem eq_of_utf8ByteSize_eq {front : List Char} {text : String} (hfront : front <+: text.toList)
    (h : (String.ofList front).utf8ByteSize = text.utf8ByteSize) : front = text.toList := by
  obtain ⟨behind, hbehind⟩ := hfront
  have htext : text = String.ofList front ++ String.ofList behind := by
    rw [← String.ofList_append, hbehind, String.ofList_toList]
  rw [htext, String.utf8ByteSize_append] at h
  have hzero : (String.ofList behind).utf8ByteSize = 0 := by omega
  have hnil : behind = [] :=
    String.ofList_eq_empty_iff.1 (String.utf8ByteSize_eq_zero_iff.1 hzero)
  rw [← hbehind, hnil, List.append_nil]

theorem Scan.asWhole_eq_ok_iff {first : Scan} {text : String} {atom : Atom} :
    first.asWhole text = .ok atom ↔
      first.found = some (.ok atom) ∧ first.start = 0 ∧ first.stop = text.utf8ByteSize := by
  obtain ⟨found, start, stop⟩ := first
  rcases found with _ | _ | found
  · simp [asWhole]
  · simp [asWhole]
  · by_cases hcovers : start = 0 ∧ stop = text.utf8ByteSize
    · simp [asWhole, hcovers]
    · simp [asWhole, hcovers]

/-- A text that is not covered is reported as it is. -/
theorem Scan.asWhole_eq_error {first : Scan} {text : String} {e : LineError}
    (h : first.asWhole text = .error e) : e = .unknownAtom text := by
  unfold asWhole at h
  split at h
  · split at h
    · cases h
    · exact (Except.error.inj h).symm
  · exact (Except.error.inj h).symm
  · exact (Except.error.inj h).symm

namespace Atom

variable {scan : String → Scan} {text : String}

/-- **What covers a text is what the whole text is spelled like.** -/
theorem classifyBy_eq_ok_iff (hscan : FindsLongest scan) {atom : Atom} :
    classifyBy scan text = .ok atom ↔ atom.Spelled text.toList := by
  rw [classifyBy, Scan.asWhole_eq_ok_iff, spelled_iff]
  constructor
  · rintro ⟨hfound, -, hstop⟩
    obtain ⟨rule, front, hfront, hrule, rfl, -, hend, -⟩ := hscan.longest text atom hfound
    obtain rfl := eq_of_utf8ByteSize_eq hfront (hend.symm.trans hstop)
    exact ⟨rule, hrule, rfl⟩
  · rintro ⟨rule, hrule, rfl⟩
    have hwhole : text.toList <+: text.toList := List.prefix_refl _
    by_cases hfound : ∃ atom, (scan text).found = some (.ok atom)
    · obtain ⟨atom, hatom⟩ := hfound
      obtain ⟨rule', front, hfront, hrule', rfl, hstart, hstop, hlongest⟩ :=
        hscan.longest text atom hatom
      -- the text is a front of itself, so the longest front is the text
      obtain rfl := hfront.eq_of_length_le (hlongest rule _ hwhole hrule)
      obtain rfl := Rule.eq_of_matches hrule hrule'
      rw [String.ofList_toList] at hstop
      exact ⟨hatom, hstart, hstop⟩
    · have hnone : ∀ atom, (scan text).found ≠ some (.ok atom) :=
        fun atom hatom => hfound ⟨atom, hatom⟩
      exact (hscan.nothing text hnone rule _ hwhole hrule).elim

theorem classify_eq_ok_iff {atom : Atom} :
    classify text = .ok atom ↔ atom.Spelled text.toList := by
  rw [classify, ← ofChars?_eq_some_iff]
  cases ofChars? text.toList with
  | none => exact ⟨(nomatch ·), (nomatch ·)⟩
  | some atom' => simp

theorem classify_eq_error {e : LineError} (h : classify text = .error e) :
    e = .unknownAtom text := by
  unfold classify at h
  split at h
  · cases h
  · exact (Except.error.inj h).symm

/-- **Whether a scanner is asked or not, a text is the same atom.** -/
theorem classifyBy_eq_classify (hscan : FindsLongest scan) (text : String) :
    classifyBy scan text = classify text := by
  cases hscanned : classifyBy scan text with
  | ok atom => exact (classify_eq_ok_iff.2 ((classifyBy_eq_ok_iff hscan).1 hscanned)).symm
  | error e =>
    cases hclassify : classify text with
    | ok atom =>
      have hok := (classifyBy_eq_ok_iff hscan).2 (classify_eq_ok_iff.1 hclassify)
      rw [hscanned] at hok
      cases hok
    | error e' => rw [Scan.asWhole_eq_error hscanned, classify_eq_error hclassify]

/-- **A text that no rule matches as a whole is reported as it is.** -/
theorem classifyBy_eq_error_iff (hscan : FindsLongest scan) {e : LineError} :
    classifyBy scan text = .error e ↔
      e = .unknownAtom text ∧ ∀ rule, ¬ Rule.Matches rule text.toList := by
  constructor
  · intro h
    refine ⟨Scan.asWhole_eq_error h, fun rule hrule => ?_⟩
    have hok := (classifyBy_eq_ok_iff hscan).2 hrule.spelled
    rw [h] at hok
    cases hok
  · rintro ⟨rfl, hnone⟩
    cases hscanned : classifyBy scan text with
    | ok atom =>
      obtain ⟨rule, hrule, -⟩ := spelled_iff.1 ((classifyBy_eq_ok_iff hscan).1 hscanned)
      exact (hnone rule hrule).elim
    | error e => rw [Scan.asWhole_eq_error hscanned]

/-! ## The kinds of atoms, as texts -/

/-- An atom whose rule is a word is written as that word. -/
theorem spelled_word_iff {atom : Atom} {letters : String}
    (hpattern : atom.rule.pattern = Pattern.word letters.toList)
    (hatom : ∀ cs, atom.rule.atom cs = atom) : atom.Spelled text.toList ↔ text = letters := by
  rw [spelled_iff_matches hatom, Rule.Matches, hpattern, Pattern.mem_word, String.toList_inj]

/-- A constant is written with its name, behind a minus sign if it is negated. -/
theorem spelled_constant_iff {named : Constant} {negated : Bool} :
    Spelled (.constant ⟨named, negated⟩) text.toList ↔
      text = (if negated then "-" else "") ++ named.name := by
  rw [← String.toList_inj, String.toList_append]
  constructor
  · generalize text.toList = cs
    rintro (_ | _ | _)
    · rfl
    · rfl
  · intro h
    rw [h]
    cases negated with
    | false => exact .constant named
    | true => exact .negated named

end Atom

/-! ## A scanner -/

/-- Every rule, once. -/
def Rule.all : List Rule :=
  [.numeral, .opening, .closing] ++ Constant.all.map .constant ++ Operator.all.map .operator

theorem Rule.mem_all (rule : Rule) : rule ∈ all := by
  cases rule with
  | numeral => decide
  | opening => decide
  | closing => decide
  | constant named => cases named <;> decide
  | operator op =>
    cases op with
    | binary op => cases op <;> decide
    | function f => cases f <;> decide
    | factorial => decide

theorem Rule.matches_of_find?_eq_some {cs : List Char} {rule : Rule}
    (h : all.find? (·.accepts cs) = some rule) : rule.Matches cs := by
  have haccepts := List.find?_some h
  exact accepts_iff.1 haccepts

/-- If no rule is found, none matches. -/
theorem Rule.not_matches_of_find?_eq_none {cs : List Char}
    (h : all.find? (·.accepts cs) = none) (rule : Rule) : ¬ rule.Matches cs := by
  intro hrule
  exact List.find?_eq_none.1 h rule rule.mem_all (accepts_iff.2 hrule)

/-- The longest front of at most so many characters that a rule matches, with the rule. -/
def longestUpTo? (cs : List Char) : Nat → Option (Rule × List Char)
  | 0 => none
  | n + 1 =>
    match Rule.all.find? (·.accepts (cs.take (n + 1))) with
    | some rule => some (rule, cs.take (n + 1))
    | none => longestUpTo? cs n

/-- A front of at most `n + 1` characters has at most `n`, or is what `take` gives. -/
theorem length_le_or_eq_take {front cs : List Char} {n : Nat} (hfront : front <+: cs)
    (hlength : front.length ≤ n + 1) : front.length ≤ n ∨ front = cs.take (n + 1) := by
  rcases Nat.lt_or_eq_of_le hlength with hlt | heq
  · exact .inl (Nat.le_of_lt_succ hlt)
  · rw [← heq]
    exact .inr (List.prefix_iff_eq_take.1 hfront)

theorem longestUpTo?_eq_none {cs : List Char} {n : Nat} (h : longestUpTo? cs n = none) :
    ∀ rule front, front <+: cs → front.length ≤ n → ¬ Rule.Matches rule front := by
  induction n with
  | zero =>
    intro rule front _ hlength hrule
    exact hrule.spelled.ne_nil (List.length_eq_zero_iff.1 (Nat.le_zero.1 hlength))
  | succ n ih =>
    rw [longestUpTo?] at h
    split at h
    · cases h
    · next hnone =>
      intro rule front hfront hlength
      rcases length_le_or_eq_take hfront hlength with hle | rfl
      · exact ih h rule front hfront hle
      · exact Rule.not_matches_of_find?_eq_none hnone rule

theorem longestUpTo?_eq_some {cs front : List Char} {n : Nat} {rule : Rule}
    (h : longestUpTo? cs n = some (rule, front)) :
    front <+: cs ∧ rule.Matches front ∧ ∀ rule' front', front' <+: cs → front'.length ≤ n →
      Rule.Matches rule' front' → front'.length ≤ front.length := by
  induction n with
  | zero => cases h
  | succ n ih =>
    rw [longestUpTo?] at h
    split at h
    · next found hfound =>
      cases h
      refine ⟨List.take_prefix _ _, Rule.matches_of_find?_eq_some hfound, ?_⟩
      intro rule' front' hfront' hlength _
      have hle := hfront'.length_le
      rw [List.length_take]
      omega
    · next hnone =>
      obtain ⟨hfront, hrule, hlongest⟩ := ih h
      refine ⟨hfront, hrule, fun rule' front' hfront' hlength hrule' => ?_⟩
      rcases length_le_or_eq_take hfront' hlength with hle | rfl
      · exact hlongest rule' front' hfront' hle hrule'
      · exact (Rule.not_matches_of_find?_eq_none hnone rule' hrule').elim

/-- A scanner that tries the fronts of a text from the longest to the shortest.  If no rule matches
    any, it fails over the first character. -/
def scanLongest (text : String) : Scan :=
  match longestUpTo? text.toList text.toList.length with
  | some (rule, front) => ⟨some (.ok (rule.atom front)), 0, (String.ofList front).utf8ByteSize⟩
  | none =>
    match text.toList with
    | [] => ⟨none, 0, 0⟩
    | c :: _ => ⟨some (.error ()), 0, c.utf8Size⟩

theorem findsLongest_scanLongest : FindsLongest scanLongest where
  longest := by
    intro text atom h
    cases hlongest : longestUpTo? text.toList text.toList.length with
    | some found =>
      obtain ⟨rule, front⟩ := found
      obtain ⟨hfront, hrule, hle⟩ := longestUpTo?_eq_some hlongest
      rw [scanLongest, hlongest] at h ⊢
      cases h
      exact ⟨rule, front, hfront, hrule, rfl, rfl, rfl, fun rule' front' hfront' hrule' =>
        hle rule' front' hfront' hfront'.length_le hrule'⟩
    | none =>
      rw [scanLongest, hlongest] at h
      cases htext : text.toList with
      | nil => rw [htext] at h; cases h
      | cons c rest => rw [htext] at h; cases h
  nothing := by
    intro text h rule front hfront
    cases hlongest : longestUpTo? text.toList text.toList.length with
    | none => exact longestUpTo?_eq_none hlongest rule front hfront hfront.length_le
    | some found =>
      refine (h (found.1.atom found.2) ?_).elim
      rw [scanLongest, hlongest]

/-! ## The main statement -/

/-- **A scanner that finds the longest match decides the atoms.**  It recognizes the same atoms as
    `classify`: a text that matches the pattern of a numeral, the name of a constant with or without
    a minus sign, the symbol of an operator, and the two parentheses.  No text is of two kinds; and
    a text that no rule matches as a whole is reported as it is. -/
theorem Atom.classifyBy_decides_atoms {scan : String → Scan} (hscan : FindsLongest scan)
    (text : String) :
    classifyBy scan text = classify text ∧
      (classifyBy scan text = .ok .numeral ↔ text.toList ∈ Pattern.numeral.matches') ∧
      (∀ named negated, classifyBy scan text = .ok (.constant ⟨named, negated⟩) ↔
        text = (if negated then "-" else "") ++ named.name) ∧
      (∀ op, classifyBy scan text = .ok (.operator op) ↔ text = op.symbol) ∧
      (classifyBy scan text = .ok .opening ↔ text = "(") ∧
      (classifyBy scan text = .ok .closing ↔ text = ")") ∧
      (∀ rule rule', Rule.Matches rule text.toList → Rule.Matches rule' text.toList →
        rule = rule') ∧
      (∀ e, classifyBy scan text = .error e ↔
        e = .unknownAtom text ∧ ∀ rule, ¬ Rule.Matches rule text.toList) := by
  refine ⟨classifyBy_eq_classify hscan text, ?_, ?_, ?_, ?_, ?_, ?_, ?_⟩
  · exact (classifyBy_eq_ok_iff hscan).trans (spelled_iff_matches fun _ => rfl)
  · exact fun named negated => (classifyBy_eq_ok_iff hscan).trans spelled_constant_iff
  · exact fun op => (classifyBy_eq_ok_iff hscan).trans (spelled_word_iff rfl fun _ => rfl)
  · exact (classifyBy_eq_ok_iff hscan).trans (spelled_word_iff rfl fun _ => rfl)
  · exact (classifyBy_eq_ok_iff hscan).trans (spelled_word_iff rfl fun _ => rfl)
  · exact fun rule rule' h h' => Rule.eq_of_matches h h'
  · exact fun e => classifyBy_eq_error_iff hscan

/-- Of `3.5.1` the scanner finds `3.5`, which ends at byte 3, so it is no atom; `-c` is a constant as
    a whole, although its sign is an operator. -/
theorem Atom.classifyBy_scanLongest :
    FindsLongest scanLongest ∧
      (scanLongest "3.5.1").found = some (.ok .numeral) ∧ (scanLongest "3.5.1").stop = 3 ∧
      classifyBy scanLongest "3.5.1" = .error (.unknownAtom "3.5.1") ∧
      classifyBy scanLongest "-c" = .ok (.constant ⟨.c, true⟩) := by
  have hfound : (scanLongest "3.5.1").found = some (.ok .numeral) := by decide +kernel
  have hstop : (scanLongest "3.5.1").stop = 3 := by decide +kernel
  have hclassify : classify "3.5.1" = .error (.unknownAtom "3.5.1") := by decide +kernel
  obtain ⟨hsame, -⟩ := classifyBy_decides_atoms findsLongest_scanLongest "3.5.1"
  obtain ⟨-, -, hconstant, -⟩ := classifyBy_decides_atoms findsLongest_scanLongest "-c"
  exact ⟨findsLongest_scanLongest, hfound, hstop, hsame.trans hclassify, (hconstant .c true).2 rfl⟩

end Reckoner
