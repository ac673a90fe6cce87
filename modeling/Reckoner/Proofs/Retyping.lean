/-
  Typing an answer instead of asking for it.

  A finite answer is shown as a numeral, so it can be typed wherever `ans` can stand, and a line
  reads the same with the one as with the other.

  1. **A line, changed atom by atom (`readChars_rewrite`)** — it reads as before if each of its atoms
     does.  The blanks and the parentheses stay where they are, so the line is cut where it was cut.

  2. **The text of a finite number (`numeral_chars`)** — is a numeral, with a minus sign or without,
     and reads back as the number; so it writes the token that `ans` writes (`readAtom_typed`).

  3. **The answer on its own (`calculate_text`)** — the text of a number is a line whose answer is
     the number.
-/
import Reckoner.Proofs.Blocks
import Reckoner.Proofs.Chunks
import Reckoner.Proofs.Mentions
import Reckoner.Proofs.RoundTrip

namespace Reckoner

/-! ## A line, changed atom by atom -/

namespace Line

/-- A line with each of its atoms written in another way. -/
def rewrite (write : List Char → List Char) (line : List Char) : List Char :=
  [' '].intercalate ((Text.pieces ' ' line).map (Chunk.rewrite write))

section
variable {write : List Char → List Char} (hblank : ∀ atom, ' ' ∉ atom → ' ' ∉ write atom)
include hblank

/-- A changed line has its blanks where the line had them. -/
theorem pieces_rewrite (line : List Char) :
    Text.pieces ' ' (rewrite write line) = (Text.pieces ' ' line).map (Chunk.rewrite write) := by
  refine Text.pieces_intercalate (mt List.map_eq_nil_iff.1 (List.cons_ne_nil _ _)) ?_
  intro part hpart
  obtain ⟨chunk, hchunk, rfl⟩ := List.mem_map.1 hpart
  have hnone : ' ' ∉ chunk := Text.not_mem_of_mem_pieces hchunk
  intro hmem
  obtain ⟨atom, hatom, hmem⟩ := List.mem_flatMap.1 hmem
  refine hblank atom (fun hin => hnone ?_) hmem
  rw [← Chunk.flatten_atoms chunk]
  exact List.mem_flatten.2 ⟨atom, hatom, hin⟩

/-- The atoms of a changed line are those of the line, changed. -/
theorem atoms_rewrite (hwrite : Chunk.Rewrites write) (line : List Char) :
    atoms (rewrite write line) = (atoms line).map write := by
  rw [atoms, pieces_rewrite hblank, List.flatMap_map, atoms, List.map_flatMap]
  exact congrArg (List.flatMap · _) (funext (Chunk.atoms_rewrite hwrite))

end

section
variable {write : List Char → List Char} {lastAnswer lastAnswer' : Option Float}
  (hwrite : Chunk.Rewrites write)
  (hread : ∀ atom token, readAtom lastAnswer' (write atom) = .ok token ↔
    readAtom lastAnswer atom = .ok token)
include hwrite hread

theorem readChunk_rewrite {chunk : List Char} {tokens : List Token} :
    readChunk lastAnswer' (Chunk.rewrite write chunk) = .ok tokens ↔
      readChunk lastAnswer chunk = .ok tokens := by
  have hmixed : ('(' ∈ Chunk.rewrite write chunk ∧ ')' ∈ Chunk.rewrite write chunk) ↔
      '(' ∈ chunk ∧ ')' ∈ chunk :=
    and_congr (Chunk.mem_rewrite_iff hwrite rfl chunk) (Chunk.mem_rewrite_iff hwrite rfl chunk)
  rw [readChunk, readChunk, Chunk.split, Chunk.split]
  by_cases h : '(' ∈ chunk ∧ ')' ∈ chunk
  · rw [if_pos h, if_pos (hmixed.2 h)]
    constructor
    · intro hok
      cases hok
    · intro hok
      cases hok
  · rw [if_neg h, if_neg (mt hmixed.1 h)]
    show (Chunk.atoms (Chunk.rewrite write chunk)).mapM (readAtom lastAnswer') = .ok tokens ↔
      (Chunk.atoms chunk).mapM (readAtom lastAnswer) = .ok tokens
    rw [Chunk.atoms_rewrite hwrite, Outcome.mapM_eq_ok_iff, Outcome.mapM_eq_ok_iff,
      List.forall₂_map_left_iff]
    simp only [hread]

/-- **A changed line reads as before** if each of its atoms does. -/
theorem readChars_rewrite (hblank : ∀ atom, ' ' ∉ atom → ' ' ∉ write atom) {line : List Char}
    {tokens : List Token} :
    readChars lastAnswer' (rewrite write line) = .ok tokens ↔
      readChars lastAnswer line = .ok tokens := by
  have hparts : ∀ parts,
      (Text.pieces ' ' (rewrite write line)).mapM (readChunk lastAnswer') = .ok parts ↔
        (Text.pieces ' ' line).mapM (readChunk lastAnswer) = .ok parts := by
    intro parts
    rw [pieces_rewrite hblank, Outcome.mapM_eq_ok_iff, Outcome.mapM_eq_ok_iff,
      List.forall₂_map_left_iff]
    simp only [readChunk_rewrite hwrite hread]
  rw [readChars, readChars, Outcome.bind_eq_ok, Outcome.bind_eq_ok]
  exact exists_congr fun parts => and_congr_left fun _ => hparts parts

end

end Line

/-! ## The text of a finite number -/

namespace Number

/-- **The text of a finite number is a numeral.** -/
theorem numeral_chars {x : Float} (h : x.isFinite = true) : Numeral (chars x) := by
  have hfinite : x.toModel.unpack.isFinite = true := h
  rw [chars]
  cases hunpack : x.toModel.unpack with
  | notANumber => rw [hunpack] at hfinite; cases hfinite
  | infinity sign => rw [hunpack] at hfinite; cases hfinite
  | zero sign => cases sign <;> exact Atom.isNumeral_iff.1 (by decide)
  | finite sign mantissa exponent hpos =>
    have hnumeral := Decimal.unsignedNumeral_chars (Decimal.shortest mantissa exponent hpos)
    cases sign with
    | negative => exact .negative hnumeral
    | positive => exact .unsigned hnumeral

/-- The negative of a finite number is finite. -/
theorem isFinite_neg {x : Float} (h : x.isFinite = true) : (-x).isFinite = true := by
  have hfinite : x.toModel.unpack.isFinite = true := h
  show (-x).toModel.unpack.isFinite = true
  rw [unpack_neg]
  cases hunpack : x.toModel.unpack with
  | notANumber => rw [hunpack] at hfinite; cases hfinite
  | infinity sign => rw [hunpack] at hfinite; cases hfinite
  | zero sign => rfl
  | finite sign mantissa exponent hpos => rfl

end Number

/-! ## The answer in the place of `ans` -/

namespace Line

/-- An atom, with the answer typed where it is asked for. -/
def typed (x : Float) (atom : List Char) : List Char :=
  if atom = "ans".toList then Number.chars x
  else if atom = "-ans".toList then Number.chars (-x)
  else atom

/-- A line, with the answer typed wherever it is asked for. -/
def retyped (x : Float) (line : String) : String :=
  String.ofList (rewrite (typed x) line.toList)

section
variable {x : Float}

/-- Elsewhere nothing is changed. -/
theorem typed_of_not_asks {atom : List Char} (h : ¬ AsksForAnswer atom) : typed x atom = atom := by
  rw [typed, if_neg fun hans => h (.inl hans), if_neg fun hans => h (.inr hans)]

/-- Where the answer is asked for, a numeral is typed. -/
theorem numeral_typed (hfinite : x.isFinite = true) {atom : List Char} (h : AsksForAnswer atom) :
    Numeral (typed x atom) := by
  rcases h with rfl | rfl
  · exact Number.numeral_chars hfinite
  · exact Number.numeral_chars (Number.isFinite_neg hfinite)

theorem rewrites_typed (hfinite : x.isFinite = true) : Chunk.Rewrites (typed x) where
  mark := by
    intro c hc
    refine typed_of_not_asks ?_
    rintro (h | h)
    · cases h
    · cases h
  stretch := by
    intro atom hatom
    by_cases h : AsksForAnswer atom
    · have hspelled : Atom.numeral.Spelled (typed x atom) := .numeral (numeral_typed hfinite h)
      exact ⟨hspelled.ne_nil,
        hspelled.isParenthesis_eq_false (fun heq => nomatch heq) (fun heq => nomatch heq)⟩
    · rw [typed_of_not_asks h]
      exact hatom

theorem blank_not_mem_typed (hfinite : x.isFinite = true) (atom : List Char) (hatom : ' ' ∉ atom) :
    ' ' ∉ typed x atom := by
  by_cases h : AsksForAnswer atom
  · have hspelled : Atom.numeral.Spelled (typed x atom) := .numeral (numeral_typed hfinite h)
    exact hspelled.blank_not_mem
  · rw [typed_of_not_asks h]
    exact hatom

/-- **What is typed writes the token that was asked for.** -/
theorem readAtom_typed (hfinite : x.isFinite = true) (atom : List Char) :
    readAtom none (typed x atom) = readAtom (some x) atom := by
  by_cases h : AsksForAnswer atom
  · have hwrites : Writes none (typed x atom) (.number (String.ofList (typed x atom))) :=
      .numeral (numeral_typed hfinite h)
    rw [readAtom_of_writes hwrites]
    rcases h with rfl | rfl
    · rfl
    · rfl
  · rw [typed_of_not_asks h]
    exact readAtom_eq_of_not_asks h none (some x)

end

end Line

/-! ## The answer on its own -/

/-- A number has the value that its text reads as. -/
theorem Token.evaluate_number {text : String} {x : Float} (h : Number.read? text = some x) :
    Token.evaluate [.number text] = .ok x :=
  (Derives.product (.power (.head (.post (.atom (.number h)))))).settles.evaluate_value

/-- **The text of a finite number is a line whose answer is the number.** -/
theorem calculate_text {x : Float} (h : x.isFinite = true) : calculate (Number.text x) = .ok x := by
  have hwritten : ∀ token ∈ [Token.number (Number.text x)], token.IsWritten := by
    intro token htoken
    obtain rfl := List.mem_singleton.1 htoken
    show Numeral (Number.text x).toList
    rw [Number.text, String.toList_ofList]
    exact Number.numeral_chars h
  have hread : Line.read none (Number.text x) = .ok [.number (Number.text x)] := by
    have hshown := Line.readChars_tail none hwritten (Token.balanced_iff.2 rfl)
    rwa [Token.charsAfterBlanks, Token.charsAfterBlanks, List.append_nil, List.tail_cons] at hshown
  have hanswer : Session.fresh.answer (Number.text x) = _ := Session.answer_of_read hread
  rw [calculate, hanswer, Token.evaluate_number (Number.read?_text x)]
  rfl

/-- **Typing a printed answer is the same as asking for it.**  The text of a finite number, the
    negative zero included, is a line whose answer is the number.  And if the text is typed into a
    line wherever the answer is asked for, and the text of the negative where the negative is asked
    for, the line keeps its other atoms and can be read exactly if it could be, as the same
    tokens. -/
theorem printed_answer_replaces_ans (x : Float) (hfinite : x.isFinite = true) :
    calculate (Number.text x) = .ok x ∧
      ∀ line : String,
        Line.atoms (Line.retyped x line).toList = (Line.atoms line.toList).map (Line.typed x) ∧
          ∀ tokens : List Token,
            Line.read (some x) line = .ok tokens ↔
              Line.read none (Line.retyped x line) = .ok tokens := by
  have hwrite := Line.rewrites_typed hfinite
  have hblank := Line.blank_not_mem_typed hfinite
  refine ⟨calculate_text hfinite, fun line => ⟨?_, fun tokens => ?_⟩⟩
  · rw [Line.retyped, String.toList_ofList]
    exact Line.atoms_rewrite hblank hwrite line.toList
  · rw [Line.read, Line.read, Line.retyped, String.toList_ofList]
    refine (Line.readChars_rewrite hwrite (fun atom token => ?_) hblank).symm
    rw [Line.readAtom_typed hfinite]

/-- The negative zero, asked for next to a parenthesis, and its negative. -/
theorem printed_negative_zero_replaces_ans :
    (-0.0 : Float).isFinite = true ∧
      calculate "-0" = .ok (-0.0) ∧
      Line.retyped (-0.0) "2 / (ans - -ans)" = "2 / (-0 - 0)" ∧
      (Line.read (some (-0.0)) "2 / (ans - -ans)" =
          .ok [.number "2", .operator (.binary .divide), .opening, .number "-0",
            .operator (.binary .subtract), .number "0", .closing] ↔
        Line.read none "2 / (-0 - 0)" =
          .ok [.number "2", .operator (.binary .divide), .opening, .number "-0",
            .operator (.binary .subtract), .number "0", .closing]) := by
  have hfinite : (-0.0 : Float).isFinite = true := by decide +kernel
  have htext : Number.text (-0.0) = "-0" := by decide +kernel
  have hretyped : Line.retyped (-0.0) "2 / (ans - -ans)" = "2 / (-0 - 0)" := by decide +kernel
  obtain ⟨hanswer, hread⟩ := printed_answer_replaces_ans (-0.0) hfinite
  rw [htext] at hanswer
  refine ⟨hfinite, hanswer, hretyped, ?_⟩
  rw [← hretyped]
  exact (hread _).2 _

end Reckoner
