/-
  Reading what is shown.

  A group is shown with blanks around its parentheses, so the text of a grouped row can be read
  again, and it reads as the flat row that was grouped.

  1. **Showing forgets the groups** (`charsAfterBlanks_groupAll`) — if the parentheses balance, the
     characters of the grouped row are those of the flat row: a group is shown as its parentheses
     and its contents are shown, one after the other.  By the recursion on balanced rows.

  2. **Reading a flat row** (`read_tail`) — each token is a chunk of its own, since none is shown
     with a blank, and a chunk that is a single atom reads as that token.
-/
import Reckoner.Proofs.Reading

namespace Reckoner

/-- A token that can stand in a line: no group, and a number only as a numeral. -/
def Token.IsWritten : Token → Prop
  | .number text => Numeral text.toList
  | .operator _ | .opening | .closing => True
  | .group _ => False

/-! ## Showing -/

namespace Token

theorem charsAfterBlanks_append (tokens tokens' : List Token) :
    charsAfterBlanks (tokens ++ tokens') = charsAfterBlanks tokens ++ charsAfterBlanks tokens' := by
  induction tokens with
  | nil => rfl
  | cons token rest ih =>
    rw [List.cons_append, charsAfterBlanks, charsAfterBlanks, ih]
    simp only [List.cons_append, List.append_assoc]

/-- **Showing forgets the groups.**  The shown characters of a balanced row and of its groups are
    the same. -/
theorem charsAfterBlanks_groupAll (tokens : List Token) (h : depthAfter? 0 tokens = some 0) :
    charsAfterBlanks (groupAll tokens) = charsAfterBlanks tokens := by
  refine balanced_induction ?nil ?item ?bracket tokens h
  case nil => rfl
  case item =>
    intro token rest hitem ih
    rw [groupAll_item hitem, charsAfterBlanks, charsAfterBlanks, ih]
  case bracket =>
    intro inner rest hinner ihinner ihrest
    rw [groupAll_bracket hinner, charsAfterBlanks, chars, ihinner, ihrest,
      charsAfterBlanks_append, charsAfterBlanks, charsAfterBlanks]
    simp [chars]

/-- The tokens of a row, shown with a blank between each and the next. -/
theorem toList_shown (tokens : List Token) :
    (" ".intercalate (tokens.map shown)).toList = (charsAfterBlanks tokens).tail := by
  have hchars : (tokens.map shown).map String.toList = tokens.map chars := by
    rw [List.map_map]
    exact List.map_congr_left fun token _ => String.toList_ofList
  rw [String.toList_intercalate, hchars]
  clear hchars
  show [' '].intercalate (tokens.map chars) = _
  cases tokens with
  | nil => rfl
  | cons token rest =>
    rw [List.map_cons, charsAfterBlanks, List.cons_append, List.tail_cons]
    induction rest generalizing token with
    | nil => rw [List.map_nil, List.intercalate_singleton, charsAfterBlanks, List.append_nil]
    | cons token' rest ih =>
      rw [List.map_cons, List.intercalate_cons_cons, ih token', charsAfterBlanks]
      simp

end Token

/-! ## Reading a flat row -/

namespace Line

variable {lastAnswer : Option Float}

/-- The pieces of a shown row are its tokens, if none is shown with a blank. -/
theorem pieces_charsAfterBlanks (tokens : List Token) (h : ∀ token ∈ tokens, ' ' ∉ token.chars) :
    ∀ cs : List Char, ' ' ∉ cs →
      Text.pieces ' ' (cs ++ Token.charsAfterBlanks tokens) = cs :: tokens.map Token.chars := by
  induction tokens with
  | nil =>
    intro cs hcs
    rw [Token.charsAfterBlanks, List.append_nil, Text.pieces_of_not_mem hcs]
    rfl
  | cons token rest ih =>
    intro cs hcs
    have hrest := ih fun token hmem => h token (List.mem_cons_of_mem _ hmem)
    rw [Token.charsAfterBlanks, List.cons_append, Text.pieces_append,
      Text.pieces_of_not_mem hcs, hrest token.chars (h token List.mem_cons_self)]
    rfl

theorem spelled_of_writes {atom : List Char} {token : Token} (h : Writes lastAnswer atom token) :
    ∃ kind : Atom, kind.Spelled atom := by
  cases h with
  | numeral h => exact ⟨_, .numeral h⟩
  | constant h _ => exact ⟨_, h⟩
  | operator op => exact ⟨_, .operator op⟩
  | opening => exact ⟨_, .opening⟩
  | closing => exact ⟨_, .closing⟩

/-- A chunk that is one atom is not cut. -/
theorem split_of_spelled {kind : Atom} {cs : List Char} (h : kind.Spelled cs) :
    Chunk.split cs = .ok [cs] := by
  by_cases hopening : kind = .opening
  · rw [hopening] at h
    cases h
    rfl
  · by_cases hclosing : kind = .closing
    · rw [hclosing] at h
      cases h
      rfl
    · have hnone := h.isParenthesis_eq_false hopening hclosing
      have hnot : ¬ ('(' ∈ cs ∧ ')' ∈ cs) := by
        rintro ⟨hmem, -⟩
        exact absurd (hnone '(' hmem) (by decide)
      have hcut : Chunk.cut cs = (cs, []) := by
        clear h hnot
        induction cs with
        | nil => rfl
        | cons c rest ih =>
          have hrest := ih fun c hc => hnone c (List.mem_cons_of_mem _ hc)
          rw [Chunk.cut, hnone c List.mem_cons_self, if_neg Bool.false_ne_true, hrest]
      rw [Chunk.split, if_neg hnot, Chunk.atoms, hcut, Chunk.consStretch, if_neg h.ne_nil]

theorem readChunk_of_writes {atom : List Char} {token : Token}
    (h : Writes lastAnswer atom token) : readChunk lastAnswer atom = .ok [token] := by
  obtain ⟨kind, hkind⟩ := spelled_of_writes h
  rw [readChunk, split_of_spelled hkind]
  show [atom].mapM (readAtom lastAnswer) = .ok [token]
  rw [Outcome.mapM_eq_ok_iff]
  exact .cons (readAtom_of_writes h) .nil

theorem writes_of_isWritten (lastAnswer : Option Float) {token : Token} (h : token.IsWritten) :
    Writes lastAnswer token.chars token := by
  cases token with
  | number text =>
    have hwrites : Writes lastAnswer text.toList (.number (String.ofList text.toList)) := .numeral h
    rwa [String.ofList_toList] at hwrites
  | operator op => exact .operator op
  | opening => exact .opening
  | closing => exact .closing
  | group children => exact h.elim

/-- A flat row that balances, shown with a blank between each token and the next, reads as that
    row. -/
theorem readChars_tail (lastAnswer : Option Float) {tokens : List Token}
    (hwritten : ∀ token ∈ tokens, token.IsWritten) (hbalanced : Token.Balanced tokens) :
    readChars lastAnswer (Token.charsAfterBlanks tokens).tail = .ok tokens := by
  have hblank : ∀ token ∈ tokens, ' ' ∉ token.chars := by
    intro token hmem
    obtain ⟨kind, hkind⟩ := spelled_of_writes (writes_of_isWritten lastAnswer (hwritten token hmem))
    exact hkind.blank_not_mem
  have hparts : ∃ parts, (Text.pieces ' ' (Token.charsAfterBlanks tokens).tail).mapM
      (readChunk lastAnswer) = .ok parts ∧ parts.flatten = tokens := by
    cases tokens with
    | nil =>
      -- the empty row is shown as the empty text, which is one chunk without atoms
      exact ⟨[[]], rfl, rfl⟩
    | cons token rest =>
      have hpieces : Text.pieces ' ' (token.chars ++ Token.charsAfterBlanks rest) =
          (token :: rest).map Token.chars :=
        pieces_charsAfterBlanks rest (fun token hmem => hblank token (List.mem_cons_of_mem _ hmem))
          token.chars (hblank token List.mem_cons_self)
      refine ⟨(token :: rest).map ([·]), ?_, List.flatMap_singleton' _⟩
      rw [Token.charsAfterBlanks, List.cons_append, List.tail_cons, hpieces,
        Outcome.mapM_eq_ok_iff, List.forall₂_map_left_iff, List.forall₂_map_right_iff,
        List.forall₂_same]
      exact fun token hmem => readChunk_of_writes (writes_of_isWritten lastAnswer (hwritten token hmem))
  obtain ⟨parts, hread, hflatten⟩ := hparts
  have hsurplus : surplus? parts.flatten = none := by
    rw [hflatten, surplus?, surplusFrom?_eq, Token.balanced_iff.1 hbalanced]
    rfl
  rw [readChars_of_parts hread, hsurplus, hflatten]

/-- **A grouped row, shown, reads as the flat row that was grouped.** -/
theorem read_shown_groupAll (lastAnswer : Option Float) (tokens : List Token)
    (hwritten : ∀ token ∈ tokens, token.IsWritten) (hbalanced : Token.Balanced tokens) :
    read lastAnswer (" ".intercalate ((Token.groupAll tokens).map Token.shown)) = .ok tokens := by
  rw [read, Token.toList_shown,
    Token.charsAfterBlanks_groupAll tokens (Token.balanced_iff.1 hbalanced)]
  exact readChars_tail lastAnswer hwritten hbalanced

/-- A group in a group, the inner one empty. -/
theorem read_shown_nested :
    Token.Balanced [.opening, .opening, .closing, .number "-1.5", .closing] ∧
      read none "( ( ) -1.5 )" =
        .ok [.opening, .opening, .closing, .number "-1.5", .closing] := by
  have hwritten : ∀ token ∈ [Token.opening, .opening, .closing, .number "-1.5", .closing],
      token.IsWritten := by
    have hnumeral : Numeral ['-', '1', '.', '5'] := Atom.isNumeral_iff.1 (by decide)
    simpa [Token.IsWritten] using hnumeral
  have hbalanced : Token.Balanced [.opening, .opening, .closing, .number "-1.5", .closing] :=
    Token.balanced_iff.2 rfl
  have hshown : " ".intercalate ((Token.groupAll
      [.opening, .opening, .closing, .number "-1.5", .closing]).map Token.shown) =
        "( ( ) -1.5 )" := by decide
  have hread := read_shown_groupAll none _ hwritten hbalanced
  rw [hshown] at hread
  exact ⟨hbalanced, hread⟩

end Line

end Reckoner
