/-
  What a line reads as.

  `Line.read` reports at most one fault.  The faults of a line compete: a chunk may hold both
  parentheses, an atom may be unknown, the last answer may be asked for before there is one, and
  the parentheses of the line may not balance.  This file says which one is reported, without the
  order of the work:

  1. **The first fault** — of the chunks from left to right, the first that is at fault; of a
     chunk, that it is mixed, or else the first of its atoms that is at fault (`LineFault`).

  2. **Balance** — only if no chunk is at fault.  It is a statement about the characters of the
     line: a front part with more `)` than `(` comes before an excess of `(`.

  3. **The tokens** — one for each atom, in order.

  The main statement is that these rules (`Reads`) have exactly one outcome, the one of
  `Line.read`.  For balance it needs that cutting a line and reading its atoms make each
  parenthesis of the line one token, in order, and make no others (`depthAfter?_of_writes`).
-/
import Reckoner.Proofs.Atoms
import Reckoner.Proofs.Balance
import Reckoner.Proofs.Outcome

namespace Reckoner.Line

open Outcome (First)

variable {lastAnswer : Option Float}

/-! ## The rules -/

/-- An atom is at fault. -/
inductive AtomFault (lastAnswer : Option Float) (atom : List Char) : LineError → Prop
  | unknown (h : ∀ kind : Atom, ¬ kind.Spelled atom) :
      AtomFault lastAnswer atom (.unknownAtom (String.ofList atom))
  | noAnswer (h : atom = "ans".toList ∨ atom = "-ans".toList) (hnone : lastAnswer = none) :
      AtomFault lastAnswer atom .noAnswer

/-- A chunk is at fault. -/
inductive ChunkFault (lastAnswer : Option Float) (chunk : List Char) : LineError → Prop
  | mixed (h : '(' ∈ chunk ∧ ')' ∈ chunk) :
      ChunkFault lastAnswer chunk (.mixedParentheses (String.ofList chunk))
  | atom {e : LineError} (hmixed : ¬ ('(' ∈ chunk ∧ ')' ∈ chunk))
      (h : First (AtomFault lastAnswer) (Chunk.atoms chunk) e) : ChunkFault lastAnswer chunk e

/-- A chunk or an atom of a line is at fault, and it is the first. -/
def LineFault (lastAnswer : Option Float) (line : List Char) (e : LineError) : Prop :=
  First (ChunkFault lastAnswer) (Text.pieces ' ' line) e

/-- An atom writes a token. -/
inductive Writes (lastAnswer : Option Float) : List Char → Token → Prop
  | numeral {atom : List Char} (h : Numeral atom) :
      Writes lastAnswer atom (.number (String.ofList atom))
  | constant {atom : List Char} {named : SignedConstant} {x : Float}
      (h : (Atom.constant named).Spelled atom) (hvalue : named.value? lastAnswer = some x) :
      Writes lastAnswer atom (.number (Number.text x))
  | operator (op : Operator) : Writes lastAnswer op.symbol.toList (.operator op)
  | opening : Writes lastAnswer ['('] .opening
  | closing : Writes lastAnswer [')'] .closing

/-- The atoms of a line, from left to right. -/
def atoms (line : List Char) : List (List Char) :=
  (Text.pieces ' ' line).flatMap Chunk.atoms

/-- Some front part of the characters closes more than it opens. -/
def ClosesMore (line : List Char) : Prop :=
  ∃ front, front <+: line ∧ front.count '(' < front.count ')'

/-- What a line reads as. -/
inductive Reads (lastAnswer : Option Float) (line : List Char) :
    Except LineError (List Token) → Prop
  | fault {e : LineError} (h : LineFault lastAnswer line e) : Reads lastAnswer line (.error e)
  | closing (hsound : ∀ e, ¬ LineFault lastAnswer line e) (h : ClosesMore line) :
      Reads lastAnswer line (.error (.unbalanced .closing))
  | opening (hsound : ∀ e, ¬ LineFault lastAnswer line e) (hfront : ¬ ClosesMore line)
      (h : line.count ')' < line.count '(') :
      Reads lastAnswer line (.error (.unbalanced .opening))
  | tokens {tokens : List Token} (hsound : ∀ e, ¬ LineFault lastAnswer line e)
      (hfront : ¬ ClosesMore line) (hcount : line.count '(' = line.count ')')
      (h : List.Forall₂ (Writes lastAnswer) (atoms line) tokens) :
      Reads lastAnswer line (.ok tokens)

/-! ## Atoms -/

/-- Only `ans` can lack a number. -/
theorem value?_eq_none_iff {named : SignedConstant} :
    named.value? lastAnswer = none ↔ named.constant = .ans ∧ lastAnswer = none := by
  rw [SignedConstant.value?, Option.map_eq_none_iff]
  constructor
  · intro h
    cases hconstant : named.constant with
    | ans => rw [hconstant] at h; exact ⟨rfl, h⟩
    | pi => rw [hconstant] at h; cases h
    | tau => rw [hconstant] at h; cases h
    | e => rw [hconstant] at h; cases h
    | g => rw [hconstant] at h; cases h
    | phi => rw [hconstant] at h; cases h
    | c => rw [hconstant] at h; cases h
  · rintro ⟨hconstant, hnone⟩
    rw [hconstant]
    exact hnone

theorem spelled_ans_iff {atom : List Char} :
    (∃ negated, (Atom.constant ⟨.ans, negated⟩).Spelled atom) ↔
      atom = "ans".toList ∨ atom = "-ans".toList := by
  constructor
  · rintro ⟨negated, h⟩
    cases h with
    | constant => exact .inl rfl
    | negated => exact .inr rfl
  · rintro (rfl | rfl)
    · exact ⟨false, .constant .ans⟩
    · exact ⟨true, .negated .ans⟩

theorem readAtom_of_writes {atom : List Char} {token : Token}
    (h : Writes lastAnswer atom token) : readAtom lastAnswer atom = .ok token := by
  cases h with
  | numeral h => rw [readAtom, Atom.ofChars?_eq_some_iff.2 (.numeral h)]
  | constant h hvalue =>
    rw [readAtom, Atom.ofChars?_eq_some_iff.2 h]
    simp only [SignedConstant.resolve, hvalue]
    rfl
  | operator op => rw [readAtom, Atom.ofChars?_eq_some_iff.2 (.operator op)]
  | opening => rfl
  | closing => rfl

theorem readAtom_of_fault {atom : List Char} {e : LineError} (h : AtomFault lastAnswer atom e) :
    readAtom lastAnswer atom = .error e := by
  cases h with
  | unknown h =>
    have hnone : Atom.ofChars? atom = none := by
      cases hkind : Atom.ofChars? atom with
      | none => rfl
      | some kind => exact (h kind (Atom.ofChars?_eq_some_iff.1 hkind)).elim
    rw [readAtom, hnone]
  | noAnswer h hnone =>
    obtain ⟨negated, hspelled⟩ := spelled_ans_iff.2 h
    rw [readAtom, Atom.ofChars?_eq_some_iff.2 hspelled, hnone]
    rfl

/-- An atom writes a token or is at fault. -/
theorem writes_or_fault (lastAnswer : Option Float) (atom : List Char) :
    (∃ token, Writes lastAnswer atom token) ∨ ∃ e, AtomFault lastAnswer atom e := by
  by_cases hknown : ∃ kind : Atom, kind.Spelled atom
  · obtain ⟨kind, hkind⟩ := hknown
    cases kind with
    | numeral => cases hkind with | numeral h => exact .inl ⟨_, .numeral h⟩
    | constant named =>
      cases hvalue : named.value? lastAnswer with
      | some x => exact .inl ⟨_, .constant hkind hvalue⟩
      | none =>
        -- only the last answer can be missing
        obtain ⟨hans, hnone⟩ := value?_eq_none_iff.1 hvalue
        obtain ⟨constant, negated⟩ := named
        obtain rfl : constant = .ans := hans
        exact .inr ⟨_, .noAnswer (spelled_ans_iff.1 ⟨negated, hkind⟩) hnone⟩
    | operator op => cases hkind with | operator => exact .inl ⟨_, .operator op⟩
    | opening => cases hkind with | opening => exact .inl ⟨_, .opening⟩
    | closing => cases hkind with | closing => exact .inl ⟨_, .closing⟩
  · exact .inr ⟨_, .unknown fun kind hkind => hknown ⟨kind, hkind⟩⟩

theorem readAtom_eq_ok_iff {atom : List Char} {token : Token} :
    readAtom lastAnswer atom = .ok token ↔ Writes lastAnswer atom token := by
  refine ⟨fun h => ?_, readAtom_of_writes⟩
  rcases writes_or_fault lastAnswer atom with ⟨token', hwrites⟩ | ⟨e, hfault⟩
  · rw [readAtom_of_writes hwrites] at h
    cases h
    exact hwrites
  · rw [readAtom_of_fault hfault] at h
    cases h

theorem readAtom_eq_error_iff {atom : List Char} {e : LineError} :
    readAtom lastAnswer atom = .error e ↔ AtomFault lastAnswer atom e := by
  refine ⟨fun h => ?_, readAtom_of_fault⟩
  rcases writes_or_fault lastAnswer atom with ⟨token, hwrites⟩ | ⟨e', hfault⟩
  · rw [readAtom_of_writes hwrites] at h
    cases h
  · rw [readAtom_of_fault hfault] at h
    cases h
    exact hfault

/-! ## Chunks -/

theorem readChunk_eq_error_iff {chunk : List Char} {e : LineError} :
    readChunk lastAnswer chunk = .error e ↔ ChunkFault lastAnswer chunk e := by
  have hatoms : (Chunk.atoms chunk).mapM (readAtom lastAnswer) = .error e ↔
      First (AtomFault lastAnswer) (Chunk.atoms chunk) e :=
    Outcome.mapM_eq_error_iff.trans (First.congr fun _ _ _ => readAtom_eq_error_iff)
  rw [readChunk, Chunk.split]
  by_cases hmixed : '(' ∈ chunk ∧ ')' ∈ chunk
  · rw [if_pos hmixed]
    constructor
    · intro h
      cases h
      exact .mixed hmixed
    · intro h
      cases h with
      | mixed _ => rfl
      | atom hnot _ => exact (hnot hmixed).elim
  · rw [if_neg hmixed]
    constructor
    · intro h
      exact .atom hmixed (hatoms.1 h)
    · intro h
      cases h with
      | mixed hmixed' => exact (hmixed hmixed').elim
      | atom _ h => exact hatoms.2 h

theorem writes_of_readChunk {chunk : List Char} {tokens : List Token}
    (h : readChunk lastAnswer chunk = .ok tokens) :
    List.Forall₂ (Writes lastAnswer) (Chunk.atoms chunk) tokens := by
  rw [readChunk, Chunk.split] at h
  split at h
  · cases h
  · exact (Outcome.mapM_eq_ok_iff.1 h).imp fun _ _ => readAtom_eq_ok_iff.1

/-! ## Chunks of a line -/

theorem readChunks_eq_error_iff {line : List Char} {e : LineError} :
    (Text.pieces ' ' line).mapM (readChunk lastAnswer) = .error e ↔ LineFault lastAnswer line e :=
  Outcome.mapM_eq_error_iff.trans (First.congr fun _ _ _ => readChunk_eq_error_iff)

/-- Without a fault, each atom of a line writes one token. -/
theorem writes_of_readChunks {line : List Char} {parts : List (List Token)}
    (h : (Text.pieces ' ' line).mapM (readChunk lastAnswer) = .ok parts) :
    List.Forall₂ (Writes lastAnswer) (atoms line) parts.flatten := by
  have hparts : List.Forall₂ (List.Forall₂ (Writes lastAnswer))
      ((Text.pieces ' ' line).map Chunk.atoms) parts := by
    rw [List.forall₂_map_left_iff]
    exact (Outcome.mapM_eq_ok_iff.1 h).imp fun _ _ => writes_of_readChunk
  exact List.rel_flatten hparts

/-- The tokens of a line are determined by its atoms. -/
theorem eq_of_writes {as : List (List Char)} {tokens tokens' : List Token}
    (h : List.Forall₂ (Writes lastAnswer) as tokens)
    (h' : List.Forall₂ (Writes lastAnswer) as tokens') : tokens = tokens' := by
  induction h generalizing tokens' with
  | nil => cases h'; rfl
  | cons htoken _ ih =>
    cases h' with
    | cons htoken' hrest' =>
      have hok := readAtom_of_writes htoken
      rw [readAtom_of_writes htoken'] at hok
      cases hok
      rw [ih hrest']

/-! ## Parentheses -/

/-- An atom and the token it writes change the depth alike. -/
theorem depthAfter?_of_writes_atom {atom : List Char} {token : Token}
    (h : Writes lastAnswer atom token) (depth : Nat) :
    depthAfter? depth atom = Token.depthAfter? depth [token] := by
  -- an atom that is no parenthesis holds none, and its token is an item
  have hitem : ∀ {kind : Atom}, kind.Spelled atom → kind ≠ .opening → kind ≠ .closing →
      depthAfter? depth atom = some depth := by
    intro kind hspelled hopening hclosing
    have hnone := hspelled.isParenthesis_eq_false hopening hclosing
    clear hspelled h
    induction atom with
    | nil => rfl
    | cons c rest ih =>
      rw [depthAfter?_cons (hnone c List.mem_cons_self)]
      exact ih fun c hc => hnone c (List.mem_cons_of_mem _ hc)
  cases h with
  | numeral h => exact hitem (.numeral h) (by decide) (by decide)
  | constant h _ => exact hitem h (fun heq => nomatch heq) (fun heq => nomatch heq)
  | operator op => exact hitem (.operator op) (fun heq => nomatch heq) (fun heq => nomatch heq)
  | opening => rfl
  | closing => cases depth <;> rfl

/-- The atoms of a row and the tokens they write change the depth alike. -/
theorem depthAfter?_of_writes {as : List (List Char)} {tokens : List Token}
    (h : List.Forall₂ (Writes lastAnswer) as tokens) (depth : Nat) :
    depthAfter? depth as.flatten = Token.depthAfter? depth tokens := by
  induction h generalizing depth with
  | nil => rfl
  | @cons atom token as tokens htoken _ ih =>
    have hsplit : Token.depthAfter? depth (token :: tokens) =
        (Token.depthAfter? depth [token]).bind (Token.depthAfter? · tokens) :=
      Token.depthAfter?_append depth [token] tokens
    rw [List.flatten_cons, depthAfter?_append, depthAfter?_of_writes_atom htoken, hsplit]
    congr 1
    funext depth'
    exact ih depth'

/-- Cutting a line into atoms loses its blanks and nothing else. -/
theorem flatten_atoms (line : List Char) :
    (atoms line).flatten = line.filter (· ≠ ' ') := by
  have hchunks : ∀ chunks : List (List Char),
      (chunks.flatMap Chunk.atoms).flatten = chunks.flatten := by
    intro chunks
    induction chunks with
    | nil => rfl
    | cons chunk rest ih =>
      rw [List.flatMap_cons, List.flatten_append, Chunk.flatten_atoms, ih, List.flatten_cons]
  rw [atoms, hchunks, Text.flatten_pieces]

theorem depthAfter?_atoms (depth : Nat) (line : List Char) :
    depthAfter? depth (atoms line).flatten = depthAfter? depth line := by
  rw [flatten_atoms]
  induction line generalizing depth with
  | nil => rfl
  | cons c rest ih =>
    by_cases hblank : c = ' '
    · rw [hblank, List.filter_cons_of_neg (by decide), depthAfter?_cons (by decide)]
      exact ih depth
    · have hsplit : ∀ cs, depthAfter? depth (c :: cs) =
          (depthAfter? depth [c]).bind (depthAfter? · cs) := depthAfter?_append depth [c]
      rw [List.filter_cons_of_pos (by simpa using hblank), hsplit (rest.filter _), hsplit rest]
      congr 1
      funext depth'
      exact ih depth'

/-- **The surplus of the tokens is a surplus of the characters.** -/
theorem surplus?_eq {line : List Char} {tokens : List Token}
    (h : List.Forall₂ (Writes lastAnswer) (atoms line) tokens) :
    surplus? tokens = surplusOf (depthAfter? 0 line) := by
  rw [surplus?, surplusFrom?_eq, ← depthAfter?_of_writes h, depthAfter?_atoms]

theorem exists_depth {line : List Char} (h : ¬ ClosesMore line) :
    ∃ depth, depthAfter? 0 line = some depth := by
  cases hdepth : depthAfter? 0 line with
  | none => exact (h (depthAfter?_eq_none_iff.1 hdepth)).elim
  | some depth => exact ⟨depth, rfl⟩

/-! ## Lines -/

/-- When every chunk can be read, the parentheses decide. -/
theorem readChars_of_parts {line : List Char} {parts : List (List Token)}
    (h : (Text.pieces ' ' line).mapM (readChunk lastAnswer) = .ok parts) :
    readChars lastAnswer line =
      match surplus? parts.flatten with
      | none => .ok parts.flatten
      | some surplus => .error (.unbalanced surplus) := by
  rw [readChars, h]
  rfl

/-- A line with a fault fails with it. -/
theorem readChars_of_fault {line : List Char} {e : LineError} (h : LineFault lastAnswer line e) :
    readChars lastAnswer line = .error e := by
  rw [readChars, readChunks_eq_error_iff.2 h]
  rfl

/-- A line without a fault has tokens, and its outcome is decided by its depth. -/
theorem readChars_of_sound {line : List Char} (h : ∀ e, ¬ LineFault lastAnswer line e) :
    ∃ tokens, List.Forall₂ (Writes lastAnswer) (atoms line) tokens ∧
      readChars lastAnswer line =
        match surplusOf (depthAfter? 0 line) with
        | none => .ok tokens
        | some surplus => .error (.unbalanced surplus) := by
  cases hparts : (Text.pieces ' ' line).mapM (readChunk lastAnswer) with
  | error e => exact (h e (readChunks_eq_error_iff.1 hparts)).elim
  | ok parts =>
    have hwrites := writes_of_readChunks hparts
    refine ⟨parts.flatten, hwrites, ?_⟩
    rw [readChars_of_parts hparts, surplus?_eq hwrites]

/-- The rules hold of the outcome of reading. -/
theorem reads_readChars (lastAnswer : Option Float) (line : List Char) :
    Reads lastAnswer line (readChars lastAnswer line) := by
  by_cases hfault : ∃ e, LineFault lastAnswer line e
  · obtain ⟨e, hfault⟩ := hfault
    rw [readChars_of_fault hfault]
    exact .fault hfault
  · have hsound : ∀ e, ¬ LineFault lastAnswer line e := fun e he => hfault ⟨e, he⟩
    obtain ⟨tokens, hwrites, hread⟩ := readChars_of_sound hsound
    rw [hread]
    cases hdepth : depthAfter? 0 line with
    | none => exact .closing hsound (depthAfter?_eq_none_iff.1 hdepth)
    | some depth =>
      have hfront : ¬ ClosesMore line := by
        intro hmore
        rw [depthAfter?_eq_none_iff.2 hmore] at hdepth
        cases hdepth
      have hcount := depthAfter?_count hdepth
      -- the depth is what is opened and not closed
      cases depth with
      | zero => exact .tokens hsound hfront (by omega) hwrites
      | succ depth => exact .opening hsound hfront (by omega)

/-- The rules have no other outcome. -/
theorem readChars_eq_of_reads {line : List Char} {outcome : Except LineError (List Token)}
    (h : Reads lastAnswer line outcome) : readChars lastAnswer line = outcome := by
  cases h with
  | fault h => exact readChars_of_fault h
  | closing hsound h =>
    obtain ⟨tokens, -, hread⟩ := readChars_of_sound hsound
    rw [hread, depthAfter?_eq_none_iff.2 h]
    rfl
  | opening hsound hfront h =>
    obtain ⟨tokens, -, hread⟩ := readChars_of_sound hsound
    obtain ⟨depth, hdepth⟩ := exists_depth hfront
    have hcount := depthAfter?_count hdepth
    obtain ⟨depth, rfl⟩ : ∃ depth', depth = depth' + 1 := ⟨depth - 1, by omega⟩
    rw [hread, hdepth]
    rfl
  | @tokens tokens hsound hfront hequal hwrites =>
    obtain ⟨tokens', hwrites', hread⟩ := readChars_of_sound hsound
    obtain ⟨depth, hdepth⟩ := exists_depth hfront
    have hcount := depthAfter?_count hdepth
    obtain rfl : depth = 0 := by omega
    obtain rfl := eq_of_writes hwrites hwrites'
    rw [hread, hdepth]
    rfl

/-- Each atom of a line that can be read writes one of its tokens. -/
theorem writes_of_read {line : String} {tokens : List Token}
    (h : read lastAnswer line = .ok tokens) :
    List.Forall₂ (Writes lastAnswer) (atoms line.toList) tokens := by
  have hreads := reads_readChars lastAnswer line.toList
  rw [show readChars lastAnswer line.toList = .ok tokens from h] at hreads
  cases hreads with
  | tokens _ _ _ hwrites => exact hwrites

/-- **A line reads as the rules say, and as nothing else.**  In particular a line without as many
    opening as closing parentheses has no tokens. -/
theorem read_eq_iff_reads (lastAnswer : Option Float) (line : String) :
    (∀ outcome, read lastAnswer line = outcome ↔ Reads lastAnswer line.toList outcome) ∧
      (line.toList.count '(' ≠ line.toList.count ')' →
        ∀ tokens, read lastAnswer line ≠ .ok tokens) := by
  have hreads := reads_readChars lastAnswer line.toList
  refine ⟨fun outcome => ⟨?_, readChars_eq_of_reads⟩, ?_⟩
  · rintro rfl
    exact hreads
  · intro hne tokens hok
    rw [show readChars lastAnswer line.toList = .ok tokens from hok] at hreads
    cases hreads with
    | tokens _ _ hequal _ => exact hne hequal

/-- A group that is not closed has no tokens. -/
theorem read_unclosed : "( 1".toList.count '(' ≠ "( 1".toList.count ')' ∧
    ∀ tokens, read none "( 1" ≠ .ok tokens := by
  have hne : "( 1".toList.count '(' ≠ "( 1".toList.count ')' := by decide
  exact ⟨hne, (read_eq_iff_reads none "( 1").2 hne⟩

end Reckoner.Line
