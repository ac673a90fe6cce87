/-
  Lines that mention the last answer.

  A line can see the session in one way only: through its atoms `ans` and `-ans`.

  1. **Without a mention (`Session.answer_eq_of_not_mentions`)** — every other atom reads the same
     whatever the last answer is, so the line does, and no stage behind the reading looks at the
     session at all.

  2. **With a mention, but without an answer (`Line.readChars_eq_noAnswer_iff`)** — the mention is
     at fault, so the line has no tokens.  Which fault is reported is a matter of order: what is
     wrong behind the first mention cannot come before it, and of what stands before it only a
     mixed chunk and an unknown atom are faults.
-/
import Reckoner.Proofs.LastAnswer

namespace Reckoner

open Outcome (First)

namespace Line

/-! ## Mentions -/

/-- An atom asks for the last answer. -/
def AsksForAnswer (atom : List Char) : Prop :=
  atom = "ans".toList ∨ atom = "-ans".toList

instance : DecidablePred AsksForAnswer :=
  fun atom => inferInstanceAs (Decidable (atom = "ans".toList ∨ atom = "-ans".toList))

/-- Some atom of a line asks for the last answer. -/
def Mentions (line : List Char) : Prop :=
  ∃ atom ∈ atoms line, AsksForAnswer atom

instance : DecidablePred Mentions :=
  fun line => inferInstanceAs (Decidable (∃ atom ∈ atoms line, AsksForAnswer atom))

/-- A chunk holds parentheses of both kinds. -/
def Mixed (chunk : List Char) : Prop :=
  '(' ∈ chunk ∧ ')' ∈ chunk

instance : DecidablePred Mixed :=
  fun chunk => inferInstanceAs (Decidable ('(' ∈ chunk ∧ ')' ∈ chunk))

/-- A text is an atom, of whichever kind. -/
def IsKnown (atom : List Char) : Prop := ∃ kind : Atom, kind.Spelled atom

instance : DecidablePred IsKnown := fun atom =>
  decidable_of_iff ((Atom.ofChars? atom).isSome = true) <| by
    rw [Option.isSome_iff_exists]
    exact exists_congr fun kind => Atom.ofChars?_eq_some_iff

/-- The place of the first mention in a line: the chunks before its own, its chunk, and the atoms
    of this chunk before it. -/
structure FirstMention (line : List Char) (before : List (List Char)) (chunk : List Char)
    (front : List (List Char)) : Prop where
  /-- The chunks come first in the line. -/
  chunks : before ++ [chunk] <+: Text.pieces ' ' line
  /-- Behind the atoms, the chunk asks for the last answer. -/
  mention : ∃ atom, front ++ [atom] <+: Chunk.atoms chunk ∧ AsksForAnswer atom
  /-- Nothing before this place does. -/
  first : ∀ atom ∈ before.flatMap Chunk.atoms ++ front, ¬ AsksForAnswer atom

/-- A line that mentions the last answer does so somewhere first. -/
theorem exists_firstMention {line : List Char} (h : Mentions line) :
    ∃ before chunk front, FirstMention line before chunk front := by
  have hchunk : ∃ chunk ∈ Text.pieces ' ' line, ∃ atom ∈ Chunk.atoms chunk, AsksForAnswer atom := by
    obtain ⟨atom, hatom, hasks⟩ := h
    obtain ⟨chunk, hchunk, hatom⟩ := List.mem_flatMap.1 hatom
    exact ⟨chunk, hchunk, atom, hatom, hasks⟩
  obtain ⟨before, chunk, hchunks, hmention, hbefore⟩ := Outcome.exists_first hchunk
  obtain ⟨front, atom, hatoms, hasks, hfront⟩ := Outcome.exists_first hmention
  refine ⟨before, chunk, front, hchunks, ⟨atom, hatoms, hasks⟩, fun other hother => ?_⟩
  rcases List.mem_append.1 hother with hother | hother
  · obtain ⟨earlier, hearlier, hmem⟩ := List.mem_flatMap.1 hother
    exact fun hask => hbefore earlier hearlier ⟨other, hmem, hask⟩
  · exact hfront other hother

/-! ## Lines without a mention -/

/-- Every other constant has its number whatever the last answer is. -/
theorem value?_eq_of_ne {named : SignedConstant} (h : named.constant ≠ .ans)
    (lastAnswer lastAnswer' : Option Float) :
    named.value? lastAnswer = named.value? lastAnswer' := by
  rw [SignedConstant.value?, SignedConstant.value?]
  congr 1
  cases hconstant : named.constant with
  | ans => exact (h hconstant).elim
  | pi | tau | e | g | phi | c => rfl

/-- An atom that does not ask for the last answer reads the same whatever it is. -/
theorem readAtom_eq_of_not_asks {atom : List Char} (h : ¬ AsksForAnswer atom)
    (lastAnswer lastAnswer' : Option Float) :
    readAtom lastAnswer atom = readAtom lastAnswer' atom := by
  rw [readAtom, readAtom]
  cases hkind : Atom.ofChars? atom with
  | none => rfl
  | some kind =>
    cases kind with
    | numeral | operator op | opening | closing => rfl
    | constant named =>
      have hne : named.constant ≠ .ans := by
        rintro hans
        obtain ⟨constant, negated⟩ := named
        obtain rfl : constant = .ans := hans
        exact h (spelled_ans_iff.1 ⟨negated, Atom.ofChars?_eq_some_iff.1 hkind⟩)
      simp only [SignedConstant.resolve, value?_eq_of_ne hne lastAnswer lastAnswer']

theorem readChars_eq_of_not_mentions {line : List Char} (h : ¬ Mentions line)
    (lastAnswer lastAnswer' : Option Float) :
    readChars lastAnswer line = readChars lastAnswer' line := by
  have hchunk : ∀ chunk ∈ Text.pieces ' ' line,
      readChunk lastAnswer chunk = readChunk lastAnswer' chunk := by
    intro chunk hchunk
    rw [readChunk, readChunk, Chunk.split]
    split
    · rfl
    · refine Outcome.mapM_congr fun atom hatom => readAtom_eq_of_not_asks (fun hasks => ?_) _ _
      exact h ⟨atom, List.mem_flatMap.2 ⟨chunk, hchunk, hatom⟩, hasks⟩
  rw [readChars, readChars, Outcome.mapM_congr hchunk]

/-! ## Mentions without an answer -/

/-- Where there is no answer, an atom that asks for it is at fault. -/
theorem fault_of_asks {atom : List Char} (h : AsksForAnswer atom) :
    AtomFault none atom .noAnswer :=
  .noAnswer h rfl

/-- A line that mentions an answer that is not there has no tokens. -/
theorem readChars_ne_ok_of_mentions {line : List Char} (h : Mentions line) (tokens : List Token) :
    readChars none line ≠ .ok tokens := by
  intro hok
  obtain ⟨atom, hatom, hasks⟩ := h
  have hreads := reads_readChars none line
  rw [hok] at hreads
  cases hreads with
  | tokens _ _ _ hwrites =>
    obtain ⟨i, hi, rfl⟩ := List.getElem_of_mem hatom
    have hread := readAtom_of_writes (hwrites.get hi (hwrites.length_eq ▸ hi))
    rw [List.get_eq_getElem, readAtom_of_fault (fault_of_asks hasks)] at hread
    cases hread

/-- Of the atoms that do not ask for the last answer, those that are known are in order. -/
theorem atom_sound_iff {atom : List Char} (h : ¬ AsksForAnswer atom) :
    (∀ e, ¬ AtomFault none atom e) ↔ IsKnown atom := by
  constructor
  · intro hsound
    by_contra hunknown
    exact hsound _ (.unknown fun kind hkind => hunknown ⟨kind, hkind⟩)
  · rintro ⟨kind, hkind⟩ e hfault
    cases hfault with
    | unknown hunknown => exact hunknown kind hkind
    | noAnswer hasks _ => exact h hasks

section
variable {chunk : List Char}

/-- A chunk is in order if it is not mixed and each of its atoms is in order. -/
theorem chunk_sound_iff {lastAnswer : Option Float} :
    (∀ e, ¬ ChunkFault lastAnswer chunk e) ↔
      ¬ Mixed chunk ∧ ∀ atom ∈ Chunk.atoms chunk, ∀ e, ¬ AtomFault lastAnswer atom e := by
  constructor
  · intro hsound
    have hmixed : ¬ Mixed chunk := fun hmixed => hsound _ (.mixed hmixed)
    exact ⟨hmixed, First.sound_iff.1 fun e h => hsound e (.atom hmixed h)⟩
  · rintro ⟨hmixed, hatoms⟩ e hfault
    cases hfault with
    | mixed h => exact hmixed h
    | atom _ h => exact First.sound_iff.2 hatoms e h

/-- A chunk without a mention is in order if it is not mixed and all of its atoms are known. -/
theorem chunk_sound_iff_known (h : ∀ atom ∈ Chunk.atoms chunk, ¬ AsksForAnswer atom) :
    (∀ e, ¬ ChunkFault none chunk e) ↔
      ¬ Mixed chunk ∧ ∀ atom ∈ Chunk.atoms chunk, IsKnown atom := by
  rw [chunk_sound_iff]
  exact and_congr_right fun _ => forall₂_congr fun atom hatom => atom_sound_iff (h atom hatom)

/-- A chunk without a mention does not report that there is no answer. -/
theorem not_noAnswer_of_not_asks (h : ∀ atom ∈ Chunk.atoms chunk, ¬ AsksForAnswer atom) :
    ¬ ChunkFault none chunk .noAnswer := by
  intro hfault
  cases hfault with
  | atom _ hfirst =>
    obtain ⟨atom, hatom, hfault⟩ := hfirst.exists_mem
    cases hfault with
    | noAnswer hasks _ => exact h atom hatom hasks

/-- A chunk with a mention is at fault. -/
theorem exists_chunkFault (h : ∃ atom ∈ Chunk.atoms chunk, AsksForAnswer atom) :
    ∃ e, ChunkFault none chunk e := by
  obtain ⟨atom, hatom, hasks⟩ := h
  by_contra hsound
  exact (chunk_sound_iff.1 (not_exists.1 hsound)).2 atom hatom _ (fault_of_asks hasks)

/-- A chunk with a mention reports it unless the chunk is mixed or an atom before the mention is
    unknown. -/
theorem chunkFault_noAnswer_iff {front rest : List (List Char)} {atom : List Char}
    (hatoms : front ++ atom :: rest = Chunk.atoms chunk) (hasks : AsksForAnswer atom)
    (hfront : ∀ other ∈ front, ¬ AsksForAnswer other) :
    ChunkFault none chunk .noAnswer ↔ ¬ Mixed chunk ∧ ∀ other ∈ front, IsKnown other := by
  have hfirst : First (AtomFault none) (Chunk.atoms chunk) .noAnswer ↔
      ∀ other ∈ front, IsKnown other := by
    rw [← hatoms, First.at_iff ⟨_, fault_of_asks hasks⟩]
    · rw [and_iff_left (fault_of_asks hasks)]
      exact forall₂_congr fun other hother => atom_sound_iff (hfront other hother)
    · intro other hother hfault
      cases hfault with
      | noAnswer hasks _ => exact hfront other hother hasks
  rw [← hfirst]
  constructor
  · intro h
    cases h with
    | atom hmixed h => exact ⟨hmixed, h⟩
  · rintro ⟨hmixed, h⟩
    exact .atom hmixed h

end

/-- Only the fault of a chunk or an atom reports that there is no answer. -/
theorem readChars_eq_noAnswer_iff_fault {line : List Char} :
    readChars none line = .error .noAnswer ↔ LineFault none line .noAnswer := by
  refine ⟨fun hread => ?_, readChars_of_fault⟩
  have hreads := reads_readChars none line
  rw [hread] at hreads
  cases hreads with
  | fault hfault => exact hfault

/-- **Where there is no answer, the first mention decides.**  The missing answer is reported
    exactly if no chunk up to the one of the first mention is mixed and no atom before the mention
    is unknown. -/
theorem readChars_eq_noAnswer_iff {line : List Char} {before : List (List Char)}
    {chunk : List Char} {front : List (List Char)} (h : FirstMention line before chunk front) :
    readChars none line = .error .noAnswer ↔
      (∀ c ∈ before ++ [chunk], ¬ Mixed c) ∧
        ∀ atom ∈ before.flatMap Chunk.atoms ++ front, IsKnown atom := by
  obtain ⟨⟨behind, hpieces⟩, ⟨atom, ⟨rest, hatoms⟩, hasks⟩, hfirst⟩ := h
  rw [List.append_assoc, List.singleton_append] at hpieces hatoms
  simp only [List.forall_mem_append, List.forall_mem_flatMap, List.forall_mem_singleton] at hfirst ⊢
  obtain ⟨hbefore, hfront⟩ := hfirst
  have hmention : ∃ atom ∈ Chunk.atoms chunk, AsksForAnswer atom :=
    ⟨atom, hatoms ▸ List.mem_append_right _ List.mem_cons_self, hasks⟩
  rw [readChars_eq_noAnswer_iff_fault, LineFault, ← hpieces,
    First.at_iff (exists_chunkFault hmention) fun c hc => not_noAnswer_of_not_asks (hbefore c hc),
    chunkFault_noAnswer_iff hatoms hasks hfront]
  have hsound : (∀ c ∈ before, ∀ e, ¬ ChunkFault none c e) ↔
      ∀ c ∈ before, ¬ Mixed c ∧ ∀ other ∈ Chunk.atoms c, IsKnown other :=
    forall₂_congr fun c hc => chunk_sound_iff_known (hbefore c hc)
  rw [hsound]
  constructor
  · rintro ⟨hchunks, hmixed, hknown⟩
    exact ⟨⟨fun c hc => (hchunks c hc).1, hmixed⟩, fun c hc => (hchunks c hc).2, hknown⟩
  · rintro ⟨⟨hchunks, hmixed⟩, hatoms, hknown⟩
    exact ⟨fun c hc => ⟨hchunks c hc, hatoms c hc⟩, hmixed, hknown⟩

end Line

/-! ## The session of a line -/

namespace Session

/-- A line without a mention has the same answer in every session. -/
theorem answer_eq_of_not_mentions {line : String} (h : ¬ Line.Mentions line.toList)
    (session session' : Session) : session.answer line = session'.answer line := by
  rw [answer, answer, Line.read, Line.read,
    Line.readChars_eq_of_not_mentions h session.lastAnswer session'.lastAnswer]

/-- A line fails for want of an answer exactly if it cannot be read for this reason. -/
theorem answer_eq_noAnswer_iff {session : Session} {line : String} :
    session.answer line = .error (.line .noAnswer) ↔
      Line.readChars session.lastAnswer line.toList = .error .noAnswer := by
  rw [answer, Line.read]
  cases Line.readChars session.lastAnswer line.toList with
  | error cause =>
    constructor
    · intro h
      cases h
      rfl
    · intro h
      cases h
      rfl
  | ok tokens =>
    constructor
    · intro h
      dsimp only at h
      split at h
      · cases h
      · cases h
    · intro h
      cases h

/-- **Only a mention of the last answer makes a line look at the session.**  A line without one has
    the same outcome in any two sessions, and leaves the same session if it has an answer.  Where
    there is no last answer, a line with a mention has none either; and it fails for want of it
    exactly if, before its first mention, no atom is unknown and no chunk is mixed, the chunk of
    the mention included. -/
theorem outcome_depends_on_mentions (line : String) :
    (¬ Line.Mentions line.toList → ∀ session session' : Session,
      (session.evaluateLine line).1 = (session'.evaluateLine line).1 ∧
        ∀ x, (session.evaluateLine line).1 = .ok x →
          (session.evaluateLine line).2 = (session'.evaluateLine line).2) ∧
    (Line.Mentions line.toList → ∀ session : Session, session.lastAnswer = none →
      (∀ x, (session.evaluateLine line).1 ≠ .ok x) ∧
        (∃ before chunk front, Line.FirstMention line.toList before chunk front) ∧
        ∀ before chunk front, Line.FirstMention line.toList before chunk front →
          ((session.evaluateLine line).1 = .error (.line .noAnswer) ↔
            (∀ c ∈ before ++ [chunk], ¬ Line.Mixed c) ∧
              ∀ atom ∈ before.flatMap Chunk.atoms ++ front, Line.IsKnown atom)) := by
  refine ⟨fun hnone session session' => ?_, fun hmentions session hsession => ⟨?_, ?_, ?_⟩⟩
  · have hanswer := answer_eq_of_not_mentions hnone session session'
    refine ⟨hanswer, fun x hx => ?_⟩
    have hx' : session.answer line = .ok x := hx
    rw [evaluateLine, evaluateLine, ← hanswer, hx']
    rfl
  · intro x hx
    obtain ⟨tokens, hread, -⟩ := exists_tokens_of_answer hx
    rw [hsession] at hread
    exact Line.readChars_ne_ok_of_mentions hmentions tokens hread
  · exact Line.exists_firstMention hmentions
  · intro before chunk front hfirst
    show session.answer line = _ ↔ _
    rw [answer_eq_noAnswer_iff, hsession]
    exact Line.readChars_eq_noAnswer_iff hfirst

/-- Behind the mention, the parentheses do not balance and an atom is unknown; neither is
    reported. -/
theorem outcome_of_missing_answer :
    ¬ Line.Mentions "2 * 3".toList ∧
      (fresh.evaluateLine "2 * 3").1 = ((⟨some 5⟩ : Session).evaluateLine "2 * 3").1 ∧
      Line.Mentions "2 * (ans )) sine".toList ∧
      fresh.lastAnswer = none ∧
      Line.FirstMention "2 * (ans )) sine".toList ["2".toList, "*".toList] "(ans".toList
        ["(".toList] ∧
      (fresh.evaluateLine "2 * (ans )) sine").1 = .error (.line .noAnswer) := by
  have hnone : ¬ Line.Mentions "2 * 3".toList := by decide +kernel
  have hmentions : Line.Mentions "2 * (ans )) sine".toList := by decide +kernel
  have hfirst : Line.FirstMention "2 * (ans )) sine".toList ["2".toList, "*".toList] "(ans".toList
      ["(".toList] := by
    refine ⟨by decide +kernel, ⟨"ans".toList, by decide +kernel, .inl rfl⟩, by decide +kernel⟩
  refine ⟨hnone, ((outcome_depends_on_mentions "2 * 3").1 hnone fresh ⟨some 5⟩).1, hmentions, rfl,
    hfirst, ?_⟩
  refine (((outcome_depends_on_mentions _).2 hmentions fresh rfl).2.2 _ _ _ hfirst).2 ⟨?_, ?_⟩
  · decide +kernel
  · decide +kernel

end Session

end Reckoner
