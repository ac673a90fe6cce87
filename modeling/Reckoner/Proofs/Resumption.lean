/-
  Runs that are cut: a run may be left at the end of a line and taken up again.

  A run takes its lines one after the other, and all it carries from one to the next is the
  session.  So a run over a stream that is cut behind a line is a run over the front and then, in
  the session which that leaves, a run over the rest.

  1. **Passing (`Passes`)** — lines that do not end a run are passed: they add to the two outputs
     and change the session.  What follows them follows in that session (`runLines_append`).

  2. **Stopping (`Stops`)** — behind a line that ends the run nothing is looked at
     (`runLines_append_of_stops`).  Lines that are text either stop a run or are passed.

  3. **Lines that are no text** — such a line is met in the rest of a stream cut just before it;
     nothing there has been calculated or written but the prompt (`runLines_of_not_text`).
-/
import Reckoner.Proofs.Runs
import Reckoner.Proofs.Streams

namespace Reckoner.Interactive

/-- What a run leaves behind if something was written before it. -/
def Run.following (further : Run) (out err : String) : Run :=
  { further with out := out ++ further.out, err := err ++ further.err }

/-! ## Lines that are passed -/

/-- A run passes some lines: what they add to the output and to the error output, and the session
    behind them. -/
inductive Passes : Session → List (List UInt8) → String → String → Session → Prop
  /-- No line adds nothing. -/
  | nil (session : Session) : Passes session [] "" "" session
  /-- A line that does not end the run has its part, and the lines behind it have theirs. -/
  | cons {session after : Session} {bytes : List UInt8} {lines : List (List UInt8)}
      {line out err : String} (text : Console.decode? bytes = some line)
      (goesOn : (respond session line).ending = none)
      (rest : Passes (respond session line).session lines out err after) :
      Passes session (bytes :: lines) (Notice.prompt ++ (respond session line).out ++ out)
        ((respond session line).err ++ err) after

section
variable {session after : Session} {lines : List (List UInt8)} {out err : String}

/-- **The rest of a run is a run** in the session that the lines before it leave. -/
theorem runLines_append (h : Passes session lines out err after) (more : List (List UInt8)) :
    runLines session (lines ++ more) = (runLines after more).following out err := by
  induction h with
  | nil session => simp [Run.following]
  | cons text goesOn _ ih =>
    rw [List.cons_append, runLines_of_text text]
    simp only [goesOn, ih, Run.following, String.append_assoc]

/-- Behind lines that are passed, a run stands at a prompt. -/
theorem runLines_of_passes (h : Passes session lines out err after) :
    runLines session lines = ⟨.status 0, out ++ Notice.prompt, err, after⟩ := by
  have hrun := runLines_append h []
  rw [List.append_nil] at hrun
  rw [hrun, runLines, Run.following, String.append_empty]

end

/-! ## Lines that stop a run -/

/-- Some line of a run ends it. -/
def Stops (session : Session) (texts : List String) : Prop :=
  ∃ before line behind, texts = before ++ line :: behind ∧ endsRun session before line = true

theorem not_stops_nil (session : Session) : ¬ Stops session [] := by
  rintro ⟨before, line, behind, h, -⟩
  simp at h

/-- Either the first line ends the run, or some line does behind it. -/
theorem stops_cons_iff {session : Session} {line : String} {texts : List String} :
    Stops session (line :: texts) ↔
      endsRun session [] line = true ∨ Stops (behind session line) texts := by
  constructor
  · rintro ⟨before, next, rest, h, hend⟩
    cases before with
    | nil =>
      obtain ⟨rfl, rfl⟩ := List.cons.inj h
      exact .inl hend
    | cons first before =>
      obtain ⟨rfl, rfl⟩ := List.cons.inj h
      rw [endsRun_cons] at hend
      exact .inr ⟨before, next, rest, rfl, hend⟩
  · rintro (hend | ⟨before, next, rest, rfl, hend⟩)
    · exact ⟨[], line, texts, rfl, hend⟩
    · rw [← endsRun_cons] at hend
      exact ⟨line :: before, next, rest, rfl, hend⟩

instance decidableStops (session : Session) :
    (texts : List String) → Decidable (Stops session texts)
  | [] => .isFalse (not_stops_nil session)
  | line :: texts =>
    have := decidableStops (behind session line) texts
    decidable_of_iff _ stops_cons_iff.symm

/-- A line lets a run go on unless it is one that ends it. -/
theorem respond_ending_eq_none_iff {session : Session} {line : String} :
    (respond session line).ending = none ↔ endsRun session [] line = false := by
  rw [respond_eq]
  cases endsRun session [] line <;> simp

section
variable {session : Session} {lines : List (List UInt8)} {texts : List String}

/-- Lines that do not stop a run are passed. -/
theorem exists_passes (htexts : lines.map Console.decode? = texts.map some)
    (h : ¬ Stops session texts) : ∃ out err after, Passes session lines out err after := by
  induction lines generalizing session texts with
  | nil => exact ⟨"", "", session, .nil session⟩
  | cons bytes lines ih =>
    obtain ⟨line, rest, rfl, hline, hrest⟩ := List.map_eq_cons_iff.1 htexts.symm
    rw [stops_cons_iff, not_or, Bool.not_eq_true] at h
    obtain ⟨hgo, hnext⟩ := h
    have hbehind : (respond session line).session = behind session line := by rw [respond_eq]
    rw [← hbehind] at hnext
    obtain ⟨out, err, after, hpasses⟩ := ih hrest.symm hnext
    exact ⟨_, _, after, .cons hline.symm (respond_ending_eq_none_iff.2 hgo) hpasses⟩

/-- **Behind the end of a run nothing is looked at.** -/
theorem runLines_append_of_stops (htexts : lines.map Console.decode? = texts.map some)
    (h : Stops session texts) (more : List (List UInt8)) :
    runLines session (lines ++ more) = runLines session lines := by
  induction lines generalizing session texts with
  | nil =>
    obtain rfl : texts = [] := List.map_eq_nil_iff.1 htexts.symm
    exact (not_stops_nil session h).elim
  | cons bytes lines ih =>
    obtain ⟨line, rest, rfl, hline, hrest⟩ := List.map_eq_cons_iff.1 htexts.symm
    rw [List.cons_append, runLines_of_text hline.symm, runLines_of_text hline.symm]
    -- either the run ends here, or the line that ends it is further on
    rcases hending : (respond session line).ending with - | status
    · have hgo := respond_ending_eq_none_iff.1 hending
      have hnext : Stops (respond session line).session rest := by
        rw [respond_eq]
        exact (stops_cons_iff.1 h).resolve_left (by simp [hgo])
      simp only [ih hrest.symm hnext]
    · rfl

end

/-! ## Streams that are cut -/

section
variable {session after : Session} {first : List UInt8} {texts : List String} {out err : String}

theorem run_append_of_stops (hcut : Console.Complete first)
    (htexts : (Console.lines first).map Console.decode? = texts.map some)
    (h : Stops session texts) (rest : List UInt8) :
    run session (first ++ rest) = run session first := by
  rw [run, run, Console.lines_append hcut, runLines_append_of_stops htexts h]

theorem run_append_of_passes (hcut : Console.Complete first)
    (h : Passes session (Console.lines first) out err after) (rest : List UInt8) :
    run session (first ++ rest) =
      (runLines after (Console.lines rest)).following (banner ++ out) err := by
  rw [run, Console.lines_append hcut, runLines_append h]
  simp only [Run.following, String.append_assoc]

theorem run_of_passes (h : Passes session (Console.lines first) out err after) :
    run session first = ⟨.status 0, banner ++ out ++ Notice.prompt, err, after⟩ := by
  rw [run, runLines_of_passes h, String.append_assoc]

end

/-- **A run may be cut at the end of any line.**  If a line before the cut ends the run, what is
    behind the cut does not matter.  If none does, the run is the one before the cut without its
    last prompt, and then the one behind the cut without its banner, in the session that the former
    leaves; and it ends as the latter does.  If a line behind the cut is no text, then the run ends
    with the first such line, and with what the lines before that one wrote and calculated, unless
    one of them ends it; in that case the line is not noticed. -/
theorem run_cut_at_line_end (session : Session) (first : List UInt8) (texts : List String)
    (rest : List UInt8) (hcut : Console.Complete first)
    (htexts : (Console.lines first).map Console.decode? = texts.map some) :
    (Stops session texts → run session (first ++ rest) = run session first) ∧
    (¬ Stops session texts → ∃ shown further,
      (run session first).out = shown ++ Notice.prompt ∧
        (run (run session first).session rest).out = banner ++ further ∧
        run session (first ++ rest) =
          { ending := (run (run session first).session rest).ending
            out := shown ++ further
            err := (run session first).err ++ (run (run session first).session rest).err
            session := (run (run session first).session rest).session }) ∧
    ((∃ line ∈ Console.lines rest, Console.decode? line = none) →
      ∃ front good, Console.TextFront rest front good) ∧
    (∀ front good, Console.TextFront rest front good →
      (Stops session (texts ++ good) →
        run session (first ++ rest) = run session (first ++ front)) ∧
      (¬ Stops session (texts ++ good) →
        run session (first ++ rest) =
          { run session (first ++ front) with ending := .invalidText })) := by
  refine ⟨fun h => run_append_of_stops hcut htexts h rest, fun h => ?_, Console.exists_textFront,
    fun front good hfront => ?_⟩
  · obtain ⟨out, err, after, hpasses⟩ := exists_passes htexts h
    rw [run_append_of_passes hcut hpasses, run_of_passes hpasses]
    exact ⟨banner ++ out, (runLines after (Console.lines rest)).out, rfl, rfl, rfl⟩
  · obtain ⟨hcomplete, hgood, behind, bad, more, rfl, hbehind, hbad⟩ := hfront
    have hboth : Console.Complete (first ++ front) := hcut.append hcomplete
    have hlines : (Console.lines (first ++ front)).map Console.decode? =
        (texts ++ good).map some := by
      rw [Console.lines_append hcut, List.map_append, List.map_append, htexts, hgood]
    rw [← List.append_assoc]
    refine ⟨fun h => run_append_of_stops hboth hlines h behind, fun h => ?_⟩
    obtain ⟨out, err, after, hpasses⟩ := exists_passes hlines h
    rw [run_append_of_passes hboth hpasses, run_of_passes hpasses, hbehind,
      runLines_of_not_text hbad, Run.following, String.append_empty]

/-- The first line behind the cut needs the answer of the line before it, and the second is no
    text. -/
theorem run_cut_before_bad_line :
    Console.Complete "2 * 3\r\n".toUTF8.data.toList ∧
      (Console.lines "2 * 3\r\n".toUTF8.data.toList).map Console.decode? =
        ["2 * 3"].map some ∧
      Console.TextFront ("ans + 1\n".toUTF8.data.toList ++ [0xFF]) "ans + 1\n".toUTF8.data.toList
        ["ans + 1"] ∧
      ¬ Stops .fresh ["2 * 3", "ans + 1"] ∧
      run .fresh ("2 * 3\r\n".toUTF8.data.toList ++ ("ans + 1\n".toUTF8.data.toList ++ [0xFF])) =
        { ending := .invalidText
          out := banner ++ "> 6\n> 7\n> "
          err := ""
          session := ⟨some 7⟩ } := by
  have hcut : Console.Complete "2 * 3\r\n".toUTF8.data.toList := .inr (by decide +kernel)
  have htexts : (Console.lines "2 * 3\r\n".toUTF8.data.toList).map Console.decode? =
      ["2 * 3"].map some := by decide +kernel
  have hfront : Console.TextFront ("ans + 1\n".toUTF8.data.toList ++ [0xFF])
      "ans + 1\n".toUTF8.data.toList ["ans + 1"] :=
    ⟨.inr (by decide +kernel), by decide +kernel, [0xFF], [0xFF], [], rfl, by decide +kernel,
      by decide +kernel⟩
  have hgo : ¬ Stops .fresh ["2 * 3", "ans + 1"] := by decide +kernel
  refine ⟨hcut, htexts, hfront, hgo, ?_⟩
  rw [((run_cut_at_line_end .fresh _ ["2 * 3"] _ hcut htexts).2.2.2 _ _ hfront).2 hgo]
  decide +kernel

end Reckoner.Interactive
