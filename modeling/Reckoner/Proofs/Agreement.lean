/-
  Agreement: an expression typed in a run, and the same expression on its own.

  A run keeps one session for all its lines; an expression on its own has a fresh one.  Both
  evaluate in the same way, so an expression that does not mention the last answer is answered in
  the same words by either, wherever in a run it stands.

  1. **One line (`respond_eq_of_not_mentions`)** — what the line writes is what the expression on
     its own writes, and the run ends on it with the fatal status exactly if the expression on its
     own does.

  2. **Failures (`runOnce_status_of_failure`)** — an expression with a failure that does not end the
     run has one on its own as well, if only because it mentions an answer that is not there.

  3. **Runs (`run_at_line`)** — the lines before this one are passed, so its part in the run is what
     it brings about in the session that they leave.
-/
import Reckoner.Proofs.Mentions
import Reckoner.Proofs.Resumption

namespace Reckoner

theorem Failure.status_of_isFatal {failure : Failure} (h : failure.isFatal = true) :
    failure.status = 69 := if_pos h

theorem Failure.status_of_not_isFatal {failure : Failure} (h : failure.isFatal = false) :
    failure.status = 1 := if_neg (by simp [h])

/-- Where there is no answer, a mention makes a failure that is not the fatal one. -/
theorem runOnce_status_of_mentions {expression : String} (h : Line.Mentions expression.toList) :
    (runOnce expression).status = 1 := by
  have hread : ∃ cause, Line.readChars none expression.toList = .error cause := by
    cases hchars : Line.readChars none expression.toList with
    | error cause => exact ⟨cause, rfl⟩
    | ok tokens => exact (Line.readChars_ne_ok_of_mentions h tokens hchars).elim
  obtain ⟨cause, hread⟩ := hread
  have hanswer : calculate expression = .error (.line cause) := by
    rw [calculate, Session.answer, Line.read, Session.fresh, hread]
  rw [runOnce, hanswer]
  show (Failure.line cause).status = 1
  exact Failure.status_of_not_isFatal rfl

namespace Interactive

section
variable {session here : Session} {line : String}

/-! ## One line -/

theorem respond_of_isCalculation (h : isCalculation line = true) :
    respond session line = calculate session (Text.trim line) := by
  rw [respond]
  cases hparse : Command.parse line with
  | exit | help | licence | blank => simp [isCalculation, hparse] at h
  | calculate expression => rw [← trim_of_parse hparse, obey]

/-- **A line without a mention is answered as the expression on its own.** -/
theorem respond_eq_of_not_mentions (h : isCalculation line = true)
    (hnone : ¬ Line.Mentions (Text.trim line).toList) :
    respond session line =
      { out := (runOnce (Text.trim line)).out
        err := (runOnce (Text.trim line)).err
        session := session.after (Reckoner.calculate (Text.trim line))
        ending := if (runOnce (Text.trim line)).status = 69 then some 69 else none } := by
  have hanswer : session.answer (Text.trim line) = Reckoner.calculate (Text.trim line) :=
    Session.answer_eq_of_not_mentions hnone session .fresh
  rw [respond_of_isCalculation h, calculate, Session.evaluateLine, hanswer, runOnce]
  cases Reckoner.calculate (Text.trim line) with
  | ok x => rfl
  | error failure =>
    cases hfatal : failure.isFatal with
    | true => simp [hfatal, Failure.status_of_isFatal hfatal]
    | false => simp [hfatal, Failure.status_of_not_isFatal hfatal]

/-- A failure that does not end a run leaves the session as it was. -/
theorem respond_of_failure {failure : Failure} (h : isCalculation line = true)
    (hfailure : session.answer (Text.trim line) = .error failure) (hgo : failure.isFatal = false) :
    respond session line = ⟨"", failure.report, session, none⟩ := by
  rw [respond_of_isCalculation h, calculate, Session.evaluateLine, hfailure]
  simp [hgo, Session.after]

/-- An expression that fails in a run without ending it fails with the usual status on its own. -/
theorem runOnce_status_of_failure {expression : String} {failure : Failure}
    (hfailure : session.answer expression = .error failure) (hgo : failure.isFatal = false) :
    (runOnce expression).status = 1 := by
  -- with a mention the two failures differ: in the run there may be an answer
  by_cases hmentions : Line.Mentions expression.toList
  · exact runOnce_status_of_mentions hmentions
  · have hanswer : Reckoner.calculate expression = .error failure := by
      rw [← hfailure]
      exact Session.answer_eq_of_not_mentions hmentions .fresh session
    rw [runOnce, hanswer]
    exact Failure.status_of_not_isFatal hgo

/-! ## One line of a run -/

/-- **The part of a line in a run** is what it brings about in the session that the lines before it
    leave. -/
theorem run_at_line {input bytes : List UInt8} {before behind : List (List UInt8)}
    {out err : String} (hinput : Console.lines input = before ++ bytes :: behind)
    (hpasses : Passes session before out err here) (htext : Console.decode? bytes = some line) :
    run session input =
      match (respond here line).ending with
      | some status =>
        { ending := .status status
          out := banner ++ out ++ Notice.prompt ++ (respond here line).out
          err := err ++ (respond here line).err
          session := (respond here line).session }
      | none =>
        (runLines (respond here line).session behind).following
          (banner ++ out ++ Notice.prompt ++ (respond here line).out)
          (err ++ (respond here line).err) := by
  rw [run, hinput, runLines_append hpasses, runLines_of_text htext]
  cases (respond here line).ending with
  | none => simp only [Run.following, String.append_assoc]
  | some status => simp only [Run.following, String.append_assoc]

/-- **The two ways to have an expression answered agree.**  A line of a run that is an expression
    without a mention of the last answer adds behind its prompt, and to the error output, what the
    expression writes on its own; and the run ends on it with status 69 exactly if the expression
    does so on its own.  With every other failure, a mention or not, the status on its own is 1 and
    the run goes on in the same session. -/
theorem run_answers_as_runOnce {input bytes : List UInt8} {before behind : List (List UInt8)}
    {out err : String} (hinput : Console.lines input = before ++ bytes :: behind)
    (hpasses : Passes session before out err here) (htext : Console.decode? bytes = some line)
    (hcalculation : isCalculation line = true) :
    (¬ Line.Mentions (Text.trim line).toList →
      ((respond here line).ending = some 69 ↔ (runOnce (Text.trim line)).status = 69) ∧
      ((runOnce (Text.trim line)).status = 69 →
        run session input =
          { ending := .status 69
            out := banner ++ out ++ Notice.prompt ++ (runOnce (Text.trim line)).out
            err := err ++ (runOnce (Text.trim line)).err
            session := here.after (Reckoner.calculate (Text.trim line)) }) ∧
      ((runOnce (Text.trim line)).status ≠ 69 →
        run session input =
          (runLines (here.after (Reckoner.calculate (Text.trim line))) behind).following
            (banner ++ out ++ Notice.prompt ++ (runOnce (Text.trim line)).out)
            (err ++ (runOnce (Text.trim line)).err))) ∧
    (∀ failure, here.answer (Text.trim line) = .error failure → failure.isFatal = false →
      (runOnce (Text.trim line)).status = 1 ∧
        run session input =
          (runLines here behind).following (banner ++ out ++ Notice.prompt)
            (err ++ failure.report)) := by
  have hrun := run_at_line hinput hpasses htext
  refine ⟨fun hnone => ?_, fun failure hfailure hgo => ?_⟩
  · rw [respond_eq_of_not_mentions hcalculation hnone] at hrun ⊢
    refine ⟨by simp, fun hfatal => ?_, fun hgo => ?_⟩
    · rw [hrun, if_pos hfatal]
    · rw [hrun, if_neg hgo]
  · refine ⟨runOnce_status_of_failure hfailure hgo, ?_⟩
    rw [hrun, respond_of_failure hcalculation hfailure hgo, String.append_empty]

end

/-- The line in the middle mentions no answer; its neighbours do, and have the one from before. -/
theorem run_answers_one_over_zero :
    Console.lines "ans + 1\n 1 / 0 \r\nans".toUTF8.data.toList =
        ["ans + 1".toUTF8.data.toList] ++ " 1 / 0 ".toUTF8.data.toList ::
          ["ans".toUTF8.data.toList] ∧
      Passes ⟨some 4⟩ ["ans + 1".toUTF8.data.toList] "> 5\n" "" ⟨some 5⟩ ∧
      isCalculation " 1 / 0 " = true ∧
      ¬ Line.Mentions (Text.trim " 1 / 0 ").toList ∧
      run ⟨some 4⟩ "ans + 1\n 1 / 0 \r\nans".toUTF8.data.toList =
        { ending := .status 0
          out := banner ++ "> 5\n> > 5\n> "
          err := (runOnce "1 / 0").err
          session := ⟨some 5⟩ } := by
  have hlines : Console.lines "ans + 1\n 1 / 0 \r\nans".toUTF8.data.toList =
      ["ans + 1".toUTF8.data.toList] ++ " 1 / 0 ".toUTF8.data.toList ::
        ["ans".toUTF8.data.toList] := by decide +kernel
  have hpasses : Passes ⟨some 4⟩ ["ans + 1".toUTF8.data.toList] "> 5\n" "" ⟨some 5⟩ := by
    have htext : Console.decode? "ans + 1".toUTF8.data.toList = some "ans + 1" := by decide +kernel
    have hgo : (respond ⟨some 4⟩ "ans + 1").ending = none := by decide +kernel
    have hout : (respond ⟨some 4⟩ "ans + 1").out = "5\n" := by decide +kernel
    have herr : (respond ⟨some 4⟩ "ans + 1").err = "" := by decide +kernel
    have hsession : (respond ⟨some 4⟩ "ans + 1").session = ⟨some 5⟩ := by decide +kernel
    have hpassed := Passes.cons htext hgo (.nil _)
    rw [hout, herr, hsession] at hpassed
    exact hpassed
  have htext : Console.decode? " 1 / 0 ".toUTF8.data.toList = some " 1 / 0 " := by decide +kernel
  have hcalculation : isCalculation " 1 / 0 " = true := by decide +kernel
  have hnone : ¬ Line.Mentions (Text.trim " 1 / 0 ").toList := by decide +kernel
  have hstatus : (runOnce (Text.trim " 1 / 0 ")).status ≠ 69 := by decide +kernel
  refine ⟨hlines, hpasses, hcalculation, hnone, ?_⟩
  rw [((run_answers_as_runOnce hlines hpasses htext hcalculation).1 hnone).2.2 hstatus]
  decide +kernel

end Interactive

end Reckoner
