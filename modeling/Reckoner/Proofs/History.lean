/-
  Histories: lines evaluated one after the other, and what each has left behind.

  All that a line leaves to the next is its answer.  A line that fails, for whatever reason and at
  whatever stage, leaves nothing at all: not even a trace that it was there.

  1. **One line (`after_of_failed`)** — a line without an answer leaves the session as it was.

  2. **A whole history** — the last answer is the one of the latest line that had one
     (`lastAnswer_of_steps`), and a history from which failed lines have been deleted, any of
     them, goes on with the same outcomes and the same sessions (`steps_of_pruned`).  Both by
     induction on the lines, with the session of the moment as what changes from one to the next.
-/
import Reckoner.Session

namespace Reckoner

/-! ## Steps -/

/-- One line of a history. -/
structure Step where
  /-- The line. -/
  line : String
  /-- What came of it. -/
  outcome : Except Failure Float
  /-- The session after it. -/
  after : Session

/-- The answer of a step, if the line had one. -/
def Step.answer? (step : Step) : Option Float := step.outcome.toOption

namespace Session

/-- The step that a line is in a session. -/
def step (session : Session) (line : String) : Step :=
  ⟨line, (session.evaluateLine line).1, (session.evaluateLine line).2⟩

/-- The steps of lines that are evaluated one after the other. -/
def steps (session : Session) : List String → List Step
  | [] => []
  | line :: rest => session.step line :: (session.step line).after.steps rest

/-- The session after lines that are evaluated one after the other. -/
def afterLines (session : Session) (lines : List String) : Session :=
  lines.foldl (fun session line => (session.evaluateLine line).2) session

/-- The last answer after some steps: of those that have one, the latest; at first, the one before
    all steps. -/
def latestAnswer (session : Session) (steps : List Step) : Option Float :=
  (steps.filterMap Step.answer?).getLast? <|> session.lastAnswer

/-! ## One line -/

/-- A line without an answer leaves the session as it was. -/
theorem after_of_failed {session : Session} {line : String}
    (h : (session.step line).answer? = none) : (session.step line).after = session := by
  show session.after (session.answer line) = session
  have houtcome : (session.answer line).toOption = none := h
  cases hanswer : session.answer line with
  | ok x => rw [hanswer] at houtcome; cases houtcome
  | error failure => rfl

/-- A line with an answer leaves it as the last answer. -/
theorem lastAnswer_of_answered {session : Session} {line : String} {x : Float}
    (h : (session.step line).answer? = some x) :
    (session.step line).after.lastAnswer = some x := by
  show (session.after (session.answer line)).lastAnswer = some x
  have houtcome : (session.answer line).toOption = some x := h
  cases hanswer : session.answer line with
  | ok y => rw [hanswer] at houtcome; cases houtcome; rfl
  | error failure => rw [hanswer] at houtcome; cases houtcome

/-- What a line leaves behind is all that counts for the latest answer after further steps. -/
theorem latestAnswer_step (session : Session) (line : String) (further : List Step) :
    session.latestAnswer (session.step line :: further) =
      (session.step line).after.latestAnswer further := by
  cases hanswer : (session.step line).answer? with
  | none =>
    rw [latestAnswer, latestAnswer, List.filterMap_cons_none hanswer, after_of_failed hanswer]
  | some x =>
    rw [latestAnswer, latestAnswer, List.filterMap_cons_some hanswer,
      lastAnswer_of_answered hanswer]
    -- the answer of the line is the latest unless a further step has one
    cases further.filterMap Step.answer? with
    | nil => rfl
    | cons y ys => rfl

/-! ## A whole history -/

/-- The steps of further lines are those from where the lines before them have led. -/
theorem steps_append (session : Session) (lines lines' : List String) :
    session.steps (lines ++ lines') =
      session.steps lines ++ (session.afterLines lines).steps lines' := by
  induction lines generalizing session with
  | nil => rfl
  | cons line rest ih => exact congrArg (_ :: ·) (ih _)

/-- After each line, the last answer is the one of the latest line so far that had one. -/
theorem lastAnswer_of_steps {session : Session} {lines : List String} {before behind : List Step}
    {step : Step} (h : session.steps lines = before ++ step :: behind) :
    step.after.lastAnswer = session.latestAnswer (before ++ [step]) := by
  induction before generalizing session lines with
  | nil =>
    cases lines with
    | nil => cases h
    | cons line rest =>
      cases h
      exact (latestAnswer_step session line []).symm
  | cons first before ih =>
    cases lines with
    | nil => cases h
    | cons line rest =>
      obtain ⟨rfl, hrest⟩ := List.cons.inj h
      rw [List.cons_append, latestAnswer_step]
      exact ih hrest

end Session

/-- Some of the failed steps of a history are deleted, and no others. -/
inductive Pruned : List Step → List Step → Prop
  | nil : Pruned [] []
  | keep (step : Step) {steps kept : List Step} (h : Pruned steps kept) :
      Pruned (step :: steps) (step :: kept)
  | delete {step : Step} (hfailed : step.answer? = none) {steps kept : List Step}
      (h : Pruned steps kept) : Pruned (step :: steps) kept

namespace Session

/-- **The lines that are left have the same outcomes and leave the same sessions.** -/
theorem steps_of_pruned {session : Session} {lines : List String} {kept : List Step}
    (h : Pruned (session.steps lines) kept) : session.steps (kept.map Step.line) = kept := by
  induction lines generalizing session kept with
  | nil =>
    cases h
    rfl
  | cons line rest ih =>
    rw [steps] at h
    cases h with
    | keep _ h =>
      rw [List.map_cons, steps]
      congr 1
      exact ih h
    | delete hfailed h =>
      rw [after_of_failed hfailed] at h
      exact ih h

theorem afterLines_of_pruned {session : Session} {lines : List String} {kept : List Step}
    (h : Pruned (session.steps lines) kept) :
    session.afterLines (kept.map Step.line) = session.afterLines lines := by
  induction lines generalizing session kept with
  | nil =>
    cases h
    rfl
  | cons line rest ih =>
    rw [steps] at h
    cases h with
    | keep _ h => exact ih h
    | delete hfailed h =>
      have hrest : session.afterLines (line :: rest) = session.afterLines rest := by
        show (session.step line).after.afterLines rest = _
        rw [after_of_failed hfailed]
      rw [after_of_failed hfailed] at h
      rw [hrest]
      exact ih h

/-- **Failed lines can be deleted from any history.**  After each line, the last answer is the one
    of the latest line so far that had one; and whichever failed lines are deleted, each line that
    is left has the same outcome and leaves the same session as before, and so does the whole
    history. -/
theorem history_without_failures (session : Session) (lines : List String) :
    (∀ before step behind, session.steps lines = before ++ step :: behind →
      step.after.lastAnswer = session.latestAnswer (before ++ [step])) ∧
      (∀ kept, Pruned (session.steps lines) kept →
        session.steps (kept.map Step.line) = kept ∧
          session.afterLines (kept.map Step.line) = session.afterLines lines) := by
  refine ⟨?_, ?_⟩
  · intro before step behind h
    exact lastAnswer_of_steps h
  · intro kept h
    exact ⟨steps_of_pruned h, afterLines_of_pruned h⟩

/-- A division by zero between two lines is as if it had not been. -/
theorem history_without_division_by_zero :
    (fresh.step "1 / 0").answer? = none ∧
      Pruned (fresh.steps ["2 * 3", "1 / 0", "ans"])
        ((fresh.steps ["2 * 3", "1 / 0", "ans"]).eraseIdx 1) ∧
      (fresh.afterLines ["2 * 3", "1 / 0"]).lastAnswer =
        fresh.latestAnswer (fresh.steps ["2 * 3", "1 / 0"]) ∧
      fresh.steps ["2 * 3", "ans"] = (fresh.steps ["2 * 3", "1 / 0", "ans"]).eraseIdx 1 ∧
      fresh.afterLines ["2 * 3", "ans"] = fresh.afterLines ["2 * 3", "1 / 0", "ans"] ∧
      (fresh.afterLines ["2 * 3", "ans"]).lastAnswer = some 6 := by
  have history := history_without_failures fresh ["2 * 3", "1 / 0", "ans"]
  have hpruned : Pruned (fresh.steps ["2 * 3", "1 / 0", "ans"])
      ((fresh.steps ["2 * 3", "1 / 0", "ans"]).eraseIdx 1) :=
    .keep _ (.delete (by decide +kernel) (.keep _ .nil))
  obtain ⟨hsteps, hafter⟩ := history.2 _ hpruned
  refine ⟨by decide +kernel, hpruned, ?_, hsteps, hafter, by decide +kernel⟩
  exact history.1 [fresh.step "2 * 3"] _ _ rfl

end Session

end Reckoner
