/-
  Runs: an interactive run is a session with a prompt before each line.

  What a run leaves behind depends on the lines it looks at and on nothing else, and each part of
  it can be read off them: of all lines only the expressions count for the session, each line has
  a text of its own in the output, and the failures are reported in their order.

  1. **The lines (`Consumed`)** — a run looks at the lines up to the first that ends it.

  2. **One line (`respond_eq`)** — what a line brings about is said by the session before it.

  3. **All lines (`runLines_eq`)** — by induction on the lines that are left.  What is said of a
     line in view of the lines before it is the same as what is said of it in the session that
     the first of these leaves, in view of the others (`outcome_cons`); so each step may put the
     line it takes into the session.
-/
import Reckoner.Console.Interactive
import Reckoner.Proofs.History

namespace Reckoner

/-- What is reported of a step: its failure, if it is one. -/
def Step.report (step : Step) : String :=
  match step.outcome with
  | .ok _ => ""
  | .error failure => failure.report

namespace Interactive

/-! ## What the lines of a run ask for -/

/-- Whether a line asks for a calculation. -/
def isCalculation (line : String) : Bool :=
  match Command.parse line with
  | .calculate _ => true
  | _ => false

/-- The expressions among some lines, without the blank characters around them. -/
def expressions (lines : List String) : List String :=
  (lines.filter isCalculation).map Text.trim

section
variable (session : Session) (before : List String) (line : String)

/-- What comes of an expression behind other lines of a run. -/
def outcome : Except Failure Float :=
  ((session.afterLines (expressions before)).evaluateLine (Text.trim line)).1

/-- Whether a line is a calculation with the fatal failure. -/
def failsFatally : Bool :=
  isCalculation line &&
    match outcome session before line with
    | .ok _ => false
    | .error failure => failure = .reduction (.domain .zeroOverZero)

/-- Whether a line ends the run. -/
def endsRun : Bool :=
  Command.parse line = .exit || failsFatally session before line

/-- What a line adds to the output. -/
def ownText : String :=
  match Command.parse line with
  | .exit | .blank => ""
  | .help => asLine Notice.help
  | .licence => asLine Notice.licence
  | .calculate _ =>
    match outcome session before line with
    | .ok x => asLine (Number.text x)
    | .error _ => ""

end

/-- Whether the last of some lines is such as `holds` says in view of the lines before it. -/
def lastIs (holds : List String → String → Bool) (lines : List String) : Bool :=
  match lines.getLast? with
  | none => false
  | some line => holds lines.dropLast line

/-- A prompt before each line, and behind it the text that `own` gives in view of the lines before
    the line. -/
def prompted (own : List String → String → String) (lines : List String) : String :=
  String.join (lines.mapIdx fun i line => Notice.prompt ++ own (lines.take i) line)

/-- The lines that a run looks at: those up to the first that ends it, or else all; and they are
    text. -/
structure Consumed (session : Session) (lines : List (List UInt8)) (texts : List String) :
    Prop where
  /-- They are the lines at the start. -/
  front : texts.map some <+: lines.map Console.decode?
  /-- Behind a line that ends the run there is none. -/
  first : ∀ before line behind, texts = before ++ line :: behind →
    endsRun session before line = true → behind = []
  /-- If no line ends the run, they are all lines. -/
  all : lastIs (endsRun session) texts = true ∨ texts.length = lines.length

/-! ## The first line taken into the session -/

/-- The session behind a line of a run. -/
def behind (session : Session) (line : String) : Session :=
  session.afterLines (expressions [line])

theorem expressions_cons (line : String) (lines : List String) :
    expressions (line :: lines) = expressions [line] ++ expressions lines := by
  rw [expressions, expressions, expressions, ← List.map_append, ← List.filter_append]
  rfl

theorem afterLines_cons (session : Session) (line : String) (lines : List String) :
    session.afterLines (expressions (line :: lines)) =
      (behind session line).afterLines (expressions lines) := by
  rw [expressions_cons]
  exact List.foldl_append

section
variable (session : Session) (line : String)

theorem outcome_cons (before : List String) :
    outcome session (line :: before) = outcome (behind session line) before := by
  funext next
  rw [outcome, outcome, afterLines_cons]

theorem failsFatally_cons (before : List String) :
    failsFatally session (line :: before) = failsFatally (behind session line) before := by
  funext next
  rw [failsFatally, failsFatally, outcome_cons]

theorem endsRun_cons (before : List String) :
    endsRun session (line :: before) = endsRun (behind session line) before := by
  funext next
  rw [endsRun, endsRun, failsFatally_cons]

theorem ownText_cons (before : List String) :
    ownText session (line :: before) = ownText (behind session line) before := by
  funext next
  rw [ownText, ownText, outcome_cons]

end

theorem lastIs_cons {holds : List String → String → Bool} {line : String}
    (h : holds [] line = false) (lines : List String) :
    lastIs holds (line :: lines) = lastIs (fun before => holds (line :: before)) lines := by
  cases lines with
  | nil => exact h
  | cons next rest => rfl

theorem prompted_cons (own : List String → String → String) (line : String) (lines : List String) :
    prompted own (line :: lines) =
      Notice.prompt ++ own [] line ++ prompted (fun before => own (line :: before)) lines := by
  rw [prompted, List.mapIdx_cons, String.join_cons]
  rfl

/-! ## The lines that a run looks at -/

section
variable {session : Session} {bytes : List UInt8} {lines : List (List UInt8)} {line : String}
  {texts : List String}

/-- A line that ends the run is the last one. -/
theorem consumed_of_endsRun (htext : Console.decode? bytes = some line)
    (hend : endsRun session [] line = true) : Consumed session (bytes :: lines) [line] where
  front := by
    rw [List.map_cons, List.map_cons, htext]
    exact List.cons_prefix_cons.2 ⟨rfl, List.nil_prefix⟩
  first := by
    intro before next behind h _
    cases before with
    | nil => exact (List.cons.inj h).2.symm
    | cons first rest => simp at h
  all := .inl hend

theorem texts_of_endsRun (h : Consumed session (bytes :: lines) (line :: texts))
    (hend : endsRun session [] line = true) : texts = [] :=
  h.first [] line texts rfl hend

/-- A line that does not end the run leaves the lines behind it to the session behind it. -/
theorem consumed_cons_iff (htext : Console.decode? bytes = some line)
    (hgo : endsRun session [] line = false) :
    Consumed session (bytes :: lines) (line :: texts) ↔
      Consumed (behind session line) lines texts := by
  have hlast : lastIs (endsRun session) (line :: texts) =
      lastIs (endsRun (behind session line)) texts := by
    rw [lastIs_cons hgo]
    exact congrArg (lastIs · texts) (funext (endsRun_cons session line))
  constructor
  · rintro ⟨hfront, hfirst, hall⟩
    refine ⟨?_, ?_, ?_⟩
    · rw [List.map_cons, List.map_cons, htext] at hfront
      exact (List.cons_prefix_cons.1 hfront).2
    · intro before next rest h hend
      rw [← endsRun_cons] at hend
      exact hfirst (line :: before) next rest (congrArg (line :: ·) h) hend
    · rw [hlast] at hall
      exact hall.imp id Nat.succ.inj
  · rintro ⟨hfront, hfirst, hall⟩
    refine ⟨?_, ?_, ?_⟩
    · rw [List.map_cons, List.map_cons, htext]
      exact List.cons_prefix_cons.2 ⟨rfl, hfront⟩
    · intro before next rest h hend
      cases before with
      | nil =>
        obtain ⟨rfl, rfl⟩ := List.cons.inj h
        rw [hgo] at hend
        cases hend
      | cons first before =>
        obtain ⟨rfl, hrest⟩ := List.cons.inj h
        rw [endsRun_cons] at hend
        exact hfirst before next rest hrest hend
    · rw [hlast]
      exact hall.imp id (congrArg Nat.succ)

/-- Lines that a run looks at begin with the first one. -/
theorem exists_cons_of_consumed (h : Consumed session (bytes :: lines) texts) :
    ∃ line rest, texts = line :: rest ∧ Console.decode? bytes = some line := by
  cases texts with
  | nil => exact absurd h.all (by simp [lastIs])
  | cons line rest =>
    have hfront := h.front
    rw [List.map_cons, List.map_cons, List.cons_prefix_cons] at hfront
    exact ⟨line, rest, rfl, hfront.1.symm⟩

end

/-! ## One line -/

/-- An expression is its line without the blank characters around it. -/
theorem trim_of_parse {line expression : String} (h : Command.parse line = .calculate expression) :
    expression = Text.trim line := by
  obtain ⟨word, hpads, htrimmed, hword⟩ := Command.parse_eq_iff.1 h
  cases hword
  exact (Text.trim_eq_iff.2 ⟨hpads, htrimmed⟩).symm

/-- An expression at the start of a run is evaluated in the session that the run starts with. -/
theorem outcome_nil {session : Session} {line expression : String}
    (h : Command.parse line = .calculate expression) :
    outcome session [] line = session.answer expression := by
  have hbefore : session.afterLines (expressions []) = session := rfl
  rw [trim_of_parse h, outcome, hbefore, Session.evaluateLine]

/-- **What a line brings about** is its own text, its own report, and the session behind it. -/
theorem respond_eq (session : Session) (line : String) :
    respond session line =
      { out := ownText session [] line
        err := String.join ((session.steps (expressions [line])).map Step.report)
        session := behind session line
        ending := if endsRun session [] line then
            some (if failsFatally session [] line then 69 else 0)
          else none } := by
  cases hparse : Command.parse line with
  | exit | help | licence | blank =>
    have hexpressions : expressions [line] = [] := by simp [expressions, isCalculation, hparse]
    simp [respond, obey, showing, hparse, hexpressions, ownText, behind, endsRun, failsFatally,
      isCalculation, Session.steps, Session.afterLines]
  | calculate expression =>
    have hexpressions : expressions [line] = [expression] := by
      rw [trim_of_parse hparse]
      simp [expressions, isCalculation, hparse]
    have hafter : behind session line = session.after (session.answer expression) := by
      rw [behind, hexpressions]
      rfl
    rw [respond, hparse, obey, calculate, hafter, hexpressions, Session.steps, Session.steps,
      Session.step, List.map_singleton, Step.report, Session.evaluateLine, ownText, endsRun,
      failsFatally, hparse, outcome_nil hparse]
    cases session.answer expression with
    | ok x => simp [showing, isCalculation, hparse]
    | error failure =>
      by_cases hfatal : failure = .reduction (.domain .zeroOverZero)
      · simp [isCalculation, hparse, Failure.isFatal, Failure.status, hfatal]
      · simp [isCalculation, hparse, Failure.isFatal, hfatal]

/-! ## All lines -/

/-- What a run over some lines leaves behind, said without the loop. -/
def recorded (session : Session) (texts : List String) : Run where
  ending := .status (if lastIs (failsFatally session) texts then 69 else 0)
  out := prompted (ownText session) texts ++
    if lastIs (endsRun session) texts then "" else Notice.prompt
  err := String.join ((session.steps (expressions texts)).map Step.report)
  session := session.afterLines (expressions texts)

/-- A line that does not end the run adds its part to what the lines behind it leave. -/
theorem recorded_cons {session : Session} {line : String} (hgo : endsRun session [] line = false)
    (texts : List String) :
    recorded session (line :: texts) =
      { ending := (recorded (behind session line) texts).ending
        out := Notice.prompt ++ ownText session [] line ++
          (recorded (behind session line) texts).out
        err := String.join ((session.steps (expressions [line])).map Step.report) ++
          (recorded (behind session line) texts).err
        session := (recorded (behind session line) texts).session } := by
  have hfatal : failsFatally session [] line = false := (Bool.or_eq_false_iff.1 hgo).2
  have hends : (fun before => endsRun session (line :: before)) = endsRun (behind session line) :=
    funext (endsRun_cons session line)
  have hfails : (fun before => failsFatally session (line :: before)) =
      failsFatally (behind session line) := funext (failsFatally_cons session line)
  have hown : (fun before => ownText session (line :: before)) = ownText (behind session line) :=
    funext (ownText_cons session line)
  rw [recorded, recorded, lastIs_cons hgo, lastIs_cons hfatal, prompted_cons, hends, hfails, hown,
    afterLines_cons, expressions_cons, Session.steps_append, List.map_append, String.join_append,
    String.append_assoc, String.append_assoc]
  rfl

/-- **The run over the lines that it looks at.** -/
theorem runLines_eq {session : Session} {lines : List (List UInt8)} {texts : List String}
    (h : Consumed session lines texts) : runLines session lines = recorded session texts := by
  induction lines generalizing session texts with
  | nil =>
    have hfront := h.front
    have htexts : texts = [] := by simpa using hfront
    rw [htexts]
    rfl
  | cons bytes lines ih =>
    obtain ⟨line, rest, rfl, htext⟩ := exists_cons_of_consumed h
    rw [runLines_of_text htext]
    simp only [respond_eq]
    cases hend : endsRun session [] line with
    | true =>
      rw [texts_of_endsRun h hend]
      simp [recorded, prompted, lastIs, hend, behind]
    | false =>
      rw [recorded_cons hend, ← ih ((consumed_cons_iff htext hend).1 h)]
      rfl

/-- Unless a run ends with a line that is no text, there are lines that it looks at. -/
theorem exists_consumed {session : Session} {lines : List (List UInt8)}
    (h : (runLines session lines).ending ≠ .invalidText) :
    ∃ texts, Consumed session lines texts := by
  induction lines generalizing session with
  | nil => exact ⟨[], ⟨List.prefix_rfl, by simp, .inr rfl⟩⟩
  | cons bytes lines ih =>
    cases htext : Console.decode? bytes with
    | none => exact absurd (congrArg Run.ending (runLines_of_not_text htext lines)) h
    | some line =>
      cases hend : endsRun session [] line with
      | true => exact ⟨[line], consumed_of_endsRun htext hend⟩
      | false =>
        rw [runLines_of_text htext] at h
        simp only [respond_eq, hend] at h
        obtain ⟨texts, htexts⟩ := ih h
        exact ⟨line :: texts, (consumed_cons_iff htext hend).2 htexts⟩

/-- **A run simulates a session.**  Unless it ends with a line that is no text, there are lines
    that it looks at, and all that it leaves behind is said by them: the status, the output with a
    prompt and its own text for each line, the reports of the failures, and the session after
    the expressions alone.  A run over any other input with the same lines to look at is the
    same. -/
theorem run_simulates_session (session : Session) (input : List UInt8) :
    ((run session input).ending ≠ .invalidText →
      ∃ texts, Consumed session (Console.lines input) texts) ∧
    (∀ texts, Consumed session (Console.lines input) texts →
      run session input =
        { ending := .status (if lastIs (failsFatally session) texts then 69 else 0)
          out := Notice.licence ++ "\n" ++ "\n" ++ prompted (ownText session) texts ++
            if lastIs (endsRun session) texts then "" else Notice.prompt
          err := String.join ((session.steps (expressions texts)).map Step.report)
          session := session.afterLines (expressions texts) }) ∧
    (∀ texts other, Consumed session (Console.lines input) texts →
      Consumed session (Console.lines other) texts → run session other = run session input) := by
  refine ⟨exists_consumed, ?_, ?_⟩
  · intro texts h
    rw [run, runLines_eq h]
    simp only [recorded, banner, asLine, String.append_assoc]
  · intro texts other h hother
    rw [run, run, runLines_eq h, runLines_eq hother]

/-- A run with a command, a blank line, an expression between blank characters and both kinds of
    failure; the line behind the fatal one is no text, which does not matter. -/
theorem run_to_zero_over_zero :
    Consumed .fresh
        (Console.lines ("help\n\n 2 * 3 \t\n1 / 0\n0 / 0\n".toUTF8.data.toList ++ [0xFF]))
        ["help", "", " 2 * 3 \t", "1 / 0", "0 / 0"] ∧
      run .fresh ("help\n\n 2 * 3 \t\n1 / 0\n0 / 0\n".toUTF8.data.toList ++ [0xFF]) =
        { ending := .status 69
          out := Notice.licence ++ "\n\n" ++ "> " ++ Notice.help ++ "\n> > 6\n> > "
          err := asLine (Failure.reduction (.domain (.divisionByZero 1))).message ++
            asLine (Failure.reduction (.domain .zeroOverZero)).message ++ asLine Notice.farewell
          session := ⟨some 6⟩ } := by
  have hlines :
      Console.lines ("help\n\n 2 * 3 \t\n1 / 0\n0 / 0\n".toUTF8.data.toList ++ [0xFF]) =
        ["help".toUTF8.data.toList, [], " 2 * 3 \t".toUTF8.data.toList,
          "1 / 0".toUTF8.data.toList, "0 / 0".toUTF8.data.toList, [0xFF]] := by decide +kernel
  have hconsumed : Consumed .fresh
      (Console.lines ("help\n\n 2 * 3 \t\n1 / 0\n0 / 0\n".toUTF8.data.toList ++ [0xFF]))
      ["help", "", " 2 * 3 \t", "1 / 0", "0 / 0"] := by
    rw [hlines]
    refine (consumed_cons_iff (by decide +kernel) (by decide +kernel)).2 ?_
    refine (consumed_cons_iff (by decide +kernel) (by decide +kernel)).2 ?_
    refine (consumed_cons_iff (by decide +kernel) (by decide +kernel)).2 ?_
    refine (consumed_cons_iff (by decide +kernel) (by decide +kernel)).2 ?_
    exact consumed_of_endsRun (by decide +kernel) (by decide +kernel)
  refine ⟨hconsumed, ?_⟩
  rw [(run_simulates_session .fresh _).2.1 _ hconsumed]
  decide +kernel

end Interactive

end Reckoner
