/-
  A group and what stands around it.

  A group is evaluated as a row of its own.  This file says what the rest of the line can see of
  it: its outcome, and nothing else.

  1. **Frames** — the row around a group is what stands before it and what stands after it.  A group
     at any depth has a list of frames around it, the outermost first, and a frame may hold
     parentheses that are not grouped, so that the group stands inside them.

  2. **The same outcome (`Frame.evaluate_fill_congr`)** — two groups that resolve to the same are
     exchanged without a trace, because bracketing respects every relation that wrapping respects,
     and resolving to the same is one.

  3. **The first failure (`Frame.evaluate_fill_error`)** — the terms of a row that stand in no
     closed bracket (`Levels.standing`) fail, resolved from left to right, as the whole row will:
     reading further puts terms behind them, and a bracket that closes fails where its contents
     did.  So the group's failure is that of the row, unless something standing before it fails.

  Each is carried from one frame to all of them by induction on the frames.
-/
import Reckoner.Proofs.Grouping

namespace Reckoner

open Brackets (Mark Levels nest)

/-- The row around a group. -/
structure Frame where
  /-- What stands before the group. -/
  before : List Token
  /-- What stands after it. -/
  after : List Token

/-- The row with a group of these children in its place. -/
def Frame.fill (frame : Frame) (children : List Token) : List Token :=
  frame.before ++ .group children :: frame.after

/-- The row with the children in a group inside all frames; the outermost frame is the first. -/
def fillAll (frames : List Frame) (children : List Token) : List Token :=
  frames.foldr Frame.fill children

/-! ## Groups with the same outcome -/

/-- Terms that resolve to the same, one by one, are rows that resolve to the same. -/
theorem Term.resolveAll_congr {terms terms' : List Term}
    (h : List.Forall₂ (fun term term' => resolve term = resolve term') terms terms') :
    resolveAll terms = resolveAll terms' := by
  induction h with
  | nil => rfl
  | cons hterm _ ih => rw [resolveAll, resolveAll, hterm, ih]

/-- **A group is seen by its outcome alone**: with other children that evaluate to the same, the
    row around it evaluates to the same. -/
theorem Frame.evaluate_fill_congr (frame : Frame) {children children' : List Token}
    (h : Token.evaluate children = Token.evaluate children') :
    Token.evaluate (frame.fill children) = Token.evaluate (frame.fill children') := by
  let R : Term → Term → Prop := fun term term' => term.resolve = term'.resolve
  have hwrap : ∀ terms terms', List.Forall₂ R terms terms' → R (.group terms) (.group terms') := by
    intro terms terms' hterms
    show Term.resolve (.group terms) = Term.resolve (.group terms')
    rw [Term.resolve_group_terms, Term.resolve_group_terms, Term.evaluate, Term.evaluate,
      Term.resolveAll_congr hterms]
  have hgroup : R (.group (Term.ofTokens children)) (.group (Term.ofTokens children')) := by
    show Term.resolve _ = Term.resolve _
    rw [Term.resolve_group, Term.resolve_group, h]
  have hmarks : List.Forall₂ (Mark.Related R) (Term.marksOfTokens (frame.fill children))
      (Term.marksOfTokens (frame.fill children')) := by
    rw [fill, fill, Term.marksOfTokens_append, Term.marksOfTokens_append]
    have hself : ∀ row, List.Forall₂ (Mark.Related R) row row :=
      fun row => Brackets.related_self fun _ _ => rfl
    exact List.rel_append (hself _) (.cons (.item hgroup) (hself _))
  have hterms := Brackets.nest_related hwrap hmarks
  rw [Token.evaluate, Token.evaluate, Term.evaluate, Term.evaluate, Term.ofTokens, Term.ofTokens,
    Term.resolveAll_congr hterms]

/-! ## The first failure -/

namespace Brackets

variable {α : Type}

/-- What has been read and stands in no closed bracket, in the order of the row. -/
def Levels.standing (levels : Levels α) : List α :=
  (levels.innermost ++ levels.around.flatten).reverse

theorem Levels.standing_item (wrap : List α → α) (levels : Levels α) (a : α) :
    (levels.read wrap (.item a)).standing = levels.standing ++ [a] :=
  List.reverse_cons

theorem Levels.standing_opening (wrap : List α → α) (levels : Levels α) :
    (levels.read wrap .opening).standing = levels.standing := by
  obtain ⟨innermost, around⟩ := levels
  rfl

/-- What stands before the innermost bracket, and then that bracket. -/
theorem Levels.standing_cons (innermost outer : List α) (around : List (List α)) :
    standing ⟨innermost, outer :: around⟩ = standing ⟨outer, around⟩ ++ innermost.reverse := by
  simp only [standing, List.flatten_cons, List.reverse_append]

/-- Levels that are related stand for related rows. -/
theorem Levels.Related.standing {β : Type} {R : α → β → Prop} {levels : Levels α}
    {levels' : Levels β} (h : levels.Related R levels') :
    List.Forall₂ R levels.standing levels'.standing :=
  List.rel_reverse (List.rel_append h.innermost (List.rel_flatten h.around))

end Brackets

/-- A row fails where its front does. -/
theorem Term.resolveAll_error_append {terms : List Term} {e : ReductionError}
    (h : resolveAll terms = .error e) (behind : List Term) :
    resolveAll (terms ++ behind) = .error e := by
  rw [resolveAll_append, h]
  rfl

/-- A bracket that is closed fails where its contents did. -/
theorem Term.resolveAll_error_group {before children : List Term} {e : ReductionError}
    (h : resolveAll (before ++ children) = .error e) :
    resolveAll (before ++ [.group children]) = .error e := by
  rw [resolveAll_append] at h ⊢
  cases hbefore : resolveAll before with
  | error e' => rw [hbefore] at h; exact h
  | ok items =>
    rw [hbefore] at h
    cases hchildren : resolveAll children with
    | ok items' => rw [hchildren] at h; cases h
    | error e' =>
      rw [hchildren] at h
      rw [resolveAll, resolve, hchildren]
      exact h

/-- What has been read fails with `e` when it is resolved. -/
def Brackets.Levels.FailsWith (e : ReductionError) (levels : Levels Term) : Prop :=
  Term.resolveAll levels.standing = .error e

namespace Brackets.Levels.FailsWith

variable {e : ReductionError} {levels : Levels Term}

/-- Closing the innermost bracket keeps the failure. -/
theorem closing {innermost outer : List Term} {around : List (List Term)}
    (h : FailsWith e ⟨innermost, outer :: around⟩) :
    FailsWith e ⟨.group innermost.reverse :: outer, around⟩ := by
  rw [FailsWith, standing_cons] at h
  show Term.resolveAll (standing ((⟨outer, around⟩ : Levels Term).read .group
    (.item (.group innermost.reverse)))) = _
  rw [standing_item]
  exact Term.resolveAll_error_group h

/-- A failure stays whatever is read behind it. -/
theorem read (h : levels.FailsWith e) (mark : Mark Term) :
    (levels.read .group mark).FailsWith e := by
  cases mark with
  | item term =>
    rw [FailsWith, standing_item]
    exact Term.resolveAll_error_append h [term]
  | opening =>
    rw [FailsWith, standing_opening]
    exact h
  | closing =>
    obtain ⟨innermost, _ | ⟨outer, around⟩⟩ := levels
    · exact h
    · exact h.closing

theorem readRow (h : levels.FailsWith e) (row : List (Mark Term)) :
    (levels.readRow .group row).FailsWith e := by
  induction row generalizing levels with
  | nil => exact h
  | cons mark row ih => exact ih (h.read mark)

/-- It is the failure of the row when every bracket is closed. -/
theorem close (h : levels.FailsWith e) : Term.resolveAll (levels.close .group) = .error e := by
  obtain ⟨innermost, around⟩ := levels
  induction around generalizing innermost with
  | nil =>
    rw [FailsWith, standing, List.flatten_nil, List.append_nil] at h
    exact h
  | cons outer around ih => exact ih _ h.closing

end Brackets.Levels.FailsWith

/-- A token that fails by itself: a number that cannot be read, or a group that fails. -/
def Token.Fails : Token → Prop
  | .number text => Number.read? text = none
  | .group children => ∃ e, Token.evaluate children = .error e
  | .operator _ | .opening | .closing => False

/-- What stands before the group, at its own level and at every level around it in the row.
    Parentheses that are closed before it count as the group they write: after `( 4 ) ! - ( 2 *`
    it is the group of 4, the `!`, the `-`, the number 2 and the `*`. -/
def Frame.standing (frame : Frame) : List Token :=
  (Levels.readRow .group ⟨[], []⟩ (frame.before.map Token.mark)).standing

/-- Terms resolve if none of the tokens that write them fails. -/
theorem Token.exists_resolveAll {tokens : List Token} {terms : List Term}
    (h : List.Forall₂ Token.Denotes tokens terms) (hsound : ∀ token ∈ tokens, ¬ token.Fails) :
    ∃ items, Term.resolveAll terms = .ok items := by
  have hfails : Outcome.FailsOnly (fun _ => False) (Term.resolveAll terms) := by
    refine Token.failsOnly_resolveAll h ?_ ?_
    · exact fun text hmem hread => hsound _ hmem hread
    · exact fun children hmem e he => hsound _ hmem ⟨e, he⟩
  cases hresolve : Term.resolveAll terms with
  | ok items => exact ⟨items, rfl⟩
  | error e => exact (hfails e hresolve).elim

/-- **The failure of a group is the failure of the row**, whatever else stands there, if nothing
    that stands before the group fails. -/
theorem Frame.evaluate_fill_error (frame : Frame) {children : List Token} {e : ReductionError}
    (h : Token.evaluate children = .error e) (hsound : ∀ token ∈ frame.standing, ¬ token.Fails) :
    Token.evaluate (frame.fill children) = .error e := by
  have hempty : Levels.Related Token.Denotes ⟨[], []⟩ ⟨[], []⟩ := ⟨.nil, .nil⟩
  have hread := hempty.readRow Token.denotes_group (Term.related_marks frame.before)
  obtain ⟨items, hitems⟩ := Token.exists_resolveAll hread.standing hsound
  -- the group is the last term that has been read, and the first that fails
  have hgroup : Term.resolveAll [.group (Term.ofTokens children)] = .error e := by
    rw [Term.resolveAll, Term.resolve_group, h]
    rfl
  obtain ⟨levels, hlevels⟩ : ∃ levels, levels = Levels.readRow Term.group ⟨[], []⟩
    (Term.marksOfTokens frame.before) := ⟨_, rfl⟩
  rw [← hlevels] at hitems
  have hfails : (levels.read .group (.item (.group (Term.ofTokens children)))).FailsWith e := by
    rw [Levels.FailsWith, Levels.standing_item, Term.resolveAll_append, hitems, hgroup]
    rfl
  have hterms : Term.ofTokens (frame.fill children) =
      ((levels.read .group (.item (.group (Term.ofTokens children)))).readRow .group
        (Term.marksOfTokens frame.after)).close .group := by
    rw [fill, Term.ofTokens, Term.marksOfTokens_append, hlevels]
    exact congrArg (Levels.close Term.group) (Levels.readRow_append _ _ _)
  rw [Token.evaluate, Term.evaluate, hterms, (hfails.readRow _).close]
  rfl

/-! ## All frames -/

/-- **A group is evaluated independently of what stands around it.**  With other children that
    evaluate to the same, value or failure, the whole evaluates to the same; and if the children
    fail and nothing fails that stands before the group, in its own row or in one around it, then
    the whole fails as they do. -/
theorem evaluate_fillAll (frames : List Frame) :
    (∀ children children', Token.evaluate children = Token.evaluate children' →
      Token.evaluate (fillAll frames children) = Token.evaluate (fillAll frames children')) ∧
    (∀ children e, Token.evaluate children = .error e →
      (∀ frame ∈ frames, ∀ token ∈ frame.standing, ¬ token.Fails) →
      Token.evaluate (fillAll frames children) = .error e) := by
  induction frames with
  | nil => exact ⟨fun _ _ h => h, fun _ _ h _ => h⟩
  | cons frame frames ih =>
    obtain ⟨hsame, hfails⟩ := ih
    constructor
    · intro children children' h
      exact frame.evaluate_fill_congr (hsame children children' h)
    · intro children e h hsound
      have hinner := hfails children e h fun frame' hmem =>
        hsound frame' (List.mem_cons_of_mem _ hmem)
      exact frame.evaluate_fill_error hinner (hsound frame List.mem_cons_self)

/-- The division by zero inside `( 4 ) ! + ( 2 * ( 3 - ( 1 / 0 ) * y ) ) ! x` is what the whole
    fails with: the texts that are no numbers stand behind it.  Written as `( 1 ) / 0` it is the
    same. -/
theorem evaluate_fillAll_division :
    let frames : List Frame :=
      [⟨[.opening, .number "4", .closing, .operator .factorial, .operator (.binary .add),
          .opening, .number "2", .operator (.binary .multiply)],
        [.closing, .operator .factorial, .number "x"]⟩,
      ⟨[.number "3", .operator (.binary .subtract)],
        [.operator (.binary .multiply), .number "y"]⟩]
    let children : List Token := [.number "1", .operator (.binary .divide), .number "0"]
    let children' : List Token :=
      [.opening, .number "1", .closing, .operator (.binary .divide), .number "0"]
    (Token.evaluate children = Token.evaluate children' ∧
        Token.evaluate (fillAll frames children) = Token.evaluate (fillAll frames children')) ∧
      Token.evaluate children = .error (.domain (.divisionByZero 1)) ∧
      (∀ frame ∈ frames, ∀ token ∈ frame.standing, ¬ token.Fails) ∧
      Token.evaluate (fillAll frames children) = .error (.domain (.divisionByZero 1)) := by
  intro frames children children'
  have hdivision : Token.evaluate children = .error (.domain (.divisionByZero 1)) := by
    decide +kernel
  have hdivision' : Token.evaluate children' = .error (.domain (.divisionByZero 1)) := by
    decide +kernel
  have hsame : Token.evaluate children = Token.evaluate children' :=
    hdivision.trans hdivision'.symm
  have hsound : ∀ frame ∈ frames, ∀ token ∈ frame.standing, ¬ token.Fails := by
    have htwo : ¬ Token.Fails (.number "2") := by
      show ¬ Number.read? "2" = none
      decide
    have hthree : ¬ Token.Fails (.number "3") := by
      show ¬ Number.read? "3" = none
      decide
    have hfour : ¬ Token.Fails (.group [.number "4"]) := by
      rintro ⟨e, he⟩
      rw [show Token.evaluate [.number "4"] = .ok 4 by decide +kernel] at he
      cases he
    have hoperator : ∀ op, ¬ Token.Fails (.operator op) := fun _ h => h
    have houter : ∀ token ∈ [Token.group [.number "4"], .operator .factorial,
        .operator (.binary .add), .number "2", .operator (.binary .multiply)], ¬ token.Fails := by
      simp [htwo, hfour, hoperator]
    have hinner : ∀ token ∈ [Token.number "3", .operator (.binary .subtract)],
        ¬ token.Fails := by
      simp [hthree, hoperator]
    exact List.forall_mem_cons.2 ⟨houter, List.forall_mem_cons.2 ⟨hinner, fun _ h => nomatch h⟩⟩
  obtain ⟨hcongr, hfails⟩ := evaluate_fillAll frames
  exact ⟨⟨hsame, hcongr children children' hsame⟩, hdivision, hsound,
    hfails children _ hdivision hsound⟩

end Reckoner
