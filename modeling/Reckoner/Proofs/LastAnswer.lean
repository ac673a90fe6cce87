/-
  The last answer stands for the line it came from.

  Behind a line that has an answer, `ans` is that answer, as text among the tokens of the next
  line.  The tokens of the earlier line in parentheses would have done as well: whatever stands
  around it, the next line has the same outcome, the same number or the same error.

  1. **Two readings of one number (`Term.SameBare`)** — a text that reads as the answer and a group
     that evaluates to it differ only in what a remainder would see, so they are told apart by no
     row in which none is taken (`SameBare.evaluate`).

  2. **Any depth** — the next line may have `ans` inside its parentheses.  Bracketing respects what
     groups respect (`Brackets.nest_related`), and a group of such positions is such a position
     again, with no need to look for remainders inside (`SameBare.group`).

  3. **The line (`sameBare_withAnswer`)** — the atoms `ans` are exchanged, all others stay.
-/
import Reckoner.Proofs.Grouping
import Reckoner.Proofs.Literals
import Reckoner.Proofs.Number.ReadBack
import Reckoner.Proofs.Reading
import Reckoner.Session

namespace Reckoner

open Brackets (Mark nest)

/-! ## Positions that differ in a text -/

namespace Term

/-- Two positions have the same value or fail alike, if no text is looked at; and neither is a
    remainder. -/
structure SameBare (term term' : Term) : Prop where
  resolve : term.resolve.map Item.bare = term'.resolve.map Item.bare
  ne_remainder : term.resolve ≠ .ok (.operator (.binary .remainder))
  ne_remainder' : term'.resolve ≠ .ok (.operator (.binary .remainder))

theorem SameBare.refl {term : Term} (h : term.resolve ≠ .ok (.operator (.binary .remainder))) :
    SameBare term term :=
  ⟨rfl, h, h⟩

/-- A group is no operator. -/
theorem resolve_group_ne (children : List Term) (op : Operator) :
    resolve (.group children) ≠ .ok (.operator op) := by
  rw [resolve_group_terms]
  intro h
  cases hvalue : evaluate children with
  | error e => rw [hvalue] at h; cases h
  | ok x => rw [hvalue] at h; cases h

/-- Where no position is a remainder, none is taken in the row. -/
theorem withoutRemainder_of_resolveAll {terms : List Term} {items : List Item}
    (h : ∀ term ∈ terms, term.resolve ≠ .ok (.operator (.binary .remainder)))
    (hitems : resolveAll terms = .ok items) : WithoutRemainder items := by
  induction terms generalizing items with
  | nil =>
    cases hitems
    exact fun op hop => nomatch hop
  | cons term rest ih =>
    rw [resolveAll] at hitems
    obtain ⟨item, hitem, hitems⟩ := Outcome.bind_eq_ok.1 hitems
    obtain ⟨items', hitems', hitems⟩ := Outcome.bind_eq_ok.1 hitems
    cases hitems
    have hrest := ih (fun term hterm => h term (List.mem_cons_of_mem _ hterm)) hitems'
    intro op hop
    rcases List.mem_cons.1 hop with rfl | hop
    · rintro rfl
      exact h term List.mem_cons_self hitem
    · exact hrest op hop

/-- The row without its texts, position by position. -/
theorem map_bare_resolveAll (terms : List Term) :
    (resolveAll terms).map (List.map Item.bare) =
      (terms.map fun term => term.resolve.map Item.bare).mapM id := by
  induction terms with
  | nil => rfl
  | cons term rest ih =>
    rw [List.map_cons, List.mapM_cons, ← ih, resolveAll]
    cases term.resolve with
    | error e => rfl
    | ok item =>
      cases resolveAll rest with
      | error e => rfl
      | ok items => rfl

/-- **Rows that differ in texts have the same value.** -/
theorem SameBare.evaluate {terms terms' : List Term} (h : List.Forall₂ SameBare terms terms') :
    evaluate terms = evaluate terms' := by
  -- without a remainder in it, a row may forget its texts
  have hbare : ∀ {terms : List Term},
      (∀ term ∈ terms, term.resolve ≠ .ok (.operator (.binary .remainder))) →
      Term.evaluate terms =
        (terms.map fun term => term.resolve.map Item.bare).mapM id >>= Reduction.reduceRow := by
    intro terms hterms
    rw [Term.evaluate, ← map_bare_resolveAll]
    cases hitems : Term.resolveAll terms with
    | error e => rfl
    | ok items =>
      exact (Reduction.reduceRow_bare (withoutRemainder_of_resolveAll hterms hitems)).symm
  have hleft := (List.forall₂_and_left terms terms').1
    (h.imp fun _ _ hterm => ⟨hterm.ne_remainder, hterm.resolve⟩)
  have hright := (List.forall₂_and_left terms' terms).1
    (h.flip.imp fun _ _ hterm => ⟨hterm.ne_remainder', hterm.resolve⟩)
  have hresolve : (terms.map fun term => term.resolve.map Item.bare) =
      terms'.map fun term => term.resolve.map Item.bare := by
    rw [← List.forall₂_eq_eq_eq, List.forall₂_map_left_iff, List.forall₂_map_right_iff]
    exact hleft.2
  rw [hbare hleft.1, hbare hright.1, hresolve]

/-- Rows that differ in texts are the same as groups. -/
theorem SameBare.group {terms terms' : List Term} (h : List.Forall₂ SameBare terms terms') :
    SameBare (.group terms) (.group terms') where
  resolve := by rw [resolve_group_terms, resolve_group_terms, SameBare.evaluate h]
  ne_remainder := resolve_group_ne _ _
  ne_remainder' := resolve_group_ne _ _

end Term

/-! ## The atoms of the next line -/

namespace Line

/-- The tokens of a line, with a token in the place of each atom `ans`. -/
def withAnswer (answer : Token) (line : String) (tokens : List Token) : List Token :=
  List.zipWith (fun atom token => if atom = "ans".toList then answer else token)
    (atoms line.toList) tokens

/-- Without an atom `%` no token is a remainder. -/
theorem resolve_ne_remainder {lastAnswer : Option Float} {atom : List Char} {token : Token}
    {term : Term} (h : Writes lastAnswer atom token) (hatom : atom ≠ "%".toList)
    (hterm : Term.markOfToken token = .item term) :
    term.resolve ≠ .ok (.operator (.binary .remainder)) := by
  have hnumber : ∀ text : String, Term.resolve (.number text) ≠
      .ok (.operator (.binary .remainder)) := by
    intro text
    rw [Term.resolve]
    intro heq
    split at heq
    · cases heq
    · cases heq
  cases h with
  | numeral h => cases hterm; exact hnumber _
  | constant h hvalue => cases hterm; exact hnumber _
  | operator op =>
    cases hterm
    intro heq
    cases heq
    exact hatom rfl
  | opening => cases hterm
  | closing => cases hterm

/-- The atom `ans` writes the last answer. -/
theorem eq_of_writes_ans {x : Float} {token : Token} (h : Writes (some x) "ans".toList token) :
    token = .number (Number.text x) := by
  have hspelled : (Atom.constant ⟨.ans, false⟩).Spelled "ans".toList := .constant .ans
  have hans : Writes (some x) "ans".toList (.number (Number.text x)) := .constant hspelled rfl
  have hread := readAtom_of_writes h
  rw [readAtom_of_writes hans] at hread
  exact (Except.ok.inj hread).symm

/-- A group that has a value is the same as the text of the value. -/
theorem sameBare_text {tokens : List Token} {x : Float} (h : Token.evaluate tokens = .ok x) :
    Term.SameBare (.number (Number.text x)) (.group (Term.ofTokens tokens)) where
  resolve := by
    rw [Term.resolve, Number.read?_text, Term.resolve_group, h]
    rfl
  ne_remainder := by
    rw [Term.resolve, Number.read?_text]
    intro heq
    cases heq
  ne_remainder' := Term.resolve_group_ne _ _

theorem related_withAnswer {x : Float} {earlier : List Token}
    (hearlier : Token.evaluate earlier = .ok x) {as : List (List Char)} {tokens : List Token}
    (h : List.Forall₂ (Writes (some x)) as tokens) (hremainder : "%".toList ∉ as) :
    List.Forall₂ (Mark.Related Term.SameBare) (Term.marksOfTokens tokens)
      (Term.marksOfTokens (List.zipWith
        (fun atom token => if atom = "ans".toList then .group earlier else token) as tokens)) := by
  induction h with
  | nil => exact .nil
  | @cons atom token as tokens htoken _ ih =>
    rw [List.zipWith_cons_cons, Term.marksOfTokens, Term.marksOfTokens]
    refine .cons ?_ (ih fun hmem => hremainder (List.mem_cons_of_mem _ hmem))
    have hatom : atom ≠ "%".toList := fun heq => hremainder (heq ▸ List.mem_cons_self)
    split
    · next hans =>
      subst hans
      rw [eq_of_writes_ans htoken]
      exact .item (sameBare_text hearlier)
    · cases hmark : Term.markOfToken token with
      | item term => exact .item (.refl (resolve_ne_remainder htoken hatom hmark))
      | opening => exact .opening
      | closing => exact .closing

end Line

/-! ## The next line -/

namespace Session

/-- What came of a line, in terms of its tokens. -/
theorem answer_of_read {session : Session} {line : String} {tokens : List Token}
    (h : Line.read session.lastAnswer line = .ok tokens) :
    session.answer line = (Token.evaluate tokens).mapError .reduction := by
  rw [answer, h, ← Token.evaluate_groupAll]
  dsimp only
  cases Token.evaluate (Token.groupAll tokens) with
  | error e => rfl
  | ok x => rfl

/-- A line with an answer has tokens, and they have this value. -/
theorem exists_tokens_of_answer {session : Session} {line : String} {x : Float}
    (h : session.answer line = .ok x) :
    ∃ tokens, Line.read session.lastAnswer line = .ok tokens ∧ Token.evaluate tokens = .ok x := by
  cases hread : Line.read session.lastAnswer line with
  | error e => rw [answer, hread] at h; cases h
  | ok tokens =>
    rw [answer_of_read hread] at h
    refine ⟨tokens, rfl, ?_⟩
    cases hvalue : Token.evaluate tokens with
    | error e => rw [hvalue] at h; cases h
    | ok y => rw [hvalue] at h; cases h; rfl

/-- **The last answer stands for the line it came from.**  Behind a line with an answer, a line
    without `%` that can be read has the outcome that its tokens have with the grouped tokens of
    the earlier line, as one group, in the place of each `ans`. -/
theorem answer_binds_earlier_line {session : Session} {earlier line : String} {x : Float}
    {tokens : List Token} (hearlier : (session.evaluateLine earlier).1 = .ok x)
    (hread : Line.read (session.evaluateLine earlier).2.lastAnswer line = .ok tokens)
    (hremainder : "%".toList ∉ Line.atoms line.toList) :
    ∃ bound, Line.read session.lastAnswer earlier = .ok bound ∧
      ((session.evaluateLine earlier).2.evaluateLine line).1 =
        (Token.evaluate (Line.withAnswer (.group (Token.groupAll bound)) line tokens)).mapError
          .reduction := by
  obtain ⟨bound, hbound, hvalue⟩ := exists_tokens_of_answer hearlier
  refine ⟨bound, hbound, ?_⟩
  have hafter : (session.evaluateLine earlier).2 = ⟨some x⟩ := by
    have hanswer : session.answer earlier = .ok x := hearlier
    rw [evaluateLine, hanswer]
    rfl
  have houtcome := answer_of_read hread
  rw [hafter] at hread houtcome ⊢
  have hwrites := Line.writes_of_read hread
  have hgrouped : Token.evaluate (Token.groupAll bound) = .ok x := by
    rw [Token.evaluate_groupAll, hvalue]
  have hrelated := Brackets.nest_related (fun _ _ h => Term.SameBare.group h)
    (Line.related_withAnswer hgrouped hwrites hremainder)
  show Session.answer ⟨some x⟩ line = _
  rw [houtcome]
  exact congrArg (Except.mapError Failure.reduction) (Term.SameBare.evaluate hrelated)

/-- The earlier line may take a remainder, and `ans` may stand inside parentheses. -/
theorem answer_binds_remainder :
    (fresh.evaluateLine "7 % 4").1 = .ok 3 ∧
      Line.read (fresh.evaluateLine "7 % 4").2.lastAnswer "( ans + 1 ) / 2" =
        .ok [.opening, .number "3", .operator (.binary .add), .number "1", .closing,
          .operator (.binary .divide), .number "2"] ∧
      "%".toList ∉ Line.atoms "( ans + 1 ) / 2".toList ∧
      ∃ bound, Line.read none "7 % 4" = .ok bound ∧
        ((fresh.evaluateLine "7 % 4").2.evaluateLine "( ans + 1 ) / 2").1 =
          (Token.evaluate [.opening, .group (Token.groupAll bound), .operator (.binary .add),
            .number "1", .closing, .operator (.binary .divide), .number "2"]).mapError
              .reduction := by
  have hearlier : (fresh.evaluateLine "7 % 4").1 = .ok 3 := by decide +kernel
  have hread : Line.read (fresh.evaluateLine "7 % 4").2.lastAnswer "( ans + 1 ) / 2" =
      .ok [.opening, .number "3", .operator (.binary .add), .number "1", .closing,
        .operator (.binary .divide), .number "2"] := by
    have hafter : (fresh.evaluateLine "7 % 4").2.lastAnswer = some 3 := by decide +kernel
    rw [hafter]
    rfl
  have hremainder : "%".toList ∉ Line.atoms "( ans + 1 ) / 2".toList := by decide +kernel
  exact ⟨hearlier, hread, hremainder, answer_binds_earlier_line hearlier hread hremainder⟩

end Session

end Reckoner
