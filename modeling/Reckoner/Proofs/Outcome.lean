/-
  Outcomes: what a step gives, or why it fails.

  A sequence of steps succeeds when every step does, and fails with the first failure.  For the
  steps along a list this is `mapM_eq_ok_iff` and `mapM_eq_error_iff`: the results of all of
  them, or the fault of the first element that has one (`First`).  What holds of every failure of
  each step holds of every failure of the sequence (`FailsOnly`).
-/
import Mathlib.Data.List.Forall2

namespace Reckoner.Outcome

variable {α β ε : Type}

theorem bind_eq_ok {outcome : Except ε α} {next : α → Except ε β} {b : β} :
    (outcome >>= next) = .ok b ↔ ∃ a, outcome = .ok a ∧ next a = .ok b := by
  cases outcome with
  | error e => exact ⟨(nomatch ·), fun ⟨a, ha, _⟩ => nomatch ha⟩
  | ok a => exact ⟨fun h => ⟨a, rfl, h⟩, fun ⟨a', ha, h⟩ => Except.ok.inj ha ▸ h⟩

/-- A sequence of two steps fails when the first does, or the second does with what the first
    gives. -/
theorem bind_eq_error {outcome : Except ε α} {next : α → Except ε β} {e : ε} :
    (outcome >>= next) = .error e ↔
      outcome = .error e ∨ ∃ a, outcome = .ok a ∧ next a = .error e := by
  cases outcome with
  | error e' =>
    constructor
    · exact fun h => .inl (congrArg Except.error (Except.error.inj h))
    · rintro (h | ⟨a, ha, -⟩)
      · exact congrArg Except.error (Except.error.inj h)
      · cases ha
  | ok a =>
    constructor
    · exact fun h => .inr ⟨a, rfl, h⟩
    · rintro (h | ⟨a', ha, h⟩)
      · cases h
      · exact Except.ok.inj ha ▸ h

/-- An outcome is a failure of this kind if it is a failure. -/
def FailsOnly (P : ε → Prop) (outcome : Except ε α) : Prop :=
  ∀ e, outcome = .error e → P e

theorem FailsOnly.ok {P : ε → Prop} (a : α) : FailsOnly P (.ok a) :=
  fun _ h => nomatch h

theorem FailsOnly.error {P : ε → Prop} {e : ε} (h : P e) :
    FailsOnly P (.error e : Except ε α) :=
  fun _ heq => Except.error.inj heq ▸ h

theorem FailsOnly.bind {P : ε → Prop} {outcome : Except ε α} {next : α → Except ε β}
    (h : FailsOnly P outcome) (hnext : ∀ a, FailsOnly P (next a)) :
    FailsOnly P (outcome >>= next) := by
  cases outcome with
  | error e => exact .error (h e rfl)
  | ok a => exact hnext a

/-- A failure of one kind is a failure of every kind that it belongs to. -/
theorem FailsOnly.mono {P Q : ε → Prop} {outcome : Except ε α} (h : FailsOnly P outcome)
    (himp : ∀ e, P e → Q e) : FailsOnly Q outcome :=
  fun e he => himp e (h e he)

/-- The steps along a list succeed when each of them does. -/
theorem mapM_eq_ok_iff {step : α → Except ε β} {as : List α} {bs : List β} :
    as.mapM step = .ok bs ↔ List.Forall₂ (fun a b => step a = .ok b) as bs := by
  induction as generalizing bs with
  | nil =>
    rw [List.mapM_nil, List.forall₂_nil_left_iff]
    exact ⟨fun h => (Except.ok.inj h).symm, fun h => h ▸ rfl⟩
  | cons a as ih =>
    rw [List.mapM_cons, List.forall₂_cons_left_iff, bind_eq_ok]
    constructor
    · rintro ⟨b, hb, hrest⟩
      obtain ⟨bs', hbs', hcons⟩ := bind_eq_ok.1 hrest
      exact ⟨b, bs', hb, ih.1 hbs', (Except.ok.inj hcons).symm⟩
    · rintro ⟨b, bs', hb, hbs', rfl⟩
      exact ⟨b, hb, bind_eq_ok.2 ⟨bs', ih.2 hbs', rfl⟩⟩

/-- A list with an element such as `p` says begins with others, up to the first such. -/
theorem exists_first {p : α → Prop} [DecidablePred p] {as : List α} (h : ∃ a ∈ as, p a) :
    ∃ front a, front ++ [a] <+: as ∧ p a ∧ ∀ b ∈ front, ¬ p b := by
  have hfind : (as.find? p).isSome := by
    rw [List.find?_isSome]
    simpa using h
  obtain ⟨a, ha⟩ := Option.isSome_iff_exists.1 hfind
  obtain ⟨hp, front, behind, rfl, hfront⟩ := List.find?_eq_some_iff_append.1 ha
  refine ⟨front, a, ⟨behind, by simp⟩, of_decide_eq_true hp, fun b hb => ?_⟩
  simpa using hfront b hb

/-- The first element of a list that has a fault has this one. -/
inductive First (Fault : α → ε → Prop) : List α → ε → Prop
  | here {a : α} {as : List α} {e : ε} (h : Fault a e) : First Fault (a :: as) e
  | later {a : α} {as : List α} {e : ε} (hsound : ∀ e', ¬ Fault a e') (h : First Fault as e) :
      First Fault (a :: as) e

theorem First.congr {Fault Fault' : α → ε → Prop} {as : List α} {e : ε}
    (h : ∀ a ∈ as, ∀ e, Fault a e ↔ Fault' a e) : First Fault as e ↔ First Fault' as e := by
  induction as with
  | nil => exact ⟨fun hfirst => (nomatch hfirst), fun hfirst => (nomatch hfirst)⟩
  | cons a as ih =>
    have hhead := h a List.mem_cons_self
    have htail := ih fun a' ha' => h a' (List.mem_cons_of_mem _ ha')
    constructor
    · intro hfirst
      cases hfirst with
      | here hfault => exact .here ((hhead e).1 hfault)
      | later hsound hrest =>
        exact .later (fun e' hfault => hsound e' ((hhead e').2 hfault)) (htail.1 hrest)
    · intro hfirst
      cases hfirst with
      | here hfault => exact .here ((hhead e).2 hfault)
      | later hsound hrest =>
        exact .later (fun e' hfault => hsound e' ((hhead e').1 hfault)) (htail.2 hrest)

/-- The steps along a list fail with the fault of the first that has one. -/
theorem mapM_eq_error_iff {step : α → Except ε β} {as : List α} {e : ε} :
    as.mapM step = .error e ↔ First (fun a e => step a = .error e) as e := by
  induction as with
  | nil => exact ⟨fun h => (nomatch h), fun h => (nomatch h)⟩
  | cons a as ih =>
    rw [List.mapM_cons]
    cases hstep : step a with
    | error e' =>
      constructor
      · intro h
        cases h
        exact .here hstep
      · intro h
        cases h with
        | here h => rw [hstep] at h; cases h; rfl
        | later hsound => exact (hsound e' hstep).elim
    | ok b =>
      have hrest : (Except.ok b >>= fun b => as.mapM step >>= fun bs => pure (b :: bs)) =
          Except.error e ↔ as.mapM step = .error e := by
        cases as.mapM step with
        | ok bs => exact ⟨fun h => (nomatch h), fun h => (nomatch h)⟩
        | error e' => exact ⟨fun h => by cases h; rfl, fun h => by cases h; rfl⟩
      rw [hrest, ih]
      constructor
      · intro h
        refine .later (fun e' he' => ?_) h
        rw [hstep] at he'
        cases he'
      · intro h
        cases h with
        | here h => rw [hstep] at h; cases h
        | later _ h => exact h

/-- Behind elements without a fault, the first fault is the first one from there on. -/
theorem First.append_iff {Fault : α → ε → Prop} {as as' : List α} {e : ε} :
    First Fault (as ++ as') e ↔
      First Fault as e ∨ (∀ a ∈ as, ∀ e', ¬ Fault a e') ∧ First Fault as' e := by
  induction as with
  | nil =>
    constructor
    · exact fun h => .inr ⟨fun a ha => (nomatch ha), h⟩
    · rintro (h | ⟨-, h⟩)
      · cases h
      · exact h
  | cons a as ih =>
    constructor
    · intro h
      cases h with
      | here h => exact .inl (.here h)
      | later hsound h =>
        rcases ih.1 h with h | ⟨hrest, h⟩
        · exact .inl (.later hsound h)
        · refine .inr ⟨fun b hb => ?_, h⟩
          rcases List.mem_cons.1 hb with rfl | hb
          · exact hsound
          · exact hrest b hb
    · rintro (h | ⟨hsound, h⟩)
      · cases h with
        | here h => exact .here h
        | later hhead h => exact .later hhead (ih.2 (.inl h))
      · exact .later (hsound a List.mem_cons_self)
          (ih.2 (.inr ⟨fun b hb => hsound b (List.mem_cons_of_mem _ hb), h⟩))

/-- The first fault is the fault of some element. -/
theorem First.exists_mem {Fault : α → ε → Prop} {as : List α} {e : ε} (h : First Fault as e) :
    ∃ a ∈ as, Fault a e := by
  induction h with
  | here h => exact ⟨_, List.mem_cons_self, h⟩
  | later _ _ ih =>
    obtain ⟨a, ha, hfault⟩ := ih
    exact ⟨a, List.mem_cons_of_mem _ ha, hfault⟩

/-- Where an element is at fault and none before it has the fault `e`, the first fault is `e` if
    the element has it and those before it are in order. -/
theorem First.at_iff {Fault : α → ε → Prop} {as behind : List α} {a : α} {e : ε}
    (hfault : ∃ e', Fault a e') (hbefore : ∀ b ∈ as, ¬ Fault b e) :
    First Fault (as ++ a :: behind) e ↔ (∀ b ∈ as, ∀ e', ¬ Fault b e') ∧ Fault a e := by
  rw [First.append_iff]
  constructor
  · rintro (h | ⟨hsound, h⟩)
    · obtain ⟨b, hb, hfault⟩ := h.exists_mem
      exact (hbefore b hb hfault).elim
    · cases h with
      | here h => exact ⟨hsound, h⟩
      | later hsound' _ => exact (hsound' _ hfault.choose_spec).elim
  · rintro ⟨hsound, h⟩
    exact .inr ⟨hsound, .here h⟩

/-- A list has a first fault unless each of its elements is in order. -/
theorem First.sound_iff {Fault : α → ε → Prop} {as : List α} :
    (∀ e, ¬ First Fault as e) ↔ ∀ a ∈ as, ∀ e, ¬ Fault a e := by
  constructor
  · intro h
    induction as with
    | nil => exact fun a ha => nomatch ha
    | cons a as ih =>
      have hhead : ∀ e, ¬ Fault a e := fun e he => h e (.here he)
      have hrest := ih fun e he => h e (.later hhead he)
      intro b hb
      rcases List.mem_cons.1 hb with rfl | hb
      · exact hhead
      · exact hrest b hb
  · intro h e he
    obtain ⟨a, ha, hfault⟩ := he.exists_mem
    exact h a ha e hfault

/-- Steps that agree along a list give the same there. -/
theorem mapM_congr {step step' : α → Except ε β} {as : List α}
    (h : ∀ a ∈ as, step a = step' a) : as.mapM step = as.mapM step' := by
  induction as with
  | nil => rfl
  | cons a as ih =>
    rw [List.mapM_cons, List.mapM_cons, h a List.mem_cons_self,
      ih fun b hb => h b (List.mem_cons_of_mem _ hb)]

end Reckoner.Outcome
