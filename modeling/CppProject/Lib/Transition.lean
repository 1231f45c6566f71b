import Mathlib.Logic.Relation

/-!
# Labelled transition systems

A system is a set of initial states and a labelled step relation. Invariants are proved
through `Reachable.invariant`; a property that only holds of runs whose steps all meet a
condition is an invariant of the system under `Restrict`.
-/

namespace Transition

variable {σ ι : Type*}

/-- The states some finite run from an initial state ends in. -/
inductive Reachable (Init : σ → Prop) (Step : σ → ι → σ → Prop) : σ → Prop
  | init {s : σ} : Init s → Reachable Init Step s
  | step {s t : σ} {e : ι} : Reachable Init Step s → Step s e t → Reachable Init Step t

/-- The steps taken in a state and under a label that meet a condition. -/
def Restrict (Step : σ → ι → σ → Prop) (Cond : σ → ι → Prop) : σ → ι → σ → Prop :=
  fun s e t => Step s e t ∧ Cond s e

variable {Init : σ → Prop} {Step : σ → ι → σ → Prop}

/-- What holds initially and is preserved by every step holds in every reachable state. -/
theorem Reachable.invariant {P : σ → Prop} (hinit : ∀ s, Init s → P s)
    (hstep : ∀ s e t, P s → Step s e t → P t) {s : σ} (h : Reachable Init Step s) : P s := by
  induction h with
  | init hs => exact hinit _ hs
  | step _ he ih => exact hstep _ _ _ ih he

/-- An invariant whose step uses facts already known of every reachable state. -/
theorem Reachable.invariant_of {P Q : σ → Prop} (hknown : ∀ s, Reachable Init Step s → Q s)
    (hinit : ∀ s, Init s → P s) (hstep : ∀ s e t, Q s → P s → Step s e t → P t)
    {s : σ} (h : Reachable Init Step s) : P s := by
  induction h with
  | init hs => exact hinit _ hs
  | step hs he ih => exact hstep _ _ _ (hknown _ hs) ih he

/-- Runs of a system with fewer steps are runs of the system with more. -/
theorem Reachable.mono {Step' : σ → ι → σ → Prop} (hsub : ∀ s e t, Step s e t → Step' s e t)
    {s : σ} (h : Reachable Init Step s) : Reachable Init Step' s := by
  induction h with
  | init hs => exact .init hs
  | step _ he ih => exact .step ih (hsub _ _ _ he)

/-- A finite run with the labels of its steps. -/
inductive Run (Step : σ → ι → σ → Prop) : σ → List ι → σ → Prop
  | nil {s : σ} : Run Step s [] s
  | cons {s t u : σ} {e : ι} {rest : List ι} : Step s e t → Run Step t rest u → Run Step s (e :: rest) u

/-- What every step preserves holds at the end of a run. -/
theorem Run.preserves {P : σ → Prop} (hstep : ∀ s e t, P s → Step s e t → P t) {s t : σ} {labels : List ι}
    (hs : P s) (h : Run Step s labels t) : P t := by
  induction h with
  | nil => exact hs
  | cons he _ ih => exact ih (hstep _ _ _ hs he)

/-- A run of a system with fewer steps is a run of the system with more. -/
theorem Run.mono {Step' : σ → ι → σ → Prop} (hsub : ∀ s e t, Step s e t → Step' s e t) {s t : σ} {labels : List ι}
    (h : Run Step s labels t) : Run Step' s labels t := by
  induction h with
  | nil => exact .nil
  | cons he _ ih => exact .cons (hsub _ _ _ he) ih

/-- One run after another. -/
theorem Run.append {s t u : σ} {labels later : List ι} (h : Run Step s labels t) (hlater : Run Step t later u) :
    Run Step s (labels ++ later) u := by
  induction h with
  | nil => exact hlater
  | cons he _ ih => exact .cons he (ih hlater)

/-- A run cut in two. -/
theorem Run.split {s u : σ} {labels later : List ι} (h : Run Step s (labels ++ later) u) :
    ∃ t, Run Step s labels t ∧ Run Step t later u := by
  induction labels generalizing s with
  | nil => exact ⟨s, .nil, h⟩
  | cons e rest ih =>
    cases h with
    | cons he hrest =>
      obtain ⟨t, hfirst, hlater⟩ := ih hrest
      exact ⟨t, .cons he hfirst, hlater⟩

/-- A run whose good steps keep `P` and whose bad steps lead from `P` to `Q`, which no step leaves:
it ends in `P` after good steps only, and in `Q` otherwise. -/
theorem Run.dichotomy {G : ι → Prop} {P Q : σ → Prop}
    (hgood : ∀ s e t, P s → G e → Step s e t → P t)
    (hbad : ∀ s e t, P s → ¬ G e → Step s e t → Q t) (hstable : ∀ s e t, Q s → Step s e t → Q t)
    {s t : σ} {labels : List ι} (hs : P s) (h : Run Step s labels t) :
    ((∀ e ∈ labels, G e) ∧ P t) ∨ ((∃ e ∈ labels, ¬ G e) ∧ Q t) := by
  induction h with
  | nil => exact Or.inl ⟨by simp, hs⟩
  | @cons s t u e rest he hrest ih =>
    by_cases hgoode : G e
    · rcases ih (hgood s e t hs hgoode he) with ⟨hall, hu⟩ | ⟨⟨e', he', hbade⟩, hu⟩
      · exact Or.inl ⟨List.forall_mem_cons.mpr ⟨hgoode, hall⟩, hu⟩
      · exact Or.inr ⟨⟨e', List.mem_cons_of_mem e he', hbade⟩, hu⟩
    · exact Or.inr ⟨⟨e, List.mem_cons_self, hgoode⟩, hrest.preserves hstable (hbad s e t hs hgoode he)⟩

/-- Take the listed steps one after another with an executable step function. -/
def replay (next : σ → ι → Option σ) : σ → List ι → Option σ
  | s, [] => some s
  | s, e :: rest => (next s e).bind fun t => replay next t rest

/-- A replay with a function that takes only steps of the system stays within it. -/
theorem Reachable.replay {next : σ → ι → Option σ}
    (hsound : ∀ s e t, next s e = some t → Step s e t) {s t : σ} {labels : List ι}
    (hs : Reachable Init Step s) (h : Transition.replay next s labels = some t) :
    Reachable Init Step t := by
  induction labels generalizing s with
  | nil => exact Option.some.inj h ▸ hs
  | cons e rest ih =>
    obtain ⟨u, hu, hrest⟩ := Option.bind_eq_some_iff.mp h
    exact ih (hs.step (hsound _ _ _ hu)) hrest

/-- A replay is a run. -/
theorem Run.replay {next : σ → ι → Option σ} (hsound : ∀ s e t, next s e = some t → Step s e t) {s t : σ}
    {labels : List ι} (h : Transition.replay next s labels = some t) : Run Step s labels t := by
  induction labels generalizing s with
  | nil => exact Option.some.inj h ▸ .nil
  | cons e rest ih =>
    obtain ⟨u, hu, hrest⟩ := Option.bind_eq_some_iff.mp h
    exact .cons (hsound _ _ _ hu) (ih hrest)

/-- An executable step function that refuses the steps not meeting a condition. -/
def guard (Cond : σ → ι → Prop) [∀ s e, Decidable (Cond s e)] (next : σ → ι → Option σ) (s : σ)
    (e : ι) : Option σ :=
  if Cond s e then next s e else none

/-- A replay with a guarded step function stays within the restricted system. -/
theorem Reachable.replay_guard {Cond : σ → ι → Prop} [∀ s e, Decidable (Cond s e)]
    {next : σ → ι → Option σ} (hsound : ∀ s e t, next s e = some t → Step s e t) {s t : σ}
    {labels : List ι} (hs : Reachable Init (Restrict Step Cond) s)
    (h : Transition.replay (guard Cond next) s labels = some t) :
    Reachable Init (Restrict Step Cond) t := by
  refine hs.replay (fun s e t he => ?_) h
  rw [guard] at he
  obtain ⟨hcond, hnext⟩ := Option.ite_none_right_eq_some.mp he
  exact ⟨hsound s e t hnext, hcond⟩

/-- A guarded replay is a run of the steps that meet the condition. -/
theorem Run.replay_guard {Cond : σ → ι → Prop} [∀ s e, Decidable (Cond s e)] {next : σ → ι → Option σ}
    (hsound : ∀ s e t, next s e = some t → Step s e t) {s t : σ} {labels : List ι}
    (h : Transition.replay (guard Cond next) s labels = some t) : Run (Restrict Step Cond) s labels t := by
  refine Run.replay (fun s e t he => ?_) h
  rw [guard] at he
  obtain ⟨hcond, hnext⟩ := Option.ite_none_right_eq_some.mp he
  exact ⟨hsound s e t hnext, hcond⟩

end Transition
