import CppProject.Lib.Transition

/-!
# Simulations

A relation between the states of two systems simulates the first by the second when it relates their
initial states and each step of the first is a step of the second, or no step at all. Then each
reachable state of the first is related to one of the second, so what holds of every reachable state
of the second is known of the first. A function of the states is the special case of a projection:
a system that is built from others is simulated by each of its parts.
-/

namespace Transition

variable {σ τ ι κ : Type*} {Init : σ → Prop} {Step : σ → ι → σ → Prop} {Init' : τ → Prop} {Step' : τ → κ → τ → Prop}

/-- One step of the second system at most for each step of the first. -/
structure Simulation (Init : σ → Prop) (Step : σ → ι → σ → Prop) (Init' : τ → Prop) (Step' : τ → κ → τ → Prop)
    (Rel : σ → τ → Prop) : Prop where
  init : ∀ s, Init s → ∃ a, Init' a ∧ Rel s a
  step : ∀ s e t a, Rel s a → Step s e t → Rel t a ∨ ∃ e' b, Step' a e' b ∧ Rel t b

/-- A reachable state is related to a reachable state. -/
theorem Simulation.reachable {Rel : σ → τ → Prop} (h : Simulation Init Step Init' Step' Rel) {s : σ}
    (hs : Reachable Init Step s) : ∃ a, Reachable Init' Step' a ∧ Rel s a := by
  induction hs with
  | init hs =>
    obtain ⟨a, ha, hrel⟩ := h.init _ hs
    exact ⟨a, .init ha, hrel⟩
  | @step s t e _ hstep ih =>
    obtain ⟨a, ha, hrel⟩ := ih
    rcases h.step s e t a hrel hstep with hrel | ⟨e', b, hstep', hrel⟩
    · exact ⟨a, ha, hrel⟩
    · exact ⟨b, .step ha hstep', hrel⟩

/-- A part of the states that each step either leaves alone or changes by a step of its own. -/
structure Projection (Init : σ → Prop) (Step : σ → ι → σ → Prop) (Init' : τ → Prop) (Step' : τ → κ → τ → Prop)
    (part : σ → τ) : Prop where
  init : ∀ s, Init s → Init' (part s)
  step : ∀ s e t, Step s e t → part t = part s ∨ ∃ e', Step' (part s) e' (part t)

/-- A projection is a simulation. -/
theorem Projection.simulation {part : σ → τ} (h : Projection Init Step Init' Step' part) :
    Simulation Init Step Init' Step' fun s a => part s = a where
  init := fun s hs => ⟨part s, h.init s hs, rfl⟩
  step := by
    rintro s e t _ rfl hstep
    exact (h.step s e t hstep).imp id fun ⟨e', hstep'⟩ => ⟨e', part t, hstep', rfl⟩

/-- The part of a reachable state is reachable. -/
theorem Projection.reachable {part : σ → τ} (h : Projection Init Step Init' Step' part) {s : σ}
    (hs : Reachable Init Step s) : Reachable Init' Step' (part s) := by
  obtain ⟨a, ha, rfl⟩ := h.simulation.reachable hs
  exact ha

end Transition
