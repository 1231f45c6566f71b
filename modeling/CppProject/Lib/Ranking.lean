import CppProject.Lib.Transition
import Mathlib.Algebra.BigOperators.Group.Finset.Piecewise
import Mathlib.Algebra.Order.BigOperators.Group.Finset
import Mathlib.Data.Fintype.BigOperators

/-!
# Ranked systems

The steps of a system are split into its own and those of its environment. A rank drops with every own
step and rises by at most `c` with every other. So a run has no more own steps than the rank it starts
from, and `c` for each of the other steps, and own steps alone lead to a state in which none is left.

The rank of a state with many components is a sum over them, in which a step replaces one summand.
-/

namespace Transition

variable {σ ι : Type*} {Step : σ → ι → σ → Prop} {Own : ι → Prop} {Inv : σ → Prop} {rank : σ → ℕ} {c : ℕ}

/-- A rank for the states of an invariant. -/
structure Ranked (Step : σ → ι → σ → Prop) (Own : ι → Prop) (Inv : σ → Prop) (rank : σ → ℕ)
    (c : ℕ) : Prop where
  keeps : ∀ s e t, Inv s → Step s e t → Inv t
  drops : ∀ s e t, Inv s → Step s e t → Own e → rank t < rank s
  rises : ∀ s e t, Inv s → Step s e t → ¬ Own e → rank t ≤ rank s + c

namespace Ranked

variable {s t : σ} {labels : List ι}

/-- The own steps of a run are paid for by the rank and the other steps. -/
theorem countP_le (h : Ranked Step Own Inv rank c) [DecidablePred Own] (hs : Inv s) (hrun : Run Step s labels t) :
    rank t + labels.countP (fun e => decide (Own e)) ≤
      rank s + c * labels.countP fun e => decide (¬ Own e) := by
  induction hrun with
  | nil => simp
  | @cons s t u e rest he _ ih =>
    have hrest := ih (h.keeps s e t hs he)
    by_cases howne : Own e
    · have hdrop := h.drops s e t hs he howne
      simp only [List.countP_cons, howne, not_true_eq_false, decide_true, decide_false]
      simp only [↓reduceIte, Bool.false_eq_true, add_zero]
      omega
    · have hrise := h.rises s e t hs he howne
      simp only [List.countP_cons, howne, not_false_eq_true, decide_true, decide_false]
      simp only [↓reduceIte, Bool.false_eq_true, add_zero, Nat.mul_succ]
      omega

/-- A run of own steps is no longer than the rank it starts from. -/
theorem length_le (h : Ranked Step Own Inv rank c) (hs : Inv s) (hrun : Run Step s labels t)
    (hown : ∀ e ∈ labels, Own e) : rank t + labels.length ≤ rank s := by
  induction hrun with
  | nil => simp
  | @cons s t u e rest he _ ih =>
    obtain ⟨howne, hrest⟩ := List.forall_mem_cons.mp hown
    have hdrop := h.drops s e t hs he howne
    have hlength := ih (h.keeps s e t hs he) hrest
    rw [List.length_cons]
    omega

/-- Own steps, taken as long as there is one, come to an end. -/
theorem exists_stuck (h : Ranked Step Own Inv rank c) (hs : Inv s) :
    ∃ labels t, Run Step s labels t ∧ (∀ e ∈ labels, Own e) ∧ ∀ e u, Step t e u → ¬ Own e := by
  induction hr : rank s using Nat.strong_induction_on generalizing s with
  | _ r ih =>
    by_cases hstuck : ∀ e t, Step s e t → ¬ Own e
    · exact ⟨[], s, .nil, by simp, hstuck⟩
    · push Not at hstuck
      obtain ⟨e, t, he, hown⟩ := hstuck
      have hlt : rank t < r := hr ▸ h.drops s e t hs he hown
      obtain ⟨labels, u, hrun, hall, hend⟩ := ih _ hlt (h.keeps s e t hs he) rfl
      exact ⟨e :: labels, u, .cons he hrun, List.forall_mem_cons.mpr ⟨hown, hall⟩, hend⟩

end Ranked

/-! ## Sums over components -/

variable {α β : Type*} [Fintype α]

/-- A replaced component takes its summand along. -/
theorem sum_update [DecidableEq α] (w : β → ℕ) (f : α → β) (a : α) (b : β) :
    ∑ x, w (Function.update f a b x) + w (f a) = ∑ x, w (f x) + w b := by
  have hw : ∀ x, w (Function.update f a b x) = Function.update (fun x => w (f x)) a (w b) x := fun x =>
    Function.apply_update (fun _ => w) f a b x
  rw [Finset.sum_congr rfl fun x _ => hw x, Finset.sum_update_of_mem (Finset.mem_univ a),
    Finset.sdiff_singleton_eq_erase, ← Finset.add_sum_erase Finset.univ (fun x => w (f x)) (Finset.mem_univ a)]
  omega

/-- Components that each rise by one at most. -/
theorem sum_le_add_card {f g : α → ℕ} (h : ∀ x, g x ≤ f x + 1) : ∑ x, g x ≤ ∑ x, f x + Fintype.card α := by
  calc ∑ x, g x ≤ ∑ x, (f x + 1) := Finset.sum_le_sum fun x _ => h x
    _ = ∑ x, f x + Fintype.card α := by rw [Finset.sum_add_distrib, Fintype.card_eq_sum_ones]

/-- One component pays, and the others each rise by `c` at most. -/
theorem sum_le_except [DecidableEq α] {f g : α → ℕ} (a : α) (c : ℕ) (h : ∀ x, x ≠ a → g x ≤ f x + c) :
    ∑ x, g x + f a ≤ ∑ x, f x + g a + c * Fintype.card α := by
  have hothers : ∑ x ∈ Finset.univ.erase a, g x ≤ ∑ x ∈ Finset.univ.erase a, f x + c * Fintype.card α := by
    calc ∑ x ∈ Finset.univ.erase a, g x ≤ ∑ x ∈ Finset.univ.erase a, (f x + c) :=
          Finset.sum_le_sum fun x hx => h x (Finset.ne_of_mem_erase hx)
      _ = ∑ x ∈ Finset.univ.erase a, f x + (Finset.univ.erase a).card * c := by
          rw [Finset.sum_add_distrib, Finset.sum_const_nat fun _ _ => rfl]
      _ ≤ ∑ x ∈ Finset.univ.erase a, f x + c * Fintype.card α := by
          rw [mul_comm c]
          exact Nat.add_le_add_left (Nat.mul_le_mul_right c (Finset.card_le_univ _)) _
  have hg := Finset.add_sum_erase Finset.univ g (Finset.mem_univ a)
  have hf := Finset.add_sum_erase Finset.univ f (Finset.mem_univ a)
  omega

end Transition
