import CppProject.Lib.Ranking
import Mathlib.Algebra.GroupWithZero.Nat
import Mathlib.Data.List.Nodup

/-!
# A bounded work queue

What a pool of workers is for: jobs are accepted up to a bound, started in the order in which they were
accepted, one at a time by each worker, and finished by the worker that started them; the queue is closed when it
is empty. Each operation is one indivisible step. Whatever weight is given to the jobs, the accepted ones weigh
as much as those that are finished, running and queued.
-/

namespace WorkQueue

variable {α W : Type*}

/-- The jobs of a queue with workers `W`, and those that have been accepted, started and finished, oldest first. -/
structure State (α W : Type*) where
  queued : List α
  running : W → Option α
  accepted : List α
  started : List α
  finished : List α
  isOpen : Bool

/-- The operations. -/
inductive Event (α W : Type*)
  | accept (a : α)
  | start (w : W)
  | finish (w : W)
  | close

/-- The queue at first. -/
def State.new (α W : Type*) : State α W := ⟨[], fun _ => none, [], [], [], true⟩

/-- One operation on a queue for `cap` jobs. -/
inductive Step [DecidableEq W] (cap : ℕ) (s : State α W) : Event α W → State α W → Prop
  | accept {a : α} : s.isOpen = true → s.queued.length < cap → a ∉ s.accepted →
      Step cap s (.accept a) { s with queued := s.queued ++ [a], accepted := s.accepted ++ [a] }
  | start {w : W} {a : α} {rest : List α} : s.isOpen = true → s.queued = a :: rest → s.running w = none →
      Step cap s (.start w) { s with
        queued := rest, running := Function.update s.running w (some a), started := s.started ++ [a] }
  | finish {w : W} {a : α} : s.running w = some a →
      Step cap s (.finish w) { s with
        running := Function.update s.running w none, finished := s.finished ++ [a] }
  | close : s.queued = [] → Step cap s .close { s with isOpen := false }

/-- The states of all runs. -/
def Reachable [DecidableEq W] (cap : ℕ) : State α W → Prop :=
  Transition.Reachable (· = State.new α W) (Step cap)

/-- What a job in the hands of a worker weighs. -/
def weigh (weight : α → ℕ) (job : Option α) : ℕ := job.elim 0 weight

/-- The jobs are in order, in bounds, and none is lost. -/
structure Sound [Fintype W] (cap : ℕ) (s : State α W) : Prop where
  fifo : s.accepted = s.started ++ s.queued
  nodup : s.accepted.Nodup
  bounded : s.queued.length ≤ cap
  closed : s.isOpen = false → s.queued = []
  conserved : ∀ weight : α → ℕ, (s.accepted.map weight).sum =
    (s.finished.map weight).sum + ∑ w, weigh weight (s.running w) + (s.queued.map weight).sum

variable [Fintype W] {cap : ℕ} {s s' : State α W}

/-- Every step keeps it so. -/
theorem Sound.step [DecidableEq W] {event : Event α W} (h : Sound cap s) (hstep : Step cap s event s') :
    Sound cap s' := by
  cases hstep with
  | @accept a hopen hroom hfresh =>
    refine ⟨?_, ?_, ?_, fun hclosed => absurd (hopen.symm.trans hclosed) (by simp), fun weight => ?_⟩
    · rw [h.fifo, List.append_assoc]
    · exact h.nodup.append (List.nodup_singleton a) (by simpa using hfresh)
    · rw [List.length_append]
      exact hroom
    · have hconserved := h.conserved weight
      simp only [List.map_append, List.sum_append]
      omega
  | @start w a rest hopen hqueued hidle =>
    refine ⟨?_, h.nodup, ?_, fun hclosed => absurd (hopen.symm.trans hclosed) (by simp), fun weight => ?_⟩
    · rw [h.fifo, hqueued, List.append_assoc]
      rfl
    · have hbounded := h.bounded
      rw [hqueued, List.length_cons] at hbounded
      exact Nat.le_of_succ_le hbounded
    · have hconserved := h.conserved weight
      have hsum := Transition.sum_update (weigh weight) s.running w (some a)
      rw [hqueued, List.map_cons, List.sum_cons] at hconserved
      simp only [hidle, weigh, Option.elim_none, Option.elim_some] at hsum hconserved ⊢
      omega
  | @finish w a hrunning =>
    refine ⟨h.fifo, h.nodup, h.bounded, h.closed, fun weight => ?_⟩
    have hconserved := h.conserved weight
    have hsum := Transition.sum_update (weigh weight) s.running w none
    simp only [hrunning, weigh, Option.elim_none, Option.elim_some] at hsum hconserved
    simp only [List.map_append, List.sum_append, List.map_cons, List.map_nil, List.sum_cons, List.sum_nil, weigh]
    omega
  | close hempty => exact ⟨h.fifo, h.nodup, h.bounded, fun _ => hempty, h.conserved⟩

/-- It holds in every reachable state. -/
theorem Reachable.sound [DecidableEq W] (h : Reachable cap s) : Sound cap s := by
  refine Transition.Reachable.invariant (P := Sound cap) (fun s hs => ?_) (fun _ _ _ hs hstep => hs.step hstep) h
  subst hs
  exact ⟨rfl, List.nodup_nil, Nat.zero_le _, fun _ => rfl, by simp [State.new, weigh]⟩

/-- The jobs are counted: those accepted are finished, running or queued. -/
theorem Sound.length_eq (h : Sound cap s) : s.accepted.length =
    s.finished.length + (Finset.univ.filter fun w => (s.running w).isSome).card + s.queued.length := by
  have hone : ∀ job : Option α, weigh (fun _ => 1) job = if job.isSome then 1 else 0 := fun job => by
    cases job <;> rfl
  have hconserved := h.conserved fun _ => 1
  simp only [hone, List.map_const', List.sum_replicate_nat, mul_one] at hconserved
  rw [hconserved, Finset.card_filter]

/-- There are never more jobs in the queue and with the workers than both have room for. -/
theorem Sound.length_le (h : Sound cap s) : s.accepted.length ≤ s.finished.length + Fintype.card W + cap := by
  have hrunning : (Finset.univ.filter fun w => (s.running w).isSome).card ≤ Fintype.card W := Finset.card_le_univ _
  rw [h.length_eq]
  exact Nat.add_le_add (Nat.add_le_add_left hrunning _) h.bounded

end WorkQueue
