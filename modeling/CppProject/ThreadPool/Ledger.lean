import CppProject.ThreadPool.System
import Mathlib.Data.List.Nodup

/-!
# The log of a run

What the log looks like in every reachable state, given the jobs that are still queued: jobs
leave the queue in the order they entered it, and each is invoked, completed and freed at most
once and in this order. One lemma for each event.
-/

namespace CppProject.ThreadPool

variable {n : ℕ} {P : Type*} {log : Log n P} {queued : List (Ticket P)}

/-- The log is consistent with the queued jobs. -/
structure Ledger (log : Log n P) (queued : List (Ticket P)) : Prop where
  fifo : log.enqueued = log.dequeued.map Prod.fst ++ queued
  issued : (log.enqueued ++ log.rejected).Nodup
  invokedOf : log.invoked ⊆ log.dequeued
  invokedOnce : log.invoked.Nodup
  completedOf : log.completed ⊆ log.invoked
  completedOnce : log.completed.Nodup
  freedOf : log.freed ⊆ log.completed.map Prod.fst
  freedOnce : log.freed.Nodup

namespace Ledger

/-- No job is accepted twice. -/
theorem enqueued_nodup (h : Ledger log queued) : log.enqueued.Nodup :=
  (List.nodup_append.mp h.issued).1

/-- Each dequeued job belongs to exactly one worker. -/
theorem dequeued_unique (h : Ledger log queued) {t : Ticket P} {i j : Fin n}
    (hi : (t, i) ∈ log.dequeued) (hj : (t, j) ∈ log.dequeued) : i = j := by
  have hnodup := h.enqueued_nodup
  rw [h.fifo] at hnodup
  have heq := List.inj_on_of_nodup_map (List.nodup_append.mp hnodup).1 hi hj rfl
  exact (Prod.mk.inj heq).2

/-- A queued job has not been dequeued. -/
theorem not_dequeued (h : Ledger log queued) {t : Ticket P} (ht : t ∈ queued) (i : Fin n) :
    (t, i) ∉ log.dequeued := fun hmem => by
  have hnodup := h.enqueued_nodup
  rw [h.fifo] at hnodup
  exact (List.nodup_append.mp hnodup).2.2 t (List.mem_map_of_mem hmem) t ht rfl

/-- A rejected job has not been invoked. -/
theorem not_invoked (h : Ledger log queued) {t : Ticket P} (ht : t ∈ log.rejected) (i : Fin n) :
    (t, i) ∉ log.invoked := fun hmem => by
  have henqueued : t ∈ log.enqueued := by
    rw [h.fifo]
    exact List.mem_append_left _ (List.mem_map_of_mem (h.invokedOf hmem))
  exact (List.nodup_append.mp h.issued).2.2 t henqueued t ht rfl

/-- A freed job was taken and completed by one worker. -/
theorem freed_dequeued (h : Ledger log queued) {t : Ticket P} (ht : t ∈ log.freed) :
    ∃ i, (t, i) ∈ log.completed ∧ (t, i) ∈ log.dequeued := by
  obtain ⟨⟨t', i⟩, hmem, rfl⟩ := List.mem_map.mp (h.freedOf ht)
  exact ⟨i, hmem, h.invokedOf (h.completedOf hmem)⟩

variable {t : Ticket P}

/-- A call whose job is not accepted. -/
theorem reject (h : Ledger log queued) (ht : t ∉ log.enqueued ++ log.rejected) :
    Ledger { log with rejected := log.rejected ++ [t] } queued where
  fifo := h.fifo
  issued := by
    rw [← List.append_assoc]
    exact h.issued.append (List.nodup_singleton t) (by simpa using ht)
  invokedOf := h.invokedOf
  invokedOnce := h.invokedOnce
  completedOf := h.completedOf
  completedOnce := h.completedOnce
  freedOf := h.freedOf
  freedOnce := h.freedOnce

/-- A job is accepted, and is the last one in the queue. -/
theorem enqueue (h : Ledger log queued) (ht : t ∉ log.enqueued ++ log.rejected) :
    Ledger { log with enqueued := log.enqueued ++ [t] } (queued ++ [t]) where
  fifo := by rw [h.fifo, List.append_assoc]
  issued := by
    rw [List.append_assoc, List.singleton_append, List.nodup_middle]
    exact List.nodup_cons.mpr ⟨ht, h.issued⟩
  invokedOf := h.invokedOf
  invokedOnce := h.invokedOnce
  completedOf := h.completedOf
  completedOnce := h.completedOnce
  freedOf := h.freedOf
  freedOnce := h.freedOnce

/-- A worker takes the first job of the queue. -/
theorem dequeue (h : Ledger log (t :: queued)) (i : Fin n) :
    Ledger { log with dequeued := log.dequeued ++ [(t, i)] } queued where
  fifo := by rw [h.fifo, List.map_append, List.map_singleton, List.append_assoc, List.singleton_append]
  issued := h.issued
  invokedOf := fun e he => List.mem_append_left _ (h.invokedOf he)
  invokedOnce := h.invokedOnce
  completedOf := h.completedOf
  completedOnce := h.completedOnce
  freedOf := h.freedOf
  freedOnce := h.freedOnce

/-- A worker calls the callback of a job it has taken. -/
theorem invoke (h : Ledger log queued) {i : Fin n} (hmem : (t, i) ∈ log.dequeued)
    (hnew : (t, i) ∉ log.invoked) :
    Ledger { log with invoked := log.invoked ++ [(t, i)] } queued where
  fifo := h.fifo
  issued := h.issued
  invokedOf := List.append_subset.mpr ⟨h.invokedOf, by simpa using hmem⟩
  invokedOnce := h.invokedOnce.append (List.nodup_singleton _) (by simpa using hnew)
  completedOf := fun e he => List.mem_append_left _ (h.completedOf he)
  completedOnce := h.completedOnce
  freedOf := h.freedOf
  freedOnce := h.freedOnce

/-- A callback returns. -/
theorem complete (h : Ledger log queued) {i : Fin n} (hmem : (t, i) ∈ log.invoked)
    (hnew : (t, i) ∉ log.completed) :
    Ledger { log with completed := log.completed ++ [(t, i)] } queued where
  fifo := h.fifo
  issued := h.issued
  invokedOf := h.invokedOf
  invokedOnce := h.invokedOnce
  completedOf := List.append_subset.mpr ⟨h.completedOf, by simpa using hmem⟩
  completedOnce := h.completedOnce.append (List.nodup_singleton _) (by simpa using hnew)
  freedOf := fun e he => by
    rw [List.map_append]
    exact List.mem_append_left _ (h.freedOf he)
  freedOnce := h.freedOnce

/-- A job that is completed is freed. -/
theorem free (h : Ledger log queued) {i : Fin n} (hmem : (t, i) ∈ log.completed)
    (hnew : t ∉ log.freed) : Ledger { log with freed := log.freed ++ [t] } queued where
  fifo := h.fifo
  issued := h.issued
  invokedOf := h.invokedOf
  invokedOnce := h.invokedOnce
  completedOf := h.completedOf
  completedOnce := h.completedOnce
  freedOf := List.append_subset.mpr ⟨h.freedOf, by simpa using ⟨i, hmem⟩⟩
  freedOnce := h.freedOnce.append (List.nodup_singleton _) (by simpa using hnew)

end Ledger

end CppProject.ThreadPool
