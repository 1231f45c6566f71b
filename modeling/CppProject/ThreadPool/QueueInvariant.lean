import CppProject.ThreadPool.Preservation

/-!
# The linked list between critical sections

In every reachable state the list from `m_head`, `m_tail` and the counter agree, whatever the order of producers,
workers and callers of `ThreadPool_Destroy`. The nodes that workers use and free outside the mutex are not in the
list, so no section follows a null pointer or a pointer to a freed node.
-/

namespace CppProject.ThreadPool

open PointerChain

variable {n : ℕ} {P D : Type*} {s : State n P D} {jobs : Jobs P}

/-- The list from `m_head` visits exactly the given nodes, with `m_tail` and the counter to match. -/
structure WellFormedQueue (s : State n P D) (nodes : List JobPtr) : Prop where
  chain : Chain (nextAt s.pool.heap) s.pool.mHead nodes
  acyclic : nodes.Nodup
  count : s.pool.mCurQueueJobNum = nodes.length
  nonneg : 0 ≤ s.pool.mCurQueueJobNum
  bound : s.pool.mCurQueueJobNum ≤ s.pool.mQueueMaxNum
  head_eq_none : s.pool.mHead = none ↔ s.pool.mCurQueueJobNum = 0
  tail_eq_none : s.pool.mTail = none ↔ s.pool.mCurQueueJobNum = 0
  last : s.pool.mTail = nodes.getLast?
  allocated : ∀ q ∈ nodes, (s.pool.heap q).isSome

/-- A node between its removal from the queue and its `free` is allocated and not in the queue. -/
def RemovedApart (s : State n P D) (nodes : List JobPtr) : Prop :=
  ∀ i q, (s.worker i).pjob? = some q → (s.pool.heap q).isSome ∧ q ∉ nodes

/-- No section follows a null pointer or a pointer to a freed node, for any fresh address that `malloc` returns. -/
structure SectionsDefined (pool : Pool (Ticket P)) : Prop where
  work : (workSection pool).isSome
  addJob : ∀ callback pjob, (∀ q, pjob = some q → pool.heap q = none) →
    (addJobSection pool callback pjob).isSome

/-- A node with a callback is on the heap. -/
theorem isSome_of_callbackAt {T : Type*} {heap : JobPtr → Option (Job T)} {q : JobPtr} {t : T}
    (h : callbackAt heap q = some t) : (heap q).isSome := by
  rw [← Option.isSome_map, ← callbackAt, h]
  rfl

/-- The counter and the two ends of the list are those of the queue's nodes. -/
theorem Queue.wellFormedQueue (h : Queue s.pool jobs) : WellFormedQueue s (jobs.map Prod.fst) where
  chain := h.chain
  acyclic := h.chain.nodup
  count := by rw [h.count, List.length_map]
  nonneg := by rw [h.count]; exact Int.natCast_nonneg _
  bound := h.bound
  head_eq_none := by rw [h.head_eq, List.head?_eq_none_iff, List.map_eq_nil_iff, h.count_eq_zero]
  tail_eq_none := by rw [h.tail, List.getLast?_eq_none_iff, List.map_eq_nil_iff, h.count_eq_zero]
  last := h.tail
  allocated := by
    intro q hq
    obtain ⟨e, he, rfl⟩ := List.mem_map.mp hq
    exact isSome_of_callbackAt (h.nodes e he)

/-- Every section has a result when the list is a queue. -/
theorem Queue.sectionsDefined {pool : Pool (Ticket P)} (h : Queue pool jobs) : SectionsDefined pool where
  work := by
    rcases h.workSection_spec with ⟨hwait, -⟩ | ⟨hexit, -⟩ | ⟨-, q, callback, rest, pool', -, htake, -⟩
    · exact Option.isSome_of_eq_some hwait
    · exact Option.isSome_of_eq_some hexit
    · exact Option.isSome_of_eq_some htake
  addJob := by
    intro callback pjob hfresh
    rcases h.addJobSection_spec callback pjob hfresh with
      ⟨hwait, -⟩ | ⟨hreject, -⟩ | ⟨q, pool', -, haccept, -⟩
    · exact Option.isSome_of_eq_some hwait
    · exact Option.isSome_of_eq_some hreject
    · exact Option.isSome_of_eq_some haccept

/-- A worker's node is still allocated, and it has left the queue. -/
theorem Inv.removedApart (h : Inv s jobs) : RemovedApart s (jobs.map Prod.fst) := by
  intro i q hq
  obtain ⟨t, howns⟩ := (h.worker i).owns hq
  refine ⟨isSome_of_callbackAt howns.callback, ?_⟩
  intro hmem
  obtain ⟨e, he, heq⟩ := List.mem_map.mp hmem
  exact h.owns_not_queued howns e he heq

variable [DecidableEq P] [DecidableEq D]

/-- In every reachable state the list, its ends and the counter agree, the nodes in use by workers are apart from
the list, and every section is defined. -/
theorem queue_wellFormed_between_sections {queueMaxNum : ℤ} (hmax : 1 ≤ queueMaxNum) {quota : P → ℕ}
    (h : Reachable queueMaxNum quota s) :
    (∃ nodes, WellFormedQueue s nodes ∧ RemovedApart s nodes) ∧ SectionsDefined s.pool := by
  obtain ⟨jobs, hinv⟩ := h.inv (by omega)
  exact ⟨⟨jobs.map Prod.fst, hinv.queue.wellFormedQueue, hinv.removedApart⟩, hinv.queue.sectionsDefined⟩

/-- Two jobs are in the queue and the third is in its callback, with a producer waiting for a place. -/
theorem queue_wellFormed_between_sections_full : ∃ s : State 1 (Fin 2) Unit,
    s.pool.mHead = some 16 ∧ s.pool.mTail = some 24 ∧ s.worker 0 = .running 8 ∧
      (s.producer 1).phase = .waiting ∧
      (∃ nodes, WellFormedQueue s nodes ∧ RemovedApart s nodes) ∧ SectionsDefined s.pool := by
  let labels : List (Label 1 (Fin 2) Unit) := [.addJob 0 (some 8), .addJob 1 (some 16), .work 0 (fun _ => false),
    .invoke 0, .addJob 0 (some 24), .addJob 1 none]
  have hrun : (Transition.replay (fun s label => s.check label) (State.new 1 Unit 2 fun _ => 2) labels).map
      (fun s => (s.pool.mHead, s.pool.mTail, s.worker 0, (s.producer 1).phase)) =
        some (some 16, some 24, .running 8, .waiting) := by decide
  obtain ⟨s, hrun, hs⟩ := Option.map_eq_some_iff.mp hrun
  simp only [Prod.mk.injEq] at hs
  obtain ⟨hhead, htail, hworker, hproducer⟩ := hs
  have hreach : Reachable 2 (fun _ => 2) s :=
    Transition.Reachable.replay (fun s _ _ => s.step_of_check) (.init rfl) hrun
  exact ⟨s, hhead, htail, hworker, hproducer, queue_wellFormed_between_sections (by decide) hreach⟩

end CppProject.ThreadPool
