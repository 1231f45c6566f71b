import CppProject.ThreadPool.Pool
import CppProject.Lib.PointerChain

/-!
# The job queue

`Queue pool jobs` says that the linked list from `m_head` is the sequence of the given jobs, with
`m_tail` and the counter to match. Under it no section follows a null pointer, an accepted job
goes to the end of the sequence, and a worker takes the front.
-/

namespace CppProject.ThreadPool

open PointerChain

variable {T : Type*} {pool pool' : Pool T} {jobs : List (JobPtr × T)}

/-- The callback of the node at an address. -/
def callbackAt (heap : JobPtr → Option (Job T)) (p : JobPtr) : Option T := (heap p).map Job.callback

/-- The link of the node at an address. -/
def nextAt (heap : JobPtr → Option (Job T)) (p : JobPtr) : Option JobPtr := (heap p).bind Job.next

/-- The list from `m_head` holds the given jobs. -/
structure Queue (pool : Pool T) (jobs : List (JobPtr × T)) : Prop where
  chain : Chain (nextAt pool.heap) pool.mHead (jobs.map Prod.fst)
  tail : pool.mTail = (jobs.map Prod.fst).getLast?
  count : pool.mCurQueueJobNum = jobs.length
  nodes : ∀ e ∈ jobs, callbackAt pool.heap e.1 = some e.2
  bound : pool.mCurQueueJobNum ≤ pool.mQueueMaxNum

/-- A job was appended: `q` is a new node, and no other node has another callback than before. -/
structure Pushed (pool pool' : Pool T) (q : JobPtr) (callback : T) : Prop where
  max : pool'.mQueueMaxNum = pool.mQueueMaxNum
  closed : pool'.mPoolIsClose = pool.mPoolIsClose
  unused : pool.heap q = none
  self : callbackAt pool'.heap q = some callback
  others : ∀ p, p ≠ q → callbackAt pool'.heap p = callbackAt pool.heap p

/-- The front job was removed, with its node still on the heap. -/
structure Popped (pool pool' : Pool T) : Prop where
  max : pool'.mQueueMaxNum = pool.mQueueMaxNum
  closed : pool'.mPoolIsClose = pool.mPoolIsClose
  heap : pool'.heap = pool.heap

/-- An append keeps the callback of every node on the heap: the new node's address was unused. -/
theorem Pushed.callbackAt_eq {q p : JobPtr} {callback t : T} (hpush : Pushed pool pool' q callback)
    (ht : callbackAt pool.heap p = some t) : callbackAt pool'.heap p = some t := by
  have hpq : p ≠ q := fun heq => by
    rw [heq, callbackAt, hpush.unused] at ht
    exact absurd ht (by simp)
  rw [hpush.others p hpq]
  exact ht

namespace Queue

/-- The counter alone decides emptiness. -/
theorem count_eq_zero (h : Queue pool jobs) : pool.mCurQueueJobNum = 0 ↔ jobs = [] := by
  rw [h.count, Int.natCast_eq_zero, List.length_eq_zero_iff]

/-- The head is the first job. -/
theorem head_eq (h : Queue pool jobs) : pool.mHead = (jobs.map Prod.fst).head? := h.chain.head?_eq

/-- The nodes of the queue are on the heap. -/
theorem ne_of_unused (h : Queue pool jobs) {q : JobPtr} (hq : pool.heap q = none) :
    ∀ e ∈ jobs, e.1 ≠ q := fun e he heq => by
  have hnode := h.nodes e he
  rw [heq, callbackAt, hq] at hnode
  exact absurd hnode (by simp)

/-- The jobs after an append. -/
theorem nodes_pushed (h : Queue pool jobs) {q : JobPtr} {callback : T}
    (hpush : Pushed pool pool' q callback) :
    ∀ e ∈ jobs ++ [(q, callback)], callbackAt pool'.heap e.1 = some e.2 := by
  intro e he
  rcases List.mem_append.mp he with he | he
  · exact hpush.callbackAt_eq (h.nodes e he)
  · rw [List.mem_singleton.mp he]
    exact hpush.self

/-- Linking a new node behind the last one. -/
theorem push_back {front : List (JobPtr × T)} {last : JobPtr × T} (h : Queue pool (front ++ [last]))
    {q : JobPtr} {callback : T} {job : Job T} (hunused : pool.heap q = none)
    (hjob : pool.heap last.1 = some job) (hroom : pool.mCurQueueJobNum < pool.mQueueMaxNum)
    (hheap : pool'.heap = Function.update (Function.update pool.heap q (some ⟨callback, none⟩)) last.1
      (some { job with next := some q }))
    (hhead : pool'.mHead = pool.mHead) (htail : pool'.mTail = some q)
    (hcount : pool'.mCurQueueJobNum = pool.mCurQueueJobNum + 1)
    (hmax : pool'.mQueueMaxNum = pool.mQueueMaxNum) (hclosed : pool'.mPoolIsClose = pool.mPoolIsClose) :
    Pushed pool pool' q callback ∧ Queue pool' (front ++ [last] ++ [(q, callback)]) := by
  have hne := h.ne_of_unused hunused
  have hlast : last.1 ≠ q := hne last (by simp)
  have hpush : Pushed pool pool' q callback := by
    refine ⟨hmax, hclosed, hunused, ?_, fun p hp => ?_⟩
    · simp [callbackAt, hheap, Function.update_of_ne hlast.symm]
    · by_cases hpl : p = last.1
      · simp [callbackAt, hheap, hpl, hjob]
      · simp [callbackAt, hheap, Function.update_of_ne hpl, Function.update_of_ne hp]
  refine ⟨hpush, ?_, by simp [htail], ?_, h.nodes_pushed hpush, by omega⟩
  · -- The last node's link was null, as is that of the new one.
    have hchain := h.chain
    rw [List.map_append, List.map_singleton] at hchain
    have hend : (pool.heap last.1).bind Job.next = none := hchain.next_eq
    have hfresh : q ∉ front.map Prod.fst ++ [last.1] := fun hmem => by
      rw [← List.map_singleton, ← List.map_append] at hmem
      obtain ⟨e, he, heq⟩ := List.mem_map.mp hmem
      exact hne e he heq
    have hlink := hchain.link hfresh
    rw [hhead, List.map_append, List.map_append, List.append_assoc]
    refine hlink.congr fun p _ => ?_
    by_cases hpl : p = last.1
    · simp [nextAt, hheap, hpl]
    · by_cases hpq : p = q
      · simp [nextAt, hheap, hpq, Function.update_of_ne hlast.symm, hend]
      · simp [nextAt, hheap, Function.update_of_ne hpl, Function.update_of_ne hpq]
  · rw [hcount, h.count]
    simp only [List.length_append, List.length_singleton]
    omega

/-- A section of `ThreadPool_AddJob` waits, rejects, or appends. -/
theorem addJobSection_spec (h : Queue pool jobs) (callback : T) (pjob : Option JobPtr)
    (hfresh : ∀ q, pjob = some q → pool.heap q = none) :
    (addJobSection pool callback pjob = some (.wait, pool) ∧ pool.mPoolIsClose = false ∧
        pool.mCurQueueJobNum = pool.mQueueMaxNum) ∨
      (addJobSection pool callback pjob = some (.reject, pool) ∧
        (pool.mPoolIsClose = true ∨ pjob = none)) ∨
      ∃ q pool', pjob = some q ∧
        addJobSection pool callback pjob = some (.accept jobs.isEmpty, pool') ∧
        pool.mPoolIsClose = false ∧ pool.mCurQueueJobNum < pool.mQueueMaxNum ∧
        Pushed pool pool' q callback ∧ Queue pool' (jobs ++ [(q, callback)]) := by
  unfold addJobSection
  by_cases hwait : pool.mCurQueueJobNum = pool.mQueueMaxNum ∧ pool.mPoolIsClose = false
  · exact Or.inl ⟨if_pos hwait, hwait.2, hwait.1⟩
  rw [if_neg hwait]
  by_cases hclosed : pool.mPoolIsClose = true
  · exact Or.inr (Or.inl ⟨if_pos hclosed, Or.inl hclosed⟩)
  rw [if_neg hclosed]
  have hopen : pool.mPoolIsClose = false := Bool.eq_false_iff.mpr hclosed
  have hroom : pool.mCurQueueJobNum < pool.mQueueMaxNum :=
    lt_of_le_of_ne h.bound fun heq => hwait ⟨heq, hopen⟩
  cases pjob with
  | none => exact Or.inr (Or.inl ⟨rfl, Or.inr rfl⟩)
  | some q =>
    have hunused := hfresh q rfl
    refine Or.inr (Or.inr ?_)
    rcases List.eq_nil_or_concat jobs with rfl | ⟨front, last, rfl⟩
    · have hhead : pool.mHead = none := h.head_eq
      simp only [hhead]
      refine ⟨q, _, rfl, rfl, hopen, hroom, ⟨rfl, rfl, hunused, by simp [callbackAt], fun p hp => ?_⟩,
        ⟨⟨rfl, by simp [nextAt]⟩, rfl, ?_, by simp [callbackAt], by simp only; omega⟩⟩
      · simp [callbackAt, Function.update_of_ne hp]
      · simp [h.count]
    · rw [List.concat_eq_append] at h ⊢
      obtain ⟨first, hhead⟩ : ∃ first, pool.mHead = some first := by
        rw [h.head_eq, ← Option.isSome_iff_exists]
        simp
      have htail : pool.mTail = some last.1 := by rw [h.tail]; simp
      obtain ⟨job, hjob, -⟩ := Option.map_eq_some_iff.mp (h.nodes last (by simp))
      have hlast : last.1 ≠ q := h.ne_of_unused hunused last (by simp)
      simp only [hhead, htail, Option.bind_some, Function.update_of_ne hlast, hjob, Option.map_some]
      have hempty : (front ++ [last]).isEmpty = false := by simp
      rw [hempty]
      let pool' : Pool T := { pool with
        heap := Function.update (Function.update pool.heap q (some ⟨callback, none⟩)) last.1
          (some { job with next := some q })
        mHead := some first, mTail := some q, mCurQueueJobNum := pool.mCurQueueJobNum + 1 }
      obtain ⟨hpush, hqueue⟩ : Pushed pool pool' q callback ∧
          Queue pool' (front ++ [last] ++ [(q, callback)]) :=
        h.push_back hunused hjob hroom rfl hhead.symm rfl rfl rfl rfl
      exact ⟨q, pool', rfl, rfl, hopen, hroom, hpush, hqueue⟩

/-- A section of a worker waits, exits, or takes the front. -/
theorem workSection_spec (h : Queue pool jobs) :
    (workSection pool = some (.wait, pool) ∧ pool.mPoolIsClose = false ∧ jobs = []) ∨
      (workSection pool = some (.exit, pool) ∧ pool.mPoolIsClose = true) ∨
      (pool.mPoolIsClose = false ∧ ∃ q callback rest pool', jobs = (q, callback) :: rest ∧
        workSection pool = some (.take q rest.isEmpty
          (decide (pool'.mCurQueueJobNum = pool.mQueueMaxNum - 1)), pool') ∧
        pool'.mCurQueueJobNum = pool.mCurQueueJobNum - 1 ∧ Popped pool pool' ∧ Queue pool' rest) := by
  unfold workSection
  by_cases hwait : pool.mCurQueueJobNum = 0 ∧ pool.mPoolIsClose = false
  · exact Or.inl ⟨if_pos hwait, hwait.2, h.count_eq_zero.mp hwait.1⟩
  rw [if_neg hwait]
  by_cases hclosed : pool.mPoolIsClose = true
  · exact Or.inr (Or.inl ⟨if_pos hclosed, hclosed⟩)
  rw [if_neg hclosed]
  have hopen : pool.mPoolIsClose = false := Bool.eq_false_iff.mpr hclosed
  refine Or.inr (Or.inr ⟨hopen, ?_⟩)
  cases jobs with
  | nil => exact absurd ⟨h.count_eq_zero.mpr rfl, hopen⟩ hwait
  | cons first rest =>
    obtain ⟨q, callback⟩ := first
    have hhead : pool.mHead = some q := h.head_eq
    have hnodes := List.forall_mem_cons.mp h.nodes
    have hbound := h.bound
    have hcount : pool.mCurQueueJobNum = rest.length + 1 := by rw [h.count]; simp
    obtain ⟨job, hjob, -⟩ := Option.map_eq_some_iff.mp hnodes.1
    have hlink : job.next = (rest.map Prod.fst).head? := by
      have hnext := h.chain.2.head?_eq
      rwa [nextAt, hjob, Option.bind_some] at hnext
    simp only [hhead, Option.bind_some]
    by_cases hlast : pool.mCurQueueJobNum - 1 = 0
    · obtain rfl : rest = [] := List.length_eq_zero_iff.mp (by omega)
      rw [if_pos hlast, Option.map_some, decide_eq_true hlast]
      exact ⟨q, callback, [], { pool with
          mHead := none, mTail := none, mCurQueueJobNum := pool.mCurQueueJobNum - 1 },
        rfl, rfl, rfl, ⟨rfl, rfl, rfl⟩, ⟨rfl, rfl, hlast, by simp, by simp only; omega⟩⟩
    · have hne : rest ≠ [] := fun hnil => hlast (by simp [hnil, hcount])
      rw [if_neg hlast, hjob, Option.map_some, Option.map_some, decide_eq_false hlast]
      refine ⟨q, callback, rest, { pool with
          mHead := job.next, mCurQueueJobNum := pool.mCurQueueJobNum - 1 },
        rfl, ?_, rfl, ⟨rfl, rfl, rfl⟩, ⟨?_, ?_, by simp only; omega, hnodes.2, by simp only; omega⟩⟩
      · rw [List.isEmpty_eq_false_iff.mpr hne]
      · have hrest := h.chain.2
        rwa [nextAt, hjob, Option.bind_some] at hrest
      · have htail := h.tail
        rwa [List.map_cons, List.getLast?_cons_of_ne_nil (by simpa using hne)] at htail

end Queue

end CppProject.ThreadPool
