import CppProject.ThreadPool.System
import Mathlib.Data.List.Basic

/-!
# Initialising the thread pool

`Threadpool::Init` acquires a mutex, three condition variables, an array and the threads, one after the other.
It looks at every result but those of `pthread_create`, and it releases nothing when it fails.
-/

namespace CppProject.ThreadPool

/-- The results of the calls that `Init` makes: 0 for success, a pointer that is not null, and the thread that the
`i`-th `pthread_create` starts. -/
structure InitAnswers where
  mutexInit : ℤ
  condInitQueueEmpty : ℤ
  condInitQueueNotEmpty : ℤ
  condInitQueueNotFull : ℤ
  malloc : Bool
  create : ℕ → Option ℕ

/-- The object, with the entries of `m_pthreads` that have been assigned, what has been acquired and which threads
have been started for it, and the value returned. -/
structure InitResult (T : Type*) where
  mThreadnum : ℕ
  pool : Pool T
  mPthreads : ℕ → Option ℕ
  acquired : List Resource
  started : List ℕ
  ret : Bool

/-- `for (i = 0; i < m_threadnum; i++) pthread_create(...)`, from `i` for `rounds` rounds. -/
def createThreads (create : ℕ → Option ℕ) : ℕ → ℕ → (ℕ → Option ℕ) × List ℕ → (ℕ → Option ℕ) × List ℕ
  | 0, _, state => state
  | rounds + 1, i, (mPthreads, started) =>
    match create i with
    | none => createThreads create rounds (i + 1) (mPthreads, started)
    | some id => createThreads create rounds (i + 1) (Function.update mPthreads i (some id), id :: started)

/-- `Threadpool::Init(thread_num, queue_max_num)`. -/
def Threadpool.init (T : Type*) (threadNum : ℕ) (queueMaxNum : ℤ) (answers : InitAnswers) : InitResult T :=
  let result : InitResult T :=
    { mThreadnum := threadNum, pool := .new queueMaxNum, mPthreads := fun _ => none, acquired := [], started := []
      ret := false }
  if answers.mutexInit ≠ 0 then result
  else if answers.condInitQueueEmpty ≠ 0 then { result with acquired := [.mutex] }
  else if answers.condInitQueueNotEmpty ≠ 0 then { result with acquired := [.condQueueEmpty, .mutex] }
  else if answers.condInitQueueNotFull ≠ 0 then
    { result with acquired := [.condQueueNotEmpty, .condQueueEmpty, .mutex] }
  else
    let acquired := [.condQueueNotFull, .condQueueNotEmpty, .condQueueEmpty, .mutex]
    if answers.malloc = false then { result with acquired := acquired }
    else
      let (mPthreads, started) := createThreads answers.create threadNum 0 (fun _ => none, [])
      { result with mPthreads := mPthreads, acquired := .pthreads :: acquired, started := started, ret := true }

/-- True is returned only if every thread that `ThreadPool_Destroy` joins has been started and stored, and
otherwise nothing that was acquired is left. -/
structure AllOrNothing {T : Type*} (result : InitResult T) : Prop where
  started : result.ret = true → ∀ i < result.mThreadnum,
    ∃ id, result.mPthreads i = some id ∧ id ∈ result.started
  released : result.ret = false → result.acquired = [] ∧ result.started = []

/-- Every call up to the first `pthread_create` succeeds. -/
structure InitAnswers.Allocates (answers : InitAnswers) : Prop where
  mutexInit : answers.mutexInit = 0
  condInitQueueEmpty : answers.condInitQueueEmpty = 0
  condInitQueueNotEmpty : answers.condInitQueueNotEmpty = 0
  condInitQueueNotFull : answers.condInitQueueNotFull = 0
  malloc : answers.malloc = true

/-- Every call succeeds. -/
structure InitAnswers.AllSucceed (answers : InitAnswers) (threadNum : ℕ) : Prop extends answers.Allocates where
  create : ∀ i < threadNum, (answers.create i).isSome

variable {T : Type*} {answers : InitAnswers} {threadNum : ℕ} {queueMaxNum : ℤ}

/-- The loop assigns no entry below its counter. -/
theorem mPthreads_createThreads_of_lt (create : ℕ → Option ℕ) (rounds i : ℕ)
    (state : (ℕ → Option ℕ) × List ℕ) {j : ℕ} (hj : j < i) :
    (createThreads create rounds i state).1 j = state.1 j := by
  induction rounds generalizing i state with
  | zero => rfl
  | succ rounds ih =>
    rw [createThreads]
    split
    next => exact ih _ _ (by omega)
    next =>
      rw [ih _ _ (by omega)]
      exact Function.update_of_ne (by omega) _ _

/-- The entries that the loop visits hold what was started for them. -/
theorem mPthreads_createThreads (create : ℕ → Option ℕ) (rounds i : ℕ) (state : (ℕ → Option ℕ) × List ℕ)
    (hunset : ∀ j, i ≤ j → state.1 j = none) {j : ℕ} (hlow : i ≤ j) (hhigh : j < i + rounds) :
    (createThreads create rounds i state).1 j = create j := by
  induction rounds generalizing i state with
  | zero => omega
  | succ rounds ih =>
    rw [createThreads]
    split
    next hnone =>
      rcases Nat.eq_or_lt_of_le hlow with rfl | hlow
      · rw [mPthreads_createThreads_of_lt _ _ _ _ (Nat.lt_succ_self i), hnone]
        exact hunset i (Nat.le_refl i)
      · exact ih _ _ (fun k hk => hunset k (by omega)) hlow (by omega)
    next id hid =>
      rcases Nat.eq_or_lt_of_le hlow with rfl | hlow
      · rw [mPthreads_createThreads_of_lt _ _ _ _ (Nat.lt_succ_self i), hid]
        exact Function.update_self ..
      · refine ih _ _ (fun k hk => ?_) hlow (by omega)
        exact (Function.update_of_ne (by omega) _ _).trans (hunset k (by omega))

/-- A thread once started stays so. -/
theorem started_subset_createThreads (create : ℕ → Option ℕ) (rounds i : ℕ)
    (state : (ℕ → Option ℕ) × List ℕ) : state.2 ⊆ (createThreads create rounds i state).2 := by
  induction rounds generalizing i state with
  | zero => exact List.Subset.refl _
  | succ rounds ih =>
    rw [createThreads]
    split
    next => exact ih _ _
    next => exact List.Subset.trans (List.subset_cons_self ..) (ih _ (_, _))

/-- The threads that the loop starts. -/
theorem started_createThreads {create : ℕ → Option ℕ} {rounds i j id : ℕ}
    (state : (ℕ → Option ℕ) × List ℕ) (hlow : i ≤ j) (hhigh : j < i + rounds) (hid : create j = some id) :
    id ∈ (createThreads create rounds i state).2 := by
  induction rounds generalizing i state with
  | zero => omega
  | succ rounds ih =>
    rw [createThreads]
    rcases Nat.eq_or_lt_of_le hlow with rfl | hlow
    · rw [hid]
      exact started_subset_createThreads _ _ _ _ List.mem_cons_self
    · split
      next => exact ih _ hlow (by omega)
      next => exact ih _ hlow (by omega)

/-- Without a mutex nothing is acquired. -/
theorem init_of_mutexInit_ne (T : Type*) (threadNum : ℕ) (queueMaxNum : ℤ) (h : answers.mutexInit ≠ 0) :
    (Threadpool.init T threadNum queueMaxNum answers).ret = false ∧
      (Threadpool.init T threadNum queueMaxNum answers).acquired = [] ∧
      (Threadpool.init T threadNum queueMaxNum answers).started = [] := by
  unfold Threadpool.init
  rw [if_pos h]
  exact ⟨rfl, rfl, rfl⟩

/-- A failure of a condition variable or of `malloc` leaves the mutex acquired. -/
theorem init_of_not_allocates (T : Type*) (threadNum : ℕ) (queueMaxNum : ℤ) (hmutex : answers.mutexInit = 0)
    (h : ¬answers.Allocates) :
    (Threadpool.init T threadNum queueMaxNum answers).ret = false ∧
      .mutex ∈ (Threadpool.init T threadNum queueMaxNum answers).acquired := by
  unfold Threadpool.init
  rw [if_neg (not_not.mpr hmutex)]
  split
  next => exact ⟨rfl, by simp⟩
  split
  next => exact ⟨rfl, by simp⟩
  split
  next => exact ⟨rfl, by simp⟩
  dsimp only
  split
  next => exact ⟨rfl, by simp⟩
  next hempty hnotEmpty hnotFull hmalloc =>
    exact absurd ⟨hmutex, not_not.mp hempty, not_not.mp hnotEmpty, not_not.mp hnotFull, Bool.not_eq_false _ ▸ hmalloc⟩ h

/-- Behind the array true is returned, with the threads that have been started. -/
theorem init_of_allocates (T : Type*) (threadNum : ℕ) (queueMaxNum : ℤ) (h : answers.Allocates) :
    (Threadpool.init T threadNum queueMaxNum answers).ret = true ∧ ∀ i < threadNum,
      (Threadpool.init T threadNum queueMaxNum answers).mPthreads i = answers.create i ∧
        ∀ id, answers.create i = some id →
          id ∈ (Threadpool.init T threadNum queueMaxNum answers).started := by
  unfold Threadpool.init
  rw [if_neg (not_not.mpr h.mutexInit), if_neg (not_not.mpr h.condInitQueueEmpty),
    if_neg (not_not.mpr h.condInitQueueNotEmpty), if_neg (not_not.mpr h.condInitQueueNotFull)]
  simp only [h.malloc, Bool.true_eq_false, if_false, true_and]
  intro i hi
  refine ⟨mPthreads_createThreads _ _ _ _ (fun _ _ => rfl) (Nat.zero_le i) (by omega), ?_⟩
  intro id hid
  exact started_createThreads _ (Nat.zero_le i) (by omega) hid

/-- `Init` stores the number of threads, whatever fails. -/
theorem mThreadnum_init : (Threadpool.init T threadNum queueMaxNum answers).mThreadnum = threadNum := by
  unfold Threadpool.init
  repeat' split
  all_goals rfl

/-- Initialisation is all or nothing exactly if the mutex cannot be initialised, or nothing fails. -/
theorem allOrNothing_iff (T : Type*) (threadNum : ℕ) (queueMaxNum : ℤ) (answers : InitAnswers) :
    AllOrNothing (Threadpool.init T threadNum queueMaxNum answers) ↔
      answers.mutexInit ≠ 0 ∨ answers.AllSucceed threadNum := by
  by_cases hmutex : answers.mutexInit = 0
  case neg =>
    obtain ⟨hret, hacquired⟩ := init_of_mutexInit_ne T threadNum queueMaxNum hmutex
    exact iff_of_true ⟨fun htrue => absurd (hret.symm.trans htrue) nofun, fun _ => hacquired⟩ (Or.inl hmutex)
  by_cases hallocates : answers.Allocates
  case neg =>
    obtain ⟨hret, hmem⟩ := init_of_not_allocates T threadNum queueMaxNum hmutex hallocates
    refine iff_of_false ?_ (fun h => h.elim (absurd hmutex) fun h => hallocates h.toAllocates)
    intro h
    rw [(h.released hret).1] at hmem
    exact absurd hmem List.not_mem_nil
  obtain ⟨hret, hthreads⟩ := init_of_allocates T threadNum queueMaxNum hallocates
  constructor
  · intro h
    refine Or.inr ⟨hallocates, ?_⟩
    intro i hi
    obtain ⟨id, hid, -⟩ := h.started hret i (mThreadnum_init ▸ hi)
    rw [← (hthreads i hi).1, hid]
    rfl
  · intro h
    have hall := h.resolve_left (not_not.mpr hmutex)
    refine ⟨?_, fun hfalse => absurd (hret.symm.trans hfalse) nofun⟩
    intro _ i hi
    rw [mThreadnum_init] at hi
    obtain ⟨id, hid⟩ := Option.isSome_iff_exists.mp (hall.create i hi)
    obtain ⟨hstored, hthread⟩ := hthreads i hi
    exact ⟨id, hstored.trans hid, hthread id hid⟩

/-- The answers to `Init` when the first thread cannot be started. -/
def noThread : InitAnswers where
  mutexInit := 0
  condInitQueueEmpty := 0
  condInitQueueNotEmpty := 0
  condInitQueueNotFull := 0
  malloc := true
  create := fun _ => none

/-- One thread is asked for and not started, and true is returned. A failure of `malloc` leaves the mutex and the
condition variables. -/
theorem not_allOrNothing :
    ¬AllOrNothing (Threadpool.init Unit 1 5 noThread) ∧
      ¬AllOrNothing (Threadpool.init Unit 1 5 { noThread with malloc := false }) := by
  constructor
  · intro h
    obtain ⟨id, hid, -⟩ := h.started rfl 0 (by decide)
    exact absurd hid nofun
  · intro h
    exact absurd (h.released rfl).1 nofun

end CppProject.ThreadPool
