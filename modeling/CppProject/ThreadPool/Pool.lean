import Mathlib.Logic.Function.Basic
import Mathlib.Data.Nat.Notation
import Mathlib.Data.Int.Notation

/-!
# The critical sections of the thread pool

The fields of `Threadpool` that its mutex protects, with the job nodes on the heap, and the code
between `pthread_mutex_lock` and the next wait or unlock of `ThreadPool_AddJob`, of
`ThreadPool_Destroy` and of the worker function. A section has no result if it follows a null
pointer or a pointer to no node. Jobs are opaque: a job stands for the callback and the argument
that were passed for it.
-/

namespace CppProject.ThreadPool

/-- Addresses of job nodes. -/
abbrev JobPtr := ℕ

/-- `struct job`: the callback with its argument, and the link. -/
structure Job (T : Type*) where
  callback : T
  next : Option JobPtr

/-- The queue and its flags. -/
structure Pool (T : Type*) where
  mQueueMaxNum : ℤ
  mHead : Option JobPtr
  mTail : Option JobPtr
  mCurQueueJobNum : ℤ
  mPoolIsClose : Bool
  heap : JobPtr → Option (Job T)

variable {T : Type*}

/-- The queue as `Init` leaves it. -/
def Pool.new (queueMaxNum : ℤ) : Pool T where
  mQueueMaxNum := queueMaxNum
  mHead := none
  mTail := none
  mCurQueueJobNum := 0
  mPoolIsClose := false
  heap := fun _ => none

/-- How a section of `ThreadPool_AddJob` ends: in `pthread_cond_wait`, with `-1`, or with `0` after
enqueuing, and then with or without a broadcast on `m_cond_QueueNotEmpty`. -/
inductive AddJobOutcome
  | wait
  | reject
  | accept (broadcastNotEmpty : Bool)

/-- `ThreadPool_AddJob`, from acquiring the mutex; `pjob` is what `malloc` returns if it is called. -/
def addJobSection (pool : Pool T) (callback : T) (pjob : Option JobPtr) : Option (AddJobOutcome × Pool T) :=
  if pool.mCurQueueJobNum = pool.mQueueMaxNum ∧ pool.mPoolIsClose = false then some (.wait, pool)
  else if pool.mPoolIsClose then some (.reject, pool)
  else match pjob with
    | none => some (.reject, pool)
    | some pjob =>
      let heap := Function.update pool.heap pjob (some ⟨callback, none⟩)
      match pool.mHead with
      | none => some (.accept true,
          { pool with heap := heap, mHead := some pjob, mTail := some pjob
                      mCurQueueJobNum := pool.mCurQueueJobNum + 1 })
      | some _ => pool.mTail.bind fun tail => (heap tail).map fun job => (.accept false,
          { pool with heap := Function.update heap tail (some { job with next := some pjob })
                      mTail := some pjob, mCurQueueJobNum := pool.mCurQueueJobNum + 1 })

/-- How a section of a worker ends: in `pthread_cond_wait`, in `pthread_exit`, or with a job, and
then with or without a signal on `m_cond_QueueEmpty` and a broadcast on `m_cond_QueueNotFull`. -/
inductive WorkOutcome
  | wait
  | exit
  | take (pjob : JobPtr) (signalEmpty broadcastNotFull : Bool)

/-- The loop body of `threadpoll_function`, from acquiring the mutex to releasing it. -/
def workSection (pool : Pool T) : Option (WorkOutcome × Pool T) :=
  if pool.mCurQueueJobNum = 0 ∧ pool.mPoolIsClose = false then some (.wait, pool)
  else if pool.mPoolIsClose then some (.exit, pool)
  else
    let mCurQueueJobNum := pool.mCurQueueJobNum - 1
    -- a null head is followed here or when its callback is called
    pool.mHead.bind fun pjob =>
      (if mCurQueueJobNum = 0 then some (none, none)
       else (pool.heap pjob).map fun job => (job.next, pool.mTail)).map fun (mHead, mTail) =>
        (.take pjob (decide (mCurQueueJobNum = 0)) (decide (mCurQueueJobNum = pool.mQueueMaxNum - 1)),
          { pool with mHead := mHead, mTail := mTail, mCurQueueJobNum := mCurQueueJobNum })

/-- How a section of `ThreadPool_Destroy` ends: with `0` because the pool was closed before, in
`pthread_cond_wait`, or with the pool closed. -/
inductive DestroyOutcome
  | refuse
  | wait
  | close

/-- `while (m_CurQueueJobNum != 0) wait; m_PoolIsClose = true`, from acquiring the mutex. -/
def destroyLoop (pool : Pool T) : DestroyOutcome × Pool T :=
  if pool.mCurQueueJobNum ≠ 0 then (.wait, pool) else (.close, { pool with mPoolIsClose := true })

/-- `ThreadPool_Destroy`, from acquiring the mutex for the first time. -/
def destroySection (pool : Pool T) : DestroyOutcome × Pool T :=
  if pool.mPoolIsClose then (.refuse, pool) else destroyLoop pool

/-- One round of `while (m_head != NULL)` at the end of `ThreadPool_Destroy`, with the freed node. -/
def freeHead (pool : Pool T) (mj : JobPtr) : Option (Pool T) :=
  (pool.heap mj).map fun job => { pool with mHead := job.next, heap := Function.update pool.heap mj none }

end CppProject.ThreadPool
