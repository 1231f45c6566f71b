import Mathlib.Data.Int.Notation
import Mathlib.Data.List.Nodup
import Mathlib.Data.Nat.Notation

/-!
# The free list of the connection pool

The counters and the free list of `DBPool`, its constructor and `Init`, and the code of `GetDBConn`
and `RelConn` under the lock of `m_free_notify`. A connection is an address, and `none` is the null
pointer, which `RelConn` accepts like any other. What `DBConn::Init` returns is an input.
-/

namespace CppProject.DBPool

/-- Addresses of connections. -/
abbrev ConnPtr := ℕ

/-- The fields that `GetDBConn` and `RelConn` use. -/
structure Pool where
  mDbCurConnCnt : ℤ
  mDbMaxConnCnt : ℤ
  mFreeList : List (Option ConnPtr)

/-- A `new DBConn(this)`, and what its `DBConn::Init` returns: zero for a connection. -/
structure Attempt where
  conn : ConnPtr
  ret : ℤ
  deriving DecidableEq

/-- `DBPool::DBPool`, which counts a connection before there is one. -/
def Pool.new (maxConn : ℤ) : Pool where
  mDbCurConnCnt := 1
  mDbMaxConnCnt := maxConn
  mFreeList := []

/-- `m_free_list.push_back`. -/
def Pool.pushBack (pool : Pool) (conn : Option ConnPtr) : Pool :=
  { pool with mFreeList := pool.mFreeList ++ [conn] }

/-- `DBPool::Init`, with its result: one connection is opened, and not counted. -/
def Pool.init (pool : Pool) (attempt : Attempt) : ℤ × Pool :=
  if attempt.ret ≠ 0 then (attempt.ret, pool) else (0, pool.pushBack (some attempt.conn))

/-- How a section of `GetDBConn` ends: in `m_free_notify.Wait`, or with a pointer. -/
inductive GetOutcome
  | wait
  | got (pconn : Option ConnPtr)

/-- `DBPool::GetDBConn`, from acquiring the lock to the next wait or unlock, with the calls of
`DBConn::Init` it makes; `attempt` is what opening a connection leads to. -/
def getDBConn (pool : Pool) (attempt : Attempt) : GetOutcome × Pool × List Attempt :=
  match pool.mFreeList with
  | pconn :: rest => (.got pconn, { pool with mFreeList := rest }, [])
  | [] =>
    if pool.mDbCurConnCnt ≥ pool.mDbMaxConnCnt then (.wait, pool, [])
    else if attempt.ret ≠ 0 then (.got none, pool, [attempt])
    else
      -- the pushed connection ends the loop and is popped
      (.got (some attempt.conn), { pool with mDbCurConnCnt := pool.mDbCurConnCnt + 1 }, [attempt])

/-- `DBPool::RelConn`, before its signal: a pointer that the list holds is not appended again. -/
def relConn (pool : Pool) (conn : Option ConnPtr) : Pool :=
  if conn ∈ pool.mFreeList then pool else pool.pushBack conn

/-- `RelConn` leaves the number of connections. -/
@[simp] theorem relConn_mDbCurConnCnt (pool : Pool) (conn : Option ConnPtr) :
    (relConn pool conn).mDbCurConnCnt = pool.mDbCurConnCnt := by
  unfold relConn
  split <;> rfl

/-- `RelConn` leaves the limit. -/
@[simp] theorem relConn_mDbMaxConnCnt (pool : Pool) (conn : Option ConnPtr) :
    (relConn pool conn).mDbMaxConnCnt = pool.mDbMaxConnCnt := by
  unfold relConn
  split <;> rfl

/-- A released pointer is on the list. -/
theorem mem_relConn {pool : Pool} {conn pconn : Option ConnPtr} :
    pconn ∈ (relConn pool conn).mFreeList ↔ pconn ∈ pool.mFreeList ∨ pconn = conn := by
  unfold relConn
  split
  · next hmem => exact ⟨Or.inl, fun h => h.elim id fun heq => heq ▸ hmem⟩
  · simp [Pool.pushBack]

/-- No pointer gets onto the list twice. -/
theorem relConn_nodup {pool : Pool} (h : pool.mFreeList.Nodup) (conn : Option ConnPtr) :
    (relConn pool conn).mFreeList.Nodup := by
  unfold relConn
  split
  · exact h
  · next hmem => exact List.nodup_append.mpr ⟨h, List.nodup_singleton _, fun a ha b hb heq =>
      hmem (by rwa [← List.mem_singleton.mp hb, ← heq])⟩

end CppProject.DBPool
