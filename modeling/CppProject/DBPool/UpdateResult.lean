import Mathlib.Data.UInt

/-!
# What the two update paths return

`UserTable::insertUser` executes a prepared statement, `UserTable::updateInfo` a plain one. The prepared path
finds out whether a row was affected and then returns true all the same. The plain path returns 0 where it
was successful, from a function of type `bool`.
-/

namespace CppProject.DBPool

/-- Where a statement can fail. -/
inductive Stage where
  | stmtInit
  | prepare
  | bind
  | execute
  deriving DecidableEq

/-- What the database makes of a statement. -/
inductive Outcome where
  | failed (stage : Stage)
  | executed (rows : UInt64)
  deriving DecidableEq

namespace Outcome

/-- The calls of the library for a prepared statement return a null pointer or an error code at the stage that
fails. -/
def failsAt (outcome : Outcome) (stage : Stage) : Bool := outcome = .failed stage

/-- `mysql_real_query` goes through all stages. -/
def mysqlRealQueryFails : Outcome → Bool
  | .failed _ => true
  | .executed _ => false

/-- `mysql_affected_rows` and `mysql_stmt_affected_rows`. After an error it is `(my_ulonglong)-1`. -/
def affectedRows : Outcome → UInt64
  | .failed _ => -1
  | .executed rows => rows

/-- The statement was executed and affected a row. -/
def Succeeds : Outcome → Prop
  | .failed _ => False
  | .executed rows => 0 < rows

instance decidableSucceeds : (outcome : Outcome) → Decidable outcome.Succeeds
  | .failed _ => inferInstanceAs (Decidable False)
  | .executed rows => inferInstanceAs (Decidable (0 < rows))

end Outcome

/-- The result of `PrepareStatement::Init`. -/
def PrepareStatement.initRet (outcome : Outcome) : Bool :=
  if outcome.failsAt .stmtInit then false
  else if outcome.failsAt .prepare then false
  else true

/-- `PrepareStatement::ExecuteUpdate`. -/
def PrepareStatement.executeUpdate (outcome : Outcome) : Bool :=
  if outcome.failsAt .stmtInit then false
  else if outcome.failsAt .bind then false
  else if outcome.failsAt .execute then false
  else if outcome.affectedRows = 0 then false
  else true

/-- `DBConn::ExecuteUpdate`. -/
def DBConn.executeUpdate (outcome : Outcome) (careAffectedRows : Bool) : Bool :=
  if outcome.mysqlRealQueryFails then false
  -- `return 0`
  else if outcome.affectedRows > 0 then false
  else if careAffectedRows then false
  else true

/-- `UserTable::insertUser`: what it returns, and the id it prints. -/
def UserTable.insertUser (outcome : Outcome) (insertId : UInt32) : Bool × Option UInt32 :=
  let bRet := if PrepareStatement.initRet outcome then PrepareStatement.executeUpdate outcome else false
  (true, if bRet && insertId % 300 == 0 then some insertId else none)

/-- The result of `UserTable::updateInfo`, with the default of `care_affected_rows`. -/
def UserTable.updateInfoRet (outcome : Outcome) : Bool := DBConn.executeUpdate outcome true

/-- Both paths return true exactly for a statement that succeeds, and so the same. -/
structure UpdatesAgree (outcome : Outcome) (insertId : UInt32) : Prop where
  insertUser : (UserTable.insertUser outcome insertId).1 = true ↔ outcome.Succeeds
  updateInfo : UserTable.updateInfoRet outcome = true ↔ outcome.Succeeds
  same : (UserTable.insertUser outcome insertId).1 = UserTable.updateInfoRet outcome

variable {outcome : Outcome} {insertId : UInt32}

/-- A plain statement is reported as done only if it affected no row and nobody cares. -/
theorem DBConn.executeUpdate_iff (outcome : Outcome) (careAffectedRows : Bool) :
    DBConn.executeUpdate outcome careAffectedRows = true ↔ outcome = .executed 0 ∧ careAffectedRows = false := by
  cases outcome with
  | failed stage => simp [DBConn.executeUpdate, Outcome.mysqlRealQueryFails]
  | executed rows =>
    simp only [DBConn.executeUpdate, Outcome.mysqlRealQueryFails, Outcome.affectedRows]
    by_cases hrows : rows = 0
    · simp [hrows]
    · simp [hrows, UInt64.pos_iff_ne_zero]

/-- `updateInfo` returns false, whatever has happened. -/
theorem updateInfoRet_eq_false (outcome : Outcome) : UserTable.updateInfoRet outcome = false :=
  Bool.eq_false_iff.mpr fun htrue => absurd ((DBConn.executeUpdate_iff outcome true).mp htrue).2 nofun

/-- The paths agree on no outcome: `insertUser` is right for the statements that succeed, and `updateInfo` is
right for the others. -/
theorem not_updatesAgree (outcome : Outcome) (insertId : UInt32) :
    ¬UpdatesAgree outcome insertId ∧
      (((UserTable.insertUser outcome insertId).1 = true ↔ outcome.Succeeds) ↔ outcome.Succeeds) ∧
      ((UserTable.updateInfoRet outcome = true ↔ outcome.Succeeds) ↔ ¬outcome.Succeeds) := by
  have hinsert : (UserTable.insertUser outcome insertId).1 = true := rfl
  have hupdate := updateInfoRet_eq_false outcome
  refine ⟨?_, ?_, ?_⟩
  · intro hagree
    have hsame := hagree.same
    rw [hinsert, hupdate] at hsame
    exact absurd hsame nofun
  · rw [hinsert, eq_self_iff_true, true_iff]
  · rw [hupdate, Bool.false_eq_true, false_iff]

/-- One row is updated and one inserted, and no row is inserted. -/
theorem not_updatesAgree_one :
    UserTable.updateInfoRet (.executed 1) = false ∧ (UserTable.insertUser (.failed .execute) 0).1 = true ∧
      ¬UpdatesAgree (.executed 1) 300 := by
  refine ⟨by decide, by decide, ?_⟩
  intro hagree
  exact absurd hagree.same (by decide)

end CppProject.DBPool
