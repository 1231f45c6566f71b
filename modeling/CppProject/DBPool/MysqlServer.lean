import CppProject.DBPool.PrepareStatement
import CppProject.DBPool.ResultSet
import CppProject.DBPool.UpdateResult

/-!
# The MySQL server

The server is no part of the program, so it is a parameter here: the calls of its client library, on states of any
type. `contents` says what a state holds: the row of `IMUser` under each identifier, its primary key. What is relied on
is stated for each of the three statements the program sends, as an assumption of its own. A store of rows meets all
three, with any engine for its columns.
-/

namespace CppProject.DBPool

open Sql CString

/-- The calls of the client library that reach a server whose states are of type `σ`. -/
structure Mysql (σ : Type*) where
  /-- `mysql_real_query` with `mysql_store_result`: the names of the fields and the rows of a result, and the state. -/
  realQuery : σ → List UInt8 → Option (List (List UInt8) × List MysqlRow) × σ
  /-- `mysql_stmt_prepare` with `mysql_stmt_param_count`. -/
  stmtPrepare : σ → List UInt8 → Option UInt32
  /-- `mysql_stmt_execute` with `mysql_stmt_insert_id`: the outcome for a text and the values read of its parameters,
  the identifier of a row that is added, and the state. -/
  stmtExecute : σ → List UInt8 → List Datum → Outcome × UInt32 × σ

variable {σ : Type*} {mysql : Mysql σ} {s : σ} {id : UInt32}

/-- `DBConn::ExecuteQuery`. The text ends at its first zero byte. -/
def executeQuery (mysql : Mysql σ) (s : σ) (sql_query : List UInt8) : Option ResultSet :=
  (mysql.realQuery s (untilZero sql_query)).1.map fun result => .new result.1 result.2

/-- The server after `DBConn::ExecuteUpdate`. The text ends at its first zero byte. -/
def executeUpdate (mysql : Mysql σ) (s : σ) (sql_query : List UInt8) : σ := (mysql.realQuery s (untilZero sql_query)).2

/-! ## The table -/

/-- The columns of `CREATE_IMUSER_TABLE`. -/
def imUser : List Column :=
  [⟨ascii "id", .unsigned 32, false⟩, ⟨ascii "sex", .unsigned 8, false⟩, ⟨ascii "name", .varchar 32, false⟩,
    ⟨ascii "domain", .varchar 32, false⟩, ⟨ascii "nick", .varchar 32, false⟩, ⟨ascii "password", .varchar 32, false⟩,
    ⟨ascii "salt", .varchar 4, false⟩, ⟨ascii "phone", .varchar 11, false⟩, ⟨ascii "email", .varchar 64, false⟩,
    ⟨ascii "company", .varchar 64, false⟩, ⟨ascii "address", .varchar 64, false⟩, ⟨ascii "avatar", .varchar 255, true⟩,
    ⟨ascii "validateMethod", .unsigned 8, true⟩, ⟨ascii "departId", .unsigned 32, false⟩,
    ⟨ascii "status", .unsigned 8, true⟩, ⟨ascii "created", .unsigned 32, false⟩, ⟨ascii "updated", .unsigned 32, false⟩,
    ⟨ascii "push_shield_status", .unsigned 8, false⟩, ⟨ascii "sign_info", .varchar 128, false⟩]

/-- The names of the columns, as the fields of `select *`. -/
def fieldNames : List (List UInt8) := imUser.map Column.name

/-- The columns have different names. -/
theorem imUser_names : (imUser.map Column.name).Nodup := by decide

/-- Every column that `queryUser` asks for is one of them. -/
theorem queried_imUser : ∀ key ∈ queried, key ∈ fieldNames := by decide

/-- The identifier, and the defaults of the other columns. -/
def defaultRow (id : UInt32) : Row := fun column =>
  if column = ascii "id" then some (decimal id.toNat)
  else if column = ascii "validateMethod" ∨ column = ascii "departId" then some (decimal 1)
  else if (imUser.find? fun other => other.name == column).any fun other => other.type = .unsigned 8 ∨
    other.type = .unsigned 32 then some (decimal 0)
  else some []

/-! ## The insert -/

/-- The text `strSql` of `insertUser`. -/
def insertSql : List UInt8 :=
  ascii "insert into IMUser(`salt`,`sex`,`nick`,`password`,`domain`,`name`,`phone`,`email`,`company`,`address`,"
    ++ ascii "`avatar`,`sign_info`,`departId`,`status`,`created`,`updated`) values(?,?,?,?,?,?,?,?,?,?,?,?,?,?,?,?)"

/-- The columns it names. -/
def insertColumns : List (List UInt8) :=
  [ascii "salt", ascii "sex", ascii "nick", ascii "password", ascii "domain", ascii "name", ascii "phone",
    ascii "email", ascii "company", ascii "address", ascii "avatar", ascii "sign_info", ascii "departId",
    ascii "status", ascii "created", ascii "updated"]

/-- No column is named twice. -/
theorem nodup_insertColumns : insertColumns.Nodup := by decide +kernel

/-- The question marks of a text. -/
def parameters (text : List UInt8) : UInt32 := UInt32.ofNat (text.count 63)

/-- What a column makes of the value of a parameter. -/
def storedDatum (engine : Engine) (type : ColumnType) : Datum → Option (List UInt8)
  | .number (.ofNat n) => engine.stored type (.number n)
  | .number (.negSucc n) => engine.below type n
  | .text bytes => engine.stored type (.text bytes)

/-- The cell that the value of a parameter makes. -/
def datumCell (engine : Engine) (value : List UInt8 × Datum) : Option (List UInt8) :=
  (imUser.find? fun column => column.name == value.1).bind fun column => storedDatum engine column.type value.2

/-- The value of a parameter, for a column of the table. -/
theorem datumCell_of_mem {engine : Engine} (column : Column) (hcolumn : column ∈ imUser) (datum : Datum) :
    datumCell engine (column.name, datum) = storedDatum engine column.type datum := by
  rw [datumCell, find?_name imUser_names hcolumn, Option.bind_some]

/-! ## What the statements do -/

section Assumptions

variable (mysql : Mysql σ) (engine : Engine) (contents : σ → UInt32 → Option Row)

/-- The SELECT of `queryUser` has the row of the identifier for its result, if there is one. -/
structure Selects : Prop where
  result : ∀ s id, (mysql.realQuery s (querySql id)).1 =
    some (fieldNames, (contents s id).toList.map fun row => fieldNames.map row)
  id : ∀ s id, ∀ row ∈ contents s id, row (ascii "id") = some (decimal id.toNat)

/-- The columns assigned have the cells made of their values, and the others are as before. -/
structure Updated (assignments : List (List UInt8 × Value)) (before after : Row) : Prop where
  assigned : ∀ assignment ∈ assignments, after assignment.1 = engine.cell imUser assignment
  others : ∀ column ∉ assignments.map Prod.fst, after column = before column

/-- An UPDATE of the row of an identifier: where the columns take all values, that row is updated, if it is there, and
no other. On an empty table no UPDATE does anything. -/
structure Updates : Prop where
  taken : ∀ s text u id, readUpdate text = some u → u.table = ascii "IMUser" → u.whereColumn = ascii "id" →
    u.whereValue = .number id.toNat → (u.assignments.map Prod.fst).Nodup →
    ascii "id" ∉ u.assignments.map Prod.fst →
    (∀ assignment ∈ u.assignments, (engine.cell imUser assignment).isSome) →
    Option.Rel (Updated engine u.assignments) (contents s id) (contents (mysql.realQuery s text).2 id) ∧
      ∀ other ≠ id, contents (mysql.realQuery s text).2 other = contents s other
  empty : ∀ s text, ascii "update " <+: text → (∀ id, contents s id = none) →
    ∀ id, contents (mysql.realQuery s text).2 id = none

/-- The values make a row under a new identifier, with the defaults in the columns that are not named. -/
structure Adds (s : σ) (data : List Datum) (id : UInt32) (next : σ) : Prop where
  execute : mysql.stmtExecute s insertSql data = (.executed 1, id, next)
  fresh : contents s id = none
  others : ∀ other ≠ id, contents next other = contents s other
  row : ∃ row, contents next id = some row ∧
    (∀ value ∈ insertColumns.zip data, row value.1 = datumCell engine value) ∧
    ∀ column ∉ insertColumns, row column = defaultRow id column

/-- The statement fails, and the rows are as before. -/
structure Fails (s : σ) (data : List Datum) (id : UInt32) (next : σ) : Prop where
  execute : mysql.stmtExecute s insertSql data = (.failed .execute, id, next)
  same : contents next = contents s

/-- The INSERT of `insertUser` has a parameter for each question mark. Where a column does not take its value the
statement fails; where all are taken it adds a row, or fails for a reason of its own, such as no identifier being
left. -/
structure Inserts : Prop where
  prepare : ∀ s, mysql.stmtPrepare s insertSql = some (parameters insertSql)
  taken : ∀ s data, data.length = insertColumns.length →
    (∀ value ∈ insertColumns.zip data, (datumCell engine value).isSome) →
    ∃ id next, Adds mysql engine contents s data id next ∨ Fails mysql contents s data id next
  refused : ∀ s data, data.length = insertColumns.length →
    (∃ value ∈ insertColumns.zip data, datumCell engine value = none) →
    ∃ id next, Fails mysql contents s data id next

end Assumptions

/-- What `queryUser` finds is the row under the identifier. -/
theorem Selects.queryUser {contents : σ → UInt32 → Option Row} (h : Selects mysql contents) (u : UserRecord) (s : σ)
    (id : UInt32) : u.queryUser (executeQuery mysql s (querySql id)) =
      (contents s id).elim (some (false, u)) fun row => (u.ofRow row).map fun u => (true, u) := by
  rw [executeQuery, untilZero_of_not_mem (zero_not_mem_querySql id), h.result, Option.map_some,
    u.queryUser_new queried_imUser]
  cases contents s id <;> rfl

/-! ## A store of rows -/

/-- Rows under their identifiers, and the identifier that is assigned next. -/
structure Store where
  rows : UInt32 → Option Row
  next : UInt32

namespace Store

/-- What the store holds; the identifier of a row is where the row is. -/
def contents (store : Store) (id : UInt32) : Option Row :=
  (store.rows id).map fun row => Function.update row (ascii "id") (some (decimal id.toNat))

/-- The identifier in the text of `queryUser`. -/
def selected (text : List UInt8) : UInt32 :=
  UInt32.ofNat (number (text.drop (ascii "select * from IMUser where id=").length))

/-- An update of one row, which is carried out as a whole or not at all. -/
def update (engine : Engine) (store : Store) (u : Update) : Store :=
  match u.whereValue with
  | .number n =>
    if u.table = ascii "IMUser" ∧ u.whereColumn = ascii "id" then
      { store with
        rows := Function.update store.rows (UInt32.ofNat n) ((store.rows (UInt32.ofNat n)).map fun row =>
          (row.fill (engine.cell imUser) u.assignments).getD row) }
    else store
  | .text _ => store

/-- A row under the next identifier, if that is free and the columns take all values. -/
def insert (engine : Engine) (store : Store) (data : List Datum) : Outcome × UInt32 × Store :=
  match store.rows store.next, (defaultRow store.next).fill (datumCell engine) (insertColumns.zip data) with
  | none, some row =>
    (.executed 1, store.next, ⟨Function.update store.rows store.next (some row), store.next + 1⟩)
  | _, _ => (.failed .execute, 0, store)

end Store

/-- A server that keeps a store. -/
def Mysql.store (engine : Engine) : Mysql Store where
  realQuery := fun store text =>
    (if text = querySql (Store.selected text) then
        some (fieldNames, (store.contents (Store.selected text)).toList.map fun row => fieldNames.map row)
      else none,
      (readUpdate text).elim store (store.update engine))
  stmtPrepare := fun _ text => some (parameters text)
  stmtExecute := fun store text data =>
    if text = insertSql then store.insert engine data else (.failed .execute, 0, store)

variable {engine : Engine}

/-- The identifier is read back from the text. -/
theorem Store.selected_querySql (id : UInt32) : Store.selected (querySql id) = id := by
  rw [Store.selected, querySql, List.drop_left, int2string, number_decimal]
  exact UInt32.ofNat_toNat

/-- An update of the row of an identifier. -/
theorem Store.update_of_id (engine : Engine) (store : Store) {u : Update} (htable : u.table = ascii "IMUser")
    (hcolumn : u.whereColumn = ascii "id") (hvalue : u.whereValue = .number id.toNat) :
    (store.update engine u).rows = Function.update store.rows id ((store.rows id).map fun row =>
      (row.fill (engine.cell imUser) u.assignments).getD row) := by
  rw [Store.update, hvalue]
  simp only [UInt32.ofNat_toNat, if_pos (And.intro htable hcolumn)]

/-- An update of an empty store. -/
theorem Store.rows_update_none {store : Store} (hempty : ∀ id, store.rows id = none) (u : Update) (id : UInt32) :
    (store.update engine u).rows id = none := by
  rw [Store.update]
  split
  · split
    · simp only [hempty, Option.map_none, Function.update_apply, ite_self]
    · exact hempty id
  · exact hempty id

/-- The store finds a row by its identifier. -/
theorem Mysql.store_selects (engine : Engine) : Selects (Mysql.store engine) Store.contents where
  result := fun store id => by
    change (if querySql id = querySql (Store.selected (querySql id)) then _ else none) = _
    rw [Store.selected_querySql, if_pos rfl]
  id := fun store id row hrow => by
    obtain ⟨old, -, rfl⟩ := Option.map_eq_some_iff.mp hrow
    exact Function.update_self ..

/-- The store updates a row by its identifier. -/
theorem Mysql.store_updates (engine : Engine) : Updates (Mysql.store engine) engine Store.contents where
  taken := fun store text u id hread htable hcolumn hvalue hnodup hid htaken => by
    have hstate : ((Mysql.store engine).realQuery store text).2 = store.update engine u := by
      change (readUpdate text).elim store (store.update engine) = _
      rw [hread, Option.elim_some]
    have hrows := Store.update_of_id engine store htable hcolumn hvalue
    rw [hstate]
    refine ⟨?_, fun other hother => ?_⟩
    · rw [Store.contents, Store.contents, hrows, Function.update_self]
      cases store.rows id with
      | none => exact .none
      | some row =>
        obtain ⟨row', hrow', hassigned, hothers⟩ := exists_fill hnodup htaken row
        rw [Option.map_some, Option.map_some, Option.map_some, hrow', Option.getD_some]
        refine .some ⟨fun assignment hmem => ?_, fun column hnot => ?_⟩
        · have hne : assignment.1 ≠ ascii "id" := fun heq => hid (heq ▸ List.mem_map_of_mem hmem)
          rw [Function.update_of_ne hne, hassigned assignment hmem]
        · by_cases heq : column = ascii "id"
          · rw [heq, Function.update_self, Function.update_self]
          · rw [Function.update_of_ne heq, Function.update_of_ne heq, hothers column hnot]
    · rw [Store.contents, Store.contents, hrows, Function.update_of_ne hother]
  empty := fun store text _ hempty id => by
    have hrows : ∀ id, store.rows id = none := fun id => Option.map_eq_none_iff.mp (hempty id)
    change Option.map _ (((readUpdate text).elim store (store.update engine)).rows id) = none
    rw [Option.map_eq_none_iff]
    cases readUpdate text with
    | none => exact hrows id
    | some u => exact Store.rows_update_none hrows u id

/-- The store executes the insert. -/
theorem Mysql.store_execute (engine : Engine) (store : Store) (data : List Datum) :
    (Mysql.store engine).stmtExecute store insertSql data = store.insert engine data := by
  simp only [Mysql.store, if_true]

/-- The store adds rows while the next identifier is free. -/
theorem Mysql.store_inserts (engine : Engine) : Inserts (Mysql.store engine) engine Store.contents where
  prepare := fun _ => rfl
  taken := fun store data hlength htaken => by
    have hnames : (insertColumns.zip data).map Prod.fst = insertColumns := List.map_fst_zip hlength.ge
    have hnodup : ((insertColumns.zip data).map Prod.fst).Nodup := by
      rw [hnames]
      exact nodup_insertColumns
    obtain ⟨row, hrow, hassigned, hothers⟩ := exists_fill hnodup htaken (defaultRow store.next)
    rw [hnames] at hothers
    have hid : ascii "id" ∉ insertColumns := by decide +kernel
    cases hfree : store.rows store.next with
    | some old =>
      refine ⟨0, store, .inr ⟨?_, rfl⟩⟩
      rw [Mysql.store_execute, Store.insert, hfree]
    | none =>
      refine ⟨store.next, ⟨Function.update store.rows store.next (some row), store.next + 1⟩, .inl ⟨?_, ?_, ?_, ?_⟩⟩
      · rw [Mysql.store_execute, Store.insert, hfree, hrow]
      · rw [Store.contents, hfree, Option.map_none]
      · intro other hother
        simp only [Store.contents, Function.update_of_ne hother]
      · refine ⟨Function.update row (ascii "id") (some (decimal store.next.toNat)), ?_, fun value hvalue => ?_,
          fun column hcolumn => ?_⟩
        · simp only [Store.contents, Function.update_self, Option.map_some]
        · have hne : value.1 ≠ ascii "id" := fun heq => hid (heq ▸ (List.of_mem_zip hvalue).1)
          rw [Function.update_of_ne hne, hassigned value hvalue]
        · by_cases heq : column = ascii "id"
          · rw [heq, Function.update_self]
            rfl
          · rw [Function.update_of_ne heq, hothers column hcolumn]
  refused := fun store data _ hrefused => by
    obtain ⟨value, hvalue, hnone⟩ := hrefused
    refine ⟨0, store, ?_, rfl⟩
    rw [Mysql.store_execute, Store.insert, fill_eq_none hvalue hnone]
    cases store.rows store.next <;> rfl

end CppProject.DBPool
