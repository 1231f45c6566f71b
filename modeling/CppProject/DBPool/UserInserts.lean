import CppProject.DBPool.UserStore
import Mathlib.Data.List.ReduceOption

/-!
# Inserting users

`insertUser` binds sex and status with the overload of `setParam` for `uint8_t`, so MySQL is given an empty text for
both. A server that takes no empty text for a number never has a user, whatever is called. With a server that makes
some number of it, the program's calls keep a map from identifiers to users, and `queryUser` reads it.
-/

namespace CppProject.DBPool

open Sql CString QuotedText

/-! ## The parameters -/

/-- What MySQL reads of a parameter whose record was all zero before. -/
def Param.arriving : Param → Datum
  | .int _ value => .number value.toInt
  | .uint8 _ _ => .text []
  | .uint32 _ value => .number value.toBitVec.toInt
  | .string _ value => .text value
  | .constString _ value => .text value

/-- Such a parameter is read in full. -/
theorem read_write_zero {param : Param} {memory : ℕ → UInt8} (halive : param.AliveIn memory) :
    (param.write .zero).read memory = some param.arriving := by
  cases param with
  | int address value =>
    exact congrArg (fun word : BitVec 32 => some (Datum.number word.toInt)) (word32_of_alive halive)
  | uint8 address value => rfl
  | uint32 address value =>
    exact congrArg (fun word : BitVec 32 => some (Datum.number word.toInt)) (word32_of_alive halive)
  | string address value => exact congrArg (fun bytes => some (Datum.text bytes)) halive
  | constString address value => exact congrArg (fun bytes => some (Datum.text bytes)) halive

/-- The element behind a part of known length. -/
theorem modify_length_append {α : Type*} (done : List α) (a : α) (rest : List α) (f : α → α) :
    (done ++ a :: rest).modify done.length f = done ++ f a :: rest := by
  induction done with
  | nil => rfl
  | cons b done ih => rw [List.cons_append, List.length_cons, List.modify_succ_cons, ih, List.cons_append]

/-- Parameters that are set one after the other, from some index on. -/
theorem setParams_inOrder {n : UInt32} (params : List Param) (done : List MysqlBind)
    (hlength : done.length + params.length = n.toNat) :
    PrepareStatement.setParams ⟨done ++ List.replicate params.length .zero, n⟩
      (params.mapIdx fun i param => (UInt32.ofNat (done.length + i), param)) =
        some ⟨done ++ params.map fun param => param.write .zero, n⟩ := by
  induction params generalizing done with
  | nil => rfl
  | cons param params ih =>
    rw [List.length_cons] at hlength
    have hindex : (UInt32.ofNat done.length).toNat = done.length := by
      have hn := n.toNat_lt
      rw [UInt32.toNat_ofNat', Nat.mod_eq_of_lt (by omega)]
    have hshape : PrepareStatement.Shape n ⟨done ++ .zero :: List.replicate params.length .zero, n⟩ :=
      ⟨rfl, by rw [List.length_append, List.length_cons, List.length_replicate]; exact hlength⟩
    have hlt : UInt32.ofNat done.length < n := by
      rw [UInt32.lt_iff_toNat_lt, hindex]
      omega
    have hrest := ih (done ++ [param.write .zero]) (by rw [List.length_append, List.length_singleton]; omega)
    simp only [List.length_append, List.length_singleton, List.append_assoc, List.singleton_append,
      Nat.add_assoc, Nat.add_comm 1] at hrest
    rw [List.length_cons, List.replicate_succ, List.mapIdx_cons, setParams_cons, Nat.add_zero,
      setParam_of_lt hshape hlt, hindex, Option.bind_some, modify_length_append]
    exact hrest

/-! ## A call of `insertUser` -/

/-- The number that a column of 8 bits makes of an empty text, if it takes it. -/
def emptyNumber (engine : Engine) : Option UInt8 :=
  (engine.stored (.unsigned 8) (.text [])).map fun cell => UInt8.ofNat (number cell)

/-- A call of `insertUser` on some object: the time, where the values are, and the memory when the statement is
executed. The values are still there. -/
structure InsertCall where
  user : UserTable
  nNow : UInt32
  address : ℕ → ℕ
  memory : ℕ → UInt8
  alive : ∀ param ∈ user.insertParams nNow address, param.AliveIn memory

variable {σ : Type*} {mysql : Mysql σ} {engine : Engine} {contents : σ → UInt32 → Option Row} {s : σ}

/-- `insertUser` up to `ExecuteUpdate`: what the server makes of the statement, the identifier it tells, and the server.
There is no result where a record outside of the array is written, or one never set is read. -/
def insertUser (mysql : Mysql σ) (s : σ) (call : InsertCall) : Option (Outcome × UInt32 × σ) :=
  match mysql.stmtPrepare s insertSql with
  | none => some (.failed .prepare, 0, s)
  | some m_param_cnt =>
    ((PrepareStatement.init m_param_cnt).setParams (call.user.insertCalls call.nNow call.address)).bind fun stmt =>
      (stmt.mParamBind.mapM fun bind : MysqlBind => bind.read call.memory).map fun data =>
        mysql.stmtExecute s insertSql data

/-- The values that arrive. -/
def InsertCall.data (call : InsertCall) : List Datum :=
  (call.user.insertParams call.nNow call.address).map Param.arriving

/-- The values that arrive, each with its column. -/
def InsertCall.values (call : InsertCall) : List (List UInt8 × Datum) :=
  insertColumns.zip call.data

/-- All parameters are read in full. -/
theorem mapM_read {memory : ℕ → UInt8} {params : List Param} (halive : ∀ param ∈ params, param.AliveIn memory) :
    (params.map fun param => param.write .zero).mapM (fun bind => bind.read memory) =
      some (params.map Param.arriving) := by
  induction params with
  | nil => rfl
  | cons param params ih =>
    obtain ⟨hfirst, hrest⟩ := List.forall_mem_cons.mp halive
    rw [List.map_cons, List.mapM_cons, read_write_zero hfirst, ih hrest]
    rfl

/-- `insertUser` has the statement executed with the values of the object, but for sex and status. -/
theorem Inserts.insertUser (h : Inserts mysql engine contents) (call : InsertCall) :
    DBPool.insertUser mysql s call = some (mysql.stmtExecute s insertSql call.data) := by
  have hcalls : (PrepareStatement.init 16).setParams (call.user.insertCalls call.nNow call.address) =
      some ⟨(call.user.insertParams call.nNow call.address).map fun param => param.write .zero, 16⟩ := by
    have hset := setParams_inOrder (n := 16) (call.user.insertParams call.nNow call.address) [] rfl
    simp only [List.length_nil, Nat.zero_add, List.nil_append] at hset
    exact hset
  have hcount : parameters insertSql = 16 := by decide +kernel
  unfold DBPool.insertUser
  rw [h.prepare, hcount]
  simp only [hcalls, Option.bind_some, mapM_read call.alive]
  rfl

/-! ## Runs -/

/-- The calls of the program. -/
inductive UserCall
  | insert (call : InsertCall)
  | update (call : UpdateCall)

/-- A call on the server: the identifier of a row that is added, and the server. -/
def UserCall.perform (mysql : Mysql σ) (s : σ) : UserCall → Option (Option UInt32 × σ)
  | .insert call => (DBPool.insertUser mysql s call).map fun answer =>
    (if answer.1.Succeeds then some answer.2.1 else none, answer.2.2)
  | .update call => some (none, call.execute mysql s)

/-- Calls one after the other: the identifiers, one for each call, and the server. -/
def performAll (mysql : Mysql σ) : σ → List UserCall → Option (List (Option UInt32) × σ)
  | s, [] => some ([], s)
  | s, call :: calls => (call.perform mysql s).bind fun answer =>
    (performAll mysql answer.2 calls).map fun rest => (answer.1 :: rest.1, rest.2)

/-- One call more. -/
theorem performAll_cons {call : UserCall} {calls : List UserCall} {id : Option UInt32} {next final : σ}
    {ids : List (Option UInt32)} (hcall : call.perform mysql s = some (id, next))
    (hcalls : performAll mysql next calls = some (ids, final)) :
    performAll mysql s (call :: calls) = some (id :: ids, final) := by
  rw [performAll, hcall, Option.bind_some, hcalls, Option.map_some]

/-! ## Two users -/

/-- An object with an apostrophe in its nickname. -/
def apostrophed : UserTable := { UserTable.init with strNick := ascii "it's", nDeptId := 7 }

/-- The addresses of its values, which lie one behind the other. -/
def apostrophedAddress (i : ℕ) : ℕ := [0, 4, 5, 9, 18, 22, 26, 30, 34, 38, 42, 46, 50, 54, 55].getD i 0

/-- The memory with the values. -/
def apostrophedMemory (a : ℕ) : UInt8 :=
  (ascii "abcd" ++ [1] ++ ascii "it's987654321testtesttesttesttesttesttesttest" ++ [7, 0, 0, 0, 1, 5, 0, 0, 0]).getD a 0

/-- A call that inserts the object. -/
def apostrophedCall : InsertCall := ⟨apostrophed, 5, apostrophedAddress, apostrophedMemory, by decide +kernel⟩

/-- Two users, of whom the second is updated. -/
def twoInserts : List UserCall :=
  [.insert apostrophedCall, .insert apostrophedCall, .update ⟨UserTable.init, 6, 2⟩]

/-- A store after `CREATE_IMUSER_TABLE`. -/
def createdStore : Store := ⟨fun _ => none, 1⟩

/-! ## A server that takes no empty text for a number -/

/-- The sex arrives as an empty text. -/
theorem mem_values_sex (call : InsertCall) : (ascii "sex", Datum.text []) ∈ call.values :=
  List.mem_cons_of_mem _ List.mem_cons_self

/-- Every call of `insertUser` fails. -/
theorem Inserts.fails (h : Inserts mysql engine contents) (hrefused : emptyNumber engine = none) (s : σ)
    (call : InsertCall) : ∃ id next, Fails mysql contents s call.data id next := by
  have hsex : datumCell engine (ascii "sex", Datum.text []) = none :=
    (datumCell_of_mem ⟨ascii "sex", .unsigned 8, false⟩ (by decide) _).trans (Option.map_eq_none_iff.mp hrefused)
  exact h.refused s call.data rfl ⟨_, mem_values_sex call, hsex⟩

/-- The text of `updateInfo` is an UPDATE, whatever the fields. -/
theorem UpdateCall.isUpdate (call : UpdateCall) : ascii "update " <+: untilZero call.sql := by
  have hzero : 0 ∉ ascii "update " := by decide
  have hsql : ascii "update " <+: call.sql := by
    change ascii "update " <+: UserTable.strSql _ _ _
    unfold UserTable.strSql
    simp only [List.append_assoc]
    exact List.IsPrefix.trans ⟨ascii "IMUser set `sex`=", rfl⟩ (List.prefix_append ..)
  obtain ⟨rest, hrest⟩ := hsql
  rw [← hrest, untilZero_append hzero]
  exact List.prefix_append ..

/-- An empty table stays empty. -/
theorem perform_refused (hupdates : Updates mysql engine contents) (hinserts : Inserts mysql engine contents)
    (hrefused : emptyNumber engine = none) (hempty : ∀ id, contents s id = none) (call : UserCall) :
    ∃ next, call.perform mysql s = some (none, next) ∧ ∀ id, contents next id = none := by
  cases call with
  | insert call =>
    obtain ⟨id, next, hfails⟩ := hinserts.fails hrefused s call
    refine ⟨next, ?_, fun id => by rw [hfails.same, hempty]⟩
    rw [UserCall.perform, hinserts.insertUser, hfails.execute]
    rfl
  | update call => exact ⟨_, rfl, hupdates.empty s _ call.isUpdate hempty⟩

/-- An empty table stays empty through any calls. -/
theorem performAll_refused (hupdates : Updates mysql engine contents) (hinserts : Inserts mysql engine contents)
    (hrefused : emptyNumber engine = none) (hempty : ∀ id, contents s id = none) (calls : List UserCall) :
    ∃ final, performAll mysql s calls = some (List.replicate calls.length none, final) ∧
      ∀ id, contents final id = none := by
  induction calls generalizing s with
  | nil => exact ⟨s, rfl, hempty⟩
  | cons call calls ih =>
    obtain ⟨next, hnext, hnextEmpty⟩ := perform_refused hupdates hinserts hrefused hempty call
    obtain ⟨final, hfinal, hfinalEmpty⟩ := ih hnextEmpty
    exact ⟨final, performAll_cons hnext hfinal, hfinalEmpty⟩

/-- After any calls on any objects the table is empty: no call of `insertUser` adds a row, though each returns true, and
`queryUser` finds nobody. -/
theorem nobody_inserted (hselects : Selects mysql contents) (hupdates : Updates mysql engine contents)
    (hinserts : Inserts mysql engine contents) (hrefused : emptyNumber engine = none)
    (hempty : ∀ id, contents s id = none) (calls : List UserCall) :
    ∃ final, performAll mysql s calls = some (List.replicate calls.length none, final) ∧
      (∀ id, contents final id = none) ∧
      (∀ call : InsertCall, ∃ id next, insertUser mysql final call = some (.failed .execute, id, next) ∧
        (UserTable.insertUser (.failed .execute) id).1 = true) ∧
      ∀ (u : UserRecord) (id : UInt32), u.queryUser (executeQuery mysql final (querySql id)) = some (false, u) := by
  obtain ⟨final, hfinal, hfinalEmpty⟩ := performAll_refused hupdates hinserts hrefused hempty calls
  refine ⟨final, hfinal, hfinalEmpty, fun call => ?_, fun u id => ?_⟩
  · obtain ⟨id, next, hfails⟩ := hinserts.fails hrefused final call
    exact ⟨id, next, by rw [hinserts.insertUser, hfails.execute], rfl⟩
  · rw [hselects.queryUser, hfinalEmpty]
    rfl

/-- Nobody is there after these calls on such a server. -/
theorem nobody_inserted_strict : ∃ final,
    performAll (Mysql.store Engine.strict) createdStore twoInserts = some ([none, none, none], final) ∧
      blankRecord.queryUser (executeQuery (Mysql.store Engine.strict) final (querySql 1)) =
        some (false, blankRecord) := by
  have hrefused : emptyNumber Engine.strict = none := rfl
  obtain ⟨final, hfinal, -, -, hquery⟩ := nobody_inserted (Mysql.store_selects _) (Mysql.store_updates _)
    (Mysql.store_inserts _) hrefused (s := createdStore) (fun _ => rfl) twoInserts
  exact ⟨final, hfinal, hquery blankRecord 1⟩

/-! ## A server that makes a number of an empty text -/

/-- What the table has of a user. -/
structure Profile where
  fields : UserTable
  nValidateMethod : UInt8

/-- The users by their identifiers. -/
abbrev Users := UInt32 → Option Profile

/-- What a call means that has added a row under an identifier, or none: who is inserted has the number of an empty
text for sex and status. -/
def Users.step (empty : UInt8) (users : Users) : UserCall × Option UInt32 → Users
  | (.insert call, some id) =>
    Function.update users id (some ⟨{ call.user with nSex := empty, nStatus := empty }, 1⟩)
  | (.insert _, none) => users
  | (.update call, _) => Function.update users call.id ((users call.id).map fun p => { p with fields := call.object })

/-- The texts end where they should, the numbers are not negative as `int`, and the columns for text take the texts as
they are. -/
structure Insertable (engine : Engine) (call : InsertCall) : Prop where
  nonzero : ∀ text ∈ call.user.queriedTexts, 0 ∉ text
  nDeptId : call.user.nDeptId.toNat < 2 ^ 31
  nNow : call.nNow.toNat < 2 ^ 31
  fits : ∀ column ∈ imUser, ∀ chars, column.type = .varchar chars → ∀ bytes,
    (column.name, Datum.text bytes) ∈ call.values → engine.stored column.type (.text bytes) = some bytes

/-- The calls whose effect is the one meant. -/
def UserCall.Suitable (engine : Engine) : UserCall → Prop
  | .insert call => Insertable engine call
  | .update call => DBPool.Suitable engine call

variable {call : InsertCall} {empty : UInt8}

/-- The number of an empty text, in a column. -/
theorem storedDatum_empty (hempty : emptyNumber engine = some empty) :
    storedDatum engine (.unsigned 8) (.text []) = some (decimal empty.toNat) := by
  obtain ⟨cell, hcell, rfl⟩ := Option.map_eq_some_iff.mp hempty
  obtain ⟨n, hn, rfl⟩ := engine.holds _ _ _ hcell
  have hsame : (UInt8.ofNat (number (decimal n))).toNat = n := by
    rw [number_decimal, UInt8.toNat_ofNat', Nat.mod_eq_of_lt hn]
  rw [hsame]
  exact hcell

/-- A number that arrives as it is. -/
theorem storedDatum_number (engine : Engine) {n : UInt32} (hn : n.toNat < 2 ^ 31) :
    storedDatum engine (.unsigned 32) (.number n.toBitVec.toInt) = some (decimal n.toNat) := by
  have hint : n.toBitVec.toInt = Int.ofNat n.toNat := by
    rw [BitVec.toInt_eq_toNat_cond, if_pos (by change 2 * n.toNat < 2 ^ 32; omega)]
    rfl
  rw [hint]
  exact engine.number 32 n.toNat n.toNat_lt

/-- A text, as the `i`-th value. -/
theorem Insertable.cell_text (h : Insertable engine call) (column : Column) (hcolumn : column ∈ imUser) {chars : ℕ}
    (htype : column.type = .varchar chars) (i : ℕ) {bytes : List UInt8}
    (hvalue : call.values[i]? = some (column.name, .text bytes)) :
    datumCell engine (column.name, .text bytes) = some bytes :=
  (datumCell_of_mem column hcolumn _).trans (h.fits column hcolumn chars htype bytes (List.mem_of_getElem? hvalue))

/-- An empty text, for a column of 8 bits. -/
theorem datumCell_empty (hempty : emptyNumber engine = some empty) (column : Column) (hcolumn : column ∈ imUser)
    (htype : column.type = .unsigned 8) :
    datumCell engine (column.name, .text []) = some (decimal empty.toNat) := by
  rw [datumCell_of_mem column hcolumn, htype, storedDatum_empty hempty]

/-- A number, for a column of 32 bits. -/
theorem datumCell_number (engine : Engine) (column : Column) (hcolumn : column ∈ imUser)
    (htype : column.type = .unsigned 32) {n : UInt32} (hn : n.toNat < 2 ^ 31) :
    datumCell engine (column.name, .number n.toBitVec.toInt) = some (decimal n.toNat) := by
  rw [datumCell_of_mem column hcolumn, htype, storedDatum_number engine hn]

/-- The columns take all values. -/
theorem Insertable.taken (h : Insertable engine call) (hempty : emptyNumber engine = some empty) :
    ∀ value ∈ call.values, (datumCell engine value).isSome := by
  have hvalues : call.values = [(ascii "salt", .text (ascii "abcd")), (ascii "sex", .text []),
      (ascii "nick", .text call.user.strNick), (ascii "password", .text (ascii "987654321")),
      (ascii "domain", .text call.user.strDomain), (ascii "name", .text call.user.strName),
      (ascii "phone", .text call.user.strTel), (ascii "email", .text call.user.strEmail),
      (ascii "company", .text call.user.strCompany), (ascii "address", .text call.user.strAddress),
      (ascii "avatar", .text call.user.strAvatar), (ascii "sign_info", .text call.user.sign_info),
      (ascii "departId", .number call.user.nDeptId.toBitVec.toInt), (ascii "status", .text []),
      (ascii "created", .number call.nNow.toBitVec.toInt), (ascii "updated", .number call.nNow.toBitVec.toInt)] := rfl
  have htext (column : Column) (hcolumn : column ∈ imUser) {chars : ℕ} (htype : column.type = .varchar chars) (i : ℕ)
      {bytes : List UInt8} (hvalue : call.values[i]? = some (column.name, .text bytes)) :
      (datumCell engine (column.name, .text bytes)).isSome :=
    Option.isSome_of_eq_some (h.cell_text column hcolumn htype i hvalue)
  have hbyte (column : Column) (hcolumn : column ∈ imUser) (htype : column.type = .unsigned 8) :
      (datumCell engine (column.name, .text [])).isSome :=
    Option.isSome_of_eq_some (datumCell_empty hempty column hcolumn htype)
  have hnumber (column : Column) (hcolumn : column ∈ imUser) (htype : column.type = .unsigned 32) {n : UInt32}
      (hn : n.toNat < 2 ^ 31) : (datumCell engine (column.name, .number n.toBitVec.toInt)).isSome :=
    Option.isSome_of_eq_some (datumCell_number engine column hcolumn htype hn)
  rw [hvalues]
  simp only [List.forall_mem_cons, List.not_mem_nil, false_imp_iff, implies_true, and_true]
  exact ⟨htext ⟨ascii "salt", .varchar 4, false⟩ (by decide) rfl 0 rfl,
    hbyte ⟨ascii "sex", .unsigned 8, false⟩ (by decide) rfl,
    htext ⟨ascii "nick", .varchar 32, false⟩ (by decide) rfl 2 rfl,
    htext ⟨ascii "password", .varchar 32, false⟩ (by decide) rfl 3 rfl,
    htext ⟨ascii "domain", .varchar 32, false⟩ (by decide) rfl 4 rfl,
    htext ⟨ascii "name", .varchar 32, false⟩ (by decide) rfl 5 rfl,
    htext ⟨ascii "phone", .varchar 11, false⟩ (by decide) rfl 6 rfl,
    htext ⟨ascii "email", .varchar 64, false⟩ (by decide) rfl 7 rfl,
    htext ⟨ascii "company", .varchar 64, false⟩ (by decide) rfl 8 rfl,
    htext ⟨ascii "address", .varchar 64, false⟩ (by decide) rfl 9 rfl,
    htext ⟨ascii "avatar", .varchar 255, true⟩ (by decide) rfl 10 rfl,
    htext ⟨ascii "sign_info", .varchar 128, false⟩ (by decide) rfl 11 rfl,
    hnumber ⟨ascii "departId", .unsigned 32, false⟩ (by decide) rfl h.nDeptId,
    hbyte ⟨ascii "status", .unsigned 8, true⟩ (by decide) rfl,
    hnumber ⟨ascii "created", .unsigned 32, false⟩ (by decide) rfl h.nNow,
    hnumber ⟨ascii "updated", .unsigned 32, false⟩ (by decide) rfl h.nNow⟩

/-- The row that is added. -/
theorem Adds.stored {next : σ} {id : UInt32} (hadds : Adds mysql engine contents s call.data id next)
    (h : Insertable engine call) (hempty : emptyNumber engine = some empty) : ∃ row, contents next id = some row ∧
      Stored id { call.user with nSex := empty, nStatus := empty } 1 row := by
  obtain ⟨row, hrow, hfilled, hdefault⟩ := hadds.row
  -- the cells of the columns that the statement names, by their places in it
  have hnamed (i : ℕ) {value : List UInt8 × Datum} (hvalue : call.values[i]? = some value) :
      row value.1 = datumCell engine value := hfilled value (List.mem_of_getElem? hvalue)
  have htext (column : Column) (hcolumn : column ∈ imUser) {chars : ℕ} (htype : column.type = .varchar chars) (i : ℕ)
      {bytes : List UInt8} (hvalue : call.values[i]? = some (column.name, .text bytes)) :
      row column.name = some bytes := (hnamed i hvalue).trans (h.cell_text column hcolumn htype i hvalue)
  have hid : ascii "id" ∉ insertColumns := by decide +kernel
  have hmethod : ascii "validateMethod" ∉ insertColumns := by decide +kernel
  refine ⟨row, hrow, ?_⟩
  exact {
    id := hdefault (ascii "id") hid
    sex := (hnamed 1 rfl).trans (datumCell_empty hempty ⟨ascii "sex", .unsigned 8, false⟩ (by decide) rfl)
    nick := htext ⟨ascii "nick", .varchar 32, false⟩ (by decide) rfl 2 rfl
    domain := htext ⟨ascii "domain", .varchar 32, false⟩ (by decide) rfl 4 rfl
    name := htext ⟨ascii "name", .varchar 32, false⟩ (by decide) rfl 5 rfl
    phone := htext ⟨ascii "phone", .varchar 11, false⟩ (by decide) rfl 6 rfl
    email := htext ⟨ascii "email", .varchar 64, false⟩ (by decide) rfl 7 rfl
    avatar := htext ⟨ascii "avatar", .varchar 255, true⟩ (by decide) rfl 10 rfl
    sign_info := htext ⟨ascii "sign_info", .varchar 128, false⟩ (by decide) rfl 11 rfl
    departId := (hnamed 12 rfl).trans
      (datumCell_number engine ⟨ascii "departId", .unsigned 32, false⟩ (by decide) rfl h.nDeptId)
    validateMethod := hdefault (ascii "validateMethod") hmethod
    status := (hnamed 13 rfl).trans (datumCell_empty hempty ⟨ascii "status", .unsigned 8, true⟩ (by decide) rfl)
    nonzero := h.nonzero }

/-- The rows are those of the users. -/
def Follows (rows : UInt32 → Option Row) (users : Users) : Prop :=
  ∀ id, Option.Rel (fun row p => Stored id p.fields p.nValidateMethod row) (rows id) (users id)

variable {users : Users}

/-- Nobody is there exactly if there is no row. -/
theorem Follows.eq_none_iff {rows : UInt32 → Option Row} (h : Follows rows users) (id : UInt32) :
    rows id = none ↔ users id = none := by
  have hid := h id
  generalize rows id = row at hid ⊢
  generalize users id = user at hid ⊢
  cases hid <;> simp

/-- A call of `insertUser`: somebody is new under the identifier of the row, or the server has refused. -/
theorem Follows.insert (h : Follows (contents s) users) (hinserts : Inserts mysql engine contents)
    (hcall : Insertable engine call) (hempty : emptyNumber engine = some empty) :
    ∃ id next, (UserCall.insert call).perform mysql s = some (id, next) ∧ (∀ new ∈ id, users new = none) ∧
      Follows (contents next) (users.step empty (.insert call, id)) := by
  obtain ⟨id, next, hadds | hfails⟩ := hinserts.taken s call.data rfl (hcall.taken hempty)
  · refine ⟨some id, next, ?_, fun new hnew => ?_, fun other => ?_⟩
    · rw [UserCall.perform, hinserts.insertUser, hadds.execute]
      rfl
    · obtain rfl := Option.some.inj hnew
      exact (h.eq_none_iff _).mp hadds.fresh
    · rw [Users.step]
      by_cases hother : other = id
      · subst hother
        obtain ⟨row, hrow, hstored⟩ := hadds.stored hcall hempty
        rw [Function.update_self, hrow]
        exact .some hstored
      · rw [Function.update_of_ne hother, hadds.others other hother]
        exact h other
  · refine ⟨none, next, ?_, fun new hnew => absurd hnew (Option.not_mem_none _), ?_⟩
    · rw [UserCall.perform, hinserts.insertUser, hfails.execute]
      rfl
    · rw [hfails.same]
      exact h

/-- An update of a user, who may not be there. -/
theorem Follows.update (h : Follows (contents s) users) (hupdates : Updates mysql engine contents) {call : UpdateCall}
    (hcall : Suitable engine call) :
    Follows (contents (call.execute mysql s)) (users.step empty (.update call, none)) := by
  intro id
  rw [hcall.contents_execute hupdates, Users.step]
  have hold := h id
  generalize contents s id = found at hold ⊢
  by_cases hid : id = call.id
  · subst hid
    rw [Function.update_self]
    generalize users call.id = user at hold ⊢
    cases hold with
    | none => exact .none
    | some hstored =>
      rw [Option.map_some, Option.map_some, if_pos rfl]
      exact .some (hcall.stored hstored.id hstored.validateMethod)
  · rw [Function.update_of_ne hid]
    generalize users id = user at hold ⊢
    cases hold with
    | none => exact .none
    | some hstored =>
      rw [Option.map_some, if_neg (Ne.symm hid)]
      exact .some hstored

/-- A call leaves everybody who is there, and adds the user of its identifier. -/
theorem Users.step_eq_none {call : UserCall} {id : Option UInt32} {other : UInt32}
    (h : users.step empty (call, id) other = none) : users other = none := by
  cases call with
  | insert call =>
    cases id with
    | none => exact h
    | some id =>
      rw [Users.step] at h
      by_cases hother : other = id
      · rw [hother, Function.update_self] at h
        cases h
      · rwa [Function.update_of_ne hother] at h
  | update call =>
    rw [Users.step] at h
    by_cases hother : other = call.id
    · rw [hother, Function.update_self] at h
      exact hother ▸ Option.map_eq_none_iff.mp h
    · rwa [Function.update_of_ne hother] at h

/-- One call of either kind. -/
theorem Follows.perform (h : Follows (contents s) users) (hupdates : Updates mysql engine contents)
    (hinserts : Inserts mysql engine contents) (hempty : emptyNumber engine = some empty) {call : UserCall}
    (hcall : call.Suitable engine) :
    ∃ id next, call.perform mysql s = some (id, next) ∧
      (∀ new ∈ id, users new = none ∧ users.step empty (call, id) new ≠ none) ∧
      Follows (contents next) (users.step empty (call, id)) := by
  cases call with
  | insert call =>
    obtain ⟨id, next, hnext, hfresh, hfollows⟩ := h.insert hinserts hcall hempty
    refine ⟨id, next, hnext, fun new hnew => ⟨hfresh new hnew, ?_⟩, hfollows⟩
    obtain rfl := Option.mem_def.mp hnew
    rw [Users.step, Function.update_self]
    exact Option.some_ne_none _
  | update call =>
    exact ⟨none, _, rfl, fun new hnew => absurd hnew (Option.not_mem_none _), h.update hupdates hcall⟩

/-- Every run. The identifiers of the rows that are added are new, and differ from each other. -/
theorem Follows.performAll (h : Follows (contents s) users) (hupdates : Updates mysql engine contents)
    (hinserts : Inserts mysql engine contents) (hempty : emptyNumber engine = some empty) {calls : List UserCall}
    (hcalls : ∀ call ∈ calls, call.Suitable engine) :
    ∃ ids final, DBPool.performAll mysql s calls = some (ids, final) ∧ ids.length = calls.length ∧
      ids.reduceOption.Nodup ∧ (∀ id ∈ ids.reduceOption, users id = none) ∧
      Follows (contents final) ((calls.zip ids).foldl (Users.step empty) users) := by
  induction calls generalizing s users with
  | nil => exact ⟨[], s, rfl, rfl, List.nodup_nil, fun _ hid => absurd hid List.not_mem_nil, h⟩
  | cons call calls ih =>
    obtain ⟨hcall, hrest⟩ := List.forall_mem_cons.mp hcalls
    obtain ⟨id, next, hnext, hnew, hfollows⟩ := h.perform hupdates hinserts hempty hcall
    obtain ⟨ids, final, hfinal, hlength, hnodup, hfresh, hfinalFollows⟩ := ih hfollows hrest
    refine ⟨id :: ids, final, performAll_cons hnext hfinal, ?_, ?_, ?_, hfinalFollows⟩
    · rw [List.length_cons, List.length_cons, hlength]
    · cases id with
      | none => rwa [List.reduceOption_cons_of_none]
      | some id =>
        rw [List.reduceOption_cons_of_some, List.nodup_cons]
        exact ⟨fun hmem => (hnew id rfl).2 (hfresh id hmem), hnodup⟩
    · intro other hother
      cases id with
      | none =>
        rw [List.reduceOption_cons_of_none] at hother
        exact Users.step_eq_none (hfresh other hother)
      | some id =>
        rw [List.reduceOption_cons_of_some] at hother
        rcases List.mem_cons.mp hother with rfl | hother
        · exact (hnew _ rfl).1
        · exact Users.step_eq_none (hfresh other hother)

/-- After any calls from the created table on, `queryUser` finds the users whose rows the server has added, each under
an identifier of its own and with the fields of the last call for it; inserted texts come back as they are, and only
sex and status are not those of the object until the user is updated. -/
theorem queryUser_of_calls (hselects : Selects mysql contents) (hupdates : Updates mysql engine contents)
    (hinserts : Inserts mysql engine contents) (hempty : emptyNumber engine = some empty)
    (hcreated : ∀ id, contents s id = none) {calls : List UserCall} (hcalls : ∀ call ∈ calls, call.Suitable engine) :
    ∃ ids final, performAll mysql s calls = some (ids, final) ∧ ids.length = calls.length ∧ ids.reduceOption.Nodup ∧
      ∀ (u : UserRecord) (id : UInt32), u.queryUser (executeQuery mysql final (querySql id)) =
        ((calls.zip ids).foldl (Users.step empty) (fun _ => none) id).elim (some (false, u)) fun p =>
          if id.toNat < 2 ^ 31 ∧ p.fields.nDeptId.toNat < 2 ^ 31 then
            some (true, { u.withFields p.fields with nId := id, nValidateMethod := p.nValidateMethod.toUInt32 })
          else none := by
  have hstart : Follows (contents s) fun _ => none := fun id => hcreated id ▸ .none
  obtain ⟨ids, final, hfinal, hlength, hnodup, -, hfollows⟩ := hstart.performAll hupdates hinserts hempty hcalls
  refine ⟨ids, final, hfinal, hlength, hnodup, fun u id => ?_⟩
  rw [hselects.queryUser]
  have hrow := hfollows id
  generalize contents final id = found at hrow ⊢
  generalize (calls.zip ids).foldl (Users.step empty) (fun _ => none) id = user at hrow ⊢
  cases hrow with
  | none => rfl
  | some hstored =>
    rw [Option.elim_some, Option.elim_some, hstored.ofRow, apply_ite (Option.map _), Option.map_some, Option.map_none]

/-! ## Such calls -/

/-- The text in a cell. -/
def Datum.cell : Datum → List UInt8
  | .number n => decimal n.toNat
  | .text bytes => bytes

/-- Calls whose cells can be compared one by one. -/
theorem insertable_of_cells (hnonzero : ∀ text ∈ call.user.queriedTexts, 0 ∉ text)
    (hnDeptId : call.user.nDeptId.toNat < 2 ^ 31) (hnNow : call.nNow.toNat < 2 ^ 31)
    (hfits : ∀ column ∈ imUser, column.type ≠ .unsigned 8 → ∀ value ∈ call.values, value.1 = column.name →
      storedDatum engine column.type value.2 = some value.2.cell) : Insertable engine call where
  nonzero := hnonzero
  nDeptId := hnDeptId
  nNow := hnNow
  fits := fun column hcolumn _ htype bytes hmem =>
    hfits column hcolumn (htype ▸ nofun) (column.name, .text bytes) hmem rfl

/-- The calls of the example, on a server that takes every value. -/
theorem suitable_twoInserts : ∀ call ∈ twoInserts, call.Suitable Engine.lenient := by
  have hnonzero : ∀ text ∈ apostrophed.queriedTexts, 0 ∉ text := by decide +kernel
  have hfits : ∀ column ∈ imUser, column.type ≠ .unsigned 8 → ∀ value ∈ apostrophedCall.values,
      value.1 = column.name → storedDatum Engine.lenient column.type value.2 = some value.2.cell := by decide +kernel
  have hinsert : Insertable Engine.lenient apostrophedCall :=
    insertable_of_cells hnonzero (show 7 < 2 ^ 31 by decide) (show 5 < 2 ^ 31 by decide) hfits
  simp only [twoInserts, List.forall_mem_cons, List.not_mem_nil, false_imp_iff, implies_true, and_true]
  exact ⟨hinsert, hinsert, suitable_of_cells (by decide) (by decide) (by decide +kernel)⟩

/-- The users get the identifiers 1 and 2, and the first has the nickname of the object and the sex 0. -/
theorem queryUser_of_calls_lenient : ∃ final,
    performAll (Mysql.store Engine.lenient) createdStore twoInserts = some ([some 1, some 2, none], final) ∧
      blankRecord.queryUser (executeQuery (Mysql.store Engine.lenient) final (querySql 1)) =
        some (true, { blankRecord.withFields { apostrophed with nSex := 0, nStatus := 0 } with
          nId := 1, nValidateMethod := 1 }) := by
  have hempty : emptyNumber Engine.lenient = some 0 := rfl
  have hids : (performAll (Mysql.store Engine.lenient) createdStore twoInserts).map Prod.fst =
      some [some 1, some 2, none] := by decide +kernel
  obtain ⟨ids, final, hfinal, -, -, hquery⟩ := queryUser_of_calls (Mysql.store_selects _) (Mysql.store_updates _)
    (Mysql.store_inserts _) hempty (s := createdStore) (fun _ => rfl) suitable_twoInserts
  rw [hfinal, Option.map_some, Option.some.injEq] at hids
  subst hids
  have hfirst : (twoInserts.zip [some 1, some 2, none]).foldl (Users.step 0) (fun _ => none) 1 =
      some ⟨{ apostrophed with nSex := 0, nStatus := 0 }, 1⟩ := rfl
  have hread := hquery blankRecord 1
  rw [hfirst] at hread
  exact ⟨final, hfinal, hread⟩

end CppProject.DBPool
