import CppProject.DBPool.MysqlServer

/-!
# What `queryUser` finds

After any calls of `updateInfo` whose fields stand for themselves in the statement and fit their columns, `queryUser`
reads back what the last call for its user wrote. The other way round, a result with the columns of the table may have
NULL in some of them, and numbers beyond `int`, which `queryUser` does not expect.
-/

namespace CppProject.DBPool

open Sql CString QuotedText

variable {σ : Type*} {mysql : Mysql σ} {s : σ} {contents : σ → UInt32 → Option Row}

/-! ## Calls of `updateInfo` -/

/-- A call of `updateInfo` on some object. -/
structure UpdateCall where
  user : UserTable
  nNow : UInt32
  id : UInt32

namespace UpdateCall

/-- The statement text. -/
def sql (call : UpdateCall) : List UInt8 := (call.user.updateInfo call.nNow call.id).2

/-- The object after the call. -/
def object (call : UpdateCall) : UserTable := (call.user.updateInfo call.nNow call.id).1

/-- The statement meant. -/
def update (call : UpdateCall) : Update := call.object.update call.nNow call.id

/-- The server after the call. -/
def execute (mysql : Mysql σ) (s : σ) (call : UpdateCall) : σ := executeUpdate mysql s call.sql

end UpdateCall

/-- The fields of the object stand for themselves, and the columns for text take them as they are. -/
structure Suitable (engine : Engine) (call : UpdateCall) : Prop where
  plain : ∀ value ∈ call.user.fields, Plain apostrophe value
  nonzero : ∀ value ∈ call.user.fields, 0 ∉ value
  fits : ∀ column ∈ imUser, ∀ chars, column.type = .varchar chars → ∀ bytes,
    (column.name, .text bytes) ∈ call.update.assignments → engine.stored column.type (.text bytes) = some bytes

/-! ## The statements -/

variable {engine : Engine} {call : UpdateCall} {calls : List UpdateCall} {id : UInt32}

/-- The columns `updateInfo` assigns, whatever the object. -/
def assigned : List (List UInt8) :=
  [ascii "sex", ascii "nick", ascii "domain", ascii "name", ascii "phone", ascii "email", ascii "avatar",
    ascii "sign_info", ascii "departId", ascii "status", ascii "updated", ascii "company", ascii "address"]

/-- Every call assigns these columns, in this order. -/
theorem map_fst_assignments (call : UpdateCall) : call.update.assignments.map Prod.fst = assigned := rfl

/-- No column is assigned twice. -/
theorem nodup_assigned : assigned.Nodup := by decide

/-- No column is assigned twice by a call. -/
theorem nodup_assignments (call : UpdateCall) : (call.update.assignments.map Prod.fst).Nodup := nodup_assigned

/-- The identifier is not assigned. -/
theorem id_not_mem_assigned : ascii "id" ∉ assigned := by decide

/-- No call assigns the identifier. -/
theorem id_not_mem_assignments (call : UpdateCall) : ascii "id" ∉ call.update.assignments.map Prod.fst :=
  id_not_mem_assigned

/-- The value is of the type of the column, and a number within its range. -/
def Typed : ColumnType → Value → Prop
  | .unsigned bits, value => ∃ n < 2 ^ bits, value = .number n ∨ value = .text (decimal n)
  | .varchar _, value => ∃ bytes, value = .text bytes

/-- Every value goes to a column of its type. -/
theorem typed_assignments (call : UpdateCall) : ∀ assignment ∈ call.update.assignments,
    ∃ column ∈ imUser, column.name = assignment.1 ∧ Typed column.type assignment.2 := by
  have hsex := call.user.nSex.toNat_lt
  have hstatus := call.user.nStatus.toNat_lt
  have hdept := call.user.nDeptId.toNat_lt
  have hnow := call.nNow.toNat_lt
  have hcolumn (column : Column) (hmem : column ∈ imUser) {value : Value} (htyped : Typed column.type value) :
      ∃ other ∈ imUser, other.name = column.name ∧ Typed other.type value := ⟨column, hmem, rfl, htyped⟩
  simp only [UpdateCall.update, UpdateCall.object, UserTable.updateInfo, UserTable.update, List.forall_mem_cons,
    List.not_mem_nil, false_imp_iff, implies_true, and_true]
  exact ⟨hcolumn ⟨ascii "sex", .unsigned 8, false⟩ (by decide) ⟨_, hsex, Or.inl rfl⟩,
    hcolumn ⟨ascii "nick", .varchar 32, false⟩ (by decide) ⟨_, rfl⟩,
    hcolumn ⟨ascii "domain", .varchar 32, false⟩ (by decide) ⟨_, rfl⟩,
    hcolumn ⟨ascii "name", .varchar 32, false⟩ (by decide) ⟨_, rfl⟩,
    hcolumn ⟨ascii "phone", .varchar 11, false⟩ (by decide) ⟨_, rfl⟩,
    hcolumn ⟨ascii "email", .varchar 64, false⟩ (by decide) ⟨_, rfl⟩,
    hcolumn ⟨ascii "avatar", .varchar 255, true⟩ (by decide) ⟨_, rfl⟩,
    hcolumn ⟨ascii "sign_info", .varchar 128, false⟩ (by decide) ⟨_, rfl⟩,
    hcolumn ⟨ascii "departId", .unsigned 32, false⟩ (by decide) ⟨_, hdept, Or.inr rfl⟩,
    hcolumn ⟨ascii "status", .unsigned 8, true⟩ (by decide) ⟨_, hstatus, Or.inl rfl⟩,
    hcolumn ⟨ascii "updated", .unsigned 32, false⟩ (by decide) ⟨_, hnow, Or.inl rfl⟩,
    hcolumn ⟨ascii "company", .varchar 64, false⟩ (by decide) ⟨_, rfl⟩,
    hcolumn ⟨ascii "address", .varchar 64, false⟩ (by decide) ⟨_, rfl⟩⟩

/-- All values of a suitable call are stored as they are. -/
theorem Suitable.cell (h : Suitable engine call) {assignment : List UInt8 × Value}
    (hmem : assignment ∈ call.update.assignments) : engine.cell imUser assignment = some assignment.2.cell := by
  obtain ⟨⟨name, type, nullable⟩, hcolumn, rfl, htyped⟩ := typed_assignments call assignment hmem
  obtain ⟨name, value⟩ := assignment
  rw [cell_of_mem imUser_names hcolumn]
  cases type with
  | varchar chars =>
    obtain ⟨bytes, rfl⟩ := htyped
    exact h.fits _ hcolumn chars rfl bytes hmem
  | unsigned bits =>
    obtain ⟨n, hn, rfl | rfl⟩ := htyped
    · exact engine.number bits n hn
    · exact engine.digits bits n hn

/-- A statement has no zero byte if no field has one. -/
theorem zero_not_mem_strSql {t : UserTable} (hdomain : 0 ∉ t.strDomain) (h : ∀ value ∈ t.fields, 0 ∉ value)
    (nNow id : UInt32) : 0 ∉ t.strSql nNow id := by
  simp only [UserTable.fields, List.forall_mem_cons] at h
  obtain ⟨hNick, hName, hTel, hEmail, hAvatar, hsign, hCompany, hAddress, -⟩ := h
  have hnumber (n : UInt32) : 0 ∉ int2string n := zero_not_mem_decimal _
  unfold UserTable.strSql
  simp only [List.append_assoc, List.mem_append, not_or]
  exact ⟨zero_not_mem_of_all rfl, hnumber _, zero_not_mem_of_all rfl, hNick, zero_not_mem_of_all rfl, hdomain,
    zero_not_mem_of_all rfl, hName, zero_not_mem_of_all rfl, hTel, zero_not_mem_of_all rfl, hEmail,
    zero_not_mem_of_all rfl, hAvatar, zero_not_mem_of_all rfl, hsign, zero_not_mem_of_all rfl, hnumber _,
    zero_not_mem_of_all rfl, hnumber _, zero_not_mem_of_all rfl, hnumber _, zero_not_mem_of_all rfl, hCompany,
    zero_not_mem_of_all rfl, hAddress, zero_not_mem_of_all rfl, hnumber _⟩

/-- The domain that `updateInfo` sets stands for itself. -/
theorem plain_naihan : Plain apostrophe (ascii "naihan") := by decide

/-- The columns take all values of a suitable call. -/
theorem Suitable.taken (h : Suitable engine call) : ∀ assignment ∈ call.update.assignments,
    (engine.cell imUser assignment).isSome := fun assignment hmem => by
  rw [h.cell hmem]
  rfl

/-- The statement of a suitable call is the one meant. -/
theorem Suitable.read (h : Suitable engine call) : readUpdate (untilZero call.sql) = some call.update := by
  have hsql : call.sql = call.object.strSql call.nNow call.id := rfl
  have hdomain : call.object.strDomain = ascii "naihan" := rfl
  have hfields : call.object.fields = call.user.fields := rfl
  have hzero : 0 ∉ call.object.strSql call.nNow call.id :=
    zero_not_mem_strSql (hdomain ▸ zero_not_mem_of_all rfl) (hfields ▸ h.nonzero) _ _
  rw [hsql, untilZero_of_not_mem hzero]
  exact readUpdate_strSql (hdomain ▸ plain_naihan) (hfields ▸ h.plain)

/-! ## Runs -/

/-- The last of some calls for a user. -/
def lastFor (id : UInt32) (calls : List UpdateCall) : Option UpdateCall := calls.reverse.find? fun call => call.id = id

/-- A call more is the last one for its own user. -/
theorem lastFor_append (id : UInt32) (calls : List UpdateCall) (call : UpdateCall) :
    lastFor id (calls ++ [call]) = if call.id = id then some call else lastFor id calls := by
  rw [lastFor, List.reverse_append, List.reverse_singleton, List.singleton_append]
  by_cases hid : call.id = id
  · rw [List.find?_cons_of_pos (by simpa using hid), if_pos hid]
  · rw [List.find?_cons_of_neg (by simpa using hid), if_neg hid, lastFor]

/-- A row after a call for its user. -/
def written (call : UpdateCall) (row : Row) : Row := fun column =>
  match call.update.assignments.lookup column with
  | some value => some value.cell
  | none => row column

/-- A row after its user's last call, if there is one. -/
def rowAfter (last : Option UpdateCall) (row : Row) : Row :=
  match last with
  | some call => written call row
  | none => row

/-- An assigned column has the cell of its value. -/
theorem written_of_mem {row : Row} {column : List UInt8} {value : Value}
    (hmem : (column, value) ∈ call.update.assignments) : written call row column = some value.cell := by
  have hlookup : call.update.assignments.lookup column = some value := by
    obtain ⟨before, after, hsplit⟩ := List.append_of_mem hmem
    refine List.lookup_eq_some_iff.mpr ⟨before, after, hsplit, fun pair hpair => bne_iff_ne.mpr fun heq => ?_⟩
    have hnodup := nodup_assignments call
    rw [hsplit, List.map_append, List.nodup_append] at hnodup
    exact hnodup.2.2 _ (List.mem_map_of_mem hpair) _ (by simp) heq.symm
  rw [written, hlookup]

/-- The other columns are as before. -/
theorem written_of_not_mem {row : Row} {column : List UInt8} (hcolumn : column ∉ assigned) :
    written call row column = row column := by
  have hlookup : call.update.assignments.lookup column = none := by
    refine List.lookup_eq_none_iff.mpr fun pair hpair => bne_iff_ne.mpr fun heq => hcolumn ?_
    rw [heq, ← map_fst_assignments call]
    exact List.mem_map_of_mem hpair
  rw [written, hlookup]

/-- A column that is never assigned is as before. -/
theorem rowAfter_of_not_mem {last : Option UpdateCall} {row : Row} {column : List UInt8}
    (hcolumn : column ∉ assigned) : rowAfter last row column = row column := by
  cases last with
  | none => rfl
  | some call => exact written_of_not_mem hcolumn

/-- A second call overwrites everything the first has written. -/
theorem written_rowAfter (call : UpdateCall) (last : Option UpdateCall) (row : Row) :
    written call (rowAfter last row) = written call row := by
  funext column
  rw [written, written]
  split
  · rfl
  · next hnone =>
    refine rowAfter_of_not_mem fun hmem => ?_
    rw [← map_fst_assignments call] at hmem
    obtain ⟨pair, hpair, rfl⟩ := List.mem_map.mp hmem
    exact absurd rfl (bne_iff_ne.mp (List.lookup_eq_none_iff.mp hnone pair hpair))

/-- A row whose assigned columns have their cells, and whose others are as before, is the row written. -/
theorem Suitable.written_of_updated (h : Suitable engine call) {before after : Row}
    (hupdated : Updated engine call.update.assignments before after) : after = written call before := by
  funext column
  by_cases hcolumn : column ∈ assigned
  · rw [← map_fst_assignments call] at hcolumn
    obtain ⟨⟨_, value⟩, hmem, rfl⟩ := List.mem_map.mp hcolumn
    rw [hupdated.assigned _ hmem, h.cell hmem, written_of_mem hmem]
  · rw [hupdated.others column hcolumn, written_of_not_mem hcolumn]

/-- The row of a user after a suitable call for any user. -/
theorem Suitable.contents_execute (h : Suitable engine call) (hupdates : Updates mysql engine contents) (id : UInt32) :
    contents (call.execute mysql s) id =
      (contents s id).map fun row => if call.id = id then written call row else row := by
  have htaken := hupdates.taken s _ _ call.id h.read rfl rfl rfl (nodup_assignments call) (id_not_mem_assignments call)
    h.taken
  change _ ∧ ∀ other ≠ call.id, contents (call.execute mysql s) other = contents s other at htaken
  by_cases hid : call.id = id
  · subst hid
    have hrow : Option.Rel (Updated engine call.update.assignments) (contents s call.id)
      (contents (call.execute mysql s) call.id) := htaken.1
    generalize contents s call.id = before at hrow ⊢
    generalize contents (call.execute mysql s) call.id = after at hrow ⊢
    cases hrow with
    | none => rfl
    | some hupdated => rw [Option.map_some, if_pos rfl, h.written_of_updated hupdated]
  · rw [htaken.2 id (Ne.symm hid)]
    simp only [if_neg hid, Option.map_id']

/-- The row of a user after any suitable calls. -/
theorem Updates.run (hupdates : Updates mysql engine contents) (hcalls : ∀ call ∈ calls, Suitable engine call)
    (id : UInt32) : contents (calls.foldl (UpdateCall.execute mysql) s) id =
      (contents s id).map (rowAfter (lastFor id calls)) := by
  induction calls using List.reverseRecOn with
  | nil => exact Option.map_id'.symm
  | append_singleton calls call ih =>
    have hrow := ih fun other hother => hcalls other (List.mem_append_left _ hother)
    have hcall := hcalls call (by simp)
    rw [List.foldl_append, List.foldl_cons, List.foldl_nil, hcall.contents_execute hupdates, hrow, Option.map_map]
    congr 1
    funext row
    rw [Function.comp_apply, lastFor_append]
    by_cases hid : call.id = id
    · rw [if_pos hid, if_pos hid, written_rowAfter]
      rfl
    · rw [if_neg hid, if_neg hid]

/-! ## Queries -/

/-- What `queryUser` reads of the fields that a call has written. -/
def UserRecord.withFields (u : UserRecord) (t : UserTable) : UserRecord :=
  { u with
    nSex := t.nSex, nStatus := t.nStatus, nDeptId := t.nDeptId, strNick := t.strNick, strDomain := t.strDomain,
    strName := t.strName, strTel := t.strTel, strEmail := t.strEmail, strAvatar := t.strAvatar,
    sign_info := t.sign_info }

/-- A number of 32 bits that is read back as an integer. -/
theorem ofInt_toNat_UInt32 (n : UInt32) : UInt32.ofInt (n.toNat : ℤ) = n := by
  have hn := n.toNat_lt
  rw [UInt32.ofInt, ← UInt32.toNat_inj, UInt32.toNat_ofNat']
  omega

/-- A number of 8 bits that is read back as an integer. -/
theorem ofInt_toNat_UInt8 (n : UInt8) : UInt8.ofInt (n.toNat : ℤ) = n := by
  have hn := n.toNat_lt
  rw [UInt8.ofInt, ← UInt8.toNat_inj, UInt8.toNat_ofNat']
  omega

/-- The texts of an object that `queryUser` reads. -/
def UserTable.queriedTexts (t : UserTable) : List (List UInt8) :=
  [t.strNick, t.strDomain, t.strName, t.strTel, t.strEmail, t.strAvatar, t.sign_info]

/-- A row with the identifier, the fields of an object that `queryUser` reads, and the validation method. -/
structure Stored (id : UInt32) (t : UserTable) (method : UInt8) (row : Row) : Prop where
  id : row (ascii "id") = some (decimal id.toNat)
  sex : row (ascii "sex") = some (decimal t.nSex.toNat)
  nick : row (ascii "nick") = some t.strNick
  domain : row (ascii "domain") = some t.strDomain
  name : row (ascii "name") = some t.strName
  phone : row (ascii "phone") = some t.strTel
  email : row (ascii "email") = some t.strEmail
  avatar : row (ascii "avatar") = some t.strAvatar
  sign_info : row (ascii "sign_info") = some t.sign_info
  departId : row (ascii "departId") = some (decimal t.nDeptId.toNat)
  validateMethod : row (ascii "validateMethod") = some (decimal method.toNat)
  status : row (ascii "status") = some (decimal t.nStatus.toNat)
  nonzero : ∀ text ∈ t.queriedTexts, 0 ∉ text

/-- What is read from such a row, if `int` holds the identifier and the department. -/
theorem Stored.ofRow {t : UserTable} {method : UInt8} {row : Row} (h : Stored id t method row) (u : UserRecord) :
    u.ofRow row = if id.toNat < 2 ^ 31 ∧ t.nDeptId.toNat < 2 ^ 31 then
      some { u.withFields t with nId := id, nValidateMethod := method.toUInt32 } else none := by
  have hsmall (n : UInt8) : n.toNat < 2 ^ 31 := n.toNat_lt.trans (by decide)
  have hmethod : UInt32.ofInt (method.toNat : ℤ) = method.toUInt32 := ofInt_toNat_UInt32 method.toUInt32
  have hnonzero := h.nonzero
  simp only [UserTable.queriedTexts, List.forall_mem_cons] at hnonzero
  obtain ⟨hNick, hDomain, hName, hTel, hEmail, hAvatar, hsign, -⟩ := hnonzero
  -- the texts are read to their ends, the numbers as they were written
  unfold UserRecord.ofRow
  rw [h.id, h.sex, h.nick, h.domain, h.name, h.phone, h.email, h.avatar, h.sign_info, h.departId, h.validateMethod,
    h.status]
  simp only [Option.bind_eq_bind, Option.bind_some, Option.map_some, atoi_decimal, if_pos (hsmall _),
    untilZero_of_not_mem hNick, untilZero_of_not_mem hDomain, untilZero_of_not_mem hName, untilZero_of_not_mem hTel,
    untilZero_of_not_mem hEmail, untilZero_of_not_mem hAvatar, untilZero_of_not_mem hsign, ofInt_toNat_UInt8, hmethod]
  by_cases hid : id.toNat < 2 ^ 31
  · by_cases hdept : t.nDeptId.toNat < 2 ^ 31
    · rw [if_pos hid, if_pos hdept, if_pos ⟨hid, hdept⟩]
      simp only [Option.bind_some, ofInt_toNat_UInt32]
      rfl
    · have hnot : ¬ (id.toNat < 2 ^ 31 ∧ t.nDeptId.toNat < 2 ^ 31) := fun hboth => hdept hboth.2
      rw [if_pos hid, if_neg hdept, if_neg hnot]
      rfl
  · have hnot : ¬ (id.toNat < 2 ^ 31 ∧ t.nDeptId.toNat < 2 ^ 31) := fun hboth => hid hboth.1
    rw [if_neg hid, if_neg hnot]
    rfl

/-- A row that a call has written. -/
theorem Suitable.stored (h : Suitable engine call) {row : Row} (hid : row (ascii "id") = some (decimal id.toNat))
    {method : UInt8} (hmethod : row (ascii "validateMethod") = some (decimal method.toNat)) :
    Stored id call.object method (written call row) where
  id := (written_of_not_mem id_not_mem_assigned).trans hid
  sex := rfl
  nick := rfl
  domain := rfl
  name := rfl
  phone := rfl
  email := rfl
  avatar := rfl
  sign_info := rfl
  departId := rfl
  validateMethod := (written_of_not_mem (by decide)).trans hmethod
  status := rfl
  nonzero := by
    have hnonzero := h.nonzero
    simp only [UserTable.fields, List.forall_mem_cons] at hnonzero
    obtain ⟨hNick, hName, hTel, hEmail, hAvatar, hsign, -⟩ := hnonzero
    have hdomain : 0 ∉ call.object.strDomain := zero_not_mem_of_all rfl
    simp only [UserTable.queriedTexts, List.forall_mem_cons, List.not_mem_nil, false_imp_iff, implies_true, and_true]
    exact ⟨hNick, hdomain, hName, hTel, hEmail, hAvatar, hsign⟩

/-- After any suitable calls of `updateInfo` on any objects, `queryUser` reads into any object what the last call for
its user wrote; calls for other users do not change what it reads. -/
theorem queryUser_of_run (hselects : Selects mysql contents) (hupdates : Updates mysql engine contents)
    (hcalls : ∀ call ∈ calls, Suitable engine call) {row : Row} (hrow : contents s id = some row)
    (hid : id.toNat < 2 ^ 31) {method : UInt8}
    (hmethod : row (ascii "validateMethod") = some (decimal method.toNat)) (u : UserRecord) :
    (∀ call, lastFor id calls = some call → call.user.nDeptId.toNat < 2 ^ 31 →
      u.queryUser (executeQuery mysql (calls.foldl (UpdateCall.execute mysql) s) (querySql id)) =
        some (true, { u.withFields call.object with nId := id, nValidateMethod := method.toUInt32 })) ∧
    (lastFor id calls = none →
      u.queryUser (executeQuery mysql (calls.foldl (UpdateCall.execute mysql) s) (querySql id)) =
        u.queryUser (executeQuery mysql s (querySql id))) := by
  rw [hselects.queryUser, hselects.queryUser, hupdates.run hcalls, hrow]
  refine ⟨fun call hlast hdept => ?_, fun hlast => ?_⟩
  · have hcall : Suitable engine call := hcalls call (List.mem_reverse.mp (List.mem_of_find?_eq_some hlast))
    have hread := (hcall.stored (hselects.id s id row hrow) hmethod).ofRow u
    rw [if_pos ⟨hid, hdept⟩] at hread
    rw [hlast]
    change (u.ofRow (written call row)).map _ = _
    rw [hread]
    rfl
  · rw [hlast]
    rfl

/-! ## Results that `queryUser` does not expect -/

/-- A column of numbers is read if there is a cell that `int` holds. -/
theorem atoi_isSome_iff {row : Row} (h : Conforms imUser row) (column : Column) (hcolumn : column ∈ imUser) {bits : ℕ}
    (htype : column.type = .unsigned bits) : ((row column.name).bind atoi).isSome ↔
      (row column.name).isSome ∧ ∀ cell ∈ row column.name, number cell < 2 ^ 31 := by
  have hholds := h.holds column hcolumn
  cases hcell : row column.name with
  | none => simp
  | some cell =>
    rw [hcell, htype] at hholds
    obtain ⟨n, -, rfl⟩ := hholds cell rfl
    rw [Option.bind_some, atoi_decimal]
    simp [number_decimal, Option.isSome_ite]

/-- A column of bytes is read if there is a cell. -/
theorem atoi_isSome_of_byte {row : Row} (h : Conforms imUser row) (column : Column) (hcolumn : column ∈ imUser)
    (htype : column.type = .unsigned 8) : ((row column.name).bind atoi).isSome ↔ (row column.name).isSome := by
  rw [atoi_isSome_iff h column hcolumn htype]
  refine and_iff_left_of_imp fun _ cell hcell => ?_
  have hholds := h.holds column hcolumn cell hcell
  rw [htype] at hholds
  exact (ColumnType.holds_unsigned.mp hholds).1.trans (by decide)

/-- On a result with the columns of the table, whose rows conform to them, `queryUser` is defined exactly if its first
row has an avatar, a validation method and a status, and `int` holds the identifier and the department. -/
theorem queryUser_isSome_iff {names : List (List UInt8)} (hnames : ∀ column ∈ imUser, column.name ∈ names)
    {rows : List Row} (hconforms : ∀ row ∈ rows, Conforms imUser row) (u : UserRecord) :
    (u.queryUser (some (.new names (rows.map fun row => names.map row)))).isSome ↔ ∀ row, rows.head? = some row →
      (∀ cell ∈ row (ascii "id"), number cell < 2 ^ 31) ∧ (∀ cell ∈ row (ascii "departId"), number cell < 2 ^ 31) ∧
        (row (ascii "avatar")).isSome ∧ (row (ascii "validateMethod")).isSome ∧ (row (ascii "status")).isSome := by
  have hqueried : ∀ key ∈ queried, key ∈ names := fun key hkey => by
    obtain ⟨column, hcolumn, rfl⟩ := List.mem_map.mp (queried_imUser key hkey)
    exact hnames column hcolumn
  rw [u.queryUser_new hqueried]
  cases hrow : rows.head? with
  | none => simp
  | some row =>
    have hrowConforms := hconforms row (List.mem_of_head? hrow)
    have hcell (column : Column) (hcolumn : column ∈ imUser) (hnot : column.nullable = false) :
        (row column.name).isSome := hrowConforms.cell column hcolumn hnot
    have hnumber := atoi_isSome_iff hrowConforms ⟨ascii "id", .unsigned 32, false⟩ (by decide) rfl
    have hdepart := atoi_isSome_iff hrowConforms ⟨ascii "departId", .unsigned 32, false⟩ (by decide) rfl
    have hsex := atoi_isSome_of_byte hrowConforms ⟨ascii "sex", .unsigned 8, false⟩ (by decide) rfl
    have hmethod := atoi_isSome_of_byte hrowConforms ⟨ascii "validateMethod", .unsigned 8, true⟩ (by decide) rfl
    have hstatus := atoi_isSome_of_byte hrowConforms ⟨ascii "status", .unsigned 8, true⟩ (by decide) rfl
    -- the columns that are not nullable
    have hidCell := hcell ⟨ascii "id", .unsigned 32, false⟩ (by decide) rfl
    have hsexCell := hcell ⟨ascii "sex", .unsigned 8, false⟩ (by decide) rfl
    have hdepartCell := hcell ⟨ascii "departId", .unsigned 32, false⟩ (by decide) rfl
    have hnick := hcell ⟨ascii "nick", .varchar 32, false⟩ (by decide) rfl
    have hdomain := hcell ⟨ascii "domain", .varchar 32, false⟩ (by decide) rfl
    have hname := hcell ⟨ascii "name", .varchar 32, false⟩ (by decide) rfl
    have hphone := hcell ⟨ascii "phone", .varchar 11, false⟩ (by decide) rfl
    have hemail := hcell ⟨ascii "email", .varchar 64, false⟩ (by decide) rfl
    have hsign := hcell ⟨ascii "sign_info", .varchar 128, false⟩ (by decide) rfl
    rw [Option.elim_some, Option.isSome_map, UserRecord.ofRow_isSome]
    simp only [List.forall_mem_cons, List.not_mem_nil, false_imp_iff, implies_true, and_true, Option.some.injEq,
      forall_eq', hnumber, hsex, hdepart, hmethod, hstatus, hidCell, hsexCell, hdepartCell, hnick, hdomain, hname,
      hphone, hemail, hsign, true_and]
    constructor
    · rintro ⟨⟨hid, hdept, hmethod, hstatus⟩, havatar⟩
      exact ⟨hid, hdept, havatar, hmethod, hstatus⟩
    · rintro ⟨hid, hdept, havatar, hmethod, hstatus⟩
      exact ⟨⟨hid, hdept, hmethod, hstatus⟩, havatar⟩

/-! ## Two users -/

/-- Calls whose cells can be compared one by one. -/
theorem suitable_of_cells (hplain : ∀ value ∈ call.user.fields, Plain apostrophe value)
    (hnonzero : ∀ value ∈ call.user.fields, 0 ∉ value)
    (hfits : ∀ column ∈ imUser, ∀ assignment ∈ call.update.assignments, assignment.1 = column.name →
      engine.stored column.type assignment.2 = some assignment.2.cell) : Suitable engine call where
  plain := hplain
  nonzero := hnonzero
  fits := fun column hcolumn _ _ bytes hmem => hfits column hcolumn (column.name, .text bytes) hmem rfl

/-- A store with the users 1 and 2. -/
def twoUsers : Store := ⟨fun id => if id = 1 ∨ id = 2 then some (defaultRow id) else none, 3⟩

/-- Two calls for user 1, with one for user 2 between them. -/
def threeCalls : List UpdateCall :=
  [⟨UserTable.init, 5, 1⟩, ⟨UserTable.init, 6, 2⟩,
    ⟨{ UserTable.init with strNick := ascii "a\\%b", nDeptId := 7 }, 7, 1⟩]

/-- The three calls are suitable for an engine that takes no more than it must. -/
theorem suitable_threeCalls : ∀ call ∈ threeCalls, Suitable Engine.strict call := by
  simp only [threeCalls, List.forall_mem_cons, List.not_mem_nil, false_imp_iff, implies_true, and_true]
  exact ⟨suitable_of_cells (by decide) (by decide) (by decide +kernel),
    suitable_of_cells (by decide) (by decide) (by decide +kernel),
    suitable_of_cells (by decide) (by decide) (by decide +kernel)⟩

/-- An object before `queryUser`. -/
def blankRecord : UserRecord := { UserTable.init with nId := 0, nValidateMethod := 0 }

/-- User 1 has the nickname of the second call for it. -/
theorem queryUser_of_run_threeCalls : ∃ call, lastFor 1 threeCalls = some call ∧ call.user.strNick = ascii "a\\%b" ∧
    blankRecord.queryUser (executeQuery (Mysql.store Engine.strict)
      (threeCalls.foldl (UpdateCall.execute (Mysql.store Engine.strict)) twoUsers) (querySql 1)) =
      some (true, { blankRecord.withFields call.object with nId := 1, nValidateMethod := (1 : UInt8).toUInt32 }) := by
  have hrow : twoUsers.contents 1 =
      some (Function.update (defaultRow 1) (ascii "id") (some (decimal (1 : UInt32).toNat))) := rfl
  have hmethod : Function.update (defaultRow 1) (ascii "id") (some (decimal (1 : UInt32).toNat))
      (ascii "validateMethod") = some (decimal (1 : UInt8).toNat) := by decide
  exact ⟨_, rfl, rfl, (queryUser_of_run (Mysql.store_selects _) (Mysql.store_updates _) suitable_threeCalls hrow
    (by decide) hmethod blankRecord).1 _ rfl (by decide)⟩

/-- A result of two rows with everything that is read. -/
theorem queryUser_isSome_iff_twoUsers : (blankRecord.queryUser
    (some (.new fieldNames ([defaultRow 1, defaultRow 2].map fun row => fieldNames.map row)))).isSome := by
  have hconforms : ∀ row ∈ [defaultRow 1, defaultRow 2], Conforms imUser row := by
    simp only [List.forall_mem_cons, List.not_mem_nil, false_imp_iff, implies_true, and_true]
    exact ⟨by decide +kernel, by decide +kernel⟩
  have hnames : ∀ column ∈ imUser, column.name ∈ fieldNames := fun column hcolumn => List.mem_map_of_mem hcolumn
  refine (queryUser_isSome_iff hnames hconforms blankRecord).mpr fun row hrow => ?_
  obtain rfl := Option.some.inj hrow
  decide +kernel

end CppProject.DBPool
