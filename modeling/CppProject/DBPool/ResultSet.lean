import CppProject.DBPool.UserTable
import CppProject.Lib.CString
import CppProject.Lib.SqlTable

/-!
# Reading a user

`ResultSet` finds a cell of the current row by the name of its column, and gives it as an integer or as a pointer to
its text. `UserTable::queryUser` reads the first row of its result into the object. A function has no result if it
goes through a null pointer, or if `atoi` meets a number that `int` does not hold.
-/

namespace CppProject.DBPool

open Sql CString

/-- `MYSQL_ROW`: the text of each field, or a null pointer. -/
abbrev MysqlRow := List (Option (List UInt8))

/-! ## `ResultSet` -/

/-- `ResultSet`; the rows of `m_res` are those that have not been fetched. -/
structure ResultSet where
  mKeyMap : List UInt8 → Option ℕ
  mRes : List MysqlRow
  mRow : Option MysqlRow

/-- The loop of the constructor over the names of the fields; `insert` keeps an entry that is there. -/
def keyMap (names : List (List UInt8)) : List UInt8 → Option ℕ :=
  names.zipIdx.foldl (fun map (name, i) => if (map name).isSome then map else Function.update map name (some i))
    fun _ => none

/-- A number with or without a sign, up to the first byte that is no digit. -/
def signedNumber : List UInt8 → ℤ
  | 45 :: rest => -(number (rest.takeWhile isDigit) : ℤ)
  | 43 :: rest => number (rest.takeWhile isDigit)
  | rest => number (rest.takeWhile isDigit)

/-- `atoi`. -/
def atoi (text : List UInt8) : Option ℤ :=
  let value := signedNumber ((untilZero text).dropWhile isSpace)
  if -2 ^ 31 ≤ value ∧ value < 2 ^ 31 then some value else none

namespace ResultSet

/-- `ResultSet::ResultSet`. -/
def new (names : List (List UInt8)) (rows : List MysqlRow) : ResultSet where
  mKeyMap := keyMap names
  mRes := rows
  mRow := none

/-- `ResultSet::Next`. -/
def next (r : ResultSet) : Bool × ResultSet :=
  match r.mRes with
  | [] => (false, { r with mRow := none })
  | row :: rest => (true, { r with mRow := some row, mRes := rest })

/-- `ResultSet::GetIndex`. -/
def getIndex (r : ResultSet) (key : List UInt8) : ℤ :=
  match r.mKeyMap key with
  | some i => i
  | none => -1

/-- `ResultSet::GetInt`. -/
def getInt (r : ResultSet) (key : List UInt8) : Option ℤ :=
  let idx := r.getIndex key
  if idx ≠ -1 then r.mRow.bind fun row => (row[idx.toNat]?.join).bind atoi else some (-1)

/-- `ResultSet::GetString`. -/
def getString (r : ResultSet) (key : List UInt8) : Option (Option (List UInt8)) :=
  let idx := r.getIndex key
  if idx ≠ -1 then r.mRow.bind fun row => row[idx.toNat]? else some none

/-- A `string` assigned from `GetString`, which must not be a null pointer. -/
def text (r : ResultSet) (key : List UInt8) : Option (List UInt8) := (r.getString key).bind fun p => p.map untilZero

end ResultSet

/-! ## `queryUser` -/

/-- `UserTable`, with the fields that `queryUser` reads too. -/
structure UserRecord extends UserTable where
  nId : UInt32
  nValidateMethod : UInt32

/-- The text `strsql`. -/
def querySql (id : UInt32) : List UInt8 := ascii "select * from IMUser where id=" ++ int2string id

/-- The assignments of `queryUser` from the current row. -/
def UserRecord.read (u : UserRecord) (r : ResultSet) : Option UserRecord := do
  let nId ← r.getInt (ascii "id")
  let nSex ← r.getInt (ascii "sex")
  let strNick ← r.text (ascii "nick")
  let strDomain ← r.text (ascii "domain")
  let strName ← r.text (ascii "name")
  let strTel ← r.text (ascii "phone")
  let strEmail ← r.text (ascii "email")
  let strAvatar ← r.text (ascii "avatar")
  let sign_info ← r.text (ascii "sign_info")
  let nDeptId ← r.getInt (ascii "departId")
  let nValidateMethod ← r.getInt (ascii "validateMethod")
  let nStatus ← r.getInt (ascii "status")
  some { u with
    nId := UInt32.ofInt nId, nSex := UInt8.ofInt nSex, strNick, strDomain, strName, strTel, strEmail, strAvatar,
    sign_info, nDeptId := UInt32.ofInt nDeptId, nValidateMethod := UInt32.ofInt nValidateMethod,
    nStatus := UInt8.ofInt nStatus }

/-- `UserTable::queryUser`, from the result of `ExecuteQuery` on: what it returns, and the object. -/
def UserRecord.queryUser (u : UserRecord) (pResultSet : Option ResultSet) : Option (Bool × UserRecord) :=
  match pResultSet with
  | none => some (false, u)
  | some r =>
    let (found, r) := r.next
    if found then (u.read r).map fun u => (true, u) else some (false, u)

/-! ## Cells by name -/

variable {names : List (List UInt8)} {key : List UInt8} {row : Row} {rest : List MysqlRow}

/-- The first field of a name counts. -/
theorem keyMap_eq (names : List (List UInt8)) (key : List UInt8) : keyMap names key = names.idxOf? key := by
  have hfold : ∀ (names : List (List UInt8)) (start : ℕ) (map : List UInt8 → Option ℕ),
      (names.zipIdx start).foldl (fun map (name, i) =>
        if (map name).isSome then map else Function.update map name (some i)) map key =
          (map key).or ((names.idxOf? key).map (· + start)) := by
    intro names
    induction names with
    | nil => simp
    | cons name names ih =>
      intro start map
      rw [List.zipIdx_cons, List.foldl_cons, ih, List.idxOf?_cons]
      by_cases hname : name = key
      · subst hname
        cases hmap : map name with
        | some i => simp [hmap]
        | none => simp [hmap]
      · have hkept : (if (map name).isSome then map else Function.update map name (some start)) key = map key := by
          split
          · rfl
          · exact Function.update_of_ne (Ne.symm hname) _ _
        simp only [hkept, beq_eq_false_iff_ne.mpr hname, Bool.false_eq_true, if_false, Option.map_map]
        congr 2
        funext i
        simp only [Function.comp_apply]
        omega
  simpa [keyMap] using hfold names 0 fun _ => none

/-- A result whose current row has the cells of a row of the table. -/
def ResultSet.onRow (names : List (List UInt8)) (rest : List MysqlRow) (row : Row) : ResultSet where
  mKeyMap := keyMap names
  mRes := rest
  mRow := some (names.map row)

namespace ResultSet

/-- The index of a name leads to the cell under it. -/
theorem getIndex_onRow (rest : List MysqlRow) (row : Row) (hkey : key ∈ names) :
    ∃ i : ℕ, (onRow names rest row).getIndex key = i ∧
    (names.map row)[i]? = some (row key) := by
  obtain ⟨i, hi⟩ := Option.isSome_iff_exists.mp (List.isSome_idxOf?.mpr hkey)
  refine ⟨i, ?_, ?_⟩
  · rw [getIndex, onRow]
    simp only [keyMap_eq, hi]
  · obtain ⟨hlt, heq, -⟩ := List.idxOf?_eq_some_iff.mp hi
    rw [List.getElem?_map, List.getElem?_eq_getElem hlt, Option.map_some, heq]

/-- The integer in the cell under a name. -/
theorem getInt_onRow (hkey : key ∈ names) : (onRow names rest row).getInt key = (row key).bind atoi := by
  obtain ⟨i, hi, hcell⟩ := getIndex_onRow rest row hkey
  have hne : (i : ℤ) ≠ -1 := by omega
  rw [getInt, hi]
  simp only [if_pos hne, onRow, Option.bind_some, Int.toNat_natCast, hcell, Option.join_some]

/-- The text of the cell under a name, up to its first zero byte. -/
theorem text_onRow (hkey : key ∈ names) : (onRow names rest row).text key = (row key).map untilZero := by
  obtain ⟨i, hi, hcell⟩ := getIndex_onRow rest row hkey
  have hne : (i : ℤ) ≠ -1 := by omega
  rw [text, getString, hi]
  simp only [if_pos hne, onRow, Option.bind_some, Int.toNat_natCast, hcell]

end ResultSet

/-! ## Numbers -/

/-- The digits of a number have no zero byte. -/
theorem zero_not_mem_decimal (n : ℕ) : 0 ∉ decimal n := fun h => absurd ((decimal_digits n).2 0 h) (by decide)

/-- `atoi` reads the digits of a number that `int` holds. -/
theorem atoi_decimal (n : ℕ) : atoi (decimal n) = if n < 2 ^ 31 then some (n : ℤ) else none := by
  obtain ⟨hne, hdigits⟩ := decimal_digits n
  have hall : (decimal n).takeWhile isDigit = decimal n := List.takeWhile_eq_self_iff.mpr hdigits
  have hvalue : signedNumber ((untilZero (decimal n)).dropWhile isSpace) = n := by
    rw [untilZero_of_not_mem (zero_not_mem_decimal n)]
    have hnumber := number_decimal n
    obtain ⟨b, rest, hcons⟩ := List.exists_cons_of_ne_nil hne
    rw [hcons] at hall hnumber hdigits ⊢
    have hb : isDigit b = true := hdigits b List.mem_cons_self
    have hspace : isSpace b = false := Bool.eq_false_iff.mpr fun h => by
      have henter := enter_of_isDigit hb
      rw [enter, if_pos h] at henter
      cases (Prod.mk.inj henter).2
    have hsign {c : UInt8} {other : List UInt8} (hc : isDigit c = false) : b :: rest ≠ c :: other := fun heq => by
      obtain ⟨rfl, -⟩ := List.cons.inj heq
      exact absurd (hb.symm.trans hc) (by decide)
    rw [List.dropWhile_cons_of_neg (by simp [hspace]), signedNumber, hall, hnumber]
    · exact fun _ => hsign (by decide)
    · exact fun _ => hsign (by decide)
  rw [atoi, hvalue]
  by_cases hn : n < 2 ^ 31
  · rw [if_pos hn, if_pos ⟨by omega, by omega⟩]
  · rw [if_neg hn, if_neg fun h => hn (by omega)]

/-! ## The first row -/

/-- The assignments of `queryUser` from the cells of a row. -/
def UserRecord.ofRow (u : UserRecord) (row : Row) : Option UserRecord := do
  let nId ← (row (ascii "id")).bind atoi
  let nSex ← (row (ascii "sex")).bind atoi
  let strNick ← (row (ascii "nick")).map untilZero
  let strDomain ← (row (ascii "domain")).map untilZero
  let strName ← (row (ascii "name")).map untilZero
  let strTel ← (row (ascii "phone")).map untilZero
  let strEmail ← (row (ascii "email")).map untilZero
  let strAvatar ← (row (ascii "avatar")).map untilZero
  let sign_info ← (row (ascii "sign_info")).map untilZero
  let nDeptId ← (row (ascii "departId")).bind atoi
  let nValidateMethod ← (row (ascii "validateMethod")).bind atoi
  let nStatus ← (row (ascii "status")).bind atoi
  some { u with
    nId := UInt32.ofInt nId, nSex := UInt8.ofInt nSex, strNick, strDomain, strName, strTel, strEmail, strAvatar,
    sign_info, nDeptId := UInt32.ofInt nDeptId, nValidateMethod := UInt32.ofInt nValidateMethod,
    nStatus := UInt8.ofInt nStatus }

/-- The columns `queryUser` reads. -/
def queried : List (List UInt8) :=
  [ascii "id", ascii "sex", ascii "nick", ascii "domain", ascii "name", ascii "phone", ascii "email", ascii "avatar",
    ascii "sign_info", ascii "departId", ascii "validateMethod", ascii "status"]

/-- `queryUser` reads the cells under its twelve names. -/
theorem UserRecord.read_onRow (u : UserRecord) (hqueried : ∀ key ∈ queried, key ∈ names) :
    u.read (.onRow names rest row) = u.ofRow row := by
  simp only [queried, List.forall_mem_cons] at hqueried
  obtain ⟨hid, hsex, hnick, hdomain, hname, hphone, hemail, havatar, hsign, hdepart, hmethod, hstatus, -⟩ := hqueried
  rw [UserRecord.read, UserRecord.ofRow, ResultSet.getInt_onRow hid, ResultSet.getInt_onRow hsex,
    ResultSet.text_onRow hnick, ResultSet.text_onRow hdomain, ResultSet.text_onRow hname, ResultSet.text_onRow hphone,
    ResultSet.text_onRow hemail, ResultSet.text_onRow havatar, ResultSet.text_onRow hsign,
    ResultSet.getInt_onRow hdepart, ResultSet.getInt_onRow hmethod, ResultSet.getInt_onRow hstatus]

/-- `queryUser` reads the first row that the server finds, and needs no other. -/
theorem UserRecord.queryUser_new (u : UserRecord) (hqueried : ∀ key ∈ queried, key ∈ names) (rows : List Row) :
    u.queryUser (some (.new names (rows.map names.map))) =
      rows.head?.elim (some (false, u)) fun row => (u.ofRow row).map fun u => (true, u) := by
  cases rows with
  | nil => rfl
  | cons row rows =>
    change (u.read (.onRow names (rows.map names.map) row)).map (fun u => (true, u)) = _
    rw [u.read_onRow hqueried]
    rfl

/-- A literal whose bytes are compared one by one. -/
theorem zero_not_mem_of_all {bytes : List UInt8} (h : bytes.all (fun b => b != 0) = true) : 0 ∉ bytes :=
  fun hmem => by simpa using List.all_eq_true.mp h 0 hmem

/-- The text of `queryUser` reaches the server in full. -/
theorem zero_not_mem_querySql (id : UInt32) : 0 ∉ querySql id := fun h =>
  (List.mem_append.mp h).elim (zero_not_mem_of_all rfl) (zero_not_mem_decimal _)

/-- A computation in two steps, where the second does not depend on the value of the first. -/
theorem isSome_bind_iff {α β : Type*} {x : Option α} {f : α → Option β} {P : Prop} (h : ∀ a, (f a).isSome ↔ P) :
    (x.bind f).isSome ↔ x.isSome ∧ P := by
  cases x with
  | none => simp
  | some a => simp [h]

/-- Every cell that is read must be there, and every number one that `int` holds. -/
theorem UserRecord.ofRow_isSome (u : UserRecord) (row : Row) : (u.ofRow row).isSome ↔
    (∀ key ∈ [ascii "id", ascii "sex", ascii "departId", ascii "validateMethod", ascii "status"],
      ((row key).bind atoi).isSome) ∧
    ∀ key ∈ [ascii "nick", ascii "domain", ascii "name", ascii "phone", ascii "email", ascii "avatar",
      ascii "sign_info"], (row key).isSome := by
  have hall : (u.ofRow row).isSome ↔ _ := isSome_bind_iff fun _ => isSome_bind_iff fun _ => isSome_bind_iff fun _ =>
    isSome_bind_iff fun _ => isSome_bind_iff fun _ => isSome_bind_iff fun _ => isSome_bind_iff fun _ =>
    isSome_bind_iff fun _ => isSome_bind_iff fun _ => isSome_bind_iff fun _ => isSome_bind_iff fun _ =>
    isSome_bind_iff fun _ => iff_of_true rfl trivial
  rw [hall]
  simp only [Option.isSome_map, List.forall_mem_cons, List.not_mem_nil, false_imp_iff, implies_true, and_true]
  constructor
  · rintro ⟨hid, hsex, hnick, hdomain, hname, hphone, hemail, havatar, hsign, hdepart, hmethod, hstatus⟩
    exact ⟨⟨hid, hsex, hdepart, hmethod, hstatus⟩, hnick, hdomain, hname, hphone, hemail, havatar, hsign⟩
  · rintro ⟨⟨hid, hsex, hdepart, hmethod, hstatus⟩, hnick, hdomain, hname, hphone, hemail, havatar, hsign⟩
    exact ⟨hid, hsex, hnick, hdomain, hname, hphone, hemail, havatar, hsign, hdepart, hmethod, hstatus⟩

end CppProject.DBPool
