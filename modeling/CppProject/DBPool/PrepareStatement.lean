import CppProject.DBPool.UserTable

/-!
# Parameters of a prepared statement

`PrepareStatement::setParam` writes the type and the address of a value into the record of its parameter.
MySQL reads the values when the statement is executed. The test on the index lets the number of
parameters itself pass, the overload for `uint8_t` takes the value for an address, and no overload sets
`is_unsigned`.
-/

namespace CppProject.DBPool

open Sql

/-- The values of `buffer_type` that occur. A record of zero bytes has `MYSQL_TYPE_DECIMAL`. -/
inductive FieldType where
  | decimal
  | long
  | string
  deriving DecidableEq

/-- The fields of a `MYSQL_BIND` that are written here or read for a parameter of these types. -/
structure MysqlBind where
  bufferType : FieldType
  buffer : ℕ
  bufferLength : ℕ
  isUnsigned : Bool
  deriving DecidableEq

/-- A record after `memset(m_param_bind, 0, ...)`. -/
def MysqlBind.zero : MysqlBind where
  bufferType := .decimal
  buffer := 0
  bufferLength := 0
  isUnsigned := false

/-- The records of the parameters, and how many there are. -/
structure PrepareStatement where
  mParamBind : List MysqlBind
  mParamCnt : UInt32
  deriving DecidableEq

/-- `PrepareStatement::Init` for a statement with `n` parameters, where nothing fails. -/
def PrepareStatement.init (n : UInt32) : PrepareStatement where
  mParamBind := List.replicate n.toNat .zero
  mParamCnt := n

/-- The argument `value` of a call of `setParam`, one constructor for each overload: where the value is stored,
and the value. Of a string it is the address and the content of its `c_str()`. -/
inductive Param where
  | int (address : ℕ) (value : Int32)
  | uint8 (address : ℕ) (value : UInt8)
  | uint32 (address : ℕ) (value : UInt32)
  | string (address : ℕ) (value : List UInt8)
  | constString (address : ℕ) (value : List UInt8)

namespace PrepareStatement

/-- What the overloads share. There is no result where the record written is not in the array. -/
def setBind (stmt : PrepareStatement) (index : UInt32) (f : MysqlBind → MysqlBind) : Option PrepareStatement :=
  if index > stmt.mParamCnt then some stmt
  else if index.toNat < stmt.mParamBind.length then
    some { stmt with mParamBind := stmt.mParamBind.modify index.toNat f }
  else none

/-- `setParam` for `int`. -/
def setParamInt (stmt : PrepareStatement) (index : UInt32) (address : ℕ) : Option PrepareStatement :=
  stmt.setBind index fun bind => { bind with bufferType := .long, buffer := address }

/-- `setParam` for `uint32_t`. -/
def setParamUInt32 (stmt : PrepareStatement) (index : UInt32) (address : ℕ) : Option PrepareStatement :=
  stmt.setBind index fun bind => { bind with bufferType := .long, buffer := address }

/-- `setParam` for `string`. -/
def setParamString (stmt : PrepareStatement) (index : UInt32) (address : ℕ) (value : List UInt8) :
    Option PrepareStatement :=
  stmt.setBind index fun bind =>
    { bind with bufferType := .string, buffer := address, bufferLength := value.length }

/-- `setParam` for `const string`. -/
def setParamConstString (stmt : PrepareStatement) (index : UInt32) (address : ℕ) (value : List UInt8) :
    Option PrepareStatement :=
  stmt.setBind index fun bind =>
    { bind with bufferType := .string, buffer := address, bufferLength := value.length }

/-- `(char*)value` is the value itself as an address. -/
def setParamUInt8 (stmt : PrepareStatement) (index : UInt32) (value : UInt8) : Option PrepareStatement :=
  stmt.setBind index fun bind => { bind with bufferType := .string, buffer := value.toNat }

/-- The call of `setParam` for an argument. -/
def setParam (stmt : PrepareStatement) (index : UInt32) : Param → Option PrepareStatement
  | .int address _ => stmt.setParamInt index address
  | .uint8 _ value => stmt.setParamUInt8 index value
  | .uint32 address _ => stmt.setParamUInt32 index address
  | .string address value => stmt.setParamString index address value
  | .constString address value => stmt.setParamConstString index address value

/-- A sequence of calls. -/
def setParams (stmt : PrepareStatement) (calls : List (UInt32 × Param)) : Option PrepareStatement :=
  calls.foldlM (fun stmt call => stmt.setParam call.1 call.2) stmt

end PrepareStatement

/-- The value of a parameter. -/
inductive Datum where
  | number (value : ℤ)
  | text (bytes : List UInt8)
  deriving DecidableEq

/-- The 32 bits at an address, the low byte first. -/
def word32 (memory : ℕ → UInt8) (address : ℕ) : BitVec 32 :=
  BitVec.ofNat 32 ((memory address).toNat + 256 * (memory (address + 1)).toNat
    + 65536 * (memory (address + 2)).toNat + 16777216 * (memory (address + 3)).toNat)

/-- What MySQL reads from a record. The type of a record never set is not used. -/
def MysqlBind.read (bind : MysqlBind) (memory : ℕ → UInt8) : Option Datum :=
  match bind.bufferType with
  | .long =>
    let word := word32 memory bind.buffer
    some (.number (if bind.isUnsigned then word.toNat else word.toInt))
  | .string => some (.text ((List.range bind.bufferLength).map fun k => memory (bind.buffer + k)))
  | .decimal => none

namespace Param

/-- The value meant. -/
def datum : Param → Datum
  | .int _ value => .number value.toInt
  | .uint8 _ value => .number value.toNat
  | .uint32 _ value => .number value.toNat
  | .string _ value => .text value
  | .constString _ value => .text value

/-- The bytes of the value in memory. -/
def bytes : Param → List UInt8
  | .int _ value => (List.range 4).map fun k => UInt8.ofNat (value.toBitVec.toNat / 256 ^ k)
  | .uint8 _ value => [value]
  | .uint32 _ value => (List.range 4).map fun k => UInt8.ofNat (value.toNat / 256 ^ k)
  | .string _ value => value
  | .constString _ value => value

/-- Where the value lies that a call passes by reference. -/
def address : Param → ℕ
  | .int address _ => address
  | .uint8 address _ => address
  | .uint32 address _ => address
  | .string address _ => address
  | .constString address _ => address

/-- When the statement is executed the value is where it was when it was set. -/
def AliveIn (param : Param) (memory : ℕ → UInt8) : Prop :=
  (List.range param.bytes.length).map (fun k => memory (param.address + k)) = param.bytes

instance (param : Param) (memory : ℕ → UInt8) : Decidable (param.AliveIn memory) :=
  inferInstanceAs (Decidable (_ = _))

/-- A value that arrives at MySQL: not of one byte, and not above `INT_MAX`. -/
def Readable : Param → Prop
  | .uint8 _ _ => False
  | .uint32 _ value => value.toNat < 2 ^ 31
  | _ => True

instance decidableReadable : (param : Param) → Decidable param.Readable
  | .int _ _ => inferInstanceAs (Decidable True)
  | .uint8 _ _ => inferInstanceAs (Decidable False)
  | .uint32 _ value => inferInstanceAs (Decidable (value.toNat < 2 ^ 31))
  | .string _ _ => inferInstanceAs (Decidable True)
  | .constString _ _ => inferInstanceAs (Decidable True)

end Param

/-- The last value set at an index. -/
def lastSet (calls : List (UInt32 × Param)) (i : ℕ) : Option Param :=
  ((calls.filter fun call => call.1.toNat = i).getLast?).map Prod.snd

/-- The parameters carry the values that were set: no call writes outside of the array, the calls with an
index that is too large are ignored, and MySQL reads at each index the last value set there. -/
def Carries (n : UInt32) (calls : List (UInt32 × Param)) (memory : ℕ → UInt8) : Prop :=
  ∃ stmt, (PrepareStatement.init n).setParams calls = some stmt ∧
    (PrepareStatement.init n).setParams (calls.filter fun call => call.1 < n) = some stmt ∧
    ∀ i < n.toNat, ∀ param, lastSet calls i = some param →
      ∃ bind, stmt.mParamBind[i]? = some bind ∧ bind.read memory = some param.datum

/-! ## One record -/

/-- What the call for an argument writes into the record. -/
def Param.write : Param → MysqlBind → MysqlBind
  | .int address _, bind => { bind with bufferType := .long, buffer := address }
  | .uint8 _ value, bind => { bind with bufferType := .string, buffer := value.toNat }
  | .uint32 address _, bind => { bind with bufferType := .long, buffer := address }
  | .string address value, bind =>
    { bind with bufferType := .string, buffer := address, bufferLength := value.length }
  | .constString address value, bind =>
    { bind with bufferType := .string, buffer := address, bufferLength := value.length }

variable {n index : UInt32} {stmt stmt' : PrepareStatement} {calls : List (UInt32 × Param)} {memory : ℕ → UInt8}

/-- Every overload writes one record. -/
theorem setParam_eq (stmt : PrepareStatement) (index : UInt32) (param : Param) :
    stmt.setParam index param = stmt.setBind index param.write := by
  cases param <;> rfl

/-- No overload sets `is_unsigned`. -/
@[simp] theorem isUnsigned_write (param : Param) (bind : MysqlBind) :
    (param.write bind).isUnsigned = bind.isUnsigned := by
  cases param <;> rfl

/-- Four bytes are read back as the number they are the digits of. -/
theorem word32_eq {address m : ℕ} (hm : m < 2 ^ 32)
    (h : ∀ k < 4, memory (address + k) = UInt8.ofNat (m / 256 ^ k)) : word32 memory address = BitVec.ofNat 32 m := by
  have hbyte (k : ℕ) (hk : k < 4) : (memory (address + k)).toNat = m / 256 ^ k % 256 := by
    rw [h k hk, UInt8.toNat_ofNat']
  have h0 := hbyte 0 (by decide)
  have h1 := hbyte 1 (by decide)
  have h2 := hbyte 2 (by decide)
  have h3 := hbyte 3 (by decide)
  rw [word32]
  congr 1
  simp only [add_zero] at h0
  omega

/-- Two memories that agree on a range of addresses. -/
theorem map_range_eq_iff {f g : ℕ → UInt8} {l : ℕ} :
    (List.range l).map f = (List.range l).map g ↔ ∀ k < l, f k = g k := by
  simp only [List.map_inj_left, List.mem_range]

/-- The bytes of a 32-bit value that is alive. -/
theorem word32_of_alive {address : ℕ} {w : BitVec 32}
    (h : (List.range 4).map (fun k => memory (address + k)) =
      (List.range 4).map fun k => UInt8.ofNat (w.toNat / 256 ^ k)) : word32 memory address = w := by
  rw [word32_eq w.isLt (map_range_eq_iff.mp h), BitVec.ofNat_toNat, BitVec.setWidth_eq]

/-- MySQL reads a value that is alive exactly if it is readable. -/
theorem read_write_iff {param : Param} {bind : MysqlBind} (halive : param.AliveIn memory)
    (hsigned : bind.isUnsigned = false) :
    (param.write bind).read memory = some param.datum ↔ param.Readable := by
  cases param with
  | int address value =>
    have hword : word32 memory address = value.toBitVec := word32_of_alive halive
    simp only [Param.write, MysqlBind.read, hsigned, hword, Param.datum, Param.Readable]
    simp
  | uint8 address value => simp [Param.write, MysqlBind.read, Param.datum, Param.Readable]
  | uint32 address value =>
    have hword : word32 memory address = value.toBitVec := word32_of_alive halive
    simp only [Param.write, MysqlBind.read, hsigned, hword, Param.datum, Param.Readable]
    have hlt := value.toNat_lt
    simp [BitVec.toInt_eq_toNat_cond]
    omega
  | string address value =>
    have hbytes : (List.range value.length).map (fun k => memory (address + k)) = value := halive
    simp [Param.write, MysqlBind.read, Param.datum, Param.Readable, hbytes]
  | constString address value =>
    have hbytes : (List.range value.length).map (fun k => memory (address + k)) = value := halive
    simp [Param.write, MysqlBind.read, Param.datum, Param.Readable, hbytes]

/-! ## One call -/

/-- A statement with `n` parameters and its array. -/
structure PrepareStatement.Shape (n : UInt32) (stmt : PrepareStatement) : Prop where
  mParamCnt : stmt.mParamCnt = n
  length : stmt.mParamBind.length = n.toNat

/-- A new statement has as many records as parameters. -/
theorem shape_init (n : UInt32) : (PrepareStatement.init n).Shape n :=
  ⟨rfl, List.length_replicate⟩

/-- A call with an index beyond the number of parameters does nothing. -/
theorem setParam_of_gt (h : stmt.Shape n) (hindex : n < index) (param : Param) :
    stmt.setParam index param = some stmt := by
  rw [setParam_eq, PrepareStatement.setBind, if_pos (h.mParamCnt.symm ▸ hindex)]

/-- A call with a smaller index writes the record under it. -/
theorem setParam_of_lt (h : stmt.Shape n) (hindex : index < n) (param : Param) :
    stmt.setParam index param =
      some { stmt with mParamBind := stmt.mParamBind.modify index.toNat param.write } := by
  have hle : ¬index > stmt.mParamCnt := h.mParamCnt.symm ▸ UInt32.not_lt.mpr (UInt32.le_of_lt hindex)
  rw [setParam_eq, PrepareStatement.setBind, if_neg hle, if_pos (h.length.symm ▸ UInt32.lt_iff_toNat_lt.mp hindex)]

/-- The index that the test lets pass although there is no such parameter. -/
theorem setParam_of_eq (h : stmt.Shape n) (param : Param) : stmt.setParam n param = none := by
  have hle : ¬n > stmt.mParamCnt := h.mParamCnt.symm ▸ UInt32.lt_irrefl n
  rw [setParam_eq, PrepareStatement.setBind, if_neg hle, if_neg (h.length.symm ▸ Nat.lt_irrefl _)]

/-- The three cases of the test on the index. -/
theorem index_cases (index n : UInt32) : index < n ∨ index = n ∨ n < index := by
  rw [UInt32.lt_iff_toNat_lt, UInt32.lt_iff_toNat_lt, ← UInt32.toNat_inj]
  exact Nat.lt_trichotomy ..

/-- A call leaves the number of records. -/
theorem PrepareStatement.Shape.setParam (h : stmt.Shape n) {param : Param}
    (hset : stmt.setParam index param = some stmt') : stmt'.Shape n := by
  obtain hlt | rfl | hgt := index_cases index n
  · rw [setParam_of_lt h hlt] at hset
    obtain rfl := Option.some.inj hset
    exact ⟨h.mParamCnt, (List.length_modify ..).trans h.length⟩
  · rw [setParam_of_eq h] at hset
    exact absurd hset nofun
  · rw [setParam_of_gt h hgt] at hset
    exact Option.some.inj hset ▸ h

/-! ## Sequences of calls -/

/-- Calls in two parts. -/
theorem setParams_append (first second : List (UInt32 × Param)) :
    stmt.setParams (first ++ second) = (stmt.setParams first).bind (·.setParams second) :=
  List.foldlM_append ..

/-- The first call, and the others. -/
theorem setParams_cons (call : UInt32 × Param) (calls : List (UInt32 × Param)) :
    stmt.setParams (call :: calls) = (stmt.setParam call.1 call.2).bind (·.setParams calls) := rfl

/-- A sequence of calls stays in the array only without the index that is off by one. -/
theorem index_ne_of_setParams (h : stmt.Shape n) (hset : stmt.setParams calls = some stmt') :
    ∀ call ∈ calls, call.1 ≠ n := by
  induction calls generalizing stmt with
  | nil => simp
  | cons call calls ih =>
    rw [setParams_cons] at hset
    obtain ⟨next, hcall, hcalls⟩ := Option.bind_eq_some_iff.mp hset
    refine List.forall_mem_cons.mpr ⟨?_, ih (h.setParam hcall) hcalls⟩
    intro heq
    rw [heq, setParam_of_eq h] at hcall
    exact absurd hcall nofun

/-- The calls whose index is too large change nothing. -/
theorem setParams_filter (h : stmt.Shape n) (hne : ∀ call ∈ calls, call.1 ≠ n) :
    stmt.setParams (calls.filter fun call => call.1 < n) = stmt.setParams calls := by
  induction calls generalizing stmt with
  | nil => rfl
  | cons call calls ih =>
    obtain ⟨hcall, hcalls⟩ := List.forall_mem_cons.mp hne
    obtain hlt | heq | hgt := index_cases call.1 n
    · rw [List.filter_cons_of_pos (by simpa using hlt), setParams_cons, setParams_cons, setParam_of_lt h hlt]
      exact ih (h.setParam (setParam_of_lt h hlt call.2)) hcalls
    · exact absurd heq hcall
    · have hnot : ¬call.1 < n := UInt32.not_lt.mpr (UInt32.le_of_lt hgt)
      rw [List.filter_cons_of_neg (by simpa using hnot), setParams_cons, setParam_of_gt h hgt]
      exact ih h hcalls

/-- The records after a sequence of calls: none is unsigned, and each holds what the last call for it wrote. -/
structure PrepareStatement.Filled (n : UInt32) (calls : List (UInt32 × Param)) (stmt : PrepareStatement) : Prop
    extends stmt.Shape n where
  signed : ∀ bind ∈ stmt.mParamBind, bind.isUnsigned = false
  last : ∀ i < n.toNat, ∀ param, lastSet calls i = some param →
    ∃ bind, bind.isUnsigned = false ∧ stmt.mParamBind[i]? = some (param.write bind)

/-- Before any call no parameter has a value. -/
theorem filled_init (n : UInt32) : (PrepareStatement.init n).Filled n [] where
  toShape := shape_init n
  signed := fun _ hbind => (List.eq_of_mem_replicate hbind).symm ▸ rfl
  last := fun _ _ _ hparam => absurd hparam nofun

/-- A call is the last one for its own index. -/
theorem lastSet_append_of_eq (calls : List (UInt32 × Param)) (index : UInt32) (param : Param) :
    lastSet (calls ++ [(index, param)]) index.toNat = some param := by
  simp [lastSet, List.filter_append]

/-- A call is not the last one for another index. -/
theorem lastSet_append_of_ne {i : ℕ} (calls : List (UInt32 × Param)) {index : UInt32} (param : Param)
    (hne : index.toNat ≠ i) : lastSet (calls ++ [(index, param)]) i = lastSet calls i := by
  simp [lastSet, List.filter_append, hne]

/-- One more call. -/
theorem PrepareStatement.Filled.setParam (h : stmt.Filled n calls) (hindex : index ≠ n) (param : Param) :
    ∃ stmt', stmt.setParam index param = some stmt' ∧ stmt'.Filled n (calls ++ [(index, param)]) := by
  obtain hlt | heq | hgt := index_cases index n
  · have hset := setParam_of_lt h.toShape hlt param
    have hlength : index.toNat < stmt.mParamBind.length := h.length.symm ▸ UInt32.lt_iff_toNat_lt.mp hlt
    refine ⟨_, hset, h.toShape.setParam hset, ?_, ?_⟩
    · intro bind hbind
      obtain ⟨i, hi⟩ := List.mem_iff_getElem?.mp hbind
      rw [List.getElem?_modify] at hi
      obtain ⟨old, hold, rfl⟩ := Option.map_eq_some_iff.mp hi
      have hsigned := h.signed old (List.mem_of_getElem? hold)
      split <;> simp [hsigned]
    · intro i hi last hlast
      by_cases hne : index.toNat = i
      · subst hne
        obtain rfl : param = last := by simpa [lastSet_append_of_eq] using hlast
        refine ⟨stmt.mParamBind[index.toNat], h.signed _ (List.getElem_mem _), ?_⟩
        simp [List.getElem?_eq_getElem hlength]
      · rw [lastSet_append_of_ne calls param hne] at hlast
        obtain ⟨bind, hsigned, hbind⟩ := h.last i hi last hlast
        exact ⟨bind, hsigned, by simp [hne, hbind]⟩
  · exact absurd heq hindex
  · refine ⟨stmt, setParam_of_gt h.toShape hgt param, h.toShape, h.signed, ?_⟩
    intro i hi last hlast
    have hne : index.toNat ≠ i := by
      have := UInt32.lt_iff_toNat_lt.mp hgt
      omega
    rw [lastSet_append_of_ne calls param hne] at hlast
    exact h.last i hi last hlast

/-- Every sequence of calls without the index that is off by one. -/
theorem exists_filled (n : UInt32) (hne : ∀ call ∈ calls, call.1 ≠ n) :
    ∃ stmt, (PrepareStatement.init n).setParams calls = some stmt ∧ stmt.Filled n calls := by
  induction calls using List.reverseRecOn with
  | nil => exact ⟨_, rfl, filled_init n⟩
  | append_singleton calls call ih =>
    obtain ⟨hcalls, hcall⟩ := List.forall_mem_append.mp hne
    obtain ⟨stmt, hstmt, hfilled⟩ := ih hcalls
    obtain ⟨stmt', hstmt', hfilled'⟩ := hfilled.setParam (hcall call List.mem_cons_self) call.2
    refine ⟨stmt', ?_, hfilled'⟩
    rw [setParams_append, hstmt, Option.bind_some, setParams_cons, hstmt']
    rfl

/-- The last value set was passed by one of the calls. -/
theorem mem_of_lastSet {i : ℕ} {param : Param} (h : lastSet calls i = some param) :
    ∃ call ∈ calls, call.2 = param := by
  obtain ⟨call, hcall, hparam⟩ := Option.map_eq_some_iff.mp h
  exact ⟨call, List.mem_of_mem_filter (List.mem_of_getLast? hcall), hparam⟩

/-! ## What arrives at MySQL -/

/-- Parameters that carry what was set: the last value set is read from what its call wrote. -/
theorem Carries.read_last (h : Carries n calls memory) {i : ℕ} (hi : i < n.toNat) {param : Param}
    (hparam : lastSet calls i = some param) :
    ∃ old : MysqlBind, old.isUnsigned = false ∧ (param.write old).read memory = some param.datum := by
  obtain ⟨stmt, hset, -, hread⟩ := h
  obtain ⟨stmt', hset', hfilled⟩ := exists_filled n (index_ne_of_setParams (shape_init n) hset)
  obtain rfl : stmt = stmt' := Option.some.inj (hset.symm.trans hset')
  obtain ⟨old, hsigned, hold⟩ := hfilled.last i hi param hparam
  obtain ⟨bind, hbind, hvalue⟩ := hread i hi param hparam
  obtain rfl : param.write old = bind := Option.some.inj (hold.symm.trans hbind)
  exact ⟨old, hsigned, hvalue⟩

/-- The parameters carry what was set exactly if no call has the number of parameters for its index, and the
last value set for each parameter is readable. -/
theorem carries_iff (n : UInt32) (calls : List (UInt32 × Param)) (memory : ℕ → UInt8)
    (halive : ∀ call ∈ calls, call.2.AliveIn memory) :
    Carries n calls memory ↔ (∀ call ∈ calls, call.1 ≠ n) ∧
      ∀ i < n.toNat, ∀ param, lastSet calls i = some param → param.Readable := by
  constructor
  · intro hcarries
    constructor
    · obtain ⟨stmt, hset, -, -⟩ := hcarries
      exact index_ne_of_setParams (shape_init n) hset
    · intro i hi param hparam
      obtain ⟨old, hsigned, hvalue⟩ := hcarries.read_last hi hparam
      obtain ⟨call, hcall, rfl⟩ := mem_of_lastSet hparam
      exact (read_write_iff (halive call hcall) hsigned).mp hvalue
  · rintro ⟨hne, hreadable⟩
    obtain ⟨stmt, hset, hfilled⟩ := exists_filled n hne
    refine ⟨stmt, hset, (setParams_filter (shape_init n) hne).trans hset, ?_⟩
    intro i hi param hparam
    obtain ⟨old, hsigned, hold⟩ := hfilled.last i hi param hparam
    obtain ⟨call, hcall, rfl⟩ := mem_of_lastSet hparam
    exact ⟨_, hold, (read_write_iff (halive call hcall) hsigned).mpr (hreadable i hi _ hparam)⟩

/-- A string, the number of a department and an index that is too large. -/
theorem carries_mixed :
    Carries 2 [(0, .string 4 [97, 98]), (1, .uint8 6 7), (1, .uint32 8 7), (9, .int 8 7)]
      ([0, 0, 0, 0, 97, 98, 7, 0, 7, 0, 0, 0].getD · 0) := by
  refine (carries_iff _ _ _ (by decide)).mpr ⟨by decide, ?_⟩
  intro i hi param hparam
  obtain rfl | rfl : i = 0 ∨ i = 1 := by
    have : i < 2 := hi
    omega
  · obtain rfl : Param.string 4 [97, 98] = param := Option.some.inj hparam
    exact trivial
  · obtain rfl : Param.uint32 8 7 = param := Option.some.inj hparam
    decide

/-- A parameter last set to a value of one byte is not read as that value. -/
theorem not_carries_of_uint8 {i address : ℕ} {value : UInt8} (hi : i < n.toNat)
    (hlast : lastSet calls i = some (.uint8 address value)) : ¬Carries n calls memory := by
  intro hcarries
  obtain ⟨old, -, hvalue⟩ := hcarries.read_last hi hlast
  exact absurd hvalue nofun

/-- One byte with the value 1, at the address 8. -/
theorem not_carries_byte :
    (∀ call ∈ [((0 : UInt32), Param.uint8 8 1)], call.2.AliveIn fun _ => 1) ∧
      ¬Carries 1 [(0, .uint8 8 1)] fun _ => 1 :=
  ⟨by decide, not_carries_of_uint8 (i := 0) (by decide) rfl⟩

/-- The values that `UserTable::insertUser` sets, in order. The value for column `i` is stored at `address i`;
`nNow` is set for the last two columns. -/
def UserTable.insertParams (t : UserTable) (nNow : UInt32) (address : ℕ → ℕ) : List Param :=
  [.string (address 0) (ascii "abcd"), .uint8 (address 1) t.nSex, .string (address 2) t.strNick,
    .string (address 3) (ascii "987654321"), .string (address 4) t.strDomain, .string (address 5) t.strName,
    .string (address 6) t.strTel, .string (address 7) t.strEmail, .string (address 8) t.strCompany,
    .string (address 9) t.strAddress, .string (address 10) t.strAvatar, .string (address 11) t.sign_info,
    .uint32 (address 12) t.nDeptId, .uint8 (address 13) t.nStatus, .uint32 (address 14) nNow,
    .uint32 (address 14) nNow]

/-- The calls of `setParam` in `UserTable::insertUser`, with `index++`. -/
def UserTable.insertCalls (t : UserTable) (nNow : UInt32) (address : ℕ → ℕ) : List (UInt32 × Param) :=
  (t.insertParams nNow address).mapIdx fun index param => (UInt32.ofNat index, param)

/-- No user is inserted with its own sex and status. -/
theorem not_carries_insertUser (t : UserTable) (nNow : UInt32) (address : ℕ → ℕ) (memory : ℕ → UInt8) :
    ¬Carries 16 (t.insertCalls nNow address) memory := by
  have hsex : lastSet (t.insertCalls nNow address) 1 = some (.uint8 (address 1) t.nSex) := by
    simp [lastSet, UserTable.insertCalls, UserTable.insertParams]
  exact not_carries_of_uint8 (by decide) hsex

end CppProject.DBPool
