import Mathlib.Data.BitVec
import Mathlib.Data.Int.ModEq

/-!
# One generated id

The body of `main` as a function of the server, the process index, the clock reading and the
per-process counter `g_IncrementId`. Signed and unsigned C integers of the same width share
one representation; `int` values widen into the 64-bit sum by sign extension.

The macro `COUNTER_MOVE` is not defined in the file; its value is the width of the time field
in the layout comment. `gen_fst` computes the packed sum as an integer: the counter is shifted
as a 32-bit `int`, so only its three low bits survive, as a signed number.
-/

namespace CppProject.MakeGuid

/-- The time field's width in the layout comment. -/
def counterMove : ℕ := 29

/-- `main`'s body: the packed id and the counter left behind. -/
def gen (serverid serverindex : BitVec 64) (now : ℤ) (gIncrementId : BitVec 32) :
    BitVec 64 × BitVec 32 :=
  let mGuid : BitVec 64 := 0
  let mGuid := mGuid + serverid <<< 49
  let mGuid := mGuid + serverindex <<< 45
  let tmp : BitVec 32 := gIncrementId
  let gIncrementId := gIncrementId + 1
  -- `tmp` is an `int`: the shift drops its high bits before the sum is widened
  let mGuid := mGuid + (tmp <<< 29).signExtend 64
  let nTime : BitVec 32 := BitVec.ofInt 32 now
  let nTime := nTime &&& ~~~(7#32 <<< counterMove)
  let mGuid := mGuid + nTime.signExtend 64
  (mGuid, gIncrementId)

/-- Every id advances the process's counter by one, modulo `2 ^ 32`. -/
@[simp] theorem gen_snd (serverid serverindex : BitVec 64) (now : ℤ) (counter : BitVec 32) :
    (gen serverid serverindex now counter).2 = counter + 1 := rfl

/-- What the counter contributes in units of `2 ^ 29`: its three low bits, read as signed. -/
def counterField (counter : BitVec 32) : ℤ := Int.bmod counter.toNat 8

/-- The signed counter contribution stays within its three bits. -/
theorem counterField_bounds (counter : BitVec 32) :
    -4 ≤ counterField counter ∧ counterField counter < 4 := by
  rw [counterField, Int.bmod_def]
  split <;> omega

/-- Equal contributions are exactly equal residues modulo eight. -/
theorem counterField_eq_iff (left right : BitVec 32) :
    counterField left = counterField right ↔ left.toNat % 8 = right.toNat % 8 := by
  rw [counterField, counterField, Int.bmod_def, Int.bmod_def]
  split <;> split <;> omega

/-- The `int` shift keeps the counter's residue modulo eight only. -/
theorem shifted_counter_toInt (counter : BitVec 32) :
    (counter <<< 29).toInt = counterField counter * 2 ^ 29 := by
  rw [BitVec.toInt_shiftLeft, Nat.shiftLeft_eq, counterField, Int.bmod_def, Int.bmod_def]
  push_cast
  split <;> split <;> omega

/-- The mask keeps the 29 low bits of the clock. -/
theorem masked_time_toInt (now : ℤ) :
    (BitVec.ofInt 32 now &&& ~~~(7#32 <<< counterMove)).toInt = now % 2 ^ 29 := by
  have hmask : ~~~(7#32 <<< counterMove) = BitVec.ofNat 32 (2 ^ 29 - 1) := by decide
  have hnat : (BitVec.ofInt 32 now &&& BitVec.ofNat 32 (2 ^ 29 - 1)).toNat =
      (now % 2 ^ 32).toNat % 2 ^ 29 := by
    rw [BitVec.toNat_and, BitVec.toNat_ofInt, BitVec.toNat_ofNat,
      Nat.mod_eq_of_lt (by decide : 2 ^ 29 - 1 < 2 ^ 32), Nat.and_two_pow_sub_one_eq_mod]
    rfl
  rw [hmask, BitVec.toInt_eq_toNat_of_lt (by rw [hnat]; omega), hnat]
  omega

/-- The packed sum over the integers. -/
def packed (server index : ℕ) (now : ℤ) (counter : BitVec 32) : ℤ :=
  server * 2 ^ 49 + index * 2 ^ 45 + counterField counter * 2 ^ 29 + now % 2 ^ 29

/-- A field shifted in the 64-bit sum contributes its value times its weight. -/
theorem shifted_field (value k : ℕ) :
    BitVec.ofNat 64 value <<< k = BitVec.ofInt 64 (value * 2 ^ k) := by
  apply BitVec.eq_of_toNat_eq
  rw [BitVec.toNat_shiftLeft, BitVec.toNat_ofNat, Nat.shiftLeft_eq, Nat.mod_mul_mod,
    show (value : ℤ) * 2 ^ k = ((value * 2 ^ k : ℕ) : ℤ) by push_cast; rfl, BitVec.ofInt_natCast,
    BitVec.toNat_ofNat]

/-- The id is the packed sum, reduced to 64 bits. -/
theorem gen_fst (server index : ℕ) (now : ℤ) (counter : BitVec 32) :
    (gen (BitVec.ofNat 64 server) (BitVec.ofNat 64 index) now counter).1 =
      BitVec.ofInt 64 (packed server index now counter) := by
  have hcounter : (counter <<< 29).signExtend 64 = BitVec.ofInt 64 (counterField counter * 2 ^ 29) := by
    rw [BitVec.signExtend, shifted_counter_toInt]
  have htime : (BitVec.ofInt 32 now &&& ~~~(7#32 <<< counterMove)).signExtend 64 =
      BitVec.ofInt 64 (now % 2 ^ 29) := by
    rw [BitVec.signExtend, masked_time_toInt]
  unfold gen packed
  simp only [hcounter, htime, shifted_field, BitVec.ofInt_add]
  rw [zero_add]

/-- Within the fields' widths two ids coincide exactly when every field does: the counter only
through its residue modulo eight, the clock only through its residue modulo `2 ^ 29`. -/
theorem gen_fst_eq_iff {server server' index index' : ℕ} (hserver : server < 2 ^ 14)
    (hserver' : server' < 2 ^ 14) (hindex : index < 2 ^ 4) (hindex' : index' < 2 ^ 4)
    (now now' : ℤ) (counter counter' : BitVec 32) :
    (gen (BitVec.ofNat 64 server) (BitVec.ofNat 64 index) now counter).1 =
        (gen (BitVec.ofNat 64 server') (BitVec.ofNat 64 index') now' counter').1 ↔
      server = server' ∧ index = index' ∧ counter.toNat % 8 = counter'.toNat % 8 ∧
        now % 2 ^ 29 = now' % 2 ^ 29 := by
  have hbound := counterField_bounds counter
  have hbound' := counterField_bounds counter'
  rw [gen_fst, gen_fst, ← counterField_eq_iff]
  constructor
  · intro h
    have hmod := congrArg BitVec.toInt h
    rw [BitVec.toInt_ofInt, BitVec.toInt_ofInt] at hmod
    rw [Int.bmod_def, Int.bmod_def, packed, packed] at hmod
    split at hmod <;> split at hmod <;> omega
  · rintro ⟨rfl, rfl, hfield, htime⟩
    rw [packed, packed, hfield, htime]

end CppProject.MakeGuid
