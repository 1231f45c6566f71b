import CppProject.MakeGuid.Gen

/-!
# The layout of an id

The fields of the layout comment, read back from a generated id. The fields are added with
signs, not joined, and of the counter only three bits survive the shift, as a signed number:
from four to seven the counter's contribution is negative and borrows from the fields above it,
and from eight on the counter's other bits are missing.
-/

namespace CppProject.MakeGuid

/-- The id has the layout of the comment: the sign bit is clear and every field holds its value. -/
structure LayoutHolds (guid : BitVec 64) (server index : ℕ) (now : ℤ) (counter : BitVec 32) : Prop where
  symbol : 0 ≤ guid.toInt
  server : (guid.extractLsb' 49 14).toNat = server
  index : (guid.extractLsb' 45 4).toNat = index
  increment : (guid.extractLsb' 29 16).toNat = counter.toNat % 2 ^ 16
  time : ((guid.extractLsb' 0 29).toNat : ℤ) = now % 2 ^ 29

instance (guid : BitVec 64) (server index : ℕ) (now : ℤ) (counter : BitVec 32) :
    Decidable (LayoutHolds guid server index now counter) :=
  decidable_of_iff (0 ≤ guid.toInt ∧ (guid.extractLsb' 49 14).toNat = server ∧
      (guid.extractLsb' 45 4).toNat = index ∧ (guid.extractLsb' 29 16).toNat = counter.toNat % 2 ^ 16 ∧
      ((guid.extractLsb' 0 29).toNat : ℤ) = now % 2 ^ 29)
    ⟨fun ⟨h₁, h₂, h₃, h₄, h₅⟩ => ⟨h₁, h₂, h₃, h₄, h₅⟩, fun ⟨h₁, h₂, h₃, h₄, h₅⟩ => ⟨h₁, h₂, h₃, h₄, h₅⟩⟩

/-- A field of an id is a digit of its value. -/
theorem field_toNat (value : ℤ) (start width : ℕ) :
    (((BitVec.ofInt 64 value).extractLsb' start width).toNat : ℤ) = value % 2 ^ 64 / 2 ^ start % 2 ^ width := by
  have hcast : ((value % (2 ^ 64 : ℕ)).toNat : ℤ) = value % (2 ^ 64 : ℕ) :=
    Int.toNat_of_nonneg (Int.emod_nonneg _ (by decide))
  rw [BitVec.extractLsb'_toNat, BitVec.toNat_ofInt, Nat.shiftRight_eq_div_pow, Int.natCast_mod, Int.natCast_ediv,
    hcast]
  push_cast
  rfl

/-- From four to seven the counter contributes a negative number. -/
theorem counterField_eq (counter : BitVec 32) :
    counterField counter = if counter.toNat % 8 < 4 then (counter.toNat % 8 : ℤ)
      else (counter.toNat % 8 : ℤ) - 8 := by
  rw [counterField, Int.bmod_def]
  split <;> split <;> omega

section Digits

variable {server index field time : ℤ}

/-- Without a negative contribution every field is the digit at its place. -/
theorem digits_of_nonneg (hserver : 0 ≤ server ∧ server < 2 ^ 14) (hindex : 0 ≤ index ∧ index < 2 ^ 4)
    (hfield : 0 ≤ field ∧ field < 2 ^ 16) (htime : 0 ≤ time ∧ time < 2 ^ 29) {value : ℤ}
    (hvalue : value = server * 2 ^ 49 + index * 2 ^ 45 + field * 2 ^ 29 + time) :
    0 ≤ value ∧ value < 2 ^ 63 ∧ value / 2 ^ 49 % 2 ^ 14 = server ∧ value / 2 ^ 45 % 2 ^ 4 = index ∧
      value / 2 ^ 29 % 2 ^ 16 = field ∧ value / 2 ^ 0 % 2 ^ 29 = time := by
  omega

/-- A negative contribution borrows from the field above it. -/
theorem index_of_neg (hfield : -(2 ^ 16) ≤ field ∧ field < 0) (htime : 0 ≤ time ∧ time < 2 ^ 29) :
    (server * 2 ^ 49 + index * 2 ^ 45 + field * 2 ^ 29 + time) % 2 ^ 64 / 2 ^ 45 % 2 ^ 4 = (index - 1) % 2 ^ 4 := by
  omega

end Digits

/-- The layout holds exactly for counters that are below four modulo `2 ^ 16`. -/
theorem layoutHolds_iff {server index : ℕ} (hserver : server < 2 ^ 14) (hindex : index < 2 ^ 4) (now : ℤ)
    (counter : BitVec 32) :
    LayoutHolds (gen (BitVec.ofNat 64 server) (BitVec.ofNat 64 index) now counter).1 server index now counter ↔
      counter.toNat % 2 ^ 16 < 4 := by
  have hfield := counterField_eq counter
  have htime : 0 ≤ now % 2 ^ 29 ∧ now % 2 ^ 29 < 2 ^ 29 :=
    ⟨Int.emod_nonneg _ (by decide), Int.emod_lt_of_pos _ (by decide)⟩
  rw [gen_fst]
  by_cases hsign : counter.toNat % 8 < 4
  · rw [if_pos hsign] at hfield
    obtain ⟨hnonneg, hlt, hs, hi, hc, ht⟩ := @digits_of_nonneg server index
      (counterField counter) (now % 2 ^ 29) (by omega) (by omega) (by omega) htime _ rfl
    have hmod := Int.emod_eq_of_lt hnonneg (hlt.trans (by decide : (2 ^ 63 : ℤ) < 2 ^ 64))
    have hdigit : ∀ start width, (((BitVec.ofInt 64 (packed server index now counter)).extractLsb' start
        width).toNat : ℤ) = packed server index now counter / 2 ^ start % 2 ^ width := fun start width => by
      rw [field_toNat, packed, hmod]
    constructor
    · intro h
      have hincrement := hdigit 29 16
      rw [h.increment, packed, hc, hfield] at hincrement
      omega
    · intro hsmall
      refine ⟨?_, ?_, ?_, ?_, ?_⟩
      · rw [BitVec.toInt_ofInt_eq_self (by decide) (by rw [packed]; omega) (by rw [packed]; exact hlt), packed]
        exact hnonneg
      · exact_mod_cast (hdigit 49 14).trans hs
      · exact_mod_cast (hdigit 45 4).trans hi
      · have hincrement := (hdigit 29 16).trans hc
        omega
      · exact (hdigit 0 29).trans ht
  · rw [if_neg hsign] at hfield
    refine iff_of_false (fun h => ?_) (by omega)
    have hborrow := field_toNat (packed server index now counter) 45 4
    rw [h.index, packed, index_of_neg (by omega) htime] at hborrow
    omega

/-- A counter of three, at the largest server and index. -/
theorem layoutHolds_three :
    LayoutHolds (gen (BitVec.ofNat 64 16383) (BitVec.ofNat 64 15) 1700000000 3).1 16383 15 1700000000 3 :=
  (layoutHolds_iff (by decide) (by decide) 1700000000 3).mpr (by decide)

/-- The fifth id of a process on server 1: its index field reads 0 instead of 1. With server and index
0 it is negative. -/
theorem not_layoutHolds_four :
    ¬ LayoutHolds (gen 1 1 1700000000 4).1 1 1 1700000000 4 ∧
      ((gen 1 1 1700000000 4).1.extractLsb' 45 4).toNat = 0 ∧ (gen 0 0 1700000000 4).1.toInt < 0 := by
  decide

end CppProject.MakeGuid
