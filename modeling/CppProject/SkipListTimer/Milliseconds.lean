import Mathlib.Data.BitVec
import Mathlib.Data.Int.ModEq
import Mathlib.Tactic.Ring

/-!
# The clock of the timers

`getcurrent_time` is meant to count milliseconds modulo `2 ^ 32`. In the place of the milliseconds within the
second it adds the thousands of seconds, so it stands still for a second, and gains a millisecond in every
thousand seconds.
-/

namespace CppProject.SkipListTimer

/-- `struct timeval`. -/
structure Timeval where
  tvSec : BitVec 64
  tvUsec : BitVec 64

/-- `getcurrent_time()` at a reading of `gettimeofday`. -/
def getcurrentTime (tv : Timeval) : BitVec 32 :=
  let t : BitVec 32 := tv.tvSec.setWidth 32 * 1000
  (t.setWidth 64 + tv.tvSec.sdiv 1000).setWidth 32

/-- The whole milliseconds of a reading. -/
def Timeval.milliseconds (tv : Timeval) : ℤ := tv.tvSec.toInt * 1000 + tv.tvUsec.toInt / 1000

/-- Between two readings the clock goes on by the milliseconds between them. -/
def MeasuresMilliseconds (t₁ t₂ : Timeval) : Prop :=
  getcurrentTime t₂ - getcurrentTime t₁ = BitVec.ofInt 32 (t₂.milliseconds - t₁.milliseconds)

/-- The low bits of a 64-bit number. -/
theorem setWidth_eq_ofInt (x : BitVec 64) : x.setWidth 32 = BitVec.ofInt 32 x.toInt := by
  apply BitVec.eq_of_toInt_eq
  rw [BitVec.toInt_setWidth, BitVec.toInt_ofInt, BitVec.toInt_eq_toNat_bmod,
    Int.bmod_bmod_of_dvd (Nat.pow_dvd_pow 2 (by decide))]

/-- The clock counts milliseconds for the seconds, and one more for each thousand of them. -/
theorem getcurrentTime_eq (tv : Timeval) :
    getcurrentTime tv = BitVec.ofInt 32 (tv.tvSec.toInt * 1000 + tv.tvSec.toInt.tdiv 1000) := by
  have hthousand : (1000 : BitVec 64).toInt = 1000 := by decide
  have hdiv : (tv.tvSec.sdiv 1000).setWidth 32 = BitVec.ofInt 32 (tv.tvSec.toInt.tdiv 1000) := by
    rw [setWidth_eq_ofInt, BitVec.toInt_sdiv_of_ne_or_ne _ _ (Or.inr (by decide)), hthousand]
  rw [getcurrentTime, BitVec.setWidth_add _ _ (by decide), BitVec.setWidth_setWidth_of_le _ (by decide),
    BitVec.setWidth_eq, hdiv, setWidth_eq_ofInt, BitVec.ofInt_add, BitVec.ofInt_mul]
  rfl

/-- Numbers of 32 bits are equal exactly if they are congruent. -/
theorem ofInt_eq_ofInt_iff (a b : ℤ) : BitVec.ofInt 32 a = BitVec.ofInt 32 b ↔ a ≡ b [ZMOD 2 ^ 32] := by
  rw [← BitVec.toInt_inj, BitVec.toInt_ofInt, BitVec.toInt_ofInt, Int.ModEq]
  constructor
  · intro h
    have hmod := congrArg (· % ((2 ^ 32 : ℕ) : ℤ)) h
    simp only [Int.bmod_emod] at hmod
    exact_mod_cast hmod
  · intro h
    rw [← Int.emod_bmod a, ← Int.emod_bmod b]
    exact congrArg (Int.bmod · (2 ^ 32)) (by exact_mod_cast h)

/-- The clock measures milliseconds between two readings exactly if the thousands of seconds between them make
up for the milliseconds within the seconds. -/
theorem measuresMilliseconds_iff (t₁ t₂ : Timeval) :
    MeasuresMilliseconds t₁ t₂ ↔
      t₂.tvSec.toInt.tdiv 1000 - t₁.tvSec.toInt.tdiv 1000 ≡
        t₂.tvUsec.toInt / 1000 - t₁.tvUsec.toInt / 1000 [ZMOD 2 ^ 32] := by
  rw [MeasuresMilliseconds, sub_eq_iff_eq_add, getcurrentTime_eq, getcurrentTime_eq, ← BitVec.ofInt_add,
    ofInt_eq_ofInt_iff, Int.modEq_iff_dvd, Int.modEq_iff_dvd, Timeval.milliseconds, Timeval.milliseconds]
  apply iff_of_eq
  congr 1
  ring

/-- The clock stands still for a millisecond within a second, and gains one where a thousand seconds are full. -/
theorem not_measuresMilliseconds :
    ¬MeasuresMilliseconds ⟨1700000000, 0⟩ ⟨1700000000, 1000⟩ ∧ ¬MeasuresMilliseconds ⟨1700000999, 0⟩ ⟨1700001000, 0⟩ := by
  constructor <;> rw [MeasuresMilliseconds] <;> decide

end CppProject.SkipListTimer
