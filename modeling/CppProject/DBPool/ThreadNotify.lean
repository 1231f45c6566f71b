import Mathlib.Data.UInt
import Mathlib.Tactic.Ring

/-!
# The deadline of a timed wait

`CThreadNotify::WaitTime` adds a number of milliseconds to the time of the clock. The seconds in it are
added to the nanoseconds, and the carry into the seconds is not taken off the microseconds.
-/

namespace CppProject.DBPool

/-- `struct timespec`. -/
structure Timespec where
  tvSec : Int64
  tvNsec : Int64

/-- The nanoseconds of a point in time. -/
def Timespec.nanoseconds (t : Timespec) : ℤ := t.tvSec.toInt * 10 ^ 9 + t.tvNsec.toInt

/-- The `outtime` that `CThreadNotify::WaitTime` passes to `pthread_cond_timedwait`. -/
def CThreadNotify.waitTime (now : Timespec) (ms : Int32) : Timespec :=
  let outtime := { now with tvNsec := now.tvNsec + (ms / 1000).toInt64 }
  let us : UInt64 := (outtime.tvNsec / 1000 + (1000 * (ms % 1000)).toInt64).toUInt64
  let outtime := { outtime with tvSec := outtime.tvSec + (us / 1000000).toInt64 }
  -- `us % 1000000` is computed below this line, and not used
  { outtime with tvNsec := (us * 1000).toInt64 }

/-- The nanoseconds of a time whose `tv_nsec` is cut to whole microseconds. -/
def Timespec.wholeMicroseconds (t : Timespec) : ℤ := t.tvSec.toInt * 10 ^ 9 + t.tvNsec.toInt / 1000 * 1000

/-- The deadline is normalised and `ms` milliseconds from now. -/
structure RightDeadline (now : Timespec) (ms : Int32) : Prop where
  normalised : 0 ≤ (CThreadNotify.waitTime now ms).tvNsec.toInt ∧
    (CThreadNotify.waitTime now ms).tvNsec.toInt < 10 ^ 9
  later : (CThreadNotify.waitTime now ms).nanoseconds = now.wholeMicroseconds + ms.toInt * 10 ^ 6

variable {now : Timespec} {ms : Int32}

/-- The microseconds that `WaitTime` computes. -/
def microseconds (now : Timespec) (ms : Int32) : ℤ :=
  (now.tvNsec.toInt + ms.toInt / 1000) / 1000 + 1000 * (ms.toInt % 1000)

/-- A number of 64 bits is not wrapped. -/
theorem toInt_bmod {x : ℤ} (hlow : -2 ^ 63 ≤ x) (hhigh : x < 2 ^ 63) : x.bmod (2 ^ 64) = x :=
  Int.bmod_eq_of_le (by omega) (by omega)

/-- Nothing wraps on the way to the microseconds. -/
theorem toNat_us (hnsec : 0 ≤ now.tvNsec.toInt ∧ now.tvNsec.toInt < 10 ^ 9) (hms : 0 ≤ ms.toInt) :
    (((now.tvNsec + (ms / 1000).toInt64) / 1000 + (1000 * (ms % 1000)).toInt64).toUInt64.toNat : ℤ) =
      microseconds now ms := by
  have hlt : ms.toInt < 2 ^ 31 := ms.toInt_lt
  have hthousand : (1000 : Int32).toInt = 1000 := by decide
  have hthousand64 : (1000 : Int64).toInt = 1000 := by decide
  have hseconds : (ms / 1000).toInt64.toInt = ms.toInt / 1000 := by
    rw [Int32.toInt_toInt64, Int32.toInt_div_of_ne_right _ _ (by decide), hthousand, Int.tdiv_eq_ediv_of_nonneg hms]
  have hsum : (now.tvNsec + (ms / 1000).toInt64).toInt = now.tvNsec.toInt + ms.toInt / 1000 := by
    rw [Int64.toInt_add, hseconds, toInt_bmod (by omega) (by omega)]
  have hdiv : ((now.tvNsec + (ms / 1000).toInt64) / 1000).toInt = (now.tvNsec.toInt + ms.toInt / 1000) / 1000 := by
    rw [Int64.toInt_div_of_ne_right _ _ (by decide), hsum, hthousand64, Int.tdiv_eq_ediv_of_nonneg (by omega)]
  have hrest : (1000 * (ms % 1000)).toInt64.toInt = 1000 * (ms.toInt % 1000) := by
    rw [Int32.toInt_toInt64, Int32.toInt_mul, Int32.toInt_mod, hthousand, Int.tmod_eq_emod_of_nonneg hms,
      Int.bmod_eq_of_le (by omega) (by omega)]
  have hus : ((now.tvNsec + (ms / 1000).toInt64) / 1000 + (1000 * (ms % 1000)).toInt64).toInt =
      microseconds now ms := by
    rw [Int64.toInt_add, hdiv, hrest, toInt_bmod (by omega) (by omega), microseconds]
  have hpos : 0 ≤ microseconds now ms := by
    rw [microseconds]
    omega
  rw [Int64.toNat_toUInt64_of_le (by rw [Int64.le_iff_toInt_le, hus]; exact hpos), Int64.toNatClampNeg, hus,
    Int.toNat_of_nonneg hpos]

/-- A small number is not negative as `long`. -/
theorem toInt_toInt64_of_lt {u : UInt64} (h : u.toNat < 2 ^ 63) : u.toInt64.toInt = u.toNat := by
  have hbits : 2 * u.toBitVec.toNat < 2 ^ 64 := by
    rw [UInt64.toNat_toBitVec]
    omega
  exact BitVec.toInt_eq_toNat_of_lt hbits

/-- The deadline in terms of its microseconds: the carry is added to the seconds, and stays. -/
theorem waitTime_eq (hnsec : 0 ≤ now.tvNsec.toInt ∧ now.tvNsec.toInt < 10 ^ 9) (hms : 0 ≤ ms.toInt) :
    (CThreadNotify.waitTime now ms).tvNsec.toInt = microseconds now ms * 1000 ∧
      (microseconds now ms < 10 ^ 6 → (CThreadNotify.waitTime now ms).tvSec = now.tvSec) := by
  have hlt : ms.toInt < 2 ^ 31 := ms.toInt_lt
  have hbound : microseconds now ms < 2 ^ 31 := by
    rw [microseconds]
    omega
  have hus := toNat_us hnsec hms
  generalize husdef : ((now.tvNsec + (ms / 1000).toInt64) / 1000 + (1000 * (ms % 1000)).toInt64).toUInt64 = us at hus
  constructor
  · have hnsec' : (CThreadNotify.waitTime now ms).tvNsec = (us * 1000).toInt64 := by rw [← husdef]; rfl
    have hmul : (us * 1000).toNat = us.toNat * 1000 := by
      rw [UInt64.toNat_mul, Nat.mod_eq_of_lt]
      · rfl
      · change us.toNat * 1000 < 2 ^ 64
        omega
    rw [hnsec', toInt_toInt64_of_lt (by omega), hmul, ← hus]
    rfl
  · intro hsmall
    have hsec' : (CThreadNotify.waitTime now ms).tvSec = now.tvSec + (us / 1000000).toInt64 := by rw [← husdef]; rfl
    have hcarry : us / 1000000 = 0 := by
      rw [← UInt64.toNat_inj, UInt64.toNat_div]
      exact Nat.div_eq_of_lt (by
        change us.toNat < 1000000
        omega)
    rw [hsec', hcarry]
    exact Int64.add_zero _

/-- The deadline is right exactly for a wait shorter than a second that ends within the current second. -/
theorem rightDeadline_iff (hnsec : 0 ≤ now.tvNsec.toInt ∧ now.tvNsec.toInt < 10 ^ 9) (hms : 0 ≤ ms.toInt) :
    RightDeadline now ms ↔ ms.toInt < 1000 ∧ now.tvNsec.toInt / 1000 + 1000 * ms.toInt < 10 ^ 6 := by
  obtain ⟨hout, hsec⟩ := waitTime_eq hnsec hms
  have hus : microseconds now ms = (now.tvNsec.toInt + ms.toInt / 1000) / 1000 + 1000 * (ms.toInt % 1000) := rfl
  constructor
  · intro hright
    have hsmall : microseconds now ms < 10 ^ 6 := by
      have := hright.normalised.2
      rw [hout] at this
      omega
    have hlater := hright.later
    rw [Timespec.nanoseconds, Timespec.wholeMicroseconds, hsec hsmall, hout] at hlater
    -- whole seconds of the wait would be missing
    have hms' : ms.toInt < 1000 := by omega
    exact ⟨hms', by omega⟩
  · rintro ⟨hms', hwithin⟩
    have hsame : microseconds now ms = now.tvNsec.toInt / 1000 + 1000 * ms.toInt := by omega
    refine ⟨?_, ?_⟩
    · rw [hout, hsame]
      omega
    · rw [Timespec.nanoseconds, Timespec.wholeMicroseconds, hsec (by omega), hout, hsame]
      ring

/-- Half a second, from a quarter past a second. -/
theorem rightDeadline_half : RightDeadline ⟨100, 250000000⟩ 500 :=
  (rightDeadline_iff (by decide) (by decide)).mpr (by decide)

/-- The same wait from three quarters past a second has a deadline that is not normalised, and a wait of one
second ends at once. -/
theorem not_rightDeadline_carry :
    ¬RightDeadline ⟨100, 750000000⟩ 500 ∧ ¬RightDeadline ⟨100, 250000000⟩ 1000 := by
  constructor
  · intro hright
    exact absurd hright.normalised.2 (by decide)
  · intro hright
    exact absurd hright.later (by decide)

end CppProject.DBPool
