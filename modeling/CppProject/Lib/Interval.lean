import Mathlib.Data.List.Count
import Mathlib.Data.List.Perm.Basic
import Mathlib.Algebra.Order.BigOperators.Group.Finset
import Mathlib.Order.Interval.Finset.Nat
import Mathlib.Algebra.BigOperators.Ring.Finset

/-!
# Tilings by address intervals

An interval is a start and a size. Two lists of intervals tile each other when they cover
every address equally often and have the same total size. Tiling is insensitive to the order
of the intervals, to empty intervals and to cutting an interval in two, so the moves of an
allocator are tilings by construction. Parts that tile pairwise disjoint regions are pairwise
disjoint themselves.
-/

namespace AddressInterval

/-- The addresses `start, ..., start + size - 1`. -/
structure Interval where
  start : ℕ
  size : ℕ
  deriving DecidableEq

/-- The interval contains an address. -/
def Interval.Mem (x : ℕ) (i : Interval) : Prop := i.start ≤ x ∧ x < i.start + i.size

instance (x : ℕ) (i : Interval) : Decidable (i.Mem x) := inferInstanceAs (Decidable (_ ∧ _))

/-- No address is in both intervals. -/
def Interval.Disjoint (i j : Interval) : Prop := ∀ x, i.Mem x → ¬ j.Mem x

/-- Disjointness of two intervals compares their bounds. -/
theorem Interval.disjoint_iff {i j : Interval} : i.Disjoint j ↔
    i.size = 0 ∨ j.size = 0 ∨ i.start + i.size ≤ j.start ∨ j.start + j.size ≤ i.start := by
  constructor
  · intro h
    -- If they meet they meet at the larger of the two starts.
    have hmax := h (max i.start j.start)
    simp only [Interval.Mem] at hmax
    omega
  · intro h x hi hj
    simp only [Interval.Mem] at hi hj
    omega

instance (i j : Interval) : Decidable (i.Disjoint j) := decidable_of_iff _ Interval.disjoint_iff.symm

/-- How many of the intervals contain an address. -/
def cover (parts : List Interval) (x : ℕ) : ℕ := parts.countP fun i => decide (i.Mem x)

/-- The sum of the sizes. -/
def total (parts : List Interval) : ℕ := (parts.map Interval.size).sum

section Cover

variable {parts : List Interval} {x : ℕ}

/-- No part covers anything. -/
@[simp] theorem cover_nil : cover [] x = 0 := rfl

/-- A further part counts where it lies. -/
theorem cover_cons (i : Interval) :
    cover (i :: parts) x = cover parts x + if i.Mem x then 1 else 0 := by
  simp [cover, List.countP_cons]

/-- Covers add up. -/
@[simp] theorem cover_append (left right : List Interval) :
    cover (left ++ right) x = cover left x + cover right x := List.countP_append

/-- A byte is covered exactly if some part has it. -/
theorem cover_pos_iff : 0 < cover parts x ↔ ∃ i ∈ parts, i.Mem x := by
  simp [cover, List.countP_pos_iff]

/-- Disjoint intervals cover no address twice. -/
theorem cover_le_one (h : parts.Pairwise Interval.Disjoint) : cover parts x ≤ 1 := by
  induction parts with
  | nil => simp
  | cons i parts ih =>
    obtain ⟨hi, hparts⟩ := List.pairwise_cons.mp h
    rw [cover_cons]
    by_cases hx : i.Mem x
    · have hnone : cover parts x = 0 := by
        by_contra hne
        obtain ⟨j, hj, hjx⟩ := cover_pos_iff.mp (Nat.pos_of_ne_zero hne)
        exact hi j hj x hx hjx
      rw [hnone, if_pos hx]
    · rw [if_neg hx]
      exact ih hparts

/-- Intervals that cover no address twice are disjoint. -/
theorem pairwise_disjoint (h : ∀ x, cover parts x ≤ 1) : parts.Pairwise Interval.Disjoint := by
  induction parts with
  | nil => exact List.Pairwise.nil
  | cons i parts ih =>
    refine List.pairwise_cons.mpr ⟨fun j hj x hi hjx => ?_, ih fun x => ?_⟩
    · have htwice := h x
      have hpos : 0 < cover parts x := cover_pos_iff.mpr ⟨j, hj, hjx⟩
      rw [cover_cons, if_pos hi] at htwice
      omega
    · exact le_trans (by rw [cover_cons]; exact Nat.le_add_right _ _) (h x)

end Cover

/-- No parts have no bytes. -/
@[simp] theorem total_nil : total [] = 0 := rfl

/-- A further part adds its size. -/
@[simp] theorem total_cons (i : Interval) (parts : List Interval) :
    total (i :: parts) = i.size + total parts := by simp [total]

/-- Sizes add up. -/
@[simp] theorem total_append (left right : List Interval) :
    total (left ++ right) = total left + total right := by simp [total]

/-- The total size, measured address by address. -/
theorem total_eq_sum_cover {parts : List Interval} {low bound : ℕ} (hlow : ∀ i ∈ parts, low ≤ i.start)
    (hbound : ∀ i ∈ parts, i.start + i.size ≤ bound) :
    total parts = ∑ x ∈ Finset.Ico low bound, cover parts x := by
  induction parts with
  | nil => simp
  | cons i parts ih =>
    obtain ⟨hi, hlow⟩ := List.forall_mem_cons.mp hlow
    obtain ⟨hi', hbound⟩ := List.forall_mem_cons.mp hbound
    have hfilter : {x ∈ Finset.Ico low bound | i.Mem x} = Finset.Ico i.start (i.start + i.size) := by
      ext x
      rw [Finset.mem_filter, Finset.mem_Ico, Finset.mem_Ico, Interval.Mem]
      omega
    have hone : ∑ x ∈ Finset.Ico low bound, (if i.Mem x then 1 else 0) = i.size := by
      rw [Finset.sum_boole, hfilter, Nat.card_Ico, Nat.add_sub_cancel_left, Nat.cast_id]
    simp only [cover_cons, Finset.sum_add_distrib, hone]
    rw [total_cons, ih hlow hbound, Nat.add_comm]

/-- Disjoint intervals within a range are together no larger than the range. -/
theorem total_le {parts : List Interval} {low bound : ℕ} (hdisjoint : parts.Pairwise Interval.Disjoint)
    (hlow : ∀ i ∈ parts, low ≤ i.start) (hbound : ∀ i ∈ parts, i.start + i.size ≤ bound) :
    total parts ≤ bound - low := by
  calc total parts = ∑ x ∈ Finset.Ico low bound, cover parts x := total_eq_sum_cover hlow hbound
    _ ≤ ∑ _x ∈ Finset.Ico low bound, 1 := Finset.sum_le_sum fun _ _ => cover_le_one hdisjoint
    _ = bound - low := by simp

/-- The two lists cover every address equally often and have the same total size. -/
structure Tiles (parts regions : List Interval) : Prop where
  cover : ∀ x, cover parts x = cover regions x
  total : total parts = total regions

namespace Tiles

variable {parts parts' regions : List Interval}

/-- Parts tile themselves. -/
theorem refl (parts : List Interval) : Tiles parts parts := ⟨fun _ => rfl, rfl⟩

/-- Tilings compose. -/
theorem trans {middle : List Interval} (h : Tiles parts middle) (h' : Tiles middle regions) :
    Tiles parts regions := ⟨fun x => (h.cover x).trans (h'.cover x), h.total.trans h'.total⟩

/-- A tiling can be read the other way round. -/
theorem symm (h : Tiles parts regions) : Tiles regions parts :=
  ⟨fun x => (h.cover x).symm, h.total.symm⟩

/-- The order of the intervals does not matter. -/
theorem of_perm (h : parts.Perm parts') : Tiles parts parts' :=
  ⟨fun _ => h.countP_eq _, (h.map _).sum_eq⟩

/-- Tilings side by side. -/
theorem append {left left' right right' : List Interval} (h : Tiles left left')
    (h' : Tiles right right') : Tiles (left ++ right) (left' ++ right') :=
  ⟨fun x => by simp [h.cover x, h'.cover x], by simp [h.total, h'.total]⟩

/-- A common part in front of a tiling. -/
theorem cons (i : Interval) (h : Tiles parts parts') : Tiles (i :: parts) (i :: parts') :=
  append (refl [i]) h

/-- Empty intervals do not matter. -/
theorem empty (p : ℕ) : Tiles [⟨p, 0⟩] [] :=
  ⟨fun x => by simp [cover_cons, Interval.Mem], rfl⟩

/-- Cutting an interval in two. -/
theorem split (p m n : ℕ) : Tiles [⟨p, m + n⟩] [⟨p, m⟩, ⟨p + m, n⟩] := by
  refine ⟨fun x => ?_, by simp⟩
  have hwhole : (⟨p, m + n⟩ : Interval).Mem x ↔
      (⟨p, m⟩ : Interval).Mem x ∨ (⟨p + m, n⟩ : Interval).Mem x := by
    simp only [Interval.Mem]
    omega
  have hone : (⟨p, m⟩ : Interval).Mem x → ¬ (⟨p + m, n⟩ : Interval).Mem x := by
    simp only [Interval.Mem]
    omega
  simp only [cover_cons, cover_nil, hwhole]
  by_cases hleft : (⟨p, m⟩ : Interval).Mem x
  · simp [hleft, hone hleft]
  · simp [hleft]

/-- Parts of disjoint regions are disjoint. -/
theorem pairwise_disjoint (h : Tiles parts regions) (hregions : regions.Pairwise Interval.Disjoint) :
    parts.Pairwise Interval.Disjoint :=
  AddressInterval.pairwise_disjoint fun x => (h.cover x).trans_le (cover_le_one hregions)

/-- Parts and regions have the same addresses. -/
theorem mem_iff (h : Tiles parts regions) (x : ℕ) :
    (∃ i ∈ parts, i.Mem x) ↔ ∃ r ∈ regions, r.Mem x := by
  rw [← cover_pos_iff, ← cover_pos_iff, h.cover]

end Tiles

end AddressInterval
