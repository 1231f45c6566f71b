import CppProject.MakeGuid.Gen
import Mathlib.Data.List.Pairwise
import Mathlib.Data.List.Count

/-!
# Uniqueness over runs of several processes

A run interleaves calls of any number of processes. Each process owns a counter that every
call advances by one, and its clock readings never decrease. All ids of the run are distinct
exactly when no process generates more than eight ids under one clock reading: the counter
field repeats with period eight, not `2 ^ 16`.
-/

namespace CppProject.MakeGuid

variable {ι : Type*} [DecidableEq ι]

/-- The ids of a run, in order. A call names its process and its clock reading; `counter` holds
each process's `g_IncrementId`. -/
def run (server index : ι → ℕ) : (ι → BitVec 32) → List (ι × ℤ) → List (BitVec 64)
  | _, [] => []
  | counter, (i, now) :: rest =>
    let g := gen (BitVec.ofNat 64 (server i)) (BitVec.ofNat 64 (index i)) now (counter i)
    g.1 :: run server index (Function.update counter i g.2) rest

/-- Each call together with the counter value it consumes. -/
def stamps : (ι → BitVec 32) → List (ι × ℤ) → List (ι × ℤ × BitVec 32)
  | _, [] => []
  | counter, (i, now) :: rest =>
    (i, now, counter i) :: stamps (Function.update counter i (counter i + 1)) rest

/-- The ids of a run are read off its stamps. -/
theorem run_eq_map_stamps (server index : ι → ℕ) (counter : ι → BitVec 32) (calls : List (ι × ℤ)) :
    run server index counter calls = (stamps counter calls).map fun s =>
      (gen (BitVec.ofNat 64 (server s.1)) (BitVec.ofNat 64 (index s.1)) s.2.1 s.2.2).1 := by
  induction calls generalizing counter with
  | nil => rfl
  | cons call rest ih =>
    obtain ⟨i, now⟩ := call
    simp only [run, stamps, gen_snd, List.map_cons, ih]

/-- Every stamp is a call of the run. -/
theorem call_mem_of_stamp {counter : ι → BitVec 32} {calls : List (ι × ℤ)} {s : ι × ℤ × BitVec 32}
    (h : s ∈ stamps counter calls) : (s.1, s.2.1) ∈ calls := by
  induction calls generalizing counter with
  | nil => simp [stamps] at h
  | cons call rest ih =>
    obtain ⟨i, now⟩ := call
    rcases List.mem_cons.mp h with rfl | hrest
    · exact List.mem_cons_self
    · exact List.mem_cons_of_mem _ (ih hrest)

/-- The clock readings of one process, in order. -/
def readings (i : ι) (calls : List (ι × ℤ)) : List ℤ := (calls.filter (·.1 = i)).map Prod.snd

/-- The stamps of a single process that starts at the given counter. -/
def processStamps (counter : BitVec 32) : List ℤ → List (ℤ × BitVec 32)
  | [] => []
  | now :: rest => (now, counter) :: processStamps (counter + 1) rest

/-- A process's stamps in the run are its own readings under its own consecutive counters. -/
theorem stamps_filter (i : ι) (counter : ι → BitVec 32) (calls : List (ι × ℤ)) :
    ((stamps counter calls).filter (·.1 = i)).map Prod.snd =
      processStamps (counter i) (readings i calls) := by
  induction calls generalizing counter with
  | nil => rfl
  | cons call rest ih =>
    obtain ⟨j, now⟩ := call
    by_cases hj : j = i
    · subst hj
      simp [stamps, readings, processStamps, ih]
    · simp [stamps, readings, hj, ih, Function.update_of_ne (Ne.symm hj)]

/-- Two stamps of one process collide: same reading, counters equal modulo eight. -/
def Collide (a b : ℤ × BitVec 32) : Prop := a.1 = b.1 ∧ a.2.toNat % 8 = b.2.toNat % 8

/-- Being pairwise related within every process is being pairwise related when the processes agree. -/
theorem pairwise_of_process {α : Type*} (R : α → α → Prop) (l : List (ι × α)) :
    l.Pairwise (fun a b => a.1 = b.1 → R a.2 b.2) ↔
      ∀ i, ((l.filter (·.1 = i)).map Prod.snd).Pairwise R := by
  simp only [List.pairwise_map, List.pairwise_filter, decide_eq_true_eq]
  induction l with
  | nil => simp
  | cons a l ih =>
    simp only [List.pairwise_cons, forall_and, ih]
    exact and_congr ⟨fun h i b hb hai hbi => h b hb (hai.trans hbi.symm),
      fun h b hb hab => h b.1 b hb hab rfl⟩ Iff.rfl

/-- In a nondecreasing list that starts no earlier than `now`, the entries equal to `now` are a
prefix: position `k` holds `now` exactly when fewer than its count precede it. -/
theorem getElem?_eq_iff_lt_count {now : ℤ} {rest : List ℤ} (hsorted : (now :: rest).Pairwise (· ≤ ·))
    (k : ℕ) : rest[k]? = some now ↔ k < rest.count now := by
  induction rest generalizing k with
  | nil => simp
  | cons a rest ih =>
    obtain ⟨hhead, htail⟩ := List.pairwise_cons.mp hsorted
    by_cases ha : a = now
    · subst ha
      cases k with
      | zero => simp
      | succ k => simpa using ih htail k
    · -- A later reading has been passed: `now` cannot occur again.
      have hlt : now < a := lt_of_le_of_ne (hhead a List.mem_cons_self) (Ne.symm ha)
      have hnot : now ∉ a :: rest := fun hmem => by
        rcases List.mem_cons.mp hmem with heq | hmem
        · exact ha heq.symm
        · exact absurd ((List.pairwise_cons.mp htail).1 now hmem) (not_le.mpr hlt)
      rw [List.count_eq_zero.mpr hnot]
      exact iff_of_false (fun h => hnot (List.mem_of_getElem? h)) (Nat.not_lt_zero k)

/-- Advancing the counter once more is advancing it from its successor. -/
theorem counter_succ (counter : BitVec 32) (k : ℕ) :
    counter + BitVec.ofNat 32 (k + 1) = counter + 1 + BitVec.ofNat 32 k := by
  rw [Nat.add_comm k 1, BitVec.ofNat_add, add_assoc]
  rfl

/-- The stamp at a position carries that position's reading and counter. -/
theorem mem_processStamps (counter : BitVec 32) (rest : List ℤ) (s : ℤ × BitVec 32) :
    s ∈ processStamps counter rest ↔
      ∃ k : ℕ, rest[k]? = some s.1 ∧ s.2 = counter + BitVec.ofNat 32 k := by
  induction rest generalizing counter with
  | nil => simp [processStamps]
  | cons now rest ih =>
    simp only [processStamps, List.mem_cons, ih]
    constructor
    · rintro (rfl | ⟨k, hk, hs⟩)
      · exact ⟨0, by simp, by simp⟩
      · refine ⟨k + 1, by simpa using hk, ?_⟩
        rw [hs, counter_succ]
    · rintro ⟨k, hk, hs⟩
      cases k with
      | zero => exact Or.inl (Prod.ext (by simpa using hk.symm) (by simpa using hs))
      | succ k =>
        refine Or.inr ⟨k, by simpa using hk, ?_⟩
        rw [hs, counter_succ]

/-- Counters of one process agree modulo eight exactly when their distance is a multiple of eight. -/
theorem counter_offset_mod (counter : BitVec 32) (k : ℕ) :
    counter.toNat % 8 = (counter + 1 + BitVec.ofNat 32 k).toNat % 8 ↔ (k + 1) % 8 = 0 := by
  rw [← counter_succ, BitVec.toNat_add, BitVec.toNat_ofNat]
  omega

/-- One process repeats no id exactly when each clock reading occurs at most eight times. -/
theorem processStamps_pairwise_iff (counter : BitVec 32) (times : List ℤ)
    (hsorted : times.Pairwise (· ≤ ·)) :
    (processStamps counter times).Pairwise (fun a b => ¬ Collide a b) ↔
      ∀ t, times.count t ≤ 8 := by
  induction times generalizing counter with
  | nil => simp [processStamps]
  | cons now rest ih =>
    obtain ⟨-, htail⟩ := List.pairwise_cons.mp hsorted
    have hhead : (∀ b ∈ processStamps (counter + 1) rest, ¬ Collide (now, counter) b) ↔
        rest.count now ≤ 7 := by
      -- A collision with the first id is an occurrence of `now` at a position `7, 15, …`.
      constructor
      · intro h
        by_contra hcount
        have hseven : rest[7]? = some now := (getElem?_eq_iff_lt_count hsorted 7).mpr (by omega)
        exact h (now, counter + 1 + BitVec.ofNat 32 7)
          ((mem_processStamps _ _ _).mpr ⟨7, hseven, rfl⟩)
          ⟨rfl, (counter_offset_mod counter 7).mpr (by decide)⟩
      · rintro hcount ⟨t, c⟩ hb ⟨htime, hmod⟩
        obtain ⟨k, hk, hc⟩ := (mem_processStamps _ _ _).mp hb
        simp only at htime hmod hk hc
        subst htime hc
        have hlt := (getElem?_eq_iff_lt_count hsorted k).mp hk
        have := (counter_offset_mod counter k).mp hmod
        omega
    rw [processStamps, List.pairwise_cons, hhead, ih _ htail]
    constructor
    · rintro ⟨hnow, hrest⟩ t
      rw [List.count_cons]
      split
      · next heq => obtain rfl : now = t := by simpa using heq
                    omega
      · exact hrest t
    · intro h
      refine ⟨?_, fun t => ?_⟩
      · have := h now
        rw [List.count_cons_self] at this
        omega
      · exact (List.count_le_count_cons).trans (h t)

/-- All ids of all processes are pairwise distinct exactly when no process generates more than
eight ids under one clock reading. -/
theorem run_nodup_iff (server index : ι → ℕ) (hserver : ∀ i, server i < 2 ^ 14)
    (hindex : ∀ i, index i < 2 ^ 4)
    (hpair : ∀ i j, server i = server j → index i = index j → i = j)
    (counter : ι → BitVec 32) (calls : List (ι × ℤ))
    (hclock : ∀ i, (readings i calls).Pairwise (· ≤ ·))
    (hwindow : ∀ a ∈ calls, ∀ b ∈ calls, a.2 - b.2 < 2 ^ 29) :
    (run server index counter calls).Nodup ↔ ∀ i t, (readings i calls).count t ≤ 8 := by
  -- Within the window, equal clock fields are equal readings.
  have hfields : ∀ a ∈ stamps counter calls, ∀ b ∈ stamps counter calls,
      ((gen (BitVec.ofNat 64 (server a.1)) (BitVec.ofNat 64 (index a.1)) a.2.1 a.2.2).1 ≠
        (gen (BitVec.ofNat 64 (server b.1)) (BitVec.ofNat 64 (index b.1)) b.2.1 b.2.2).1 ↔
        (a.1 = b.1 → ¬ Collide a.2 b.2)) := by
    intro a ha b hb
    have hab := hwindow _ (call_mem_of_stamp ha) _ (call_mem_of_stamp hb)
    have hba := hwindow _ (call_mem_of_stamp hb) _ (call_mem_of_stamp ha)
    have htime : a.2.1 % 2 ^ 29 = b.2.1 % 2 ^ 29 ↔ a.2.1 = b.2.1 := by
      simp only at hab hba
      omega
    rw [ne_eq, gen_fst_eq_iff (hserver _) (hserver _) (hindex _) (hindex _), htime, ← not_and, Collide,
      not_iff_not]
    constructor
    · rintro ⟨hs, hi, hc, ht⟩
      exact ⟨hpair _ _ hs hi, ht, hc⟩
    · rintro ⟨hi, ht, hc⟩
      exact ⟨by rw [hi], by rw [hi], hc, ht⟩
  rw [run_eq_map_stamps, List.Nodup, List.pairwise_map,
    List.Pairwise.iff_of_mem fun ha hb => hfields _ ha _ hb,
    pairwise_of_process (fun a b => ¬ Collide a b)]
  simp only [stamps_filter]
  exact forall_congr' fun i => processStamps_pairwise_iff _ _ (hclock i)

/-- Two servers sharing one process index, each within its budget, repeat no id. -/
theorem run_nodup_two_servers :
    (run (fun second : Bool => if second then 2 else 1) (fun _ => 1) (fun _ => 0)
      [(false, 5), (true, 5), (false, 5), (true, 6)]).Nodup := by
  refine (run_nodup_iff (fun second : Bool => if second then 2 else 1) (fun _ => 1)
    (by decide) (by decide) (by decide) (fun _ => 0)
    [(false, 5), (true, 5), (false, 5), (true, 6)] (by decide) (by decide)).mpr fun i t => ?_
  exact List.count_le_length.trans (by revert i; decide)

/-- Nine ids of one process within one second: the ninth repeats the first, long before the
budget of 65535 ids per second that the counter field is documented to have. -/
theorem nine_ids_in_one_second_collide :
    let calls : List (Unit × ℤ) := List.replicate 9 ((), 0)
    (∀ i, (readings i calls).Pairwise (· ≤ ·)) ∧
      (∀ a ∈ calls, ∀ b ∈ calls, a.2 - b.2 < 2 ^ 29) ∧
      (∀ i t, (readings i calls).count t ≤ 65535) ∧
      ¬ (run (fun _ => 1) (fun _ => 1) (fun _ => 0) calls).Nodup := by
  refine ⟨by decide, by decide, fun i t => ?_, by decide⟩
  exact List.count_le_length.trans (by cases i; decide)

end CppProject.MakeGuid
