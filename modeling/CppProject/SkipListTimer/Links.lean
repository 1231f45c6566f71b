import CppProject.SkipListTimer.SkipList

/-!
# The link and level loops

Each loop over the levels writes one link per level, so its effect is stated level by level
as an update of `next`, with heights and scores unchanged. The only requirement is that every
slot it touches was assigned by its node's constructor.
-/

namespace CppProject.SkipListTimer

variable {H : Type*}

/-- Filling writes the header into exactly the new levels. -/
theorem fillTemp_apply (header : NodePtr) (i count : ℕ) (temp : Temp) (k : ℕ) :
    fillTemp header i count temp k = if i ≤ k ∧ k < i + count then some header else temp k := by
  induction count generalizing i temp with
  | zero => simp only [fillTemp]; rw [if_neg (by omega)]
  | succ count ih =>
    rw [fillTemp, ih]
    by_cases hk : k = i
    · subst hk
      rw [if_neg (by omega), if_pos (by omega), Function.update_self]
    · rw [Function.update_of_ne hk]
      by_cases hin : i + 1 ≤ k ∧ k < i + 1 + count
      · rw [if_pos hin, if_pos (by omega)]
      · rw [if_neg hin, if_neg (by omega)]

/-- The invariant rule for a loop over the levels. -/
theorem forLevels_spec {body : ℕ → Heap H → Option (Heap H)} {inv : ℕ → Heap H → Prop} {n : ℕ}
    {heap : Heap H} (hinit : inv 0 heap)
    (hstep : ∀ i < n, ∀ h, inv i h → ∃ h', body i h = some h' ∧ inv (i + 1) h') :
    ∃ h', forLevels body n heap = some h' ∧ inv n h' := by
  induction n with
  | zero => exact ⟨heap, rfl, hinit⟩
  | succ n ih =>
    obtain ⟨h, hrun, hinv⟩ := ih fun i hi => hstep i (by omega)
    obtain ⟨h', hbody, hinv'⟩ := hstep n (Nat.lt_succ_self n) h hinv
    exact ⟨h', by rw [forLevels, hrun, Option.bind_some, hbody], hinv'⟩

/-- A level loop that rewrites the links of level `i` by `edit i` and leaves the rest alone. -/
def EditsLevels (heap : Heap H) (edit : ℕ → NodePtr → Option NodePtr) (n : ℕ) (heap' : Heap H) : Prop :=
  SameNodes heap heap' ∧ (∀ i < n, next heap' i = edit i) ∧ ∀ i, n ≤ i → next heap' i = next heap i

/-- Rounds that each edit their own level compose to a loop that edits every level. -/
theorem forLevels_edits {body : ℕ → Heap H → Option (Heap H)} {heap : Heap H} {n : ℕ}
    {edit : ℕ → NodePtr → Option NodePtr}
    (hround : ∀ i < n, ∀ h, SameNodes heap h → next h i = next heap i →
      ∃ h', body i h = some h' ∧ SameNodes h h' ∧ next h' i = edit i ∧
        ∀ j, j ≠ i → next h' j = next h j) :
    ∃ h', forLevels body n heap = some h' ∧ EditsLevels heap edit n h' := by
  refine forLevels_spec ⟨SameNodes.refl heap, by simp, fun _ _ => rfl⟩ ?_
  intro i hi h ⟨hsame, hdone, htodo⟩
  obtain ⟨h', hbody, hsame', hedit, hframe⟩ := hround i hi h hsame (htodo i le_rfl)
  refine ⟨h', hbody, hsame.trans hsame', ?_, ?_⟩
  · intro j hj
    rcases Nat.lt_succ_iff_lt_or_eq.mp hj with hj | rfl
    · rw [hframe j (by omega), hdone j hj]
    · exact hedit
  · intro j hj
    rw [hframe j (by omega), htodo j (by omega)]

/-- The linking loop puts `x` behind its predecessor on every level below its height. -/
theorem forLevels_linkLevel_spec {heap : Heap H} {x : NodePtr} {temp : Temp} {n : ℕ}
    {pred : ℕ → NodePtr} (htemp : ∀ i < n, temp i = some (pred i))
    (hpred : ∀ i < n, i < height heap (pred i)) (hx : n ≤ height heap x) :
    ∃ h', forLevels (linkLevel x temp) n heap = some h' ∧
      EditsLevels heap (fun i => Function.update
        (Function.update (next heap i) x (next heap i (pred i))) (pred i) (some x)) n h' := by
  apply forLevels_edits
  intro i hi h hsame hnext
  have hpred' : i < height h (pred i) := hsame.height_eq ▸ hpred i hi
  have hx' : i < height h x := by
    rw [hsame.height_eq]
    omega
  obtain ⟨h₁, hset₁, hsame₁, hnext₁, hframe₁⟩ :=
    setNextNodeOfLevel_spec hx' (next h i (pred i))
  obtain ⟨h₂, hset₂, hsame₂, hnext₂, hframe₂⟩ :=
    setNextNodeOfLevel_spec (hsame₁.height_eq ▸ hpred' : i < height h₁ (pred i)) (some x)
  refine ⟨h₂, ?_, hsame₁.trans hsame₂, ?_, ?_⟩
  · simp [linkLevel, htemp i hi, getNextNodeOfLevel_eq hpred', hset₁, hset₂]
  · rw [hnext₂, hnext₁, hnext]
  · intro j hj
    rw [hframe₂ j hj, hframe₁ j hj]

/-- The unlinking loop takes `x` out of every level on which it follows its predecessor. -/
theorem forLevels_unlinkLevel_spec {heap : Heap H} {x : NodePtr} {temp : Temp} {n : ℕ}
    {pred : ℕ → NodePtr} (htemp : ∀ i < n, temp i = some (pred i))
    (hpred : ∀ i < n, i < height heap (pred i))
    (hx : ∀ i < n, next heap i (pred i) = some x → i < height heap x) :
    ∃ h', forLevels (unlinkLevel x temp) n heap = some h' ∧
      EditsLevels heap (fun i => if next heap i (pred i) = some x then
        Function.update (next heap i) (pred i) (next heap i x) else next heap i) n h' := by
  apply forLevels_edits
  intro i hi h hsame hnext
  have hpred' : i < height h (pred i) := hsame.height_eq ▸ hpred i hi
  by_cases hfollows : next heap i (pred i) = some x
  · have hx' : i < height h x := hsame.height_eq ▸ hx i hi hfollows
    obtain ⟨h₁, hset₁, hsame₁, hnext₁, hframe₁⟩ := setNextNodeOfLevel_spec hpred' (next h i x)
    refine ⟨h₁, ?_, hsame₁, ?_, hframe₁⟩
    · simp [unlinkLevel, htemp i hi, getNextNodeOfLevel_eq hpred', hnext, hfollows,
        getNextNodeOfLevel_eq hx', ← hset₁]
    · rw [hnext₁, hnext, if_pos hfollows]
  · refine ⟨h, ?_, SameNodes.refl h, ?_, fun _ _ => rfl⟩
    · simp [unlinkLevel, htemp i hi, getNextNodeOfLevel_eq hpred', hnext, hfollows]
    · rw [hnext, if_neg hfollows]

/-- Shrinking stops at the highest level the header still links on, and at level 1 otherwise. -/
theorem shrinkLevel_spec {heap : Heap H} {header : NodePtr} {n : ℕ} (hpos : 1 ≤ n)
    (hheader : n ≤ height heap header) :
    ∃ m, shrinkLevel heap header n = some m ∧ 1 ≤ m ∧ m ≤ n ∧
      (∀ i, m ≤ i → i < n → next heap i header = none) ∧
      (m = 1 ∨ next heap (m - 1) header ≠ none) := by
  induction n with
  | zero => omega
  | succ n ih =>
    cases n with
    | zero => exact ⟨1, rfl, le_rfl, le_rfl, fun i _ _ => by omega, Or.inl rfl⟩
    | succ n =>
      have hread := getNextNodeOfLevel_eq (by omega : n + 1 < height heap header)
      by_cases hfirst : next heap (n + 1) header = none
      · obtain ⟨m, hrun, hm, hmn, hnone, hlast⟩ := ih (by omega) (by omega)
        refine ⟨m, ?_, hm, by omega, ?_, hlast⟩
        · rw [shrinkLevel, hread, Option.bind_some, if_pos hfirst, hrun]
        · intro i hi hin
          rcases Nat.lt_succ_iff_lt_or_eq.mp hin with hin | rfl
          · exact hnone i hi hin
          · exact hfirst
      · refine ⟨n + 2, ?_, by omega, le_rfl, fun i _ _ => by omega, Or.inr hfirst⟩
        rw [shrinkLevel, hread, Option.bind_some, if_neg hfirst]

end CppProject.SkipListTimer
