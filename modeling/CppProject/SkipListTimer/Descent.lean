import CppProject.SkipListTimer.SkipList
import CppProject.Lib.PointerChain

/-!
# What a descent finds

Both searches start each level where the level above stopped. The result is stated through a
split of the bottom level into the part `A` that was passed and the part `B` that was not: on
every level the recorded predecessor is the last node of `A` that is linked there, and the
first node of `B` linked there is not below the target.

Nothing here assumes that the scores are sorted. What makes the levels agree is that a node
which stops the descent on its level is linked on every level below, and stops it there too.
-/

namespace CppProject.SkipListTimer

open PointerChain

variable {H : Type*}

/-- The nodes of a list that are linked on one level, by their heights. -/
def onLevel (heap : Heap H) (i : ℕ) (nodes : List NodePtr) : List NodePtr :=
  nodes.filter fun p => decide (i < height heap p)

/-- No nodes on a level. -/
@[simp] theorem onLevel_nil (heap : Heap H) (i : ℕ) : onLevel heap i [] = [] := rfl

/-- A level in two parts. -/
theorem onLevel_append (heap : Heap H) (i : ℕ) (left right : List NodePtr) :
    onLevel heap i (left ++ right) = onLevel heap i left ++ onLevel heap i right :=
  List.filter_append left right

/-- A higher node is on the level. -/
theorem onLevel_cons_of_lt {heap : Heap H} {i : ℕ} {p : NodePtr} (h : i < height heap p)
    (nodes : List NodePtr) : onLevel heap i (p :: nodes) = p :: onLevel heap i nodes :=
  List.filter_cons_of_pos (by simpa using h)

/-- A lower node is not. -/
theorem onLevel_cons_of_le {heap : Heap H} {i : ℕ} {p : NodePtr} (h : height heap p ≤ i)
    (nodes : List NodePtr) : onLevel heap i (p :: nodes) = onLevel heap i nodes :=
  List.filter_cons_of_neg (by simpa using h)

/-- The nodes on a level are the higher ones. -/
theorem mem_onLevel {heap : Heap H} {i : ℕ} {p : NodePtr} {nodes : List NodePtr} :
    p ∈ onLevel heap i nodes ↔ p ∈ nodes ∧ i < height heap p := by
  simp [onLevel]

/-- A list that ends in a node linked on the level ends in that node on the level. -/
theorem onLevel_of_getLast? {heap : Heap H} {i : ℕ} {nodes : List NodePtr} {x : NodePtr}
    (hlast : nodes.getLast? = some x) (hx : i < height heap x) :
    ∃ before, onLevel heap i nodes = before ++ [x] := by
  obtain ⟨init, rfl⟩ := List.getLast?_eq_some_iff.mp hlast
  exact ⟨onLevel heap i init, by rw [onLevel_append, onLevel_cons_of_lt hx, onLevel_nil]⟩

/-- On a level without linked nodes ahead, the whole list is the part passed so far. -/
theorem onLevel_append_of_eq_nil {heap : Heap H} {i : ℕ} {left right : List NodePtr}
    (h : onLevel heap i right = []) : onLevel heap i (left ++ right) = onLevel heap i left := by
  rw [onLevel_append, h, List.append_nil]

/-- The first node linked on the level, if there is one, is not below the target. -/
def StopsAt (heap : Heap H) (target : BitVec 64) (i : ℕ) (ahead : List NodePtr) : Prop :=
  ∀ z, (onLevel heap i ahead).head? = some z → ¬ score heap z < target

/-- One level of the descent, from the last node `x` of the part passed so far. -/
theorem advance_spec {heap : Heap H} (target : BitVec 64) {i : ℕ} {start : Option NodePtr}
    {fuel : ℕ} {passed ahead : List NodePtr} {x : NodePtr}
    (hchain : Chain (next heap i) start (onLevel heap i (passed ++ ahead)))
    (hlast : passed.getLast? = some x) (hx : i < height heap x) (hfuel : ahead.length < fuel) :
    ∃ y skipped ahead', advance heap target i fuel x = some y ∧ ahead = skipped ++ ahead' ∧
      (passed ++ skipped).getLast? = some y ∧ i < height heap y ∧
      (∀ c ∈ skipped, i < height heap c → score heap c < target) ∧
      StopsAt heap target i ahead' ∧ (skipped = [] ∨ score heap y < target) := by
  induction fuel generalizing passed ahead x with
  | zero => omega
  | succ fuel ih =>
    obtain ⟨before, hbefore⟩ := onLevel_of_getLast? hlast hx
    have hnext : next heap i x = (onLevel heap i ahead).head? := by
      rw [onLevel_append, hbefore, List.append_assoc] at hchain
      exact hchain.next_eq
    cases hahead : onLevel heap i ahead with
    | nil =>
      have hstop : StopsAt heap target i ahead := by
        intro z hz
        simp [hahead] at hz
      refine ⟨x, [], ahead, ?_, rfl, by simpa using hlast, hx, by simp, hstop, Or.inl rfl⟩
      simp [advance, getNextNodeOfLevel_eq hx, hnext, hahead]
    | cons y rest =>
      obtain ⟨jumped, ahead₂, rfl, hjumped, hy, -⟩ := List.filter_eq_cons_iff.mp hahead
      replace hy : i < height heap y := by simpa using hy
      have hscore := getScore_eq (isSome_of_lt_height hy)
      by_cases hlt : score heap y < target
      · -- The walk moves to `y`; the nodes it jumps over are not linked on this level.
        have hstep : advance heap target i (fuel + 1) x = advance heap target i fuel y := by
          simp [advance, getNextNodeOfLevel_eq hx, hnext, hahead, hscore, hlt]
        have hlast' : (passed ++ (jumped ++ [y])).getLast? = some y := by
          rw [← List.append_assoc, List.getLast?_concat]
        have hchain' : Chain (next heap i) start
            (onLevel heap i ((passed ++ (jumped ++ [y])) ++ ahead₂)) := by
          simpa using hchain
        obtain ⟨w, skipped, ahead', hrun, rfl, hw, hwh, hbelow, hstop, hpassed⟩ :=
          ih hchain' hlast' hy (by simp at hfuel; omega)
        refine ⟨w, jumped ++ y :: skipped, ahead', hstep.trans hrun, by simp, by simpa using hw, hwh,
          ?_, hstop, Or.inr ?_⟩
        · intro c hc hch
          rcases List.mem_append.mp hc with hc | hc
          · exact absurd hch (by simpa using hjumped c hc)
          · rcases List.mem_cons.mp hc with rfl | hc
            · exact hlt
            · exact hbelow c hc hch
        · rcases hpassed with rfl | hpassed
          · obtain rfl : w = y := by simpa using hw.symm
            exact hlt
          · exact hpassed
      · have hstop : StopsAt heap target i (jumped ++ y :: ahead₂) := by
          intro z hz
          rw [hahead, List.head?_cons, Option.some.injEq] at hz
          exact hz ▸ hlt
        refine ⟨x, [], jumped ++ y :: ahead₂, ?_, rfl, by simpa using hlast, hx, by simp, hstop,
          Or.inl rfl⟩
        simp [advance, getNextNodeOfLevel_eq hx, hnext, hahead, hscore, hlt]

/-- A level on which the descent has already stopped is not passed any further: the walk on a
lower level passes only scores below the target. -/
theorem onLevel_skipped_eq_nil {heap : Heap H} {target : BitVec 64} {i k : ℕ} (hik : i ≤ k)
    {skipped ahead : List NodePtr} (hstop : StopsAt heap target k (skipped ++ ahead))
    (hbelow : ∀ c ∈ skipped, i < height heap c → score heap c < target) :
    onLevel heap k skipped = [] := by
  by_contra hne
  obtain ⟨z, rest, hz⟩ := List.exists_cons_of_ne_nil hne
  have hmem : z ∈ onLevel heap k skipped := hz ▸ List.mem_cons_self
  obtain ⟨hzs, hzh⟩ := mem_onLevel.mp hmem
  apply hstop z
  · rw [onLevel_append, hz, List.cons_append, List.head?_cons]
  · exact hbelow z hzs (lt_of_le_of_lt hik hzh)

/-- Levels that stopped stay stopped at the same node when nothing linked there is passed. -/
theorem StopsAt.of_append {heap : Heap H} {target : BitVec 64} {k : ℕ} {skipped ahead : List NodePtr}
    (hstop : StopsAt heap target k (skipped ++ ahead)) (hnil : onLevel heap k skipped = []) :
    StopsAt heap target k ahead := by
  intro z hz
  apply hstop z
  rw [onLevel_append, hnil, List.nil_append, hz]

/-- The levels below `i`, from the last node `x` of the part passed so far. -/
theorem descend_levels_spec {heap : Heap H} (target : BitVec 64) {start : Option NodePtr} {fuel : ℕ}
    {i : ℕ} {passed ahead : List NodePtr} {x : NodePtr} (temp : Temp)
    (hchain : ∀ k < i, Chain (next heap k) start (onLevel heap k (passed ++ ahead)))
    (hlast : passed.getLast? = some x) (hx : i ≤ height heap x) (hfuel : ahead.length < fuel) :
    ∃ y temp' skipped ahead', descend heap target fuel i x temp = some (y, temp') ∧
      ahead = skipped ++ ahead' ∧ (passed ++ skipped).getLast? = some y ∧
      (∀ k < i, temp' k = (onLevel heap k (passed ++ skipped)).getLast? ∧
        StopsAt heap target k ahead') ∧
      (∀ k, i ≤ k → temp' k = temp k) ∧
      (∀ k, i ≤ k → StopsAt heap target k ahead → onLevel heap k skipped = []) ∧
      (skipped = [] ∨ score heap y < target) := by
  induction i generalizing passed ahead x temp with
  | zero =>
    exact ⟨x, temp, [], ahead, rfl, rfl, by simpa using hlast, by simp, fun _ _ => rfl,
      fun _ _ _ => rfl, Or.inl rfl⟩
  | succ i ih =>
    obtain ⟨y₁, skipped₁, ahead₁, hrun₁, rfl, hlast₁, hy₁, hbelow₁, hstop₁, hpassed₁⟩ :=
      advance_spec target (hchain i (Nat.lt_succ_self i)) hlast hx hfuel
    obtain ⟨y, temp', skipped₂, ahead', hrun, rfl, hlast₂, hpred, hkeep, hskip, hpassed⟩ :=
      ih (Function.update temp i (some y₁)) (fun k hk => by simpa using hchain k (by omega)) hlast₁
        (by omega) (by simp at hfuel; omega)
    have hnil := hskip i le_rfl hstop₁
    refine ⟨y, temp', skipped₁ ++ skipped₂, ahead', ?_, by simp, by simpa using hlast₂, ?_, ?_, ?_, ?_⟩
    · rw [descend, hrun₁, Option.bind_some, hrun]
    · intro k hk
      rcases Nat.lt_succ_iff_lt_or_eq.mp hk with hk | rfl
      · simpa using hpred k hk
      · -- On the level just finished the predecessor is `y₁`, and lower levels pass nothing here.
        obtain ⟨before, hbefore⟩ := onLevel_of_getLast? hlast₁ hy₁
        refine ⟨?_, hstop₁.of_append hnil⟩
        rw [hkeep k le_rfl, Function.update_self, ← List.append_assoc, onLevel_append_of_eq_nil hnil,
          hbefore, List.getLast?_concat]
    · intro k hk
      rw [hkeep k (by omega), Function.update_of_ne (by omega)]
    · intro k hk hstop
      have hnil₁ := onLevel_skipped_eq_nil (by omega : i ≤ k) hstop hbelow₁
      rw [onLevel_append, hnil₁, hskip k (by omega) (hstop.of_append hnil₁), List.append_nil]
    · rcases hpassed with rfl | hpassed
      · rcases hpassed₁ with rfl | hpassed₁
        · exact Or.inl rfl
        · obtain rfl : y₁ = y := by
            rw [List.append_nil, hlast₁, Option.some.injEq] at hlast₂
            exact hlast₂
          exact Or.inr hpassed₁
      · exact Or.inr hpassed

/-- The outcome of a search: the bottom level is split into the part `A` behind the final
position `x` and the part `B` ahead of it, and `temp` holds the predecessors. -/
structure Search (heap : Heap H) (target : BitVec 64) (header : NodePtr) (levels : ℕ)
    (A B : List NodePtr) (x : NodePtr) (temp : Temp) : Prop where
  last : (header :: A).getLast? = some x
  pred : ∀ k < levels, temp k = (onLevel heap k (header :: A)).getLast?
  stop : ∀ k < levels, StopsAt heap target k B
  passed : A = [] ∨ score heap x < target

/-- A descent from the header succeeds and splits the bottom level. -/
theorem descend_spec {heap : Heap H} (target : BitVec 64) {header : NodePtr} {levels fuel : ℕ}
    {order : List NodePtr} (temp : Temp)
    (hchain : ∀ k < levels, Chain (next heap k) (some header) (onLevel heap k (header :: order)))
    (hheader : levels ≤ height heap header) (hfuel : order.length < fuel) :
    ∃ x temp' A B, descend heap target fuel levels header temp = some (x, temp') ∧
      order = A ++ B ∧ Search heap target header levels A B x temp' := by
  obtain ⟨x, temp', A, B, hrun, horder, hlast, hlevels, -, -, hpassed⟩ :=
    descend_levels_spec target temp hchain (rfl : [header].getLast? = some header) hheader hfuel
  exact ⟨x, temp', A, B, hrun, horder, hlast, fun k hk => (hlevels k hk).1,
    fun k hk => (hlevels k hk).2, hpassed⟩

end CppProject.SkipListTimer
