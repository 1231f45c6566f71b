import CppProject.SkipListTimer.RandomLevel
import CppProject.Lib.Peaks

/-!
# What a search costs

Each descent moves right once for every node it passes that is not followed by a higher node within the part passed.
Heights that differ make this part short. All timers that are added within one second have the same height, so the
search among them passes every node: it costs as much as the scan of a plain list.
-/

namespace CppProject.SkipListTimer

open PointerChain Peaks

variable {H G : Type*}

/-! ## Counting -/

/-- The inner `while` of both descents, with the number of its rounds. -/
def advanceCounted (heap : Heap H) (target : BitVec 64) (level : ℕ) : ℕ → NodePtr → Option (NodePtr × ℕ)
  | 0, _ => none
  | fuel + 1, x =>
    (getNextNodeOfLevel heap x level).bind fun
      | none => some (x, 0)
      | some y => (getScore heap y).bind fun s =>
        if s < target then (advanceCounted heap target level fuel y).map fun (z, n) => (z, n + 1) else some (x, 0)

/-- The outer `for` of both descents, with the number of rounds of the inner loop on all levels together. -/
def descendCounted (heap : Heap H) (target : BitVec 64) (fuel : ℕ) :
    ℕ → NodePtr → Temp → Option ((NodePtr × Temp) × ℕ)
  | 0, x, temp => some ((x, temp), 0)
  | i + 1, x, temp =>
    (advanceCounted heap target i fuel x).bind fun (x, n) =>
      (descendCounted heap target fuel i x (Function.update temp i (some x))).map fun (found, m) => (found, n + m)

/-- The search of `Insert_node` and `Del_node` from the header, counted. -/
def searchCounted (s : SkipList H) (target : BitVec 64) : Option ((NodePtr × Temp) × ℕ) :=
  descendCounted s.heap target s.fuel s.mLevel s.mHeader fun _ => none

variable {heap : Heap H} {target : BitVec 64} {fuel i : ℕ} {x y : NodePtr} {temp : Temp} {start : Option NodePtr}
  {passed ahead order : List NodePtr}

/-- The counted walk is the walk. -/
theorem advanceCounted_result (heap : Heap H) (target : BitVec 64) (i fuel : ℕ) (x : NodePtr) :
    (advanceCounted heap target i fuel x).map Prod.fst = advance heap target i fuel x := by
  induction fuel generalizing x with
  | zero => rfl
  | succ fuel ih =>
    rw [advanceCounted, advance, Option.map_bind]
    congr 1
    funext after
    cases after with
    | none => rfl
    | some y =>
      dsimp only [Function.comp_apply]
      rw [Option.map_bind]
      congr 1
      funext s
      rw [Function.comp_apply]
      split
      · rw [Option.map_map, ← ih]
        rfl
      · rfl

/-- The counted descent is the descent. -/
theorem descendCounted_result (heap : Heap H) (target : BitVec 64) (fuel i : ℕ) (x : NodePtr) (temp : Temp) :
    (descendCounted heap target fuel i x temp).map Prod.fst = descend heap target fuel i x temp := by
  induction i generalizing x temp with
  | zero => rfl
  | succ i ih =>
    rw [descendCounted, descend, ← advanceCounted_result, Option.map_bind, Option.bind_map]
    congr 1
    funext walked
    dsimp only [Function.comp_apply]
    rw [Option.map_map, ← ih]
    rfl

/-! ## One level -/

/-- A walk follows as many links as it counts. -/
theorem iterate_advanceCounted {n : ℕ} (h : advanceCounted heap target i fuel x = some (y, n)) :
    (fun q : Option NodePtr => q.bind (next heap i))^[n] (some x) = some y := by
  induction fuel generalizing x n with
  | zero => exact absurd h (Option.some_ne_none _).symm
  | succ fuel ih =>
    rw [advanceCounted] at h
    obtain ⟨after, hafter, h⟩ := Option.bind_eq_some_iff.mp h
    cases after with
    | none =>
      obtain ⟨rfl, rfl⟩ := Prod.mk.inj (Option.some.inj h)
      rfl
    | some z =>
      obtain ⟨s, -, h⟩ := Option.bind_eq_some_iff.mp h
      split at h
      · obtain ⟨⟨found, m⟩, hrest, heq⟩ := Option.map_eq_some_iff.mp h
        obtain ⟨rfl, rfl⟩ := Prod.mk.inj heq
        have hnext : next heap i x = some z := by rw [next, hafter, Option.getD_some]
        rw [Function.iterate_succ_apply, Option.bind_some, hnext]
        exact ih hrest
      · obtain ⟨rfl, rfl⟩ := Prod.mk.inj (Option.some.inj h)
        rfl

/-- On one level the walk moves once for each node linked there that it passes. -/
theorem advanceCounted_eq {skipped : List NodePtr}
    (hchain : Chain (next heap i) start (onLevel heap i (passed ++ (skipped ++ ahead))))
    (hlast : passed.getLast? = some x) (hx : i < height heap x) (hy : i < height heap y)
    (hlast' : (passed ++ skipped).getLast? = some y) (hwalk : advance heap target i fuel x = some y) :
    advanceCounted heap target i fuel x = some (y, (onLevel heap i skipped).length) := by
  rw [← advanceCounted_result] at hwalk
  obtain ⟨⟨found, n⟩, hcounted, hfound⟩ := Option.map_eq_some_iff.mp hwalk
  obtain rfl : found = y := hfound
  obtain ⟨before, hbefore⟩ := onLevel_of_getLast? hlast hx
  rw [onLevel_append, onLevel_append, hbefore, List.append_assoc, List.singleton_append] at hchain
  have hreached : (x :: (onLevel heap i skipped ++ onLevel heap i ahead))[n]? = some found :=
    (hchain.iterate n).symm.trans (iterate_advanceCounted hcounted)
  -- the node found ends the part passed, so its place is the length of that part
  have hplace : (x :: (onLevel heap i skipped ++ onLevel heap i ahead))[(onLevel heap i skipped).length]? =
      some found := by
    obtain ⟨others, hothers⟩ := onLevel_of_getLast? hlast' hy
    rw [onLevel_append, hbefore] at hothers
    have hend : (x :: onLevel heap i skipped).getLast? = some found := by
      have hsame := congrArg List.getLast? hothers
      rw [List.append_assoc, List.singleton_append, List.getLast?_append_of_ne_nil _ (List.cons_ne_nil _ _),
        List.getLast?_concat] at hsame
      exact hsame
    rw [List.getLast?_eq_getElem?, List.length_cons, Nat.add_sub_cancel] at hend
    rw [← List.cons_append, List.getElem?_append_left (by simp), hend]
  have hnodup := (List.nodup_append.mp hchain.nodup).2.1
  obtain ⟨hn, -⟩ := List.getElem?_eq_some_iff.mp hreached
  rw [hcounted, (List.getElem?_inj hn hnodup).mp (hreached.trans hplace.symm)]

/-! ## All levels -/

/-- No node of an empty level is higher. -/
theorem height_le_of_onLevel {nodes : List NodePtr} (h : onLevel heap i nodes = []) :
    ∀ p ∈ nodes, height heap p ≤ i := fun _ hp =>
  not_lt.mp fun hlt => absurd (mem_onLevel.mpr ⟨hp, hlt⟩) (h ▸ List.not_mem_nil)

/-- The levels below `i`, from the last node of the part passed so far, where nothing ahead that the walk may pass is
higher: it moves once for each peak of what it passes. -/
theorem descendCounted_levels (target : BitVec 64) (temp : Temp)
    (hchain : ∀ k < i, Chain (next heap k) start (onLevel heap k (passed ++ ahead)))
    (hlast : passed.getLast? = some x) (hx : i ≤ height heap x) (hfuel : ahead.length < fuel)
    (hstop : StopsAt heap target i ahead) :
    ∃ y temp' skipped ahead', ahead = skipped ++ ahead' ∧ (passed ++ skipped).getLast? = some y ∧
      onLevel heap i skipped = [] ∧
      descendCounted heap target fuel i x temp = some ((y, temp'), (peaks (height heap) skipped).length) := by
  induction i generalizing passed ahead x temp with
  | zero => exact ⟨x, temp, [], ahead, rfl, by simpa using hlast, rfl, rfl⟩
  | succ i ih =>
    obtain ⟨y₁, skipped₁, ahead₁, hwalk, rfl, hlast₁, hy₁, hbelow₁, hstop₁, -⟩ :=
      advance_spec target (hchain i (Nat.lt_succ_self i)) hlast hx hfuel
    have hcounted := advanceCounted_eq (hchain i (Nat.lt_succ_self i)) hlast hx hy₁ hlast₁ hwalk
    obtain ⟨y, temp', skipped₂, ahead', rfl, hlast₂, hnil₂, hrest⟩ :=
      ih (Function.update temp i (some y₁)) (fun k hk => by simpa using hchain k (by omega)) hlast₁
        (by omega) (by simp at hfuel; omega) hstop₁
    -- on this level all nodes passed are as high as the last, and the levels below pass only lower ones
    have hnil₁ := onLevel_skipped_eq_nil (Nat.le_succ i) hstop hbelow₁
    have hle₁ := height_le_of_onLevel hnil₁
    have hlt₂ : ∀ p ∈ skipped₂, height heap p < i + 1 := fun p hp => Nat.lt_succ_of_le (height_le_of_onLevel hnil₂ p hp)
    have htop : ∀ p ∈ skipped₁.getLast?, height heap p = i + 1 := fun p hp => by
      have hne : skipped₁ ≠ [] := fun hnil => by
        rw [hnil] at hp
        exact absurd hp nofun
      rw [List.getLast?_append_of_ne_nil _ hne] at hlast₁
      obtain rfl := Option.some.inj (hlast₁.symm.trans hp)
      exact Nat.le_antisymm (hle₁ y₁ (List.mem_of_getLast? hlast₁)) hy₁
    have hlevel : onLevel heap i skipped₁ = skipped₁.filter fun p => height heap p = i + 1 :=
      List.filter_congr fun p hp => decide_eq_decide.mpr (by have := hle₁ p hp; omega)
    refine ⟨y, temp', skipped₁ ++ skipped₂, ahead', by simp, by simpa using hlast₂, ?_, ?_⟩
    · rw [onLevel_append, hnil₁, List.nil_append]
      exact List.filter_eq_nil_iff.mpr fun p hp => by simpa using (hlt₂ p hp).le
    · rw [descendCounted, hcounted, Option.bind_some]
      dsimp only
      rw [hrest, Option.map_some, peaks_append hle₁ htop hlt₂, ← hlevel, List.length_append]

/-! ## Searches in a list -/

/-- The node found tells where the order is cut. -/
theorem Represents.split_unique {s : SkipList H} (h : Represents s order) {A B A' B' : List NodePtr}
    (horder : order = A ++ B) (horder' : order = A' ++ B') (hlast : (s.mHeader :: A).getLast? = some x)
    (hlast' : (s.mHeader :: A').getLast? = some x) : A = A' ∧ B = B' := by
  have hplace {A B : List NodePtr} (horder : order = A ++ B) (hlast : (s.mHeader :: A).getLast? = some x) :
      (s.mHeader :: order)[A.length]? = some x := by
    rw [List.getLast?_eq_getElem?, List.length_cons, Nat.add_sub_cancel] at hlast
    rw [horder, ← List.cons_append, List.getElem?_append_left (by simp), hlast]
  obtain ⟨hlt, -⟩ := List.getElem?_eq_some_iff.mp (hplace horder hlast)
  have hlength := (List.getElem?_inj hlt h.nodup).mp ((hplace horder hlast).trans (hplace horder' hlast').symm)
  exact List.append_inj (horder.symm.trans horder') hlength

/-- A search cuts the order in two, and moves once for each peak of the first part. -/
structure Costs (s : SkipList H) (target : BitVec 64) (A B : List NodePtr) (moves : ℕ) : Prop where
  represents : Represents s (A ++ B)
  search : ∃ x temp, descend s.heap target s.fuel s.mLevel s.mHeader (fun _ => none) = some (x, temp) ∧
    Search s.heap target s.mHeader s.mLevel A B x temp ∧ searchCounted s target = some ((x, temp), moves)

/-- Every search costs the peaks of the heights in front of its place. -/
theorem Represents.costs {s : SkipList H} (h : Represents s order) (target : BitVec 64) :
    ∃ A B, order = A ++ B ∧ Costs s target A B (peaks (height s.heap) A).length := by
  obtain ⟨-, hmax, -⟩ := h.level_bounds
  have hstop : StopsAt s.heap target s.mLevel order := fun z hz => by
    rw [h.onLevel_eq_nil le_rfl (List.Subset.refl order)] at hz
    exact absurd hz nofun
  have hheader : [s.mHeader].getLast? = some s.mHeader := rfl
  obtain ⟨x, temp, A, B, rfl, hlast, -, hcounted⟩ := descendCounted_levels target (fun _ => none)
    (fun k hk => h.chain k (hk.trans_le hmax)) hheader (by rw [h.header]; exact hmax) h.length_lt_fuel hstop
  have hdescend : descend s.heap target s.fuel s.mLevel s.mHeader (fun _ => none) = some (x, temp) := by
    rw [← descendCounted_result, hcounted, Option.map_some]
  obtain ⟨x', temp', A', B', hdescend', horder, hsearch⟩ := h.search target
  obtain ⟨rfl, rfl⟩ := Prod.mk.inj (Option.some.inj (hdescend.symm.trans hdescend'))
  obtain ⟨rfl, rfl⟩ := h.split_unique rfl horder hlast hsearch.last
  exact ⟨A, B, rfl, h, x, temp, hdescend, hsearch, hcounted⟩

variable {printfHello : H} {w : World H}

/-- In every list reached, a search for any score moves right once for each node in front of the place found that no
higher node follows there. -/
theorem costs_of_reachable (h : Reachable printfHello w) (target : BitVec 64) :
    ∃ A B, Costs w.list target A B (peaks (height w.list.heap) A).length := by
  obtain ⟨order, htracks⟩ := h.tracks
  obtain ⟨A, B, -, hcosts⟩ := htracks.represents.costs target
  exact ⟨A, B, hcosts⟩

/-- A search has one cost. -/
theorem Costs.moves_eq {s : SkipList H} {A B : List NodePtr} {moves moves' : ℕ} (h : Costs s target A B moves)
    (hmoves : (searchCounted s target).map Prod.snd = some moves') : moves = moves' := by
  obtain ⟨x, temp, -, -, hcounted⟩ := h.search
  rw [hcounted] at hmoves
  exact Option.some.inj hmoves

/-- Four timers with heights 1, 1, 2 and 1: the search for a later score passes them in two moves. -/
theorem costs_of_reachable_fourTimers : ∃ (w : World Unit) (A B : List NodePtr), w.live.length = 4 ∧
    Costs w.list 50 A B (peaks (height w.list.heap) A).length ∧ (peaks (height w.list.heap) A).length = 2 := by
  have hrun : (runCalls () [.insert 10 1 (), .insert 20 1 (), .insert 30 2 (), .insert 40 1 ()]).map
      (fun w => (w.live.length, (searchCounted w.list 50).map Prod.snd)) = some (4, some 2) := by decide +kernel
  obtain ⟨w, hw, heq⟩ := Option.map_eq_some_iff.mp hrun
  obtain ⟨hlive, hmoves⟩ := Prod.mk.inj heq
  obtain ⟨A, B, hcosts⟩ := costs_of_reachable (reachable_of_runCalls hw) 50
  exact ⟨w, A, B, hlive, hcosts, hcosts.moves_eq hmoves⟩

/-! ## Timers added within one second -/

variable {gen : Generator G} {fuel : ℕ} {g g' : G} {insertions : List (Insertion H)} {levels : List ℕ}
  {time : BitVec 64}

/-- Insertions with drawn heights are calls of the program. -/
theorem reachable_insertAll {state : World H × G} (hreach : Reachable printfHello w)
    (h : insertAll gen fuel (w, g) insertions = some (state, levels)) :
    Reachable printfHello state.1 ∧ ∀ e ∈ state.1.live, e ∈ w.live ∨ e.2 ∈ levels := by
  induction insertions generalizing w g levels with
  | nil =>
    obtain ⟨rfl, -⟩ := Prod.mk.inj (Option.some.inj h)
    exact ⟨hreach, fun e he => Or.inl he⟩
  | cons i rest ih =>
    obtain ⟨newlevel, g', w', levels', hlevel, hexec, hrest, rfl⟩ := insertAll_cons h
    have hstep : Step w (.insert i.score newlevel i.handler) w' := ⟨readLevel_bounds hlevel, hexec⟩
    obtain ⟨hreach', hlive⟩ := ih (hreach.step hstep) hrest
    refine ⟨hreach', fun e he => ?_⟩
    rcases hlive e he with hold | hnew
    · obtain ⟨⟨s', x⟩, -, rfl⟩ := Option.map_eq_some_iff.mp hexec
      rcases List.mem_cons.mp hold with rfl | hold
      · exact Or.inr List.mem_cons_self
      · exact Or.inl hold
    · exact Or.inr (List.mem_cons_of_mem _ hnew)

/-- Among timers that are added within one second, every search passes node by node. -/
theorem costs_of_sameSecond (htime : ∀ i ∈ insertions, i.time = time)
    (h : insertAll gen fuel (World.new printfHello, g) insertions = some ((w, g'), levels)) (target : BitVec 64) :
    ∃ A B, Costs w.list target A B A.length := by
  obtain ⟨hreach, hlive⟩ := reachable_insertAll (.init rfl) h
  obtain ⟨order, htracks⟩ := hreach.tracks
  obtain ⟨A, B, rfl, hcosts⟩ := htracks.represents.costs target
  have hlevels : ∀ level ∈ levels, levelAt gen fuel time = some level := fun level hlevel => by
    have hmem : some level ∈ insertions.map fun i => levelAt gen fuel i.time :=
      levels_eq h ▸ List.mem_map_of_mem hlevel
    obtain ⟨i, hi, heq⟩ := List.mem_map.mp hmem
    rw [← heq, htime i hi]
  have hsame : ∀ p ∈ A, height w.list.heap p = (levelAt gen fuel time).getD 0 := fun p hp => by
    obtain ⟨e, he, rfl⟩ := List.mem_map.mp (htracks.perm.mem_iff.mpr (List.mem_append_left B hp))
    have hlevel := (hlive e he).resolve_left List.not_mem_nil
    rw [htracks.heights e he, hlevels e.2 hlevel, Option.getD_some]
  rw [peaks_eq_self hsame] at hcosts
  exact ⟨A, B, hcosts⟩

/-- Three timers of one second, all of height 2: the search for a later score makes three moves. -/
theorem costs_of_sameSecond_threeTimers : ∃ (w : World Unit) (A B : List NodePtr), w.live.map Prod.snd = [2, 2, 2] ∧
    Costs w.list 50 A B A.length ∧ A.length = 3 := by
  have hrun : (insertAll lowOnce 2 (World.new (), true) [⟨7, 10, ()⟩, ⟨7, 30, ()⟩, ⟨7, 20, ()⟩]).map
      (fun found => (found.1.1.live.map Prod.snd, (searchCounted found.1.1.list 50).map Prod.snd)) =
        some ([2, 2, 2], some 3) := by decide +kernel
  obtain ⟨⟨⟨w, g⟩, levels⟩, hw, heq⟩ := Option.map_eq_some_iff.mp hrun
  obtain ⟨hlive, hmoves⟩ := Prod.mk.inj heq
  have htime : ∀ i ∈ [(⟨7, 10, ()⟩ : Insertion Unit), ⟨7, 30, ()⟩, ⟨7, 20, ()⟩], i.time = 7 := by decide
  obtain ⟨A, B, hcosts⟩ := costs_of_sameSecond htime hw 50
  exact ⟨w, A, B, hlive, hcosts, hcosts.moves_eq hmoves⟩

end CppProject.SkipListTimer
