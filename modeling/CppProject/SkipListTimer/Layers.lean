import CppProject.SkipListTimer.Cancel

/-!
# The two layers of the list

Stored scores lie below `2 ^ 31` or at least at `2 ^ 64 - 2 ^ 31`, and no search of an insertion passes
one of the latter. So in every reachable list, whatever scores were requested, the small scores come
first and in order, and the large ones follow in the order of their insertion, newest first. In
particular nodes with equal scores are newest first everywhere, and a small timer can be deleted as
in a sorted list.
-/

namespace CppProject.SkipListTimer

open PointerChain Transition

variable {H : Type*} {w w' : World H} {order A B : List NodePtr}

/-- The stored score is the requested one. -/
def Small (heap : Heap H) (p : NodePtr) : Prop := (score heap p).toNat < 2 ^ 31

instance (heap : Heap H) (p : NodePtr) : Decidable (Small heap p) := inferInstanceAs (Decidable (_ < _))

/-- Small scores in order, and large ones behind them. -/
def Layered (heap : Heap H) (order : List NodePtr) : Prop :=
  order.Pairwise fun p q => score heap p ≤ score heap q ∨ ¬ Small heap p ∧ ¬ Small heap q

/-- A stored score that is not small is far above all requested ones. -/
theorem AllStored.le_of_not_small {heap : Heap H} (h : AllStored heap order) {p : NodePtr} (hp : p ∈ order)
    (hsmall : ¬ Small heap p) : 2 ^ 64 - 2 ^ 31 ≤ (score heap p).toNat := by
  obtain ⟨requested, hrequested⟩ := h p hp
  have hstored := toNat_stored requested
  rw [← hrequested] at hstored
  rw [Small] at hsmall
  split at hstored <;> omega

/-- Only the scores matter. -/
theorem Layered.congr {heap heap' : Heap H} (h : Layered heap order)
    (hsame : ∀ p ∈ order, score heap' p = score heap p) : Layered heap' order :=
  h.imp_of_mem fun hp hq hpq => by rwa [Small, Small, hsame _ hp, hsame _ hq]

/-- The first node has a score at most that of any small one. -/
theorem Layered.front_le {heap : Heap H} {first : NodePtr} {rest : List NodePtr}
    (h : Layered heap (first :: rest)) {q : NodePtr} (hq : q ∈ first :: rest) (hsmall : Small heap q) :
    score heap first ≤ score heap q := by
  rcases List.mem_cons.mp hq with rfl | hq
  · exact BitVec.le_refl _
  · exact ((List.pairwise_cons.mp h).1 q hq).resolve_right fun hlarge => hlarge.2 hsmall

/-- A search for a requested score separates the scores below it from the others. -/
theorem Search.bounds_layered {s : SkipList H} (h : Represents s (A ++ B))
    (hstored : AllStored s.heap (A ++ B)) (hlayered : Layered s.heap (A ++ B)) {target : BitVec 64}
    (htarget : target.toNat < 2 ^ 32) {x : NodePtr} {temp : Temp}
    (hsearch : Search s.heap target s.mHeader s.mLevel A B x temp) :
    (∀ a ∈ A, score s.heap a < target) ∧ ∀ b ∈ B, target ≤ score s.heap b := by
  obtain ⟨hA, hB, -⟩ := List.pairwise_append.mp hlayered
  constructor
  · intro a ha
    rcases hsearch.passed with rfl | hpassed
    · exact absurd ha List.not_mem_nil
    · -- The last node behind the split is small, so everything before it is in order.
      obtain ⟨init, rfl⟩ := List.getLast?_eq_some_iff.mp (hsearch.getLast?_eq (List.ne_nil_of_mem ha))
      have hsmall : Small s.heap x := by
        by_contra hlarge
        have hle := hstored.le_of_not_small (by simp) hlarge
        rw [BitVec.lt_def] at hpassed
        omega
      rcases List.mem_append.mp ha with ha | ha
      · have hle := ((List.pairwise_append.mp hA).2.2 a ha x (by simp)).resolve_right
          fun hlarge => hlarge.2 hsmall
        rw [BitVec.le_def] at hle
        rw [BitVec.lt_def] at hpassed ⊢
        omega
      · rwa [List.mem_singleton.mp ha]
  · intro b hb
    cases B with
    | nil => exact absurd hb List.not_mem_nil
    | cons front rest =>
      have hfront : target ≤ score s.heap front := hsearch.le_front h
      rcases List.mem_cons.mp hb with rfl | hb'
      · exact hfront
      · rcases (List.pairwise_cons.mp hB).1 b hb' with hle | hlarge
        · exact BitVec.le_trans hfront hle
        · have hle := hstored.le_of_not_small (List.mem_append_right A hb) hlarge.2
          rw [BitVec.le_def]
          omega

/-- An insertion keeps the layers: a large score goes in front of the large ones. -/
theorem Layered.insert {s s' : SkipList H} (hlayered : Layered s.heap (A ++ B)) (h : Represents s (A ++ B))
    {requested : BitVec 32} {newlevel : ℕ} {handler : H} (hins : Inserted s s' requested newlevel handler)
    (hbelow : ∀ a ∈ A, score s.heap a < requested.setWidth 64)
    (habove : ∀ b ∈ B, requested.setWidth 64 ≤ score s.heap b) :
    Layered s'.heap (A ++ s.fresh :: B) := by
  have hsame : ∀ p ∈ A ++ B, score s'.heap p = score s.heap p := fun p hp =>
    hins.score_of_ne fun heq => h.fresh_not_mem (heq ▸ List.mem_cons_of_mem _ hp)
  obtain ⟨hA, hB, hAB⟩ := List.pairwise_append.mp (hlayered.congr hsame)
  have htarget := toNat_target requested
  have hextended := toNat_stored requested
  have hlt := requested.isLt
  refine List.pairwise_append.mpr ⟨hA, List.pairwise_cons.mpr ⟨fun b hb => ?_, hB⟩, fun a ha p hp => ?_⟩
  · have hge := habove b hb
    rw [BitVec.le_def, htarget] at hge
    rw [Small, Small, hsame b (by simp [hb]), hins.score_self, BitVec.le_def, hextended]
    by_cases hsmall : requested.toNat < 2 ^ 31
    · rw [if_pos hsmall]
      exact Or.inl hge
    · rw [if_neg hsmall]
      right
      constructor <;> omega
  · rcases List.mem_cons.mp hp with rfl | hp
    · have hpass := hbelow a ha
      rw [BitVec.lt_def, htarget] at hpass
      rw [hsame a (by simp [ha]), hins.score_self, BitVec.le_def, hextended]
      left
      split <;> omega
    · exact hAB a ha p hp

/-- What is known of the order of a reachable list. -/
structure OrderInv (w : World H) (order : List NodePtr) : Prop where
  tracks : Tracks w order
  stored : AllStored w.list.heap order
  layered : Layered w.list.heap order
  ties : NewestFirst w order

/-- Every call has one of the four effects, and keeps the order. -/
theorem OrderInv.step (h : OrderInv w order) {call : Call H} (hstep : Step w call w') :
    ∃ order', Effect w order call w' order' ∧ OrderInv w' order' := by
  obtain ⟨order', heffect, htracks'⟩ := h.tracks.step hstep
  refine ⟨order', heffect, htracks', heffect.allStored h.tracks h.stored, ?_, ?_⟩
  · cases heffect with
    | inserted hsearch hins =>
      obtain ⟨hbelow, habove⟩ := hsearch.bounds_layered h.tracks.represents h.stored h.layered (by
        rw [toNat_target]
        exact BitVec.isLt _)
      exact h.layered.insert h.tracks.represents hins hbelow habove
    | @deleted A rest call snode d x temp s' hvictim hsearch hfound hdel =>
      have hsub : Layered w.list.heap (A ++ rest) :=
        h.layered.sublist (List.Sublist.append_left (List.sublist_cons_self d rest) A)
      refine hsub.congr fun p hp => hdel.score_of_ne fun heq => ?_
      exact h.tracks.represents.not_mem_rest (List.mem_cons_of_mem _ (heq ▸ hp))
    | missed => exact h.layered
    | empty => exact h.layered
  · cases heffect with
    | @inserted A B requested newlevel handler x temp s' hsearch hins =>
      obtain ⟨hbelow, -⟩ := hsearch.bounds_layered h.tracks.represents h.stored h.layered (by
        rw [toNat_target]
        exact BitVec.isLt _)
      refine h.ties.insert h.tracks (fun a ha => ?_) hins
      have hpass := hbelow a ha
      have htarget := toNat_target requested
      have hextended := toNat_stored requested
      rw [BitVec.lt_def] at hpass ⊢
      split at hextended <;> omega
    | deleted _ _ _ hdel => exact h.ties.delete h.tracks hdel
    | missed => exact h.ties
    | empty => exact h.ties

/-- Every reachable list is in layers, with ties newest first. -/
theorem Reachable.orderInv {printfHello : H} (h : Reachable printfHello w) : ∃ order, OrderInv w order := by
  refine Transition.Reachable.invariant (P := fun w => ∃ order, OrderInv w order)
    (fun w hw => ⟨[], hw ▸ tracks_new printfHello, by simp [AllStored], List.Pairwise.nil, fun c => by
      subst hw
      rfl⟩) (fun w call w' hw hstep => ?_) h
  obtain ⟨order, hinv⟩ := hw
  obtain ⟨order', -, hinv'⟩ := hinv.step hstep
  exact ⟨order', hinv'⟩

/-! ## Deleting small timers -/

/-- Dropping the removed node leaves the others. -/
theorem mem_map_dropRemoved {d p : NodePtr} {live : List (NodePtr × ℕ)} :
    p ∈ (dropRemoved (some d) live).map Prod.fst ↔ p ∈ live.map Prod.fst ∧ p ≠ d := by
  rw [map_fst_dropRemoved, List.mem_filter, decide_eq_true_eq]

namespace OrderInv

/-- With a live node there is a first one. -/
theorem exists_front (h : OrderInv w order) {q : NodePtr} (hq : q ∈ w.live.map Prod.fst) :
    ∃ first, order.head? = some first := by
  apply Option.isSome_iff_exists.mp
  rw [List.isSome_head?]
  exact List.ne_nil_of_mem (h.tracks.perm.mem_iff.mp hq)

/-- The first node is live. -/
theorem front_live (h : OrderInv w order) {first : NodePtr} (hfirst : order.head? = some first) :
    first ∈ w.live.map Prod.fst := h.tracks.perm.mem_iff.mpr (List.mem_of_head? hfirst)

/-- The first node has a score at most that of any small timer. -/
theorem front_le (h : OrderInv w order) {first q : NodePtr} (hfirst : order.head? = some first)
    (hq : q ∈ w.live.map Prod.fst) (hsmall : Small w.list.heap q) :
    score w.list.heap first ≤ score w.list.heap q := by
  obtain ⟨rest, rfl⟩ := List.head?_eq_some_iff.mp hfirst
  exact h.layered.front_le (h.tracks.perm.mem_iff.mp hq) hsmall

/-- Nothing is passed in a search for the score of the first node, if it is small. -/
theorem passed_nil (h : OrderInv w (A ++ B)) {first : NodePtr} (hfirst : (A ++ B).head? = some first)
    (hsmall : Small w.list.heap first) {x : NodePtr} {temp : Temp} {levels : ℕ}
    (hsearch : Search w.list.heap (score w.list.heap first) w.list.mHeader levels A B x temp) : A = [] := by
  rcases hsearch.passed with hnil | hpassed
  · exact hnil
  · by_contra hne
    have hlast : x ∈ A := List.mem_of_getLast? (hsearch.getLast?_eq hne)
    have hx : x ∈ w.live.map Prod.fst := h.tracks.perm.mem_iff.mpr (List.mem_append_left B hlast)
    rw [BitVec.lt_def] at hpassed
    have hxsmall : Small w.list.heap x := hpassed.trans hsmall
    have hle := h.front_le hfirst hx hxsmall
    rw [BitVec.le_def] at hle
    omega

/-- `Del_HeadNode` deletes the first node, if its score is small. -/
theorem delHead_front (h : OrderInv w order) {first : NodePtr} (hfirst : order.head? = some first)
    (hsmall : Small w.list.heap first) (hstep : Step w .delHead w') :
    ∃ rest, order = first :: rest ∧ w'.live = dropRemoved (some first) w.live ∧
      Deleted w.list w'.list first ∧ OrderInv w' rest := by
  obtain ⟨order', heffect, hinv'⟩ := h.step hstep
  cases heffect with
  | @deleted A rest call snode d x temp s' hvictim hsearch hfound hdel =>
    obtain rfl : first = snode := Option.some.inj (hfirst.symm.trans hvictim)
    obtain rfl := h.passed_nil hfirst hsmall hsearch
    obtain rfl : d = first := Option.some.inj hfirst
    exact ⟨rest, rfl, rfl, hdel, hinv'⟩
  | @missed A B call snode x temp hvictim hsearch hmiss =>
    obtain rfl : first = snode := Option.some.inj (hfirst.symm.trans hvictim)
    obtain rfl := h.passed_nil hfirst hsmall hsearch
    exact absurd rfl (hmiss first hfirst)
  | empty => contradiction

/-- A first timer with a small score is the one that is removed. -/
theorem delHead_small (h : OrderInv w order) {first : NodePtr} (hfirst : order.head? = some first)
    (hsmall : Small w.list.heap first) (hstep : Step w .delHead w') :
    w'.live = dropRemoved (some first) w.live := by
  obtain ⟨-, -, hlive, -, -⟩ := h.delHead_front hfirst hsmall hstep
  exact hlive

/-- `Del_node` deletes a node with the score of its argument, or nothing. -/
theorem del_cases (h : OrderInv w order) {p : NodePtr} (hstep : Step w (.del p) w') :
    w' = w ∨ ∃ d ∈ w.live.map Prod.fst, score w.list.heap d = score w.list.heap p ∧
      w'.live = dropRemoved (some d) w.live := by
  obtain ⟨order', heffect, -⟩ := h.step hstep
  cases heffect with
  | @deleted A rest call snode d x temp s' hvictim hsearch hfound hdel =>
    obtain rfl : p = snode := Option.some.inj hvictim
    exact Or.inr ⟨d, h.tracks.perm.mem_iff.mpr (by simp), hfound, rfl⟩
  | missed => exact Or.inl rfl

/-- `Del_node` finds the score of a live node, if it is small. -/
theorem del_ne_of_small (h : OrderInv w order) {p : NodePtr} (hsmall : Small w.list.heap p)
    (hstep : Step w (.del p) w') : w' ≠ w := by
  have hp : p ∈ w.live.map Prod.fst := hstep.1
  obtain ⟨order', heffect, -⟩ := h.step hstep
  cases heffect with
  | @deleted A rest call snode d x temp s' hvictim hsearch hfound hdel =>
    intro heq
    have hd : d ∈ w.live.map Prod.fst := h.tracks.perm.mem_iff.mpr (by simp)
    have hdropped : dropRemoved (some d) w.live = w.live := congrArg World.live heq
    rw [← hdropped, mem_map_dropRemoved] at hd
    exact hd.2 rfl
  | @missed A B call snode x temp hvictim hsearch hmiss =>
    obtain rfl : p = snode := Option.some.inj hvictim
    obtain ⟨hbelow, habove⟩ := hsearch.bounds_layered h.tracks.represents h.stored h.layered
      (hsmall.trans (by decide))
    obtain ⟨d, rest, rfl, hfound⟩ := exists_front_eq hbelow habove (h.tracks.perm.mem_iff.mp hp)
      fun d rest hB hpB => by
        subst hB
        exact Layered.front_le (List.pairwise_append.mp h.layered).2.1 hpB hsmall
    exact absurd hfound (hmiss d rfl)

/-- The newest live node with the score of the first one is the first one itself. -/
theorem newestTie_front (h : OrderInv w order) {first x : NodePtr} (hfirst : order.head? = some first)
    (hscore : score w.list.heap first = score w.list.heap x) : newestTie w x = some first := by
  obtain ⟨rest, rfl⟩ := List.head?_eq_some_iff.mp hfirst
  rw [newestTie, ← List.head?_filter, ← withScore, ← h.ties, ← hscore, withScore_cons_self, List.head?_cons]

/-- A small timer is the first node exactly when it is the newest one with the least score. -/
theorem front_eq_iff (h : OrderInv w order) {first x : NodePtr} (hfirst : order.head? = some first)
    (hx : x ∈ w.live.map Prod.fst) (hsmall : Small w.list.heap x) :
    first = x ↔ newestTie w x = some x ∧
      ∀ q ∈ w.live.map Prod.fst, score w.list.heap x ≤ score w.list.heap q := by
  constructor
  · rintro rfl
    refine ⟨h.newestTie_front hfirst rfl, fun q hq => ?_⟩
    by_cases hqsmall : Small w.list.heap q
    · exact h.front_le hfirst hq hqsmall
    · rw [Small] at hsmall hqsmall
      rw [BitVec.le_def]
      omega
  · intro ⟨hnewest, hleast⟩
    have hle := h.front_le hfirst hx hsmall
    have hge := hleast first (h.front_live hfirst)
    have hscore : score w.list.heap first = score w.list.heap x := by
      apply BitVec.eq_of_toNat_eq
      rw [BitVec.le_def] at hle hge
      omega
    exact Option.some.inj ((h.newestTie_front hfirst hscore).symm.trans hnewest)

end OrderInv

/-! ## What a call does to the record -/

/-- What a deletion does to the record: nodes may go, the others keep their scores. -/
structure Shrinks (w w' : World H) : Prop where
  fresh : w'.list.fresh = w.list.fresh
  live : w'.live ⊆ w.live
  score : ∀ p ∈ w'.live.map Prod.fst, score w'.list.heap p = score w.list.heap p

/-- A list that is as it was. -/
theorem Shrinks.refl (w : World H) : Shrinks w w := ⟨rfl, List.Subset.refl _, fun _ _ => rfl⟩

/-- A call that adds nothing only shrinks the list. -/
theorem OrderInv.shrinks (h : OrderInv w order) {call : Call H} (hstep : Step w call w')
    (hcall : ∀ requested newlevel handler, call ≠ .insert requested newlevel handler) : Shrinks w w' := by
  obtain ⟨order', heffect, -⟩ := h.step hstep
  cases heffect with
  | inserted => exact absurd rfl (hcall _ _ _)
  | @deleted A rest call snode d x temp s' hvictim hsearch hfound hdel =>
    exact ⟨hdel.fresh, List.filter_subset_self _, fun p hp => hdel.score_of_ne (mem_map_dropRemoved.mp hp).2⟩
  | missed => exact .refl w
  | empty => exact .refl w

/-- What an insertion does to the record. -/
theorem OrderInv.insert_spec (h : OrderInv w order) {requested : BitVec 32} {newlevel : ℕ} {handler : H}
    (hstep : Step w (.insert requested newlevel handler) w') :
    w'.list.fresh = w.list.fresh + 1 ∧ w'.live = (w.list.fresh, newlevel) :: w.live ∧
      score w'.list.heap w.list.fresh = requested.signExtend 64 ∧
      ∀ p ∈ w.live.map Prod.fst, score w'.list.heap p = score w.list.heap p := by
  obtain ⟨order', heffect, -⟩ := h.step hstep
  cases heffect with
  | @inserted A B requested newlevel handler x temp s' hsearch hins =>
    refine ⟨hins.fresh, rfl, hins.score_self, fun p hp => hins.score_of_ne fun heq => ?_⟩
    exact h.tracks.represents.fresh_not_mem
      (heq ▸ List.mem_cons_of_mem _ (h.tracks.perm.mem_iff.mp hp))
  | deleted hvictim => exact absurd hvictim (by simp [Call.victim])
  | missed hvictim => exact absurd hvictim (by simp [Call.victim])

end CppProject.SkipListTimer
