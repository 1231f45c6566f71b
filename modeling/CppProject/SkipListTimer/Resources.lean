import CppProject.SkipListTimer.Layers
import CppProject.SkipListTimer.Destructor

/-!
# The objects of a list from its construction to its destruction

A run of calls on a new list, with the objects each call creates and deletes, and `~SkipList` at its end.
The node destructor reads all 32 slots, so it stays within the assigned ones only for nodes of full
height; the list destructor deletes only the header, so the nodes still in the list are left. These are
the only ways in which an object is not released exactly once.
-/

namespace CppProject.SkipListTimer

open Transition
open scoped List

variable {H : Type*} {printfHello : H} {w w' : World H} {order : List NodePtr} {call : Call H}

/-- A list with all objects created for it. -/
structure Life (H : Type*) where
  world : World H
  objects : Objects

/-- `delete delNode`, if `Del_node` has found a node. -/
def Objects.deleteFound (m : Objects) : Option NodePtr → Objects
  | none => m
  | some d => m.deleteNode d

/-- What a call creates and deletes. -/
def Call.objects (s : Life H) : Call H → Option Objects
  | .insert _ newlevel _ => some (s.objects.newNode s.world.list.fresh newlevel)
  | .del snode => (delNode s.world.list snode).map fun r => s.objects.deleteFound r.2
  | .delHead => (delHeadNode s.world.list).map fun r => s.objects.deleteFound r.2

/-- One valid call. -/
def LifeStep (s : Life H) (call : Call H) (s' : Life H) : Prop :=
  Step s.world call s'.world ∧ call.objects s = some s'.objects

/-- Execute a call after checking that it is valid. -/
def Life.check (s : Life H) (call : Call H) : Option (Life H) :=
  (call.check s.world).bind fun w => (call.objects s).map fun m => ⟨w, m⟩

/-- A checked call is a step. -/
theorem Life.step_of_check {s s' : Life H} (h : s.check call = some s') : LifeStep s call s' := by
  obtain ⟨w, hw, hobjects⟩ := Option.bind_eq_some_iff.mp h
  obtain ⟨m, hm, rfl⟩ := Option.map_eq_some_iff.mp hobjects
  exact ⟨Call.step_of_check hw, hm⟩

/-- `SkipList()`, where `new` finds arbitrary values in the memory of the slot arrays. -/
def Life.new (printfHello : H) (memory : NodePtr → ℕ → Option LevelPtr) : Life H where
  world := World.new printfHello
  objects := Objects.newNode ⟨memory, [], [], [], [], []⟩ 0 skiplistMaxlevel

/-- `~SkipList()`: the objects after `delete m_header`. -/
def Life.destroy (s : Life H) : Objects := s.objects.deleteNode s.world.list.mHeader

/-- Every object created has been deleted exactly once, and no destructor has read an unassigned slot. -/
structure ReleasedOnce (m : Objects) : Prop where
  nodes : ∀ x ∈ m.madeNodes, m.goneNodes.count x = 1
  levels : ∀ l ∈ m.madeLevels, m.goneLevels.count l = 1
  assigned : m.unassigned = []

/-- An insertion draws the full height. -/
def FullHeight : Call H → Prop
  | .insert _ newlevel _ => newlevel = skiplistMaxlevel
  | _ => True

/-! ## One call -/

/-- What `Del_node` finds is in the list. -/
theorem Represents.delNode_found {s s' : SkipList H} (h : Represents s order) {snode : NodePtr}
    {removed : Option NodePtr} (hsnode : (s.heap snode).isSome) (hdel : delNode s snode = some (s', removed))
    {d : NodePtr} (hd : removed = some d) : d ∈ order := by
  obtain ⟨s'', removed', x, temp, A, B, hrun, rfl, -, hcase⟩ := h.delNode_spec hsnode
  obtain ⟨-, rfl⟩ := Prod.mk.inj (Option.some.inj (hrun.symm.trans hdel))
  rcases hcase with ⟨d', rest, rfl, -, hfound, -⟩ | ⟨-, hnone, -⟩
  · obtain rfl := Option.some.inj (hd.symm.trans hfound)
    simp
  · exact absurd (hd.symm.trans hnone) (by simp)

/-- No call moves the header. -/
theorem Tracks.header_eq (h : Tracks w order) (hstep : Step w call w') :
    w'.list.mHeader = w.list.mHeader := by
  obtain ⟨order', heffect, -⟩ := h.step hstep
  cases heffect with
  | inserted _ hins => exact hins.header
  | deleted _ _ _ hdel => exact hdel.header
  | missed => rfl
  | empty => rfl

/-- The removed node and the others. -/
theorem perm_cons_dropRemoved {live : List (NodePtr × ℕ)} {d : NodePtr} (hlive : (live.map Prod.fst).Nodup)
    (hd : d ∈ live.map Prod.fst) : live.map Prod.fst ~ d :: (dropRemoved (some d) live).map Prod.fst := by
  rw [map_fst_dropRemoved]
  have hnodup : (d :: (live.map Prod.fst).filter (· ≠ d)).Nodup :=
    List.nodup_cons.mpr ⟨by simp, hlive.filter _⟩
  refine (List.perm_ext_iff_of_nodup hlive hnodup).mpr fun p => ?_
  rw [List.mem_cons, List.mem_filter, decide_eq_true_eq]
  by_cases hp : p = d
  · exact iff_of_true (hp ▸ hd) (Or.inl hp)
  · simp [hp]

/-- A call creates the new node, or deletes one that is live, or leaves all objects alone. -/
theorem LifeStep.cases {s s' : Life H} (h : OrderInv s.world order) (hstep : LifeStep s call s') :
    (∃ requested newlevel handler, call = .insert requested newlevel handler ∧
      newlevel ≤ skiplistMaxlevel ∧ s'.world.list.fresh = s.world.list.fresh + 1 ∧
      s'.world.live = (s.world.list.fresh, newlevel) :: s.world.live ∧
      s'.objects = s.objects.newNode s.world.list.fresh newlevel) ∨
    (FullHeight call ∧ s'.world.list.fresh = s.world.list.fresh ∧
      ((∃ d ∈ s.world.live.map Prod.fst, s'.world.live = dropRemoved (some d) s.world.live ∧
        s'.objects = s.objects.deleteNode d) ∨
      s'.world.live = s.world.live ∧ s'.objects = s.objects)) := by
  obtain ⟨hstep, hobjects⟩ := hstep
  -- Both deletions end in `Del_node`, which reports what it has found.
  have hfound : ∀ removed : Option NodePtr, (∀ d, removed = some d → d ∈ order) →
      s'.world.live = dropRemoved removed s.world.live → s'.objects = s.objects.deleteFound removed →
      (∃ d ∈ s.world.live.map Prod.fst, s'.world.live = dropRemoved (some d) s.world.live ∧
        s'.objects = s.objects.deleteNode d) ∨ s'.world.live = s.world.live ∧ s'.objects = s.objects := by
    intro removed hmem hlive hobjects
    cases removed with
    | none => exact Or.inr ⟨hlive.trans (dropRemoved_none _), hobjects⟩
    | some d => exact Or.inl ⟨d, h.tracks.perm.mem_iff.mpr (hmem d rfl), hlive, hobjects⟩
  cases call with
  | insert requested newlevel handler =>
    obtain ⟨hfresh, hlive, -, -⟩ := h.insert_spec hstep
    exact Or.inl ⟨requested, newlevel, handler, rfl, hstep.1.2, hfresh, hlive, (Option.some.inj hobjects).symm⟩
  | del snode =>
    refine Or.inr ⟨trivial, (h.shrinks hstep (by simp)).fresh, ?_⟩
    obtain ⟨⟨list, removed⟩, hdel, hworld⟩ := Option.map_eq_some_iff.mp hstep.2
    rw [Call.objects, hdel] at hobjects
    exact hfound removed (fun d => h.tracks.represents.delNode_found (h.tracks.isSome hstep.1) hdel)
      (hworld ▸ rfl) (Option.some.inj hobjects).symm
  | delHead =>
    refine Or.inr ⟨trivial, (h.shrinks hstep (by simp)).fresh, ?_⟩
    obtain ⟨⟨list, removed⟩, hdel, hworld⟩ := Option.map_eq_some_iff.mp hstep.2
    rw [Call.objects, hdel] at hobjects
    refine hfound removed (fun d hd => ?_) (hworld ▸ rfl) (Option.some.inj hobjects).symm
    rw [delHeadNode, h.tracks.represents.getMinNode_eq, Option.bind_some] at hdel
    cases order with
    | nil =>
      obtain ⟨-, rfl⟩ := Prod.mk.inj (Option.some.inj hdel)
      contradiction
    | cons first rest =>
      exact h.tracks.represents.delNode_found
        ((h.tracks.represents.nodes first).mpr (Or.inr List.mem_cons_self)) hdel hd

/-! ## The accounts of a run -/

/-- What holds of every run, whatever the heights: each node created is the header, or live, or deleted. -/
structure Accounts (printfHello : H) (s : Life H) : Prop where
  reach : Reachable printfHello s.world
  nodes : s.objects.madeNodes.Perm
    (s.world.list.mHeader :: (s.world.live.map Prod.fst ++ s.objects.goneNodes))
  nodup : s.objects.madeNodes.Nodup
  old : ∀ p ∈ s.objects.madeNodes, p < s.world.list.fresh
  owned : ∀ l ∈ s.objects.madeLevels, l.1 ∈ s.objects.madeNodes
  levels : ∀ e ∈ s.world.live, ∀ i, (e.1, i) ∈ s.objects.madeLevels ↔ i < e.2

/-- What holds of a run with full heights: every slot is assigned, and the level objects follow their
nodes. -/
structure Balanced (s : Life H) : Prop where
  slots : ∀ p ∈ s.world.list.mHeader :: s.world.live.map Prod.fst, ∀ i < skiplistMaxlevel,
    s.objects.mLevel p i = some (p, i)
  made : s.objects.madeLevels = s.objects.madeNodes.flatMap fun p => levelsOf p skiplistMaxlevel
  gone : s.objects.goneLevels = s.objects.goneNodes.flatMap fun p => levelsOf p skiplistMaxlevel
  assigned : s.objects.unassigned = []

/-- An unassigned slot has been read, or will be when a live node is deleted. -/
def Unbalanced (s : Life H) : Prop :=
  s.objects.unassigned ≠ [] ∨ ∃ e ∈ s.world.live, e.2 < skiplistMaxlevel

namespace Accounts

variable {s s' : Life H}

/-- The header, the live nodes and the deleted ones are different nodes. -/
theorem apart (h : Accounts printfHello s) :
    (s.world.list.mHeader :: (s.world.live.map Prod.fst ++ s.objects.goneNodes)).Nodup :=
  h.nodes.nodup_iff.mp h.nodup

/-- The live timers differ. -/
theorem live_nodup (h : Accounts printfHello s) : (s.world.live.map Prod.fst).Nodup :=
  (List.nodup_append.mp (List.nodup_cons.mp h.apart).2).1

/-- The header and the live nodes have been created. -/
theorem mem_madeNodes (h : Accounts printfHello s) {p : NodePtr}
    (hp : p ∈ s.world.list.mHeader :: s.world.live.map Prod.fst) : p ∈ s.objects.madeNodes := by
  refine h.nodes.mem_iff.mpr ?_
  rcases List.mem_cons.mp hp with rfl | hp
  · exact List.mem_cons_self
  · exact List.mem_cons_of_mem _ (List.mem_append_left _ hp)

/-- A new node enters the accounts as a live one. -/
theorem made (h : Accounts printfHello s) {newlevel : ℕ} (hreach : Reachable printfHello s'.world)
    (hheader : s'.world.list.mHeader = s.world.list.mHeader)
    (hfresh : s'.world.list.fresh = s.world.list.fresh + 1)
    (hlive : s'.world.live = (s.world.list.fresh, newlevel) :: s.world.live)
    (hobjects : s'.objects = s.objects.newNode s.world.list.fresh newlevel) : Accounts printfHello s' := by
  have hnew : s.world.list.fresh ∉ s.objects.madeNodes := fun hmem => (h.old _ hmem).ne rfl
  have hmade : s'.objects.madeNodes = s.objects.madeNodes ++ [s.world.list.fresh] := by
    rw [hobjects, Objects.newNode_madeNodes]
  refine ⟨hreach, ?_, ?_, fun p hp => ?_, fun l hl => ?_, fun e he i => ?_⟩
  · rw [hmade, hobjects, hheader, hlive, Objects.newNode_goneNodes, List.map_cons, List.cons_append]
    calc s.objects.madeNodes ++ [s.world.list.fresh]
        _ ~ s.world.list.fresh :: s.objects.madeNodes := List.perm_append_singleton _ _
        _ ~ s.world.list.fresh :: s.world.list.mHeader ::
            (s.world.live.map Prod.fst ++ s.objects.goneNodes) := h.nodes.cons _
        _ ~ _ := List.Perm.swap _ _ _
  · rw [hmade, ← List.concat_eq_append]
    exact h.nodup.concat hnew
  · rw [hmade, List.mem_append, List.mem_singleton] at hp
    rw [hfresh]
    rcases hp with hp | rfl
    · exact (h.old p hp).trans (Nat.lt_succ_self _)
    · exact Nat.lt_succ_self _
  · rw [hobjects, Objects.newNode_madeLevels, List.mem_append, mem_levelsOf] at hl
    rw [hmade, List.mem_append, List.mem_singleton]
    exact hl.imp (h.owned l) And.left
  · rw [hlive, List.mem_cons] at he
    rw [hobjects, Objects.newNode_madeLevels, List.mem_append, mem_levelsOf]
    rcases he with rfl | he
    · have hno : (s.world.list.fresh, i) ∉ s.objects.madeLevels := fun hl => hnew (h.owned _ hl)
      simp [hno]
    · have hne : e.1 ≠ s.world.list.fresh := fun heq =>
        hnew (heq ▸ h.mem_madeNodes (List.mem_cons_of_mem _ (List.mem_map_of_mem he)))
      simp [hne, h.levels e he]

/-- A deleted node leaves the live ones. -/
theorem gone (h : Accounts printfHello s) {d : NodePtr} (hd : d ∈ s.world.live.map Prod.fst)
    (hreach : Reachable printfHello s'.world) (hheader : s'.world.list.mHeader = s.world.list.mHeader)
    (hfresh : s'.world.list.fresh = s.world.list.fresh)
    (hlive : s'.world.live = dropRemoved (some d) s.world.live)
    (hobjects : s'.objects = s.objects.deleteNode d) : Accounts printfHello s' := by
  have hmade : s'.objects.madeNodes = s.objects.madeNodes := by rw [hobjects, Objects.deleteNode_madeNodes]
  have hlevels : s'.objects.madeLevels = s.objects.madeLevels := by
    rw [hobjects, Objects.deleteNode_madeLevels]
  refine ⟨hreach, ?_, hmade ▸ h.nodup, ?_, ?_, fun e he => ?_⟩
  · rw [hmade, hobjects, hheader, hlive, Objects.deleteNode_goneNodes, ← List.append_assoc]
    calc s.objects.madeNodes
        _ ~ s.world.list.mHeader :: (s.world.live.map Prod.fst ++ s.objects.goneNodes) := h.nodes
        _ ~ s.world.list.mHeader ::
            (d :: (dropRemoved (some d) s.world.live).map Prod.fst ++ s.objects.goneNodes) :=
          ((perm_cons_dropRemoved h.live_nodup hd).append_right _).cons _
        _ ~ _ := (List.perm_append_singleton d _).symm.cons _
  · rw [hmade, hfresh]
    exact h.old
  · rw [hmade, hlevels]
    exact h.owned
  · rw [hlevels]
    exact h.levels e (List.mem_of_mem_filter (hlive ▸ he))

/-- Every call keeps the account. -/
theorem step (h : Accounts printfHello s) (hstep : LifeStep s call s') : Accounts printfHello s' := by
  obtain ⟨order, hinv⟩ := h.reach.orderInv
  have hheader := hinv.tracks.header_eq hstep.1
  have hreach := h.reach.step hstep.1
  rcases hstep.cases hinv with ⟨_, newlevel, _, -, -, hfresh, hlive, hobjects⟩ |
    ⟨-, hfresh, ⟨d, hd, hlive, hobjects⟩ | ⟨hlive, hobjects⟩⟩
  · exact h.made hreach hheader hfresh hlive hobjects
  · exact h.gone hd hreach hheader hfresh hlive hobjects
  · refine ⟨hreach, ?_, hobjects ▸ h.nodup, ?_, hobjects ▸ h.owned, ?_⟩
    · rw [hobjects, hheader, hlive]
      exact h.nodes
    · rw [hobjects, hfresh]
      exact h.old
    · rw [hobjects, hlive]
      exact h.levels

end Accounts

/-! ## Full heights and others -/

/-- A new list has only its header, with full height. -/
theorem accounts_new (memory : NodePtr → ℕ → Option LevelPtr) :
    Accounts printfHello (Life.new printfHello memory) := by
  refine ⟨.init rfl, ?_, ?_, ?_, fun l hl => ?_, ?_⟩
  · simp [Life.new, World.new, SkipList.new]
  · simp [Life.new]
  · simp [Life.new, World.new, SkipList.new]
  · have hmem : l ∈ levelsOf 0 skiplistMaxlevel := by simpa [Life.new] using hl
    simp [Life.new, (mem_levelsOf.mp hmem).1]
  · simp [Life.new, World.new]

/-- An empty list has nothing to release. -/
theorem balanced_new (memory : NodePtr → ℕ → Option LevelPtr) : Balanced (Life.new printfHello memory) := by
  refine ⟨fun p hp i hi => ?_, ?_, ?_, ?_⟩
  · obtain rfl : p = 0 := by simpa [Life.new, World.new, SkipList.new] using hp
    exact (Objects.newLevels_mLevel _ 0 _ 0 i).trans (if_pos ⟨rfl, hi⟩)
  · simp [Life.new]
  · simp [Life.new]
  · simp [Life.new]

section Step

variable {s s' : Life H}

/-- The destructor of a node of the list deletes its 32 level objects and reads assigned slots only. -/
theorem Balanced.deleteNode (h : Balanced s) (ha : Accounts printfHello s) {p : NodePtr}
    (hp : p ∈ s.world.list.mHeader :: s.world.live.map Prod.fst) :
    (s.objects.deleteNode p).goneLevels =
        (s.objects.goneNodes ++ [p]).flatMap (fun p => levelsOf p skiplistMaxlevel) ∧
      (s.objects.deleteNode p).unassigned = [] := by
  constructor
  · rw [Objects.deleteNode_goneLevels _ p (h.slots p hp), h.gone, List.flatMap_append, List.flatMap_singleton]
  · refine List.eq_nil_iff_forall_not_mem.mpr fun l hl => ?_
    rw [Objects.mem_deleteNode_unassigned, h.assigned] at hl
    obtain ⟨hslot, hunmade⟩ := hl.resolve_left List.not_mem_nil
    refine hunmade ?_
    rw [h.made, List.mem_flatMap]
    exact ⟨p, ha.mem_madeNodes hp, mem_levelsOf.mpr hslot⟩

/-- An insertion with full height and a deletion keep all slots of the nodes of the list assigned. -/
theorem Balanced.step (h : Balanced s) (ha : Accounts printfHello s) (hfull : FullHeight call)
    (hstep : LifeStep s call s') : Balanced s' := by
  obtain ⟨order, hinv⟩ := ha.reach.orderInv
  have hheader := hinv.tracks.header_eq hstep.1
  rcases hstep.cases hinv with ⟨_, newlevel, _, rfl, -, -, hlive, hobjects⟩ |
    ⟨-, -, ⟨d, hd, hlive, hobjects⟩ | ⟨hlive, hobjects⟩⟩
  · obtain rfl : newlevel = skiplistMaxlevel := hfull
    refine ⟨fun p hp i hi => ?_, ?_, ?_, ?_⟩
    · rw [hobjects, Objects.newNode, Objects.newLevels_mLevel]
      by_cases hnew : p = s.world.list.fresh
      · rw [if_pos ⟨hnew, hi⟩, hnew]
      · rw [if_neg fun hcond => hnew hcond.1]
        refine h.slots p ?_ i hi
        rw [hheader, hlive, List.map_cons, List.mem_cons, List.mem_cons] at hp
        exact List.mem_cons.mpr (hp.imp_right fun hp => hp.resolve_left hnew)
    · rw [hobjects, Objects.newNode_madeLevels, Objects.newNode_madeNodes, h.made, List.flatMap_append,
        List.flatMap_singleton]
    · rw [hobjects, Objects.newNode_goneLevels, Objects.newNode_goneNodes, h.gone]
    · rw [hobjects, Objects.newNode_unassigned, h.assigned]
  · obtain ⟨hgone, hassigned⟩ := h.deleteNode ha (List.mem_cons_of_mem _ hd)
    refine ⟨fun p hp i hi => ?_, ?_, ?_, hobjects ▸ hassigned⟩
    · rw [hheader, hlive, List.mem_cons, mem_map_dropRemoved] at hp
      have hne : p ≠ d := by
        rcases hp with rfl | hp
        · exact fun heq => (List.nodup_cons.mp ha.apart).1 (List.mem_append_left _ (heq ▸ hd))
        · exact hp.2
      rw [hobjects, Objects.deleteNode_mLevel _ d hne]
      exact h.slots p (List.mem_cons.mpr (hp.imp_right And.left)) i hi
    · rw [hobjects, Objects.deleteNode_madeLevels, Objects.deleteNode_madeNodes, h.made]
    · rw [hobjects, hgone, Objects.deleteNode_goneNodes]
  · refine ⟨?_, hobjects ▸ h.made, hobjects ▸ h.gone, hobjects ▸ h.assigned⟩
    rw [hheader, hlive, hobjects]
    exact h.slots

/-- An insertion with a smaller height leaves slots unassigned. -/
theorem Accounts.unbalanced (ha : Accounts printfHello s) (hfull : ¬ FullHeight call)
    (hstep : LifeStep s call s') : Unbalanced s' := by
  obtain ⟨order, hinv⟩ := ha.reach.orderInv
  rcases hstep.cases hinv with ⟨_, newlevel, _, rfl, hle, -, hlive, -⟩ | ⟨hfull', -⟩
  · exact Or.inr ⟨(_, newlevel), hlive ▸ List.mem_cons_self, lt_of_le_of_ne hle hfull⟩
  · exact absurd hfull' hfull

/-- A node that is not of full height stays, or its destructor reads an unassigned slot. -/
theorem Unbalanced.step (h : Unbalanced s) (ha : Accounts printfHello s) (hstep : LifeStep s call s') :
    Unbalanced s' := by
  obtain ⟨order, hinv⟩ := ha.reach.orderInv
  rcases hstep.cases hinv with ⟨_, newlevel, _, -, -, -, hlive, hobjects⟩ |
    ⟨-, -, ⟨d, hd, hlive, hobjects⟩ | ⟨hlive, hobjects⟩⟩
  · rw [Unbalanced, hobjects, Objects.newNode_unassigned, hlive]
    exact h.imp_right fun ⟨e, he, hlow⟩ => ⟨e, List.mem_cons_of_mem _ he, hlow⟩
  · rcases h with hread | ⟨e, he, hlow⟩
    · obtain ⟨l, hl⟩ := List.exists_mem_of_ne_nil _ hread
      left
      rw [hobjects]
      exact List.ne_nil_of_mem ((Objects.mem_deleteNode_unassigned _ d).mpr (Or.inl hl))
    · by_cases heq : e.1 = d
      · left
        rw [hobjects]
        refine List.ne_nil_of_mem (a := e) ((Objects.mem_deleteNode_unassigned _ d).mpr ?_)
        exact Or.inr ⟨⟨heq, hlow⟩, fun hmade => absurd ((ha.levels e he e.2).mp hmade) (lt_irrefl _)⟩
      · refine Or.inr ⟨e, ?_, hlow⟩
        rw [hlive, dropRemoved, List.mem_filter]
        exact ⟨he, by simpa using heq⟩
  · rwa [Unbalanced, hobjects, hlive]

/-! ## The end of a run -/

/-- The list destructor leaves the nodes that are still in the list. -/
theorem Accounts.live_eq_nil (ha : Accounts printfHello s) (h : ReleasedOnce s.destroy) :
    s.world.live = [] := by
  by_contra hne
  obtain ⟨e, he⟩ := List.exists_mem_of_ne_nil _ hne
  have hlive : e.1 ∈ s.world.live.map Prod.fst := List.mem_map_of_mem he
  obtain ⟨hheader, hrest⟩ := List.nodup_cons.mp ha.apart
  have hleft : e.1 ∉ s.destroy.goneNodes := by
    rw [Life.destroy, Objects.deleteNode_goneNodes, List.mem_append, List.mem_singleton, not_or]
    exact ⟨fun hgone => (List.nodup_append.mp hrest).2.2 _ hlive _ hgone rfl,
      fun heq => hheader (List.mem_append_left _ (heq ▸ hlive))⟩
  have hmade : e.1 ∈ s.destroy.madeNodes := by
    rw [Life.destroy, Objects.deleteNode_madeNodes]
    exact ha.mem_madeNodes (List.mem_cons_of_mem _ hlive)
  have hcount := h.nodes e.1 hmade
  rw [List.count_eq_zero_of_not_mem hleft] at hcount
  contradiction

/-- With full heights and no node left, every object goes once. -/
theorem Balanced.releasedOnce (h : Balanced s) (ha : Accounts printfHello s) (hlive : s.world.live = []) :
    ReleasedOnce s.destroy := by
  obtain ⟨hgone, hassigned⟩ := h.deleteNode ha List.mem_cons_self
  have hnodes : s.objects.madeNodes ~ s.destroy.goneNodes := by
    have hperm := ha.nodes
    rw [hlive, List.map_nil, List.nil_append] at hperm
    exact hperm.trans (List.perm_append_singleton _ _).symm
  have hlevels : s.objects.madeLevels ~ s.destroy.goneLevels := by
    rw [h.made, Life.destroy, hgone]
    exact hnodes.flatMap_right _
  have hnodup : s.objects.madeLevels.Nodup := by
    rw [h.made]
    refine List.nodup_flatMap.mpr ⟨fun p _ => nodup_levelsOf p _, ha.nodup.imp fun hne l hl hl' => ?_⟩
    exact hne ((mem_levelsOf.mp hl).1.symm.trans (mem_levelsOf.mp hl').1)
  refine ⟨fun x hx => ?_, fun l hl => ?_, hassigned⟩
  · rw [Life.destroy, Objects.deleteNode_madeNodes] at hx
    rw [← hnodes.count_eq]
    exact List.count_eq_one_of_mem ha.nodup hx
  · rw [Life.destroy, Objects.deleteNode_madeLevels] at hl
    rw [← hlevels.count_eq]
    exact List.count_eq_one_of_mem hnodup hl

/-- A slot that is unassigned is read at the latest with the node, which has to go. -/
theorem Unbalanced.not_releasedOnce (h : Unbalanced s) (ha : Accounts printfHello s) :
    ¬ ReleasedOnce s.destroy := by
  intro hreleased
  rcases h with hread | ⟨e, he, -⟩
  · obtain ⟨l, hl⟩ := List.exists_mem_of_ne_nil _ hread
    have hkept : l ∈ s.destroy.unassigned := (Objects.mem_deleteNode_unassigned _ _).mpr (Or.inl hl)
    rw [hreleased.assigned] at hkept
    exact absurd hkept List.not_mem_nil
  · rw [ha.live_eq_nil hreleased] at he
    exact absurd he List.not_mem_nil

end Step

/-- A run from a new list is balanced if its insertions all have full height, and unbalanced otherwise. -/
theorem balanced_or_unbalanced {memory : NodePtr → ℕ → Option LevelPtr} {calls : List (Call H)} {s : Life H}
    (h : Transition.Run LifeStep (Life.new printfHello memory) calls s) : Accounts printfHello s ∧
      (((∀ call ∈ calls, FullHeight call) ∧ Balanced s) ∨
        ((∃ call ∈ calls, ¬ FullHeight call) ∧ Unbalanced s)) := by
  have ha : Accounts printfHello s :=
    h.preserves (P := Accounts printfHello) (fun _ _ _ ha hstep => ha.step hstep) (accounts_new memory)
  have hcases := h.dichotomy (G := FullHeight) (P := fun s => Accounts printfHello s ∧ Balanced s)
    (Q := fun s => Accounts printfHello s ∧ Unbalanced s)
    (fun s call s' hs hfull hstep => ⟨hs.1.step hstep, hs.2.step hs.1 hfull hstep⟩)
    (fun s call s' hs hlow hstep => ⟨hs.1.step hstep, hs.1.unbalanced hlow hstep⟩)
    (fun s call s' hs hstep => ⟨hs.1.step hstep, hs.2.step hs.1 hstep⟩)
    ⟨accounts_new memory, balanced_new memory⟩
  exact ⟨ha, hcases.imp (And.imp_right And.right) (And.imp_right And.right)⟩

/-- At the end of a run, every object has been deleted exactly once, and only through assigned slots, if
and only if all insertions drew the full height and no timer is left for the list destructor. -/
theorem releasedOnce_iff {memory : NodePtr → ℕ → Option LevelPtr} {calls : List (Call H)} {s : Life H}
    (h : Transition.Run LifeStep (Life.new printfHello memory) calls s) :
    ReleasedOnce s.destroy ↔ (∀ call ∈ calls, FullHeight call) ∧ s.world.live = [] := by
  obtain ⟨ha, ⟨hfull, hbalanced⟩ | ⟨⟨call, hcall, hlow⟩, hunbalanced⟩⟩ := balanced_or_unbalanced h
  · exact ⟨fun hreleased => ⟨hfull, ha.live_eq_nil hreleased⟩, fun hend => hbalanced.releasedOnce ha hend.2⟩
  · exact ⟨fun hreleased => absurd hreleased (hunbalanced.not_releasedOnce ha),
      fun hend => absurd (hend.1 call hcall) hlow⟩

/-- One timer of full height, removed before the list is destroyed. -/
theorem releasedOnce_iff_run : ∃ s : Life Unit, s.world.live = [] ∧
    (ReleasedOnce s.destroy ↔
      (∀ call ∈ [Call.insert 5 skiplistMaxlevel (), .delHead], FullHeight call) ∧ s.world.live = []) := by
  have hrun : (replay Life.check (Life.new () fun _ _ => some (7, 7))
      [.insert 5 skiplistMaxlevel (), .delHead]).map (fun s => s.world.live) = some [] := by decide +kernel
  obtain ⟨s, hrun, hlive⟩ := Option.map_eq_some_iff.mp hrun
  exact ⟨s, hlive, releasedOnce_iff (Transition.Run.replay (fun _ _ _ => Life.step_of_check) hrun)⟩

/-- A timer of height one that is removed, and a timer of full height that is not. -/
theorem not_released_once :
    (∃ s : Life Unit, Transition.Run LifeStep (Life.new () fun _ _ => none) [.insert 5 1 (), .delHead] s ∧
      ¬ ReleasedOnce s.destroy) ∧
    ∃ s : Life Unit, Transition.Run LifeStep (Life.new () fun _ _ => none) [.insert 5 skiplistMaxlevel ()] s ∧
      ¬ ReleasedOnce s.destroy := by
  have hlow : (replay Life.check (Life.new () fun _ _ => none) [.insert 5 1 (), .delHead]).isSome := by
    decide
  have hleft : (replay Life.check (Life.new () fun _ _ => none) [.insert 5 skiplistMaxlevel ()]).map
      (fun s => s.world.live) = some [(1, skiplistMaxlevel)] := by decide +kernel
  obtain ⟨low, hlow⟩ := Option.isSome_iff_exists.mp hlow
  obtain ⟨left, hrun, hleft⟩ := Option.map_eq_some_iff.mp hleft
  have hlow := Transition.Run.replay (fun _ _ _ => Life.step_of_check) hlow
  have hrun := Transition.Run.replay (fun _ _ _ => Life.step_of_check) hrun
  refine ⟨⟨low, hlow, ?_⟩, left, hrun, fun hreleased => ?_⟩
  · obtain ⟨ha, ⟨hfull, -⟩ | ⟨-, hunbalanced⟩⟩ := balanced_or_unbalanced hlow
    · exact absurd (hfull (.insert 5 1 ()) List.mem_cons_self) (by simp [FullHeight, skiplistMaxlevel])
    · exact hunbalanced.not_releasedOnce ha
  · rw [(balanced_or_unbalanced hrun).1.live_eq_nil hreleased] at hleft
    exact List.cons_ne_nil _ _ hleft.symm

end CppProject.SkipListTimer
