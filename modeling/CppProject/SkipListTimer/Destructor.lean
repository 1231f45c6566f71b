import CppProject.SkipListTimer.Node

/-!
# Constructing and destroying a node, object by object

The constructor creates one level object for each slot below the node's level and leaves the other slots
as `new` found them. The destructor reads all 32 slots and deletes what each one points to. Ledgers
record the objects created and deleted, and each slot the destructor reads that no constructor has
assigned; such a slot holds an arbitrary value, which may be null or any pointer. The ledgers only grow:
nothing that happens after such a read takes it back.
-/

namespace CppProject.SkipListTimer

/-- A level object, named by the node and the slot it was created for. -/
abbrev LevelPtr := NodePtr × ℕ

/-- The level objects of a node of the given level. -/
def levelsOf (x : NodePtr) (level : ℕ) : List LevelPtr := (List.range level).map (Prod.mk x)

/-- The levels of a node are those below its height. -/
theorem mem_levelsOf {x : NodePtr} {level : ℕ} {l : LevelPtr} :
    l ∈ levelsOf x level ↔ l.1 = x ∧ l.2 < level := by
  obtain ⟨y, i⟩ := l
  simp only [levelsOf, List.mem_map, List.mem_range, Prod.mk.injEq]
  constructor
  · rintro ⟨j, hj, rfl, rfl⟩
    exact ⟨rfl, hj⟩
  · rintro ⟨rfl, hi⟩
    exact ⟨i, hi, rfl, rfl⟩

/-- One level more. -/
theorem levelsOf_succ (x : NodePtr) (level : ℕ) :
    levelsOf x (level + 1) = levelsOf x level ++ [(x, level)] := by
  rw [levelsOf, levelsOf, List.range_succ, List.map_append, List.map_singleton]

/-- The levels of a node differ. -/
theorem nodup_levelsOf (x : NodePtr) (level : ℕ) : (levelsOf x level).Nodup :=
  List.nodup_range.map fun _ _ h => (Prod.mk.inj h).2

/-- The slot arrays of all nodes, with the ledgers. -/
structure Objects where
  mLevel : NodePtr → ℕ → Option LevelPtr
  madeNodes : List NodePtr
  madeLevels : List LevelPtr
  goneNodes : List NodePtr
  goneLevels : List LevelPtr
  unassigned : List (NodePtr × ℕ)

namespace Objects

/-- Write one slot of one node. -/
def setSlot (m : Objects) (x : NodePtr) (i : ℕ) (level : Option LevelPtr) : Objects :=
  { m with mLevel := Function.update m.mLevel x (Function.update (m.mLevel x) i level) }

/-- `m_level[i] = new SkipListLevel()`. -/
def newLevel (m : Objects) (x : NodePtr) (i : ℕ) : Objects :=
  { m.setSlot x i (some (x, i)) with madeLevels := m.madeLevels ++ [(x, i)] }

/-- The loop of the constructor. -/
def newLevels (m : Objects) (x : NodePtr) : ℕ → Objects
  | 0 => m
  | i + 1 => (m.newLevels x i).newLevel x i

/-- `new SkipListNode(score, level, handler)`. -/
def newNode (m : Objects) (x : NodePtr) (level : ℕ) : Objects :=
  { m with madeNodes := m.madeNodes ++ [x] }.newLevels x level

/-- The destructor reads a slot, assigned or not. -/
def readSlot (m : Objects) (x : NodePtr) (i : ℕ) : Objects :=
  { m with unassigned := m.unassigned ++ if (x, i) ∈ m.madeLevels then [] else [(x, i)] }

/-- One round of the loop of the destructor: delete what the slot points to and clear it. -/
def deleteLevel (m : Objects) (x : NodePtr) (i : ℕ) : Objects :=
  match m.mLevel x i with
  | none => m.readSlot x i
  | some level => { (m.readSlot x i).setSlot x i none with goneLevels := m.goneLevels ++ [level] }

/-- The loop of the destructor. -/
def deleteLevels (m : Objects) (x : NodePtr) : ℕ → Objects
  | 0 => m
  | i + 1 => (m.deleteLevels x i).deleteLevel x i

/-- `delete x` of a node. -/
def deleteNode (m : Objects) (x : NodePtr) : Objects :=
  { m.deleteLevels x skiplistMaxlevel with goneNodes := m.goneNodes ++ [x] }

variable (m : Objects) (x : NodePtr)

/-- An assignment leaves the other slots. -/
theorem setSlot_of_ne {y : NodePtr} {i j : ℕ} (h : y ≠ x ∨ j ≠ i) (level : Option LevelPtr) :
    (m.setSlot x i level).mLevel y j = m.mLevel y j := by
  change Function.update m.mLevel x (Function.update (m.mLevel x) i level) y j = m.mLevel y j
  by_cases hy : y = x
  · subst hy
    rw [Function.update_self, Function.update_of_ne (h.resolve_left (· rfl))]
  · rw [Function.update_of_ne hy]

/-! ## The constructor -/

/-- What the loop of the constructor leaves alone. -/
theorem newLevels_same (level : ℕ) : (m.newLevels x level).madeNodes = m.madeNodes ∧
    (m.newLevels x level).goneNodes = m.goneNodes ∧ (m.newLevels x level).goneLevels = m.goneLevels ∧
    (m.newLevels x level).unassigned = m.unassigned := by
  induction level with
  | zero => exact ⟨rfl, rfl, rfl, rfl⟩
  | succ i ih => exact ih

/-- The constructor makes the levels up to the height. -/
theorem newLevels_madeLevels (level : ℕ) :
    (m.newLevels x level).madeLevels = m.madeLevels ++ levelsOf x level := by
  induction level with
  | zero => exact (List.append_nil _).symm
  | succ i ih => rw [newLevels, newLevel, ih, levelsOf_succ, List.append_assoc]

/-- The slots below the level are assigned, no other one changes. -/
theorem newLevels_mLevel (level : ℕ) (y : NodePtr) (i : ℕ) :
    (m.newLevels x level).mLevel y i = if y = x ∧ i < level then some (x, i) else m.mLevel y i := by
  induction level with
  | zero => simp [newLevels]
  | succ n ih =>
    by_cases h : y = x ∧ i = n
    · obtain ⟨rfl, rfl⟩ := h
      simp [newLevels, newLevel, setSlot]
    · have hne : y ≠ x ∨ i ≠ n := not_and_or.mp h
      have hiff : (y = x ∧ i < n + 1) ↔ (y = x ∧ i < n) :=
        and_congr_right fun hy => by
          have := hne.resolve_left (not_not_intro hy)
          omega
      rw [newLevels, newLevel, setSlot_of_ne _ _ hne, ih]
      simp only [hiff]

/-- A new node is made once. -/
@[simp] theorem newNode_madeNodes (level : ℕ) : (m.newNode x level).madeNodes = m.madeNodes ++ [x] :=
  (newLevels_same _ x level).1

/-- A new node deletes no node. -/
@[simp] theorem newNode_goneNodes (level : ℕ) : (m.newNode x level).goneNodes = m.goneNodes :=
  (newLevels_same _ x level).2.1

/-- A new node deletes no level. -/
@[simp] theorem newNode_goneLevels (level : ℕ) : (m.newNode x level).goneLevels = m.goneLevels :=
  (newLevels_same _ x level).2.2.1

/-- A new node deletes through no unassigned slot. -/
@[simp] theorem newNode_unassigned (level : ℕ) : (m.newNode x level).unassigned = m.unassigned :=
  (newLevels_same _ x level).2.2.2

/-- A new node makes its levels. -/
@[simp] theorem newNode_madeLevels (level : ℕ) :
    (m.newNode x level).madeLevels = m.madeLevels ++ levelsOf x level := newLevels_madeLevels _ x level

/-! ## The destructor -/

/-- What one round of the destructor leaves alone. -/
theorem deleteLevel_same (i : ℕ) : (m.deleteLevel x i).madeNodes = m.madeNodes ∧
    (m.deleteLevel x i).madeLevels = m.madeLevels ∧ (m.deleteLevel x i).goneNodes = m.goneNodes := by
  rw [deleteLevel]
  split <;> exact ⟨rfl, rfl, rfl⟩

/-- A slot is read before it is assigned if its level was never made. -/
theorem deleteLevel_unassigned (i : ℕ) : (m.deleteLevel x i).unassigned =
    m.unassigned ++ if (x, i) ∈ m.madeLevels then [] else [(x, i)] := by
  rw [deleteLevel]
  split <;> rfl

/-- One round clears at most its own slot. -/
theorem deleteLevel_mLevel {y : NodePtr} {i j : ℕ} (h : y ≠ x ∨ j ≠ i) :
    (m.deleteLevel x i).mLevel y j = m.mLevel y j := by
  rw [deleteLevel]
  split
  · rfl
  · exact setSlot_of_ne _ x h none

/-- A slot that holds a level deletes it. -/
theorem deleteLevel_goneLevels {i : ℕ} {level : LevelPtr} (h : m.mLevel x i = some level) :
    (m.deleteLevel x i).goneLevels = m.goneLevels ++ [level] := by
  rw [deleteLevel, h]

/-- What the loop of the destructor leaves alone. -/
theorem deleteLevels_same (level : ℕ) : (m.deleteLevels x level).madeNodes = m.madeNodes ∧
    (m.deleteLevels x level).madeLevels = m.madeLevels ∧
    (m.deleteLevels x level).goneNodes = m.goneNodes := by
  induction level with
  | zero => exact ⟨rfl, rfl, rfl⟩
  | succ i ih =>
    obtain ⟨hnodes, hlevels, hgone⟩ := (m.deleteLevels x i).deleteLevel_same x i
    exact ⟨hnodes.trans ih.1, hlevels.trans ih.2.1, hgone.trans ih.2.2⟩

/-- The slots not reached yet, and those of other nodes, keep their values. -/
theorem deleteLevels_mLevel {y : NodePtr} {level i : ℕ} (h : y ≠ x ∨ level ≤ i) :
    (m.deleteLevels x level).mLevel y i = m.mLevel y i := by
  induction level with
  | zero => rfl
  | succ n ih =>
    rw [deleteLevels, deleteLevel_mLevel _ x (h.imp_right fun hle => by omega)]
    exact ih (h.imp_right fun hle => by omega)

/-- The destructor reads every slot, assigned or not. -/
theorem deleteLevels_unassigned (level : ℕ) : (m.deleteLevels x level).unassigned =
    m.unassigned ++ (levelsOf x level).filter fun l => decide (l ∉ m.madeLevels) := by
  induction level with
  | zero => exact (List.append_nil _).symm
  | succ n ih =>
    rw [deleteLevels, deleteLevel_unassigned, (m.deleteLevels_same x n).2.1, ih, levelsOf_succ,
      List.filter_append, List.append_assoc]
    by_cases hassigned : (x, n) ∈ m.madeLevels <;> simp [hassigned]

/-- With the slots as a constructor has assigned them, exactly the level objects of the node go. -/
theorem deleteLevels_goneLevels {level : ℕ} (h : ∀ i < level, m.mLevel x i = some (x, i)) :
    (m.deleteLevels x level).goneLevels = m.goneLevels ++ levelsOf x level := by
  induction level with
  | zero => exact (List.append_nil _).symm
  | succ n ih =>
    have hslot : (m.deleteLevels x n).mLevel x n = some (x, n) :=
      (m.deleteLevels_mLevel x (Or.inr le_rfl)).trans (h n (Nat.lt_succ_self n))
    rw [deleteLevels, deleteLevel_goneLevels _ x hslot, levelsOf_succ, ← List.append_assoc,
      ih fun i hi => h i (hi.trans (Nat.lt_succ_self n))]

/-- A deletion makes no node. -/
@[simp] theorem deleteNode_madeNodes : (m.deleteNode x).madeNodes = m.madeNodes :=
  (m.deleteLevels_same x skiplistMaxlevel).1

/-- A deletion makes no level. -/
@[simp] theorem deleteNode_madeLevels : (m.deleteNode x).madeLevels = m.madeLevels :=
  (m.deleteLevels_same x skiplistMaxlevel).2.1

/-- A deletion deletes its node. -/
@[simp] theorem deleteNode_goneNodes : (m.deleteNode x).goneNodes = m.goneNodes ++ [x] := rfl

/-- A deletion leaves the slots of the other nodes. -/
theorem deleteNode_mLevel {y : NodePtr} (h : y ≠ x) (i : ℕ) :
    (m.deleteNode x).mLevel y i = m.mLevel y i := m.deleteLevels_mLevel x (Or.inl h)

/-- A node whose slots are all assigned deletes all its levels. -/
theorem deleteNode_goneLevels (h : ∀ i < skiplistMaxlevel, m.mLevel x i = some (x, i)) :
    (m.deleteNode x).goneLevels = m.goneLevels ++ levelsOf x skiplistMaxlevel :=
  m.deleteLevels_goneLevels x h

/-- A slot that was assigned by no constructor is read for good. -/
theorem mem_deleteNode_unassigned {l : LevelPtr} : l ∈ (m.deleteNode x).unassigned ↔
    l ∈ m.unassigned ∨ (l.1 = x ∧ l.2 < skiplistMaxlevel) ∧ l ∉ m.madeLevels := by
  change l ∈ (m.deleteLevels x skiplistMaxlevel).unassigned ↔ _
  rw [deleteLevels_unassigned, List.mem_append, List.mem_filter, mem_levelsOf, decide_eq_true_eq]

end Objects

end CppProject.SkipListTimer
