import CppProject.SkipListTimer.Node
import CppProject.Lib.Transition

/-!
# The skip-list operations

`Insert_node`, `Del_node`, `Del_HeadNode` and `GetMinNode` on the pointer structure, with the
loops of the source. The height that `RandomLevel` draws is an argument of the insertion. An
operation has no result if it reads an unassigned slot, an uninitialised entry of `temp`, or
through a pointer to no node, or if a descent does not stop within the given number of
iterations; the structural invariant excludes all of these.

`Del_node` also reports the node it deletes. The operations form a transition system whose
labels are the calls, restricted to what the callers may pass: heights between 1 and 32, and
live nodes to `Del_node`.
-/

namespace CppProject.SkipListTimer

variable {H : Type*}

/-- The list object, with its nodes on the heap and the address the next `new` returns. -/
structure SkipList (H : Type*) where
  mHeader : NodePtr
  mLength : ℤ
  mLevel : ℕ
  heap : Heap H
  fresh : NodePtr

/-- `SkipList()`: a header with all 32 slots and nothing behind it. -/
def SkipList.new (printfHello : H) : SkipList H where
  mHeader := 0
  mLength := 0
  mLevel := 1
  heap := Function.update (fun _ => none) 0 (some (SkipListNode.new 0 skiplistMaxlevel printfHello))
  fresh := 1

/-- The local array `temp`; entries start uninitialised. -/
abbrev Temp := ℕ → Option NodePtr

/-- The inner `while` of both descents: move right on one level while the next score is smaller. -/
def advance (heap : Heap H) (target : BitVec 64) (level : ℕ) : ℕ → NodePtr → Option NodePtr
  | 0, _ => none
  | fuel + 1, x =>
    (getNextNodeOfLevel heap x level).bind fun
      | none => some x
      | some y => (getScore heap y).bind fun s =>
        if s < target then advance heap target level fuel y else some x

/-- The outer `for` of both descents, over the levels below the given one. It returns the last
position and the array of predecessors. -/
def descend (heap : Heap H) (target : BitVec 64) (fuel : ℕ) :
    ℕ → NodePtr → Temp → Option (NodePtr × Temp)
  | 0, x, temp => some (x, temp)
  | i + 1, x, temp =>
    (advance heap target i fuel x).bind fun x =>
      descend heap target fuel i x (Function.update temp i (some x))

/-- `for (i = m_level; i < newlevel; i++) temp[i] = m_header`, from `i` for `count` rounds. -/
def fillTemp (header : NodePtr) : ℕ → ℕ → Temp → Temp
  | _, 0, temp => temp
  | i, count + 1, temp => fillTemp header (i + 1) count (Function.update temp i (some header))

/-- One round of the linking loop of `Insert_node`. -/
def linkLevel (x : NodePtr) (temp : Temp) (i : ℕ) (heap : Heap H) : Option (Heap H) :=
  (temp i).bind fun t =>
    (getNextNodeOfLevel heap t i).bind fun after =>
      (setNextNodeOfLevel heap x i after).bind fun heap =>
        setNextNodeOfLevel heap t i (some x)

/-- One round of the unlinking loop of `Del_node`. -/
def unlinkLevel (delNode : NodePtr) (temp : Temp) (i : ℕ) (heap : Heap H) : Option (Heap H) :=
  (temp i).bind fun t =>
    (getNextNodeOfLevel heap t i).bind fun after =>
      if after = some delNode then
        (getNextNodeOfLevel heap delNode i).bind fun after => setNextNodeOfLevel heap t i after
      else some heap

/-- A `for (i = 0; i < n; i++)` loop over the levels. -/
def forLevels (body : ℕ → Heap H → Option (Heap H)) : ℕ → Heap H → Option (Heap H)
  | 0, heap => some heap
  | n + 1, heap => (forLevels body n heap).bind (body n)

/-- `while (m_level > 1 && m_header->GetNextNodeOfLevel(m_level - 1) == NULL) m_level--`. -/
def shrinkLevel (heap : Heap H) (header : NodePtr) : ℕ → Option ℕ
  | 0 => some 0
  | 1 => some 1
  | n + 2 => (getNextNodeOfLevel heap header (n + 1)).bind fun first =>
      if first = none then shrinkLevel heap header (n + 1) else some (n + 2)

/-- Enough rounds for any walk along one level: no level holds more nodes than were created. -/
def SkipList.fuel (s : SkipList H) : ℕ := s.fresh + 1

/-- `Insert_node(score, handler)`, with `newlevel` drawn by `RandomLevel`; returns the new node. -/
def insertNode (s : SkipList H) (score : BitVec 32) (newlevel : ℕ) (handler : H) :
    Option (SkipList H × NodePtr) :=
  -- the `uint32_t` score is compared with stored `unsigned long` scores, so it is zero-extended
  (descend s.heap (score.setWidth 64) s.fuel s.mLevel s.mHeader fun _ => none).bind fun (_, temp) =>
    let temp := if newlevel > s.mLevel then fillTemp s.mHeader s.mLevel (newlevel - s.mLevel) temp
      else temp
    let mLevel := if newlevel > s.mLevel then newlevel else s.mLevel
    let x := s.fresh
    let heap := Function.update s.heap x (some (SkipListNode.new score newlevel handler))
    (forLevels (linkLevel x temp) newlevel heap).bind fun heap =>
      some ({ s with mLength := s.mLength + 1, mLevel := mLevel, heap := heap, fresh := s.fresh + 1 }, x)

/-- `Del_node(snode)`, with the node it deletes. -/
def delNode (s : SkipList H) (snode : NodePtr) : Option (SkipList H × Option NodePtr) :=
  (getScore s.heap snode).bind fun target =>
    (descend s.heap target s.fuel s.mLevel s.mHeader fun _ => none).bind fun (x, temp) =>
      (getNextNodeOfLevel s.heap x 0).bind fun
        | none => some (s, none)
        | some del => (getScore s.heap del).bind fun found =>
          if found = target then
            (forLevels (unlinkLevel del temp) s.mLevel s.heap).bind fun heap =>
              (shrinkLevel heap s.mHeader s.mLevel).bind fun mLevel =>
                some ({ s with mLength := s.mLength - 1, mLevel := mLevel,
                               heap := Function.update heap del none }, some del)
          else some (s, none)

/-- `Del_timer(snode)`. -/
def delTimer (s : SkipList H) (snode : NodePtr) : Option (SkipList H × Option NodePtr) :=
  delNode s snode

/-- `GetMinNode()`. -/
def getMinNode (s : SkipList H) : Option (Option NodePtr) := getNextNodeOfLevel s.heap s.mHeader 0

/-- `Del_HeadNode()`, with the node it deletes. -/
def delHeadNode (s : SkipList H) : Option (SkipList H × Option NodePtr) :=
  (getMinNode s).bind fun
    | none => some (s, none)
    | some header => delNode s header

/-- The list together with a record of the nodes inserted and not yet removed, newest first,
each with the height it was created with. The record is bookkeeping: no operation reads it. -/
structure World (H : Type*) where
  list : SkipList H
  live : List (NodePtr × ℕ)

/-- The record after a deletion. -/
def dropRemoved (removed : Option NodePtr) (live : List (NodePtr × ℕ)) : List (NodePtr × ℕ) :=
  live.filter fun entry => decide (some entry.1 ≠ removed)

/-- The calls that change the list. -/
inductive Call (H : Type*)
  | insert (score : BitVec 32) (newlevel : ℕ) (handler : H)
  | del (snode : NodePtr)
  | delHead

/-- What a caller may pass: a height `RandomLevel` can return, a node that is still live. -/
def Call.Valid (w : World H) : Call H → Prop
  | .insert _ newlevel _ => 1 ≤ newlevel ∧ newlevel ≤ skiplistMaxlevel
  | .del snode => snode ∈ w.live.map Prod.fst
  | .delHead => True

instance (w : World H) : (call : Call H) → Decidable (call.Valid w)
  | .insert _ _ _ => inferInstanceAs (Decidable (_ ∧ _))
  | .del snode => inferInstanceAs (Decidable (snode ∈ w.live.map Prod.fst))
  | .delHead => inferInstanceAs (Decidable True)

/-- Execute a call and keep the record. -/
def Call.exec (w : World H) : Call H → Option (World H)
  | .insert score newlevel handler => (insertNode w.list score newlevel handler).map fun (s, x) =>
      ⟨s, (x, newlevel) :: w.live⟩
  | .del snode => (delNode w.list snode).map fun (s, removed) => ⟨s, dropRemoved removed w.live⟩
  | .delHead => (delHeadNode w.list).map fun (s, removed) => ⟨s, dropRemoved removed w.live⟩

/-- One valid call that has a result. -/
def Step (w : World H) (call : Call H) (w' : World H) : Prop :=
  call.Valid w ∧ call.exec w = some w'

/-- `SkipList()` with nothing inserted. -/
def World.new (printfHello : H) : World H := ⟨SkipList.new printfHello, []⟩

/-- The states reached from `SkipList()` by any finite sequence of valid calls. -/
def Reachable (printfHello : H) : World H → Prop :=
  Transition.Reachable (· = World.new printfHello) Step

/-- Execute a call after checking that it is valid. -/
def Call.check (w : World H) (call : Call H) : Option (World H) :=
  if call.Valid w then call.exec w else none

/-- A checked call is a step. -/
theorem Call.step_of_check {w w' : World H} {call : Call H} (h : call.check w = some w') :
    Step w call w' := by
  rw [Call.check] at h
  exact Option.ite_none_right_eq_some.mp h

/-- The state after a sequence of calls on a new list, each checked. -/
def runCalls (printfHello : H) (calls : List (Call H)) : Option (World H) :=
  Transition.replay Call.check (World.new printfHello) calls

/-- The state after a sequence of checked calls is reachable. -/
theorem reachable_of_runCalls {printfHello : H} {calls : List (Call H)} {w : World H}
    (h : runCalls printfHello calls = some w) : Reachable printfHello w :=
  Transition.Reachable.replay (fun _ _ _ => Call.step_of_check) (.init rfl) h

end CppProject.SkipListTimer
