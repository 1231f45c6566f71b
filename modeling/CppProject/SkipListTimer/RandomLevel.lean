import CppProject.SkipListTimer.Structure

/-!
# The heights of the nodes

`RandomLevel` sets the seed of the generator to the time in seconds before it draws. The height of a node is
therefore a function of the second in which it is inserted, and the draws of one insertion do not go on where
those of the insertion before it ended.
-/

namespace CppProject.SkipListTimer

variable {H G : Type*}

/-- A generator behind `srand` and `random`, with its state. -/
structure Generator (G : Type*) where
  srand : BitVec 32 → G
  random : G → BitVec 31 × G

/-- `(random()&0xFFFF) < (ZSKIPLIST_P *0xFFFF)`, with a quarter for `ZSKIPLIST_P`. -/
def IsLow (draw : BitVec 31) : Prop := 4 * (draw &&& 0xFFFF).toNat < 0xFFFF

instance (draw : BitVec 31) : Decidable (IsLow draw) := inferInstanceAs (Decidable (_ < _))

/-- The `while` loop of `RandomLevel`, with a bound on its rounds. -/
def countLow (gen : Generator G) : ℕ → ℕ → G → Option (ℕ × G)
  | 0, _, _ => none
  | fuel + 1, level, g =>
    let (draw, g) := gen.random g
    if IsLow draw then countLow gen fuel (level + 1) g else some (level, g)

/-- `RandomLevel` behind its first line: a height is read off the draws, with the cap. -/
def readLevel (gen : Generator G) (fuel : ℕ) (g : G) : Option (ℕ × G) :=
  (countLow gen fuel 1 g).map fun (level, g) =>
    (if level < skiplistMaxlevel then level else skiplistMaxlevel, g)

/-- `RandomLevel()` at a reading of `time(0)`. What the generator was at before is not used. -/
def randomLevel (gen : Generator G) (fuel : ℕ) (time : BitVec 64) (_ : G) : Option (ℕ × G) :=
  readLevel gen fuel (gen.srand (time.setWidth 32))

/-- The arguments of a call of `Insert_node`, and the time at which it is made. -/
structure Insertion (H : Type*) where
  time : BitVec 64
  score : BitVec 32
  handler : H

/-- A sequence of calls of `Insert_node`, with the heights drawn. -/
def insertAll (gen : Generator G) (fuel : ℕ) : World H × G → List (Insertion H) → Option ((World H × G) × List ℕ)
  | state, [] => some (state, [])
  | (w, g), i :: rest =>
    (randomLevel gen fuel i.time g).bind fun (newlevel, g) =>
      ((Call.insert i.score newlevel i.handler).exec w).bind fun w =>
        (insertAll gen fuel (w, g) rest).map fun (state, levels) => (state, newlevel :: levels)

/-- The heights are read off the draws from `g` on, each behind the draws of the one before it. -/
def ReadOff (gen : Generator G) : G → List ℕ → Prop
  | _, [] => True
  | g, level :: levels => ∃ fuel g', readLevel gen fuel g = some (level, g') ∧ ReadOff gen g' levels

/-- Whatever the generator, the heights of these insertions come from one continuing stream of draws, and two
insertions within a second may have different heights. -/
structure OneStream (printfHello : H) (insertions : List (Insertion H)) : Prop where
  continues : ∀ (G : Type) (gen : Generator G) fuel w g state levels, Reachable printfHello w →
    insertAll gen fuel (w, g) insertions = some (state, levels) → ∃ start, ReadOff gen start levels
  unforced : ∀ (i j : ℕ) (first second : Insertion H), i < j → insertions[i]? = some first → insertions[j]? = some second →
    first.time = second.time → ∃ (G : Type) (gen : Generator G) (fuel : ℕ) (w : World H) (g : G)
      (state : World H × G) (levels : List ℕ), Reachable printfHello w ∧ insertAll gen fuel (w, g) insertions = some (state, levels) ∧
        levels[i]? ≠ levels[j]?

variable {gen : Generator G} {fuel level : ℕ} {w : World H} {g g' : G} {printfHello : H}
  {insertions : List (Insertion H)} {state : World H × G} {levels : List ℕ}

/-! ## One height -/

/-- The height only grows. -/
theorem le_of_countLow {start : ℕ} (h : countLow gen fuel start g = some (level, g')) : start ≤ level := by
  induction fuel generalizing start g with
  | zero => exact absurd h nofun
  | succ fuel ih =>
    rw [countLow] at h
    dsimp only at h
    split at h
    · exact (Nat.le_succ start).trans (ih h)
    · exact (Prod.mk.inj (Option.some.inj h)).1.le

/-- A height that `Insert_node` may take. -/
theorem readLevel_bounds (h : readLevel gen fuel g = some (level, g')) : 1 ≤ level ∧ level ≤ skiplistMaxlevel := by
  obtain ⟨⟨counted, _⟩, hcount, heq⟩ := Option.map_eq_some_iff.mp h
  obtain ⟨rfl, -⟩ := Prod.mk.inj heq
  have hpos := le_of_countLow hcount
  have hmax : 1 ≤ skiplistMaxlevel := by decide
  split <;> omega

/-- The height drawn at a time. -/
def levelAt (gen : Generator G) (fuel : ℕ) (time : BitVec 64) : Option ℕ :=
  (readLevel gen fuel (gen.srand (time.setWidth 32))).map Prod.fst

/-! ## Sequences of insertions -/

/-- The first insertion, and the others. -/
theorem insertAll_cons {i : Insertion H} {rest : List (Insertion H)}
    (h : insertAll gen fuel (w, g) (i :: rest) = some (state, levels)) :
    ∃ newlevel g' w' levels', randomLevel gen fuel i.time g = some (newlevel, g') ∧
      (Call.insert i.score newlevel i.handler).exec w = some w' ∧
      insertAll gen fuel (w', g') rest = some (state, levels') ∧ levels = newlevel :: levels' := by
  rw [insertAll] at h
  obtain ⟨⟨newlevel, g'⟩, hlevel, h⟩ := Option.bind_eq_some_iff.mp h
  obtain ⟨w', hexec, h⟩ := Option.bind_eq_some_iff.mp h
  obtain ⟨⟨state', levels'⟩, hrest, heq⟩ := Option.map_eq_some_iff.mp h
  obtain ⟨rfl, rfl⟩ := Prod.mk.inj heq
  exact ⟨newlevel, g', w', levels', hlevel, hexec, hrest, rfl⟩

/-- The heights are a function of the times. -/
theorem levels_eq (h : insertAll gen fuel (w, g) insertions = some (state, levels)) :
    levels.map some = insertions.map fun i => levelAt gen fuel i.time := by
  induction insertions generalizing w g levels with
  | nil =>
    obtain ⟨-, rfl⟩ := Prod.mk.inj (Option.some.inj h)
    rfl
  | cons i rest ih =>
    obtain ⟨newlevel, g', w', levels', hlevel, -, hrest, rfl⟩ := insertAll_cons h
    have hfirst : levelAt gen fuel i.time = some newlevel := by
      rw [levelAt, ← randomLevel.eq_1 gen fuel i.time g, hlevel, Option.map_some]
    rw [List.map_cons, List.map_cons, hfirst, ih hrest]

/-- The insertions succeed for every generator that comes to a height in time. -/
theorem exists_insertAll (hreach : Reachable printfHello w)
    (hlevel : ∀ i ∈ insertions, (levelAt gen fuel i.time).isSome) (g : G) :
    ∃ state levels, insertAll gen fuel (w, g) insertions = some (state, levels) := by
  induction insertions generalizing w g with
  | nil => exact ⟨_, _, rfl⟩
  | cons i rest ih =>
    obtain ⟨hfirst, hrest⟩ := List.forall_mem_cons.mp hlevel
    rw [levelAt, Option.isSome_map] at hfirst
    obtain ⟨⟨newlevel, g'⟩, hdraw⟩ := Option.isSome_iff_exists.mp hfirst
    have hbounds := readLevel_bounds hdraw
    obtain ⟨order, htracks⟩ := hreach.tracks
    obtain ⟨s', x, temp, A, B, hinsert, -⟩ :=
      htracks.represents.insertNode_spec i.score hbounds.1 hbounds.2 i.handler
    have hexec : (Call.insert i.score newlevel i.handler).exec w =
        some ⟨s', (w.list.fresh, newlevel) :: w.live⟩ := by
      rw [Call.exec, hinsert, Option.map_some]
    have hstep : Step w (.insert i.score newlevel i.handler) ⟨s', (w.list.fresh, newlevel) :: w.live⟩ :=
      ⟨hbounds, hexec⟩
    obtain ⟨state, levels, hall⟩ := ih (hreach.step hstep) hrest g'
    refine ⟨state, newlevel :: levels, ?_⟩
    rw [insertAll, randomLevel, hdraw, Option.bind_some]
    dsimp only
    rw [hexec, Option.bind_some, hall, Option.map_some]

/-! ## One stream -/

/-- A generator whose first draw after `srand` is low, and all others high. -/
def lowOnce : Generator Bool where
  srand _ := true
  random
    | true => (0, false)
    | false => (0xFFFF, false)

/-- A generator with one small draw gives the height 2. -/
theorem levelAt_lowOnce (time : BitVec 64) : levelAt lowOnce 2 time = some 2 := rfl

/-- Two heights in a row are not both 2. -/
theorem not_readOff_lowOnce {start : Bool} : ¬ReadOff lowOnce start (2 :: 2 :: levels) := by
  rintro ⟨fuel, g', hfirst, fuel', g'', hsecond, -⟩
  -- the first height is read off, so the low draw is behind the second
  have hhigh {fuel level : ℕ} {g' : Bool} (h : readLevel lowOnce fuel false = some (level, g')) : level = 1 := by
    cases fuel with
    | zero => exact absurd h nofun
    | succ fuel => exact (Prod.mk.inj (Option.some.inj h)).1.symm
  cases start with
  | false => exact absurd (hhigh hfirst) (by decide)
  | true =>
    have hg' : g' = false := by
      cases fuel with
      | zero => exact absurd hfirst nofun
      | succ fuel =>
        cases fuel with
        | zero => exact absurd hfirst nofun
        | succ fuel => exact (Prod.mk.inj (Option.some.inj hfirst)).2.symm
    subst hg'
    exact absurd (hhigh hsecond) (by decide)

/-- The second insertion starts the stream again. -/
theorem not_oneStream (printfHello : H) (first second : Insertion H) (rest : List (Insertion H)) :
    ¬OneStream printfHello (first :: second :: rest) := by
  intro hstream
  obtain ⟨state, levels, hrun⟩ : ∃ state levels,
      insertAll lowOnce 2 (World.new printfHello, true) (first :: second :: rest) = some (state, levels) :=
    exists_insertAll (.init rfl) (fun i _ => by rw [levelAt_lowOnce]; rfl) true
  obtain ⟨start, hread⟩ := hstream.continues Bool lowOnce 2 _ true state levels (.init rfl) hrun
  have hlevels := levels_eq hrun
  simp only [levelAt_lowOnce, List.map_cons] at hlevels
  match levels, hlevels with
  | a :: b :: levels, hlevels =>
    obtain ⟨ha, hlevels⟩ := List.cons.inj hlevels
    obtain ⟨hb, -⟩ := List.cons.inj hlevels
    obtain rfl := Option.some.inj ha
    obtain rfl := Option.some.inj hb
    exact not_readOff_lowOnce hread

/-- A single insertion reads its height off the stream of its seed. -/
theorem oneStream_of_length_le {insertions : List (Insertion H)} (h : insertions.length ≤ 1) :
    OneStream printfHello insertions := by
  constructor
  · intro G gen fuel w g state levels _ hrun
    match insertions, h with
    | [], _ =>
      obtain ⟨-, rfl⟩ := Prod.mk.inj (Option.some.inj hrun)
      exact ⟨g, trivial⟩
    | [i], _ =>
      obtain ⟨newlevel, g', w', levels', hlevel, -, hrest, rfl⟩ := insertAll_cons hrun
      obtain ⟨-, rfl⟩ := Prod.mk.inj (Option.some.inj hrest)
      exact ⟨_, fuel, g', hlevel, trivial⟩
  · intro i j first second hij _ hj
    have hlt := (List.getElem?_eq_some_iff.mp hj).1
    omega

/-- The heights come from one stream exactly for at most one insertion. -/
theorem oneStream_iff (printfHello : H) (insertions : List (Insertion H)) :
    OneStream printfHello insertions ↔ insertions.length ≤ 1 := by
  constructor
  · intro hstream
    match insertions with
    | [] => exact Nat.zero_le 1
    | [_] => exact Nat.le_refl 1
    | first :: second :: rest => exact absurd hstream (not_oneStream printfHello first second rest)
  · exact oneStream_of_length_le

/-- Two timers added within a second. -/
theorem not_oneStream_second : ¬OneStream () [⟨1700000000, 10100, ()⟩, ⟨1700000000, 21040, ()⟩] :=
  not_oneStream () _ _ []

end CppProject.SkipListTimer
