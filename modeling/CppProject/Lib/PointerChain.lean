import Mathlib.Logic.Function.Basic
import Mathlib.Data.List.Nodup
import Mathlib.Data.List.Lemmas

/-!
# Null-terminated pointer chains

A chain is read off a successor function `next : α → Option α`, with `none` for the null
pointer. The visited cells are listed explicitly, so that a chain is finite by construction;
`Chain.nodup` shows that it is then also acyclic. A list with a header cell is the chain
that starts at the header.

The update lemmas are stated for `Function.update`, one per way of editing a link: writing
outside the chain, linking a fresh cell behind a visited one, and unlinking the cell behind
a visited one.
-/

namespace PointerChain

variable {α : Type*}

/-- Following `next` from `p` visits exactly the listed cells, in order, and ends at null. -/
def Chain (next : α → Option α) : Option α → List α → Prop
  | p, [] => p = none
  | p, a :: rest => p = some a ∧ Chain next (next a) rest

instance Chain.decidable [DecidableEq α] (next : α → Option α) :
    (p : Option α) → (cells : List α) → Decidable (Chain next p cells)
  | p, [] => inferInstanceAs (Decidable (p = none))
  | p, a :: rest =>
    have := Chain.decidable next (next a) rest
    inferInstanceAs (Decidable (p = some a ∧ Chain next (next a) rest))

/-- No elements: the pointer is null. -/
@[simp] theorem chain_nil {next : α → Option α} {p : Option α} : Chain next p [] ↔ p = none := Iff.rfl

/-- The pointer leads to the first element, whose own leads to the others. -/
@[simp] theorem chain_cons {next : α → Option α} {p : Option α} {a : α} {rest : List α} :
    Chain next p (a :: rest) ↔ p = some a ∧ Chain next (next a) rest := Iff.rfl

/-- The start of a chain is its first cell, or null for the empty chain. -/
theorem Chain.head?_eq {next : α → Option α} {p : Option α} {cells : List α}
    (h : Chain next p cells) : p = cells.head? := by
  cases cells with
  | nil => exact h
  | cons a rest => exact h.1

/-- A chain that starts at null visits nothing. -/
theorem Chain.eq_nil {next : α → Option α} {cells : List α} (h : Chain next none cells) :
    cells = [] := by
  cases cells with
  | nil => rfl
  | cons a rest => exact absurd h.1 (by simp)

/-- The successor function determines the visited cells. -/
theorem Chain.unique {next : α → Option α} {p : Option α} {left right : List α}
    (hleft : Chain next p left) (hright : Chain next p right) : left = right := by
  induction left generalizing p right with
  | nil =>
    rw [chain_nil] at hleft
    subst hleft
    exact hright.eq_nil.symm
  | cons a rest ih =>
    obtain ⟨rfl, htail⟩ := hleft
    cases right with
    | nil => exact absurd hright (by simp)
    | cons b rest' =>
      obtain ⟨heq, htail'⟩ := hright
      obtain rfl : a = b := Option.some.inj heq
      rw [ih htail htail']

/-- The cells behind a visited cell form the chain of its successor. -/
theorem Chain.tail {next : α → Option α} {p : Option α} {before after : List α} {a : α}
    (h : Chain next p (before ++ a :: after)) : Chain next (next a) after := by
  induction before generalizing p with
  | nil => exact h.2
  | cons b before ih => exact ih h.2

/-- The successor of a visited cell is the next listed cell. -/
theorem Chain.next_eq {next : α → Option α} {p : Option α} {before after : List α} {a : α}
    (h : Chain next p (before ++ a :: after)) : next a = after.head? :=
  h.tail.head?_eq

/-- Following the links from a visited cell leads through the cells behind it, one by one. -/
theorem Chain.iterate {next : α → Option α} {p : Option α} {before after : List α} {a : α}
    (h : Chain next p (before ++ a :: after)) (n : ℕ) :
    (fun q : Option α => q.bind next)^[n] (some a) = (a :: after)[n]? := by
  induction n generalizing before a after with
  | zero => rfl
  | succ n ih =>
    rw [Function.iterate_succ_apply, Option.bind_some, h.next_eq, List.getElem?_cons_succ]
    cases after with
    | nil =>
      rw [List.head?_nil, Function.iterate_fixed rfl]
      rfl
    | cons b after =>
      have hsplit : Chain next p ((before ++ [a]) ++ b :: after) := by simpa using h
      exact ih hsplit

/-- A finite chain is acyclic: no cell is visited twice. -/
theorem Chain.nodup {next : α → Option α} {p : Option α} {cells : List α}
    (h : Chain next p cells) : cells.Nodup := by
  induction cells generalizing p with
  | nil => exact List.nodup_nil
  | cons a rest ih =>
    refine List.nodup_cons.mpr ⟨fun hmem => ?_, ih h.2⟩
    -- A second visit to `a` would make the remaining chain equal to its own proper suffix.
    obtain ⟨before, after, rfl⟩ := List.append_of_mem hmem
    have hsame := congrArg List.length (h.2.unique (h.2.tail : Chain next (next a) after))
    simp only [List.length_append, List.length_cons] at hsame
    omega

/-- Writes outside the visited cells leave the chain in place. -/
theorem Chain.congr {next next' : α → Option α} {p : Option α} {cells : List α}
    (h : Chain next p cells) (hsame : ∀ a ∈ cells, next' a = next a) : Chain next' p cells := by
  induction cells generalizing p with
  | nil => exact h
  | cons a rest ih =>
    refine ⟨h.1, ?_⟩
    rw [hsame a List.mem_cons_self]
    exact ih h.2 (fun b hb => hsame b (List.mem_cons_of_mem a hb))

/-- Replacing the link of one visited cell replaces the rest of the chain. -/
theorem Chain.redirect [DecidableEq α] {next : α → Option α} {p q : Option α}
    {before after after' : List α} {a : α} (h : Chain next p (before ++ a :: after))
    (hafter : Chain (Function.update next a q) q after') :
    Chain (Function.update next a q) p (before ++ a :: after') := by
  have hnodup := h.nodup
  induction before generalizing p with
  | nil => exact ⟨h.1, by simpa using hafter⟩
  | cons b before ih =>
    have hne : b ≠ a := by
      rintro rfl
      simp at hnodup
    refine ⟨h.1, ?_⟩
    rw [Function.update_of_ne hne]
    exact ih h.2 (List.nodup_cons.mp hnodup).2

/-- Linking a fresh cell `x` behind a visited cell `a`: first `x` takes over `a`'s successor,
then `a` points at `x`. -/
theorem Chain.link [DecidableEq α] {next : α → Option α} {p : Option α}
    {before after : List α} {a x : α} (h : Chain next p (before ++ a :: after))
    (hfresh : x ∉ before ++ a :: after) :
    Chain (Function.update (Function.update next x (next a)) a (some x)) p
      (before ++ a :: x :: after) := by
  have hx : Chain (Function.update next x (next a)) p (before ++ a :: after) := by
    apply h.congr
    intro b hb
    have hbx : b ≠ x := fun hbx => hfresh (hbx ▸ hb)
    exact Function.update_of_ne hbx _ _
  apply hx.redirect
  have hne : x ≠ a := fun hxa => hfresh (by simp [hxa])
  have ha : a ∉ after := fun hmem => by
    have := (List.nodup_append.mp h.nodup).2.1
    exact (List.nodup_cons.mp this).1 hmem
  refine ⟨rfl, ?_⟩
  rw [Function.update_of_ne hne, Function.update_self]
  apply h.tail.congr
  intro b hb
  have hba : b ≠ a := fun hba => ha (hba ▸ hb)
  have hbx : b ≠ x := fun hbx => hfresh (by simp [← hbx, hb])
  rw [Function.update_of_ne hba, Function.update_of_ne hbx]

/-- Unlinking the cell `x` behind a visited cell `a`: `a` takes over `x`'s successor. -/
theorem Chain.unlink [DecidableEq α] {next : α → Option α} {p : Option α}
    {before after : List α} {a x : α} (h : Chain next p (before ++ a :: x :: after)) :
    Chain (Function.update next a (next x)) p (before ++ a :: after) := by
  apply h.redirect
  have ha : a ∉ after := fun hmem => by
    have := (List.nodup_append.mp h.nodup).2.1
    exact (List.nodup_cons.mp this).1 (List.mem_cons_of_mem x hmem)
  have hx : Chain next (next x) after := h.tail.2
  apply hx.congr
  intro b hb
  have hba : b ≠ a := fun hba => ha (hba ▸ hb)
  exact Function.update_of_ne hba _ _

end PointerChain
