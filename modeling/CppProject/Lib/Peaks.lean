import Mathlib.Order.Lattice
import Mathlib.Data.List.Basic

/-!
# Peaks of a list

The elements of a list behind which nothing is higher. A list in two parts, the second lower than the last of the
first, has the peaks of the second part behind the highest elements of the first.
-/

namespace Peaks

variable {α β : Type*} [LinearOrder β] {h : α → β}

/-- The elements with nothing higher behind them, in order. -/
def peaks (h : α → β) : List α → List α
  | [] => []
  | a :: rest => if ∀ b ∈ rest, h b ≤ h a then a :: peaks h rest else peaks h rest

/-- Where no element is higher than another, all are peaks. -/
theorem peaks_eq_self {top : β} {list : List α} (hsame : ∀ a ∈ list, h a = top) : peaks h list = list := by
  induction list with
  | nil => rfl
  | cons a rest ih =>
    obtain ⟨ha, hrest⟩ := List.forall_mem_cons.mp hsame
    rw [peaks, if_pos fun b hb => ((hrest b hb).trans ha.symm).le, ih hrest]

/-- A list that ends at its top, and a lower one behind it. -/
theorem peaks_append {top : β} {left right : List α} (hle : ∀ a ∈ left, h a ≤ top)
    (hlast : ∀ a ∈ left.getLast?, h a = top) (hlt : ∀ b ∈ right, h b < top) :
    peaks h (left ++ right) = left.filter (fun a => h a = top) ++ peaks h right := by
  induction left with
  | nil => rfl
  | cons a rest ih =>
    obtain ⟨ha, hrest⟩ := List.forall_mem_cons.mp hle
    have htail : ∀ b ∈ rest.getLast?, h b = top := fun b hb => hlast b (by
      cases rest with
      | nil => exact absurd hb nofun
      | cons c rest => rwa [List.getLast?_cons_cons])
    rw [List.cons_append, peaks, ih hrest htail]
    by_cases htop : h a = top
    · have hall : ∀ b ∈ rest ++ right, h b ≤ h a := fun b hb => by
        rw [htop]
        exact (List.mem_append.mp hb).elim (hrest b) fun hb => (hlt b hb).le
      rw [if_pos hall, List.filter_cons_of_pos (by simpa using htop), List.cons_append]
    · have hhigher : ¬ ∀ b ∈ rest ++ right, h b ≤ h a := fun hall => by
        obtain ⟨last, hmem⟩ : ∃ last, last ∈ rest.getLast? := by
          cases rest with
          | nil => exact absurd (hlast a rfl) htop
          | cons c rest => exact ⟨_, List.getLast?_eq_some_getLast (List.cons_ne_nil c rest)⟩
        have hup := hall last (List.mem_append_left _ (List.mem_of_getLast? hmem))
        rw [htail last hmem] at hup
        exact htop (le_antisymm ha hup)
      rw [if_neg hhigher, List.filter_cons_of_neg (by simpa using htop)]

end Peaks
