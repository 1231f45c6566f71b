import Mathlib.Data.List.Infix
import Mathlib.Data.List.Induction

/-!
# Values quoted in a text

A text is built from values between quotes, and from gaps without a quote around them. A reader takes
literals out of a text one after another, each starting and ending with a quote and longer than its value
by two at least. When it gets the very values the text was built from, it has read each of them in
its own place: what one value adds to the text no other can make up for.
-/

namespace QuotedText

variable {α : Type*} {quote : α} {IsQuote : α → Prop} {Lit : List α → List α → Prop}

/-- The text of a gap, and of values each with the gap behind it. -/
def quoted (quote : α) (gap : List α) : List (List α × List α) → List α
  | [] => gap
  | (value, next) :: items => gap ++ quote :: (value ++ quote :: quoted quote next items)

/-- The text has literals of these values, in this order, and anything between them. -/
inductive Literals (Lit : List α → List α → Prop) : List α → List (List α) → Prop
  | nil (text : List α) : Literals Lit text []
  | cons {literal value text : List α} {values : List (List α)} (skipped : List α) :
    Lit literal value → Literals Lit text values → Literals Lit (skipped ++ (literal ++ text)) (value :: values)

/-- A literal starts and ends with a quote, and is longer than its value by two. -/
structure Delimited (IsQuote : α → Prop) (literal value : List α) : Prop where
  starts : ∃ a rest, literal = a :: rest ∧ IsQuote a
  ends : ∃ before a, literal = before ++ [a] ∧ IsQuote a
  length : value.length + 2 ≤ literal.length

/-- The literals of a part are literals of the whole. -/
theorem Literals.append_left {text : List α} {values : List (List α)} (h : Literals Lit text values)
    (front : List α) : Literals Lit (front ++ text) values := by
  cases h with
  | nil => exact .nil _
  | cons skipped hliteral hrest =>
    rw [← List.append_assoc]
    exact .cons (front ++ skipped) hliteral hrest

/-- The text in front of the first value. -/
theorem quoted_eq_append (gap : List α) (items : List (List α × List α)) :
    quoted quote gap items = gap ++ quoted quote [] items := by
  cases items with
  | nil => exact (List.append_nil gap).symm
  | cons => rfl

/-- What starts with a quote starts behind the gap. -/
theorem suffix_of_gap {gap rest text : List α} {a : α} (hgap : ∀ b ∈ gap, ¬ IsQuote b) (ha : IsQuote a)
    (h : a :: rest <:+ gap ++ text) : a :: rest <:+ text := by
  induction gap with
  | nil => exact h
  | cons b gap ih =>
    obtain ⟨hb, hgap⟩ := List.forall_mem_cons.mp hgap
    rcases List.suffix_cons_iff.mp h with heq | h
    · exact absurd ((List.cons.inj heq).1 ▸ ha) hb
    · exact ih hgap h

/-- A literal that ends within the gap ends at its start. -/
theorem eq_nil_of_ends {gap front rest : List α} (hgap : ∀ b ∈ gap, ¬ IsQuote b)
    (hends : ∃ before a, front = before ++ [a] ∧ IsQuote a) {skipped : List α} (h : skipped ++ front = rest ++ gap) :
    gap = [] := by
  obtain ⟨before, a, rfl, ha⟩ := hends
  cases gap using List.reverseRecOn with
  | nil => rfl
  | append_singleton gap b =>
    rw [← List.append_assoc, ← List.append_assoc] at h
    have hsame : a = b := (List.append_inj' h rfl).2 |> List.singleton_inj.mp
    exact absurd (hsame ▸ ha) (hgap b (by simp))

/-- Behind a literal that is long enough, nothing of the first quoted value is left. -/
theorem Delimited.rest_suffix {literal value gap rest text : List α} (h : Delimited IsQuote literal value)
    (hgap : ∀ b ∈ gap, ¬ IsQuote b) (hsuffix : literal ++ rest <:+ gap ++ quote :: (value ++ quote :: text)) :
    literal ++ rest <:+ quote :: (value ++ quote :: text) ∧ rest <:+ text := by
  have hbehind : literal ++ rest <:+ quote :: (value ++ quote :: text) := by
    obtain ⟨a, tail, rfl, ha⟩ := h.starts
    exact suffix_of_gap hgap ha hsuffix
  have hwhole : text <:+ quote :: (value ++ quote :: text) := ⟨quote :: (value ++ [quote]), by simp⟩
  refine ⟨hbehind, List.suffix_of_suffix_length_le ((List.suffix_append literal rest).trans hbehind) hwhole ?_⟩
  have hlength := h.length
  have hle := hbehind.length_le
  simp only [List.length_append, List.length_cons] at hle
  omega

/-- A literal within a quoted value and a part of the gap behind it is the quoted value. -/
theorem Delimited.eq_quoted {literal value before passed : List α} (h : Delimited IsQuote literal value)
    (hpassed : ∀ b ∈ passed, ¬ IsQuote b) (heq : before ++ literal = quote :: (value ++ [quote]) ++ passed) :
    literal = quote :: (value ++ [quote]) ∧ passed = [] := by
  obtain rfl : passed = [] := eq_nil_of_ends hpassed h.ends heq
  have hlen := congrArg List.length heq
  have hlength := h.length
  simp only [List.length_append, List.length_cons, List.length_nil] at hlen
  obtain rfl : before = [] := List.eq_nil_of_length_eq_zero (by omega)
  rw [List.append_nil] at heq
  exact ⟨heq, rfl⟩

/-- The first value, between its quotes. -/
theorem quoted_cons (gap value next : List α) (items : List (List α × List α)) :
    quoted quote gap ((value, next) :: items) =
      gap ++ (quote :: (value ++ [quote]) ++ (next ++ quoted quote [] items)) := by
  rw [quoted, quoted_eq_append next]
  simp

/-- A reader that gets the values of the items from the end of their text has passed over a part of the
first gap only, and has read every value between its own two quotes. -/
theorem aligned (hlit : ∀ literal value, Lit literal value → Delimited IsQuote literal value)
    {gap text : List α} {items : List (List α × List α)} (hgap : ∀ a ∈ gap, ¬ IsQuote a)
    (hitems : ∀ item ∈ items, ∀ a ∈ item.2, ¬ IsQuote a) (hsuffix : text <:+ quoted quote gap items)
    (hread : Literals Lit text (items.map Prod.fst)) :
    (∃ front, front <:+ gap ∧ text = front ++ quoted quote [] items) ∧
      ∀ item ∈ items, Lit (quote :: (item.1 ++ [quote])) item.1 := by
  induction items generalizing gap text with
  | nil => exact ⟨⟨text, hsuffix, (List.append_nil text).symm⟩, fun _ h => absurd h List.not_mem_nil⟩
  | cons item items ih =>
    obtain ⟨value, next⟩ := item
    obtain ⟨hnext, hitems⟩ := List.forall_mem_cons.mp hitems
    simp only [List.map_cons] at hnext hread
    cases hread with
    | @cons literal _ rest _ skipped hliteral hread =>
      have hdelimited : Delimited IsQuote literal value := hlit _ _ hliteral
      -- the literal starts no earlier than the first quote, so the rest starts no earlier than the next gap
      obtain ⟨⟨before, hbefore⟩, hrest⟩ :=
        hdelimited.rest_suffix hgap ((List.suffix_append skipped _).trans hsuffix)
      obtain ⟨⟨front, ⟨passed, hpassed⟩, rfl⟩, hall⟩ := ih hnext hitems hrest hread
      -- the rest starts in the next gap, so the literal ends where this gap starts
      have hends : before ++ literal = quote :: (value ++ [quote]) ++ passed := by
        rw [quoted_eq_append next, ← hpassed] at hbefore
        refine (List.append_left_inj (front ++ quoted quote [] items)).mp ?_
        simpa using hbefore
      obtain ⟨rfl, rfl⟩ := hdelimited.eq_quoted (fun a ha => hnext a (hpassed ▸ List.mem_append_left front ha)) hends
      rw [List.nil_append] at hpassed
      subst hpassed
      refine ⟨⟨skipped, ?_, by rw [quoted_cons, List.nil_append]⟩, List.forall_mem_cons.mpr ⟨hliteral, hall⟩⟩
      rw [quoted_cons] at hsuffix
      obtain ⟨start, hstart⟩ := hsuffix
      exact ⟨start, List.append_cancel_right (by rw [List.append_assoc]; exact hstart)⟩

end QuotedText
