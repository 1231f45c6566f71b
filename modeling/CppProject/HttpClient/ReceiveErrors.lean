import CppProject.HttpClient.SendRequest

/-!
# A `recv` that fails

After a `recv` that returns -1 the loop of `send_request` goes on as after any other: `realloc` is asked for
`strlen(result)` bytes, which leaves no room for the zero byte, and `strncat` may append without a bound. So the
loop is safe exactly as long as no `recv` fails and the response is smaller than the address space.
-/

namespace CppProject.HttpClient

open CString

variable {rounds before after : List Round} {memory : ℕ → ℕ → UInt8} {buffer : Block}

/-- `result` after some rounds of the loop of `send_request`, with any contents of `buffer` before. -/
def resultBlock (memory : ℕ → ℕ → UInt8) (buffer : Block) (rounds : List Round) : Option Block :=
  receive memory rounds ((malloc 4 (memory rounds.length)).set 0 0) buffer

/-- The string that `result` then is. -/
def resultString (memory : ℕ → ℕ → UInt8) (buffer : Block) (rounds : List Round) : Option (List UInt8) :=
  (resultBlock memory buffer rounds).bind string

/-- The loop as a whole, from the empty string. -/
theorem resultBlock_of_fits (hrounds : FitsBuffer rounds) (hbuffer : buffer.length = requestBufferSize)
    (hfits : Fits 0 rounds) (memory : ℕ → ℕ → UInt8) :
    ∃ rest, resultBlock memory buffer rounds = some (kept rounds ++ 0 :: rest) ∧ ∀ b ∈ rest, ∃ i j, memory i j = b := by
  obtain ⟨garbage, hmalloc, hgarbage⟩ := malloc_set_zero 3 (memory rounds.length)
  obtain ⟨rest, hreceive, hrest⟩ := receive_of_fits hrounds memory (s := []) List.not_mem_nil hfits garbage hbuffer
  refine ⟨rest, ?_, fun b hb => ?_⟩
  · rw [resultBlock, hmalloc]
    exact hreceive
  · rcases hrest b hb with hold | hnew
    · obtain ⟨j, hj⟩ := hgarbage b hold
      exact ⟨_, j, hj⟩
    · exact hnew

/-- Rounds that do not fit write beyond the string. -/
theorem resultBlock_eq_none (hrounds : FitsBuffer rounds) (hbuffer : buffer.length = requestBufferSize)
    (hfits : ¬ Fits 0 rounds) (memory : ℕ → ℕ → UInt8) : resultBlock memory buffer rounds = none := by
  obtain ⟨garbage, hmalloc, -⟩ := malloc_set_zero 3 (memory rounds.length)
  rw [resultBlock, hmalloc]
  exact receive_eq_none hrounds memory (s := []) List.not_mem_nil (by decide) hfits garbage hbuffer

/-- The string at the end of the loop is what was kept. -/
theorem resultString_of_fits (hrounds : FitsBuffer rounds) (hbuffer : buffer.length = requestBufferSize)
    (hfits : Fits 0 rounds) (memory : ℕ → ℕ → UInt8) : resultString memory buffer rounds = some (kept rounds) := by
  obtain ⟨rest, hresult, -⟩ := resultBlock_of_fits hrounds hbuffer hfits memory
  have hzero : 0 ∉ kept rounds := zero_not_mem_kept rounds
  rw [resultString, hresult, Option.bind_some, string_append_zero hzero]

/-! ## Safety -/

/-- After every round `result` is a string and nothing has been written beyond a block, and a `recv` that fails
leaves the string as it was. -/
structure ReceivesSafely (rounds : List Round) : Prop where
  string : ∀ memory buffer, buffer.length = requestBufferSize → ∀ before, before <+: rounds →
    (resultString memory buffer before).isSome
  unchanged : ∀ memory buffer, buffer.length = requestBufferSize → ∀ before, before ++ [.failed] <+: rounds →
    resultString memory buffer (before ++ [.failed]) = resultString (fun i => memory (i + 1)) buffer before

/-- A `recv` fails before the loop ends. -/
def Fails : List Round → Prop
  | [] => False
  | .timeout :: _ => False
  | .failed :: _ => True
  | .received bytes :: rounds => bytes ≠ [] ∧ Fails rounds

/-- Without zero bytes, the loop fits if no `recv` fails and the response is small enough. -/
theorem fits_iff (hzero : ∀ bytes, .received bytes ∈ rounds → 0 ∉ bytes) {n : ℕ} (hn : n + 1 < 2 ^ 64) :
    Fits n rounds ↔ ¬ Fails rounds ∧ n + (kept rounds).length + 1 < 2 ^ 64 := by
  induction rounds generalizing n with
  | nil => exact iff_of_true trivial ⟨id, hn⟩
  | cons r rounds ih =>
    cases r with
    | timeout => exact iff_of_true trivial ⟨id, hn⟩
    | failed => exact iff_of_false id fun h => h.1 trivial
    | received bytes =>
      have hrest := fun bytes' hmem => hzero bytes' (List.mem_cons_of_mem _ hmem)
      rw [Fits, Fails, kept, untilZero_of_not_mem (hzero bytes List.mem_cons_self)]
      by_cases hbytes : bytes = []
      · simpa [hbytes] using hn
      · rw [if_neg hbytes, List.length_append]
        constructor
        · intro h
          obtain ⟨hsize, hfits⟩ := h.resolve_left hbytes
          obtain ⟨hfails, hlen⟩ := (ih hrest hsize).mp hfits
          exact ⟨fun hfailed => hfails hfailed.2, by omega⟩
        · rintro ⟨hfails, hlen⟩
          have hsize : n + bytes.length + 1 < 2 ^ 64 := by omega
          exact Or.inr ⟨hsize, (ih hrest hsize).mpr ⟨fun hfailed => hfails ⟨hbytes, hfailed⟩, by omega⟩⟩

/-- Rounds that fit begin with rounds that fit. -/
theorem Fits.of_append {n : ℕ} (h : Fits n (before ++ after)) : Fits n before := by
  induction before generalizing n with
  | nil => trivial
  | cons r before ih =>
    cases r with
    | timeout => trivial
    | failed => exact h
    | received bytes => exact h.imp_right fun ⟨hsize, hfits⟩ => ⟨hsize, ih hfits⟩

/-- A failed round adds nothing to the string. -/
theorem kept_append_failed (before : List Round) : kept (before ++ [.failed]) = kept before := by
  induction before with
  | nil => rfl
  | cons r before ih =>
    cases r with
    | timeout => rfl
    | failed => exact ih
    | received bytes => rw [List.cons_append, kept, kept, ih]

/-- The loop is safe if and only if no `recv` fails before it ends, and the response with its zero byte is
smaller than the address space. -/
theorem receivesSafely_iff
    (hrounds : ∀ bytes, .received bytes ∈ rounds → bytes.length ≤ requestBufferSize ∧ 0 ∉ bytes) :
    ReceivesSafely rounds ↔ ¬ Fails rounds ∧ (kept rounds).length + 1 < 2 ^ 64 := by
  have hbuffer : FitsBuffer rounds := fun bytes hbytes => (hrounds bytes hbytes).1
  have hfits := fits_iff (fun bytes hbytes => (hrounds bytes hbytes).2) (by decide : 0 + 1 < 2 ^ 64)
  rw [Nat.zero_add] at hfits
  rw [← hfits]
  constructor
  · intro h
    by_contra hnot
    have hlen : (List.replicate requestBufferSize (0 : UInt8)).length = requestBufferSize := List.length_replicate
    have hnone := resultBlock_eq_none hbuffer hlen hnot fun _ _ => 0
    have hsome := h.string (fun _ _ => 0) _ hlen rounds List.prefix_rfl
    rw [resultString, hnone] at hsome
    exact nomatch hsome
  · intro h
    have hprefix : ∀ before, before <+: rounds → FitsBuffer before ∧ Fits 0 before := fun before ⟨after, heq⟩ =>
      ⟨fun bytes hbytes => hbuffer bytes (heq ▸ List.mem_append_left _ hbytes),
        (show Fits 0 (before ++ after) from heq ▸ h).of_append⟩
    refine ⟨fun memory buffer hlen before hbefore => ?_, fun memory buffer hlen before hbefore => ?_⟩
    · obtain ⟨hfit, hfits⟩ := hprefix before hbefore
      rw [resultString_of_fits hfit hlen hfits]
      rfl
    · obtain ⟨hfit, hfits⟩ := hprefix _ hbefore
      obtain ⟨hfit', hfits'⟩ := hprefix before ((List.prefix_append _ _).trans hbefore)
      rw [resultString_of_fits hfit hlen hfits, resultString_of_fits hfit' hlen hfits', kept_append_failed]

/-- Two pieces and the end of the file. -/
theorem receivesSafely_iff_two : ReceivesSafely [.received [72], .received [73], .received []] ↔
    ¬ Fails [.received [72], .received [73], .received []] ∧
      (kept [.received [72], .received [73], .received []]).length + 1 < 2 ^ 64 :=
  receivesSafely_iff (by simp [requestBufferSize])

/-- A piece, and a `recv` that fails: `realloc` cuts the zero byte off. -/
theorem not_receivesSafely_failed :
    (∀ memory buffer, buffer.length = requestBufferSize → resultString memory buffer [.received [72]] = some [72] ∧
      resultBlock memory buffer [.received [72], .failed] = none) ∧
        ¬ ReceivesSafely [.received [72], .failed] := by
  have hbuffer : FitsBuffer [.received [72], .failed] := by simp [FitsBuffer, requestBufferSize]
  have hfirst : FitsBuffer [.received [72]] := by simp [FitsBuffer, requestBufferSize]
  have hnot : ¬ Fits 0 [.received [72], .failed] := by simp [Fits]
  have hnone := fun memory (buffer : Block) (hlen : buffer.length = requestBufferSize) =>
    resultBlock_eq_none hbuffer hlen hnot memory
  refine ⟨fun memory buffer hlen => ⟨?_, hnone memory buffer hlen⟩, fun h => ?_⟩
  · exact resultString_of_fits hfirst hlen (by simp [Fits]) memory
  · have hsome := h.string (fun _ _ => 0) (List.replicate requestBufferSize 0) List.length_replicate _ List.prefix_rfl
    rw [resultString, hnone _ _ List.length_replicate] at hsome
    exact Bool.false_ne_true hsome

end CppProject.HttpClient
