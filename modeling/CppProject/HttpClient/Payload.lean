import CppProject.HttpClient.ReceiveErrors

/-!
# Zero bytes in a response

The length of `result` is the length of a string: it ends at the first zero byte. Of a piece with a zero byte
`strncat` copies what stands before it, and the next piece is written over the rest. So the response is
preserved exactly if it has no zero byte except possibly at its end, where the zero byte of the string
stands for it.
-/

namespace CppProject.HttpClient

open CString

variable {chunks : List (List UInt8)} {memory : ℕ → ℕ → UInt8} {buffer : Block}

/-- The pieces `recv` may return before the end of the file. -/
def Pieces (chunks : List (List UInt8)) : Prop := ∀ c ∈ chunks, c ≠ [] ∧ c.length ≤ requestBufferSize

/-- The memory returned begins with the response, and the string in it is the same however the response
is cut into pieces. -/
structure PreservesPayload (chunks : List (List UInt8)) : Prop where
  complete : ∀ memory buffer, buffer.length = requestBufferSize →
    ∃ block, resultBlock memory buffer (arriving chunks) = some block ∧ chunks.flatten <+: block
  cut : ∀ chunks', Pieces chunks' → chunks'.flatten = chunks.flatten → ∀ memory memory' buffer buffer',
    buffer.length = requestBufferSize → buffer'.length = requestBufferSize →
      resultString memory buffer (arriving chunks) = resultString memory' buffer' (arriving chunks')

/-- Pieces of a response fit the buffer. -/
theorem Pieces.fitsBuffer (h : Pieces chunks) : FitsBuffer (arriving chunks) :=
  fitsBuffer_arriving fun c hc => (h c hc).2

/-- Zero bytes at the end only: a piece that is not the last has none. -/
theorem zero_not_mem_piece {c : List UInt8} (hchunks : Pieces chunks) (hne : chunks ≠ [])
    (hzero : 0 ∉ (c ++ chunks.flatten).dropLast) : 0 ∉ c ∧ 0 ∉ chunks.flatten.dropLast := by
  have hflatten : chunks.flatten ≠ [] := fun h => by
    obtain ⟨d, rest, rfl⟩ := List.exists_cons_of_ne_nil hne
    exact (hchunks d List.mem_cons_self).1 (List.append_eq_nil_iff.mp h).1
  rw [List.dropLast_append_of_ne_nil hflatten] at hzero
  exact not_or.mp (List.mem_append.not.mp hzero)

/-- What is kept of such a response. -/
theorem kept_arriving_eq (hchunks : Pieces chunks) (hzero : 0 ∉ chunks.flatten.dropLast) :
    kept (arriving chunks) = untilZero chunks.flatten := by
  induction chunks with
  | nil => rfl
  | cons c chunks ih =>
    obtain ⟨⟨hc, -⟩, hrest⟩ := List.forall_mem_cons.mp hchunks
    rw [arriving, List.map_cons, List.cons_append, kept, if_neg hc, ← arriving, List.flatten_cons]
    by_cases hlast : chunks = []
    · subst hlast
      simp [arriving, kept]
    · obtain ⟨hzeroc, hzero⟩ := zero_not_mem_piece hrest hlast hzero
      rw [untilZero_of_not_mem hzeroc, untilZero_append hzeroc, ih hrest hzero]

/-- Such a response is smaller than the address space if the loop does not fail. -/
theorem size_of_fits (hchunks : Pieces chunks) (hzero : 0 ∉ chunks.flatten.dropLast) {n : ℕ} (hn : n + 1 < 2 ^ 64)
    (hfits : Fits n (arriving chunks)) : n + chunks.flatten.length + 1 < 2 ^ 64 := by
  induction chunks generalizing n with
  | nil => exact hn
  | cons c chunks ih =>
    obtain ⟨⟨hc, -⟩, hrest⟩ := List.forall_mem_cons.mp hchunks
    obtain ⟨hsize, hfits⟩ := hfits.resolve_left hc
    rw [List.flatten_cons] at hzero
    rw [List.flatten_cons, List.length_append]
    by_cases hlast : chunks = []
    · subst hlast
      simpa using hsize
    · obtain ⟨hzeroc, hzero⟩ := zero_not_mem_piece hrest hlast hzero
      rw [untilZero_of_not_mem hzeroc] at hfits
      have := ih hrest hzero hsize hfits
      omega

/-- A byte list with a zero byte at its end only is its string, with the zero byte behind it or not. -/
theorem prefix_untilZero {bytes : List UInt8} (hzero : 0 ∉ bytes.dropLast) (rest : Block) :
    bytes <+: untilZero bytes ++ 0 :: rest := by
  by_cases hempty : bytes = []
  · rw [hempty]
    exact List.nil_prefix
  · rw [← List.dropLast_append_getLast hempty, untilZero_append hzero]
    by_cases hlast : bytes.getLast hempty = 0
    · simp [hlast, untilZero]
    · simp [hlast, untilZero]

/-- Where a zero byte stands within the response, the memory behind the string decides. -/
theorem zero_not_mem_dropLast {bytes s : List UInt8} (hs : 0 ∉ s)
    (hbegins : ∀ c, ∃ rest, (∀ b ∈ rest, b = c) ∧ bytes <+: s ++ 0 :: rest) : 0 ∉ bytes.dropLast := by
  intro hmem
  obtain ⟨before, after, hsplit, hbefore⟩ := List.eq_append_cons_of_mem hmem
  have hne : bytes ≠ [] := fun h => by simp [h] at hmem
  obtain ⟨b, after', hafter⟩ : ∃ b after', after ++ [bytes.getLast hne] = b :: after' :=
    List.exists_cons_of_ne_nil (by simp)
  have hbytes : bytes = before ++ 0 :: b :: after' := by
    calc bytes = bytes.dropLast ++ [bytes.getLast hne] := (List.dropLast_append_getLast hne).symm
      _ = before ++ 0 :: (after ++ [bytes.getLast hne]) := by rw [hsplit, List.append_assoc, List.cons_append]
      _ = before ++ 0 :: b :: after' := by rw [hafter]
  -- memory that does not hold the byte behind the zero byte
  obtain ⟨rest, hrest, tail, hprefix⟩ := hbegins (b + 1)
  rw [hbytes, List.append_assoc, List.cons_append] at hprefix
  have hsame : before = s := by
    have hstring := congrArg string hprefix
    rw [string_append_zero hbefore, string_append_zero hs] at hstring
    exact Option.some.inj hstring
  rw [hsame] at hprefix
  have hb : b ∈ rest := by
    rw [← (List.cons.inj (List.append_cancel_left hprefix)).2]
    exact List.mem_cons_self
  exact absurd (left_eq_add.mp (hrest b hb)) (by decide)

/-- The response is preserved if and only if it has no zero byte except possibly at its end, and with the
zero byte of the string it is smaller than the address space. -/
theorem preservesPayload_iff (hchunks : Pieces chunks) :
    PreservesPayload chunks ↔ 0 ∉ chunks.flatten.dropLast ∧ chunks.flatten.length + 1 < 2 ^ 64 := by
  constructor
  · intro h
    have hlen : (List.replicate requestBufferSize (0 : UInt8)).length = requestBufferSize := List.length_replicate
    have hfits : Fits 0 (arriving chunks) := by
      by_contra hnot
      obtain ⟨block, hsome, -⟩ := h.complete (fun _ _ => 0) _ hlen
      rw [resultBlock_eq_none hchunks.fitsBuffer hlen hnot] at hsome
      exact nomatch hsome
    have hzero : 0 ∉ chunks.flatten.dropLast := by
      refine zero_not_mem_dropLast (zero_not_mem_kept (arriving chunks)) fun c => ?_
      obtain ⟨rest, hresult, hrest⟩ := resultBlock_of_fits hchunks.fitsBuffer hlen hfits fun _ _ => c
      obtain ⟨block, hsome, hprefix⟩ := h.complete (fun _ _ => c) _ hlen
      obtain rfl : _ = block := Option.some.inj (hresult.symm.trans hsome)
      exact ⟨rest, fun b hb => (hrest b hb).elim fun _ ⟨_, hc⟩ => hc.symm, hprefix⟩
    have hsize := size_of_fits hchunks hzero (by decide) hfits
    exact ⟨hzero, by rwa [Nat.zero_add] at hsize⟩
  · intro ⟨hzero, hsize⟩
    have hstring : ∀ chunks', Pieces chunks' → chunks'.flatten = chunks.flatten → ∀ memory buffer,
        buffer.length = requestBufferSize →
          resultString memory buffer (arriving chunks') = some (untilZero chunks.flatten) := by
      intro chunks' hchunks' hsame memory buffer hlen
      rw [resultString_of_fits hchunks'.fitsBuffer hlen (fits_arriving (by rw [hsame]; omega)),
        kept_arriving_eq hchunks' (hsame ▸ hzero), hsame]
    refine ⟨fun memory buffer hlen => ?_, fun chunks' hchunks' hsame memory memory' buffer buffer' hlen hlen' => ?_⟩
    · obtain ⟨rest, hresult, -⟩ := resultBlock_of_fits hchunks.fitsBuffer hlen (fits_arriving (by omega)) memory
      refine ⟨_, hresult, ?_⟩
      rw [kept_arriving_eq hchunks hzero]
      exact prefix_untilZero hzero rest
    · rw [hstring chunks hchunks rfl memory buffer hlen, hstring chunks' hchunks' hsame memory' buffer' hlen']

/-- A response without zero bytes, in two pieces. -/
theorem preservesPayload_iff_two : PreservesPayload [[72, 73], [74]] ↔
    0 ∉ ([[72, 73], [74]] : List (List UInt8)).flatten.dropLast ∧
      ([[72, 73], [74]] : List (List UInt8)).flatten.length + 1 < 2 ^ 64 :=
  preservesPayload_iff (by simp [Pieces, requestBufferSize])

/-- Of the response 72, 0, 73 the zero byte is lost or the byte behind it, depending on the pieces. -/
theorem not_preservesPayload_zero : (∀ memory buffer, buffer.length = requestBufferSize →
    resultString memory buffer (arriving [[72, 0], [73]]) = some [72, 73] ∧
      resultString memory buffer (arriving [[72, 0, 73]]) = some [72]) ∧
        ¬ PreservesPayload [[72, 0], [73]] := by
  have hpieces : Pieces [[72, 0], [73]] := by simp [Pieces, requestBufferSize]
  have hwhole : Pieces [[72, 0, 73]] := by simp [Pieces, requestBufferSize]
  have hstrings : ∀ memory buffer, buffer.length = requestBufferSize →
      resultString memory buffer (arriving [[72, 0], [73]]) = some [72, 73] ∧
        resultString memory buffer (arriving [[72, 0, 73]]) = some [72] := fun memory buffer hlen =>
    ⟨resultString_of_fits hpieces.fitsBuffer hlen (fits_arriving (by decide)) memory,
      resultString_of_fits hwhole.fitsBuffer hlen (fits_arriving (by decide)) memory⟩
  refine ⟨hstrings, fun h => ?_⟩
  have hlen : (List.replicate requestBufferSize (0 : UInt8)).length = requestBufferSize := List.length_replicate
  have hsame := h.cut [[72, 0, 73]] hwhole rfl (fun _ _ => 0) (fun _ _ => 0) _ _ hlen hlen
  rw [(hstrings _ _ hlen).1, (hstrings _ _ hlen).2] at hsame
  exact absurd hsame (by decide)

end CppProject.HttpClient
