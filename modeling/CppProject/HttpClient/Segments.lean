import CppProject.HttpClient.AsyncClient

/-!
# Responses in pieces

The callback of a request gets what one `recv` into a buffer of 4096 zero bytes has left there. That is the
whole response only if it arrives in one piece and leaves room for a zero byte; the synchronous client puts
together whatever arrives.
-/

namespace CppProject.HttpClient

open CString

variable {C : Type*} {s : State C} {chunks chunks' : List (List UInt8)} {result : Option (List UInt8)}

/-! ## What is passed on -/

/-- In a state that is reached, the callback thread receives the first of the pieces, and passes the result to the
callback of the request. -/
structure Passes (s : State C) (chunks : List (List UInt8)) (result : Option (List UInt8)) : Prop where
  reachable : Transition.Reachable (· = State.init) Step s
  steps : ∃ s₁ s₂, Step s (.event (.recv (chunks.headD []))) s₁ ∧ Step s₁ (.event .callback) s₂ ∧
    ∃ arg : EpArg C, s₂.log arg.owner = s.log arg.owner ++ [.called arg.cb (string arg.hostname) result]

/-- Whenever the response arrives in the given pieces, the callback gets the whole response, the same as `send_request`
returns, and the same when it arrives in the other pieces. -/
structure Delivers (C : Type*) (chunks chunks' : List (List UInt8)) : Prop where
  whole : ∀ (s : State C) (result : Option (List UInt8)), Passes s chunks result → result = some chunks.flatten
  synchronous : ∀ (s : State C) (result : Option (List UInt8)), Passes s chunks result →
    ∀ memory hostname resource, (requestText resource hostname).length < requestBufferSize →
      (∀ c ∈ chunks, c.length ≤ requestBufferSize) →
      result = (sendRequest memory hostname resource (arriving chunks)).bind string
  segments : ∀ (s s' : State C) (result result' : Option (List UInt8)), Passes s chunks result →
    Passes s' chunks' result' → result' = result

/-- The string in the buffer after the one `recv` of the first piece. -/
def callbackString (chunks : List (List UInt8)) : Option (List UInt8) :=
  (recvBuffer (chunks.headD [])).bind string

/-- This is the string that the callback thread passes on. -/
theorem callback_called {s₁ s₂ : State C} (hrecv : Step s (.event (.recv (chunks.headD []))) s₁)
    (hcallback : Step s₁ (.event .callback) s₂) : ∃ arg : EpArg C, s₂.log = Function.update s.log arg.owner
      (s.log arg.owner ++ [.called arg.cb (string arg.hostname) (callbackString chunks)]) := by
  rw [Step, State.next] at hrecv
  split at hrecv
  · contradiction
  · next data rest hevents =>
    rw [State.eventStep] at hrecv
    split at hrecv
    · obtain ⟨arg, harg, hrecv⟩ := Option.bind_eq_some_iff.mp hrecv
      obtain ⟨buffer, hbuffer, rfl⟩ := Option.map_eq_some_iff.mp hrecv
      rw [Step, State.next, hevents] at hcallback
      obtain ⟨arg', -, rfl⟩ := Option.map_eq_some_iff.mp hcallback
      refine ⟨arg', ?_⟩
      rw [callbackString, hbuffer, Option.bind_some]
      rfl
    · contradiction

/-- Nothing else is passed on. -/
theorem Passes.result_eq (h : Passes s chunks result) : result = callbackString chunks := by
  obtain ⟨s₁, s₂, hrecv, hcallback, arg, hlog⟩ := h.steps
  obtain ⟨arg', hlog'⟩ := callback_called hrecv hcallback
  rw [hlog'] at hlog
  by_cases howner : arg.owner = arg'.owner
  · rw [howner, Function.update_self] at hlog
    exact (Event.called.inj (List.cons.inj (List.append_cancel_left hlog)).1).2.2.symm
  · rw [Function.update_of_ne howner] at hlog
    exact absurd (List.self_eq_append_right.mp hlog) (List.cons_ne_nil _ _)

/-- A state in which the callback thread is at the event of a request. -/
theorem exists_reported (cb : C) : ∃ s : State C, Transition.Reachable (· = State.init) Step s ∧ s.phase = .start ∧
    s.events = [0] ∧ (s.heap 0).isSome := by
  have hfits : (requestText [] [] ++ [0]).length ≤ (List.replicate bufferSize (0 : UInt8)).length := by
    rw [List.length_replicate]
    decide +kernel
  have hlength : (List.replicate hostnameSize (0 : UInt8)).length = hostnameSize := List.length_replicate
  obtain ⟨s, hrun, hs⟩ : ∃ s : State C, Transition.replay State.next State.init [.call [] [] cb, .request 0 (.socket 0),
      .request 0 .connect, .request 0 (.malloc 0 (List.replicate hostnameSize 0)), .request 0 .add, .wait [0]] =
        some s ∧ s.phase = .start ∧ s.events = [0] ∧ (s.heap 0).isSome := by
    simp [Transition.replay, State.next, State.init, State.requestStep, State.setStage, State.endCall,
      write_zero hfits, hlength, maxEvents]
  exact ⟨s, .replay (fun _ _ _ hnext => hnext) (.init rfl) hrun, hs⟩

/-- At the event of a request the callback thread can receive what fits the buffer, and call the callback. -/
theorem exists_steps {data : Ptr} {rest : List Ptr} {arg : EpArg C} (hphase : s.phase = .start)
    (hevents : s.events = data :: rest) (harg : s.heap data = some arg) {bytes : List UInt8}
    (hfit : bytes.length ≤ bufferSize) :
    ∃ s₁ s₂, Step s (.event (.recv bytes)) s₁ ∧ Step s₁ (.event .callback) s₂ := by
  obtain ⟨buffer, hbuffer⟩ : ∃ buffer, recvBuffer bytes = some buffer :=
    ⟨_, write_zero (by rwa [List.length_replicate])⟩
  have hrecv : s.next (.event (.recv bytes)) = some { s with phase := .received arg.sockfd buffer } := by
    simp only [State.next, hevents, State.eventStep, hphase, harg, hbuffer, Option.bind_some, Option.map_some]
  obtain ⟨s₂, hcallback⟩ : ∃ s₂, Step { s with phase := .received arg.sockfd buffer } (.event .callback) s₂ := by
    simp only [Step, State.next, hevents, State.eventStep, harg, Option.map_some, Option.some.injEq, exists_eq']
  exact ⟨_, s₂, hrecv, hcallback⟩

/-- Whatever fits the buffer is passed on in some run. -/
theorem exists_passes (cb : C) (hfit : (chunks.headD []).length ≤ bufferSize) :
    ∃ s : State C, Passes s chunks (callbackString chunks) := by
  obtain ⟨s, hreach, hphase, hevents, hheap⟩ := exists_reported cb
  obtain ⟨arg, harg⟩ := Option.isSome_iff_exists.mp hheap
  obtain ⟨s₁, s₂, hrecv, hcallback⟩ := exists_steps hphase hevents harg hfit
  obtain ⟨arg', hlog⟩ := callback_called hrecv hcallback
  exact ⟨s, hreach, s₁, s₂, hrecv, hcallback, arg', by rw [hlog, Function.update_self]⟩

/-! ## What is delivered -/

/-- The callback gets the first piece, if that leaves room for a zero byte. -/
theorem callbackString_cons {c : List UInt8} (hzero : 0 ∉ c) (hfit : c.length ≤ bufferSize)
    (rest : List (List UInt8)) :
    callbackString (c :: rest) = if c.length < bufferSize then some c else none := by
  have hbuffer : recvBuffer c = some (c ++ (List.replicate bufferSize 0).drop c.length) :=
    write_zero (by rwa [List.length_replicate])
  rw [callbackString, List.headD_cons, hbuffer, Option.bind_some, List.drop_replicate]
  split
  · next hlt =>
    obtain ⟨n, hn⟩ := Nat.exists_eq_add_of_lt hlt
    have hroom : bufferSize - c.length = n + 1 := by omega
    rw [hroom, List.replicate_succ, string_append_zero hzero]
  · next hge =>
    have hroom : bufferSize - c.length = 0 := by omega
    rw [hroom, List.replicate_zero, List.append_nil, string_eq_none hzero]

/-- The callback gets the whole of a response without zero bytes exactly if it arrives in one piece and is
shorter than the buffer. -/
theorem callbackString_eq_iff (hresponse : chunks.flatten ≠ []) (hchunks : ∀ c ∈ chunks, c ≠ [])
    (hzero : 0 ∉ chunks.flatten) (hfit : ∀ c ∈ chunks, c.length ≤ bufferSize) :
    callbackString chunks = some chunks.flatten ↔
      chunks.length = 1 ∧ chunks.flatten.length < bufferSize := by
  cases chunks with
  | nil => exact absurd rfl hresponse
  | cons c rest =>
    have hc : 0 ∉ c := fun hmem => hzero (by simp [hmem])
    rw [callbackString_cons hc (hfit c List.mem_cons_self)]
    constructor
    · intro h
      obtain ⟨hlt, hwhole⟩ := Option.ite_none_right_eq_some.mp h
      have hrest : rest.flatten = [] := by
        rw [List.flatten_cons] at hwhole
        exact List.self_eq_append_right.mp (Option.some.inj hwhole)
      obtain rfl : rest = [] := List.eq_nil_iff_forall_not_mem.mpr fun d hd =>
        hchunks d (List.mem_cons_of_mem c hd) (List.flatten_eq_nil_iff.mp hrest d hd)
      simpa using hlt
    · rintro ⟨hone, hlt⟩
      obtain rfl : rest = [] := List.eq_nil_of_length_eq_zero (Nat.succ.inj hone)
      rw [List.flatten_singleton] at hlt ⊢
      exact if_pos hlt

/-- A first piece of a response fits the buffer if all its pieces do. -/
theorem headD_length_le (hfit : ∀ c ∈ chunks, c ≠ [] ∧ c.length ≤ bufferSize) :
    (chunks.headD []).length ≤ bufferSize := by
  cases chunks with
  | nil => exact Nat.zero_le _
  | cons c rest => exact (hfit c List.mem_cons_self).2

/-- A response without zero bytes that arrives in some pieces, or in others, is delivered exactly if it
arrives in one piece both times and is shorter than the buffer. -/
theorem delivers_iff [Inhabited C] (hresponse : chunks.flatten ≠ []) (hzero : 0 ∉ chunks.flatten)
    (hsame : chunks'.flatten = chunks.flatten) (hchunks : ∀ c ∈ chunks, c ≠ [] ∧ c.length ≤ bufferSize)
    (hchunks' : ∀ c ∈ chunks', c ≠ [] ∧ c.length ≤ bufferSize) :
    Delivers C chunks chunks' ↔
      chunks.length = 1 ∧ chunks'.length = 1 ∧ chunks.flatten.length < bufferSize := by
  have hwhole := callbackString_eq_iff hresponse (fun c hc => (hchunks c hc).1) hzero
    (fun c hc => (hchunks c hc).2)
  have hwhole' := callbackString_eq_iff (hsame ▸ hresponse) (fun c hc => (hchunks' c hc).1) (hsame ▸ hzero)
    (fun c hc => (hchunks' c hc).2)
  rw [hsame] at hwhole'
  constructor
  · intro h
    obtain ⟨s, hs⟩ := exists_passes (default : C) (headD_length_le hchunks)
    obtain ⟨s', hs'⟩ := exists_passes (default : C) (headD_length_le hchunks')
    have hdelivered := h.whole s _ hs
    obtain ⟨hone, hlt⟩ := hwhole.mp hdelivered
    exact ⟨hone, (hwhole'.mp ((h.segments s s' _ _ hs hs').trans hdelivered)).1, hlt⟩
  · rintro ⟨hone, hone', hlt⟩
    have hdelivered := hwhole.mpr ⟨hone, hlt⟩
    have hdelivered' := hwhole'.mpr ⟨hone', hlt⟩
    have hstrings : ∀ c ∈ chunks, c ≠ [] ∧ 0 ∉ c := fun c hc =>
      ⟨(hchunks c hc).1, fun hmem => hzero (List.mem_flatten.mpr ⟨c, hc, hmem⟩)⟩
    have hsize : chunks.flatten.length + 1 < 2 ^ 64 := (Nat.succ_le_of_lt hlt).trans_lt (by decide)
    refine ⟨fun s result hs => hs.result_eq.trans hdelivered,
      fun s result hs memory hostname resource hrequest hfit => ?_, fun s s' result result' hs hs' => ?_⟩
    · rw [hs.result_eq, hdelivered, sendRequest_arriving hrequest hstrings hfit hsize]
    · rw [hs.result_eq, hs'.result_eq, hdelivered, hdelivered']

/-- A response of two bytes in one piece. -/
theorem delivers_iff_one : Delivers Unit [[72, 73]] [[72, 73]] ↔
    [[72, 73]].length = 1 ∧ [[72, 73]].length = 1 ∧ ([[72, 73]] : List (List UInt8)).flatten.length < bufferSize :=
  delivers_iff (by decide) (by decide) rfl (by decide) (by decide)

/-- A response of two bytes in two pieces. -/
theorem first_piece_only : ¬ Delivers Unit [[72], [73]] [[72, 73]] := by
  intro h
  have hfit : ([[72], [73]].headD ([] : List UInt8)).length ≤ bufferSize := by decide
  obtain ⟨s, hs⟩ := exists_passes () hfit
  have hdelivered := h.whole s _ hs
  exact absurd ((callbackString_eq_iff (by decide) (by decide) (by decide) (by decide)).mp hdelivered).1 (by decide)

end CppProject.HttpClient
