import CppProject.HttpClient.SendRequest
import CppProject.Lib.RequestHead

/-!
# The request on the wire

Both clients put the name of the resource and the host into the text of a request with `sprintf`, as they are. What is
sent is a request head with one reading, the one meant, exactly if the text fits the buffer, the resource has only
bytes that the grammar takes in a target, and the host only bytes that it takes in a value and no blanks around them.
-/

namespace CppProject.HttpClient

open CString RequestHead

/-- What `send(sockfd, buffer, strlen(buffer), 0)` sends: `sprintf` has written the text to a cleared buffer. -/
def sent (size : ℕ) (resource hostname : List UInt8) : Option (List UInt8) :=
  (write (List.replicate size 0) 0 (requestText resource hostname ++ [0])).bind string

/-- The request meant. -/
def requestHead (resource hostname : List UInt8) : Head where
  method := literal "GET"
  target := resource
  version := literal "HTTP/1.1"
  fields := [⟨literal "Host", hostname⟩, ⟨literal "Connection", literal "close"⟩]

variable {resource hostname : List UInt8} {size : ℕ}

/-! ## The text -/

/-- The fields as the text has them. -/
def paddedFields (hostname : List UInt8) : List Padded :=
  [⟨⟨literal "Host", hostname⟩, [], [32]⟩, ⟨⟨literal "Connection", literal "close"⟩, [32], [32]⟩]

/-- The text has the head meant and one more line end. -/
theorem requestText_eq (resource hostname : List UInt8) : requestText resource hostname =
    text (literal "GET") resource (literal "HTTP/1.1") (paddedFields hostname) ++ crlf := by
  have hget : literal "GET " = literal "GET" ++ [32] := by decide
  have hhost : literal " HTTP/1.1\r\nHost:" = [32] ++ literal "HTTP/1.1" ++ crlf ++ literal "Host" ++ [58] := by decide
  have hend : literal " \r\nConnection: close \r\n\r\n\r\n" = [32] ++ crlf ++ literal "Connection" ++ [58] ++ [32] ++
      literal "close" ++ [32] ++ crlf ++ crlf ++ crlf := by decide
  unfold requestText
  rw [hget, hhost, hend]
  simp [text, paddedFields, Padded.written]

/-- The length of the text. -/
theorem length_requestText (resource hostname : List UInt8) :
    (requestText resource hostname).length = resource.length + hostname.length + 47 := by
  have hget : (literal "GET ").length = 4 := by decide
  have hhost : (literal " HTTP/1.1\r\nHost:").length = 16 := by decide
  have hend : (literal " \r\nConnection: close \r\n\r\n\r\n").length = 27 := by decide
  unfold requestText
  rw [List.length_append, List.length_append, List.length_append, List.length_append, hget, hhost, hend]
  omega

/-- The text has no zero byte of its own. -/
theorem zero_not_mem_requestText (hresource : 0 ∉ resource) (hhostname : 0 ∉ hostname) :
    0 ∉ requestText resource hostname := by
  have hget : 0 ∉ literal "GET " := by decide
  have hhost : 0 ∉ literal " HTTP/1.1\r\nHost:" := by decide
  have hend : 0 ∉ literal " \r\nConnection: close \r\n\r\n\r\n" := by decide
  unfold requestText
  simp only [List.mem_append, not_or]
  exact ⟨⟨⟨⟨hget, hresource⟩, hhost⟩, hhostname⟩, hend⟩

/-! ## What is sent -/

/-- The whole text is sent if the buffer has room for it and its zero byte. -/
theorem sent_of_le (hresource : 0 ∉ resource) (hhostname : 0 ∉ hostname)
    (hsize : resource.length + hostname.length + 48 ≤ size) :
    sent size resource hostname = some (requestText resource hostname) := by
  have hfits : (requestText resource hostname ++ [0]).length ≤ (List.replicate size (0 : UInt8)).length := by
    rw [List.length_append, length_requestText, List.length_replicate]
    exact hsize
  rw [sent, write_zero hfits, Option.bind_some, List.append_assoc]
  exact string_append_zero (zero_not_mem_requestText hresource hhostname) _

/-- Otherwise `sprintf` writes beyond the buffer. -/
theorem sent_of_lt (hsize : size < resource.length + hostname.length + 48) : sent size resource hostname = none := by
  have hbeyond : ¬ 0 + (requestText resource hostname ++ [0]).length ≤ (List.replicate size (0 : UInt8)).length := by
    rw [List.length_append, length_requestText, List.length_replicate, List.length_singleton]
    omega
  rw [sent, write, if_neg hbeyond, Option.bind_none]

/-! ## What is read -/

/-- The method is a part of a request line. -/
theorem isPart_get : IsPart (literal "GET") := ⟨by decide +kernel, by decide +kernel, by decide +kernel⟩

/-- So is the version. -/
theorem isPart_version : IsPart (literal "HTTP/1.1") := ⟨by decide +kernel, by decide +kernel, by decide +kernel⟩

/-- The second field has the shape of one. -/
theorem wellFormed_connection : Field.WellFormed ⟨literal "Connection", literal "close"⟩ :=
  ⟨by decide +kernel, by decide +kernel, by decide +kernel, by decide +kernel, by decide +kernel⟩

variable {g : Grammar}

/-- Only the resource and the host decide. -/
theorem valid_requestHead : (requestHead resource hostname).Valid g ↔
    resource ≠ [] ∧ (∀ b ∈ resource, g.target b) ∧ Trimmed hostname ∧ ∀ b ∈ hostname, g.value b := by
  constructor
  · intro h
    have hhost : Field.WellFormed ⟨literal "Host", hostname⟩ := h.fields _ List.mem_cons_self
    exact ⟨h.target.nonempty, h.target_bytes, hhost.trimmed, h.value_bytes _ List.mem_cons_self⟩
  · rintro ⟨hne, htarget, htrimmed, hvalue⟩
    have hname : literal "Host" ≠ [] ∧ 58 ∉ literal "Host" ∧ (∀ b ∈ literal "Host", isBlank b = false) ∧
        10 ∉ literal "Host" := by decide +kernel
    have hclose : ∀ b ∈ literal "close", 97 ≤ b ∧ b ≤ 122 := by decide +kernel
    have hlf : 10 ∉ literal "Host" ++ hostname := fun hmem =>
      (List.mem_append.mp hmem).elim hname.2.2.2 fun hmem => g.value_lf (hvalue _ hmem)
    exact {
      method := isPart_get
      target := ⟨hne, fun hmem => g.target_space (htarget _ hmem), fun hmem => g.target_lf (htarget _ hmem)⟩
      version := isPart_version
      fields := List.forall_mem_cons.mpr ⟨⟨hname.1, hname.2.1, hname.2.2.1, hlf, htrimmed⟩,
        List.forall_mem_singleton.mpr wellFormed_connection⟩
      target_bytes := htarget
      value_bytes := List.forall_mem_cons.mpr ⟨hvalue, List.forall_mem_singleton.mpr fun b hb =>
        g.value_lower b (hclose b hb).1 (hclose b hb).2⟩ }

/-- The blanks around the two values. -/
theorem blank_paddedFields (hostname : List UInt8) : ∀ p ∈ paddedFields hostname, p.Blank := by
  have hspace : ∀ b ∈ [(32 : UInt8)], isBlank b = true := List.forall_mem_singleton.mpr rfl
  simp only [paddedFields, List.forall_mem_cons, List.not_mem_nil, false_imp_iff, implies_true, and_true]
  exact ⟨⟨fun _ hb => absurd hb List.not_mem_nil, hspace⟩, hspace, hspace⟩

/-- Under every grammar, what is sent has the head meant and one line end behind it for its only reading exactly if the
text fits the buffer, the resource is a target, and the host is a value without blanks around it. -/
theorem reads_sent_iff (g : Grammar) (hresource : 0 ∉ resource) (hhostname : 0 ∉ hostname) (size : ℕ) :
    (∃ bytes, sent size resource hostname = some bytes ∧
      ∀ head rest, Reads g bytes head rest ↔ head = requestHead resource hostname ∧ rest = crlf) ↔
      resource.length + hostname.length + 48 ≤ size ∧ resource ≠ [] ∧ (∀ b ∈ resource, g.target b) ∧
        Trimmed hostname ∧ ∀ b ∈ hostname, g.value b := by
  by_cases hsize : resource.length + hostname.length + 48 ≤ size
  · rw [sent_of_le hresource hhostname hsize, and_iff_right hsize, requestText_eq]
    simp only [Option.some.injEq, exists_eq_left']
    exact (reads_text_iff (blank_paddedFields hostname) crlf).trans valid_requestHead
  · rw [sent_of_lt (Nat.lt_of_not_le hsize)]
    refine iff_of_false ?_ fun h => hsize h.1
    rintro ⟨_, hbytes, -⟩
    exact Option.some_ne_none _ hbytes.symm

/-- Targets of visible ASCII bytes, and values without control bytes other than the tab. -/
def visible : Grammar where
  target := fun b => 33 ≤ b ∧ b ≤ 126
  value := fun b => b = 9 ∨ 32 ≤ b ∧ b ≠ 127
  target_space := by decide
  target_lf := by decide
  value_lf := by decide
  value_lower := fun b hlow hhigh => .inr ⟨UInt8.le_trans (by decide) hlow, fun heq => by
    rw [heq] at hhigh
    exact absurd hhigh (by decide)⟩

/-- The request of `main` in `http.c`. -/
theorem reads_sent_main :
    ∃ bytes, sent requestBufferSize (literal "hello") (literal "172.16.236.185") = some bytes ∧
      Reads visible bytes (requestHead (literal "hello") (literal "172.16.236.185")) crlf := by
  have hhello : ∀ b ∈ literal "hello", visible.target b := by
    change ∀ b ∈ literal "hello", 33 ≤ b ∧ b ≤ 126
    decide +kernel
  have hhost : ∀ b ∈ literal "172.16.236.185", visible.value b := by
    change ∀ b ∈ literal "172.16.236.185", b = 9 ∨ 32 ≤ b ∧ b ≠ 127
    decide +kernel
  obtain ⟨bytes, hbytes, hreads⟩ := (reads_sent_iff visible (by decide +kernel) (by decide +kernel)
    requestBufferSize).mpr ⟨by decide +kernel, by decide +kernel, hhello, by decide +kernel, hhost⟩
  exact ⟨bytes, hbytes, (hreads _ _).mpr ⟨rfl, rfl⟩⟩

end CppProject.HttpClient
