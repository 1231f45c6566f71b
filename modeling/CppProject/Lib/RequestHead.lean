import Mathlib.Data.List.DropRight
import Mathlib.Data.UInt

/-!
# Heads of HTTP requests

A request line of three parts with single spaces between them, and fields of a name, a colon and a value that blanks
may surround, up to an empty line, each line with CR and LF at its end. Which bytes a target and a value may have is
left to a grammar; a target never has a space, and neither of them a line feed. A text then has one reading at most.
-/

namespace RequestHead

/-! ## Lines -/

/-- The first line of a text, and the text behind it. -/
def readLine : List UInt8 → Option (List UInt8 × List UInt8)
  | [] => none
  | 10 :: rest => some ([], rest)
  | 13 :: 10 :: rest => some ([], rest)
  | b :: rest => (readLine rest).map fun (line, rest) => (b :: line, rest)

/-- The end of a line as it is written. -/
def crlf : List UInt8 := [13, 10]

variable {bytes line rest : List UInt8}

/-- A byte that does not end the line. -/
theorem readLine_cons {b : UInt8} (hb : b ≠ 10) (hcr : b ≠ 13 ∨ rest.head? ≠ some 10) :
    readLine (b :: rest) = (readLine rest).map fun (line, rest) => (b :: line, rest) := by
  rw [readLine.eq_4]
  · exact fun heq => hb heq
  · rintro rest' rfl rfl
    exact hcr.elim (fun h => h rfl) fun h => h rfl

/-- A line without a line feed is read as it is. -/
theorem readLine_append (hline : 10 ∉ line) (rest : List UInt8) :
    readLine (line ++ crlf ++ rest) = some (line, rest) := by
  induction line with
  | nil => rfl
  | cons b line ih =>
    obtain ⟨hb, hline⟩ := not_or.mp (List.mem_cons.not.mp hline)
    have hhead : (line ++ crlf ++ rest).head? ≠ some 10 := by
      cases line with
      | nil => simp [crlf]
      | cons c line =>
        obtain ⟨hc, -⟩ := not_or.mp (List.mem_cons.not.mp hline)
        simpa using Ne.symm hc
    rw [List.cons_append, List.cons_append, readLine_cons (Ne.symm hb) (Or.inr hhead), ih hline, Option.map_some]

/-! ## Parts of a line -/

/-- A text cut at its first separator. -/
def cut (sep : UInt8) : List UInt8 → Option (List UInt8 × List UInt8)
  | [] => none
  | b :: rest => if b = sep then some ([], rest) else (cut sep rest).map fun (part, rest) => (b :: part, rest)

/-- The first separator is behind a part that has none. -/
theorem cut_append {sep : UInt8} {part : List UInt8} (h : sep ∉ part) (rest : List UInt8) :
    cut sep (part ++ sep :: rest) = some (part, rest) := by
  induction part with
  | nil => exact if_pos rfl
  | cons b part ih =>
    obtain ⟨hb, hpart⟩ := not_or.mp (List.mem_cons.not.mp h)
    rw [List.cons_append, cut, if_neg (Ne.symm hb), ih hpart, Option.map_some]

/-- Spaces and tabs. -/
def isBlank (b : UInt8) : Bool := b == 32 || b == 9

/-- A value without the blanks around it. -/
def trim (bytes : List UInt8) : List UInt8 := (bytes.dropWhile isBlank).rdropWhile isBlank

/-- No blanks around the bytes. -/
structure Trimmed (bytes : List UInt8) : Prop where
  head : ∀ b ∈ bytes.head?, isBlank b = false
  last : ∀ b ∈ bytes.getLast?, isBlank b = false

instance (bytes : List UInt8) : Decidable (Trimmed bytes) :=
  decidable_of_iff (bytes.head?.all (!isBlank ·) ∧ bytes.getLast?.all (!isBlank ·)) (by
    simp only [Option.all_eq_true, Bool.not_eq_true']
    exact ⟨fun h => ⟨h.1, h.2⟩, fun h => ⟨h.head, h.last⟩⟩)

/-- Blanks in front of bytes that start with none. -/
theorem dropWhile_blank {before : List UInt8} (hbefore : ∀ b ∈ before, isBlank b = true)
    (hhead : ∀ b ∈ bytes.head?, isBlank b = false) : (before ++ bytes).dropWhile isBlank = bytes := by
  rw [List.dropWhile_append_of_pos hbefore]
  cases bytes with
  | nil => rfl
  | cons b bytes => exact List.dropWhile_cons_of_neg (by simpa using hhead b rfl)

/-- The blanks around a value are taken away. -/
theorem trim_padded {before after : List UInt8} (hbefore : ∀ b ∈ before, isBlank b = true)
    (hafter : ∀ b ∈ after, isBlank b = true) (h : Trimmed bytes) : trim (before ++ bytes ++ after) = bytes := by
  cases hbytes : bytes with
  | nil =>
    have hall : ∀ b ∈ before ++ [] ++ after, isBlank b = true := by
      simpa [or_imp, forall_and] using ⟨hbefore, hafter⟩
    rw [trim, List.dropWhile_eq_nil_iff.mpr hall]
    rfl
  | cons b rest =>
    rw [← hbytes, trim, List.append_assoc, dropWhile_blank hbefore (by simpa [hbytes] using h.head), List.rdropWhile,
      List.reverse_append, dropWhile_blank (by simpa using hafter) (by simpa using h.last), List.reverse_reverse]

/-! ## Heads -/

/-- A field of a head. -/
structure Field where
  name : List UInt8
  value : List UInt8
  deriving DecidableEq

/-- A head. -/
structure Head where
  method : List UInt8
  target : List UInt8
  version : List UInt8
  fields : List Field
  deriving DecidableEq

/-- The three parts of a request line. -/
def readRequestLine (line : List UInt8) : Option (List UInt8 × List UInt8 × List UInt8) :=
  (cut 32 line).bind fun (method, rest) => (cut 32 rest).bind fun (target, version) =>
    if method = [] ∨ target = [] ∨ version = [] ∨ 32 ∈ version then none else some (method, target, version)

/-- The name and the value in a line. -/
def readField (line : List UInt8) : Option Field :=
  (cut 58 line).bind fun (name, rest) =>
    if name = [] ∨ name.any isBlank then none else some ⟨name, trim rest⟩

/-- The fields up to the empty line, with a bound on their number. -/
def readFields : ℕ → List UInt8 → Option (List Field × List UInt8)
  | 0, _ => none
  | n + 1, bytes => (readLine bytes).bind fun (line, rest) =>
    if line = [] then some ([], rest)
    else (readField line).bind fun field => (readFields n rest).map fun (fields, rest) => (field :: fields, rest)

/-- The head at the start of a text, and the text behind it. It finds the reading of a text under every grammar, so there
is one at most. -/
def readHead (bytes : List UInt8) : Option (Head × List UInt8) :=
  (readLine bytes).bind fun (line, rest) => (readRequestLine line).bind fun (method, target, version) =>
    (readFields rest.length rest).map fun (fields, rest) => (⟨method, target, version, fields⟩, rest)

/-- A part of a request line. -/
structure IsPart (part : List UInt8) : Prop where
  nonempty : part ≠ []
  space : 32 ∉ part
  lf : 10 ∉ part

/-- A name without blanks and a value without blanks around it. -/
structure Field.WellFormed (field : Field) : Prop where
  nonempty : field.name ≠ []
  colon : 58 ∉ field.name
  blank : ∀ b ∈ field.name, isBlank b = false
  lf : 10 ∉ field.name ++ field.value
  trimmed : Trimmed field.value

/-- All parts are as they must be. -/
structure Head.WellFormed (head : Head) : Prop where
  method : IsPart head.method
  target : IsPart head.target
  version : IsPart head.version
  fields : ∀ field ∈ head.fields, field.WellFormed

variable {n : ℕ} {head head' : Head} {rest' : List UInt8}

/-! ## What is written is read -/

/-- A field as it is written, with blanks around the value. -/
structure Padded where
  field : Field
  before : List UInt8
  after : List UInt8

/-- The line of a field. -/
def Padded.written (p : Padded) : List UInt8 := p.field.name ++ 58 :: (p.before ++ p.field.value ++ p.after)

/-- The blanks around a value are blanks. -/
structure Padded.Blank (p : Padded) : Prop where
  before : ∀ b ∈ p.before, isBlank b = true
  after : ∀ b ∈ p.after, isBlank b = true

/-- The text of a head. -/
def text (method target version : List UInt8) (padded : List Padded) : List UInt8 :=
  method ++ 32 :: (target ++ 32 :: version) ++ crlf ++ padded.flatMap (fun p => p.written ++ crlf) ++ crlf

/-- A blank is no line feed. -/
theorem ne_lf_of_isBlank {b : UInt8} (h : isBlank b = true) : b ≠ 10 := by
  rintro rfl
  exact absurd h (by decide)

/-- A field is written on one line. -/
theorem lf_not_mem_written {p : Padded} (h : p.field.WellFormed) (hblank : p.Blank) : 10 ∉ p.written := by
  have hlf := h.lf
  simp only [Padded.written, List.mem_append, List.mem_cons, not_or] at hlf ⊢
  exact ⟨hlf.1, by decide, ⟨fun hmem => ne_lf_of_isBlank (hblank.before 10 hmem) rfl, hlf.2⟩,
    fun hmem => ne_lf_of_isBlank (hblank.after 10 hmem) rfl⟩

/-- A field is read from its line. -/
theorem readField_written {p : Padded} (h : p.field.WellFormed) (hblank : p.Blank) :
    readField p.written = some p.field := by
  have hname : p.field.name.any isBlank = false := by
    simpa using h.blank
  rw [readField, Padded.written, cut_append h.colon, Option.bind_some]
  dsimp only
  rw [if_neg (by simp [h.nonempty, hname]), trim_padded hblank.before hblank.after h.trimmed]

/-- Fields are read from their lines, up to the empty line. -/
theorem readFields_flatMap {padded : List Padded} (h : ∀ p ∈ padded, p.field.WellFormed ∧ p.Blank)
    (hn : padded.length < n) (rest : List UInt8) :
    readFields n (padded.flatMap (fun p => p.written ++ crlf) ++ crlf ++ rest) =
      some (padded.map Padded.field, rest) := by
  induction padded generalizing n with
  | nil =>
    cases n with
    | zero => exact absurd hn (Nat.not_lt_zero _)
    | succ n => rfl
  | cons p padded ih =>
    obtain ⟨⟨hfield, hblank⟩, hpadded⟩ := List.forall_mem_cons.mp h
    cases n with
    | zero => exact absurd hn (Nat.not_lt_zero _)
    | succ n =>
      have hne : p.written ≠ [] := List.append_ne_nil_of_right_ne_nil _ (List.cons_ne_nil _ _)
      have hline := readLine_append (lf_not_mem_written hfield hblank)
        (padded.flatMap (fun p => p.written ++ crlf) ++ crlf ++ rest)
      rw [List.flatMap_cons, List.append_assoc, List.append_assoc, ← List.append_assoc (padded.flatMap _), readFields,
        hline, Option.bind_some]
      dsimp only
      rw [if_neg hne, readField_written hfield hblank, Option.bind_some, ih hpadded (Nat.lt_of_succ_lt_succ hn)]
      rfl

/-- Each field has a line, so the bound on their number is never reached. -/
theorem length_le_flatMap (padded : List Padded) :
    padded.length ≤ (padded.flatMap fun p => p.written ++ crlf).length := by
  induction padded with
  | nil => exact Nat.le_refl 0
  | cons p padded ih =>
    rw [List.flatMap_cons, List.length_append, List.length_append, List.length_cons]
    have hcrlf : crlf.length = 2 := rfl
    omega

/-- A well-formed head is read from its text, whatever follows. -/
theorem readHead_text {method target version : List UInt8} {padded : List Padded}
    (h : Head.WellFormed ⟨method, target, version, padded.map Padded.field⟩) (hblank : ∀ p ∈ padded, p.Blank)
    (rest : List UInt8) :
    readHead (text method target version padded ++ rest) =
      some (⟨method, target, version, padded.map Padded.field⟩, rest) := by
  obtain ⟨hmethod, htarget, hversion, hfields⟩ := h
  have hlf : 10 ∉ method ++ 32 :: (target ++ 32 :: version) := by
    simp only [List.mem_append, List.mem_cons, not_or]
    exact ⟨hmethod.lf, by decide, htarget.lf, by decide, hversion.lf⟩
  have hparts : readRequestLine (method ++ 32 :: (target ++ 32 :: version)) = some (method, target, version) := by
    rw [readRequestLine, cut_append hmethod.space, Option.bind_some]
    dsimp only
    rw [cut_append htarget.space, Option.bind_some]
    exact if_neg (by simp [hmethod.nonempty, htarget.nonempty, hversion.nonempty, hversion.space])
  have hall : ∀ p ∈ padded, p.field.WellFormed ∧ p.Blank := fun p hp =>
    ⟨hfields p.field (List.mem_map_of_mem hp), hblank p hp⟩
  have hlength := length_le_flatMap padded
  rw [text, List.append_assoc, List.append_assoc, readHead, readLine_append hlf, Option.bind_some]
  dsimp only
  rw [hparts, Option.bind_some]
  dsimp only
  rw [← List.append_assoc, readFields_flatMap hall _ rest]
  · rfl
  · have hcrlf : crlf.length = 2 := rfl
    rw [List.length_append, List.length_append, hcrlf]
    omega

/-! ## Readings -/

/-- The bytes of targets and of values. Whatever they are, lines and the parts of the first line are told apart. -/
structure Grammar where
  target : UInt8 → Prop
  value : UInt8 → Prop
  target_space : ¬ target 32
  target_lf : ¬ target 10
  value_lf : ¬ value 10
  value_lower : ∀ b, 97 ≤ b → b ≤ 122 → value b

variable {g : Grammar}

/-- The shape of a head, and the bytes of its target and its values. -/
structure Head.Valid (g : Grammar) (head : Head) : Prop extends head.WellFormed where
  target_bytes : ∀ b ∈ head.target, g.target b
  value_bytes : ∀ field ∈ head.fields, ∀ b ∈ field.value, g.value b

/-- The bytes are a text of the head, with more behind it. -/
structure Reads (g : Grammar) (bytes : List UInt8) (head : Head) (rest : List UInt8) : Prop where
  valid : head.Valid g
  text : ∃ padded, padded.map Padded.field = head.fields ∧ (∀ p ∈ padded, p.Blank) ∧
    bytes = RequestHead.text head.method head.target head.version padded ++ rest

/-- The reading of a text is the one that is computed. -/
theorem Reads.readHead_eq (h : Reads g bytes head rest) : readHead bytes = some (head, rest) := by
  obtain ⟨padded, hfields, hblank, rfl⟩ := h.text
  obtain ⟨method, target, version, fields⟩ := head
  obtain rfl := hfields
  exact readHead_text h.valid.toWellFormed hblank rest

/-- A text has one reading at most. -/
theorem Reads.unique (h : Reads g bytes head rest) (h' : Reads g bytes head' rest') : head = head' ∧ rest = rest' :=
  Prod.mk.inj (Option.some.inj (h.readHead_eq.symm.trans h'.readHead_eq))

/-- The text of a valid head is read as this head, and as nothing else. -/
theorem reads_text_iff {method target version : List UInt8} {padded : List Padded} (hblank : ∀ p ∈ padded, p.Blank)
    (rest : List UInt8) :
    (∀ head rest', Reads g (text method target version padded ++ rest) head rest' ↔
        head = ⟨method, target, version, padded.map Padded.field⟩ ∧ rest' = rest) ↔
      Head.Valid g ⟨method, target, version, padded.map Padded.field⟩ := by
  constructor
  · exact fun h => ((h _ rest).mpr ⟨rfl, rfl⟩).valid
  · intro hvalid head rest'
    have hreads : Reads g (text method target version padded ++ rest)
        ⟨method, target, version, padded.map Padded.field⟩ rest := ⟨hvalid, padded, rfl, hblank, rfl⟩
    constructor
    · exact fun h => h.unique hreads
    · rintro ⟨rfl, rfl⟩
      exact hreads

end RequestHead
