import CppProject.Lib.QuotedText
import Mathlib.Data.UInt

/-!
# The tokens of an SQL text

The part of MySQL's lexical rules that its default mode has for words, names in backticks, string literals
in single or double quotes, and comments to the end of a line. Within a string literal a doubled quote stands
for the quote, and a backslash starts an escape sequence. Block comments are not read: their delimiters are
symbols.

The lexer is an automaton over bytes, so a text is read piece by piece. What it takes for string literals
is a reading of the text in the sense of `QuotedText`.
-/

namespace Sql

open QuotedText

/-! ## Bytes -/

/-- The bytes of an ASCII text. -/
def ascii (text : String) : List UInt8 := text.toList.map fun c => c.toNat.toUInt8

/-- The byte that ends a line comment. -/
def newline : UInt8 := 10
/-- A quotation mark. -/
def quotation : UInt8 := 34
/-- The byte that starts a line comment. -/
def hash : UInt8 := 35
/-- The percent sign. -/
def percent : UInt8 := 37
/-- An apostrophe. -/
def apostrophe : UInt8 := 39
/-- A comma. -/
def comma : UInt8 := 44
/-- A dash; two of them start a line comment. -/
def dash : UInt8 := 45
/-- The equals sign. -/
def equals : UInt8 := 61
/-- A backslash. -/
def backslash : UInt8 := 92
/-- The underscore. -/
def underscore : UInt8 := 95
/-- A backtick. -/
def backtick : UInt8 := 96

/-- The quotes of string literals. -/
def IsQuote (b : UInt8) : Prop := b = apostrophe ∨ b = quotation

instance (b : UInt8) : Decidable (IsQuote b) := inferInstanceAs (Decidable (_ ∨ _))

/-- White space. -/
def isSpace (b : UInt8) : Bool := b == 32 || (9 ≤ b && b ≤ 13)

/-- Decimal digits. -/
def isDigit (b : UInt8) : Bool := 48 ≤ b && b ≤ 57

/-- The bytes of words: letters, digits, `_`, `$`, and everything beyond ASCII. -/
def isWordByte (b : UInt8) : Bool :=
  isDigit b || (65 ≤ b && b ≤ 90) || (97 ≤ b && b ≤ 122) || b == underscore || b == 36 || 128 ≤ b

/-- The byte an escape sequence stands for, from the byte behind the backslash. -/
def unescape (b : UInt8) : UInt8 :=
  if b = 48 then 0 else if b = 98 then 8 else if b = 110 then 10 else if b = 114 then 13
  else if b = 116 then 9 else if b = 90 then 26 else b

/-! ## The automaton -/

/-- Tokens; a text is the value of a string literal. -/
inductive Token
  | word (bytes : List UInt8)
  | name (bytes : List UInt8)
  | text (bytes : List UInt8)
  | symbol (b : UInt8)
  deriving DecidableEq

/-- Where the lexer is, with what it has read of the current token, the last byte first. -/
inductive Mode
  | start
  | word (read : List UInt8)
  | name (read : List UInt8)
  | nameQuote (read : List UInt8)
  | text (quote : UInt8) (read : List UInt8)
  | escape (quote : UInt8) (read : List UInt8)
  | textQuote (quote : UInt8) (read : List UInt8)
  | dash
  | dashes
  | comment
  deriving DecidableEq

/-- A byte between tokens. -/
def enter (b : UInt8) : List Token × Mode :=
  if isSpace b then ([], .start)
  else if IsQuote b then ([], .text b [])
  else if b = backtick then ([], .name [])
  else if b = hash then ([], .comment)
  else if b = dash then ([], .dash)
  else if isWordByte b then ([], .word [b])
  else ([.symbol b], .start)

/-- A byte behind the last of a token. -/
def leave (token : Token) (b : UInt8) : List Token × Mode := (token :: (enter b).1, (enter b).2)

/-- One byte: the tokens it ends, and the next mode. -/
def step : Mode → UInt8 → List Token × Mode
  | .start, b => enter b
  | .word read, b => if isWordByte b then ([], .word (b :: read)) else leave (.word read.reverse) b
  | .name read, b => if b = backtick then ([], .nameQuote read) else ([], .name (b :: read))
  | .nameQuote read, b => if b = backtick then ([], .name (b :: read)) else leave (.name read.reverse) b
  | .text quote read, b =>
    if b = quote then ([], .textQuote quote read)
    else if b = backslash then ([], .escape quote read)
    else ([], .text quote (b :: read))
  | .escape quote read, b =>
    -- the backslash stays before the wildcards of patterns
    if b = percent ∨ b = underscore then ([], .text quote (b :: backslash :: read))
    else ([], .text quote (unescape b :: read))
  | .textQuote quote read, b =>
    if b = quote then ([], .text quote (b :: read)) else leave (.text read.reverse) b
  | .dash, b => if b = dash then ([], .dashes) else leave (.symbol dash) b
  | .dashes, b =>
    if b = newline then ([], .start)
    else if b ≤ 32 ∨ b = 127 then ([], .comment)
    else if b = dash then ([.symbol dash], .dashes)
    else (.symbol dash :: (leave (.symbol dash) b).1, (leave (.symbol dash) b).2)
  | .comment, b => if b = newline then ([], .start) else ([], .comment)

/-- The end of the text: the token it ends. A name or a string literal must be complete. -/
def finish : Mode → Option (List Token)
  | .start => some []
  | .word read => some [.word read.reverse]
  | .name _ => none
  | .nameQuote read => some [.name read.reverse]
  | .text _ _ => none
  | .escape _ _ => none
  | .textQuote _ read => some [.text read.reverse]
  | .dash => some [.symbol dash]
  | .dashes => some []
  | .comment => some []

/-- The tokens of a text, from a mode on. -/
def lexFrom : Mode → List UInt8 → Option (List Token)
  | m, [] => finish m
  | m, b :: text => (lexFrom (step m b).2 text).map ((step m b).1 ++ ·)

/-- The tokens of a text. -/
def lex (text : List UInt8) : Option (List Token) := lexFrom .start text

/-- The tokens within a piece of text, and the mode behind it. -/
def steps : Mode → List UInt8 → List Token × Mode
  | m, [] => ([], m)
  | m, b :: text => ((step m b).1 ++ (steps (step m b).2 text).1, (steps (step m b).2 text).2)

/-- A text is read piece by piece. -/
theorem lexFrom_append (m : Mode) (front rest : List UInt8) :
    lexFrom m (front ++ rest) = (lexFrom (steps m front).2 rest).map ((steps m front).1 ++ ·) := by
  induction front generalizing m with
  | nil => simp [steps]
  | cons b front ih =>
    rw [List.cons_append, lexFrom, ih, Option.map_map, steps]
    congr 1
    funext tokens
    simp

/-- Bytes read in two parts. -/
theorem steps_append (m : Mode) (front rest : List UInt8) :
    steps m (front ++ rest) =
      ((steps m front).1 ++ (steps (steps m front).2 rest).1, (steps (steps m front).2 rest).2) := by
  induction front generalizing m with
  | nil => rfl
  | cons b front ih =>
    rw [List.cons_append, steps, ih, steps]
    simp

/-- The values of the string literals among tokens. -/
def texts (tokens : List Token) : List (List UInt8) :=
  tokens.filterMap fun
    | .text bytes => some bytes
    | _ => none

/-- The string literals of two token lists. -/
@[simp] theorem texts_append (left right : List Token) : texts (left ++ right) = texts left ++ texts right :=
  List.filterMap_append

/-! ## Plain values -/

/-- Between these quotes the bytes stand for themselves. -/
def Plain (quote : UInt8) : List UInt8 → Prop
  | [] => True
  | b :: rest => b ≠ quote ∧ (b = backslash → rest.head? = some percent ∨ rest.head? = some underscore) ∧
      Plain quote rest

instance (quote : UInt8) : DecidablePred (Plain quote) := decidePlain
where
  decidePlain : (bytes : List UInt8) → Decidable (Plain quote bytes)
    | [] => inferInstanceAs (Decidable True)
    | _ :: rest => have := decidePlain rest; inferInstanceAs (Decidable (_ ∧ _ ∧ _))

/-- A quote is no backslash. -/
theorem IsQuote.ne_backslash {b : UInt8} (h : IsQuote b) : b ≠ backslash := by
  rcases h with rfl | rfl
  · decide
  · decide

/-- A byte of a string literal that is neither its quote nor a backslash. -/
theorem step_text {quote b : UInt8} (hquote : b ≠ quote) (hbackslash : b ≠ backslash) (read : List UInt8) :
    step (.text quote read) b = ([], .text quote (b :: read)) := by
  rw [step, if_neg hquote, if_neg hbackslash]

/-- A plain value is read as it is. -/
theorem steps_plain {quote : UInt8} (hquote : IsQuote quote) {value : List UInt8} (h : Plain quote value)
    (read : List UInt8) : steps (.text quote read) value = ([], .text quote (value.reverse ++ read)) := by
  match value with
  | [] => rfl
  | b :: rest =>
    obtain ⟨hb, hescape, hrest⟩ := h
    by_cases hbackslash : b = backslash
    · -- two steps: the backslash and the wildcard behind it
      obtain ⟨c, rest, rfl⟩ : ∃ c rest', rest = c :: rest' :=
        List.exists_cons_of_ne_nil fun hnil => by simp [hbackslash, hnil] at hescape
      have hwild : c = percent ∨ c = underscore := by simpa [hbackslash] using hescape
      have hopen : step (.text quote read) b = ([], .escape quote read) := by
        rw [step, if_neg hb, if_pos hbackslash]
      have hclose : step (.escape quote read) c = ([], .text quote (c :: backslash :: read)) := if_pos hwild
      rw [steps, hopen, steps, hclose, steps_plain hquote hrest.2.2, hbackslash]
      simp
    · rw [steps, step_text hb hbackslash, steps_plain hquote hrest]
      simp

/-- Digits belong to words. -/
theorem isWordByte_of_isDigit {b : UInt8} (h : isDigit b) : isWordByte b := by
  simp [isWordByte, h]

/-- Digits are no quotes. -/
theorem not_isQuote_of_isDigit {b : UInt8} (h : isDigit b) : ¬ IsQuote b := by
  rintro (rfl | rfl)
  · exact absurd h (by decide)
  · exact absurd h (by decide)

/-- The bytes of a literal, compared one by one. -/
theorem not_isQuote_of_all {bytes : List UInt8} (h : bytes.all (fun b => !decide (IsQuote b)) = true) :
    ∀ b ∈ bytes, ¬ IsQuote b :=
  fun b hb => by simpa using List.all_eq_true.mp h b hb

/-- A digit begins a word. -/
theorem enter_of_isDigit {b : UInt8} (h : isDigit b) : enter b = ([], .word [b]) := by
  have hspace : ¬ isSpace b := by
    simp only [isDigit, isSpace, Bool.and_eq_true, Bool.or_eq_true, decide_eq_true_eq, beq_iff_eq,
      UInt8.le_iff_toNat_le, ← UInt8.toNat_inj] at h ⊢
    simp only [UInt8.reduceToNat] at h ⊢
    omega
  have hne {c : UInt8} (hc : isDigit c = false) : b ≠ c := fun heq => by simp [heq, hc] at h
  rw [enter, if_neg hspace, if_neg (not_isQuote_of_isDigit h), if_neg (hne rfl), if_neg (hne rfl), if_neg (hne rfl),
    if_pos (isWordByte_of_isDigit h)]

/-- A word is read to its end. -/
theorem steps_word {bytes : List UInt8} (h : ∀ b ∈ bytes, isWordByte b) (read : List UInt8) :
    steps (.word read) bytes = ([], .word (bytes.reverse ++ read)) := by
  induction bytes generalizing read with
  | nil => rfl
  | cons b bytes ih =>
    obtain ⟨hb, hbytes⟩ := List.forall_mem_cons.mp h
    have hstep : step (.word read) b = ([], .word (b :: read)) := if_pos hb
    rw [steps, hstep, ih hbytes, List.reverse_cons, List.append_assoc]
    rfl

/-- A name in backticks is read to its end. -/
theorem steps_name {bytes : List UInt8} (h : backtick ∉ bytes) (read : List UInt8) :
    steps (.name read) bytes = ([], .name (bytes.reverse ++ read)) := by
  induction bytes generalizing read with
  | nil => rfl
  | cons b bytes ih =>
    obtain ⟨hb, hbytes⟩ := List.ne_and_not_mem_of_not_mem_cons h
    have hstep : step (.name read) b = ([], .name (b :: read)) := if_neg hb.symm
    rw [steps, hstep, ih hbytes, List.reverse_cons, List.append_assoc]
    rfl

/-- A plain value, and a piece of text that ends it. -/
theorem lexFrom_value {quote : UInt8} (hquote : IsQuote quote) {value piece : List UInt8} (h : Plain quote value)
    {tokens : List Token} {m : Mode}
    (hpiece : ∀ read, steps (.text quote read) piece = (.text read.reverse :: tokens, m)) (rest : List UInt8) :
    lexFrom (.text quote []) (value ++ (piece ++ rest)) =
      (lexFrom m rest).map (.text value :: tokens ++ ·) := by
  rw [lexFrom_append, steps_plain hquote h, lexFrom_append, hpiece, List.append_nil, List.reverse_reverse,
    Option.map_map]
  rfl

/-- Digits between tokens are a word. -/
theorem steps_digits {bytes : List UInt8} (hne : bytes ≠ []) (h : ∀ b ∈ bytes, isDigit b) :
    steps .start bytes = ([], .word bytes.reverse) := by
  obtain ⟨b, rest, rfl⟩ := List.exists_cons_of_ne_nil hne
  obtain ⟨hb, hrest⟩ := List.forall_mem_cons.mp h
  have henter : step .start b = ([], .word [b]) := enter_of_isDigit hb
  rw [steps, henter, steps_word fun c hc => isWordByte_of_isDigit (hrest c hc), List.reverse_cons]
  rfl

/-- Digits, and a piece of text that ends them. -/
theorem lexFrom_digits {bytes piece : List UInt8} (hne : bytes ≠ []) (h : ∀ b ∈ bytes, isDigit b)
    {tokens : List Token} {m : Mode}
    (hpiece : ∀ read, steps (.word read) piece = (.word read.reverse :: tokens, m)) (rest : List UInt8) :
    lexFrom .start (bytes ++ (piece ++ rest)) = (lexFrom m rest).map (.word bytes :: tokens ++ ·) := by
  rw [lexFrom_append, steps_digits hne h, lexFrom_append, hpiece, List.reverse_reverse, Option.map_map]
  rfl

/-! ## String literals -/

/-- A string literal is no shorter than its value between quotes, and no longer only if the value is plain. -/
structure Reads (literal value : List UInt8) : Prop where
  delimited : Delimited IsQuote literal value
  exact : literal.length = value.length + 2 → ∃ quote, literal = quote :: (value ++ [quote]) ∧ Plain quote value

/-- Within a string literal: the rest of its value, from what is held of it and the text, and the literals
behind it. -/
def Within (quote : UInt8) (held : List UInt8) (text read : List UInt8) (values : List (List UInt8)) : Prop :=
  ∃ content value rest others, values = (read.reverse ++ value) :: others ∧ text = content ++ quote :: rest ∧
    value.length ≤ (held ++ content).length ∧
      (value.length = (held ++ content).length → value = held ++ content ∧ Plain quote (held ++ content)) ∧
        Literals Reads rest others

/-- The literals of a text, from a mode on. -/
def Pending (text : List UInt8) (values : List (List UInt8)) : Mode → Prop
  | .text quote read => Within quote [] text read values
  | .escape quote read => Within quote [backslash] text read values
  | .textQuote quote read => (∃ others, values = read.reverse :: others ∧ Literals Reads text others) ∨
      Within quote [quote] text read values
  | _ => Literals Reads text values

/-- The string literal that a mode is in has a quote. -/
def Quoted : Mode → Prop
  | .text quote _ => IsQuote quote
  | .escape quote _ => IsQuote quote
  | .textQuote quote _ => IsQuote quote
  | _ => True

variable {quote b u : UInt8} {held text read : List UInt8} {values : List (List UInt8)}

/-- The byte held is the next of the text. -/
theorem Within.hold (h : Within quote [b] text read values) : Within quote [] (b :: text) read values := by
  obtain ⟨content, value, rest, others, hvalues, rfl, hle, hexact, hrest⟩ := h
  exact ⟨b :: content, value, rest, others, hvalues, rfl, hle, hexact, hrest⟩

/-- One byte of a value for two of the text. -/
theorem Within.shrink (h : Within quote [] text (u :: read) values) (c : UInt8) :
    Within quote [c] (b :: text) read values := by
  obtain ⟨content, value, rest, others, rfl, rfl, hle, -, hrest⟩ := h
  refine ⟨b :: content, u :: value, rest, others, by simp, rfl, ?_, fun heq => ?_, hrest⟩
  · simp only [List.nil_append, List.length_cons, List.length_append, List.length_nil] at hle ⊢
    omega
  · simp only [List.nil_append, List.length_cons, List.length_append, List.length_nil] at hle heq
    omega

/-- A byte that stands for itself. -/
theorem Within.same (h : Within quote [] text (b :: read) values) (hquote : b ≠ quote)
    (hbackslash : b ≠ backslash) : Within quote [] (b :: text) read values := by
  obtain ⟨content, value, rest, others, rfl, rfl, hle, hexact, hrest⟩ := h
  refine ⟨b :: content, b :: value, rest, others, by simp, rfl, Nat.succ_le_succ hle, fun heq => ?_, hrest⟩
  obtain ⟨hvalue, hplain⟩ := hexact (Nat.succ.inj heq)
  exact ⟨congrArg (b :: ·) hvalue, hquote, fun h => absurd h hbackslash, hplain⟩

/-- A wildcard behind a backslash: both stand for themselves. -/
theorem Within.wildcard (h : Within quote [] text (b :: backslash :: read) values) (hquote : IsQuote quote)
    (hb : b = percent ∨ b = underscore) : Within quote [backslash] (b :: text) read values := by
  obtain ⟨content, value, rest, others, rfl, rfl, hle, hexact, hrest⟩ := h
  refine ⟨b :: content, backslash :: b :: value, rest, others, by simp, rfl, ?_, fun heq => ?_, hrest⟩
  · exact Nat.succ_le_succ (Nat.succ_le_succ hle)
  · obtain ⟨rfl, hplain⟩ := hexact (Nat.succ.inj (Nat.succ.inj heq))
    have hne : b ≠ quote ∧ b ≠ backslash := by
      rcases hb with rfl | rfl
      · rcases hquote with rfl | rfl
        · decide
        · decide
      · rcases hquote with rfl | rfl
        · decide
        · decide
    exact ⟨rfl, hquote.ne_backslash.symm, fun _ => hb.imp (congrArg some) (congrArg some), hne.1,
      fun h => absurd h hne.2, hplain⟩

/-- A complete literal at the start of the text. -/
theorem Within.literals (h : Within quote [] text [] values) (hquote : IsQuote quote) :
    Literals Reads (quote :: text) values := by
  obtain ⟨content, value, rest, others, rfl, rfl, hle, hexact, hrest⟩ := h
  have hliteral : Reads (quote :: (content ++ [quote])) value := by
    refine ⟨⟨⟨quote, _, rfl, hquote⟩, ⟨quote :: content, quote, rfl, hquote⟩, ?_⟩, fun heq => ⟨quote, ?_⟩⟩
    · simpa using hle
    · obtain ⟨rfl, hplain⟩ := hexact (by simpa using heq.symm)
      exact ⟨rfl, hplain⟩
  have hcons := Literals.cons [] hliteral hrest
  simpa using hcons

/-- A mode outside string literals. -/
def Outside : Mode → Prop
  | .text _ _ => False
  | .escape _ _ => False
  | .textQuote _ _ => False
  | _ => True

/-- A mode outside string literals has no quote of its own. -/
theorem Outside.quoted {m : Mode} (h : Outside m) : Quoted m := by
  cases m <;> first | exact trivial | exact absurd h id

/-- Outside of string literals the literals to come are those of the text. -/
theorem Outside.pending {m : Mode} (h : Outside m) : Pending text values m ↔ Literals Reads text values := by
  cases m <;> first | exact Iff.rfl | exact absurd h id

/-- A byte between tokens starts a string literal, or is none of its business. -/
theorem enter_cases (b : UInt8) : IsQuote b ∧ enter b = ([], .text b []) ∨
    texts (enter b).1 = [] ∧ Outside (enter b).2 := by
  rw [enter]
  split_ifs with _ hquote
  · exact Or.inr ⟨rfl, trivial⟩
  · exact Or.inl ⟨hquote, rfl⟩
  all_goals exact Or.inr ⟨rfl, trivial⟩

/-- What the rest of the text has, whatever mode it is read from. -/
def ReadsOn (text : List UInt8) : Prop :=
  ∀ m tokens, Quoted m → lexFrom m text = some tokens → Pending text (texts tokens) m

/-- A byte between tokens. -/
theorem ReadsOn.enter (h : ReadsOn text) {tokens : List Token}
    (hlex : (lexFrom (enter b).2 text).map ((Sql.enter b).1 ++ ·) = some tokens) :
    Literals Reads (b :: text) (texts tokens) := by
  obtain ⟨rest, hrest, rfl⟩ := Option.map_eq_some_iff.mp hlex
  rcases enter_cases b with ⟨hquote, heq⟩ | ⟨hnone, hout⟩
  · rw [heq] at hrest ⊢
    exact (h (.text b []) rest hquote hrest).literals hquote
  · rw [texts_append, hnone, List.nil_append]
    exact (hout.pending.mp (h _ rest hout.quoted hrest)).append_left [b]

/-- A byte that ends a token. -/
theorem ReadsOn.leave (h : ReadsOn text) {token : Token} {tokens : List Token}
    (hlex : (lexFrom (leave token b).2 text).map ((Sql.leave token b).1 ++ ·) = some tokens) :
    ∃ rest, tokens = token :: rest ∧ Literals Reads (b :: text) (texts rest) := by
  obtain ⟨rest, hrest, rfl⟩ := Option.map_eq_some_iff.mp hlex
  exact ⟨(Sql.enter b).1 ++ rest, rfl, h.enter (Option.map_eq_some_iff.mpr ⟨rest, hrest, rfl⟩)⟩

/-- One byte within a string literal. -/
theorem ReadsOn.ofText (h : ReadsOn text) (hquote : IsQuote quote) {tokens : List Token}
    (hlex : lexFrom (.text quote read) (b :: text) = some tokens) :
    Within quote [] (b :: text) read (texts tokens) := by
  rw [lexFrom, step] at hlex
  split_ifs at hlex with hb hbackslash
  · obtain ⟨rest, hrest, rfl⟩ := Option.map_eq_some_iff.mp hlex
    subst hb
    rcases h (.textQuote b read) rest hquote hrest with ⟨others, hvalues, hothers⟩ | hwithin
    · exact ⟨[], [], text, others, by simpa using hvalues, rfl, le_rfl, fun _ => ⟨rfl, trivial⟩, hothers⟩
    · exact hwithin.hold
  · obtain ⟨rest, hrest, rfl⟩ := Option.map_eq_some_iff.mp hlex
    subst hbackslash
    exact (h (.escape quote read) rest hquote hrest).hold
  · obtain ⟨rest, hrest, rfl⟩ := Option.map_eq_some_iff.mp hlex
    exact (h (.text quote (b :: read)) rest hquote hrest).same hb hbackslash

/-- One byte behind a backslash. -/
theorem ReadsOn.ofEscape (h : ReadsOn text) (hquote : IsQuote quote) {tokens : List Token}
    (hlex : lexFrom (.escape quote read) (b :: text) = some tokens) :
    Within quote [backslash] (b :: text) read (texts tokens) := by
  rw [lexFrom, step] at hlex
  split_ifs at hlex with hwild
  · obtain ⟨rest, hrest, rfl⟩ := Option.map_eq_some_iff.mp hlex
    exact (h (.text quote (b :: backslash :: read)) rest hquote hrest).wildcard hquote hwild
  · obtain ⟨rest, hrest, rfl⟩ := Option.map_eq_some_iff.mp hlex
    exact (h (.text quote (unescape b :: read)) rest hquote hrest).shrink backslash

/-- One byte behind a quote within a string literal. -/
theorem ReadsOn.ofTextQuote (h : ReadsOn text) (hquote : IsQuote quote) {tokens : List Token}
    (hlex : lexFrom (.textQuote quote read) (b :: text) = some tokens) :
    Pending (b :: text) (texts tokens) (.textQuote quote read) := by
  rw [lexFrom, step] at hlex
  split_ifs at hlex with hb
  · obtain ⟨rest, hrest, rfl⟩ := Option.map_eq_some_iff.mp hlex
    exact Or.inr ((h (.text quote (b :: read)) rest hquote hrest).shrink quote)
  · obtain ⟨rest, rfl, hliterals⟩ := h.leave hlex
    exact Or.inl ⟨texts rest, rfl, hliterals⟩

/-- A byte outside string literals ends tokens without one, or enters a token behind such. -/
theorem step_cases {m : Mode} (hm : Outside m) (b : UInt8) :
    (texts (step m b).1 = [] ∧ Outside (step m b).2) ∨
      ∃ front, texts front = [] ∧ step m b = (front ++ (enter b).1, (enter b).2) := by
  cases m with
  | start => exact Or.inr ⟨[], rfl, rfl⟩
  | word read =>
    rw [step]
    split
    · exact Or.inl ⟨rfl, trivial⟩
    · exact Or.inr ⟨[.word read.reverse], rfl, rfl⟩
  | name read =>
    rw [step]
    split
    · exact Or.inl ⟨rfl, trivial⟩
    · exact Or.inl ⟨rfl, trivial⟩
  | nameQuote read =>
    rw [step]
    split
    · exact Or.inl ⟨rfl, trivial⟩
    · exact Or.inr ⟨[.name read.reverse], rfl, rfl⟩
  | text => exact absurd hm id
  | escape => exact absurd hm id
  | textQuote => exact absurd hm id
  | dash =>
    rw [step]
    split
    · exact Or.inl ⟨rfl, trivial⟩
    · exact Or.inr ⟨[.symbol dash], rfl, rfl⟩
  | dashes =>
    rw [step]
    split_ifs
    · exact Or.inl ⟨rfl, trivial⟩
    · exact Or.inl ⟨rfl, trivial⟩
    · exact Or.inl ⟨rfl, trivial⟩
    · exact Or.inr ⟨[.symbol dash, .symbol dash], rfl, rfl⟩
  | comment =>
    rw [step]
    split
    · exact Or.inl ⟨rfl, trivial⟩
    · exact Or.inl ⟨rfl, trivial⟩

/-- One byte outside string literals. -/
theorem ReadsOn.ofOutside (h : ReadsOn text) {m : Mode} (hm : Outside m) {tokens : List Token}
    (hlex : lexFrom m (b :: text) = some tokens) : Literals Reads (b :: text) (texts tokens) := by
  rw [lexFrom] at hlex
  obtain ⟨rest, hrest, rfl⟩ := Option.map_eq_some_iff.mp hlex
  rw [texts_append]
  rcases step_cases hm b with ⟨hnone, hout⟩ | ⟨front, hnone, heq⟩
  · rw [hnone, List.nil_append]
    exact (hout.pending.mp (h _ rest hout.quoted hrest)).append_left [b]
  · rw [heq] at hrest ⊢
    rw [texts_append, hnone, List.nil_append, ← texts_append]
    exact h.enter (Option.map_eq_some_iff.mpr ⟨rest, hrest, rfl⟩)

/-- The end of a text. -/
theorem readsOn_nil : ReadsOn [] := by
  intro m tokens _ hlex
  cases m with
  | text => exact nomatch hlex
  | escape => exact nomatch hlex
  | name => exact nomatch hlex
  | textQuote => exact Option.some.inj hlex ▸ Or.inl ⟨[], rfl, .nil []⟩
  | start => exact Option.some.inj hlex ▸ .nil []
  | word => exact Option.some.inj hlex ▸ .nil []
  | nameQuote => exact Option.some.inj hlex ▸ .nil []
  | dash => exact Option.some.inj hlex ▸ .nil []
  | dashes => exact Option.some.inj hlex ▸ .nil []
  | comment => exact Option.some.inj hlex ▸ .nil []

/-- The lexer reads the literals of a text, byte by byte. -/
theorem readsOn (text : List UInt8) : ReadsOn text := by
  induction text with
  | nil => exact readsOn_nil
  | cons b text ih =>
    intro m tokens hquoted hlex
    cases m with
    | text => exact ih.ofText hquoted hlex
    | escape => exact ih.ofEscape hquoted hlex
    | textQuote => exact ih.ofTextQuote hquoted hlex
    | start => exact ih.ofOutside (m := .start) trivial hlex
    | word => exact ih.ofOutside (m := .word _) trivial hlex
    | name => exact ih.ofOutside (m := .name _) trivial hlex
    | nameQuote => exact ih.ofOutside (m := .nameQuote _) trivial hlex
    | dash => exact ih.ofOutside (m := .dash) trivial hlex
    | dashes => exact ih.ofOutside (m := .dashes) trivial hlex
    | comment => exact ih.ofOutside (m := .comment) trivial hlex

/-- The string literals among the tokens of a text are literals of the text. -/
theorem literals_of_lex {text : List UInt8} {tokens : List Token} (h : lex text = some tokens) :
    Literals Reads text (texts tokens) := readsOn text .start tokens trivial h

end Sql
