import CppProject.Lib.SqlLexer
import Mathlib.Data.Nat.Digits.Defs

/-!
# Update statements

`update table set column = value, ... where column = value`, with numbers and string literals as values.
String literals next to each other are one literal. Statements of any other form are not read.
-/

namespace Sql

open QuotedText

/-! ## Numbers -/

/-- The decimal digits of a number. -/
def decimal (n : ℕ) : List UInt8 :=
  if n = 0 then [48] else (Nat.digits 10 n).reverse.map fun d => 48 + UInt8.ofNat d

/-- The number that digits stand for. -/
def number (digits : List UInt8) : ℕ := digits.foldl (fun n b => 10 * n + (b.toNat - 48)) 0

/-- A decimal digit is written as one byte. -/
theorem isDigit_of_lt {d : ℕ} (h : d < 10) :
    isDigit (48 + UInt8.ofNat d) = true ∧ (48 + UInt8.ofNat d).toNat - 48 = d := by
  revert d
  decide

/-- A number has a digit, and nothing but digits. -/
theorem decimal_digits (n : ℕ) : decimal n ≠ [] ∧ ∀ b ∈ decimal n, isDigit b := by
  rw [decimal]
  split
  · exact ⟨List.cons_ne_nil _ _, fun b hb => List.mem_singleton.mp hb ▸ rfl⟩
  · rename_i hn
    refine ⟨by simpa [Nat.digits_eq_nil_iff_eq_zero] using hn, fun b hb => ?_⟩
    obtain ⟨d, hd, rfl⟩ := List.mem_map.mp hb
    exact (isDigit_of_lt (Nat.digits_lt_base (by decide) (List.mem_reverse.mp hd))).1

/-- Digit by digit, from the last. -/
theorem foldr_eq_ofDigits {digits : List ℕ} (h : ∀ d ∈ digits, d < 10) :
    digits.foldr (fun d n => 10 * n + ((48 + UInt8.ofNat d).toNat - 48)) 0 = Nat.ofDigits 10 digits := by
  induction digits with
  | nil => rfl
  | cons d digits ih =>
    obtain ⟨hd, hdigits⟩ := List.forall_mem_cons.mp h
    rw [List.foldr_cons, ih hdigits, (isDigit_of_lt hd).2, Nat.ofDigits_cons, add_comm]

/-- A number is read as it was written. -/
theorem number_decimal (n : ℕ) : number (decimal n) = n := by
  rw [decimal]
  split
  · rename_i hn
    exact hn.symm
  · rw [number, List.foldl_map, List.foldl_reverse,
      foldr_eq_ofDigits fun d hd => Nat.digits_lt_base (by decide) hd, Nat.ofDigits_digits]

/-! ## Statements -/

/-- The values of columns. -/
inductive Value
  | number (n : ℕ)
  | text (bytes : List UInt8)
  deriving DecidableEq

/-- The string literal of a value. -/
def Value.texts : Value → List (List UInt8)
  | .number _ => []
  | .text bytes => [bytes]

/-- `update table set assignments where column = value`. -/
structure Update where
  table : List UInt8
  assignments : List (List UInt8 × Value)
  whereColumn : List UInt8
  whereValue : Value
  deriving DecidableEq

/-- The values of the string literals of a statement. -/
def Update.texts (u : Update) : List (List UInt8) :=
  u.assignments.flatMap (fun assignment => assignment.2.texts) ++ u.whereValue.texts

/-- String literals next to each other are one. -/
def merge : List Token → List Token
  | [] => []
  | .text bytes :: rest => match merge rest with
    | .text more :: rest => .text (bytes ++ more) :: rest
    | rest => .text bytes :: rest
  | token :: rest => token :: merge rest

/-- A keyword, in upper or lower case. -/
def Token.isKeyword (keyword : String) : Token → Bool
  | .word bytes => (bytes.map fun b => if 65 ≤ b && b ≤ 90 then b + 32 else b) == ascii keyword
  | _ => false

/-- The name of a table or a column. -/
def Token.identifier : Token → Option (List UInt8)
  | .word bytes => if bytes.all isDigit then none else some bytes
  | .name bytes => some bytes
  | _ => none

/-- A value. -/
def Token.value : Token → Option Value
  | .word bytes => if bytes.all isDigit then some (.number (number bytes)) else none
  | .text bytes => some (.text bytes)
  | _ => none

/-- `column = value, ..., column = value`, and the tokens behind. -/
def parseAssignments : List Token → Option (List (List UInt8 × Value) × List Token)
  | column :: .symbol 61 :: value :: .symbol 44 :: rest =>
    column.identifier.bind fun column => value.value.bind fun value =>
      (parseAssignments rest).map fun (assignments, rest) => ((column, value) :: assignments, rest)
  | column :: .symbol 61 :: value :: rest =>
    column.identifier.bind fun column => value.value.map fun value => ([(column, value)], rest)
  | _ => none

/-- `where column = value`, up to the end. -/
def parseWhere (table : List UInt8) (assignments : List (List UInt8 × Value)) : List Token → Option Update
  | [keyword, column, .symbol 61, value] =>
    if keyword.isKeyword "where" then
      column.identifier.bind fun column => value.value.map fun value => ⟨table, assignments, column, value⟩
    else none
  | _ => none

/-- A whole statement. -/
def parseUpdate : List Token → Option Update
  | update :: table :: set :: rest =>
    if update.isKeyword "update" && set.isKeyword "set" then
      table.identifier.bind fun table => (parseAssignments rest).bind fun (assignments, rest) =>
        parseWhere table assignments rest
    else none
  | _ => none

/-- The statement that a text is. -/
def readUpdate (text : List UInt8) : Option Update := (lex text).bind fun tokens => parseUpdate (merge tokens)

/-! ## The tokens of a statement -/

/-- A value as a token. -/
def Value.token : Value → Token
  | .number n => .word (decimal n)
  | .text bytes => .text bytes

/-- The tokens of assignments, with the names of the columns in backticks, and of what is behind them. -/
def assignmentTokens (rest : List Token) : List (List UInt8 × Value) → List Token
  | [] => rest
  | [(column, value)] => .name column :: .symbol equals :: value.token :: rest
  | (column, value) :: next :: assignments =>
    .name column :: .symbol equals :: value.token :: .symbol comma :: assignmentTokens rest (next :: assignments)

/-- The tokens of a statement. -/
def Update.tokens (u : Update) : List Token :=
  .word (ascii "update") :: .word u.table :: .word (ascii "set") ::
    assignmentTokens [.word (ascii "where"), .word u.whereColumn, .symbol equals, u.whereValue.token] u.assignments

/-- A value is read back from its token. -/
theorem Value.value_token (v : Value) : v.token.value = some v := by
  cases v with
  | number n => rw [Value.token, Token.value, if_pos (List.all_eq_true.mpr (decimal_digits n).2), number_decimal]
  | text bytes => rfl

/-- A value is not merged with a word or a symbol behind it. -/
theorem merge_value (v : Value) {token : Token} (h : texts [token] = []) (rest : List Token) :
    merge (v.token :: token :: rest) = v.token :: merge (token :: rest) := by
  cases v with
  | number n => rfl
  | text bytes =>
    cases token with
    | word => rfl
    | name => rfl
    | text => exact nomatch h
    | symbol => rfl

/-- The tokens of assignments have no string literals next to each other. -/
theorem merge_assignmentTokens (word : List UInt8) (rest : List Token) (assignments : List (List UInt8 × Value)) :
    merge (assignmentTokens (.word word :: rest) assignments) =
      assignmentTokens (.word word :: merge rest) assignments := by
  induction assignments using assignmentTokens.induct with
  | case1 => rfl
  | case2 column value =>
    exact congrArg (Token.name column :: Token.symbol equals :: ·) (merge_value value rfl rest)
  | case3 column value next assignments ih =>
    rw [assignmentTokens, assignmentTokens, ← ih]
    exact congrArg (Token.name column :: Token.symbol equals :: ·) (merge_value value rfl _)

/-- Assignments are read back from their tokens. -/
theorem parseAssignments_tokens (word : List UInt8) (rest : List Token)
    {assignments : List (List UInt8 × Value)} (hne : assignments ≠ []) :
    parseAssignments (assignmentTokens (.word word :: rest) assignments) =
      some (assignments, .word word :: rest) := by
  induction assignments using assignmentTokens.induct with
  | case1 => exact absurd rfl hne
  | case2 column value =>
    have hread : parseAssignments (.name column :: .symbol equals :: value.token :: .word word :: rest) =
        value.token.value.map fun value => ([(column, value)], .word word :: rest) := rfl
    rw [assignmentTokens, hread, value.value_token]
    rfl
  | case3 column value next assignments ih =>
    have hread (tokens : List Token) :
        parseAssignments (.name column :: .symbol equals :: value.token :: .symbol comma :: tokens) =
          value.token.value.bind fun value =>
            (parseAssignments tokens).map fun (assignments, rest) => ((column, value) :: assignments, rest) := rfl
    rw [assignmentTokens, hread, value.value_token, ih (List.cons_ne_nil _ _)]
    rfl

/-- A word that is no number is a name. -/
theorem Token.identifier_word {bytes : List UInt8} (h : bytes.all isDigit = false) :
    (Token.word bytes).identifier = some bytes := by
  rw [Token.identifier, h]
  rfl

/-- The tokens of a statement with a column at least are read as this statement. -/
theorem parseUpdate_tokens {u : Update} (hassignments : u.assignments ≠ []) (htable : u.table.all isDigit = false)
    (hwhere : u.whereColumn.all isDigit = false) : parseUpdate (merge u.tokens) = some u := by
  have hlast : merge [u.whereValue.token] = [u.whereValue.token] := by
    cases u.whereValue with
    | number => rfl
    | text => rfl
  have hmerge : merge u.tokens = .word (ascii "update") :: .word u.table :: .word (ascii "set") ::
      assignmentTokens [.word (ascii "where"), .word u.whereColumn, .symbol equals, u.whereValue.token]
        u.assignments := by
    rw [Update.tokens, merge, merge, merge, merge_assignmentTokens, merge, merge, hlast]
    all_goals simp
  have hread (tokens : List Token) :
      parseUpdate (.word (ascii "update") :: .word u.table :: .word (ascii "set") :: tokens) =
        (Token.word u.table).identifier.bind fun table => (parseAssignments tokens).bind fun (assignments, rest) =>
          parseWhere table assignments rest := rfl
  have hcondition (value : Token) :
      parseWhere u.table u.assignments [.word (ascii "where"), .word u.whereColumn, .symbol equals, value] =
        (Token.word u.whereColumn).identifier.bind fun column => value.value.map fun value =>
          ⟨u.table, u.assignments, column, value⟩ := rfl
  rw [hmerge, hread, Token.identifier_word htable, Option.bind_some, parseAssignments_tokens _ _ hassignments,
    Option.bind_some]
  refine (hcondition _).trans ?_
  rw [Token.identifier_word hwhere, Option.bind_some, Value.value_token]
  rfl

/-! ## The string literals of a statement -/

/-- Two literals are one, and longer by more than two. -/
theorem Reads.merge {left right bytes more : List UInt8} (hleft : Reads left bytes) (hright : Reads right more)
    (between : List UInt8) : Reads (left ++ (between ++ right)) (bytes ++ more) := by
  have hlength : bytes.length + 2 + (more.length + 2) ≤ left.length + right.length :=
    Nat.add_le_add hleft.delimited.length hright.delimited.length
  obtain ⟨a, rest, rfl, ha⟩ := hleft.delimited.starts
  obtain ⟨before, b, rfl, hb⟩ := hright.delimited.ends
  refine ⟨⟨⟨a, rest ++ (between ++ (before ++ [b])), rfl, ha⟩,
    ⟨a :: rest ++ (between ++ before), b, by simp, hb⟩, ?_⟩, fun h => ?_⟩
  · simp only [List.length_append, List.length_cons, List.length_nil] at hlength ⊢
    omega
  · simp only [List.length_append, List.length_cons, List.length_nil] at hlength h
    omega

/-- Literals next to each other may be read as one. -/
theorem literals_merge {tokens : List Token} {text : List UInt8} (h : Literals Reads text (texts tokens)) :
    Literals Reads text (texts (merge tokens)) := by
  induction tokens generalizing text with
  | nil => exact h
  | cons token tokens ih =>
    cases token with
    | text bytes =>
      cases h with
      | @cons literal _ rest _ skipped hliteral hrest =>
        have hmerged := ih hrest
        rw [merge]
        split
        · rename_i more tail heq
          rw [heq] at hmerged
          cases hmerged with
          | @cons other _ rest _ between hother hrest =>
            have hboth := Literals.cons skipped (hliteral.merge hother between) hrest
            rwa [List.append_assoc, List.append_assoc] at hboth
        · exact .cons skipped hliteral hmerged
    | word => exact ih h
    | name => exact ih h
    | symbol => exact ih h

/-- A keyword is no string literal. -/
theorem Token.texts_of_isKeyword {token : Token} {keyword : String} (h : token.isKeyword keyword = true)
    (rest : List Token) : Sql.texts (token :: rest) = Sql.texts rest := by
  cases token with
  | word => rfl
  | name => exact nomatch h
  | text => exact nomatch h
  | symbol => exact nomatch h

/-- A name is no string literal. -/
theorem Token.texts_of_identifier {token : Token} {column : List UInt8} (h : token.identifier = some column)
    (rest : List Token) : Sql.texts (token :: rest) = Sql.texts rest := by
  cases token with
  | word => rfl
  | name => rfl
  | text => exact nomatch h
  | symbol => exact nomatch h

/-- A value is a string literal if it is a text. -/
theorem Token.texts_of_value {token : Token} {value : Value} (h : token.value = some value) (rest : List Token) :
    Sql.texts (token :: rest) = value.texts ++ Sql.texts rest := by
  cases token with
  | word bytes =>
    rw [Token.value] at h
    split at h
    · exact Option.some.inj h ▸ rfl
    · exact nomatch h
  | text bytes => exact Option.some.inj h ▸ rfl
  | name => exact nomatch h
  | symbol => exact nomatch h

/-- The string literals of assignments are those of their tokens. -/
theorem texts_of_parseAssignments {tokens rest : List Token} {assignments : List (List UInt8 × Value)}
    (h : parseAssignments tokens = some (assignments, rest)) :
    texts tokens = assignments.flatMap (fun assignment => assignment.2.texts) ++ texts rest := by
  induction tokens using parseAssignments.induct generalizing assignments rest with
  | case1 column value tokens ih =>
    simp only [parseAssignments, Option.bind_eq_some_iff, Option.map_eq_some_iff] at h
    obtain ⟨name, hname, val, hval, ⟨others, behind⟩, hothers, heq⟩ := h
    obtain ⟨rfl, rfl⟩ := Prod.mk.inj heq
    rw [Token.texts_of_identifier hname]
    exact (Token.texts_of_value hval _).trans (by rw [List.flatMap_cons, List.append_assoc, ← ih hothers]; rfl)
  | case2 column value tokens hlast =>
    rw [parseAssignments] at h
    · simp only [Option.bind_eq_some_iff, Option.map_eq_some_iff] at h
      obtain ⟨name, hname, val, hval, heq⟩ := h
      obtain ⟨rfl, rfl⟩ := Prod.mk.inj heq
      rw [Token.texts_of_identifier hname]
      exact (Token.texts_of_value hval _).trans (by simp)
    · exact hlast
  | case3 tokens hnone hnone' =>
    rw [parseAssignments] at h
    · exact nomatch h
    · exact hnone
    · exact hnone'

/-- The string literals of a condition are those of the statement. -/
theorem texts_of_parseWhere {table : List UInt8} {assignments : List (List UInt8 × Value)} {tokens : List Token}
    {u : Update} (h : parseWhere table assignments tokens = some u) :
    assignments.flatMap (fun assignment => assignment.2.texts) ++ texts tokens = u.texts := by
  rw [parseWhere.eq_def] at h
  split at h
  · split at h
    · rename_i hkeyword
      obtain ⟨name, hname, h⟩ := Option.bind_eq_some_iff.mp h
      obtain ⟨val, hval, rfl⟩ := Option.map_eq_some_iff.mp h
      rw [Token.texts_of_isKeyword hkeyword, Token.texts_of_identifier hname]
      have hvalue := Token.texts_of_value hval []
      exact congrArg _ (hvalue.trans (List.append_nil _))
    · exact nomatch h
  · exact nomatch h

/-- The string literals of a statement are those of its tokens. -/
theorem texts_of_parseUpdate {tokens : List Token} {u : Update} (h : parseUpdate tokens = some u) :
    texts tokens = u.texts := by
  match tokens with
  | update :: table :: set :: rest =>
    rw [parseUpdate] at h
    split at h
    · rename_i hkeywords
      obtain ⟨hupdate, hset⟩ := Bool.and_eq_true_iff.mp hkeywords
      obtain ⟨name, hname, h⟩ := Option.bind_eq_some_iff.mp h
      obtain ⟨⟨assignments, behind⟩, hassignments, hwhere⟩ := Option.bind_eq_some_iff.mp h
      rw [Token.texts_of_isKeyword hupdate, Token.texts_of_identifier hname, Token.texts_of_isKeyword hset,
        texts_of_parseAssignments hassignments, texts_of_parseWhere hwhere]
    · exact nomatch h

/-- When the values of a statement are the ones its text quotes, each of them stands for itself there. -/
theorem plain_of_readUpdate {gap : List UInt8} {items : List (List UInt8 × List UInt8)} {u : Update}
    (hgap : ∀ b ∈ gap, ¬ IsQuote b) (hitems : ∀ item ∈ items, ∀ b ∈ item.2, ¬ IsQuote b)
    (hread : readUpdate (quoted apostrophe gap items) = some u) (hvalues : u.texts = items.map Prod.fst) :
    ∀ item ∈ items, Plain apostrophe item.1 := by
  obtain ⟨tokens, hlex, hparse⟩ := Option.bind_eq_some_iff.mp hread
  have hliterals : Literals Reads (quoted apostrophe gap items) (items.map Prod.fst) := by
    rw [← hvalues, ← texts_of_parseUpdate hparse]
    exact literals_merge (literals_of_lex hlex)
  obtain ⟨-, hall⟩ := aligned (fun _ _ h => h.delimited) hgap hitems List.suffix_rfl hliterals
  intro item hitem
  obtain ⟨quote, heq, hplain⟩ := (hall item hitem).exact (by simp)
  rwa [← (List.cons.inj heq).1] at hplain

end Sql
