import CppProject.Lib.SqlUpdate

/-!
# The statement of `updateInfo`

`UserTable::updateInfo` puts the fields of a user between quotes in the text of an update statement, as they
are. `UserTable::insertUser` binds the same fields as parameters. An apostrophe in a field ends its string
literal, and a backslash takes the byte behind it along, so the statement is the one meant exactly if
every field stands for itself between apostrophes.
-/

namespace CppProject.DBPool

open Sql QuotedText

/-- The fields of `UserTable` that `updateInfo` reads. -/
structure UserTable where
  nSex : UInt8
  nStatus : UInt8
  nDeptId : UInt32
  strNick : List UInt8
  strDomain : List UInt8
  strName : List UInt8
  strTel : List UInt8
  strEmail : List UInt8
  strAvatar : List UInt8
  sign_info : List UInt8
  strCompany : List UInt8
  strAddress : List UInt8

/-- The constructor. -/
def UserTable.init : UserTable where
  nSex := 1
  nStatus := 1
  nDeptId := 0
  strNick := ascii "test"
  strDomain := ascii "test"
  strName := ascii "test"
  strTel := ascii "test"
  strEmail := ascii "test"
  strAvatar := ascii "test"
  sign_info := ascii "test"
  strCompany := ascii "test"
  strAddress := ascii "test"

/-- `int2string`. -/
def int2string (user_id : UInt32) : List UInt8 := decimal user_id.toNat

/-- The text `strSql`. -/
def UserTable.strSql (t : UserTable) (nNow id : UInt32) : List UInt8 :=
  ascii "update IMUser set `sex`=" ++ int2string t.nSex.toUInt32 ++ ascii ", `nick`='" ++ t.strNick
    ++ ascii "', `domain`='" ++ t.strDomain ++ ascii "', `name`='" ++ t.strName ++ ascii "', `phone`='" ++ t.strTel
    ++ ascii "', `email`='" ++ t.strEmail ++ ascii "', `avatar`='" ++ t.strAvatar ++ ascii "', `sign_info`='"
    ++ t.sign_info ++ ascii "', `departId`='" ++ int2string t.nDeptId ++ ascii "', `status`="
    ++ int2string t.nStatus.toUInt32 ++ ascii ", `updated`=" ++ int2string nNow
    ++ ascii ", `company`='" ++ t.strCompany ++ ascii "', `address`='" ++ t.strAddress ++ ascii "' where id="
    ++ int2string id

/-- `UserTable::updateInfo` up to the call of `ExecuteUpdate`: the object, and the statement text. `nNow` is
the time. -/
def UserTable.updateInfo (t : UserTable) (nNow id : UInt32) : UserTable × List UInt8 :=
  let t := { t with strDomain := ascii "naihan" }
  (t, t.strSql nNow id)

/-- The statement meant: the fields as values of their columns, for the user `id`. -/
def UserTable.update (t : UserTable) (nNow id : UInt32) : Update where
  table := ascii "IMUser"
  assignments :=
    [(ascii "sex", .number t.nSex.toNat), (ascii "nick", .text t.strNick), (ascii "domain", .text t.strDomain),
      (ascii "name", .text t.strName), (ascii "phone", .text t.strTel), (ascii "email", .text t.strEmail),
      (ascii "avatar", .text t.strAvatar), (ascii "sign_info", .text t.sign_info),
      (ascii "departId", .text (int2string t.nDeptId)), (ascii "status", .number t.nStatus.toNat),
      (ascii "updated", .number nNow.toNat), (ascii "company", .text t.strCompany),
      (ascii "address", .text t.strAddress)]
  whereColumn := ascii "id"
  whereValue := .number id.toNat

/-- The string fields that are written as they are. -/
def UserTable.fields (t : UserTable) : List (List UInt8) :=
  [t.strNick, t.strName, t.strTel, t.strEmail, t.strAvatar, t.sign_info, t.strCompany, t.strAddress]

/-- It writes digits only. -/
theorem isDigit_int2string (n : UInt32) : ∀ b ∈ int2string n, isDigit b := (decimal_digits _).2

/-- It writes at least one. -/
theorem int2string_ne_nil (n : UInt32) : int2string n ≠ [] := (decimal_digits _).1

/-- Digits stand for themselves between apostrophes. -/
theorem plain_of_isDigit {bytes : List UInt8} (h : ∀ b ∈ bytes, isDigit b) : Plain apostrophe bytes := by
  induction bytes with
  | nil => exact trivial
  | cons b bytes ih =>
    obtain ⟨hb, hbytes⟩ := List.forall_mem_cons.mp h
    have hbackslash : b ≠ backslash := by
      rintro rfl
      exact absurd hb (by decide)
    exact ⟨fun heq => not_isQuote_of_isDigit hb (Or.inl heq), fun heq => absurd heq hbackslash, ih hbytes⟩

/-! ## Reading the statement -/

variable {t : UserTable} {nNow id : UInt32}

/-- The tokens between the value of a column and the value of the next. -/
def nextColumn (column : String) : List Token := [.symbol comma, .name (ascii column), .symbol equals]

/-- Between the values of two string columns. -/
theorem steps_textText (column : String) {piece : String} (hname : backtick ∉ ascii column)
    (hpiece : ascii piece = ascii "', `" ++ ascii column ++ ascii "`='") (read : List UInt8) :
    steps (.text apostrophe read) (ascii piece) = (.text read.reverse :: nextColumn column, .text apostrophe []) := by
  have hopen : steps (.text apostrophe read) (ascii "', `") = ([.text read.reverse, .symbol comma], .name []) := rfl
  have hclose (name) : steps (.name name) (ascii "`='") =
      ([.name name.reverse, .symbol equals], .text apostrophe []) := rfl
  rw [hpiece, steps_append, steps_append, hopen, steps_name hname, hclose]
  simp only [List.append_nil, List.reverse_reverse]
  rfl

/-- The tokens of a text whose values are plain. -/
theorem lex_strSql (hdomain : Plain apostrophe t.strDomain) (h : ∀ value ∈ t.fields, Plain apostrophe value) :
    lex (t.strSql nNow id) = some (t.update nNow id).tokens := by
  simp only [UserTable.fields, List.forall_mem_cons, List.not_mem_nil, false_imp_iff, implies_true, and_true] at h
  obtain ⟨hNick, hName, hTel, hEmail, hAvatar, hsign, hCompany, hAddress⟩ := h
  -- the pieces of the text that start or end with a number
  have hsex : steps .start (ascii "update IMUser set `sex`=") =
      ([.word (ascii "update"), .word (ascii "IMUser"), .word (ascii "set"), .name (ascii "sex"), .symbol equals],
        .start) := rfl
  have hnick (read) : steps (.word read) (ascii ", `nick`='") =
      (.word read.reverse :: nextColumn "nick", .text apostrophe []) := rfl
  have hstatus (read) : steps (.text apostrophe read) (ascii "', `status`=") =
      (.text read.reverse :: nextColumn "status", .start) := rfl
  have hupdated (read) : steps (.word read) (ascii ", `updated`=") =
      (.word read.reverse :: nextColumn "updated", .start) := rfl
  have hcompany (read) : steps (.word read) (ascii ", `company`='") =
      (.word read.reverse :: nextColumn "company", .text apostrophe []) := rfl
  have hwhere (read) : steps (.text apostrophe read) (ascii "' where id=") =
      (.text read.reverse :: [.word (ascii "where"), .word (ascii "id"), .symbol equals], .start) := rfl
  have hid : lexFrom .start (int2string id) = some [.word (int2string id)] := by
    rw [← List.append_nil (int2string id), lexFrom_append,
      steps_digits (int2string_ne_nil id) (isDigit_int2string id), List.append_nil]
    simp [lexFrom, finish]
  -- a string literal or a number, and the piece behind it
  have htext {value : List UInt8} (hvalue : Plain apostrophe value) (piece : String) {tokens : List Token} {m : Mode}
      (hpiece : ∀ read, steps (.text apostrophe read) (ascii piece) = (.text read.reverse :: tokens, m)) :=
    lexFrom_value (Or.inl rfl) hvalue hpiece
  have hnumber (n : UInt32) {piece : List UInt8} {tokens : List Token} {m : Mode}
      (hpiece : ∀ read, steps (.word read) piece = (.word read.reverse :: tokens, m)) :=
    lexFrom_digits (int2string_ne_nil n) (isDigit_int2string n) hpiece
  unfold UserTable.strSql
  simp only [List.append_assoc]
  rw [lex, lexFrom_append, hsex, hnumber _ hnick,
    htext hNick "', `domain`='" (steps_textText "domain" (by decide) rfl),
    htext hdomain "', `name`='" (steps_textText "name" (by decide) rfl),
    htext hName "', `phone`='" (steps_textText "phone" (by decide) rfl),
    htext hTel "', `email`='" (steps_textText "email" (by decide) rfl),
    htext hEmail "', `avatar`='" (steps_textText "avatar" (by decide) rfl),
    htext hAvatar "', `sign_info`='" (steps_textText "sign_info" (by decide) rfl),
    htext hsign "', `departId`='" (steps_textText "departId" (by decide) rfl),
    htext (plain_of_isDigit (isDigit_int2string _)) _ hstatus, hnumber _ hupdated, hnumber _ hcompany,
    htext hCompany "', `address`='" (steps_textText "address" (by decide) rfl),
    htext hAddress _ hwhere, hid]
  rfl

/-- A statement whose fields are plain is the one meant. -/
theorem readUpdate_strSql (hdomain : Plain apostrophe t.strDomain) (h : ∀ value ∈ t.fields, Plain apostrophe value) :
    readUpdate (t.strSql nNow id) = some (t.update nNow id) := by
  rw [readUpdate, lex_strSql hdomain h, Option.bind_some]
  exact parseUpdate_tokens (List.cons_ne_nil _ _) rfl rfl

/-! ## The values in the statement -/

/-- The text in front of the first value. -/
def UserTable.gap (t : UserTable) : List UInt8 :=
  ascii "update IMUser set `sex`=" ++ int2string t.nSex.toUInt32 ++ ascii ", `nick`="

/-- The values between apostrophes, each with the text behind it. -/
def UserTable.items (t : UserTable) (nNow id : UInt32) : List (List UInt8 × List UInt8) :=
  [(t.strNick, ascii ", `domain`="), (t.strDomain, ascii ", `name`="), (t.strName, ascii ", `phone`="),
    (t.strTel, ascii ", `email`="), (t.strEmail, ascii ", `avatar`="), (t.strAvatar, ascii ", `sign_info`="),
    (t.sign_info, ascii ", `departId`="),
    (int2string t.nDeptId, ascii ", `status`=" ++ int2string t.nStatus.toUInt32 ++ ascii ", `updated`=" ++
      int2string nNow ++ ascii ", `company`="),
    (t.strCompany, ascii ", `address`="), (t.strAddress, ascii " where id=" ++ int2string id)]

/-- The statement is its values between apostrophes and the text around them. -/
theorem strSql_eq_quoted : t.strSql nNow id = quoted apostrophe t.gap (t.items nNow id) := by
  unfold UserTable.strSql UserTable.gap UserTable.items
  simp only [quoted, List.append_assoc]
  rfl

/-- The texts of the statement meant are these values. -/
theorem texts_update : (t.update nNow id).texts = (t.items nNow id).map Prod.fst := rfl

/-- No digit is a quote. -/
theorem not_isQuote_int2string (n : UInt32) : ∀ b ∈ int2string n, ¬ IsQuote b :=
  fun b hb => not_isQuote_of_isDigit (isDigit_int2string n b hb)

/-- The text in front of the first value has no quote. -/
theorem not_isQuote_gap : ∀ b ∈ t.gap, ¬ IsQuote b := by
  unfold UserTable.gap
  simp only [List.forall_mem_append]
  exact ⟨⟨not_isQuote_of_all rfl, not_isQuote_int2string _⟩, not_isQuote_of_all rfl⟩

/-- The texts behind the values have none either. -/
theorem not_isQuote_items : ∀ item ∈ t.items nNow id, ∀ b ∈ item.2, ¬ IsQuote b := by
  unfold UserTable.items
  simp only [List.forall_mem_cons, List.forall_mem_append, List.not_mem_nil, false_imp_iff, implies_true, and_true]
  refine ⟨?_, ?_, ?_, ?_, ?_, ?_, ?_, ⟨⟨⟨⟨?_, ?_⟩, ?_⟩, ?_⟩, ?_⟩, ?_, ?_, ?_⟩
  all_goals first | exact not_isQuote_int2string _ | exact not_isQuote_of_all rfl

/-- `updateInfo` writes the statement meant exactly if no field has an apostrophe, or a backslash that escapes
the byte behind it. -/
theorem readUpdate_updateInfo_iff (t : UserTable) (nNow id : UInt32) :
    readUpdate (t.updateInfo nNow id).2 = some ((t.updateInfo nNow id).1.update nNow id) ↔
      ∀ value ∈ t.fields, Plain apostrophe value := by
  constructor
  · intro h
    rw [UserTable.updateInfo, strSql_eq_quoted] at h
    have hplain := plain_of_readUpdate not_isQuote_gap not_isQuote_items h texts_update
    simp only [UserTable.items, List.forall_mem_cons] at hplain
    obtain ⟨hNick, -, hName, hTel, hEmail, hAvatar, hsign, -, hCompany, hAddress, -⟩ := hplain
    simp only [UserTable.fields, List.forall_mem_cons]
    exact ⟨hNick, hName, hTel, hEmail, hAvatar, hsign, hCompany, hAddress, fun _ h => absurd h List.not_mem_nil⟩
  · intro h
    have hdomain : Plain apostrophe (ascii "naihan") := by decide
    exact readUpdate_strSql hdomain h

/-- A nickname that closes its literal and brings its own condition: the statement changes the user 1, not
the user 2. -/
theorem updateInfo_rewritesWhere :
    let t := { UserTable.init with strNick := ascii "a' where id=1 -- " }
    readUpdate (t.updateInfo 5 2).2 =
        some ⟨ascii "IMUser", [(ascii "sex", .number 1), (ascii "nick", .text (ascii "a"))], ascii "id", .number 1⟩ ∧
      readUpdate (t.updateInfo 5 2).2 ≠ some ((t.updateInfo 5 2).1.update 5 2) := by
  decide +kernel

end CppProject.DBPool
