import Concordance.Proofs.Document
import Concordance.Proofs.Extract.Flatten
import Concordance.Proofs.Query.Limits
import Concordance.Proofs.Query.Printing

/-! A text of a JSON document is found by its own spelling. -/
namespace Concordance.Query

/-- A key that is written as one quoted name, dots and all. -/
def quoteKey (key : Key) : String := String.ofList (quoteWith backquote key.name.toList)

def quotedKeyPhrase (key : Key) : KeyPhrase where
  first := .quoted (quoteWith backquote key.name.toList)
  rest := []
  key := key
  joined := by
    rw [Extract.ofSegments_eq_ok]
    simp [Identifier.name, unquote_quoteWith (show backquote ≠ '\\' by decide),
      Extract.joinedName]

/-- A value as it is written in a query, with the phrase that its text is cut into. -/
structure WrittenValue where
  text : String
  phrase : ValuePhrase
  writes : Writes text.toList phrase.spelling

namespace WrittenValue

def value (written : WrittenValue) : Value := written.phrase.meaning

/-- A text between apostrophes. -/
def ofText (text : String) : WrittenValue where
  text := quoteLiteral text
  phrase := .literal (quoteWith apostrophe text.toList)
  writes := by
    rw [quoteLiteral, String.toList_ofList]
    exact .literal text.toList

/-- What is written for a text is read back as the text. -/
@[simp] theorem value_ofText (text : String) : (ofText text).value = .text text := by
  rw [value, ofText, ValuePhrase.meaning, unquote_quoteWith (by decide), String.ofList_toList]

end WrittenValue

/-- The query that the value of a key equals a written one. -/
def equalText (key : Key) (written : WrittenValue) : String :=
  "HAVING " ++ quoteKey key ++ " = " ++ written.text

/-- The query that the value of a key is, or is not, in a list of written ones. -/
def listText (negated : Bool) (key : Key) (list : List WrittenValue) : String :=
  "HAVING " ++ quoteKey key ++ (if negated then " NOT IN (" else " IN (") ++
    ", ".intercalate (list.map WrittenValue.text) ++ ")"

section Reading

/-- Within any limits that it keeps, a text is read as a query of one condition. -/
def ReadsAs (text : String) (condition : Condition) : Prop := ∀ sizeLimit depthLimit,
  sizeLimit = 0 ∨ (Utf8.bytes text).length ≤ sizeLimit →
    parse text sizeLimit depthLimit = .parsed ⟨none, some (.leaf condition), none⟩

/-- A key that is quoted is cut into its phrase. -/
theorem writes_quoteKey (key : Key) :
    Writes (quoteKey key).toList (quotedKeyPhrase key).spelling := by
  rw [quoteKey, String.toList_ofList]
  exact .quoted key.name.toList

/-- A test that is written after a key is read as the condition of the key and the test. -/
theorem readsAs_of_writes (key : Key) {text : String} {test : TestPhrase}
    (writes : Writes text.toList test.spelling) :
    ReadsAs ("HAVING " ++ quoteKey key ++ " " ++ text) ⟨⟨key, none⟩, test.meaning⟩ := by
  have spelt := (Writes.keyword "HAVING" (by decide)).text_space
    ((writes_quoteKey key).text_space writes)
  have text : "HAVING" ++ " " ++ (quoteKey key ++ " " ++ text) =
      "HAVING " ++ quoteKey key ++ " " ++ text := by
    simp [← String.toList_inj]
  rw [text] at spelt
  intro sizeLimit depthLimit fits
  rw [parse_of_fits fits]
  let condition : ConditionPhrase := ⟨⟨none, quotedKeyPhrase key⟩, test⟩
  apply parse_eq_parsed.mpr ⟨⟨none, some (.last (.last (.leaf condition))), none, false⟩, ?_⟩
  refine ⟨.inr rfl, ⟨nofun, ?_⟩, ?_, rfl⟩
  · rintro conditions ⟨⟩
    exact .inr (Nat.zero_le _)
  · rw [significant_of_cuts (spelt.spells none)]
    simp [QueryPhrase.spelling, QueryPhrase.spellWords, QueryPhrase.spellHaving,
      QueryPhrase.spellLimit, QueryPhrase.spellEnd, Phrase.spelling, condition,
      ConditionPhrase.spelling, TargetPhrase.spelling]

/-- The text of an equality is read as the equality. -/
theorem readsAs_equalText (key : Key) (written : WrittenValue) :
    ReadsAs (equalText key written) ⟨⟨key, none⟩, .compare .equal written.value⟩ := by
  have test : Writes ("=" ++ " " ++ written.text).toList
      (TestPhrase.compare .equal written.phrase).spelling :=
    (Writes.comparison .equal).text_space written.writes
  have text : equalText key written =
      "HAVING " ++ quoteKey key ++ " " ++ ("=" ++ " " ++ written.text) := by
    simp [equalText, ← String.toList_inj]
  rw [text]
  exact readsAs_of_writes key test

/-- Written values with commas between them. -/
theorem writes_list (first : WrittenValue) (others : List WrittenValue) :
    Writes (", ".intercalate ((first :: others).map WrittenValue.text)).toList
      (first.phrase.spelling ++
        others.flatMap fun other => .sign .comma :: other.phrase.spelling) := by
  induction others generalizing first with
  | nil => simpa using first.writes
  | cons second others ih =>
      have whole := first.writes.comma (ih second)
      rw [List.map_cons, List.map_cons, String.intercalate_cons_cons]
      simpa using whole

/-- The text of a membership is read as the membership. -/
theorem readsAs_listText (negated : Bool) (key : Key) {list : List WrittenValue}
    (filled : list ≠ []) : ReadsAs (listText negated key list)
      ⟨⟨key, none⟩, .within negated (list.map WrittenValue.value)⟩ := by
  obtain ⟨first, others, rfl⟩ := List.exists_cons_of_ne_nil filled
  let test : TestPhrase :=
    .within negated first.phrase (others.map WrittenValue.phrase)
  let items := ", ".intercalate ((first :: others).map WrittenValue.text)
  have listed : Writes ("IN" ++ " " ++ ("(" ++ items ++ ")")).toList
      (.word "IN" :: TestPhrase.listSpelling first.phrase (others.map WrittenValue.phrase)) := by
    rw [TestPhrase.listSpelling, List.flatMap_map]
    exact (Writes.keyword "IN" (by decide)).text_space (writes_list first others).text_round
  have same : test.meaning = .within negated ((first :: others).map WrittenValue.value) := by
    simp [test, TestPhrase.meaning, WrittenValue.value, Function.comp_def]
  rw [← same]
  cases negated with
  | false =>
      have text : listText false key (first :: others) =
          "HAVING " ++ quoteKey key ++ " " ++ ("IN" ++ " " ++ ("(" ++ items ++ ")")) := by
        simp [listText, items, ← String.toList_inj]
      rw [text]
      exact readsAs_of_writes key listed
  | true =>
      have text : listText true key (first :: others) = "HAVING " ++ quoteKey key ++ " " ++
          ("NOT" ++ " " ++ ("IN" ++ " " ++ ("(" ++ items ++ ")"))) := by
        simp [listText, items, ← String.toList_inj]
      rw [text]
      exact readsAs_of_writes key ((Writes.keyword "NOT" (by decide)).text_space listed)

end Reading

section Answering

open Extract

/-- A text is read as a condition that gives this answer, of the metadata and of what is read back of
any document with the metadata after it was written. -/
def Answers (text : String) (metadata : Metadata) (answer : Bool) : Prop :=
  ∃ condition, ReadsAs text condition ∧ condition.holds metadata = answer ∧
    ∀ document : Document, document.metadata = metadata → document.write.length < UInt64.size →
      ∀ rest, ∃ decoded, Document.read (document.write ++ rest) = .ok decoded rest ∧
        condition.holds decoded.metadata = answer

variable {metadata : Metadata} {key : Key} {value : Value}

/-- Nothing that a condition looks at is lost where a document is written and read back. -/
theorem answers_of_holds {text : String} {condition : Condition} {answer : Bool}
    (reads : ReadsAs text condition) (holds : condition.holds metadata = answer) :
    Answers text metadata answer := by
  refine ⟨condition, reads, holds, ?_⟩
  intro document same fits rest
  refine ⟨document.written, document.reads fits rest, ?_⟩
  rw [Document.metadata_written, same, holds]

theorem holds_of_scalar (held : metadata.get? key = some value) (scalar : value.isArray = false)
    (test : Test) :
    Condition.holds metadata ⟨⟨key, none⟩, test⟩ = Condition.accepts test value := by
  simp [Condition.holds, Condition.select, held, scalar]

/-- What a text is filed as is equal to the text. -/
theorem compare?_of_filedAs {kept : String → String} {text : String}
    (filed : FiledAs kept (.string text) value) :
    value.isArray = false ∧ value.compare? (.text text) = some .eq := by
  cases filed with
  | moment spelt =>
      apply And.intro rfl
      rw [Value.compare?, spelt, Option.map_some, Std.ReflOrd.compare_self]
  | text =>
      apply And.intro rfl
      rw [Value.compare?, Std.ReflOrd.compare_self]

/-- A text that is stored under a key is found by the query that the key equals it, and by any with a
list that it is in; by none with NOT before such a list. -/
theorem answers_of_flatten {document : Json} (flat : flatten document = .ok metadata) {leaf : Leaf}
    (last : IsLast document key.name leaf) {text : String} (spelt : leaf.node = .string text) :
    Answers (equalText key (.ofText text)) metadata true ∧
      ∀ list, .ofText text ∈ list → Answers (listText false key list) metadata true ∧
        Answers (listText true key list) metadata false := by
  obtain ⟨value, filed⟩ := exists_filedAs spelling (.string text)
  have held : metadata.get? key = some value :=
    (get?_of_flatten flat).mpr ⟨leaf, last, spelt ▸ filed⟩
  obtain ⟨scalar, equal⟩ := compare?_of_filedAs filed
  constructor
  · apply answers_of_holds (readsAs_equalText key _)
    rw [holds_of_scalar held scalar, Condition.accepts, WrittenValue.value_ofText, equal]
    rfl
  · intro list member
    have found : (list.map WrittenValue.value).any
        (fun other => value.compare? other == some .eq) = true := by
      apply List.any_eq_true.mpr ⟨.text text, ?_, by rw [equal]; rfl⟩
      rw [← WrittenValue.value_ofText]
      exact List.mem_map_of_mem member
    have filled := List.ne_nil_of_mem member
    constructor
    · apply answers_of_holds (readsAs_listText false key filled)
      rw [holds_of_scalar held scalar, Condition.accepts, found]
      rfl
    · apply answers_of_holds (readsAs_listText true key filled)
      rw [holds_of_scalar held scalar, Condition.accepts, found]
      rfl

/-- A moment without leading zeros is found under a key with a quote, a dot and a backslash. -/
theorem answers_of_flatten_moment :
    let document : Json := .object [("a`b", .object [("c\\", .string "2021-1-1 0:0:0")])]
    let key : Key := ⟨"a`b.c\\", by decide⟩
    let metadata : Metadata := .ofList [(key, .moment ⟨2021, 1, 1, 0, 0, 0, by decide⟩)]
    let leaf : Leaf := ⟨[0, 0], ["a`b", "c\\"], .string "2021-1-1 0:0:0"⟩
    (flatten document = .ok metadata ∧ IsLast document key.name leaf ∧
      leaf.node = .string "2021-1-1 0:0:0") ∧
    Answers "HAVING `a``b.c\\\\` = '2021-1-1 0:0:0'" metadata true ∧
    Answers "HAVING `a``b.c\\\\` IN (NULL, '2021-1-1 0:0:0')" metadata true ∧
    Answers "HAVING `a``b.c\\\\` NOT IN (NULL, '2021-1-1 0:0:0')" metadata false := by
  intro document key metadata leaf
  have flat : flatten document = .ok metadata := by decide +kernel
  have last : IsLast document key.name leaf := isLast_iff.mpr ⟨rfl, [], [], rfl, nofun⟩
  let none : WrittenValue := ⟨"NULL", .null, .keyword "NULL" (by decide)⟩
  have compared : equalText key (.ofText "2021-1-1 0:0:0") =
      "HAVING `a``b.c\\\\` = '2021-1-1 0:0:0'" := by decide +kernel
  have within : listText false key [none, .ofText "2021-1-1 0:0:0"] =
      "HAVING `a``b.c\\\\` IN (NULL, '2021-1-1 0:0:0')" := by decide +kernel
  have without : listText true key [none, .ofText "2021-1-1 0:0:0"] =
      "HAVING `a``b.c\\\\` NOT IN (NULL, '2021-1-1 0:0:0')" := by decide +kernel
  obtain ⟨equal, listed⟩ := answers_of_flatten flat last rfl
  obtain ⟨inside, outside⟩ := listed [none, .ofText "2021-1-1 0:0:0"] (by simp)
  rw [compared] at equal
  rw [within] at inside
  rw [without] at outside
  exact ⟨⟨flat, last, rfl⟩, equal, inside, outside⟩

end Answering

end Concordance.Query
