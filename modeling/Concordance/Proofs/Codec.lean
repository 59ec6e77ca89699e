import Concordance.Codec
import Concordance.Proofs.Action
import Concordance.Proofs.Calendar
import Concordance.Proofs.Ordered.Map
import Concordance.Proofs.Ordered.Set
import Concordance.Proofs.Text.Utf8

/-! What was written is read back from its bytes, whatever bytes follow them. -/
namespace Concordance

namespace Codec

variable {α β : Type}

/-- The reader takes these bytes and no more, whatever follows them, and gives the value. -/
def Reads (read : Reader α) (bytes : Bytes) (value : α) : Prop :=
  ∀ rest, read (bytes ++ rest) = .ok value rest

/-- Whatever holds of each element that is read holds of all elements of a list that is read. -/
theorem forall_of_readMany {read : Reader α} {Holds : α → Prop}
    (each : ∀ {bytes value rest}, read bytes = .ok value rest → Holds value) {count : Nat}
    {bytes rest : Bytes} {elements : List α}
    (whole : readMany read count bytes = .ok elements rest) :
    ∀ element ∈ elements, Holds element := by
  induction count generalizing bytes rest elements with
  | zero =>
      have none : ([] : List α) = elements := (EStateM.Result.ok.inj whole).1
      simp [← none]
  | succ count ih =>
      obtain ⟨first, left, head, more⟩ := ok_of_bind whole
      obtain ⟨others, last, tail, result⟩ := ok_of_bind more
      have all : first :: others = elements := (EStateM.Result.ok.inj result).1
      rw [← all]
      intro element member
      rcases List.mem_cons.mp member with rfl | later
      · exact each head
      · exact ih tail element later

theorem forall_of_readList {read : Reader α} {Holds : α → Prop}
    (each : ∀ {bytes value rest}, read bytes = .ok value rest → Holds value) {bytes rest : Bytes}
    {elements : List α} (whole : readList read bytes = .ok elements rest) :
    ∀ element ∈ elements, Holds element := by
  obtain ⟨count, left, -, many⟩ := ok_of_bind whole
  exact forall_of_readMany each many

theorem Reads.pure (value : α) : Reads (return value) [] value := fun _ => rfl

/-- Two readers one after another read what was written one after another. -/
theorem Reads.bind {first : Reader α} {next : α → Reader β} {bytes more : Bytes} {value : α}
    {result : β} (head : Reads first bytes value) (tail : Reads (next value) more result) :
    Reads (first >>= next) (bytes ++ more) result := by
  intro rest
  rw [List.append_assoc, bind_of_ok (head (more ++ rest))]
  exact tail rest

theorem Reads.map {read : Reader α} {bytes : Bytes} {value : α} (change : α → β)
    (head : Reads read bytes value) :
    Reads (read >>= fun value => return change value) bytes (change value) := by
  intro rest
  rw [bind_of_ok (head rest)]
  rfl

theorem lacks_eq_false {rest : Bytes} {count : Nat} (enough : count ≤ rest.length) :
    lacks rest count = false := by
  rw [Bool.eq_false_iff, ne_eq, lacks_iff]
  omega

theorem reads_take (bytes : Bytes) : Reads (take bytes.length) bytes bytes := by
  intro rest
  simp [take, lacks_eq_false]

/-- A byte is read back. -/
theorem reads_byte (byte : UInt8) : Reads readByte [byte] byte := by
  have result := (reads_take [byte]).map fun bytes => bytes.headD 0
  exact result

/-- A whole number is read from its eight bytes. -/
theorem reads_word (word : UInt64) : Reads readWord (writeWord word) word := by
  have bytes := reads_take (writeWord word)
  rw [writeWord, length_littleEndian] at bytes
  have value : UInt64.ofNat (ofLittleEndian (littleEndian 8 word.toNat)) = word := by
    rw [ofLittleEndian_littleEndian]
    apply UInt64.toNat_inj.mp
    have bound := word.toNat_lt
    rw [UInt64.toNat_ofNat', Nat.pow_eq]
    omega
  have result := Reads.map (fun bytes => UInt64.ofNat (ofLittleEndian bytes)) bytes
  rw [value] at result
  exact result

theorem length_writeWord (word : UInt64) : (writeWord word).length = 8 :=
  length_littleEndian 8 word.toNat

/-- A length is accepted where as many bytes follow it. -/
theorem readLength_writeLength {length : Nat} {rest : Bytes} (fits : length < UInt64.size)
    (follows : length ≤ rest.length) :
    readLength (writeLength length ++ rest) = .ok length rest := by
  unfold readLength writeLength
  rw [bind_of_ok (reads_word (UInt64.ofNat length) rest)]
  have value : (UInt64.ofNat length).toNat = length := by
    rw [UInt64.toNat_ofNat']
    exact Nat.mod_eq_of_lt fits
  have left : (get : Reader Bytes) rest = .ok rest rest := rfl
  rw [bind_of_ok left, value, lacks_eq_false follows]
  rfl

/-- A reader that starts with a length. -/
theorem Reads.afterLength {next : Nat → Reader β} {length : Nat} {more : Bytes} {result : β}
    (fits : length < UInt64.size) (follows : length ≤ more.length)
    (tail : Reads (next length) more result) :
    Reads (readLength >>= next) (writeLength length ++ more) result := by
  intro rest
  have enough : length ≤ (more ++ rest).length := by
    rw [List.length_append]
    omega
  rw [List.append_assoc, bind_of_ok (readLength_writeLength fits enough)]
  exact tail rest

/-- A text is read back as long as its length can be counted. -/
theorem reads_text {text : String} (fits : (writeText text).length < UInt64.size) :
    Reads readText (writeText text) text := by
  have short : (Utf8.bytes text).length < UInt64.size := by
    simp only [writeText, List.length_append] at fits
    omega
  apply Reads.afterLength short (Nat.le_refl _)
  intro rest
  rw [bind_of_ok (reads_take (Utf8.bytes text) rest)]
  simp only [Utf8.decode_bytes, String.ofList_toList]
  rfl

/-- A moment is read back from its text. -/
theorem reads_moment {moment : Moment} (fits : (writeMoment moment).length < UInt64.size) :
    Reads readMoment (writeMoment moment) moment := by
  intro rest
  unfold readMoment writeMoment
  rw [bind_of_ok (reads_text fits rest)]
  simp only [Moment.ofText?_toText]
  rfl

/-- As many elements are read back as were written. -/
theorem reads_many {read : Reader β} {write : α → Bytes} {kept : α → β} {elements : List α}
    (each : ∀ element ∈ elements, Reads read (write element) (kept element)) :
    Reads (readMany read elements.length) (elements.flatMap write) (elements.map kept) := by
  induction elements with
  | nil => exact Reads.pure []
  | cons head rest ih =>
      have first := each head List.mem_cons_self
      have others := ih fun element member => each element (List.mem_cons_of_mem _ member)
      rw [List.flatMap_cons]
      exact first.bind (others.map (kept head :: ·))

/-- Elements of at least one byte each are no more than their bytes. -/
theorem length_le_length_flatMap {write : α → Bytes} {elements : List α}
    (filled : ∀ element ∈ elements, write element ≠ []) :
    elements.length ≤ (elements.flatMap write).length := by
  induction elements with
  | nil => simp
  | cons head rest ih =>
      have first := List.length_pos_iff.mpr (filled head List.mem_cons_self)
      have others := ih fun element member => filled element (List.mem_cons_of_mem _ member)
      rw [List.flatMap_cons, List.length_append, List.length_cons]
      omega

theorem length_le_of_mem_flatMap {write : α → Bytes} {elements : List α} {element : α}
    (member : element ∈ elements) : (write element).length ≤ (elements.flatMap write).length := by
  obtain ⟨before, after, rfl⟩ := List.append_of_mem member
  simp only [List.flatMap_append, List.flatMap_cons, List.length_append]
  omega

/-- Of a list is read what is read of each of its elements. -/
theorem reads_list_map {read : Reader β} {write : α → Bytes} {kept : α → β} {elements : List α}
    (fits : (writeList write elements).length < UInt64.size)
    (filled : ∀ element ∈ elements, write element ≠ [])
    (each : ∀ element ∈ elements, (write element).length < UInt64.size →
      Reads read (write element) (kept element)) :
    Reads (readList read) (writeList write elements) (elements.map kept) := by
  have count := length_le_length_flatMap filled
  simp only [writeList, List.length_append] at fits
  refine Reads.afterLength (by omega) count (reads_many fun element member => ?_)
  have part : (write element).length ≤ (elements.flatMap write).length :=
    length_le_of_mem_flatMap member
  exact each element member (by omega)

/-- A list is read back where each of its elements is. -/
theorem reads_list {read : Reader α} {write : α → Bytes} {elements : List α}
    (fits : (writeList write elements).length < UInt64.size)
    (filled : ∀ element ∈ elements, write element ≠ [])
    (each : ∀ element ∈ elements, (write element).length < UInt64.size →
      Reads read (write element) element) :
    Reads (readList read) (writeList write elements) elements := by
  have result := reads_list_map fits filled each
  rwa [List.map_id'] at result

theorem writeLength_ne_nil (length : Nat) (more : Bytes) : writeLength length ++ more ≠ [] := by
  intro empty
  have none := congrArg List.length empty
  rw [List.length_append, writeLength, length_writeWord] at none
  simp at none

theorem writeText_ne_nil (text : String) : writeText text ≠ [] := writeLength_ne_nil _ _

theorem writeList_ne_nil (write : α → Bytes) (elements : List α) : writeList write elements ≠ [] :=
  writeLength_ne_nil _ _

end Codec

open Codec

/-- Every value of the type takes a byte and is read back, as long as its bytes can be counted. -/
class LawfulBinary (α : Type) [Binary α] : Prop where
  write_ne_nil (value : α) : write value ≠ []
  reads (value : α) : (write value).length < UInt64.size →
    Reads Binary.read (write value) value

namespace Codec

instance : LawfulBinary UInt8 where
  write_ne_nil _ := List.cons_ne_nil _ _
  reads byte _ := reads_byte byte

theorem writeWord_ne_nil (word : UInt64) : writeWord word ≠ [] := by
  rw [← List.length_pos_iff, length_writeWord]
  decide

instance : LawfulBinary UInt64 where
  write_ne_nil := writeWord_ne_nil
  reads word _ := reads_word word

instance : LawfulBinary Number where
  write_ne_nil number := writeWord_ne_nil number.bits
  reads number _ := (reads_word number.bits).map Number.mk

instance : LawfulBinary String where
  write_ne_nil := writeText_ne_nil
  reads _ := reads_text

instance : LawfulBinary Moment where
  write_ne_nil moment := writeText_ne_nil moment.toText
  reads _ := reads_moment

instance {α : Type} [Binary α] [LawfulBinary α] : LawfulBinary (List α) where
  write_ne_nil elements := writeList_ne_nil write elements
  reads _ fits := reads_list fits (fun element _ => LawfulBinary.write_ne_nil element)
    fun element _ => LawfulBinary.reads element

instance {α : Type} [Ord α] [Std.TransOrd α] [Binary α] [LawfulBinary α] :
    LawfulBinary (OrderedSet α) where
  write_ne_nil set := writeList_ne_nil write set.toList
  reads set fits := by
    have elements := LawfulBinary.reads set.toList fits
    have result := elements.map OrderedSet.ofList
    rwa [OrderedSet.ofList_toList] at result

/-- An entry of a map is read back. -/
theorem reads_entry {κ ν : Type} [Binary κ] [Binary ν] [LawfulBinary κ] [LawfulBinary ν]
    (entry : κ × ν) (fits : (write entry.1 ++ write entry.2).length < UInt64.size) :
    Reads (do let key ← Binary.read; let value ← Binary.read; return (key, value))
      (write entry.1 ++ write entry.2) entry := by
  rw [List.length_append] at fits
  exact (LawfulBinary.reads entry.1 (by omega)).bind
    ((LawfulBinary.reads entry.2 (by omega)).map (Prod.mk entry.1))

instance {κ ν : Type} [Ord κ] [Std.TransOrd κ] [Binary κ] [Binary ν] [LawfulBinary κ]
    [LawfulBinary ν] : LawfulBinary (OrderedMap κ ν) where
  write_ne_nil map := writeList_ne_nil _ map.entries
  reads map fits := by
    have filled : ∀ entry ∈ map.entries, write entry.1 ++ write entry.2 ≠ [] := by
      intro entry _ empty
      exact LawfulBinary.write_ne_nil entry.1 (List.append_eq_nil_iff.mp empty).1
    have entries := reads_list fits filled fun entry _ => reads_entry entry
    have result := entries.map OrderedMap.ofList
    rwa [OrderedMap.ofList_entries] at result

/-- A key is read back as it was checked. -/
theorem reads_key {key : Key} (fits : (writeText key.name).length < UInt64.size) :
    Reads readKey (writeText key.name) key := by
  intro rest
  have known : Key.ofName? key.name = some key := dif_pos key.dotted
  unfold readKey
  rw [bind_of_ok (reads_text fits rest)]
  simp only [known]
  rfl

instance : LawfulBinary Key where
  write_ne_nil key := writeText_ne_nil key.name
  reads _ := reads_key

/-- A flag is read back. -/
theorem reads_flag (flag : Bool) : Reads readFlag (writeFlag flag) flag := by
  cases flag
  · exact (reads_byte 0).map (· != 0)
  · exact (reads_byte 1).map (· != 0)

/-- The part of a value after its kind and its form. -/
def writeContent : Value → Bytes
  | .null => []
  | .bool value => writeFlag value
  | .number value => write value
  | .text value => write value
  | .moment value => write value
  | .numbers values => write values
  | .texts values => write values
  | .moments values => write values

/-- A value is written as the tag of its kind, its form and its content. -/
theorem writeValue_eq (value : Value) :
    writeValue value = [value.kind.tag] ++ (writeFlag value.isArray ++ writeContent value) := by
  cases value <;> rfl

/-- Every kind of value in either form is read back. -/
theorem reads_value {value : Value} (fits : (writeValue value).length < UInt64.size) :
    Reads readValue (writeValue value) value := by
  rw [writeValue_eq] at fits ⊢
  simp only [List.length_append] at fits
  refine (reads_byte value.kind.tag).bind ((reads_flag value.isArray).bind ?_)
  cases value with
  | null => exact Reads.pure _
  | bool value => exact (reads_flag value).map _
  | number value =>
      exact (LawfulBinary.reads value (by simp only [writeContent] at fits; omega)).map _
  | text value =>
      exact (LawfulBinary.reads value (by simp only [writeContent] at fits; omega)).map _
  | moment value =>
      exact (LawfulBinary.reads value (by simp only [writeContent] at fits; omega)).map _
  | numbers values =>
      exact (LawfulBinary.reads values (by simp only [writeContent] at fits; omega)).map _
  | texts values =>
      exact (LawfulBinary.reads values (by simp only [writeContent] at fits; omega)).map _
  | moments values =>
      exact (LawfulBinary.reads values (by simp only [writeContent] at fits; omega)).map _

instance : LawfulBinary Value where
  write_ne_nil _ := List.cons_ne_nil _ _
  reads _ := reads_value

end Codec
end Concordance
