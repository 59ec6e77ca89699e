import Concordance.Proofs.Document
import Concordance.Proofs.Posting

namespace Concordance.Codec

/-- A type with a binary form. Lists may be of anything, lists among them. -/
inductive Shape where
  | byte
  | word
  | number
  | text
  | moment
  | id
  | key
  | value
  | offsets
  | posting
  | document
  | list (shape : Shape)
deriving DecidableEq

namespace Shape

def Content : Shape → Type
  | byte => UInt8
  | word => UInt64
  | number => Number
  | text => String
  | moment => Moment
  | id => DocId
  | key => Key
  | value => Value
  | offsets => Offsets
  | posting => Posting
  | document => Document
  | list shape => List shape.Content

instance binary : (shape : Shape) → Binary shape.Content
  | byte => inferInstanceAs (Binary UInt8)
  | word => inferInstanceAs (Binary UInt64)
  | number => inferInstanceAs (Binary Number)
  | text => inferInstanceAs (Binary String)
  | moment => inferInstanceAs (Binary Moment)
  | id => inferInstanceAs (Binary DocId)
  | key => inferInstanceAs (Binary Key)
  | value => inferInstanceAs (Binary Value)
  | offsets => inferInstanceAs (Binary Offsets)
  | posting => inferInstanceAs (Binary Posting)
  | document => inferInstanceAs (Binary Document)
  | list shape =>
      have := shape.binary
      inferInstanceAs (Binary (List shape.Content))

/-- What is read where a content is written. Of the paths of documents only the text is kept. -/
def written : (shape : Shape) → shape.Content → shape.Content
  | document, content => Document.written content
  | list shape, contents => List.map shape.written contents
  | _, content => content

/-- All paths of documents in a content are text. -/
def IsText : (shape : Shape) → shape.Content → Prop
  | document, content => Path.IsText (Document.path content)
  | list shape, contents =>
      let elements : List shape.Content := contents
      ∀ element ∈ elements, shape.IsText element
  | _, _ => True

theorem written_eq_self_iff (shape : Shape) (content : shape.Content) :
    shape.written content = content ↔ shape.IsText content := by
  induction shape with
  | document => exact Document.written_eq_self_iff
  | list shape ih =>
      change List shape.Content at content
      have each := List.map_inj_left (l := content) (f := shape.written)
        (g := fun element => element)
      rw [List.map_id'] at each
      exact each.trans (forall₂_congr fun element _ => ih element)
  | _ => exact iff_true_intro rfl

/-- Contents of every shape take a byte at least, and of each is read what was written. -/
theorem reads_written (shape : Shape) : (∀ content : shape.Content, write content ≠ []) ∧
    ∀ content : shape.Content, (write content).length < UInt64.size →
      Reads Binary.read (write content) (shape.written content) := by
  have lawful {α : Type} [Binary α] [LawfulBinary α] : (∀ content : α, write content ≠ []) ∧
      ∀ content : α, (write content).length < UInt64.size →
        Reads Binary.read (write content) content := ⟨LawfulBinary.write_ne_nil, LawfulBinary.reads⟩
  induction shape with
  | byte => exact lawful (α := UInt8)
  | word => exact lawful (α := UInt64)
  | number => exact lawful (α := Number)
  | text => exact lawful (α := String)
  | moment => exact lawful (α := Moment)
  | id => exact lawful (α := DocId)
  | key => exact lawful (α := Key)
  | value => exact lawful (α := Value)
  | offsets => exact lawful (α := Offsets)
  | posting => exact lawful (α := Posting)
  | document => exact ⟨Document.write_ne_nil, Document.reads⟩
  | list shape ih =>
      exact ⟨writeList_ne_nil write, fun elements fits =>
        reads_list_map fits (fun element _ => ih.1 element) fun element _ => ih.2 element⟩

end Shape

/-- Something with its type. -/
structure Item where
  shape : Shape
  content : shape.Content

def Item.written (item : Item) : Item := ⟨item.shape, item.shape.written item.content⟩

/-- All paths of documents in the item are text. -/
def Item.IsText (item : Item) : Prop := item.shape.IsText item.content

theorem Item.written_eq_self_iff {item : Item} : item.written = item ↔ item.IsText := by
  rw [Item.IsText, ← Shape.written_eq_self_iff]
  cases item
  simp [Item.written]

/-- Things one after another in the same bytes. -/
def writeAll (items : List Item) : Bytes := items.flatMap fun item => write item.content

/-- Things of known types, one after another. -/
def readAll : List Shape → Reader (List Item)
  | [] => return []
  | shape :: rest => do
      let content : shape.Content ← Binary.read
      let others ← readAll rest
      return ⟨shape, content⟩ :: others

theorem reads_all {items : List Item}
    (fits : ∀ item ∈ items, (write item.content).length < UInt64.size) :
    Reads (readAll (items.map Item.shape)) (writeAll items) (items.map Item.written) := by
  induction items with
  | nil => exact Reads.pure []
  | cons item rest ih =>
      have first := item.shape.reads_written.2 item.content (fits item List.mem_cons_self)
      have others := ih fun other member => fits other (List.mem_cons_of_mem _ member)
      exact first.bind (others.map (item.written :: ·))

/-- The length of a list is never refused in front of the elements that it counts. -/
theorem readLength_write {shape : Shape} {elements : List shape.Content}
    (fits : (write elements).length < UInt64.size) (rest : Bytes) :
    readLength (write elements ++ rest) =
      .ok elements.length (elements.flatMap write ++ rest) := by
  have count := length_le_length_flatMap fun element (_ : element ∈ elements) =>
    shape.reads_written.1 element
  have parts : write elements = writeLength elements.length ++ elements.flatMap write := rfl
  rw [parts, List.length_append] at fits
  rw [parts, List.append_assoc]
  apply readLength_writeLength (by omega)
  rw [List.length_append]
  omega

/-- Things of any types are read back in the order in which they were written, whatever follows them,
and what follows them is left. Of the path of a document its text is read, so what comes back is the
same where all paths are text, and only there. No length is refused, as everything takes a byte at
least. -/
theorem readAll_writeAll (items : List Item)
    (fits : ∀ item ∈ items, (write item.content).length < UInt64.size) (rest : Bytes) :
    readAll (items.map Item.shape) (writeAll items ++ rest) =
        .ok (items.map Item.written) rest ∧
      (∀ item ∈ items, item.written = item ↔ item.IsText) ∧
      (∀ item ∈ items, write item.content ≠ []) ∧
      (∀ shape : Shape, ∀ elements : List shape.Content, ⟨.list shape, elements⟩ ∈ items →
        readLength (write elements ++ rest) =
          .ok elements.length (elements.flatMap write ++ rest)) := by
  refine ⟨reads_all fits rest, fun item _ => Item.written_eq_self_iff,
    fun item _ => item.shape.reads_written.1 item.content, ?_⟩
  intro shape elements member
  exact readLength_write (fits _ member) rest

/-- Things of several types in front of two more bytes. -/
theorem readAll_writeAll_mixed :
    let filed : Document := (Document.new 3 ⟨"/a"⟩ ⟨.csv, default, 2⟩ .empty).rate "bo" ⟨0⟩
    let items : List Item := [⟨.byte, (7 : UInt8)⟩, ⟨.list .text, ["hi", ""]⟩,
      ⟨.value, Value.moments [default]⟩, ⟨.posting, (Posting.empty.add 5 9).add 3 8⟩,
      ⟨.list (.list .word), ([[], [1, 2]] : List (List UInt64))⟩, ⟨.document, filed⟩]
    (∀ item ∈ items, (write item.content).length < UInt64.size) ∧
      readAll (items.map Item.shape) (writeAll items ++ [0, 255]) = .ok items [0, 255] := by
  intro filed items
  have fits : ∀ item ∈ items, (write item.content).length < UInt64.size := by decide +kernel
  obtain ⟨read, same, -⟩ := readAll_writeAll items fits [0, 255]
  have text : ∀ item ∈ items, item.written = item := by
    simp only [items, List.forall_mem_cons, List.not_mem_nil, false_imp_iff, implies_true, and_true]
    exact ⟨rfl, rfl, rfl, rfl, rfl, Item.written_eq_self_iff.mpr (Path.isText_mk "/a")⟩
  rw [List.map_congr_left text, List.map_id'] at read
  exact ⟨fits, read⟩

/-- A document whose path holds a byte that is no text comes back under another path. -/
theorem readAll_writeAll_stray :
    let filed : Document := .new 1 ⟨[0x61, 0xff]⟩ ⟨.prose, default, 1⟩ .empty
    readAll [.document] (writeAll [⟨.document, filed⟩]) ≠ .ok [⟨.document, filed⟩] [] := by
  intro filed same
  have read := @reads_all [⟨.document, filed⟩] (by decide +kernel) []
  rw [List.append_nil] at read
  have both := (EStateM.Result.ok.inj (read.symm.trans same)).1
  have text : Path.IsText ⟨[0x61, 0xff]⟩ := Item.written_eq_self_iff.mp (List.cons.inj both).1
  exact absurd text (by decide +kernel)

end Concordance.Codec
