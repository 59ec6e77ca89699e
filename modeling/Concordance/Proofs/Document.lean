import Concordance.Document
import Concordance.Proofs.Codec
import Concordance.Proofs.Path

namespace Concordance

namespace DocumentKind

/-- A kind of document is read back from its tag. -/
theorem reads_kind (kind : DocumentKind) : Codec.Reads read [kind.tag] kind := by
  intro rest
  unfold read
  rw [bind_of_ok (Codec.reads_byte kind.tag rest)]
  simp only [ofTag_tag]
  rfl

instance : LawfulBinary DocumentKind where
  write_ne_nil _ := List.cons_ne_nil _ _
  reads kind _ := reads_kind kind

end DocumentKind

instance : LawfulBinary Comment where
  write_ne_nil comment empty :=
    LawfulBinary.write_ne_nil comment.time (List.append_eq_nil_iff.mp empty).1
  reads comment fits := by
    change (write comment.time ++ write comment.text).length < UInt64.size at fits
    rw [List.length_append] at fits
    have text := LawfulBinary.reads comment.text (by omega)
    exact (LawfulBinary.reads comment.time (by omega)).bind (text.map (Comment.mk comment.time))

namespace Document

/-- The document that is read where this one is written. Of its path only the text is kept. -/
def written (document : Document) : Document :=
  { document with path := document.path.written }

/-- A document comes back as it was where its path is text. -/
theorem written_eq_self_iff {document : Document} :
    document.written = document ↔ document.path.IsText :=
  ⟨congrArg Document.path, fun same => congrArg (fun path => { document with path := path }) same⟩

/-- Writing a document that was read back loses nothing more. -/
@[simp]
theorem written_written (document : Document) : document.written.written = document.written :=
  written_eq_self_iff.mpr document.path.written_written

@[simp]
theorem id_written (document : Document) : document.written.id = document.id := rfl

@[simp]
theorem metadata_written (document : Document) :
    document.written.metadata = document.metadata := rfl

@[simp]
theorem facts_written (document : Document) : document.written.facts = document.facts := rfl

/-- A document is read back field by field, of its path the text. -/
theorem reads (document : Document) (fits : document.write.length < UInt64.size) :
    Codec.Reads read document.write document.written := by
  unfold write at fits ⊢
  simp only [List.append_assoc, List.length_append] at fits ⊢
  apply (LawfulBinary.reads document.id (by omega)).bind
  apply (LawfulBinary.reads document.path.text (by omega)).bind
  apply (LawfulBinary.reads document.metadata (by omega)).bind
  apply (LawfulBinary.reads document.facts.kind (by omega)).bind
  apply (LawfulBinary.reads document.facts.modified (by omega)).bind
  apply (LawfulBinary.reads document.facts.wordCount (by omega)).bind
  apply (LawfulBinary.reads document.comments (by omega)).bind
  exact (LawfulBinary.reads document.ratings (by omega)).map _

theorem write_ne_nil (document : Document) : document.write ≠ [] := by
  intro empty
  have first : Concordance.write document.id = [] := by simp_all [write]
  exact LawfulBinary.write_ne_nil document.id first

end Document
end Concordance
