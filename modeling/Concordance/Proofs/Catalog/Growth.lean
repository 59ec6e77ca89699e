import Concordance.Proofs.Catalog.Change
import Concordance.Proofs.Catalog.Numbers

/-! Indexing only adds. -/
namespace Concordance

/-- What a snapshot holds under the numbers that were taken for it stands in another one as well. -/
structure Snapshot.Extends (first second : Snapshot) : Prop where
  counter : first.nextId ≤ second.nextId
  documents : ∀ id, id < first.nextId → second.documents.get? id = first.documents.get? id
  places : ∀ id, id < first.nextId → ∀ word, second.places word id = first.places word id

namespace Snapshot.Extends

variable {first second third : Snapshot}

/-- A snapshot extends itself. -/
theorem refl (snapshot : Snapshot) : snapshot.Extends snapshot where
  counter := UInt64.le_refl _
  documents _ _ := rfl
  places _ _ _ := rfl

/-- What extends a snapshot is extended by what extends it in turn. -/
theorem trans (one : first.Extends second) (other : second.Extends third) :
    first.Extends third where
  counter := UInt64.le_trans one.counter other.counter
  documents id taken :=
    (other.documents id (UInt64.lt_of_lt_of_le taken one.counter)).trans (one.documents id taken)
  places id taken word :=
    (other.places id (UInt64.lt_of_lt_of_le taken one.counter) word).trans (one.places id taken word)

/-- What is read of a larger snapshot extends what is read of a smaller one. -/
theorem written (extension : first.Extends second) : first.written.Extends second.written where
  counter := extension.counter
  documents id taken := by rw [get?_written, get?_written, extension.documents id taken]
  places := extension.places

end Snapshot.Extends

namespace Catalog

variable {catalog : Catalog}

/-- Registering files adds to a catalog, as long as the counter does not come round. -/
theorem extends_registerAll (items : List Indexable)
    (room : catalog.nextId.toNat + items.length < UInt64.size) :
    catalog.snapshot.Extends (catalog.registerAll items).2.snapshot where
  counter := by
    show catalog.nextId ≤ (catalog.registerAll items).2.nextId
    rw [UInt64.le_iff_toNat_le, toNat_nextId_registerAll items room]
    exact Nat.le_add_right _ _
  documents _ taken := (kept_registerAll items taken room).1
  places _ taken word := by
    rw [places_snapshot, places_snapshot]
    exact (kept_registerAll items taken room).2 word

/-- What indexing a path does to a catalog: it adds to it, and each number that it gives has a
document. -/
structure Adds (catalog : Catalog) (ids : List DocId) (next : Catalog) : Prop where
  directory : next.directory = catalog.directory
  consistent : next.snapshot.Consistent
  extension : catalog.snapshot.Extends next.snapshot
  filed : ∀ id ∈ ids, (next.document? id).isSome = true

/-- Indexing a path adds the documents whose numbers it returns, and changes nothing that was known.
-/
theorem adds_of_index {extensions : ExtensionSettings} {disk : Disk} {path : Path}
    {ids : List DocId} {next : Catalog} (consistent : catalog.snapshot.Consistent)
    (indexed : catalog.index extensions disk path = .ok (ids, next))
    (room : catalog.nextId.toNat + ids.length < UInt64.size) : catalog.Adds ids next := by
  rw [index_eq] at indexed
  cases read : Indexable.ofRoot extensions disk path with
  | error fault =>
      rw [read] at indexed
      cases indexed
  | ok items =>
      rw [read] at indexed
      cases indexed
      rw [List.length_map, length_registerAll] at room
      refine ⟨directory_registerAll catalog items, consistent_registerAll consistent items room,
        extends_registerAll items room, ?_⟩
      intro id member
      obtain ⟨entry, stands, rfl⟩ := List.mem_map.mp member
      obtain ⟨item, -, -, found⟩ := document?_registerAll_of_mem (by omega) stands
      exact Option.isSome_of_eq_some found

end Catalog
end Concordance
