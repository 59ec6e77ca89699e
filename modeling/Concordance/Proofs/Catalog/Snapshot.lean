import Concordance.Catalog.Snapshot
import Concordance.Proofs.Document
import Concordance.Proofs.Posting

namespace Concordance

namespace Snapshot

open Codec

/-- Every document is filed under its own number, and these numbers have been taken. -/
structure Consistent (snapshot : Snapshot) : Prop where
  filed : ∀ entry ∈ snapshot.documents.entries, entry.2.id = entry.1
  counts : snapshot.nextId ≠ 0
  taken : ∀ id ∈ snapshot.documents.keys, id < snapshot.nextId

/-- The snapshot that is read where this one is written. Of the paths of documents only the text is
kept. -/
def written (snapshot : Snapshot) : Snapshot :=
  { snapshot with documents := snapshot.documents.mapValues fun _ document => document.written }

@[simp]
theorem nextId_written (snapshot : Snapshot) : snapshot.written.nextId = snapshot.nextId := rfl

@[simp]
theorem terms_written (snapshot : Snapshot) : snapshot.written.terms = snapshot.terms := rfl

/-- Writing keeps the numbers of all documents. -/
@[simp]
theorem keys_written (snapshot : Snapshot) :
    snapshot.written.documents.keys = snapshot.documents.keys := OrderedMap.keys_mapValues ..

/-- What is read back under a number is the document there as it is written. -/
@[simp]
theorem get?_written (snapshot : Snapshot) (id : DocId) :
    snapshot.written.documents.get? id = (snapshot.documents.get? id).map Document.written :=
  OrderedMap.get?_mapValues_of_value ..

/-- A snapshot comes back as it was where all paths of its documents are text. -/
theorem written_eq_self_iff {snapshot : Snapshot} : snapshot.written = snapshot ↔
    ∀ document ∈ snapshot.documents.values, document.path.IsText := by
  have entries : snapshot.written = snapshot ↔ snapshot.documents.entries.map
      (fun entry => (entry.1, entry.2.written)) = snapshot.documents.entries.map fun entry => entry := by
    rw [List.map_id']
    exact ⟨fun same => congrArg (fun result => result.documents.entries) same, fun same =>
      congrArg (fun documents => { snapshot with documents := documents }) (OrderedMap.ext same)⟩
  rw [entries, List.map_inj_left, OrderedMap.values, List.forall_mem_map]
  refine forall₂_congr fun entry _ => ?_
  rw [← Document.written_eq_self_iff, Prod.ext_iff]
  exact and_iff_right rfl

/-- Writing what has been read back loses nothing more. -/
@[simp]
theorem written_written (snapshot : Snapshot) : snapshot.written.written = snapshot.written := by
  refine written_eq_self_iff.mpr fun document held => ?_
  obtain ⟨entry, member, rfl⟩ := List.mem_map.mp held
  obtain ⟨old, -, rfl⟩ := List.mem_map.mp member
  exact Path.written_written _

/-- What is read of a consistent snapshot is consistent. -/
theorem Consistent.written {snapshot : Snapshot} (consistent : snapshot.Consistent) :
    snapshot.written.Consistent where
  filed entry member := by
    obtain ⟨old, held, rfl⟩ := List.mem_map.mp member
    exact consistent.filed old held
  counts := consistent.counts
  taken id member := consistent.taken id (snapshot.keys_written ▸ member)

/-- A document is read back after its number as it is written. -/
theorem reads_document {entry : DocId × Document} (filed : entry.2.id = entry.1)
    (fits : (Concordance.write entry.1 ++ Concordance.write entry.2).length < UInt64.size) :
    Reads readDocument (Concordance.write entry.1 ++ Concordance.write entry.2)
      (entry.1, entry.2.written) := by
  rw [List.length_append] at fits
  apply (LawfulBinary.reads entry.1 (by omega)).bind
  rw [← List.append_nil (Concordance.write entry.2)]
  have document := entry.2.reads (Nat.lt_of_le_of_lt (Nat.le_add_left ..) fits)
  apply document.bind
  rw [Document.id_written, if_neg (not_not_intro filed)]
  exact Reads.pure _

/-- A document that is read is filed under its own number. -/
theorem filed_of_readDocument {bytes rest : Bytes} {entry : DocId × Document}
    (whole : readDocument bytes = .ok entry rest) : entry.2.id = entry.1 := by
  obtain ⟨filed, left, -, more⟩ := ok_of_bind whole
  obtain ⟨document, last, -, result⟩ := ok_of_bind more
  by_cases same : document.id = filed
  · rw [if_neg (not_not_intro same)] at result
    have equal : (filed, document) = entry := (EStateM.Result.ok.inj result).1
    rw [← equal]
    exact same
  · rw [if_pos same] at result
    cases result

/-- The documents of a snapshot are read back as they were filed, of their paths the text. -/
theorem reads_documents {documents : OrderedMap DocId Document}
    (filed : ∀ entry ∈ documents.entries, entry.2.id = entry.1)
    (fits : (Concordance.write documents).length < UInt64.size) :
    Reads (readList readDocument) (Concordance.write documents)
      (documents.mapValues fun _ document => document.written).entries := by
  refine reads_list_map fits ?_ fun entry member => reads_document (filed entry member)
  intro entry _ empty
  exact LawfulBinary.write_ne_nil entry.1 (List.append_eq_nil_iff.mp empty).1

/-- The part of reading that takes up bytes. -/
def readParts : Reader Snapshot := do
  let nextId : DocId ← Binary.read
  let terms : OrderedMap String Posting ← Binary.read
  return ⟨nextId, terms, .ofList (← readList readDocument)⟩

/-- The part of reading that looks at the whole. -/
def close (snapshot : Snapshot) : Reader Snapshot := do
  let rest ← get
  if !rest.isEmpty then throw (.corrupted (.trailingBytes rest.length))
  else if snapshot.nextId == 0 || snapshot.documents.keys.any (snapshot.nextId ≤ ·) then
    throw (.corrupted .idBeyondCounter)
  else return snapshot

/-- A snapshot is read by reading its parts and then looking them over. -/
theorem read_eq : read = readParts >>= close := by
  unfold readParts
  simp only [bind_assoc, pure_bind]
  rfl

/-- The parts of a snapshot are read back, whatever its counter. -/
theorem reads_parts {snapshot : Snapshot}
    (filed : ∀ entry ∈ snapshot.documents.entries, entry.2.id = entry.1)
    (fits : snapshot.write.length < UInt64.size) :
    Reads readParts snapshot.write snapshot.written := by
  unfold write at fits ⊢
  simp only [List.length_append] at fits
  have documents := reads_documents filed (by omega)
  have whole := documents.map fun entries =>
    (⟨snapshot.nextId, snapshot.terms, .ofList entries⟩ : Snapshot)
  rw [OrderedMap.ofList_entries] at whole
  rw [List.append_assoc]
  exact (LawfulBinary.reads snapshot.nextId (by omega)).bind
    ((LawfulBinary.reads snapshot.terms (by omega)).bind whole)

/-- The check of the numbers accepts a counter above all of them. -/
theorem refusesNumbers_eq_false {nextId : DocId} {ids : List DocId} :
    (nextId == 0 || ids.any (nextId ≤ ·)) = false ↔ nextId ≠ 0 ∧ ∀ id ∈ ids, id < nextId := by
  simp only [Bool.or_eq_false_iff, beq_eq_false_iff_ne, List.any_eq_false, decide_eq_true_eq,
    UInt64.not_le]

/-- The bytes of a snapshot are read unless its counter is refused. -/
theorem read_write {snapshot : Snapshot}
    (filed : ∀ entry ∈ snapshot.documents.entries, entry.2.id = entry.1)
    (fits : snapshot.write.length < UInt64.size) :
    read snapshot.write =
      if snapshot.nextId == 0 || snapshot.documents.keys.any (snapshot.nextId ≤ ·) then
        .error (.corrupted .idBeyondCounter) []
      else .ok snapshot.written [] := by
  have parts := reads_parts filed fits []
  have rest : (get : Reader Bytes) [] = .ok [] [] := rfl
  rw [List.append_nil] at parts
  rw [read_eq, bind_of_ok parts]
  unfold close
  rw [bind_of_ok rest, List.isEmpty_nil, Bool.not_true, if_neg Bool.false_ne_true, nextId_written,
    keys_written]
  split <;> rfl

/-- A consistent snapshot is read back from its bytes, as long as these can be counted. -/
theorem ofBytes_write {snapshot : Snapshot} (consistent : snapshot.Consistent)
    (fits : snapshot.write.length < UInt64.size) :
    ofBytes snapshot.write = .ok snapshot.written := by
  have accepted := refusesNumbers_eq_false.mpr ⟨consistent.counts, consistent.taken⟩
  rw [ofBytes, read_write consistent.filed fits, accepted, if_neg Bool.false_ne_true]

/-- Nothing else is ever read from the bytes of a snapshot. -/
theorem eq_of_ofBytes_write {snapshot other : Snapshot}
    (filed : ∀ entry ∈ snapshot.documents.entries, entry.2.id = entry.1)
    (fits : snapshot.write.length < UInt64.size) (whole : ofBytes snapshot.write = .ok other) :
    other = snapshot.written := by
  rw [ofBytes, read_write filed fits] at whole
  split at whole
  next result rest found =>
    split at found
    next => cases found
    next =>
      have same : snapshot.written = result := (EStateM.Result.ok.inj found).1
      rw [same, ← Except.ok.inj whole]
  next => cases whole

/-- A snapshot with a document whose number is yet to be taken is refused. -/
theorem ofBytes_write_of_beyond {snapshot : Snapshot} {id : DocId}
    (filed : ∀ entry ∈ snapshot.documents.entries, entry.2.id = entry.1)
    (fits : snapshot.write.length < UInt64.size) (held : id ∈ snapshot.documents.keys)
    (beyond : snapshot.nextId ≤ id) :
    ofBytes snapshot.write = .error (.corrupted .idBeyondCounter) := by
  have refused : snapshot.documents.keys.any (snapshot.nextId ≤ ·) = true :=
    List.any_eq_true.mpr ⟨id, held, decide_eq_true beyond⟩
  rw [ofBytes, read_write filed fits, refused, Bool.or_true, if_pos rfl]

/-- A snapshot passes when nothing follows it and its counter is above all of its documents. -/
theorem of_close {snapshot result : Snapshot} {bytes rest : Bytes}
    (whole : close snapshot bytes = .ok result rest) : result = snapshot ∧ bytes = [] ∧
      snapshot.nextId ≠ 0 ∧ ∀ id ∈ snapshot.documents.keys, id < snapshot.nextId := by
  obtain ⟨seen, left, got, more⟩ := ok_of_bind whole
  cases got
  by_cases trailing : bytes.isEmpty = true
  · rw [trailing, Bool.not_true, if_neg Bool.false_ne_true] at more
    split at more
    next => cases more
    next accepted =>
      have same : snapshot = result := (EStateM.Result.ok.inj more).1
      exact ⟨same.symm, List.isEmpty_iff.mp trailing,
        refusesNumbers_eq_false.mp (Bool.eq_false_iff.mpr accepted)⟩
  · rw [Bool.eq_false_iff.mpr trailing, Bool.not_false, if_pos rfl] at more
    cases more

/-- Whatever is read has been taken up from all of the bytes, and has passed. -/
theorem parts_of_ofBytes {bytes : Bytes} {snapshot : Snapshot}
    (whole : ofBytes bytes = .ok snapshot) : readParts bytes = .ok snapshot [] ∧
      snapshot.nextId ≠ 0 ∧ ∀ id ∈ snapshot.documents.keys, id < snapshot.nextId := by
  unfold ofBytes at whole
  split at whole
  next result rest found =>
    rw [read_eq] at found
    obtain ⟨parts, left, taken, passed⟩ := ok_of_bind found
    obtain ⟨rfl, rfl, accepted⟩ := of_close passed
    rw [← Except.ok.inj whole]
    exact ⟨taken, accepted⟩
  next => cases whole

/-- Whatever is read is consistent. -/
theorem consistent_of_ofBytes {bytes : Bytes} {snapshot : Snapshot}
    (whole : ofBytes bytes = .ok snapshot) : snapshot.Consistent := by
  obtain ⟨parts, counts, taken⟩ := parts_of_ofBytes whole
  obtain ⟨nextId, left, -, more⟩ := ok_of_bind parts
  obtain ⟨terms, left, -, more⟩ := ok_of_bind more
  obtain ⟨documents, left, listed, result⟩ := ok_of_bind more
  cases result
  exact ⟨fun entry member => forall_of_readList filed_of_readDocument listed entry
    (OrderedMap.mem_of_mem_ofList member), counts, taken⟩

end Snapshot

namespace Catalog

/-- A snapshot that is read from a file was decoded from its bytes. -/
theorem ofBytes_of_readSnapshot {disk : Disk} {directory : Path} {snapshot : Snapshot}
    (read : readSnapshot disk directory = .ok snapshot) :
    ∃ bytes, Snapshot.ofBytes bytes = .ok snapshot := by
  unfold readSnapshot at read
  cases found : disk.read (snapshotPath directory) with
  | error fault =>
      rw [found] at read
      cases read
  | ok bytes =>
      rw [found] at read
      exact ⟨bytes, read⟩

/-- A loaded catalog is an empty one with a snapshot installed. -/
theorem install_of_load {disk : Disk} {directory : Path} {catalog : Catalog}
    (loaded : load disk directory = .ok catalog) :
    ∃ snapshot, readSnapshot disk directory = .ok snapshot ∧
      catalog = (empty directory (readUsage disk directory)).install snapshot := by
  unfold load at loaded
  cases checked : checkDirectory disk directory with
  | error fault =>
      rw [checked] at loaded
      cases loaded
  | ok =>
      rw [checked] at loaded
      by_cases there : disk.holds directory = true
      · rw [if_pos there] at loaded
        cases read : readSnapshot disk directory with
        | error fault =>
            rw [read] at loaded
            cases loaded
        | ok snapshot =>
            rw [read] at loaded
            cases loaded
            exact ⟨snapshot, rfl, rfl⟩
      · rw [if_neg there] at loaded
        cases loaded

/-- Going back to a file that can be read installs its snapshot. -/
theorem reload_of_read {disk : Disk} {now : Catalog} {snapshot : Snapshot}
    (read : readSnapshot disk now.directory = .ok snapshot) :
    reload disk now = .ok () (now.install snapshot) := by
  have begun : (get : EStateM Fault Catalog Catalog) now = .ok now now := rfl
  unfold reload
  rw [bind_of_ok begun, read]
  rfl

/-- A catalog whose file cannot be read does not go back to it, and is left as it is. -/
theorem reload_of_unread {disk : Disk} {now : Catalog} {fault : Fault}
    (unread : readSnapshot disk now.directory = .error fault) :
    reload disk now = .error fault now := by
  have begun : (get : EStateM Fault Catalog Catalog) now = .ok now now := rfl
  unfold reload
  rw [bind_of_ok begun, unread]
  rfl

/-- Going back to the file gives what is read of it, or it changes nothing. -/
theorem reload_cases (disk : Disk) (now : Catalog) :
    (∃ snapshot, readSnapshot disk now.directory = .ok snapshot ∧
      reload disk now = .ok () (now.install snapshot)) ∨
    ∃ fault, reload disk now = .error fault now := by
  cases read : readSnapshot disk now.directory with
  | ok snapshot => exact .inl ⟨snapshot, rfl, reload_of_read read⟩
  | error fault => exact .inr ⟨fault, reload_of_unread read⟩

/-- Going back succeeds only by installing the snapshot of the file. -/
theorem install_of_reload {disk : Disk} {now next : Catalog} (loaded : reload disk now = .ok () next) :
    ∃ snapshot, readSnapshot disk now.directory = .ok snapshot ∧ next = now.install snapshot := by
  obtain ⟨snapshot, read, whole⟩ | ⟨fault, failed⟩ := reload_cases disk now
  · cases whole.symm.trans loaded
    exact ⟨snapshot, read, rfl⟩
  · cases failed.symm.trans loaded

end Catalog
end Concordance
