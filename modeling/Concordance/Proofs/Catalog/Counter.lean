import Concordance.Proofs.Catalog.Opening

namespace Concordance

/-- So many numbers from a first one on. After the greatest one they begin with 0 again. -/
def numbersFrom (first : DocId) : Nat → List DocId
  | 0 => []
  | count + 1 => first :: numbersFrom (first + 1) count

section Numbers

variable {first id : DocId} {count : Nat}

theorem counter_zero (first : DocId) : first + UInt64.ofNat 0 = first := UInt64.add_zero first

theorem counter_succ (first : DocId) (count : Nat) :
    first + UInt64.ofNat (count + 1) = first + 1 + UInt64.ofNat count := by
  rw [UInt64.ofNat_add, UInt64.add_comm (UInt64.ofNat count), UInt64.add_assoc]
  rfl

/-- Numbers go on where those before them end. -/
theorem numbersFrom_append (first : DocId) (count more : Nat) :
    numbersFrom first count ++ numbersFrom (first + UInt64.ofNat count) more =
      numbersFrom first (count + more) := by
  induction count generalizing first with
  | zero =>
      rw [counter_zero, Nat.zero_add]
      rfl
  | succ count ih =>
      rw [counter_succ, Nat.add_right_comm, numbersFrom, List.cons_append, ih]
      rfl

/-- As long as the counter stays in range it is its first number and the numbers given since. -/
theorem toNat_counter (room : first.toNat + count < UInt64.size) :
    (first + UInt64.ofNat count).toNat = first.toNat + count := by
  rw [UInt64.toNat_add, UInt64.toNat_ofNat_of_lt' (by omega)]
  exact Nat.mod_eq_of_lt room

/-- No number that is given lies below the counter it was given from. -/
theorem le_of_mem_numbersFrom (room : first.toNat + count < UInt64.size)
    (member : id ∈ numbersFrom first count) : first ≤ id := by
  induction count generalizing first with
  | zero => cases member
  | succ count ih =>
      have one : first.toNat + 1 < UInt64.size := by omega
      rcases List.mem_cons.mp member with rfl | later
      · exact UInt64.le_refl _
      · have above := ih (by rw [toNat_succ one]; omega) later
        exact UInt64.le_of_lt (UInt64.lt_of_lt_of_le (lt_succ one (.inl rfl)) above)

/-- Numbers ascend until the counter comes round. -/
theorem pairwise_numbersFrom (room : first.toNat + count < UInt64.size) :
    (numbersFrom first count).Pairwise (· < ·) := by
  induction count generalizing first with
  | zero => exact .nil
  | succ count ih =>
      have one : first.toNat + 1 < UInt64.size := by omega
      have more : (first + 1).toNat + count < UInt64.size := by
        rw [toNat_succ one]
        omega
      refine List.pairwise_cons.mpr ⟨fun id later => ?_, ih more⟩
      exact UInt64.lt_of_lt_of_le (lt_succ one (.inl rfl)) (le_of_mem_numbersFrom more later)

/-- A counter that has come round stands at 0, or 0 was given as a number. -/
theorem zero_of_round (round : UInt64.size ≤ first.toNat + count) :
    first + UInt64.ofNat count = 0 ∨ 0 ∈ numbersFrom first count := by
  induction count generalizing first with
  | zero => exact absurd first.toNat_lt_size (by omega)
  | succ count ih =>
      rw [counter_succ]
      by_cases one : first.toNat + 1 < UInt64.size
      · have more : UInt64.size ≤ (first + 1).toNat + count := by
          rw [toNat_succ one]
          omega
        rcases ih more with zero | member
        · exact .inl zero
        · exact .inr (List.mem_cons_of_mem _ member)
      · have next : first + 1 = 0 := by
          have greatest : first.toNat + 1 = UInt64.size := by
            have small := first.toNat_lt_size
            omega
          apply UInt64.toNat_inj.mp
          rw [UInt64.toNat_add, UInt64.toNat_one, greatest]
          rfl
        rw [next]
        cases count with
        | zero => exact .inl rfl
        | succ count =>
            refine .inr (List.mem_cons_of_mem _ ?_)
            rw [next]
            exact List.mem_cons_self

end Numbers

/-- A snapshot whose counter stands at 0 is refused. -/
theorem Snapshot.ofBytes_write_of_zero {snapshot : Snapshot}
    (filed : ∀ entry ∈ snapshot.documents.entries, entry.2.id = entry.1)
    (fits : snapshot.write.length < UInt64.size) (zero : snapshot.nextId = 0) :
    ofBytes snapshot.write = .error (.corrupted .idBeyondCounter) := by
  rw [ofBytes, read_write filed fits, zero, beq_self_eq_true, Bool.true_or, if_pos rfl]

namespace Catalog

/-- What takes numbers of a catalog, with the numbers that are returned: one is asked for, or files
are indexed. Anything else takes none. -/
inductive Numbering : Catalog → List DocId → Catalog → Prop where
  | allocate (now : Catalog) : Numbering now [now.allocate.1] now.allocate.2
  | indexFile {now next : Catalog} {extensions : ExtensionSettings} {disk : Disk} {path : Path}
      {id : Option DocId} (indexed : now.indexFile extensions disk path = .ok (id, next)) :
      Numbering now id.toList next
  | indexFiles (now : Catalog) (extensions : ExtensionSettings) (disk : Disk) (paths : List Path) :
      Numbering now ((now.indexFiles extensions disk paths).1.map Prod.snd)
        (now.indexFiles extensions disk paths).2
  | index {now next : Catalog} {extensions : ExtensionSettings} {disk : Disk} {path : Path}
      {ids : List DocId} (indexed : now.index extensions disk path = .ok (ids, next)) :
      Numbering now ids next
  | other {now next : Catalog} (change : Change now next) (same : next.nextId = now.nextId) :
      Numbering now [] next

/-- Any number of these one after another, with all numbers that were returned. -/
inductive Numberings (first : Catalog) : List DocId → Catalog → Prop where
  | start : Numberings first [] first
  | step {ids more : List DocId} {now next : Catalog} (run : Numberings first ids now)
      (numbering : Numbering now more next) : Numberings first (ids ++ more) next

variable {first now next last : Catalog} {ids more : List DocId}

/-- Numbers are given by asking for one or by registering files. -/
theorem Numbering.cases (numbering : Numbering now ids next) :
    ids = [now.nextId] ∧ next = now.allocate.2 ∨
    (∃ items, ids = (now.registerAll items).1.map Prod.snd ∧ next = (now.registerAll items).2) ∨
    ids = [] ∧ Change now next ∧ next.nextId = now.nextId := by
  cases numbering with
  | allocate => exact .inl ⟨rfl, rfl⟩
  | @indexFile _ extensions disk path id indexed =>
      rw [indexFile_eq] at indexed
      cases read : Indexable.ofFile extensions disk path with
      | error fault =>
          rw [read] at indexed
          cases indexed
      | ok item =>
          rw [read] at indexed
          cases indexed
          refine .inr (.inl ⟨item.toList, ?_, rfl⟩)
          cases item <;> rfl
  | indexFiles extensions disk paths => exact .inr (.inl ⟨_, rfl, rfl⟩)
  | @index _ extensions disk path _ indexed =>
      rw [index_eq] at indexed
      cases read : Indexable.ofRoot extensions disk path with
      | error fault =>
          rw [read] at indexed
          cases indexed
      | ok items =>
          rw [read] at indexed
          cases indexed
          exact .inr (.inl ⟨items, rfl, rfl⟩)
  | other change same => exact .inr (.inr ⟨rfl, change, same⟩)

/-- Files are registered under the next numbers. -/
theorem numbers_registerAll (now : Catalog) (items : List Indexable) :
    (now.registerAll items).1.map Prod.snd = numbersFrom now.nextId items.length ∧
      (now.registerAll items).2.nextId = now.nextId + UInt64.ofNat items.length := by
  induction items generalizing now with
  | nil => exact ⟨rfl, (counter_zero _).symm⟩
  | cons item rest ih =>
      obtain ⟨numbers, counter⟩ := ih (now.register item).2
      rw [nextId_register] at numbers counter
      rw [registerAll_cons, List.map_cons, numbers, counter, List.length_cons, counter_succ]
      exact ⟨rfl, rfl⟩

/-- The numbers that are given are the next ones. -/
theorem Numbering.numbers (numbering : Numbering now ids next) :
    ids = numbersFrom now.nextId ids.length ∧
      next.nextId = now.nextId + UInt64.ofNat ids.length := by
  rcases numbering.cases with ⟨rfl, rfl⟩ | ⟨items, rfl, rfl⟩ | ⟨rfl, -, same⟩
  · exact ⟨rfl, rfl⟩
  · rw [List.length_map, length_registerAll]
    exact numbers_registerAll now items
  · exact ⟨rfl, same.trans (counter_zero _).symm⟩

/-- A step that gives numbers keeps a catalog consistent as long as the counter stays in range. -/
theorem Numbering.consistent (numbering : Numbering now ids next)
    (consistent : now.snapshot.Consistent) (room : now.nextId.toNat + ids.length < UInt64.size) :
    next.snapshot.Consistent := by
  rcases numbering.cases with ⟨rfl, rfl⟩ | ⟨items, rfl, rfl⟩ | ⟨rfl, change, -⟩
  · exact consistent_of_change (.allocate room) consistent
  · rw [List.length_map, length_registerAll] at room
    exact consistent_registerAll consistent items room
  · exact consistent_of_change change consistent

/-- Two runs one after another are a run that gives the numbers of both. -/
theorem Numberings.trans (run : Numberings first ids now) (rest : Numberings now more last) :
    Numberings first (ids ++ more) last := by
  induction rest with
  | start => rwa [List.append_nil]
  | step _ numbering ih =>
      rw [← List.append_assoc]
      exact ih.step numbering

/-- A run gives the numbers from the counter on, and leaves the counter behind them. -/
theorem Numberings.numbers (run : Numberings first ids last) :
    ids = numbersFrom first.nextId ids.length ∧
      last.nextId = first.nextId + UInt64.ofNat ids.length := by
  induction run with
  | start => exact ⟨rfl, (counter_zero _).symm⟩
  | @step ids more now next _ numbering ih =>
      obtain ⟨before, counter⟩ := ih
      obtain ⟨after, counted⟩ := numbering.numbers
      rw [counter] at after counted
      rw [List.length_append, ← numbersFrom_append, ← before, ← after, counted, UInt64.ofNat_add,
        UInt64.add_assoc]
      exact ⟨rfl, rfl⟩

/-- A run keeps a catalog consistent as long as the counter stays in range. -/
theorem Numberings.consistent (run : Numberings first ids last)
    (consistent : first.snapshot.Consistent)
    (room : first.nextId.toNat + ids.length < UInt64.size) : last.snapshot.Consistent := by
  induction run with
  | start => exact consistent
  | @step ids more now next run numbering ih =>
      rw [List.length_append] at room
      have counter := run.numbers.2
      refine numbering.consistent (ih (by omega)) ?_
      rw [counter, toNat_counter (by omega)]
      omega

/-- Whatever the catalog writes is accepted when it is opened again. -/
def IsAccepted (last : Catalog) : Prop :=
  last.snapshot.write.length < UInt64.size →
    Snapshot.ofBytes last.snapshot.write = .ok last.snapshot.written ∧
    ∀ disk changed now, IsReady disk last.directory → last.flush now disk = .ok () changed →
      ∃ opened, load changed last.directory = .ok opened ∧ opened.snapshot = last.snapshot.written

/-- What a consistent catalog writes is accepted when it is read. -/
theorem isAccepted_of_consistent (consistent : last.snapshot.Consistent) : last.IsAccepted := by
  intro fits
  refine ⟨Snapshot.ofBytes_write consistent fits, fun disk changed now ready flushed => ?_⟩
  have loaded := load_of_isReady (read_of_flush ready flushed).1
  rw [readSnapshot_of_flush ready consistent fits flushed] at loaded
  exact ⟨_, loaded, rfl⟩

/-- The counter has kept within its range: after some numbers others were given, all of them are
numbers and each is greater than those before it and than the documents that were there before the
later ones, the counter can be told from the greatest number, and the catalog can be written. -/
structure InRange (ids : List DocId) (now : Catalog) (more : List DocId) (last : Catalog) : Prop where
  positive : ∀ id ∈ ids ++ more, 1 ≤ id
  ascending : (ids ++ more).Pairwise (· < ·)
  above : ∀ id ∈ more, ∀ used ∈ now.documents.keys, used < id
  counted : last.greatestId.toNat + 1 = last.nextId.toNat
  accepted : last.IsAccepted

/-- Whatever file is accepted, and however often numbers are taken then, they are the numbers from
the counter of the file on. The counter keeps within its range exactly as long as these are numbers of
64 bits and there is one more for the counter. -/
theorem inRange_of_load {disk : Disk} {directory : Path} (loaded : load disk directory = .ok first)
    (run : Numberings first ids now) (rest : Numberings now more last) :
    ids ++ more = numbersFrom first.nextId (ids.length + more.length) ∧
      last.nextId = first.nextId + UInt64.ofNat (ids.length + more.length) ∧
      (InRange ids now more last ↔
        first.nextId.toNat + (ids.length + more.length) < UInt64.size) := by
  have consistent := consistent_of_isFirst (.of_load loaded)
  have positive : 0 < first.nextId.toNat :=
    Nat.pos_of_ne_zero fun zero => consistent.counts (UInt64.toNat_inj.mp zero)
  obtain ⟨numbers, counter⟩ := (run.trans rest).numbers
  rw [List.length_append] at numbers counter
  refine ⟨numbers, counter, fun inRange => ?_, fun room => ?_⟩
  · by_contra! round
    have zero := zero_of_round round
    rw [← counter, ← numbers] at zero
    rcases zero with zero | member
    · have counted := inRange.counted
      rw [zero] at counted
      cases counted
    · exact absurd (inRange.positive 0 member) (by decide)
  · have middle : now.snapshot.Consistent := run.consistent consistent (by omega)
    have ended : last.snapshot.Consistent := (run.trans rest).consistent consistent
      (by rw [List.length_append]; exact room)
    have last_room : last.nextId.toNat = first.nextId.toNat + (ids.length + more.length) := by
      rw [counter, toNat_counter room]
    constructor
    case positive =>
      intro id member
      rw [numbers] at member
      have above := UInt64.le_iff_toNat_le.mp (le_of_mem_numbersFrom room member)
      exact UInt64.le_iff_toNat_le.mpr (Nat.le_trans positive above)
    case ascending =>
      rw [numbers]
      exact pairwise_numbersFrom room
    case above =>
      intro id member used held
      have between : now.nextId.toNat + more.length < UInt64.size := by
        rw [run.numbers.2, toNat_counter (by omega)]
        omega
      rw [rest.numbers.1] at member
      exact UInt64.lt_of_lt_of_le (middle.taken used held) (le_of_mem_numbersFrom between member)
    case counted =>
      rw [greatestId, UInt64.toNat_sub_of_le]
      · rw [last_room, UInt64.toNat_one]
        omega
      · rw [UInt64.le_iff_toNat_le, last_room, UInt64.toNat_one]
        omega
    case accepted => exact isAccepted_of_consistent ended

/-- A catalog of one file is opened, a number is asked for, and the file is indexed under another. -/
theorem inRange_of_load_indexed :
    ∃ first next, load (storedDisk ((empty ⟨"/"⟩ .empty).register note).2.snapshot.write) ⟨"/"⟩ =
        .ok first ∧
      Numberings first [2] first.allocate.2 ∧ Numberings first.allocate.2 [3] next ∧
      next.isLive 3 = true ∧ InRange [2] first.allocate.2 [3] next := by
  have faithful := faithful_register (faithful_empty ⟨"/"⟩ .empty .none) note (by decide)
  have loaded := load_storedDisk faithful.consistent (by decide +kernel)
  generalize opening : (empty ⟨"/"⟩ (readUsage _ ⟨"/"⟩)).install _ = first at loaded
  have counter : first.nextId = 2 := by
    rw [← opening]
    exact nextId_register (empty ⟨"/"⟩ .empty) note
  have allocated : first.allocate.2.nextId = 3 := congrArg (· + 1) counter
  have asked : Numberings first [2] first.allocate.2 := by
    rw [← counter]
    exact Numberings.start.step (.allocate first)
  have indexed : first.allocate.2.indexFile ⟨[], []⟩ noteDisk notePath =
      .ok (some 3, (first.allocate.2.register note).2) := by
    rw [indexFile_eq, ofFile_notePath _ rfl, ← allocated]
    rfl
  have rest : Numberings first.allocate.2 [3] (first.allocate.2.register note).2 :=
    Numberings.start.step (.indexFile indexed)
  have found : (first.allocate.2.register note).2.document? 3 = some (note.document 3) := by
    rw [document?_register, allocated, if_pos rfl]
  refine ⟨first, _, loaded, asked, rest, Option.isSome_of_eq_some found, ?_⟩
  exact (inRange_of_load loaded asked rest).2.2.mpr (by rw [counter]; decide)

/-- A file whose counter stands at the greatest number of 64 bits. -/
def spent : Snapshot := ⟨0xffffffffffffffff, .empty, .empty⟩

theorem consistent_spent : spent.Consistent where
  filed _ member := absurd member List.not_mem_nil
  counts := by decide
  taken _ member := absurd member List.not_mem_nil

/-- This file is accepted, and after one number the counter stands at 0: it is below the greatest
number, the next number is 0, and what is written is refused when it is opened again. -/
theorem round_of_spent :
    ∃ first changed, load (storedDisk spent.write) ⟨"/"⟩ = .ok first ∧
      Numberings first [0xffffffffffffffff] first.allocate.2 ∧
      first.allocate.2.nextId = 0 ∧ first.allocate.2.greatestId = 0xffffffffffffffff ∧
      first.allocate.2.allocate.1 = 0 ∧
      first.allocate.2.flush 0 (storedDisk spent.write) = .ok () changed ∧
      load changed ⟨"/"⟩ = .error (.corrupted .idBeyondCounter) := by
  have loaded := load_storedDisk consistent_spent (by decide +kernel)
  have ready : IsReady (storedDisk spent.write) ⟨"/"⟩ := ⟨[], plain_storedDisk _⟩
  generalize opening : (empty ⟨"/"⟩ (readUsage _ ⟨"/"⟩)).install spent.written = first at loaded
  have directory : first.allocate.2.directory = ⟨"/"⟩ := by
    rw [← opening]
    rfl
  have written : first.allocate.2.snapshot = ⟨0, .empty, .empty⟩ := by
    rw [← opening]
    rfl
  have counter : first.allocate.2.nextId = 0 := congrArg Snapshot.nextId written
  rw [← directory] at ready
  obtain ⟨changed, flushed⟩ := flush_eq_ok 0 ready (by rw [directory]; exact checkSpelling_noteDisk)
  have read := read_of_flush ready flushed
  have asked : Numberings first [0xffffffffffffffff] first.allocate.2 := by
    have given : first.allocate.1 = 0xffffffffffffffff := by
      rw [← opening]
      rfl
    rw [← given]
    exact Numberings.start.step (.allocate first)
  have refused : load changed first.allocate.2.directory = .error (.corrupted .idBeyondCounter) := by
    rw [load_of_isReady read.1, readSnapshot_eq read.2, written,
      Snapshot.ofBytes_write_of_zero (fun _ member => absurd member List.not_mem_nil)
        (by decide +kernel) rfl]
    rfl
  rw [directory] at refused
  refine ⟨first, changed, loaded, asked, counter, ?_, counter, flushed, refused⟩
  rw [greatestId, counter]
  rfl

end Catalog
end Concordance
