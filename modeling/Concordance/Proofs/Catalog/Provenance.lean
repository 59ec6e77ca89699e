import Concordance.Proofs.Catalog.History
import Concordance.Proofs.Gist

/-! Where documents come from. -/
namespace Concordance

namespace Indexable

/-- What has been read of a file is all that its content gives. -/
theorem extraction_of_ofFile {extensions : ExtensionSettings} {disk : Disk} {path : Path}
    {item : Indexable} (read : ofFile extensions disk path = .ok (some item)) {content : Bytes}
    (stored : disk.read path = .ok content) :
    item.extraction = Extract.Extraction.ofContent path content := by
  unfold ofFile at read
  unfold Disk.read at stored
  cases found : disk.look path with
  | error fault =>
      rw [found] at stored
      cases stored
  | ok entry =>
      rw [found] at read stored
      cases entry with
      | file bytes modified =>
          cases stored
          dsimp only at read
          split_ifs at read
          · cases read
          · cases read
            rfl
      | _ => cases read

/-- Each file that is read for a path is read by its own path. -/
theorem ofFile_of_ofRoot {extensions : ExtensionSettings} {disk : Disk} {path : Path}
    {items : List Indexable} (read : ofRoot extensions disk path = .ok items) {item : Indexable}
    (member : item ∈ items) : ofFile extensions disk item.path = .ok (some item) := by
  unfold ofRoot at read
  cases found : disk.look path with
  | error fault =>
      rw [found] at read
      cases read
  | ok entry =>
      rw [found] at read
      cases entry with
      | file content modified =>
          dsimp only at read
          cases single : ofFile extensions disk path with
          | error fault =>
              rw [single] at read
              cases read
          | ok result =>
              rw [single] at read
              cases read
              obtain rfl : result = some item := Option.mem_toList.mp member
              rw [(of_ofFile single).1, single]
      | _ =>
          dsimp only at read
          cases collected : collectFiles extensions disk path with
          | error fault =>
              rw [collected] at read
              cases read
          | ok paths =>
              rw [collected] at read
              cases read
              exact (mem_ofFiles member).2

end Indexable

namespace Origins

/-- A number bears a file that it was just given to, or the one that it bore before. -/
theorem of_assign {origins : Origins} {given : List (DocId × Indexable)} {id : DocId}
    {item : Indexable} (origin : origins.assign given id = some item) :
    (id, item) ∈ given ∨ origins id = some item := by
  induction given generalizing origins with
  | nil => exact .inr origin
  | cons entry rest ih =>
      rcases ih origin with later | here
      · exact .inl (List.mem_cons_of_mem _ later)
      · change (if id = entry.1 then some entry.2 else origins id) = some item at here
        split_ifs at here with same
        · cases here
          exact .inl (same ▸ List.mem_cons_self)
        · exact .inr here

end Origins

namespace History

open Catalog

/-- Between two moments of a history a file is read and becomes the document of a number that has
none. -/
structure Indexed (before after : History) (id : DocId) (item : Indexable) : Prop where
  step : Step before after
  unused : before.catalog.document? id = none
  read : ∃ extensions, Indexable.ofFile extensions before.disk item.path = .ok (some item)
  filed : after.catalog.document? id = some (item.document id)
  given : after.origins id = some item

/-- From one moment of a history on, a file has been indexed under a number before another. -/
def WasIndexed (first now : History) (id : DocId) (item : Indexable) : Prop :=
  ∃ before after, Relation.ReflTransGen Step first before ∧ Indexed before after id item ∧
    Relation.ReflTransGen Step after now

/-- What has been indexed in a history has been indexed in every longer one. -/
theorem WasIndexed.step {first now next : History} {id : DocId} {item : Indexable}
    (indexed : WasIndexed first now id item) (step : Step now next) :
    WasIndexed first next id item := by
  obtain ⟨before, after, ahead, here, behind⟩ := indexed
  exact ⟨before, after, ahead, here, behind.tail step⟩

/-- A number that registering has given is new, and has the document of its file. -/
theorem filed_of_mem_zip {catalog : Catalog} {origins : Origins}
    (faithful : catalog.snapshot.Faithful origins) {items : List Indexable}
    (room : catalog.nextId.toNat + items.length < UInt64.size) {id : DocId} {item : Indexable}
    (member : (id, item) ∈ ((catalog.registerAll items).1.map Prod.snd).zip items) :
    item ∈ items ∧ catalog.document? id = none ∧
      (catalog.registerAll items).2.document? id = some (item.document id) := by
  obtain ⟨-, each⟩ := List.forall₂_iff_zip.mp (forall₂_registerAll faithful items room)
  obtain ⟨position, inside, held⟩ := List.mem_iff_getElem.mp member
  rw [List.getElem_zip, List.getElem_map] at held
  obtain ⟨rfl, rfl⟩ := Prod.mk.inj held
  rw [List.length_zip, List.length_map, Nat.lt_min] at inside
  have within : position < (items.zip (catalog.registerAll items).1).length := by
    rw [List.length_zip, Nat.lt_min]
    exact inside.symm
  have pair : (items[position], (catalog.registerAll items).1[position]) ∈
      items.zip (catalog.registerAll items).1 := by
    rw [← List.getElem_zip (h := within)]
    exact List.getElem_mem within
  obtain ⟨-, later, files⟩ := each pair
  refine ⟨List.getElem_mem _, ?_, files.document⟩
  rw [← Option.not_isSome_iff_eq_none]
  intro live
  obtain ⟨document, found⟩ := Option.isSome_iff_exists.mp live
  exact absurd (faithful.taken found).2 (UInt64.not_lt.mpr later)

/-- Every number that bears a file in memory or on the disk was given to it in the history. -/
structure Traced (first now : History) : Prop where
  here : ∀ {id item}, now.origins id = some item → WasIndexed first now id item
  saved : ∀ {id item}, now.saved id = some item → WasIndexed first now id item

/-- A step that indexes files gives numbers to files that it reads. -/
theorem Traced.assign {first now next : History} {extensions : ExtensionSettings}
    {items : List Indexable} (traced : Traced first now)
    (run : Relation.ReflTransGen Step first now) (sound : now.Sound) (step : Step now next)
    (read : ∀ item ∈ items, Indexable.ofFile extensions now.disk item.path = .ok (some item))
    (room : now.catalog.nextId.toNat + items.length < UInt64.size)
    (catalog : next.catalog = (now.catalog.registerAll items).2)
    (origins : next.origins =
      now.origins.assign (((now.catalog.registerAll items).1.map Prod.snd).zip items))
    (saved : next.saved = now.saved) : Traced first next where
  here := by
    intro id item origin
    have given := origin
    rw [origins] at given
    rcases Origins.of_assign given with member | before
    · obtain ⟨held, unused, filed⟩ := filed_of_mem_zip sound.faithful room member
      exact ⟨now, next, run, ⟨step, unused, ⟨extensions, read item held⟩, catalog ▸ filed, origin⟩,
        .refl⟩
    · exact (traced.here before).step step
  saved origin := (traced.saved (saved ▸ origin)).step step

/-- A step keeps every document traced to the step that indexed it. -/
theorem Traced.of_step {first now next : History} (traced : Traced first now)
    (run : Relation.ReflTransGen Step first now) (sound : now.Sound) (step : Step now next) :
    Traced first next := by
  -- All steps but those that index keep the numbers of one side or take them from the other.
  have kept (here : next.origins = now.origins ∨ next.origins = now.saved)
      (saved : next.saved = now.saved ∨ next.saved = now.origins) : Traced first next := by
    constructor
    · intro id item origin
      rcases here with same | same <;> rw [same] at origin
      · exact (traced.here origin).step step
      · exact (traced.saved origin).step step
    · intro id item origin
      rcases saved with same | same <;> rw [same] at origin
      · exact (traced.saved origin).step step
      · exact (traced.here origin).step step
  cases step with
  | @index extensions path items ids next read room indexed =>
      have origin := indexed
      rw [index_eq, read] at indexed
      cases indexed
      exact traced.assign run sound (.index read room origin)
        (fun item member => Indexable.ofFile_of_ofRoot read member) room rfl rfl rfl
  | @indexFile extensions path item id next read room indexed =>
      have origin := indexed
      rw [indexFile_eq, read] at indexed
      cases indexed
      cases item with
      | none =>
          exact kept (.inl rfl) (.inl rfl)
      | some item =>
          have single : ∀ other ∈ [item],
              Indexable.ofFile extensions now.disk other.path = .ok (some other) := by
            intro other member
            rw [List.mem_singleton.mp member, (Indexable.of_ofFile read).1, read]
          exact traced.assign run sound (.indexFile read room origin) single room rfl rfl rfl
  | remove | tidy | tidyAll | clear | others => exact kept (.inl rfl) (.inl rfl)
  | flush => exact kept (.inl rfl) (.inr rfl)
  | reload | reopen | reopenOrCreate => exact kept (.inr rfl) (.inl rfl)

/-- Over every history each number was given to its file by a step of the history. -/
theorem traced_of_run {directory : Path} {usage : UsageLog} {disk : Disk} {last : History}
    (ready : IsReady disk directory) (unwritten : disk.holds (snapshotPath directory) = false)
    (run : Relation.ReflTransGen Step (start directory usage disk) last) :
    Traced (start directory usage disk) last := by
  induction run with
  | refl => exact ⟨fun origin => (nomatch origin), fun origin => (nomatch origin)⟩
  | tail before step ih =>
      exact ih.of_step before (sound_of_run before (sound_start ready unwritten)) step

end History
end Concordance
