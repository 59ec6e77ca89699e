import Concordance.CommandLine.Console
import Concordance.Proofs.Catalog.Growth
import Concordance.Proofs.Catalog.Storing
import Mathlib.Logic.Relation

/-! What a run keeps from one line to the next: the disk and the catalogs that it has opened. -/
namespace Concordance.CommandLine

open Disk Catalog

/-- The disk and the open catalogs. -/
structure Desk where
  disk : Disk
  catalogs : OrderedMap Path Catalog

/-- The part of a console that is more than what is read and shown. -/
def Console.desk (console : Console) : Desk := ⟨console.disk, console.catalogs⟩

namespace Desk

/-- One thing that a line does: directories are made, a catalog is opened, an open catalog is
changed so that it knows more, or it is written, whether this succeeds or not. -/
inductive Move : Desk → Desk → Prop where
  | grow {disk next : Disk} (catalogs : OrderedMap Path Catalog)
      (evolves : Evolves (fun _ => False) disk next) : Move ⟨disk, catalogs⟩ ⟨next, catalogs⟩
  | enter {disk : Disk} {catalogs : OrderedMap Path Catalog} {catalog : Catalog}
      (fresh : catalogs.get? catalog.directory = none)
      (there : disk.isDirectory catalog.directory = true)
      (consistent : catalog.snapshot.Consistent) :
      Move ⟨disk, catalogs⟩ ⟨disk, catalogs.insert catalog.directory catalog⟩
  | change {disk : Disk} {catalogs : OrderedMap Path Catalog} {path : Path}
      {before after : Catalog} (held : catalogs.get? path = some before)
      (same : after.directory = before.directory) (consistent : after.snapshot.Consistent)
      (extension : before.snapshot.Extends after.snapshot)
      (fits : before.snapshot.write.length < UInt64.size →
        after.snapshot.write.length < UInt64.size) :
      Move ⟨disk, catalogs⟩ ⟨disk, catalogs.insert path after⟩
  | write {disk : Disk} {catalogs : OrderedMap Path Catalog} {path : Path} {catalog : Catalog}
      (held : catalogs.get? path = some catalog) (now : Int) :
      Move ⟨disk, catalogs⟩ ⟨stateAfter (catalog.flush now) disk, catalogs⟩

abbrev Moves : Desk → Desk → Prop := Relation.ReflTransGen Move

/-- A catalog is filed under its directory, which is there. -/
structure IsOpen (disk : Disk) (path : Path) (catalog : Catalog) : Prop where
  filed : path.parts = catalog.directory.parts
  there : disk.isDirectory catalog.directory = true
  consistent : catalog.snapshot.Consistent

/-- The disk is a tree on which catalogs can be written, and all open catalogs are in order. -/
structure Sound (desk : Desk) : Prop where
  tree : desk.disk.IsTree
  clean : IsClean desk.disk
  opened : ∀ path catalog, desk.catalogs.get? path = some catalog → IsOpen desk.disk path catalog

/-- No two open catalogs have directories that are the same under two names. -/
def Apart (desk : Desk) : Prop :=
  ∀ one ∈ desk.catalogs.values, ∀ other ∈ desk.catalogs.values, ∀ location,
    desk.disk.Leads one.directory location → desk.disk.Leads other.directory location →
    one.directory = other.directory

/-- Directories stay where they are, and catalogs stay open under them. -/
structure Continues (desk next : Desk) : Prop where
  leads : ∀ path location, desk.disk.Leads path location → next.disk.Leads path location
  opened : ∀ path catalog, desk.catalogs.get? path = some catalog →
    ∃ later, next.catalogs.get? path = some later ∧ later.directory = catalog.directory

variable {desk next last : Desk}

theorem mem_values_of_get? {path : Path} {catalog : Catalog}
    (held : desk.catalogs.get? path = some catalog) : catalog ∈ desk.catalogs.values := by
  obtain ⟨here, -, member⟩ := OrderedMap.get?_eq_some_iff_exists.mp held
  exact List.mem_map_of_mem member

theorem get?_of_mem_values {catalog : Catalog} (member : catalog ∈ desk.catalogs.values) :
    ∃ path, desk.catalogs.get? path = some catalog := by
  obtain ⟨⟨path, catalog⟩, held, rfl⟩ := List.mem_map.mp member
  exact ⟨path, OrderedMap.get?_of_mem held⟩

/-- An open catalog has a directory on which it can be written. -/
theorem Sound.hosts (sound : desk.Sound) {path : Path} {catalog : Catalog}
    (held : desk.catalogs.get? path = some catalog) :
    ∃ location, Hosts desk.disk catalog.directory location := by
  obtain ⟨location, resolves⟩ := isDirectory_iff.mp (sound.opened path catalog held).there
  exact ⟨location, sound.tree, sound.clean, resolves⟩

/-- The disk changes at the files of one open catalog at most. -/
theorem Move.evolves (move : Move desk next) (sound : desk.Sound) :
    ∃ own, Evolves own desk.disk next.disk := by
  cases move with
  | grow catalogs evolves => exact ⟨_, evolves⟩
  | enter => exact ⟨fun _ => False, .refl _ _⟩
  | change => exact ⟨fun _ => False, .refl _ _⟩
  | write held now =>
      obtain ⟨location, hosts⟩ := sound.hosts held
      exact ⟨_, (hosts.stores now).1.evolves⟩

/-- A move continues what is on the desk. -/
theorem Move.continues (move : Move desk next) (sound : desk.Sound) : Continues desk next where
  leads path location leads := by
    obtain ⟨own, evolves⟩ := move.evolves sound
    exact evolves.leads leads
  opened path catalog held := by
    cases move with
    | grow => exact ⟨catalog, held, rfl⟩
    | write => exact ⟨catalog, held, rfl⟩
    | enter fresh _ _ => exact ⟨catalog, OrderedMap.get?_insert_of_fresh fresh held _, rfl⟩
    | @change disk catalogs here before after known same _ _ _ =>
        rw [OrderedMap.get?_insert]
        split
        next equal =>
          rw [OrderedMap.get?_congr equal, known, Option.some.injEq] at held
          exact ⟨after, rfl, held ▸ same⟩
        next => exact ⟨catalog, held, rfl⟩

theorem isDirectory_of_evolves {own : Location → Prop} {disk later : Disk}
    (evolves : Evolves own disk later) {path : Path} (there : disk.isDirectory path = true) :
    later.isDirectory path = true := by
  obtain ⟨location, resolved⟩ := isDirectory_iff.mp there
  exact isDirectory_iff.mpr ⟨location, resolve_eq_of_leads (resolve_eq_ok.mp resolved).1
    (evolves.leads (leads_of_resolve resolved))⟩

/-- A move keeps a desk sound. -/
theorem Sound.of_move (sound : desk.Sound) (move : Move desk next) : next.Sound := by
  obtain ⟨own, evolves⟩ := move.evolves sound
  refine ⟨evolves.isTree sound.tree, isClean_of_evolves evolves sound.clean, ?_⟩
  intro path catalog held
  have later {directory : Path} := @isDirectory_of_evolves own _ _ evolves directory
  have old (known : desk.catalogs.get? path = some catalog) : IsOpen next.disk path catalog :=
    have isOpen := sound.opened path catalog known
    ⟨isOpen.filed, later isOpen.there, isOpen.consistent⟩
  cases move with
  | grow => exact old held
  | write => exact old held
  | @enter disk catalogs new _ there consistent =>
      rw [OrderedMap.get?_insert] at held
      split at held
      next same =>
        cases held
        exact ⟨Path.compare_eq_iff.mp same, there, consistent⟩
      next => exact old held
  | @change disk catalogs here before after known same consistent _ _ =>
      rw [OrderedMap.get?_insert] at held
      split at held
      next equal =>
        cases held
        have isOpen := sound.opened here before known
        refine ⟨?_, same ▸ isOpen.there, consistent⟩
        rw [Path.compare_eq_iff.mp equal, isOpen.filed, same]
      next => exact old held

theorem Continues.refl (desk : Desk) : Continues desk desk where
  leads _ _ leads := leads
  opened _ catalog held := ⟨catalog, held, rfl⟩

/-- Continuing is transitive. -/
theorem Continues.trans (first : Continues desk next) (second : Continues next last) :
    Continues desk last where
  leads path location leads := second.leads path location (first.leads path location leads)
  opened path catalog held := by
    obtain ⟨middle, found, same⟩ := first.opened path catalog held
    obtain ⟨later, kept, equal⟩ := second.opened path middle found
    exact ⟨later, kept, equal.trans same⟩

/-- Moves keep a desk sound and continue what is on it. -/
theorem Sound.of_moves (sound : desk.Sound) (moves : Moves desk last) :
    last.Sound ∧ Continues desk last := by
  induction moves with
  | refl => exact ⟨sound, .refl desk⟩
  | tail _ move ih => exact ⟨ih.1.of_move move, ih.2.trans (move.continues ih.1)⟩

/-- Where directories are told apart in the end, they were told apart before. -/
theorem Apart.of_continues (apart : last.Apart) (continues : Continues desk last) : desk.Apart := by
  intro one member other known location leads again
  obtain ⟨path, held⟩ := get?_of_mem_values member
  obtain ⟨second, found⟩ := get?_of_mem_values known
  obtain ⟨later, kept, same⟩ := continues.opened path one held
  obtain ⟨latest, stays, equal⟩ := continues.opened second other found
  rw [← same, ← equal]
  refine apart later (mem_values_of_get? kept) latest (mem_values_of_get? stays) location ?_ ?_
  · exact continues.leads _ _ (same ▸ leads)
  · exact continues.leads _ _ (equal ▸ again)

/-- Where directories are told apart they stay so, as long as no catalog is opened. -/
theorem Apart.of_catalogs_eq (apart : desk.Apart) (sound : desk.Sound)
    (continues : Continues desk last) (same : last.catalogs = desk.catalogs) : last.Apart := by
  have before {catalog : Catalog} (member : catalog ∈ desk.catalogs.values) {location : Location}
      (leads : last.disk.Leads catalog.directory location) :
      desk.disk.Leads catalog.directory location := by
    obtain ⟨path, held⟩ := get?_of_mem_values member
    obtain ⟨place, hosts⟩ := sound.hosts held
    have here := leads_of_resolve hosts.resolves
    rwa [← (continues.leads _ _ here).unique leads]
  intro one member other known location leads again
  rw [same] at member known
  exact apart one member other known location (before member leads) (before known again)

/-- A snapshot of a directory is not lost: what its open catalog knows and what its file holds both
extend it. -/
structure Keeps (desk : Desk) (path : Path) (promised : Snapshot) : Prop where
  memory : ∃ catalog, desk.catalogs.get? path = some catalog ∧
    promised.Extends catalog.snapshot ∧ catalog.snapshot.write.length < UInt64.size
  stored : ∃ location snapshot modified, desk.disk.Leads path location ∧
    desk.disk.entry? (location ++ [("meta" : Bytes)]) = some (.file snapshot.write modified) ∧
    promised.Extends snapshot ∧ snapshot.Consistent ∧ snapshot.write.length < UInt64.size

/-- Writing another catalog leaves the file of a snapshot alone, and writing its own catalog puts in
what extends it. -/
theorem Keeps.of_move {path : Path} {promised : Snapshot} (keeps : desk.Keeps path promised)
    (sound : desk.Sound) (apart : desk.Apart) (move : Move desk next) :
    next.Keeps path promised := by
  obtain ⟨catalog, held, extension, fits⟩ := keeps.memory
  obtain ⟨location, snapshot, modified, leads, found, stored, consistent, stored_fits⟩ :=
    keeps.stored
  cases move with
  | grow catalogs evolves =>
      exact ⟨keeps.memory, location, snapshot, modified, evolves.leads leads,
        evolves.kept _ _ found fun both => both.1, stored, consistent, stored_fits⟩
  | enter fresh _ _ =>
      exact ⟨⟨catalog, OrderedMap.get?_insert_of_fresh fresh held _, extension, fits⟩, keeps.stored⟩
  | @change disk catalogs here before after known _ _ more still_fits =>
      refine ⟨?_, keeps.stored⟩
      rw [OrderedMap.get?_insert]
      split
      next same =>
        rw [OrderedMap.get?_congr same, known, Option.some.injEq] at held
        cases held
        exact ⟨after, rfl, extension.trans more, still_fits fits⟩
      next => exact ⟨catalog, held, extension, fits⟩
  | @write disk catalogs here written known now =>
      obtain ⟨place, hosts⟩ := sound.hosts known
      have stores := (hosts.stores now).1
      have meant := leads.congr (sound.opened path catalog held).filed
      refine ⟨keeps.memory, ?_⟩
      by_cases same : location = place
      · -- The directory that is written to is that of the snapshot, so its catalog is the one.
        have named := apart catalog (mem_values_of_get? held) written (mem_values_of_get? known)
          location meant (same ▸ leads_of_resolve hosts.resolves)
        have equal : compare path here = .eq := by
          rw [Path.compare_eq_iff, (sound.opened path catalog held).filed,
            (sound.opened here written known).filed, named]
        rw [OrderedMap.get?_congr equal, known, Option.some.injEq] at held
        subst held same
        rcases stores.stored with kept | new
        · exact ⟨location, snapshot, modified, stores.evolves.leads leads, kept.trans found, stored,
            consistent, stored_fits⟩
        · exact ⟨location, written.snapshot, now, stores.evolves.leads leads, new, extension,
            (sound.opened here written known).consistent, fits⟩
      · refine ⟨location, snapshot, modified, stores.evolves.leads leads, ?_, stored, consistent,
          stored_fits⟩
        refine stores.evolves.kept _ _ found ?_
        rintro ⟨⟨name, -, equal⟩, -⟩
        exact same (List.append_inj' equal rfl).1

/-- What a catalog has brought to the disk stays there through all moves. -/
theorem Keeps.of_moves {path : Path} {promised : Snapshot} (keeps : desk.Keeps path promised)
    (sound : desk.Sound) (moves : Moves desk last) (apart : last.Apart) :
    last.Keeps path promised := by
  induction moves with
  | refl => exact keeps
  | tail before move ih =>
      have middle := (sound.of_moves before).1
      have earlier := apart.of_continues (move.continues middle)
      exact (ih earlier).of_move middle earlier move

/-- A snapshot that is kept is found in its directory under whatever name leads there. -/
theorem Keeps.load {path : Path} {promised : Snapshot} (keeps : desk.Keeps path promised) :
    ∃ location, desk.disk.Leads path location ∧
      ∀ name, desk.disk.resolve name = .ok (.taken location .directory) →
        checkSpelling (snapshotPath name).bytes = .ok () →
        ∃ found, Catalog.load desk.disk name = .ok found ∧
          promised.written.Extends found.snapshot := by
  obtain ⟨location, snapshot, modified, leads, found, stored, consistent, fits⟩ := keeps.stored
  refine ⟨location, leads, fun name resolves checked => ?_⟩
  have plain : Plain desk.disk name [] location :=
    ⟨resolves, fun _ member => absurd member List.not_mem_nil,
      fun _ member => absurd member List.not_mem_nil⟩
  have bytes := plain.read_file (isFileName_of_mem (by decide)) checked found
  refine ⟨(empty name (readUsage desk.disk name)).install snapshot.written, ?_, stored.written⟩
  rw [load_of_resolve resolves, readSnapshot_eq bytes, Snapshot.ofBytes_write consistent fits]
  rfl

end Desk

end Concordance.CommandLine
