import Concordance.Proofs.Catalog.Faithful
import Concordance.Proofs.Catalog.Flush
import Concordance.Proofs.Disk.Tree

/-! What writing a catalog does to the rest of the disk, also where it fails on the way. -/
namespace Concordance.Catalog

open Disk

/-- No link and no device bears the name of a file of a catalog. -/
def IsClean (disk : Disk) : Prop :=
  ∀ location, ∀ name ∈ ownNames, ∀ entry, disk.entry? (location ++ [name]) = some entry →
    entry = .directory ∨ IsFile entry

/-- The places of the files of a catalog. -/
def OwnPlace (location place : Location) : Prop := ∃ name ∈ ownNames, place = location ++ [name]

/-- The files of a catalog stand at places of its own. -/
theorem ownPlace_of_mem (location : Location) {name : Bytes} (own : name ∈ ownNames) :
    OwnPlace location (location ++ [name]) := ⟨name, own, rfl⟩

/-- A disk without links or devices under the names of a catalog stays so as it evolves. -/
theorem isClean_of_evolves {own : Location → Prop} {disk next : Disk}
    (evolves : Evolves own disk next) (clean : IsClean disk) : IsClean next := by
  intro location name member entry found
  rcases evolves.new _ entry found with there | directory | ⟨-, file⟩
  · exact clean location name member entry there
  · exact .inl directory
  · exact .inr file

/-- A directory on a disk on which catalogs can be written. -/
structure Hosts (disk : Disk) (directory : Path) (location : Location) : Prop where
  tree : disk.IsTree
  clean : IsClean disk
  resolves : disk.resolve directory = .ok (.taken location .directory)

section Outcomes

variable {disk changed : Disk} {directory : Path} {location : Location} {name : Bytes}
  {content : Bytes} {now : Int}

namespace Hosts

theorem directory? (hosts : Hosts disk directory location) :
    disk.entry? location = some .directory :=
  hosts.tree.entry?_of_walkFrom (leads_of_resolve hosts.resolves)

theorem plain (hosts : Hosts disk directory location) : Plain disk directory [] location where
  resolves := hosts.resolves
  regular _ member := absurd member List.not_mem_nil
  bare _ member := absurd member List.not_mem_nil

/-- A directory that hosts a catalog goes on to host one as the disk evolves. -/
theorem of_evolves {own : Location → Prop} (hosts : Hosts disk directory location)
    (evolves : Evolves own disk changed) : Hosts changed directory location where
  tree := evolves.isTree hosts.tree
  clean := isClean_of_evolves evolves hosts.clean
  resolves := resolve_eq_of_leads (resolve_eq_ok.mp hosts.resolves).1
    (evolves.leads (leads_of_resolve hosts.resolves))

/-- A file that is written was free or a file before. -/
theorem write_child (hosts : Hosts disk directory location) (own : name ∈ ownNames)
    (written : disk.write (directory.child name) content now = .ok changed) :
    changed = disk.put (location ++ [name]) (.file content now) ∧
      ∀ old, disk.entry? (location ++ [name]) = some old → IsFile old := by
  have named := isFileName_of_mem own
  have checked := checkSpelling_of_write written
  unfold Disk.write at written
  cases found : disk.entry? (location ++ [name]) with
  | none =>
      rw [hosts.plain.resolve_free named checked found] at written
      exact ⟨(Except.ok.inj written).symm, fun _ there => nomatch there⟩
  | some entry =>
      rcases hosts.clean location name own entry found with rfl | ⟨old, modified, rfl⟩
      · obtain ⟨left, walked⟩ := hosts.plain.walkFrom_child named.1
        have there := walked.trans ((walk_directory named.2 found).trans walk_nil)
        rw [resolve_eq_ok.mpr ⟨checked, there⟩] at written
        cases written
      · rw [hosts.plain.resolve_file named checked found] at written
        refine ⟨(Except.ok.inj written).symm, fun entry there => ?_⟩
        cases there
        exact ⟨old, modified, rfl⟩

/-- A file that is given another name takes the place of a file, or a place that was free. -/
theorem rename_child {target : Bytes} (hosts : Hosts disk directory location)
    (source_own : name ∈ ownNames) (target_own : target ∈ ownNames)
    (source_checked : checkSpelling (directory.child name).bytes = .ok ())
    (found : disk.entry? (location ++ [name]) = some (.file content now))
    (renamed : disk.rename (directory.child name) (directory.child target) = .ok changed) :
    changed = (disk.drop (location ++ [name])).put (location ++ [target]) (.file content now) ∧
      ∀ old, disk.entry? (location ++ [target]) = some old → IsFile old := by
  have target_checked := checkSpelling_of_rename renamed
  unfold rename at renamed
  rw [hosts.plain.site?_child (isFileName_of_mem source_own) source_checked,
    hosts.plain.site?_child (isFileName_of_mem target_own) target_checked] at renamed
  simp only [bind, Except.bind, found] at renamed
  cases there : disk.entry? (location ++ [target]) with
  | none =>
      rw [there] at renamed
      exact ⟨(Except.ok.inj renamed).symm, fun _ held => nomatch held⟩
  | some entry =>
      rw [there] at renamed
      rcases hosts.clean location target target_own entry there with rfl | ⟨old, modified, rfl⟩
      · cases renamed
      · refine ⟨(Except.ok.inj renamed).symm, fun entry held => ?_⟩
        cases held
        exact ⟨old, modified, rfl⟩

end Hosts

/-- What replacing a file comes to: the other files of the catalog are left alone, and the file is
the one that was there or the new one. -/
structure Replaces (location : Location) (name : Bytes) (content : Bytes) (now : Int)
    (disk next : Disk) : Prop where
  evolves : Evolves (OwnPlace location) disk next
  others : ∀ other, other ≠ name → other ≠ name ++ ".tmp" →
    next.entry? (location ++ [other]) = disk.entry? (location ++ [other])
  stored : next.entry? (location ++ [name]) = disk.entry? (location ++ [name]) ∨
    next.entry? (location ++ [name]) = some (.file content now)

/-- A disk on which nothing was done has the old content. -/
theorem Replaces.refl (location : Location) (name : Bytes) (content : Bytes) (now : Int)
    (disk : Disk) : Replaces location name content now disk disk :=
  ⟨.refl _ disk, fun _ _ _ => rfl, .inl rfl⟩

/-- A file that was written is the only entry that has changed. -/
theorem Hosts.evolves_write (hosts : Hosts disk directory location) (own : name ∈ ownNames)
    (written : disk.write (directory.child name) content now = .ok changed) :
    Evolves (OwnPlace location) disk changed ∧ ∀ other, changed.entry? (location ++ [other]) =
      if other = name then some (.file content now) else disk.entry? (location ++ [other]) := by
  obtain ⟨rfl, replaced⟩ := hosts.write_child own written
  have owned := ownPlace_of_mem location own
  refine ⟨evolves_put hosts.directory? (fun old found => ⟨owned, replaced old found⟩)
    (.inr ⟨owned, content, now, rfl⟩), fun other => ?_⟩
  rw [entry?_put (by simp)]
  simp

/-- A file that was given another name is there, and no longer where it was. -/
theorem Hosts.evolves_rename {target : Bytes} (hosts : Hosts disk directory location)
    (source_own : name ∈ ownNames) (target_own : target ∈ ownNames)
    (source_checked : checkSpelling (directory.child name).bytes = .ok ())
    (found : disk.entry? (location ++ [name]) = some (.file content now))
    (renamed : disk.rename (directory.child name) (directory.child target) = .ok changed) :
    Evolves (OwnPlace location) disk changed ∧ ∀ other, changed.entry? (location ++ [other]) =
      if other = target then some (.file content now)
      else if other = name then none else disk.entry? (location ++ [other]) := by
  obtain ⟨rfl, replaced⟩ := hosts.rename_child source_own target_own source_checked found renamed
  have file : IsFile (.file content now) := ⟨content, now, rfl⟩
  have owned := ownPlace_of_mem location target_own
  have dropped := evolves_drop hosts.tree file found (ownPlace_of_mem location source_own)
  have put : Evolves (OwnPlace location) (disk.drop (location ++ [name]))
      ((disk.drop (location ++ [name])).put (location ++ [target]) (.file content now)) := by
    refine evolves_put (hosts.of_evolves dropped).directory? (fun old there => ?_)
      (.inr ⟨owned, file⟩)
    rw [hosts.tree.entry?_drop file found] at there
    split at there
    next => cases there
    next => exact ⟨owned, replaced old there⟩
  refine ⟨dropped.trans put, fun other => ?_⟩
  rw [entry?_put (by simp), hosts.tree.entry?_drop file found]
  simp

/-- Replacing a file ends as it was before, with the draft written, or with the new file. -/
theorem Hosts.replaces (hosts : Hosts disk directory location) (content : Bytes) (now : Int)
    (own : name ∈ ownNames) (draft : name ++ ".tmp" ∈ ownNames) :
    Replaces location name content now disk
        (stateAfter (replaceFile directory name content now) disk) ∧
      ∀ changed, replaceFile directory name content now disk = .ok () changed →
        changed.entry? (location ++ [name]) = some (.file content now) := by
  have apart : name ≠ name ++ ".tmp" := by
    intro same
    have lengths := congrArg List.length same
    simp only [List.length_append, Nat.left_eq_add] at lengths
    exact absurd lengths (by decide)
  cases written : disk.write (directory.child (name ++ ".tmp")) content now with
  | error fault =>
      have failed : replaceFile directory name content now disk = .error (.disk fault) disk :=
        bind_of_error (change_of_error written)
      rw [stateAfter_of_error failed]
      exact ⟨.refl .., fun changed whole => nomatch failed.symm.trans whole⟩
  | ok middle =>
      obtain ⟨drafted, entries⟩ := hosts.evolves_write draft written
      have rest : replaceFile directory name content now disk = Disk.change
          (·.rename (directory.child (name ++ ".tmp")) (directory.child name)) middle :=
        bind_of_ok (change_eq_ok.mpr written)
      cases renamed : middle.rename (directory.child (name ++ ".tmp")) (directory.child name) with
      | error fault =>
          have failed := rest.trans (change_of_error renamed)
          rw [stateAfter_of_error failed]
          refine ⟨⟨drafted, fun other _ different => ?_, .inl ?_⟩,
            fun changed whole => nomatch failed.symm.trans whole⟩
          · rw [entries, if_neg different]
          · rw [entries, if_neg apart]
      | ok changed =>
          have done := rest.trans (change_eq_ok.mpr renamed)
          have stored := entries (name ++ ".tmp")
          rw [if_pos rfl] at stored
          obtain ⟨moved, others⟩ := (hosts.of_evolves drafted).evolves_rename draft own
            (checkSpelling_of_write written) stored renamed
          have new := others name
          rw [if_pos rfl] at new
          rw [stateAfter_of_ok done]
          refine ⟨⟨drafted.trans moved, fun other different distinct => ?_, .inr new⟩,
            fun last whole => ?_⟩
          · rw [others, if_neg different, if_neg distinct, entries, if_neg distinct]
          · rw [done] at whole
            cases whole
            exact new

/-- What writing a catalog comes to: nothing but its files changes, and its snapshot is the one that
was there or the new one. -/
structure Stores (location : Location) (content : Bytes) (now : Int) (disk next : Disk) : Prop where
  evolves : Evolves (OwnPlace location) disk next
  stored : next.entry? (location ++ [("meta" : Bytes)]) =
      disk.entry? (location ++ [("meta" : Bytes)]) ∨
    next.entry? (location ++ [("meta" : Bytes)]) = some (.file content now)

/-- A catalog is written to the directory that its path leads to. Where that does not fail, the new
snapshot is there. -/
theorem Hosts.stores {catalog : Catalog} (hosts : Hosts disk catalog.directory location)
    (now : Int) :
    Stores location catalog.snapshot.write now disk (stateAfter (catalog.flush now) disk) ∧
      ∀ changed, catalog.flush now disk = .ok () changed →
        changed.entry? (location ++ [("meta" : Bytes)]) = some (.file catalog.snapshot.write now) := by
  have begun : catalog.flush now disk = (do
      replaceFile catalog.directory "meta" catalog.snapshot.write now
      replaceFile catalog.directory "telemetry" catalog.usage.write now : Disk.Action Unit) disk :=
    bind_of_ok (makeDirectories_of_resolve hosts.resolves)
  have both : stateAfter (catalog.flush now) disk = stateAfter (do
      replaceFile catalog.directory "meta" catalog.snapshot.write now
      replaceFile catalog.directory "telemetry" catalog.usage.write now : Disk.Action Unit) disk := by
    unfold stateAfter
    rw [begun]
  have own : ("meta" : Bytes) ∈ ownNames := by decide
  obtain ⟨snapshot, written⟩ := hosts.replaces catalog.snapshot.write now own (by decide)
  rw [both, begun]
  cases first : replaceFile catalog.directory "meta" catalog.snapshot.write now disk with
  | error fault left =>
      rw [stateAfter_bind_of_error first]
      rw [stateAfter_of_error first] at snapshot
      refine ⟨⟨snapshot.evolves, snapshot.stored⟩, fun changed whole => ?_⟩
      rw [bind_of_error first] at whole
      cases whole
  | ok value middle =>
      rw [stateAfter_of_ok first] at snapshot
      have own : ("telemetry" : Bytes) ∈ ownNames := by decide
      obtain ⟨usage, -⟩ := (hosts.of_evolves snapshot.evolves).replaces catalog.usage.write now own
        (by decide)
      have kept := usage.others "meta" (by decide) (by decide)
      have new := kept.trans (written middle first)
      rw [stateAfter_bind_of_ok first]
      refine ⟨⟨snapshot.evolves.trans usage.evolves, .inr new⟩, fun changed whole => ?_⟩
      rw [bind_of_ok first] at whole
      rwa [stateAfter_of_ok whole] at new

end Outcomes

/-- A catalog is opened in a directory only. -/
theorem isDirectory_of_load {disk : Disk} {directory : Path} {catalog : Catalog}
    (loaded : load disk directory = .ok catalog) : disk.isDirectory directory = true := by
  by_contra other
  rw [Bool.not_eq_true] at other
  unfold load checkDirectory at loaded
  by_cases there : disk.holds directory = true
  · rw [if_pos ⟨there, other⟩] at loaded
    cases loaded
  · rw [if_neg fun both => there both.1, if_neg there] at loaded
    cases loaded

/-- Making a catalog adds directories at most, and leaves its directory where it succeeds. -/
theorem evolves_create {disk : Disk} {directory : Path} (tree : disk.IsTree)
    (filled : directory.bytes ≠ []) :
    Evolves (fun _ => False) disk (stateAfter (create directory) disk) ∧
      ∀ catalog left, create directory disk = .ok catalog left →
        catalog = empty directory .empty ∧ left.isDirectory directory = true := by
  have begun : (get : Disk.Action Disk) disk = .ok disk disk := rfl
  unfold create
  rw [stateAfter_bind_of_ok begun, bind_of_ok begun]
  cases checked : checkDirectory disk directory with
  | error fault =>
      have refused : check (.error fault : Except Fault Unit) disk = .error fault disk := rfl
      rw [stateAfter_bind_of_error refused, bind_of_error refused]
      exact ⟨.refl _ disk, fun _ _ whole => nomatch whole⟩
  | ok =>
      have passed : check (.ok () : Except Fault Unit) disk = .ok () disk := rfl
      have makes : Makes (fun _ => False) disk directory (makeDirectories directory disk) :=
        makes_makeDirectories tree (Path.parts_ne_nil filled)
      rw [stateAfter_bind_of_ok passed, bind_of_ok passed]
      cases made : makeDirectories directory disk with
      | error fault left =>
          rw [made] at makes
          rw [stateAfter_bind_of_error made, bind_of_error made]
          exact ⟨makes, fun _ _ whole => nomatch whole⟩
      | ok value left =>
          rw [made] at makes
          rw [stateAfter_bind_of_ok made, bind_of_ok made]
          refine ⟨makes.1, fun catalog last whole => ?_⟩
          cases whole
          exact ⟨rfl, makes.2⟩

/-- Opening a catalog, or making one, adds directories at most. An opened catalog is that of its
directory, which is there. -/
theorem evolves_loadOrCreate {disk : Disk} {directory : Path} (tree : disk.IsTree)
    (filled : directory.bytes ≠ []) :
    Evolves (fun _ => False) disk (stateAfter (loadOrCreate directory) disk) ∧
      ∀ catalog left, loadOrCreate directory disk = .ok catalog left →
        catalog.directory = directory ∧ left.isDirectory directory = true ∧
          catalog.snapshot.Consistent := by
  have begun : (get : Disk.Action Disk) disk = .ok disk disk := rfl
  unfold loadOrCreate
  rw [stateAfter_bind_of_ok begun, bind_of_ok begun]
  by_cases written : disk.holds (snapshotPath directory) = true
  · rw [if_pos written]
    refine ⟨?_, fun catalog left opened => ?_⟩
    · cases loaded : load disk directory <;> exact .refl _ disk
    · obtain ⟨loaded, rfl⟩ := check_eq_ok.mp opened
      obtain ⟨snapshot, read, rfl⟩ := install_of_load loaded
      obtain ⟨bytes, decoded⟩ := ofBytes_of_readSnapshot read
      exact ⟨rfl, isDirectory_of_load loaded, Snapshot.consistent_of_ofBytes decoded⟩
  · rw [if_neg written]
    obtain ⟨evolves, made⟩ := evolves_create tree filled
    refine ⟨evolves, fun catalog left opened => ?_⟩
    obtain ⟨rfl, there⟩ := made catalog left opened
    exact ⟨rfl, there, (faithful_empty directory .empty .none).consistent⟩

end Concordance.Catalog
