import Concordance.Proofs.Watch.Queue
import Concordance.Proofs.Watch.Upkeep

namespace Concordance

/-- What holds of a watched path while others change the catalog too. A document that a tracked file
still has is its own, no file is both tracked and left out, and there are no more than may be. -/
structure Watched.Intact (watched : Watched) (limit : Nat) (catalog : Catalog) : Prop where
  filed : ∀ entry ∈ watched.files.entries, ∀ document,
    catalog.document? entry.2 = some document → document.path = entry.1
  apart : ∀ file, watched.files.contains file = true → watched.capped.contains file = false
  within : limit ≠ 0 → watched.files.size ≤ limit
  spelt : ∀ entry ∈ watched.files.entries, Disk.IsFileSpelling entry.1

namespace Watched

variable {watched : Watched} {settings : Settings} {disk : Disk} {existing : OrderedSet Path}
  {catalog : Catalog} {taken limit : Nat} {others : List DocId}

theorem intact_empty (limit : Nat) (catalog : Catalog) : empty.Intact limit catalog where
  filed _ member := absurd member List.not_mem_nil
  apart _ contained := Bool.noConfusion contained
  within _ := Nat.zero_le limit
  spelt _ member := absurd member List.not_mem_nil

/-- Nothing is lost when documents go or files get another chance. -/
theorem Intact.mono (intact : watched.Intact limit catalog) {other : Watched} {later : Catalog}
    (files : other.files = watched.files)
    (capped : ∀ file, other.capped.contains file = true → watched.capped.contains file = true)
    (fewer : ∀ id ∈ watched.files.values, ∀ document, later.document? id = some document →
      catalog.document? id = some document) : other.Intact limit later where
  filed := by
    rw [files]
    exact fun entry member document found => intact.filed entry member document
      (fewer entry.2 (List.mem_map_of_mem member) document found)
  apart := by
    rw [files]
    intro file tracked
    rw [← Bool.not_eq_true]
    exact fun out => Bool.eq_false_iff.mp (intact.apart file tracked) (capped file out)
  within := files ▸ intact.within
  spelt := files ▸ intact.spelt

/-- A file that is admitted can be read, and its number leads to its own document. -/
theorem document?_of_mem_admitted
    (room : (watched.admitted settings disk existing catalog).1.length ≤ UInt64.size)
    {entry : Path × DocId}
    (member : entry ∈ (watched.admitted settings disk existing catalog).1) :
    ∃ item, entry.1 = item.path ∧
      Indexable.ofFile settings.extensions disk item.path = .ok (some item) ∧
      (watched.admitted settings disk existing catalog).2.document? entry.2 =
        some (item.document entry.2) := by
  unfold admitted at room
  rw [Catalog.length_registerAll] at room
  obtain ⟨item, held, path, document⟩ := Catalog.document?_registerAll_of_mem room member
  exact ⟨item, path, (Indexable.mem_ofFiles held).2, document⟩

section Issued

variable (issued : catalog.Issued taken (watched.files.values ++ others))

include issued

/-- Deleting leaves the documents of files that stay, and all others. -/
theorem document?_cleared {id : DocId}
    (stays : id ∈ (watched.kept disk existing catalog).values ++ others) :
    (watched.cleared disk existing catalog).document? id = catalog.document? id := by
  rw [Catalog.document?_removeAll, if_neg (not_mem_stale issued.distinct stays)]

/-- The numbers that stay have been issued, also after stale documents are cleared away. -/
theorem issued_cleared : (watched.cleared disk existing catalog).Issued taken
    ((watched.kept disk existing catalog).values ++ others) := by
  have fewer : (watched.kept disk existing catalog).values.Sublist watched.files.values :=
    List.filter_sublist.map Prod.snd
  exact (issued.sublist (fewer.append_right others)).of_nextId (Catalog.nextId_removeAll ..)

variable (room : taken + ((watched.syncFiles settings disk catalog existing).report.added +
  (watched.syncFiles settings disk catalog existing).report.updated) ≤ UInt64.size)

include room

/-- A sync leaves the documents of files that stay, and all others. -/
theorem document?_syncFiles {id : DocId}
    (stays : id ∈ (watched.kept disk existing catalog).values ++ others) :
    (watched.syncFiles settings disk catalog existing).catalog.document? id =
      catalog.document? id := by
  have distinct := issued.distinct.of_append_left
  rw [added_add_updated settings disk existing catalog distinct] at room
  unfold admitted at room
  rw [Catalog.length_registerAll] at room
  rw [syncFiles_eq_queue distinct]
  exact ((issued_cleared issued).document?_registerAll _ room stays).trans
    (document?_cleared issued stays)

/-- The numbers that are tracked after a sync are those that stay and new ones. -/
theorem issued_syncFiles : (watched.syncFiles settings disk catalog existing).catalog.Issued
    (taken + ((watched.syncFiles settings disk catalog existing).report.added +
      (watched.syncFiles settings disk catalog existing).report.updated))
    ((watched.syncFiles settings disk catalog existing).watched.files.values ++ others) := by
  have distinct := issued.distinct.of_append_left
  rw [added_add_updated settings disk existing catalog distinct] at room ⊢
  rw [syncFiles_eq_queue distinct]
  refine Catalog.Issued.perm ?_ ((perm_values_admitted distinct).append_right others).symm
  unfold admitted at room ⊢
  rw [Catalog.length_registerAll] at room ⊢
  rw [List.append_assoc]
  exact (issued_cleared issued).registerAll _ room

/-- A sync keeps a watched path intact. -/
theorem Intact.syncFiles (intact : watched.Intact settings.watch.maxFilesPerPath catalog) :
    (watched.syncFiles settings disk catalog existing).watched.Intact
      settings.watch.maxFilesPerPath
      (watched.syncFiles settings disk catalog existing).catalog := by
  have distinct := issued.distinct.of_append_left
  have stay : ∀ {id}, id ∈ (watched.kept disk existing catalog).values ++ others → _ = _ :=
    document?_syncFiles issued room
  rw [added_add_updated settings disk existing catalog distinct] at room
  rw [syncFiles_eq_queue distinct] at stay ⊢
  have cases : ∀ entry ∈ (track (watched.kept disk existing catalog)
      (watched.admitted settings disk existing catalog).1).entries,
      entry ∈ (watched.admitted settings disk existing catalog).1 ∨
        entry ∈ (watched.kept disk existing catalog).entries := fun entry member =>
    List.mem_append.mp ((perm_admitted distinct).mem_iff.mp member)
  refine ⟨?_, fun file => apart_track distinct intact.apart, ?_, ?_⟩
  · intro entry member document found
    rcases cases entry member with new | old
    · obtain ⟨item, path, -, stored⟩ := document?_of_mem_admitted (by omega) new
      rw [stored] at found
      exact Option.some.inj found ▸ path.symm
    · rw [stay (List.mem_append_left others (List.mem_map_of_mem old))] at found
      exact intact.filed entry (mem_kept_iff.mp old).1 document found
  · exact fun limited => size_track_le distinct limited (intact.within limited)
  · intro entry member
    rcases cases entry member with new | old
    · obtain ⟨item, path, read, -⟩ := document?_of_mem_admitted (by omega) new
      obtain ⟨-, content, modified, looked, -⟩ := Indexable.of_ofFile read
      exact path ▸ ⟨disk, _, Entry.noConfusion, looked⟩
    · exact intact.spelt entry (mem_kept_iff.mp old).1

end Issued

end Watched

/-- A path that is watched is synced with the files that it tracks. -/
theorem Watch.files_watched {watch : Watch} {root : Path} {watched : Watched}
    (found : watch.roots.get? root = some watched) :
    (watch.watched root).files = watched.files := by
  unfold Watch.watched
  rw [found]
  rfl

/-- What has been left out gets another chance, and what is tracked stays tracked. -/
theorem Watch.files_getD (watch : Watch) (root : Path) :
    ((watch.roots.get? root).getD .empty).files = (watch.watched root).files := rfl

/-- Watched paths, their catalog and the disk, with how many numbers have been taken so far. -/
structure Tracking where
  watch : Watch
  catalog : Catalog
  disk : Disk
  taken : Nat

namespace Tracking

/-- What syncs have left. They took a number for each file that they indexed. -/
def advance (now : Tracking) (result : SyncReport × Watch × Catalog) : Tracking :=
  { now with
    watch := result.2.1
    catalog := result.2.2
    taken := now.taken + (result.1.added + result.1.updated) }

/-- The state after a path has been added. -/
def add (now : Tracking) (settings : Settings) (root : Path) : Tracking :=
  let result := now.watch.add settings now.disk now.catalog root
  now.advance (result.1.toOption.getD .zero, result.2)

/-- The state after a path has been given up. -/
def remove (now : Tracking) (root : Path) : Tracking :=
  { now with watch := now.watch.remove root }

/-- The state after one path has been synced, of which this has been tracked. -/
def sync (now : Tracking) (settings : Settings) (root : Path) (tracked : Watched) : Tracking :=
  let synced := tracked.syncFiles settings now.disk now.catalog (eligible settings now.disk root)
  now.advance (synced.report,
    { now.watch with roots := now.watch.roots.insert root synced.watched }, synced.catalog)

/-- The state after one path has been synced in a tick. -/
def turn (now : Tracking) (settings : Settings) (root : Path) : Tracking :=
  now.sync settings root ((now.watch.roots.get? root).getD .empty)

/-- The state after paths have been synced one after another. -/
def syncAll (now : Tracking) (settings : Settings) (roots : List Path) : Tracking :=
  now.advance (now.watch.syncRoots settings now.disk now.catalog roots)

/-- The state after a tick. -/
def tick (now : Tracking) (settings : Settings) : Tracking :=
  now.advance (now.watch.tick settings now.disk now.catalog)

/-- The state after a rebuild. -/
def rebuild (now : Tracking) (settings : Settings) : Tracking :=
  now.advance (now.watch.rebuild settings now.disk now.catalog)

/-- One thing that happens: a path is added or given up, all paths are synced or rebuilt, or a tick
is left out, or the disk changes in any way. A tick syncs one path after the other, so a single sync
stands for what others see of a tick that is not over yet. -/
inductive Step (settings : Settings) : Tracking → Tracking → Prop where
  | add (now : Tracking) (root : Path) : Step settings now (now.add settings root)
  | remove (now : Tracking) (root : Path) : Step settings now (now.remove root)
  | sync {now : Tracking} {root : Path} {watched : Watched}
      (found : now.watch.roots.get? root = some watched) :
      Step settings now (now.sync settings root watched)
  | tick (now : Tracking) : Step settings now (now.tick settings)
  | skip (now : Tracking) : Step settings now { now with watch := now.watch.skip }
  | rebuild (now : Tracking) : Step settings now (now.rebuild settings)
  | files (now : Tracking) (disk : Disk) : Step settings now { now with disk := disk }

/-- One thing that happens where others delete documents too, one of them or all. -/
inductive SharedStep (settings : Settings) : Tracking → Tracking → Prop where
  | own {now next : Tracking} (step : Step settings now next) : SharedStep settings now next
  | delete (now : Tracking) (id : DocId) :
      SharedStep settings now { now with catalog := now.catalog.removeDocument id }
  | clear (now : Tracking) : SharedStep settings now { now with catalog := now.catalog.clear }

/-- All numbers that are tracked are different ones, and every watched path is intact. -/
structure Intact (now : Tracking) (settings : Settings) : Prop where
  issued : now.catalog.Issued now.taken now.watch.ids
  watched : ∀ {root watched}, now.watch.roots.get? root = some watched →
    watched.Intact settings.watch.maxFilesPerPath now.catalog

variable {settings : Settings} {now next : Tracking} {root : Path}

/-- Nothing is tracked where nothing is watched. -/
theorem intact_of_empty (begun : now.watch.roots = .empty) : now.Intact settings where
  issued := by
    unfold Watch.ids
    rw [begun]
    exact now.catalog.issued_nil now.taken
  watched found := by
    rw [begun] at found
    cases found

/-- The first of some paths is synced, and then the others. -/
theorem syncAll_cons (now : Tracking) (settings : Settings) (root : Path) (rest : List Path) :
    now.syncAll settings (root :: rest) = (now.turn settings root).syncAll settings rest := by
  unfold syncAll
  rw [Watch.syncRoots, Watched.sync_eq]
  unfold turn sync advance
  simp only [SyncReport.add]
  congr 1
  omega

/-- A sync in a tick changes what is tracked for its path and for no other. -/
theorem get?_turn (now : Tracking) (settings : Settings) (root other : Path) :
    (now.turn settings root).watch.roots.get? other =
      if compare other root = .eq then
        some (((now.watch.roots.get? root).getD .empty).syncFiles settings now.disk now.catalog
          (eligible settings now.disk root)).watched
      else now.watch.roots.get? other := OrderedMap.get?_insert ..

/-- Syncs of other paths leave what is tracked for a path. -/
theorem get?_syncAll_of_apart {roots : List Path}
    (apart : ∀ other ∈ roots, compare root other ≠ .eq) :
    (now.syncAll settings roots).watch.roots.get? root = now.watch.roots.get? root := by
  induction roots generalizing now with
  | nil => rfl
  | cons other rest ih =>
      rw [List.forall_mem_cons] at apart
      rw [syncAll_cons, ih apart.2, get?_turn, if_neg apart.1]

/-- Adding a path syncs it, and what has been left out gets another chance. -/
theorem add_eq_sync (now : Tracking) (settings : Settings) (root : Path) :
    now.add settings root = now.sync settings root (now.watch.watched root) := by
  unfold add
  rw [Watch.add_eq]
  rfl

/-- What is tracked for a path and what is tracked for the others. -/
theorem Intact.issued_append (intact : now.Intact settings) {tracked : Watched}
    (files : tracked.files = (now.watch.watched root).files) :
    now.catalog.Issued now.taken (tracked.files.values ++ (now.watch.remove root).ids) := by
  rw [files]
  exact intact.issued.perm (now.watch.perm_ids root)

/-- No number is tracked twice below one path. -/
theorem Intact.nodup_values (intact : now.Intact settings) {watched : Watched}
    (found : now.watch.roots.get? root = some watched) : watched.files.values.Nodup := by
  rw [← Watch.files_watched found]
  exact (intact.issued_append rfl).distinct.of_append_left

/-- A path is intact as it is watched, also when what has been left out gets another chance. -/
theorem Intact.of_getD (intact : now.Intact settings) (root : Path) :
    ((now.watch.roots.get? root).getD .empty).Intact settings.watch.maxFilesPerPath
      now.catalog := by
  cases found : now.watch.roots.get? root with
  | none => exact Watched.intact_empty ..
  | some watched => exact intact.watched found

/-- Every watched path is intact, and so is one that is not watched yet. -/
theorem Intact.of_watched (intact : now.Intact settings) (root : Path) :
    (now.watch.watched root).Intact settings.watch.maxFilesPerPath now.catalog :=
  (intact.of_getD root).mono rfl (fun _ none => Bool.noConfusion none) fun _ _ _ found => found

/-- A sync leaves the documents of other paths. -/
theorem Intact.document?_sync (intact : now.Intact settings) {tracked : Watched}
    (files : tracked.files = (now.watch.watched root).files)
    (room : (now.sync settings root tracked).taken ≤ UInt64.size) {id : DocId}
    (member : id ∈ (now.watch.remove root).ids) :
    (now.sync settings root tracked).catalog.document? id = now.catalog.document? id :=
  Watched.document?_syncFiles (intact.issued_append files) room (List.mem_append_right _ member)

/-- A sync keeps all watched paths intact. -/
theorem Intact.sync (intact : now.Intact settings) {tracked : Watched}
    (files : tracked.files = (now.watch.watched root).files)
    (own : tracked.Intact settings.watch.maxFilesPerPath now.catalog)
    (room : (now.sync settings root tracked).taken ≤ UInt64.size) :
    (now.sync settings root tracked).Intact settings where
  issued := (Watched.issued_syncFiles (intact.issued_append files) room).perm
    (now.watch.perm_ids_insert root _).symm
  watched := by
    intro other watched found
    change (now.watch.roots.insert root _).get? other = some watched at found
    rw [OrderedMap.get?_insert] at found
    split at found
    next =>
      cases found
      exact own.syncFiles (intact.issued_append files) room
    next apart =>
      refine (intact.watched found).mono rfl (fun _ out => out) fun id member document stored => ?_
      exact (intact.document?_sync files room (Watch.mem_ids_remove apart found member)) ▸ stored

/-- A sync of a path keeps everything intact. -/
theorem Intact.turn (intact : now.Intact settings)
    (room : (now.turn settings root).taken ≤ UInt64.size) :
    (now.turn settings root).Intact settings :=
  intact.sync (now.watch.files_getD root) (intact.of_getD root) room

/-- A sync of a path leaves the documents of other paths alone. -/
theorem Intact.document?_turn (intact : now.Intact settings)
    (room : (now.turn settings root).taken ≤ UInt64.size) {id : DocId}
    (member : id ∈ (now.watch.remove root).ids) :
    (now.turn settings root).catalog.document? id = now.catalog.document? id :=
  intact.document?_sync (now.watch.files_getD root) room member

theorem taken_le_syncAll (now : Tracking) (settings : Settings) (roots : List Path) :
    now.taken ≤ (now.syncAll settings roots).taken := Nat.le_add_right ..

/-- Syncs of paths one after another keep all of them intact. -/
theorem Intact.syncAll (intact : now.Intact settings) (roots : List Path)
    (room : (now.syncAll settings roots).taken ≤ UInt64.size) :
    (now.syncAll settings roots).Intact settings := by
  induction roots generalizing now with
  | nil => exact intact
  | cons root rest ih =>
      rw [syncAll_cons] at room ⊢
      exact ih (intact.turn (Nat.le_trans (taken_le_syncAll ..) room)) room

/-- A sync takes no more numbers than there are files. -/
theorem Intact.taken_turn_le (intact : now.Intact settings) (root : Path) :
    (now.turn settings root).taken ≤ now.taken + (eligible settings now.disk root).size := by
  have own := (intact.issued_append (now.watch.files_getD root)).distinct.of_append_left
  exact Nat.add_le_add_left (Watched.report_syncFiles_le settings now.disk _ now.catalog own) _

theorem Intact.taken_syncAll_le (intact : now.Intact settings) {roots : List Path}
    (fits : now.taken + (roots.map fun root => (eligible settings now.disk root).size).sum ≤
      UInt64.size) :
    (now.syncAll settings roots).taken ≤
      now.taken + (roots.map fun root => (eligible settings now.disk root).size).sum := by
  induction roots generalizing now with
  | nil => exact Nat.le_refl _
  | cons root rest ih =>
      have few := intact.taken_turn_le root
      rw [List.map_cons, List.sum_cons] at fits ⊢
      have fewer : (now.turn settings root).taken +
          (rest.map fun root => (eligible settings now.disk root).size).sum ≤ UInt64.size := by
        omega
      have more : ((now.turn settings root).syncAll settings rest).taken ≤
          (now.turn settings root).taken +
            (rest.map fun root => (eligible settings now.disk root).size).sum :=
        ih (intact.turn (by omega)) fewer
      rw [syncAll_cons]
      omega

/-- Deleting documents keeps all watched paths intact. -/
theorem Intact.of_catalog (intact : now.Intact settings) {catalog : Catalog}
    (nextId : catalog.nextId = now.catalog.nextId)
    (fewer : ∀ id document, catalog.document? id = some document →
      now.catalog.document? id = some document) :
    { now with catalog := catalog }.Intact settings where
  issued := intact.issued.of_nextId nextId
  watched found := (intact.watched found).mono rfl (fun _ out => out) fun id _ => fewer id

/-- A rebuild starts from nothing. -/
theorem intact_forgotten (now : Tracking) (settings : Settings) :
    Intact { now with watch := now.watch.forgotten, catalog := now.catalog.clear } settings where
  issued := by
    rw [Watch.ids_forgotten]
    exact now.catalog.clear.issued_nil now.taken
  watched found := by
    rw [Watch.get?_forgotten found]
    exact Watched.intact_empty ..

theorem taken_le_of_step (step : SharedStep settings now next) : now.taken ≤ next.taken := by
  cases step with
  | own step => cases step <;> first | exact Nat.le_refl _ | exact Nat.le_add_right ..
  | delete => exact Nat.le_refl _
  | clear => exact Nat.le_refl _

/-- Whatever happens, all watched paths stay intact. -/
theorem intact_of_step (step : SharedStep settings now next) (intact : now.Intact settings)
    (room : next.taken ≤ UInt64.size) : next.Intact settings := by
  cases step with
  | own step =>
      cases step with
      | add root =>
          rw [add_eq_sync] at room ⊢
          exact intact.sync rfl (intact.of_watched root) room
      | remove root =>
          have others := (intact.issued.perm (now.watch.perm_ids root)).sublist
            (List.sublist_append_right ..)
          refine ⟨others, fun found => ?_⟩
          change (now.watch.roots.erase root).get? _ = some _ at found
          rw [OrderedMap.get?_erase] at found
          split at found
          next => cases found
          next => exact intact.watched found
      | sync found => exact intact.sync (Watch.files_watched found).symm (intact.watched found) room
      | tick => exact intact.syncAll _ room
      | skip => exact ⟨intact.issued, intact.watched⟩
      | rebuild => exact (intact_forgotten now settings).syncAll _ room
      | files disk => exact ⟨intact.issued, intact.watched⟩
  | delete id =>
      exact intact.of_catalog (Catalog.nextId_removeDocument ..) fun _ _ found =>
        Catalog.document?_of_removeDocument found
  | clear => exact intact.of_catalog rfl fun _ _ found => by cases found

/-- Over a run everything stays intact as long as the numbers given can be told apart. -/
theorem intact_of_run {first last : Tracking} (begun : first.watch.roots = .empty)
    (run : Relation.ReflTransGen (SharedStep settings) first last)
    (room : last.taken ≤ UInt64.size) : last.Intact settings := by
  induction run with
  | refl => exact intact_of_empty begun
  | tail _ step ih =>
      exact intact_of_step step (ih (Nat.le_trans (taken_le_of_step step) room)) room

/-- Whatever happens, all numbers that are tracked are different ones. A document that a tracked
file still has is its own, no file is both tracked and left out, and no watched path tracks more
files than may be. The counter of numbers must not have come round. -/
theorem tracked_of_run {first last : Tracking} (begun : first.watch.roots = .empty)
    (run : Relation.ReflTransGen (SharedStep settings) first last)
    (room : last.taken ≤ UInt64.size) :
    last.watch.ids.Nodup ∧
      ∀ root watched, last.watch.roots.get? root = some watched →
        (∀ file id document, (file, id) ∈ watched.files.entries →
          last.catalog.document? id = some document → document.path = file) ∧
        (∀ file, watched.files.contains file = true → watched.capped.contains file = false) ∧
        (settings.watch.maxFilesPerPath ≠ 0 →
          watched.files.size ≤ settings.watch.maxFilesPerPath) := by
  have intact := intact_of_run begun run room
  refine ⟨intact.issued.distinct, fun root watched found => ?_⟩
  have own := intact.watched found
  exact ⟨fun file id document member => own.filed (file, id) member document, own.apart, own.within⟩

/-- An empty catalog beside a disk with one file that is not watched yet. -/
def bare : Tracking := ⟨.empty, .empty ⟨"/"⟩ .empty, noteDisk, 0⟩

/-- The one file has been indexed, and its path is watched. -/
def noted : Tracking := bare.add Settings.standard notePath

theorem noted_eq : noted.watch =
      ⟨.ofList [(notePath, ⟨.ofList [(notePath, 1)], .empty⟩)], 0⟩ ∧
    noted.catalog = (bare.catalog.register note).2 ∧ noted.taken = 1 := by
  obtain ⟨report, result, counted⟩ := Upkeep.add_notePath bare.catalog rfl Upkeep.found_note
  have added : bare.watch.add Settings.standard bare.disk bare.catalog notePath = _ := result
  unfold noted add
  rw [added]
  exact ⟨rfl, rfl, (Nat.zero_add _).trans counted⟩

theorem run_noted : Relation.ReflTransGen (SharedStep Settings.standard) bare noted :=
  .single (.own (.add bare notePath))

/-- A file that has been indexed is tracked with its own document. -/
theorem tracked_of_run_indexed : bare.watch.roots = .empty ∧
    Relation.ReflTransGen (SharedStep Settings.standard) bare noted ∧
    noted.taken ≤ UInt64.size ∧ noted.watch.ids.Nodup ∧
    ∃ watched document, noted.watch.roots.get? notePath = some watched ∧
      (notePath, 1) ∈ watched.files.entries ∧ noted.catalog.document? 1 = some document ∧
      document.path = notePath ∧ watched.files.size ≤ 5000 := by
  obtain ⟨watch, catalog, taken⟩ := noted_eq
  have room : noted.taken ≤ UInt64.size := by
    rw [taken]
    decide
  obtain ⟨distinct, own⟩ := tracked_of_run rfl run_noted room
  have found : noted.watch.roots.get? notePath = some ⟨.ofList [(notePath, 1)], .empty⟩ := by
    rw [watch]
    exact OrderedMap.get?_insert_self ..
  have stored : noted.catalog.document? 1 = some (note.document 1) := by
    rw [catalog, Catalog.document?_register]
    rfl
  obtain ⟨filed, -, within⟩ := own notePath _ found
  have member : (notePath, (1 : DocId)) ∈ (OrderedMap.ofList [(notePath, 1)]).entries :=
    List.mem_singleton_self _
  exact ⟨rfl, run_noted, room, distinct, _, _, found, member, stored,
    filed notePath 1 _ member stored, within (by decide)⟩

end Tracking
end Concordance
