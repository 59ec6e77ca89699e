import Concordance.Proofs.Watch.Retention

namespace Concordance

namespace Watched

variable {watched : Watched} {settings : Settings} {disk : Disk} {existing : OrderedSet Path}
  {catalog : Catalog}

/-- The numbers of files that still exist and that are no longer tracked afterwards. -/
def lost (watched after : Watched) (existing : OrderedSet Path) : List DocId :=
  (watched.files.entries.filter fun entry =>
    existing.contains entry.1 && !after.files.contains entry.1).map Prod.snd

/-- Every tracked file is kept, gone or changed. -/
theorem size_kept_add_gone_add_changed (watched : Watched) (disk : Disk)
    (existing : OrderedSet Path) (catalog : Catalog) : (watched.kept disk existing catalog).size +
    (withFate disk existing catalog (· == .gone) watched.files.entries).length +
      (watched.changed disk existing catalog).length = watched.files.size := by
  have whole := length_withFate disk existing catalog watched.files.entries
  unfold changed
  rw [List.length_map]
  exact whole

/-- A sync loses files that have changed and that it has not indexed again. -/
theorem lost_syncFiles (distinct : watched.files.values.Nodup) :
    watched.lost (watched.syncFiles settings disk catalog existing).watched existing =
      ((withFate disk existing catalog (· == .changed) watched.files.entries).filter fun entry =>
        !(track (watched.kept disk existing catalog)
          (watched.admitted settings disk existing catalog).1).contains entry.1).map Prod.snd := by
  unfold lost withFate
  rw [List.filter_filter, syncFiles_eq_queue distinct]
  congr 1
  apply List.filter_congr
  intro entry member
  simp only
  cases fate : fateOf disk existing catalog entry.1 entry.2 with
  | same =>
      have stays := contains_kept_of_same member fate
      rw [contains_track.mpr (.inr stays), Bool.not_true, Bool.and_false, Bool.false_and]
  | gone =>
      rw [(fateOf_eq_gone disk existing).mp fate, Bool.false_and]
      exact (Bool.and_false _).symm
  | changed =>
      have there : existing.contains entry.1 = true := by
        rw [← Bool.not_eq_false]
        intro missing
        rw [(fateOf_eq_gone disk existing).mpr missing] at fate
        cases fate
      rw [there, Bool.true_and]
      exact (Bool.and_true _).symm

/-- The files that are indexed again are those that have changed and are tracked afterwards. -/
theorem updates_eq (distinct : watched.files.values.Nodup) :
    watched.updates settings disk existing catalog =
      (watched.changed disk existing catalog).countP (track (watched.kept disk existing catalog)
        (watched.admitted settings disk existing catalog).1).contains := by
  have names : watched.updates settings disk existing catalog =
      (((watched.admitted settings disk existing catalog).1.map Prod.fst).filter
        (watched.changed disk existing catalog).contains).length := by
    rw [← List.countP_eq_length_filter, List.countP_map]
    rfl
  have paths : ((watched.admitted settings disk existing catalog).1.map Prod.fst).Nodup := by
    refine List.Nodup.of_map Path.parts ?_
    rw [List.map_map]
    exact nodup_admitted settings disk existing catalog distinct
  have keys : (watched.changed disk existing catalog).Nodup :=
    watched.files.nodup_keys.sublist (List.filter_sublist.map _)
  rw [names, List.countP_eq_length_filter]
  -- Both lists have the same files, and none of them twice.
  apply List.Perm.length_eq
  rw [List.perm_ext_iff_of_nodup (paths.filter _) (keys.filter _)]
  intro file
  rw [List.mem_filter, List.mem_filter, List.contains_iff_mem, and_comm]
  refine and_congr_right fun changed => ?_
  have waits : file ∈ watched.queue disk existing catalog := mem_queue_iff.mpr (.inr changed)
  rw [contains_track, not_contains_kept distinct waits]
  constructor
  · intro indexed
    obtain ⟨entry, member, rfl⟩ := List.mem_map.mp indexed
    exact .inl ⟨entry, member, Std.ReflCmp.compare_self⟩
  · rintro (⟨entry, member, same⟩ | stays)
    · have chosen := mem_queue_of_mem_chosen (mem_chosen_of_mem_admitted member)
      exact eq_of_mem_queue distinct waits chosen same ▸ List.mem_map_of_mem member
    · cases stays

/-- Files that have changed are indexed again or lost. -/
theorem updates_add_lost (settings : Settings) (disk : Disk) (existing : OrderedSet Path)
    (catalog : Catalog) (distinct : watched.files.values.Nodup) :
    watched.updates settings disk existing catalog +
      (watched.lost (watched.syncFiles settings disk catalog existing).watched existing).length =
        (watched.changed disk existing catalog).length := by
  rw [updates_eq distinct, lost_syncFiles distinct, List.length_map]
  unfold changed
  rw [List.countP_map, List.length_map, List.countP_eq_length_filter, ← List.length_append]
  exact (List.filter_append_perm _ _).length_eq

section Live

variable {taken : Nat} {others : List DocId}
  (live : catalog.documents.keys.Perm (watched.files.values ++ others))
  (issued : catalog.Issued taken catalog.documents.keys)
  (room : taken + ((watched.syncFiles settings disk catalog existing).report.added +
    (watched.syncFiles settings disk catalog existing).report.updated) ≤ UInt64.size)

include live issued room

/-- After a sync the live documents are those that are tracked, beside the others. -/
theorem perm_keys_syncFiles :
    (watched.syncFiles settings disk catalog existing).catalog.documents.keys.Perm
      ((watched.syncFiles settings disk catalog existing).watched.files.values ++ others) := by
  have distinct := (issued.perm live).distinct.of_append_left
  have left : (watched.cleared disk existing catalog).documents.keys.Perm _ :=
    perm_keys_cleared live
  have before : (watched.cleared disk existing catalog).Issued taken
      (watched.cleared disk existing catalog).documents.keys :=
    (issued_cleared (issued.perm live)).perm left.symm
  rw [added_add_updated settings disk existing catalog distinct] at room
  rw [syncFiles_eq_queue distinct]
  refine List.Perm.trans ?_ ((perm_values_admitted distinct).append_right others).symm
  rw [List.append_assoc]
  unfold admitted at room ⊢
  rw [Catalog.length_registerAll] at room
  exact (before.perm_keys_registerAll _ room).trans (left.append_left _)

/-- The report of a sync and what it has lost account for all documents. -/
theorem size_syncFiles :
    (watched.syncFiles settings disk catalog existing).catalog.documents.size +
        (watched.syncFiles settings disk catalog existing).report.removed +
        (watched.lost (watched.syncFiles settings disk catalog existing).watched
          existing).length =
      catalog.documents.size + (watched.syncFiles settings disk catalog existing).report.added := by
  have distinct := (issued.perm live).distinct.of_append_left
  have before := live.length_eq
  have after := (perm_keys_syncFiles live issued room).length_eq
  have counted := added_add_updated settings disk existing catalog distinct
  have again := updates_add_lost settings disk existing catalog distinct
  have fates := size_kept_add_gone_add_changed watched disk existing catalog
  have size : (track (watched.kept disk existing catalog)
    (watched.admitted settings disk existing catalog).1).size = _ := size_track distinct
  rw [List.length_append] at before after
  unfold OrderedMap.keys OrderedMap.values at before after
  simp only [List.length_map] at before after
  rw [syncFiles_eq_queue distinct] at counted again after ⊢
  simp only at counted again after ⊢
  unfold OrderedMap.size at fates size ⊢
  omega

end Live

/-- A sync with an empty report has done nothing but lose documents. -/
theorem catalog_syncFiles_of_isEmpty (distinct : watched.files.values.Nodup)
    (empty : (watched.syncFiles settings disk catalog existing).report = .zero) :
    (watched.syncFiles settings disk catalog existing).catalog = catalog.removeAll
      (watched.lost (watched.syncFiles settings disk catalog existing).watched existing) := by
  have counted := added_add_updated settings disk existing catalog distinct
  rw [empty] at counted
  have none : (watched.admitted settings disk existing catalog).1 = [] :=
    List.length_eq_zero_iff.mp counted.symm
  have items : Indexable.ofFiles settings.extensions disk
      (watched.chosen settings disk existing catalog) = [] := by
    unfold admitted at none
    have lengths := congrArg List.length none
    rw [Catalog.length_registerAll] at lengths
    exact List.length_eq_zero_iff.mp lengths
  have gone : withFate disk existing catalog (· == .gone) watched.files.entries = [] := by
    rw [syncFiles_eq_queue distinct] at empty
    exact List.length_eq_zero_iff.mp (congrArg SyncReport.removed empty)
  rw [lost_syncFiles distinct, none, syncFiles_eq_queue distinct]
  show (watched.admitted settings disk existing catalog).2 = _
  unfold admitted
  rw [items]
  show catalog.removeAll _ = _
  congr 1
  unfold stale withFate
  rw [List.filter_filter]
  congr 1
  apply List.filter_congr
  intro entry member
  cases fate : fateOf disk existing catalog entry.1 entry.2 with
  | same => exact (Bool.and_false _).symm
  | gone =>
      have missing := List.filter_eq_nil_iff.mp gone entry member
      rw [fate] at missing
      exact absurd rfl missing
  | changed =>
      have waits : entry.1 ∈ watched.queue disk existing catalog :=
        mem_queue_iff.mpr (.inr ((mem_changed_iff member).mpr fate))
      show true = (!(watched.kept disk existing catalog).contains entry.1 && true)
      rw [not_contains_kept distinct waits]
      rfl

end Watched

/-- The numbers of files below some paths that still exist and that are no longer tracked
afterwards. -/
def Watch.lost (before after : Watch) (settings : Settings) (disk : Disk) (roots : List Path) :
    List DocId :=
  roots.flatMap fun root => ((before.roots.get? root).getD .empty).lost
    ((after.roots.get? root).getD .empty) (eligible settings disk root)

namespace Tracking

variable {settings : Settings} {now next : Tracking} {root : Path}

/-- What was done between two states has this report and has lost these numbers. All documents are
accounted for, and where the report is empty the catalog has changed by what is lost. -/
structure Accounts (now next : Tracking) (report : SyncReport) (lost : List DocId) : Prop where
  size : next.catalog.documents.size + report.removed + lost.length =
    now.catalog.documents.size + report.added
  quiet : report = .zero → next.catalog = now.catalog.removeAll lost

/-- Two syncs one after another are accounted for by the sum of their reports. -/
theorem Accounts.trans {later : Tracking} {first second : SyncReport} {gone lost : List DocId}
    (before : now.Accounts next first gone) (after : next.Accounts later second lost) :
    now.Accounts later (first.add second) (gone ++ lost) where
  size := by
    have one := before.size
    have two := after.size
    rw [List.length_append]
    simp only [SyncReport.add]
    omega
  quiet empty := by
    have both : first = .zero ∧ second = .zero := by
      cases first
      cases second
      simp only [SyncReport.add, SyncReport.zero, SyncReport.mk.injEq] at empty ⊢
      omega
    rw [after.quiet both.2, before.quiet both.1]
    exact (List.foldl_append ..).symm

/-- All live documents have numbers that were taken, and all tracked files have live documents. -/
structure Ledger (now : Tracking) : Prop where
  issued : now.catalog.Issued now.taken now.catalog.documents.keys
  live : ∃ strays, now.catalog.documents.keys.Perm (now.watch.ids ++ strays)

/-- A sync keeps the ledger, and it accounts for all documents. -/
theorem Ledger.sync (ledger : now.Ledger) {tracked : Watched}
    (files : tracked.files = (now.watch.watched root).files)
    (room : (now.sync settings root tracked).taken ≤ UInt64.size) :
    (now.sync settings root tracked).Ledger ∧
      let synced := tracked.syncFiles settings now.disk now.catalog
        (eligible settings now.disk root)
      now.Accounts (now.sync settings root tracked) synced.report
        (tracked.lost synced.watched (eligible settings now.disk root)) := by
  obtain ⟨strays, live⟩ := ledger.live
  have own : now.catalog.documents.keys.Perm
      (tracked.files.values ++ ((now.watch.remove root).ids ++ strays)) := by
    rw [files, ← List.append_assoc]
    exact live.trans ((now.watch.perm_ids root).append_right strays)
  have issued := ledger.issued.perm own
  have after := Watched.perm_keys_syncFiles own ledger.issued room
  refine ⟨⟨(Watched.issued_syncFiles issued room).perm after.symm, strays, ?_⟩,
    Watched.size_syncFiles own ledger.issued room,
    Watched.catalog_syncFiles_of_isEmpty issued.distinct.of_append_left⟩
  rw [← List.append_assoc] at after
  exact after.trans ((now.watch.perm_ids_insert root _).symm.append_right strays)

/-- A sync keeps the ledger in balance. -/
theorem Ledger.turn (ledger : now.Ledger) (room : (now.turn settings root).taken ≤ UInt64.size) :
    (now.turn settings root).Ledger ∧
      let tracked := (now.watch.roots.get? root).getD .empty
      let synced := tracked.syncFiles settings now.disk now.catalog
        (eligible settings now.disk root)
      now.Accounts (now.turn settings root) synced.report
        (tracked.lost synced.watched (eligible settings now.disk root)) :=
  ledger.sync (now.watch.files_getD root) room

/-- What a tick loses is what its first sync loses and what the others do. -/
theorem lost_syncAll_cons {rest : List Path}
    (apart : ∀ other ∈ rest, compare root other ≠ .eq) :
    now.watch.lost (now.syncAll settings (root :: rest)).watch settings now.disk (root :: rest) =
      ((now.watch.roots.get? root).getD .empty).lost
          (((now.watch.roots.get? root).getD .empty).syncFiles settings now.disk now.catalog
            (eligible settings now.disk root)).watched (eligible settings now.disk root) ++
        (now.turn settings root).watch.lost ((now.turn settings root).syncAll settings rest).watch
          settings now.disk rest := by
  unfold Watch.lost
  rw [syncAll_cons, List.flatMap_cons, get?_syncAll_of_apart apart, get?_turn,
    if_pos Std.ReflCmp.compare_self, Option.getD_some]
  refine congrArg (_ ++ ·) (List.flatMap_congr fun other member => ?_)
  have different : compare other root ≠ .eq := fun same =>
    apart other member (Std.OrientedCmp.eq_symm same)
  rw [get?_turn, if_neg different]

/-- Syncs of different paths one after another keep the ledger, and their reports together account
for all documents. -/
theorem Ledger.syncAll (ledger : now.Ledger) {roots : List Path}
    (distinct : roots.Pairwise fun first second => compare first second ≠ .eq)
    (room : (now.syncAll settings roots).taken ≤ UInt64.size) :
    (now.syncAll settings roots).Ledger ∧ now.Accounts (now.syncAll settings roots)
      (now.watch.syncRoots settings now.disk now.catalog roots).1
      (now.watch.lost (now.syncAll settings roots).watch settings now.disk roots) := by
  induction roots generalizing now with
  | nil => exact ⟨ledger, rfl, fun _ => rfl⟩
  | cons root rest ih =>
      obtain ⟨apart, distinct⟩ := List.pairwise_cons.mp distinct
      have report : (now.watch.syncRoots settings now.disk now.catalog (root :: rest)).1 =
          (((now.watch.roots.get? root).getD .empty).syncFiles settings now.disk now.catalog
            (eligible settings now.disk root)).report.add
          ((now.turn settings root).watch.syncRoots settings now.disk
            (now.turn settings root).catalog rest).1 := by
        rw [Watch.syncRoots, Watched.sync_eq]
        rfl
      rw [report, lost_syncAll_cons apart]
      rw [syncAll_cons] at room ⊢
      obtain ⟨next, first⟩ := ledger.turn
        (Nat.le_trans (taken_le_syncAll (now.turn settings root) settings rest) room)
      obtain ⟨last, others⟩ := ih next distinct room
      exact ⟨last, first.trans others⟩

/-- A rebuild starts from an empty ledger. -/
theorem ledger_forgotten (now : Tracking) :
    Ledger { now with watch := now.watch.forgotten, catalog := now.catalog.clear } where
  issued := now.catalog.clear.issued_nil now.taken
  live := by
    refine ⟨[], ?_⟩
    rw [Watch.ids_forgotten]
    exact .refl _

/-- Whatever happens while only syncs delete documents, the ledger is kept. -/
theorem ledger_of_step (step : Step settings now next) (ledger : now.Ledger)
    (room : next.taken ≤ UInt64.size) : next.Ledger := by
  cases step with
  | add root =>
      rw [add_eq_sync] at room ⊢
      exact (ledger.sync rfl room).1
  | remove root =>
      obtain ⟨strays, live⟩ := ledger.live
      refine ⟨ledger.issued, (now.watch.watched root).files.values ++ strays, live.trans ?_⟩
      rw [← List.append_assoc]
      exact ((now.watch.perm_ids root).trans List.perm_append_comm).append_right strays
  | sync found => exact (ledger.sync (Watch.files_watched found).symm room).1
  | tick => exact (ledger.syncAll now.watch.roots.pairwise_keys room).1
  | skip => exact ⟨ledger.issued, ledger.live⟩
  | rebuild =>
      exact ((ledger_forgotten now).syncAll now.watch.forgotten.roots.pairwise_keys room).1
  | files disk => exact ⟨ledger.issued, ledger.live⟩

/-- Nothing is watched yet, and the numbers of all documents have been taken from the counter. -/
structure IsStart (first : Tracking) : Prop where
  roots : first.watch.roots = .empty
  numbered : ∀ id, first.catalog.isLive id = true → 1 ≤ id ∧ id ≤ first.catalog.greatestId
  counted : first.catalog.greatestId.toNat ≤ first.taken

/-- The ledger of a start is in balance. -/
theorem ledger_of_isStart {first : Tracking} (begun : first.IsStart) : first.Ledger where
  issued := by
    refine ⟨first.catalog.documents.nodup_keys, fun id member => ?_⟩
    obtain ⟨positive, small⟩ := begun.numbered id (OrderedMap.contains_iff.mpr member)
    have counted := begun.counted
    rw [UInt64.le_iff_toNat_le] at positive small
    rw [UInt64.toNat_sub_of_le _ _ (UInt64.le_iff_toNat_le.mpr small)]
    have one : (1 : DocId).toNat = 1 := rfl
    omega
  live := by
    refine ⟨first.catalog.documents.keys, ?_⟩
    unfold Watch.ids
    rw [begun.roots]
    exact .refl _

/-- Over a run the ledger stays in balance. -/
theorem ledger_of_run {first last : Tracking} (begun : first.IsStart)
    (run : Relation.ReflTransGen (Step settings) first last) (room : last.taken ≤ UInt64.size) :
    last.Ledger := by
  induction run with
  | refl => exact ledger_of_isStart begun
  | tail _ step ih =>
      exact ledger_of_step step (ih (Nat.le_trans (taken_le_of_step (.own step)) room)) room

/-- Where only syncs delete documents, the report of a tick and the files that it has lost account
for all documents. Lost are files that still exist and are no longer tracked. Where the report is
empty, only their documents are gone, and neither the words nor the counter have changed. -/
theorem accounted_of_run {first last : Tracking} (begun : first.IsStart)
    (run : Relation.ReflTransGen (Step settings) first last)
    (room : (last.tick settings).taken ≤ UInt64.size) :
    let report := (last.watch.tick settings last.disk last.catalog).1
    let ticked := last.tick settings
    let lost := last.watch.lost ticked.watch settings last.disk last.watch.roots.keys
    ticked.catalog.documents.size + report.removed + lost.length =
        last.catalog.documents.size + report.added ∧
      (report.isEmpty = true →
        (∀ id, ticked.catalog.document? id =
          if id ∈ lost then none else last.catalog.document? id) ∧
        ticked.catalog.terms = last.catalog.terms ∧
        ticked.catalog.nextId = last.catalog.nextId) := by
  intro report ticked lost
  have ledger := ledger_of_run begun run (Nat.le_trans (taken_le_syncAll ..) room)
  obtain ⟨-, size, quiet⟩ := ledger.syncAll last.watch.roots.pairwise_keys room
  refine ⟨size, fun empty => ?_⟩
  have removed : ticked.catalog = last.catalog.removeAll lost := quiet (beq_iff_eq.mp empty)
  rw [removed]
  exact ⟨Catalog.document?_removeAll _ _, Catalog.terms_removeAll .., Catalog.nextId_removeAll ..⟩

theorem isStart_bare : bare.IsStart := ⟨rfl, fun _ live => Bool.noConfusion live, Nat.zero_le _⟩

/-- The disk after the one file was written anew without any word. -/
def blankDisk : Disk := noteDisk.put ["note.txt"] (.file [0x20] 5)

/-- The one file has been indexed, and then its words were taken away. -/
def blanked : Tracking := { noted with disk := blankDisk }

theorem found_blank : blankDisk.entry? ["note.txt"] = some (.file [0x20] 5) := rfl

theorem run_blanked : Relation.ReflTransGen (Step Settings.standard) bare blanked :=
  (Relation.ReflTransGen.single (.add bare notePath)).tail (.files _ blankDisk)

theorem document?_noted : noted.catalog.document? 1 = some (note.document 1) := by
  rw [noted_eq.2.1, Catalog.document?_register]
  rfl

/-- A file with nothing but a blank gives no document. -/
theorem ofFiles_blank :
    Indexable.ofFiles Settings.standard.extensions blankDisk [notePath] = [] := by
  have refused : (Settings.standard.extensions.isIgnored notePath ||
      !(Extract.Extraction.ofContent notePath [0x20]).isValid) = true := by
    decide +kernel
  have gist : Gist.ofPath? Settings.standard.extensions blankDisk notePath = none := by
    unfold Gist.ofPath? Gist.ofContent?
    rw [file?_notePath found_blank]
    simp only [Option.bind_some, refused, if_true]
  rw [← List.map_eq_nil_iff (f := Indexable.gist), Indexable.gists_ofFiles, List.filterMap_cons,
    gist]
  rfl

/-- A sync deletes the document of the file without words, and it reports nothing. -/
theorem syncFiles_blanked :
    let synced := rooted.syncFiles Settings.standard blankDisk noted.catalog (.ofList [notePath])
    synced.report = .zero ∧ synced.catalog = noted.catalog.removeAll [1] := by
  have fate : fateOf blankDisk (.ofList [notePath]) noted.catalog notePath 1 = .changed :=
    fateOf_note rfl found_blank (by decide) document?_noted
  have entries : rooted.files.entries = [(notePath, 1)] := rfl
  have fresh : rooted.fresh (.ofList [notePath]) = [] := by decide
  have queue : rooted.queue blankDisk (.ofList [notePath]) noted.catalog = [notePath] := by
    unfold Watched.queue
    rw [fresh, changed_rooted fate]
    exact List.mergeSort_singleton notePath
  have openings : rooted.openings Settings.standard blankDisk (.ofList [notePath])
      noted.catalog = 5000 := by
    unfold Watched.openings
    rw [size_kept_rooted fate, queue]
    rfl
  have chosen : rooted.chosen Settings.standard blankDisk (.ofList [notePath]) noted.catalog =
      [notePath] := by
    unfold Watched.chosen
    rw [openings, queue]
    rfl
  have surplus : rooted.surplus Settings.standard blankDisk (.ofList [notePath]) noted.catalog =
      [] := by
    unfold Watched.surplus
    rw [openings, queue]
    rfl
  have gone : withFate blankDisk (.ofList [notePath]) noted.catalog (· == .gone)
      rooted.files.entries = [] := by
    unfold withFate
    rw [entries, List.filter_cons_of_neg (by rw [fate]; decide)]
    rfl
  have stale : stale blankDisk (.ofList [notePath]) noted.catalog rooted.files.entries = [1] := by
    unfold Concordance.stale withFate
    rw [entries, List.filter_cons_of_pos (by rw [fate]; rfl)]
    rfl
  have admitted : rooted.admitted Settings.standard blankDisk (.ofList [notePath])
      noted.catalog = ([], noted.catalog.removeAll [1]) := by
    unfold Watched.admitted Watched.cleared
    rw [chosen, ofFiles_blank, stale]
    rfl
  have distinct : rooted.files.values.Nodup := List.nodup_singleton 1
  rw [Watched.syncFiles_eq_queue distinct]
  unfold Watched.updates
  rw [admitted, surplus, gone]
  exact ⟨rfl, rfl⟩

theorem tick_blanked :
    let result := blanked.watch.tick Settings.standard blankDisk blanked.catalog
    result.1 = .zero ∧ result.2.2 = noted.catalog.removeAll [1] := by
  have watch : blanked.watch = ⟨.ofList [(notePath, rooted)], 0⟩ := noted_eq.1
  have found : blanked.watch.roots.get? notePath = some rooted := by
    rw [watch]
    exact OrderedMap.get?_insert_self ..
  have keys : blanked.watch.roots.keys = [notePath] := by
    rw [watch]
    rfl
  obtain ⟨report, catalog⟩ := syncFiles_blanked
  unfold Watch.tick
  rw [keys, Watch.syncRoots, found, Option.getD_some, Watched.sync_eq,
    Upkeep.eligible_notePath found_blank]
  exact ⟨congrArg (SyncReport.add · .zero) report, catalog⟩

theorem size_blanked : blanked.catalog.documents.size = 1 ∧
    (blanked.tick Settings.standard).catalog.documents.size = 0 := by
  have keys : noted.catalog.documents.keys.Perm ([1] ++ []) := by
    rw [noted_eq.2.1]
    exact Catalog.perm_keys_register rfl note
  have catalog : (blanked.tick Settings.standard).catalog = noted.catalog.removeAll [1] :=
    tick_blanked.2
  constructor
  · exact (List.length_map _).symm.trans keys.length_eq
  · rw [catalog]
    exact (List.length_map _).symm.trans (Catalog.perm_keys_removeAll keys).length_eq

/-- A file was written anew without any word. The next tick reports nothing, and it has lost one
document. -/
theorem accounted_of_run_blanked : bare.IsStart ∧
    Relation.ReflTransGen (Step Settings.standard) bare blanked ∧
    (blanked.tick Settings.standard).taken ≤ UInt64.size ∧
    let report := (blanked.watch.tick Settings.standard blankDisk blanked.catalog).1
    let ticked := blanked.tick Settings.standard
    let lost := blanked.watch.lost ticked.watch Settings.standard blankDisk
      blanked.watch.roots.keys
    report.isEmpty = true ∧ lost.length = 1 ∧ ticked.catalog.documents.size + lost.length =
      blanked.catalog.documents.size := by
  obtain ⟨report, -⟩ := tick_blanked
  obtain ⟨before, after⟩ := size_blanked
  have quiet : (blanked.watch.tick Settings.standard blanked.disk blanked.catalog).1 = .zero :=
    report
  have room : (blanked.tick Settings.standard).taken ≤ UInt64.size := by
    show noted.taken + _ ≤ UInt64.size
    rw [noted_eq.2.2, quiet]
    decide
  obtain ⟨size, -⟩ := accounted_of_run isStart_bare run_blanked room
  rw [quiet, before, after] at size
  have one := (Nat.zero_add _).symm.trans size
  refine ⟨isStart_bare, run_blanked, room, beq_iff_eq.mpr report, one, ?_⟩
  rw [before, after]
  exact size

/-- A file was written anew without any word. The next tick deletes its document, and its report is
empty. -/
theorem unreported_of_blanked : bare.IsStart ∧
    Relation.ReflTransGen (Step Settings.standard) bare blanked ∧
    (blanked.watch.tick Settings.standard blankDisk blanked.catalog).1.isEmpty = true ∧
    blanked.catalog.documents.size = 1 ∧
    (blanked.tick Settings.standard).catalog.documents.size = 0 :=
  ⟨isStart_bare, run_blanked, beq_iff_eq.mpr tick_blanked.1, size_blanked⟩

end Tracking
end Concordance
