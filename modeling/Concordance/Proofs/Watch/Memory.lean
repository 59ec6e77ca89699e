import Concordance.Proofs.Watch.Numbering
import Concordance.Proofs.Watch.Retention

/-! How long a file stays left out. -/
namespace Concordance

namespace Watched

/-- A file that has been left out and is not tracked. -/
structure Bars (watched : Watched) (file : Path) : Prop where
  out : watched.capped.contains file = true
  untracked : watched.files.contains file = false

/-- A file that is neither left out nor tracked. -/
structure Ignores (watched : Watched) (file : Path) : Prop where
  free : watched.capped.contains file = false
  untracked : watched.files.contains file = false

/-- A path of which nothing is known ignores no file. -/
theorem ignores_empty (file : Path) : empty.Ignores file := ⟨rfl, rfl⟩

section Line

variable (watched : Watched) (settings : Settings) (disk : Disk) (catalog : Catalog)
  (existing : OrderedSet Path)

-- Two tracked files may have one number here, as the counter may have come round: then a sweep may
-- take a file for changed whose document went with that of another one, and the line is told from
-- the sweep itself.

/-- The files that wait in a sync, new ones and changed ones, in the order of their paths. -/
def line : List Path :=
  (watched.fresh existing ++
      (sweep disk existing catalog watched.files.entries).changed).mergeSort fun first second =>
    (compare first second).isLE

/-- The tracked files that are neither gone nor changed. -/
def staying : OrderedMap Path DocId :=
  let swept := sweep disk existing catalog watched.files.entries
  watched.files.filter fun file _ => !swept.gone.contains file && !swept.changed.contains file

/-- How many of the files that wait there is room for. -/
def seats : Nat :=
  room settings.watch.maxFilesPerPath (watched.staying disk catalog existing).size
    (watched.line disk catalog existing).length

/-- The files for which a sync has no room. -/
def dropped : List Path :=
  (watched.line disk catalog existing).drop (watched.seats settings disk catalog existing)

/-- A sync takes the first of the files in the line and drops the others. -/
theorem batch_append_dropped : watched.batch settings disk catalog existing ++
    watched.dropped settings disk catalog existing = watched.line disk catalog existing :=
  List.take_append_drop ..

/-- A sync tracks what it indexes beside the files that stay, and remembers those it has dropped
beside those it has left out before and still finds. -/
theorem watched_syncFiles : (watched.syncFiles settings disk catalog existing).watched =
    ⟨track (watched.staying disk catalog existing)
        (watched.intake settings disk catalog existing).1,
      (watched.dropped settings disk catalog existing).foldl OrderedSet.insert
        (watched.capped.filter existing.contains)⟩ := rfl

theorem chosen_line : watched.Chosen existing
    (sweep disk existing catalog watched.files.entries).changed
    (watched.line disk catalog existing) := by
  have sorted : (watched.line disk catalog existing).Perm _ := List.mergeSort_perm ..
  have whole := (chosen_waiting catalog).take sorted (watched.line disk catalog existing).length
  rwa [List.take_length] at whole

/-- What is taken in are some of the files of the batch, in their order. -/
theorem paths_intake : ((watched.intake settings disk catalog existing).1.map Prod.fst).Sublist
    (watched.batch settings disk catalog existing) := paths_indexFiles ..

end Line

variable {watched : Watched} {settings : Settings} {disk : Disk} {catalog : Catalog}
  {existing : OrderedSet Path} {file : Path}

/-- What is tracked after a sync has been indexed by it, or it stays. -/
theorem cases_of_tracked (tracked :
    (watched.syncFiles settings disk catalog existing).watched.files.contains file = true) :
    (∃ other ∈ watched.batch settings disk catalog existing, compare file other = .eq) ∨
      (watched.staying disk catalog existing).contains file = true := by
  rw [watched_syncFiles] at tracked
  refine (contains_track.mp tracked).imp_left ?_
  rintro ⟨entry, member, same⟩
  exact ⟨entry.1, (paths_intake ..).subset (List.mem_map_of_mem member), same⟩

/-- No file of the line stays tracked without being indexed again. -/
theorem not_contains_staying {other : Path} (waits : other ∈ watched.line disk catalog existing)
    (same : compare file other = .eq) :
    (watched.staying disk catalog existing).contains file = false := by
  rw [← Bool.not_eq_true]
  intro stays
  obtain ⟨entry, member, alike⟩ := OrderedMap.contains_iff_exists_entry.mp stays
  obtain ⟨tracked, kept⟩ := OrderedMap.mem_filter.mp member
  have unchanged : entry.1 ∉ (sweep disk existing catalog watched.files.entries).changed := by
    simpa using (Bool.and_eq_true_iff.mp kept).2
  refine (chosen_line ..).apart tracked unchanged other waits ?_
  exact (Path.compare_eq_iff.mp alike).symm.trans (Path.compare_eq_iff.mp same)

/-- A file that a sync drops is left out from then on. -/
theorem bars_of_dropped {other : Path}
    (dropped : other ∈ watched.dropped settings disk catalog existing)
    (same : compare file other = .eq) :
    (watched.syncFiles settings disk catalog existing).watched.Bars file := by
  have whole := (watched.chosen_line disk catalog existing).distinct
  rw [← watched.batch_append_dropped settings, List.map_append] at whole
  refine ⟨(OrderedSet.contains_foldl_insert ..).mpr (.inl ⟨other, dropped, same⟩), ?_⟩
  rw [← Bool.not_eq_true]
  intro tracked
  rcases cases_of_tracked tracked with ⟨chosen, member, alike⟩ | stays
  · refine List.disjoint_of_nodup_append whole (List.mem_map_of_mem member) ?_
    rw [← Path.compare_eq_iff.mp alike, Path.compare_eq_iff.mp same]
    exact List.mem_map_of_mem dropped
  · rw [not_contains_staying (List.mem_of_mem_drop dropped) same] at stays
    cases stays

/-- Only files that exist wait. -/
theorem contains_of_mem_line {other : Path} (waits : other ∈ watched.line disk catalog existing)
    (same : compare file other = .eq) : existing.contains file = true := by
  rw [OrderedSet.contains_congr same]
  exact (chosen_line ..).exist other waits

/-- A file that has been left out does not wait. -/
theorem Bars.not_waits (bars : watched.Bars file) {other : Path}
    (waits : other ∈ watched.line disk catalog existing) : compare file other ≠ .eq := by
  intro same
  have there := contains_of_mem_line waits same
  rcases List.mem_append.mp (List.mem_mergeSort.mp waits) with new | changed
  · have kept := OrderedSet.contains_filter_contains.mpr ⟨bars.out, there⟩
    rw [OrderedSet.contains_congr same] at kept
    have both := (List.mem_filter.mp new).2
    rw [kept, Bool.not_true, Bool.and_false] at both
    cases both
  · have tracked : watched.files.contains file = true :=
      OrderedMap.contains_iff_exists.mpr
        ⟨other, List.mem_of_mem_filter (sublist_changed.subset changed), same⟩
    rw [bars.untracked] at tracked
    cases tracked

/-- A file that is not tracked and does not wait is not tracked afterwards. -/
theorem not_contains_syncFiles (untracked : watched.files.contains file = false)
    (passed : ∀ other ∈ watched.line disk catalog existing, compare file other ≠ .eq) :
    (watched.syncFiles settings disk catalog existing).watched.files.contains file = false := by
  rw [← Bool.not_eq_true]
  intro tracked
  rcases cases_of_tracked tracked with ⟨other, member, same⟩ | stays
  · exact passed other (List.mem_of_mem_take member) same
  · obtain ⟨entry, member, same⟩ := OrderedMap.contains_iff_exists_entry.mp stays
    have before : watched.files.contains file = true :=
      OrderedMap.contains_iff_exists_entry.mpr ⟨entry, (OrderedMap.mem_filter.mp member).1, same⟩
    rw [untracked] at before
    cases before

/-- A file that has been left out stays left out as long as it is found. -/
theorem Bars.syncFiles (bars : watched.Bars file) (there : existing.contains file = true) :
    (watched.syncFiles settings disk catalog existing).watched.Bars file where
  out := (OrderedSet.contains_foldl_insert ..).mpr
    (.inr (OrderedSet.contains_filter_contains.mpr ⟨bars.out, there⟩))
  untracked := not_contains_syncFiles bars.untracked fun _ waits => bars.not_waits waits

/-- A file that is not tracked and not found is forgotten. -/
theorem ignores_of_missing (untracked : watched.files.contains file = false)
    (missing : existing.contains file = false) :
    (watched.syncFiles settings disk catalog existing).watched.Ignores file := by
  have passed : ∀ other ∈ watched.line disk catalog existing, compare file other ≠ .eq := by
    intro other waits same
    rw [contains_of_mem_line waits same] at missing
    cases missing
  refine ⟨?_, not_contains_syncFiles untracked passed⟩
  rw [← Bool.not_eq_true]
  intro out
  rcases (OrderedSet.contains_foldl_insert ..).mp out with ⟨other, dropped, same⟩ | before
  · exact passed other (List.mem_of_mem_drop dropped) same
  · rw [(OrderedSet.contains_filter_contains.mp before).2] at missing
    cases missing

/-- A file that is found and is neither left out nor tracked waits as a new file. -/
theorem Ignores.exists_fresh (ignores : watched.Ignores file)
    (there : existing.contains file = true) :
    ∃ other ∈ watched.fresh existing, compare file other = .eq := by
  obtain ⟨other, listed, same⟩ := OrderedSet.contains_iff_exists.mp there
  have untracked := ignores.untracked
  rw [OrderedMap.contains_congr same] at untracked
  have free : (watched.capped.filter existing.contains).contains other = false := by
    rw [← Bool.not_eq_true]
    intro out
    have before := OrderedSet.contains_of_filter out
    rw [← OrderedSet.contains_congr same, ignores.free] at before
    cases before
  refine ⟨other, List.mem_filter.mpr ⟨listed, ?_⟩, same⟩
  rw [untracked, free]
  rfl

end Watched

/-- One sync of a path as it begins: what is on the disk and in the catalog, and what has been
remembered for the path. -/
structure Visit where
  settings : Settings
  disk : Disk
  catalog : Catalog
  root : Path
  tracked : Watched

namespace Visit

variable (visit : Visit)

/-- The files that a sync finds. -/
def existing : OrderedSet Path := eligible visit.settings visit.disk visit.root

def synced : Synced :=
  visit.tracked.syncFiles visit.settings visit.disk visit.catalog visit.existing

/-- There is no room for a file that waits. -/
def LeavesOut (file : Path) : Prop :=
  ∃ other ∈ visit.tracked.dropped visit.settings visit.disk visit.catalog visit.existing,
    compare file other = .eq

/-- A file waits to be indexed. -/
def Queues (file : Path) : Prop :=
  ∃ other ∈ visit.tracked.line visit.disk visit.catalog visit.existing, compare file other = .eq

/-- A file waits among the new ones. -/
def QueuesNew (file : Path) : Prop :=
  ∃ other ∈ visit.tracked.fresh visit.existing, compare file other = .eq

/-- A file becomes a document. -/
def Indexes (file : Path) : Prop :=
  ∃ entry ∈ (visit.tracked.intake visit.settings visit.disk visit.catalog visit.existing).1,
    compare file entry.1 = .eq

variable {visit} {file : Path}

/-- A file that waits as a new one waits. -/
theorem QueuesNew.queues (queues : visit.QueuesNew file) : visit.Queues file := by
  obtain ⟨other, new, same⟩ := queues
  exact ⟨other, List.mem_mergeSort.mpr (List.mem_append_left _ new), same⟩

/-- Only files that wait become documents. -/
theorem Indexes.queues (indexes : visit.Indexes file) : visit.Queues file := by
  obtain ⟨entry, member, same⟩ := indexes
  have chosen := (Watched.paths_intake ..).subset (List.mem_map_of_mem member)
  exact ⟨entry.1, List.mem_of_mem_take chosen, same⟩

end Visit

/-- What happens to watched paths: one of them is synced, added or given up, or all that is
remembered for them is forgotten in a rebuild. -/
inductive Event where
  | synced (visit : Visit)
  | added (root : Path)
  | removed (root : Path)
  | rebuilt

namespace Event

/-- What gives a file of a path that has been left out another chance. -/
def Releases (root file : Path) : Event → Prop
  | .synced visit => compare visit.root root = .eq ∧ visit.existing.contains file = false
  | .added other => compare other root = .eq
  | .removed _ => False
  | .rebuilt => True

/-- A sync of a path finds a file. -/
def Finds (root file : Path) : Event → Prop
  | .synced visit => compare visit.root root = .eq ∧ visit.existing.contains file = true
  | _ => False

end Event

/-- What is remembered for each path that is watched. -/
abbrev Memory := Path → Option Watched

namespace Memory

def set (memory : Memory) (root : Path) (watched : Option Watched) : Memory := fun other =>
  if compare other root = .eq then watched else memory other

/-- Of two entries for one path the later counts. -/
@[simp] theorem set_set (memory : Memory) (root : Path) (first second : Option Watched) :
    (memory.set root first).set root second = memory.set root second := by
  funext other
  unfold set
  split <;> rfl

/-- One event. A sync starts from what is remembered for its path. -/
inductive Step : Memory → Event → Memory → Prop where
  | synced {memory : Memory} {visit : Visit} (found : memory visit.root = some visit.tracked) :
      Step memory (.synced visit) (memory.set visit.root (some visit.synced.watched))
  | added (memory : Memory) (root : Path) : Step memory (.added root)
      (memory.set root (some { (memory root).getD .empty with capped := .empty }))
  | removed (memory : Memory) (root : Path) : Step memory (.removed root) (memory.set root none)
  | rebuilt (memory : Memory) :
      Step memory .rebuilt fun root => (memory root).map fun _ => .empty

/-- Events one after another. -/
inductive Steps : Memory → List Event → Memory → Prop where
  | nil (memory : Memory) : Steps memory [] memory
  | cons {first middle last : Memory} {event : Event} {events : List Event}
      (step : Step first event middle) (rest : Steps middle events last) :
      Steps first (event :: events) last

variable {first middle last memory next : Memory} {event : Event} {events more : List Event}
  {root file : Path}

/-- One event is a step. -/
theorem Steps.single (step : Step first event last) : Steps first [event] last :=
  .cons step (.nil last)

/-- Two sequences of steps one after another are one. -/
theorem Steps.append (left : Steps first events middle) (right : Steps middle more last) :
    Steps first (events ++ more) last := by
  induction left with
  | nil => exact right
  | cons step _ ih => exact .cons step (ih right)

/-- The steps of events before others lead to where the steps of the others start. -/
theorem Steps.split (whole : Steps first (events ++ more) last) :
    ∃ middle, Steps first events middle ∧ Steps middle more last := by
  induction events generalizing first with
  | nil => exact ⟨first, .nil first, whole⟩
  | cons event rest ih =>
      cases whole with
      | cons step whole =>
          obtain ⟨middle, left, right⟩ := ih whole
          exact ⟨middle, .cons step left, right⟩

/-- What is remembered for a path, under any spelling, has a property. -/
def Holds (memory : Memory) (root : Path) (property : Watched → Prop) : Prop :=
  ∀ other watched, compare other root = .eq → memory other = some watched → property watched

variable {property : Watched → Prop}

/-- What holds of a path goes on to hold when the path gets an entry of which it is true. -/
theorem Holds.set (holds : memory.Holds root property) {target : Path} {watched : Watched}
    (value : compare target root = .eq → property watched) :
    (memory.set target (some watched)).Holds root property := by
  intro other held same found
  unfold Memory.set at found
  split at found
  next here =>
    cases found
    exact value (Std.TransCmp.eq_trans (Std.OrientedCmp.eq_symm here) same)
  next => exact holds other held same found

theorem holds_set {target : Path} (same : compare target root = .eq) {watched : Watched}
    (value : property watched) : (memory.set target (some watched)).Holds root property := by
  intro other held alike found
  unfold Memory.set at found
  rw [if_pos (Std.TransCmp.eq_trans alike (Std.OrientedCmp.eq_symm same))] at found
  cases found
  exact value

/-- What holds of a path goes on to hold when a path is forgotten. -/
theorem Holds.remove (holds : memory.Holds root property) (target : Path) :
    (memory.set target none).Holds root property := by
  intro other held same found
  unfold Memory.set at found
  split at found
  next => cases found
  next => exact holds other held same found

/-- What every event of a kind keeps, events of that kind keep one after another. -/
theorem Steps.keeps {kind : Event → Prop} (steps : Steps memory events next)
    (keeps : ∀ {first last : Memory} {event : Event}, Step first event last → kind event →
      first.Holds root property → last.Holds root property)
    (all : ∀ event ∈ events, kind event) (holds : memory.Holds root property) :
    next.Holds root property := by
  induction steps with
  | nil => exact holds
  | cons step _ ih =>
      rw [List.forall_mem_cons] at all
      exact ih all.2 (keeps step all.1 holds)

/-- Nothing but a release ends that a file is left out. -/
theorem Step.bars (step : Step memory event next) (kept : ¬event.Releases root file)
    (bars : memory.Holds root (·.Bars file)) : next.Holds root (·.Bars file) := by
  cases step with
  | @synced visit found =>
      refine bars.set fun same => ?_
      refine (bars visit.root visit.tracked same found).syncFiles ?_
      rw [← Bool.not_eq_false]
      exact fun missing => kept ⟨same, missing⟩
  | added other => exact bars.set fun same => absurd same kept
  | removed other => exact bars.remove other
  | rebuilt => exact absurd trivial kept

/-- Where a path is added, nothing is left out any more. -/
theorem ignores_added {other : Path} (untracked : ∀ watched, memory other = some watched →
      watched.files.contains file = false) :
    Watched.Ignores { (memory other).getD .empty with capped := .empty } file := by
  refine ⟨rfl, ?_⟩
  cases found : memory other with
  | none => rfl
  | some watched => exact untracked watched found

/-- After everything has been forgotten no path ignores a file. -/
theorem ignores_rebuilt (memory : Memory) (root file : Path) :
    Holds (fun root => (memory root).map fun _ => .empty) root (·.Ignores file) := by
  intro other watched _ found
  obtain ⟨_, _, rfl⟩ := Option.map_eq_some_iff.mp found
  exact Watched.ignores_empty file

/-- After a release nothing is remembered of a file that has been left out. -/
theorem Step.ignores_of_bars (step : Step memory event next) (releases : event.Releases root file)
    (bars : memory.Holds root (·.Bars file)) : next.Holds root (·.Ignores file) := by
  cases step with
  | @synced visit found =>
      have barred := bars visit.root visit.tracked releases.1 found
      exact holds_set releases.1 (Watched.ignores_of_missing barred.untracked releases.2)
  | added other =>
      exact holds_set releases (ignores_added fun watched found =>
        (bars other watched releases found).untracked)
  | removed other => cases releases
  | rebuilt => exact ignores_rebuilt memory root file

/-- Only a sync that finds a file makes it known. -/
theorem Step.ignores (step : Step memory event next) (missed : ¬event.Finds root file)
    (ignores : memory.Holds root (·.Ignores file)) : next.Holds root (·.Ignores file) := by
  cases step with
  | @synced visit found =>
      refine ignores.set fun same => ?_
      refine Watched.ignores_of_missing (ignores visit.root visit.tracked same found).untracked ?_
      rw [← Bool.not_eq_true]
      exact fun there => missed ⟨same, there⟩
  | added other =>
      exact ignores.set fun same => ignores_added fun watched found =>
        (ignores other watched same found).untracked
  | removed other => exact ignores.remove other
  | rebuilt => exact ignores_rebuilt memory root file

/-- What is remembered for a path when a sync of it begins. -/
theorem Steps.of_visit {visit : Visit} (steps : Steps memory (.synced visit :: events) next)
    (holds : memory.Holds root property) (same : compare visit.root root = .eq) :
    property visit.tracked := by
  cases steps with
  | cons step _ =>
      cases step with
      | synced found => exact holds visit.root visit.tracked same found

section LeftOut

variable {early : Visit} (steps : Steps memory (.synced early :: events) next)
  (out : early.LeavesOut file)

include steps out

/-- A file that a sync has left out stays left out until it is released. -/
theorem Steps.bars_of_leavesOut (kept : ∀ event ∈ events, ¬event.Releases early.root file) :
    next.Holds early.root (·.Bars file) := by
  obtain ⟨other, dropped, alike⟩ := out
  cases steps with
  | cons step rest =>
      cases step with
      | synced found =>
          exact rest.keeps Step.bars kept (holds_set Std.ReflCmp.compare_self
            (Watched.bars_of_dropped dropped alike))

/-- A file that has been released is as good as new until a sync finds it again. -/
theorem Steps.ignores_of_leavesOut {kept rest : List Event}
    (between : events = kept ++ event :: rest)
    (barred : ∀ event ∈ kept, ¬event.Releases early.root file)
    (releases : event.Releases early.root file)
    (missed : ∀ event ∈ rest, ¬event.Finds early.root file) :
    next.Holds early.root (·.Ignores file) := by
  rw [between, ← List.cons_append] at steps
  obtain ⟨middle, earlier, steps⟩ := steps.split
  have bars := earlier.bars_of_leavesOut out barred
  cases steps with
  | cons step steps => exact steps.keeps Step.ignores missed (step.ignores_of_bars releases bars)

end LeftOut

end Memory

namespace Tracking

/-- What is remembered for each path. -/
def memory (now : Tracking) : Memory := now.watch.roots.get?

/-- The sync of a path as it begins, of which this has been tracked. -/
def visit (now : Tracking) (settings : Settings) (root : Path) (tracked : Watched) : Visit :=
  ⟨settings, now.disk, now.catalog, root, tracked⟩

/-- The syncs of paths one after another. -/
def visits (now : Tracking) (settings : Settings) : List Path → List Event
  | [] => []
  | root :: rest =>
      .synced (now.visit settings root ((now.watch.roots.get? root).getD .empty)) ::
        (now.turn settings root).visits settings rest

/-- One thing that happens to a daemon, with the events of which it consists. A single sync stands
for what others see of a tick that is not over yet. Settings may be others each time, and the disk
and the catalog may change in any way. -/
inductive Deed : Tracking → List Event → Tracking → Prop where
  | add (now : Tracking) (settings : Settings) (root : Path) :
      Deed now [.added root, .synced (now.visit settings root (now.watch.watched root))]
        (now.add settings root)
  | remove (now : Tracking) (root : Path) : Deed now [.removed root] (now.remove root)
  | sync {now : Tracking} {root : Path} {watched : Watched} (settings : Settings)
      (found : now.watch.roots.get? root = some watched) :
      Deed now [.synced (now.visit settings root watched)] (now.sync settings root watched)
  | tick (now : Tracking) (settings : Settings) :
      Deed now (now.visits settings now.watch.roots.keys) (now.tick settings)
  | skip (now : Tracking) : Deed now [] { now with watch := now.watch.skip }
  | rebuild (now : Tracking) (settings : Settings) :
      Deed now (.rebuilt :: now.forgotten.visits settings now.forgotten.watch.roots.keys)
        (now.rebuild settings)
  | disk (now : Tracking) (disk : Disk) : Deed now [] { now with disk := disk }
  | catalog (now : Tracking) (catalog : Catalog) : Deed now [] { now with catalog := catalog }

/-- Things that happen one after another, with all their events. -/
inductive Deeds (first : Tracking) : List Event → Tracking → Prop where
  | start : Deeds first [] first
  | deed {events more : List Event} {now next : Tracking} (deeds : Deeds first events now)
      (deed : Deed now more next) : Deeds first (events ++ more) next

variable {first now next last : Tracking} {events : List Event}

/-- After a sync of a path what it has left is remembered. -/
theorem memory_sync (now : Tracking) (settings : Settings) (root : Path) (tracked : Watched) :
    (now.sync settings root tracked).memory =
      now.memory.set root (some (now.visit settings root tracked).synced.watched) := by
  funext other
  exact OrderedMap.get?_insert ..

/-- A sync of a path is remembered as one event. -/
theorem steps_sync (settings : Settings) {root : Path} {watched : Watched}
    (found : now.memory root = some watched) :
    now.memory.Steps [.synced (now.visit settings root watched)]
      (now.sync settings root watched).memory := by
  rw [memory_sync]
  exact .single (.synced found)

/-- Adding a path is remembered as adding it and as a sync. -/
theorem steps_add (now : Tracking) (settings : Settings) (root : Path) : now.memory.Steps
    [.added root, .synced (now.visit settings root (now.watch.watched root))]
    (now.add settings root).memory := by
  rw [add_eq_sync, memory_sync, ← Memory.set_set now.memory root (some (now.watch.watched root))]
  refine .cons (.added now.memory root) (.single (.synced ?_))
  exact if_pos Std.ReflCmp.compare_self

/-- Syncs of paths that are watched, one after another. -/
theorem steps_syncAll (settings : Settings) {roots : List Path}
    (watched : ∀ root ∈ roots, (now.memory root).isSome = true) :
    now.memory.Steps (now.visits settings roots) (now.syncAll settings roots).memory := by
  induction roots generalizing now with
  | nil => exact .nil _
  | cons root rest ih =>
      rw [List.forall_mem_cons] at watched
      obtain ⟨tracked, found⟩ := Option.isSome_iff_exists.mp watched.1
      have here : (now.watch.roots.get? root).getD .empty = tracked :=
        congrArg (·.getD .empty) found
      have later : ∀ other ∈ rest, ((now.turn settings root).memory other).isSome = true := by
        intro other member
        unfold memory
        rw [get?_turn]
        split
        next => rfl
        next => exact watched.2 other member
      rw [syncAll_cons, visits]
      have begun := steps_sync settings found
      rw [← here] at begun
      exact begun.append (ih later)

/-- Every path that is watched is remembered. -/
theorem isSome_memory {root : Path} (listed : root ∈ now.watch.roots.keys) :
    (now.memory root).isSome = true :=
  OrderedMap.contains_iff_exists.mpr ⟨root, listed, Std.ReflCmp.compare_self⟩

/-- A rebuild forgets the files of all paths and keeps the paths. -/
theorem memory_forgotten (now : Tracking) :
    now.forgotten.memory = fun root => (now.memory root).map fun _ => .empty := by
  funext root
  apply Option.ext
  intro watched
  show now.watch.forgotten.roots.get? root = some watched ↔ _
  rw [Watch.forgotten, OrderedMap.get?_mapValues, Option.map_eq_some_iff]
  constructor
  · rintro ⟨other, old, same, member, value⟩
    exact ⟨old, OrderedMap.get?_eq_some_iff_exists.mpr ⟨other, same, member⟩, value⟩
  · rintro ⟨old, found, value⟩
    obtain ⟨other, same, member⟩ := OrderedMap.get?_eq_some_iff_exists.mp found
    exact ⟨other, old, same, member, value⟩

/-- What is remembered after something has happened follows from its events alone. -/
theorem steps_of_deed (deed : Deed now events next) : now.memory.Steps events next.memory := by
  cases deed with
  | add settings root => exact steps_add now settings root
  | remove root =>
      have erased : (now.remove root).memory = now.memory.set root none :=
        funext fun other => OrderedMap.get?_erase ..
      rw [erased]
      exact .single (.removed now.memory root)
  | sync settings found => exact steps_sync settings found
  | tick settings => exact steps_syncAll settings fun _ listed => isSome_memory listed
  | skip => exact .nil _
  | rebuild settings =>
      have begun := Memory.Step.rebuilt now.memory
      rw [← memory_forgotten] at begun
      exact .cons begun (steps_syncAll settings fun _ listed => isSome_memory listed)
  | disk => exact .nil _
  | catalog => exact .nil _

/-- Deeds are remembered as the events that they bring. -/
theorem steps_of_deeds (deeds : Deeds first events last) :
    first.memory.Steps events last.memory := by
  induction deeds with
  | start => exact .nil _
  | deed _ deed ih => exact ih.append (steps_of_deed deed)

/-- A file for which a sync of a path has no room is not indexed by any later sync of the path, also
where there is room again, until it is released: a sync of the path no longer finds it, the path is
added again, which may have been given up before, or there is a rebuild. The first sync after its
release that finds it has it wait among the new files. -/
theorem leftOut_of_deeds {before between after : List Event} {early late : Visit} {file : Path}
    (deeds : Deeds first events last)
    (split : events = before ++ .synced early :: (between ++ .synced late :: after))
    (out : early.LeavesOut file) (same : compare late.root early.root = .eq) :
    ((∀ event ∈ between, ¬event.Releases early.root file) →
      ¬late.Queues file ∧ ¬late.Indexes file ∧
        late.synced.watched.files.contains file = false) ∧
    ∀ kept release rest, between = kept ++ release :: rest →
      (∀ event ∈ kept, ¬event.Releases early.root file) → release.Releases early.root file →
      (∀ event ∈ rest, ¬event.Finds early.root file) → late.existing.contains file = true →
      late.QueuesNew file ∧ late.Queues file := by
  have steps := steps_of_deeds deeds
  rw [split] at steps
  obtain ⟨_, -, steps⟩ := steps.split
  rw [← List.cons_append] at steps
  obtain ⟨_, steps, later⟩ := steps.split
  constructor
  · intro kept
    have bars := later.of_visit (steps.bars_of_leavesOut out kept) same
    have passed : ¬late.Queues file := fun ⟨_, waits, alike⟩ => bars.not_waits waits alike
    refine ⟨passed, fun indexes => passed indexes.queues, ?_⟩
    exact Watched.not_contains_syncFiles bars.untracked fun _ waits => bars.not_waits waits
  · intro kept release rest parts barred releases missed there
    have forgotten := steps.ignores_of_leavesOut out parts barred releases missed
    have ignores := later.of_visit forgotten same
    have new : late.QueuesNew file := ignores.exists_fresh there
    exact ⟨new, new.queues⟩

/-- Where one file may be tracked, the one that was written anew is left out for the new one. -/
theorem leavesOut_crowded :
    ((crowded 1).visit (limited 1) ⟨"/"⟩ rooted).LeavesOut notePath := by
  obtain ⟨item, read⟩ := read_crowded 1
  have fate := fate_crowded (Nat.le_refl 1)
  have member : (notePath, 1) ∈ rooted.files.entries := List.mem_singleton_self _
  have waits : notePath ∈ rooted.queue crowdedDisk
      (eligible (limited 1) crowdedDisk ⟨"/"⟩) (crowded 1).catalog :=
    Watched.mem_queue_iff.mpr (.inr ((Watched.mem_changed_iff member).mpr fate))
  have distinct : rooted.files.values.Nodup := List.nodup_singleton 1
  obtain ⟨turn, left⟩ := Watched.contains_syncFiles_iff distinct waits read
  rw [size_kept_rooted fate, ahead_crowded (Nat.le_refl 1)] at turn
  have out := left (Bool.eq_false_iff.mpr fun tracked => absurd (turn.mp tracked) (by decide))
  exact ((OrderedSet.contains_foldl_insert ..).mp out).resolve_right fun before =>
    Bool.noConfusion (OrderedSet.contains_of_filter before)

/-- The file that has been left out is passed by as long as it is found, and it waits as a new file
where the path is added again. -/
theorem leftOut_of_deeds_readded :
    let early := (crowded 1).visit (limited 1) ⟨"/"⟩ rooted
    let left := (crowded 1).sync (limited 1) ⟨"/"⟩ rooted
    let passing := left.visit (limited 1) ⟨"/"⟩ early.synced.watched
    let passed := left.sync (limited 1) ⟨"/"⟩ early.synced.watched
    let again := passed.visit (limited 1) ⟨"/"⟩ (passed.watch.watched ⟨"/"⟩)
    (∃ before, Deeds bare
      (before ++ [.synced early, .synced passing, .added ⟨"/"⟩, .synced again])
      (passed.add (limited 1) ⟨"/"⟩)) ∧
    early.LeavesOut notePath ∧ passing.existing.contains notePath = true ∧
    ¬passing.Queues notePath ∧ ¬passing.Indexes notePath ∧ again.QueuesNew notePath := by
  intro early left passing passed again
  let before : List Event :=
    [.added ⟨"/"⟩, .synced (bare.visit (limited 1) ⟨"/"⟩ (bare.watch.watched ⟨"/"⟩))]
  have found : left.watch.roots.get? ⟨"/"⟩ = some early.synced.watched :=
    OrderedMap.get?_insert_self ..
  have deeds : Deeds bare
      (before ++ [.synced early, .synced passing, .added ⟨"/"⟩, .synced again])
      (passed.add (limited 1) ⟨"/"⟩) :=
    ((((Deeds.start.deed (.add bare (limited 1) ⟨"/"⟩)).deed (.disk _ crowdedDisk)).deed
      (.sync (limited 1) (get?_crowded (Nat.le_refl 1)))).deed (.sync (limited 1) found)).deed
        (.add passed (limited 1) ⟨"/"⟩)
  have there : (eligible (limited 1) crowdedDisk ⟨"/"⟩).contains notePath = true := by
    rw [eligible_crowded]
    decide
  have kept : ¬(Event.synced passing).Releases ⟨"/"⟩ notePath := fun releases =>
    Bool.noConfusion (releases.2.symm.trans there)
  have same : compare (Path.mk "/") ⟨"/"⟩ = .eq := Std.ReflCmp.compare_self
  have next : before ++ [.synced early, .synced passing, .added ⟨"/"⟩, .synced again] =
      before ++ .synced early :: ([] ++ .synced passing :: [.added ⟨"/"⟩, .synced again]) := rfl
  have pass := (leftOut_of_deeds deeds next leavesOut_crowded same).1 fun _ none => nomatch none
  have last : before ++ [.synced early, .synced passing, .added ⟨"/"⟩, .synced again] =
      before ++ .synced early :: ([.synced passing, .added ⟨"/"⟩] ++ .synced again :: []) := rfl
  have queued := (leftOut_of_deeds deeds last leavesOut_crowded same).2 [.synced passing]
    (.added ⟨"/"⟩) [] rfl (List.forall_mem_singleton.mpr kept) same (fun _ none => nomatch none)
    there
  exact ⟨⟨before, deeds⟩, leavesOut_crowded, there, pass.1, pass.2.1, queued.1⟩

end Tracking
end Concordance
