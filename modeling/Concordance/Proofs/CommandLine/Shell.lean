import Concordance.Proofs.Catalog.History
import Concordance.Proofs.CommandLine.Session

namespace Concordance.CommandLine

open Disk Catalog Program

/-- The disk after catalogs were saved in an order, up to the first that cannot be written. -/
def savedDisk (now : Int) : List Catalog → Disk → Disk
  | [], disk => disk
  | catalog :: rest, disk =>
      match catalog.flush now disk with
      | .ok _ left => savedDisk now rest left
      | .error _ left => left

/-- The disk after catalogs were dropped in an order, each of them written if it can be. -/
def droppedDisk (now : Int) : List Catalog → Disk → Disk
  | [], disk => disk
  | catalog :: rest, disk => droppedDisk now rest (stateAfter (catalog.flush now) disk)

variable {settings : Settings} {clock : Clock}

section Turns

/-- A shell that goes on follows a line and then the rest of them. -/
theorem shellLines_of_read (settings : Settings) (clock : Clock) (fuel : Nat)
    {console left : Console} {text : List Char}
    (next : nextLine (stateAfter (print "> ") console) = .ok (some text) left)
    (other : ShellLine.ofText text ≠ .quit)
    (goes : (⟨left, ShellLine.ofText text⟩ : Turn).GoesOn settings clock) :
    let turn : Turn := ⟨left, ShellLine.ofText text⟩
    shellLines settings clock (fuel + 1) console =
        shellLines settings clock fuel (turn.after settings clock) ∧
      turns settings clock (fuel + 1) console =
        turn :: turns settings clock fuel (turn.after settings clock) := by
  obtain ⟨last, followed⟩ := goes
  have after : stateAfter (follow settings clock (ShellLine.ofText text)) left = last :=
    stateAfter_of_ok followed
  rw [shellLines_succ, turns, next]
  unfold Turn.after
  simp only [after]
  generalize ShellLine.ofText text = line at other followed
  have rest : (do follow settings clock line; shellLines settings clock fuel) left =
      shellLines settings clock fuel last := bind_of_ok followed
  cases line with
  | quit => exact absurd rfl other
  | _ => exact ⟨rest, by simp only [followed]⟩

/-- In a shell that ends no line crashes. -/
theorem goesOn_of_end {fuel : Nat} {console left final : Console} {text : List Char}
    (next : nextLine (stateAfter (print "> ") console) = .ok (some text) left)
    (other : ShellLine.ofText text ≠ .quit)
    (ended : shellLines settings clock (fuel + 1) console = .ok () final) :
    (⟨left, ShellLine.ofText text⟩ : Turn).GoesOn settings clock := by
  rw [shellLines_succ, next] at ended
  unfold Turn.GoesOn
  simp only at ended ⊢
  generalize ShellLine.ofText text = line at other ended
  have whole : (do follow settings clock line; shellLines settings clock fuel) left =
      .ok () final := by
    cases line with
    | quit => exact absurd rfl other
    | _ => exact ended
  cases followed : follow settings clock line left with
  | ok value last => exact ⟨last, rfl⟩
  | error failure last =>
      rw [bind_of_error followed] at whole
      cases whole

/-- A shell that has come to its end follows no line. -/
theorem turns_of_end {fuel : Nat} {console final : Console}
    (ended : shellLines settings clock (fuel + 1) console = .ok () final)
    (last : ∀ text left, nextLine (stateAfter (print "> ") console) = .ok (some text) left →
      ShellLine.ofText text = .quit) :
    final.desk = console.desk ∧ turns settings clock (fuel + 1) console = [] := by
  rw [shellLines_succ] at ended
  rw [turns]
  cases next : nextLine (stateAfter (print "> ") console) with
  | error failure left =>
      rw [next] at ended
      cases ended
  | ok text left =>
      have same := (desk_of_nextLine next).trans (desk_stateAfter (isQuiet_print _) console)
      rw [next] at ended
      cases text with
      | none =>
          cases ended
          exact ⟨same, rfl⟩
      | some text =>
          simp only [last text left next] at ended ⊢
          cases ended
          exact ⟨same, trivial⟩

/-- The shell ends where there is no line. -/
theorem shellLines_of_empty (settings : Settings) (clock : Clock) {console : Console}
    (empty : console.input = []) (fuel : Nat) :
    ∃ final, shellLines settings clock (fuel + 1) console = .ok () final ∧
      final.desk = console.desk ∧ turns settings clock (fuel + 1) console = [] := by
  have next : nextLine (stateAfter (print "> ") console) =
      .ok none (stateAfter (print "> ") console) := by
    have same : (stateAfter (print "> ") console).input = [] := empty
    unfold nextLine
    rw [same]
  have ended : shellLines settings clock (fuel + 1) console =
      .ok () (stateAfter (print "> ") console) := by
    rw [shellLines_succ, next]
  exact ⟨_, ended, turns_of_end ended fun _ _ other => nomatch next.symm.trans other⟩

/-- All that the shell does is a sequence of moves, with those of each line among them. -/
theorem moves_of_turns (fuel : Nat) {console final : Console} (sound : console.desk.Sound)
    (room : ∀ turn ∈ turns settings clock fuel console, turn.HasRoom settings)
    (ended : shellLines settings clock fuel console = .ok () final) :
    Desk.Moves console.desk final.desk ∧
      ∀ turn ∈ turns settings clock fuel console, turn.console.desk.Sound ∧
        turn.line.HasDirectory ∧ Desk.Moves (turn.after settings clock).desk final.desk := by
  induction fuel generalizing console with
  | zero =>
      cases ended
      exact ⟨.refl, fun _ member => absurd member List.not_mem_nil⟩
  | succ fuel ih =>
      by_cases goes : ∃ text left,
          nextLine (stateAfter (print "> ") console) = .ok (some text) left ∧
            ShellLine.ofText text ≠ .quit
      · obtain ⟨text, left, next, other⟩ := goes
        obtain ⟨shell, followed⟩ :=
          shellLines_of_read settings clock fuel next other (goesOn_of_end next other ended)
        have same : left.desk = console.desk :=
          (desk_of_nextLine next).trans (desk_stateAfter (isQuiet_print _) console)
        have named := ShellLine.hasDirectory_ofText text
        rw [shell] at ended
        rw [followed] at room ⊢
        have sound_left : left.desk.Sound := same ▸ sound
        have moves := Turn.moves clock sound_left named (room _ List.mem_cons_self)
        obtain ⟨rest, each⟩ := ih (sound_left.of_moves moves).1
          (fun turn member => room turn (List.mem_cons_of_mem _ member)) ended
        refine ⟨same ▸ moves.trans rest, fun turn member => ?_⟩
        rcases List.mem_cons.mp member with rfl | later
        · exact ⟨sound_left, named, rest⟩
        · exact each turn later
      · obtain ⟨same, none⟩ := turns_of_end ended fun text left next =>
          by_contra fun other => goes ⟨text, left, next, other⟩
        rw [same, none]
        exact ⟨.refl, fun _ member => absurd member List.not_mem_nil⟩

end Turns

section Closing

variable {now : Int}

/-- Saving open catalogs one after another is a sequence of moves. -/
theorem moves_savedDisk (catalogs : List Catalog) {desk : Desk}
    (opened : ∀ catalog ∈ catalogs, catalog ∈ desk.catalogs.values) :
    Desk.Moves desk ⟨savedDisk now catalogs desk.disk, desk.catalogs⟩ := by
  induction catalogs generalizing desk with
  | nil => exact .refl
  | cons catalog rest ih =>
      obtain ⟨path, held⟩ := Desk.get?_of_mem_values (opened catalog List.mem_cons_self)
      have first : Desk.Move desk ⟨stateAfter (catalog.flush now) desk.disk, desk.catalogs⟩ :=
        .write held now
      rw [savedDisk]
      cases flushed : catalog.flush now desk.disk with
      | error fault left =>
          rw [stateAfter_of_error flushed] at first
          exact .single first
      | ok value left =>
          rw [stateAfter_of_ok flushed] at first
          exact .head first (@ih ⟨left, desk.catalogs⟩ fun other member =>
            opened other (List.mem_cons_of_mem _ member))

/-- Dropping open catalogs one after another is a sequence of moves. -/
theorem moves_droppedDisk (catalogs : List Catalog) {desk : Desk}
    (opened : ∀ catalog ∈ catalogs, catalog ∈ desk.catalogs.values) :
    Desk.Moves desk ⟨droppedDisk now catalogs desk.disk, desk.catalogs⟩ := by
  induction catalogs generalizing desk with
  | nil => exact .refl
  | cons catalog rest ih =>
      obtain ⟨path, held⟩ := Desk.get?_of_mem_values (opened catalog List.mem_cons_self)
      have first : Desk.Move desk ⟨stateAfter (catalog.flush now) desk.disk, desk.catalogs⟩ :=
        .write held now
      exact .head first (@ih ⟨stateAfter (catalog.flush now) desk.disk, desk.catalogs⟩
        fun other member => opened other (List.mem_cons_of_mem _ member))

/-- What the shell does after its last line. -/
def saveAll (now : Int) (catalogs : List Catalog) : Program Unit :=
  catalogs.forM fun catalog => do
    require (← act (catalog.flush now))

/-- Saving changes nothing but the disk. -/
theorem desk_saveAll (now : Int) (catalogs : List Catalog) (console : Console) :
    (stateAfter (saveAll now catalogs) console).desk =
      ⟨savedDisk now catalogs console.disk, console.catalogs⟩ := by
  induction catalogs generalizing console with
  | nil => rfl
  | cons catalog rest ih =>
      have whole : saveAll now (catalog :: rest) =
          (do require (← act (catalog.flush now))) >>= fun _ => saveAll now rest := rfl
      have first := require_act_eq (catalog.flush now) console
      rw [whole, savedDisk]
      cases flushed : catalog.flush now console.disk with
      | error fault left =>
          rw [flushed] at first
          rw [stateAfter_bind_of_error first]
          rfl
      | ok value left =>
          rw [flushed] at first
          rw [stateAfter_bind_of_ok first]
          exact ih { console with disk := left }

/-- Catalogs that cannot be written are no crash. -/
theorem saveAll_ne_crash (now : Int) (catalogs : List Catalog) (console last : Console) :
    saveAll now catalogs console ≠ .error .crash last := by
  induction catalogs generalizing console with
  | nil => exact nofun
  | cons catalog rest ih =>
      have whole : saveAll now (catalog :: rest) =
          (do require (← act (catalog.flush now))) >>= fun _ => saveAll now rest := rfl
      have first := require_act_eq (catalog.flush now) console
      rw [whole]
      cases flushed : catalog.flush now console.disk with
      | error fault left =>
          rw [flushed] at first
          rw [bind_of_error first]
          exact nofun
      | ok value left =>
          rw [flushed] at first
          rw [bind_of_ok first]
          exact ih _

/-- Closing always comes to its end, and leaves what dropping all open catalogs leaves. -/
theorem closeCatalogs_eq (now : Int) (console : Console) :
    ∃ last, closeCatalogs now console = .ok () last ∧
      last.disk = droppedDisk now console.catalogs.values console.disk := by
  have all : ∀ (catalogs : List Catalog) (console : Console),
      ∃ last, (catalogs.forM fun catalog => do
        let _ ← act (catalog.flush now) : Program Unit) console = .ok () last ∧
        last.disk = droppedDisk now catalogs console.disk := by
    intro catalogs
    induction catalogs with
    | nil => exact fun console => ⟨console, rfl, rfl⟩
    | cons catalog rest ih =>
        intro console
        obtain ⟨last, dropped, disk⟩ := ih
          { console with disk := stateAfter (catalog.flush now) console.disk }
        refine ⟨last, ?_, disk⟩
        have first : (do let _ ← act (catalog.flush now) : Program Unit) console =
            .ok () { console with disk := stateAfter (catalog.flush now) console.disk } :=
          bind_of_ok (act_eq ..)
        exact (bind_of_ok first).trans dropped
  exact all console.catalogs.values console

/-- When the loop has ended, the open catalogs are saved and dropped in the order of their names. -/
theorem disk_complete_shell {console final : Console}
    (ended : shellLines settings clock (console.input.length + 1) console = .ok () final) :
    (stateAfter (Program.complete clock.seconds (shell settings clock)) console).disk =
      droppedDisk clock.seconds final.catalogs.values
        (savedDisk clock.seconds final.catalogs.values final.disk) := by
  have saving : shell settings clock console =
      saveAll clock.seconds final.catalogs.values final := by
    have begun : (get : Program Console) console = .ok console console := rfl
    unfold shell
    rw [bind_of_ok begun, bind_of_ok ended]
    rfl
  have saved := desk_saveAll clock.seconds final.catalogs.values final
  have tried : ∃ code last, codeOf (shell settings clock) console = .ok code last ∧
      last.desk = (stateAfter (saveAll clock.seconds final.catalogs.values) final).desk := by
    show ∃ code last, EStateM.tryCatch (shell settings clock >>= fun _ => pure 0) _ console = _ ∧ _
    unfold EStateM.tryCatch stateAfter
    cases result : saveAll clock.seconds final.catalogs.values final with
    | error failure left =>
        rw [bind_of_error (saving.trans result)]
        cases failure with
        | crash => exact (saveAll_ne_crash _ _ _ _ result).elim
        | _ => exact ⟨1, _, rfl, rfl⟩
    | ok value left =>
        rw [bind_of_ok (saving.trans result)]
        exact ⟨0, left, rfl, rfl⟩
  obtain ⟨code, last, attempted, same⟩ := tried
  obtain ⟨closed, dropped, disk⟩ := closeCatalogs_eq clock.seconds last
  have desk := same.trans saved
  have catalogs_eq : last.catalogs = final.catalogs := congrArg Desk.catalogs desk
  have disk_eq : last.disk = savedDisk clock.seconds final.catalogs.values final.disk :=
    congrArg Desk.disk desk
  unfold Program.complete
  rw [stateAfter_bind_of_ok attempted, stateAfter_bind_of_ok dropped]
  rw [catalogs_eq, disk_eq] at disk
  exact disk

end Closing

section Note

theorem entry?_noteDisk {place : Location} {entry : Entry}
    (found : noteDisk.entry? place = some entry) :
    place = [] ∧ entry = .directory ∨ place = ["note.txt"] ∧ IsFile entry := by
  unfold entry? at found
  by_cases root : place = []
  · rw [if_pos root] at found
    exact .inl ⟨root, (Option.some.inj found).symm⟩
  · rw [if_neg root, OrderedMap.get?_eq_some_iff] at found
    have only : noteDisk.entries.entries =
        [([("note.txt" : Bytes)], .file [0x68, 0x69, 0x20, 0x68, 0x69] 0)] := rfl
    rw [only, List.mem_singleton, Prod.mk.injEq] at found
    exact .inr ⟨found.1, _, _, found.2⟩

theorem isTree_noteDisk : noteDisk.IsTree where
  inside location name found := by
    obtain ⟨entry, there⟩ := Option.isSome_iff_exists.mp found
    rcases entry?_noteDisk there with ⟨root, -⟩ | ⟨file, -⟩
    · simp at root
    · rcases List.append_eq_singleton_iff.mp file with ⟨rfl, -⟩ | ⟨-, none⟩
      · exact entry?_root noteDisk
      · cases none
  working := entry?_root noteDisk

theorem isClean_noteDisk : IsClean noteDisk := by
  intro location name _ entry found
  rcases entry?_noteDisk found with ⟨-, directory⟩ | ⟨-, file⟩
  · exact .inl directory
  · exact .inr file

/-- A console on which a session over the disk of one file begins. -/
def noteConsole (input : String) : Console := ⟨noteDisk, input.toList, "", "", .empty⟩

theorem checked_own : ∀ name ∈ ownNames, checkSpelling (Path.child ⟨"/"⟩ name).bytes = .ok () := by
  intro name own
  rw [checkSpelling_eq_ok]
  revert name
  decide

theorem index_note {catalog : Catalog} :
    catalog.index Settings.standard.extensions noteDisk notePath =
      .ok ([catalog.nextId], (catalog.register note).2) := by
  have looked : noteDisk.look notePath = .ok (.file [0x68, 0x69, 0x20, 0x68, 0x69] 0) := by
    unfold look
    rw [resolve_notePath rfl]
  rw [index_eq]
  unfold Indexable.ofRoot
  rw [looked, ofFile_notePath _ (by decide +kernel)]
  rfl

/-- The line that indexes the file of the disk. -/
theorem indexes_notePath (left : Console) (disk : left.disk = noteDisk)
    (fresh : left.catalogs.get? ⟨"/"⟩ = none) (clock : Clock) :
    let turn : Turn := ⟨left, .index ⟨"/"⟩ notePath⟩
    let before := Catalog.empty ⟨"/"⟩ .empty
    let after := (before.register note).2
    turn.Indexes Settings.standard ⟨"/"⟩ notePath before [1] after ∧
      turn.Succeeds Settings.standard clock ∧
      ∃ changed, after.flush clock.seconds noteDisk = .ok () changed ∧
        (turn.after Settings.standard clock).desk =
          ⟨changed, (left.catalogs.insert ⟨"/"⟩ before).insert ⟨"/"⟩ after⟩ := by
  intro turn before after
  have entered := openCatalog_of_ready fresh (disk ▸ History.isReady_noteDisk)
    (disk ▸ History.holds_noteDisk)
  have held : (left.catalogs.insert ⟨"/"⟩ before).get? ⟨"/"⟩ = some before :=
    OrderedMap.get?_insert_self ..
  have indexed : before.index Settings.standard.extensions left.disk notePath =
      .ok ([1], after) := disk ▸ index_note
  have here : after.directory = ⟨"/"⟩ := directory_register before note
  have ready : IsReady noteDisk after.directory := here ▸ History.isReady_noteDisk
  obtain ⟨changed, written⟩ := flush_eq_ok clock.seconds ready (here ▸ checked_own)
  obtain ⟨desk, succeeds⟩ := indexInto_of_indexed clock
    { left with catalogs := left.catalogs.insert ⟨"/"⟩ before } held indexed
  refine ⟨⟨rfl, _, entered, held, indexed⟩, ?_, changed, written, ?_⟩
  · obtain ⟨done, whole⟩ := succeeds.mpr ⟨changed, disk ▸ written⟩
    exact ⟨done, (bind_of_ok entered).trans whole⟩
  · unfold Turn.after follow
    rw [stateAfter_attempt]
    unfold indexLine
    rw [stateAfter_bind_of_ok entered, desk, ← stateAfter_of_ok written, ← disk]

end Note

section Session

/-- What a line has brought to the disk is there when all catalogs are closed. -/
theorem keeps_of_closed {now : Int} {final : Console} {path : Path} {promised : Snapshot}
    (keeps : final.desk.Keeps path promised) (sound : final.desk.Sound) (apart : final.desk.Apart)
    {saved dropped : List Catalog} (all : saved.Perm final.catalogs.values)
    (each : dropped.Perm final.catalogs.values) :
    Desk.Keeps ⟨droppedDisk now dropped (savedDisk now saved final.disk), final.catalogs⟩ path
      promised := by
  have saving : Desk.Moves final.desk ⟨savedDisk now saved final.disk, final.catalogs⟩ :=
    moves_savedDisk saved fun _ member => all.mem_iff.mp member
  have dropping : Desk.Moves ⟨savedDisk now saved final.disk, final.catalogs⟩
      ⟨droppedDisk now dropped (savedDisk now saved final.disk), final.catalogs⟩ :=
    moves_droppedDisk dropped fun _ member => each.mem_iff.mp member
  have whole := saving.trans dropping
  exact keeps.of_moves sound whole (apart.of_catalogs_eq sound (sound.of_moves whole).2 rfl)

/-- Whatever a line of a session has indexed is found in its directory when the session is over, in
whatever order the open catalogs are saved and dropped, unless a directory was opened under two
names that are not taken for one. -/
theorem kept_of_shell {console final : Console} (unopened : console.catalogs = .empty)
    (tree : console.disk.IsTree) (clean : IsClean console.disk)
    (ended : shellLines settings clock (console.input.length + 1) console = .ok () final)
    (apart : final.desk.Apart)
    (room : ∀ turn ∈ turns settings clock (console.input.length + 1) console,
      turn.HasRoom settings) :
    (stateAfter (Program.complete clock.seconds (shell settings clock)) console).disk =
        droppedDisk clock.seconds final.catalogs.values
          (savedDisk clock.seconds final.catalogs.values final.disk) ∧
      ∀ turn ∈ turns settings clock (console.input.length + 1) console,
      ∀ directory path before ids after, turn.Indexes settings directory path before ids after →
      turn.Succeeds settings clock →
      ∀ saved dropped : List Catalog, saved.Perm final.catalogs.values →
      dropped.Perm final.catalogs.values →
      let disk := droppedDisk clock.seconds dropped (savedDisk clock.seconds saved final.disk)
      ∃ location, disk.Leads directory location ∧
      ∀ name, disk.resolve name = .ok (.taken location .directory) →
        checkSpelling (snapshotPath name).bytes = .ok () →
        ∃ found, Catalog.load disk name = .ok found ∧ ∀ id ∈ ids,
          (after.document? id).isSome = true ∧
            found.document? id = (after.document? id).map Document.written ∧
            ∀ word, found.places word id = after.places word id := by
  refine ⟨disk_complete_shell ended, ?_⟩
  intro turn member directory path before ids after indexes succeeds saved dropped all each disk
  have sound : console.desk.Sound := by
    refine ⟨tree, clean, fun path catalog held => ?_⟩
    have none : console.catalogs.get? path = none := unopened ▸ rfl
    cases none.symm.trans held
  obtain ⟨moves, lines⟩ := moves_of_turns _ sound room ended
  obtain ⟨sound_turn, named, rest⟩ := lines turn member
  rw [indexes.line] at named
  obtain ⟨following, kept⟩ := Turn.moves_index clock indexes.line sound_turn named
    (room turn member)
  have sound_after := (sound_turn.of_moves following).1
  obtain ⟨adds, keeping⟩ := kept before ids after indexes
  have keeps := (keeping succeeds).of_moves sound_after rest apart
  obtain ⟨location, leads, found⟩ :=
    (keeps_of_closed keeps (sound.of_moves moves).1 apart all each).load
  refine ⟨location, leads, fun name resolves checked => ?_⟩
  obtain ⟨catalog, loaded, extension⟩ := found name resolves checked
  refine ⟨catalog, loaded, fun id given => ?_⟩
  have filed := adds.filed id given
  obtain ⟨document, stored⟩ := Option.isSome_iff_exists.mp filed
  have taken := (adds.consistent.of_get? stored).2
  refine ⟨filed, (extension.documents id taken).trans (Snapshot.get?_written ..), fun word => ?_⟩
  rw [← places_snapshot, ← places_snapshot]
  exact extension.places id taken word

/-- A file that was indexed in a session is there when the session is over. -/
theorem kept_of_shell_indexed :
    let settings := Settings.standard
    let clock : Clock := ⟨0, 0, .world⟩
    let console := noteConsole "index / /note.txt\n"
    ∃ final, console.catalogs = .empty ∧ console.disk.IsTree ∧ IsClean console.disk ∧
      shellLines settings clock (console.input.length + 1) console = .ok () final ∧
      final.desk.Apart ∧
      (∀ turn ∈ turns settings clock (console.input.length + 1) console, turn.HasRoom settings) ∧
      ∃ found, Catalog.load
          (stateAfter (Program.complete clock.seconds (shell settings clock)) console).disk ⟨"/"⟩ =
            .ok found ∧ (found.document? 1).isSome = true := by
  intro settings clock console
  let left : Console := ⟨noteDisk, [], "> ", "", .empty⟩
  have next : nextLine (stateAfter (print "> ") console) =
      .ok (some "index / /note.txt".toList) left :=
    nextLine_of_input (by decide) (by decide) (by decide)
  have line : ShellLine.ofText "index / /note.txt".toList = .index ⟨"/"⟩ notePath := by
    decide +kernel
  have fuel : console.input.length = 17 + 1 := by decide
  obtain ⟨indexes, succeeds, changed, -, desk⟩ := indexes_notePath left rfl rfl clock
  obtain ⟨shell, followed⟩ := shellLines_of_read settings clock console.input.length next
    (by rw [line]; exact ShellLine.noConfusion) (line ▸ succeeds.goesOn rfl)
  rw [line] at shell followed
  have read : (Turn.after ⟨left, .index ⟨"/"⟩ notePath⟩ settings clock).input = [] :=
    keepsInput_follow ..
  obtain ⟨final, ended, same, none⟩ :=
    shellLines_of_empty settings clock read 17
  rw [← fuel] at ended none
  rw [none] at followed
  have values : final.desk.catalogs.values = [((Catalog.empty ⟨"/"⟩ .empty).register note).2] := by
    rw [same, desk]
    rfl
  have apart : final.desk.Apart := by
    intro one member other known _ _ _
    rw [values, List.mem_singleton] at member known
    rw [member, known]
  have room : ∀ turn ∈ turns settings clock (console.input.length + 1) console,
      turn.HasRoom settings := by
    intro turn member directory path before ids after other
    rw [followed, List.mem_singleton] at member
    obtain ⟨rfl, rfl, rfl⟩ := (member ▸ indexes).unique other
    exact ⟨by decide, by decide +kernel⟩
  refine ⟨final, rfl, isTree_noteDisk, isClean_noteDisk, shell.trans ended, apart, room, ?_⟩
  obtain ⟨closed, kept⟩ := kept_of_shell rfl isTree_noteDisk isClean_noteDisk (shell.trans ended)
    apart room
  obtain ⟨location, leads, found⟩ := kept ⟨left, .index ⟨"/"⟩ notePath⟩
    (followed ▸ List.mem_singleton_self _) _ _ _ _ _ indexes succeeds _ _ (.refl _) (.refl _)
  rw [← closed] at leads found
  have root := resolve_slash
    (stateAfter (Program.complete clock.seconds (Program.shell settings clock)) console).disk
  have here : location = [] := leads.unique (leads_of_resolve root)
  obtain ⟨catalog, loaded, held⟩ := found ⟨"/"⟩ (here ▸ root) (checked_own "meta" (by decide))
  obtain ⟨filed, stored, -⟩ := held 1 (List.mem_singleton_self 1)
  exact ⟨catalog, loaded, by rw [stored, Option.isSome_map, filed]⟩

theorem resolve_parent (disk : Disk) : disk.resolve ⟨"/.."⟩ = .ok (.taken [] .directory) := by
  have checked : checkSpelling ("/.." : Bytes) = .ok () := checkSpelling_eq_ok.mpr (by decide)
  have pieces : Path.pieces ⟨"/.."⟩ = [[], [Path.dot, Path.dot]] := by decide
  refine resolve_eq_ok.mpr ⟨checked, ?_⟩
  unfold walkFrom
  rw [pieces, walk_blank (.inl rfl), walk_up, walk_nil]
  rfl

/-- A catalog has one of the names of the root. -/
def IsOfRoot (catalog : Catalog) : Prop :=
  catalog.directory = ⟨"/"⟩ ∨ catalog.directory = ⟨"/.."⟩

/-- A catalog of the root can be written under either of its names, and is read under the first. -/
theorem flush_of_root {disk : Disk} {catalog : Catalog} (now : Int)
    (plain : Plain disk ⟨"/"⟩ ownNames []) (root : IsOfRoot catalog) :
    ∃ changed, catalog.flush now disk = .ok () changed ∧ Plain changed ⟨"/"⟩ ownNames [] ∧
      changed.read (snapshotPath ⟨"/"⟩) = .ok catalog.snapshot.write := by
  have resolves (disk : Disk) : disk.resolve catalog.directory = .ok (.taken [] .directory) := by
    rcases root with same | same
    · rw [same, resolve_slash]
    · rw [same, resolve_parent]
  have checked : ∀ name ∈ ownNames, checkSpelling (catalog.directory.child name).bytes = .ok () := by
    rcases root with same | same <;> rw [same]
    · exact checked_own
    · intro name own
      rw [checkSpelling_eq_ok]
      revert name
      decide
  have ready : IsReady disk catalog.directory := ⟨[], resolves disk, plain.regular, plain.bare⟩
  obtain ⟨changed, written⟩ := flush_eq_ok now ready checked
  obtain ⟨⟨location, after⟩, read⟩ := read_of_flush ready written
  obtain rfl : location = [] :=
    (leads_of_resolve after.resolves).unique (leads_of_resolve (resolves changed))
  have here : Plain changed ⟨"/"⟩ ownNames [] := ⟨resolve_slash changed, after.regular, after.bare⟩
  have own : ("meta" : Bytes) ∈ ownNames := by decide
  refine ⟨changed, written, here, ?_⟩
  rcases after.regular "meta" own with free | ⟨content, modified, found⟩
  · unfold Disk.read look snapshotPath at read
    rw [after.resolve_free (isFileName_of_mem own) (checked _ own) free] at read
    cases read
  · have same := after.read_file (isFileName_of_mem own) (checked _ own) found
    rw [show snapshotPath ⟨"/"⟩ = Path.child ⟨"/"⟩ "meta" from rfl,
      here.read_file (isFileName_of_mem own) (checked_own _ own) found, ← same]
    exact read

/-- Saving catalogs in the root keeps it plain. -/
theorem plain_savedDisk (now : Int) (catalogs : List Catalog) {disk : Disk}
    (plain : Plain disk ⟨"/"⟩ ownNames []) (root : ∀ catalog ∈ catalogs, IsOfRoot catalog) :
    Plain (savedDisk now catalogs disk) ⟨"/"⟩ ownNames [] := by
  induction catalogs generalizing disk with
  | nil => exact plain
  | cons catalog rest ih =>
      obtain ⟨changed, written, after, -⟩ := flush_of_root now plain (root _ List.mem_cons_self)
      rw [savedDisk, written]
      exact ih after fun other member => root other (List.mem_cons_of_mem _ member)

/-- Of several catalogs of the root the one that is dropped last stays on the disk. -/
theorem read_droppedDisk (now : Int) (catalogs : List Catalog) {last : Catalog} {disk : Disk}
    (plain : Plain disk ⟨"/"⟩ ownNames [])
    (root : ∀ catalog ∈ catalogs ++ [last], IsOfRoot catalog) :
    (droppedDisk now (catalogs ++ [last]) disk).read (snapshotPath ⟨"/"⟩) =
      .ok last.snapshot.write := by
  induction catalogs generalizing disk with
  | nil =>
      obtain ⟨changed, written, -, read⟩ := flush_of_root now plain (root _ List.mem_cons_self)
      show (stateAfter (last.flush now) disk).read _ = _
      rw [stateAfter_of_ok written, read]
  | cons catalog rest ih =>
      obtain ⟨changed, written, after, -⟩ := flush_of_root now plain (root _ List.mem_cons_self)
      rw [List.cons_append, droppedDisk, stateAfter_of_ok written]
      exact ih after fun other member => root other (List.mem_cons_of_mem _ member)

/-- When catalogs of the root are saved and dropped, the content of the last is what is loaded. -/
theorem load_of_closed (now : Int) (catalogs : List Catalog) {last : Catalog} {disk : Disk}
    (plain : Plain disk ⟨"/"⟩ ownNames [])
    (root : ∀ catalog ∈ catalogs ++ [last], IsOfRoot catalog)
    (consistent : last.snapshot.Consistent) (fits : last.snapshot.write.length < UInt64.size) :
    ∃ found, Catalog.load (droppedDisk now (catalogs ++ [last])
        (savedDisk now (catalogs ++ [last]) disk)) ⟨"/"⟩ = .ok found ∧
      found.snapshot = last.snapshot.written := by
  have stored := read_droppedDisk now catalogs (plain_savedDisk now _ plain root) root
  rw [load_of_resolve (resolve_slash _), readSnapshot_eq stored,
    Snapshot.ofBytes_write consistent fits]
  exact ⟨_, rfl, rfl⟩

/-- A search under the longer name of the root opens an empty catalog there. -/
theorem desk_of_search_parent (left : Console) (disk : left.disk = noteDisk)
    (unopened : left.catalogs = .empty) (settings : Settings) (clock : Clock) (query : String) :
    let turn : Turn := ⟨left, .search ⟨"/.."⟩ query⟩
    turn.GoesOn settings clock ∧ ∃ known : Catalog, known.directory = ⟨"/.."⟩ ∧
      known.snapshot = (Catalog.empty ⟨"/.."⟩ .empty).snapshot ∧
      (turn.after settings clock).desk = ⟨noteDisk, OrderedMap.empty.insert ⟨"/.."⟩ known⟩ := by
  have plain : Plain noteDisk ⟨"/.."⟩ ownNames [] :=
    ⟨resolve_parent noteDisk, History.plain_noteDisk.regular, History.plain_noteDisk.bare⟩
  have unwritten : noteDisk.holds (snapshotPath ⟨"/.."⟩) = false := by
    have free := plain.resolve_free (isFileName_of_mem (by decide))
      (checkSpelling_eq_ok.mpr (by decide)) (by decide : noteDisk.entry? ["meta"] = none)
    unfold Disk.holds look snapshotPath
    rw [free]
  have fresh : left.catalogs.get? ⟨"/.."⟩ = none := unopened ▸ rfl
  have entered := openCatalog_of_ready fresh (disk ▸ ⟨[], plain⟩) (disk ▸ unwritten)
  have held := OrderedMap.get?_insert_self left.catalogs ⟨"/.."⟩ (Catalog.empty ⟨"/.."⟩ .empty)
  intro turn
  constructor
  · apply attempt_of_ne_crash
    unfold searchLine
    rw [bind_of_ok entered]
    exact searchIn_ne_crash settings clock query held (by decide)
  unfold Turn.after follow
  rw [stateAfter_attempt]
  unfold searchLine
  rw [stateAfter_bind_of_ok entered, ← disk, ← unopened]
  rcases searchIn_of_opened settings clock query
    { left with catalogs := left.catalogs.insert ⟨"/.."⟩ (.empty ⟨"/.."⟩ .empty) } held with
    same | ⟨known, named, content, same⟩
  · exact ⟨_, rfl, rfl, same⟩
  · refine ⟨known, named, content, same.trans ?_⟩
    rw [unopened]
    rfl

/-- The root has two names, and a catalog that was opened under one of them writes over the file
that was indexed under the other. -/
theorem lost_of_spellings :
    let settings := Settings.standard
    let clock : Clock := ⟨0, 0, .world⟩
    let console := noteConsole "search /.. x\nindex / /note.txt\n"
    ∃ turn ∈ turns settings clock (console.input.length + 1) console, ∃ before after,
      turn.Indexes settings ⟨"/"⟩ notePath before [1] after ∧ turn.Succeeds settings clock ∧
      (after.document? 1).isSome = true ∧
      ∃ found, Catalog.load
          (stateAfter (Program.complete clock.seconds (shell settings clock)) console).disk ⟨"/"⟩ =
            .ok found ∧ found.document? 1 = none := by
  intro settings clock console
  let left : Console := ⟨noteDisk, "index / /note.txt\n".toList, "> ", "", .empty⟩
  let searching : Turn := ⟨left, .search ⟨"/.."⟩ "x"⟩
  -- The search opens an empty catalog under the longer name.
  have next : nextLine (stateAfter (print "> ") console) = .ok (some "search /.. x".toList) left :=
    nextLine_of_input (by decide) (by decide) (by decide)
  have line : ShellLine.ofText "search /.. x".toList = .search ⟨"/.."⟩ "x" := by decide +kernel
  have fuel : console.input.length = 29 + 1 + 1 := by decide
  obtain ⟨calm, known, named, content, middle⟩ :=
    desk_of_search_parent left rfl rfl settings clock "x"
  obtain ⟨shell_first, turns_first⟩ := shellLines_of_read settings clock console.input.length next
    (by rw [line]; exact ShellLine.noConfusion) (line ▸ calm)
  rw [line] at shell_first turns_first
  -- The file is indexed under the shorter name.
  let after := ((Catalog.empty ⟨"/"⟩ .empty).register note).2
  let waiting := searching.after settings clock
  let indexing : Turn :=
    ⟨{ waiting with input := [], output := waiting.output ++ "> " }, .index ⟨"/"⟩ notePath⟩
  have input : waiting.input = "index / /note.txt".toList ++ '\n' :: [] := keepsInput_follow ..
  have next : nextLine (stateAfter (print "> ") waiting) =
      .ok (some "index / /note.txt".toList) indexing.console :=
    nextLine_of_input input (by decide) (by decide)
  have line : ShellLine.ofText "index / /note.txt".toList = .index ⟨"/"⟩ notePath := by
    decide +kernel
  have disk : indexing.console.disk = noteDisk := congrArg Desk.disk middle
  have catalogs : indexing.console.catalogs = OrderedMap.empty.insert ⟨"/.."⟩ known :=
    congrArg Desk.catalogs middle
  obtain ⟨indexes, succeeds, changed, written, desk⟩ :=
    indexes_notePath indexing.console disk (catalogs ▸ rfl) clock
  obtain ⟨shell_second, turns_second⟩ := shellLines_of_read settings clock (29 + 1) next
    (by rw [line]; exact ShellLine.noConfusion) (line ▸ succeeds.goesOn rfl)
  rw [line] at shell_second turns_second
  have read : (indexing.after settings clock).input = [] := keepsInput_follow ..
  obtain ⟨final, ended, same, -⟩ :=
    shellLines_of_empty settings clock read 29
  have whole : shellLines settings clock (console.input.length + 1) console = .ok () final :=
    shell_first.trans (fuel ▸ shell_second.trans ended)
  have values : final.catalogs.values = [after, known] := by
    rw [show final.catalogs = _ from congrArg Desk.catalogs (same.trans desk), catalogs]
    rfl
  refine ⟨indexing, ?_, _, _, indexes, succeeds, ?_, ?_⟩
  · rw [turns_first, fuel, turns_second]
    exact List.mem_cons_of_mem _ List.mem_cons_self
  · decide +kernel
  -- Both catalogs are saved and then dropped, the empty one after the other.
  have root : ∀ catalog ∈ [after] ++ [known], IsOfRoot catalog := by
    intro catalog member
    rcases List.mem_pair.mp member with rfl | rfl
    · exact .inl (directory_register _ note)
    · exact .inr named
  obtain ⟨_, again, plain, -⟩ :=
    flush_of_root clock.seconds History.plain_noteDisk (root after List.mem_cons_self)
  cases written.symm.trans again
  obtain ⟨found, loaded, snapshot⟩ := load_of_closed clock.seconds [after] plain root
    (content ▸ (faithful_empty _ _ .none).consistent) (content ▸ by decide)
  have closed := disk_complete_shell whole
  rw [show final.disk = changed from congrArg Desk.disk (same.trans desk), values] at closed
  have documents := congrArg Snapshot.documents (snapshot.trans (congrArg Snapshot.written content))
  exact ⟨found, closed ▸ loaded, congrArg (·.get? 1) documents⟩

end Session

end Concordance.CommandLine
