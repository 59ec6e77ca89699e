import Concordance.CommandLine.Run
import Concordance.Proofs.CommandLine.Desk
import Concordance.Proofs.Retrieval.Search

namespace Concordance.CommandLine

open Disk Catalog Program

namespace Program

/-- Opens a catalog and indexes a path into it. -/
def indexLine (settings : Settings) (clock : Clock) (directory path : Path) : Program Unit := do
  openCatalog directory
  indexInto settings clock directory path

/-- Opens a catalog and searches it. -/
def searchLine (settings : Settings) (clock : Clock) (directory : Path) (query : String) :
    Program Unit := do
  openCatalog directory
  searchIn settings clock directory query false

/-- What the shell does with a line. -/
def follow (settings : Settings) (clock : Clock) : ShellLine → Program Unit
  | .index directory path => attempt (indexLine settings clock directory path)
  | .search directory query => attempt (searchLine settings clock directory query)
  | .misuse command argument => warnLine s!"usage: {command} <db> <{argument}>"
  | .unknown command => warnLine s!"unknown command '{command}'"
  | .quit | .blank => return

end Program

/-- A line and the console that it is followed on. -/
structure Turn where
  console : Console
  line : ShellLine

/-- The lines that the shell follows, at most so many of them. -/
def turns (settings : Settings) (clock : Clock) : Nat → Console → List Turn
  | 0, _ => []
  | fuel + 1, console =>
      match nextLine (stateAfter (print "> ") console) with
      | .ok (some text) left =>
          match ShellLine.ofText text with
          | .quit => []
          | line => ⟨left, line⟩ ::
              match follow settings clock line left with
              | .ok _ next => turns settings clock fuel next
              | .error _ _ => []
      | _ => []

/-- The line has opened a catalog and indexed a path into it. -/
structure Turn.Indexes (turn : Turn) (settings : Settings) (directory path : Path)
    (before : Catalog) (ids : List DocId) (after : Catalog) : Prop where
  line : turn.line = .index directory path
  indexed : ∃ opened, openCatalog directory turn.console = .ok () opened ∧
    opened.catalogs.get? directory = some before ∧
    before.index settings.extensions opened.disk path = .ok (ids, after)

/-- The numbers that a line gives and the bytes that it writes can be counted. -/
def Turn.HasRoom (turn : Turn) (settings : Settings) : Prop :=
  ∀ directory path before ids after, turn.Indexes settings directory path before ids after →
    before.nextId.toNat + ids.length < UInt64.size ∧ after.snapshot.write.length < UInt64.size

/-- The console after the line has been followed. -/
def Turn.after (turn : Turn) (settings : Settings) (clock : Clock) : Console :=
  stateAfter (follow settings clock turn.line) turn.console

/-- The line does not crash. -/
def Turn.GoesOn (turn : Turn) (settings : Settings) (clock : Clock) : Prop :=
  ∃ last, follow settings clock turn.line turn.console = .ok () last

/-- The line was followed without a failure. -/
def Turn.Succeeds (turn : Turn) (settings : Settings) (clock : Clock) : Prop :=
  match turn.line with
  | .index directory path =>
      ∃ done, indexLine settings clock directory path turn.console = .ok () done
  | .search directory query =>
      ∃ done, searchLine settings clock directory query turn.console = .ok () done
  | _ => True

section Showing

/-- A program that only shows something. -/
def IsQuiet (program : Program Unit) : Prop :=
  ∀ console, ∃ last, program console = .ok () last ∧ last.desk = console.desk

/-- Quiet programs one after another are quiet. -/
theorem isQuiet_bind {first second : Program Unit} (quiet : IsQuiet first)
    (silent : IsQuiet second) : IsQuiet (do first; second) := by
  intro console
  obtain ⟨middle, head, same⟩ := quiet console
  obtain ⟨last, rest, equal⟩ := silent middle
  exact ⟨last, (bind_of_ok head).trans rest, equal.trans same⟩

theorem isQuiet_print (text : String) : IsQuiet (print text) :=
  fun console => ⟨{ console with output := console.output ++ text }, rfl, rfl⟩

theorem isQuiet_warn (text : String) : IsQuiet (warn text) :=
  fun console => ⟨{ console with errors := console.errors ++ text }, rfl, rfl⟩

theorem isQuiet_printLines (lines : List String) : IsQuiet (printLines lines) := by
  unfold printLines
  induction lines with
  | nil => exact fun console => ⟨console, rfl, rfl⟩
  | cons line rest ih =>
      show IsQuiet (do printLine line; rest.forM printLine)
      exact isQuiet_bind (isQuiet_print _) ih

/-- A quiet program leaves the desk as it is. -/
theorem desk_stateAfter {program : Program Unit} (quiet : IsQuiet program) (console : Console) :
    (stateAfter program console).desk = console.desk := by
  obtain ⟨last, whole, same⟩ := quiet console
  rw [stateAfter_of_ok whole, same]

end Showing

section Lines

variable {settings : Settings} {clock : Clock} {directory path : Path} {console : Console}

/-- What is done to the disk never stops the program by itself. -/
theorem act_eq {α : Type} (action : Disk.Action α) (console : Console) :
    act action console = .ok
      (match action console.disk with
        | .ok value _ => .ok value
        | .error fault _ => .error fault)
      { console with disk := stateAfter action console.disk } := by
  unfold act stateAfter
  cases action console.disk <;> rfl

/-- What does not crash can be attempted. -/
theorem attempt_of_ne_crash {program : Program Unit}
    (calm : ∀ left, program console ≠ .error .crash left) :
    ∃ last, attempt program console = .ok () last := by
  unfold attempt
  cases result : program console with
  | ok value last => exact ⟨last, rfl⟩
  | error failure last =>
      cases failure with
      | crash => exact absurd result (calm last)
      | _ => exact ⟨last, rfl⟩

/-- What is attempted changes what it changes by itself. -/
theorem stateAfter_attempt (program : Program Unit) (console : Console) :
    stateAfter (attempt program) console = stateAfter program console := by
  unfold stateAfter attempt
  cases program console with
  | ok value last => rfl
  | error failure last => cases failure <;> rfl

theorem catalogAt_eq {catalog : Catalog} (held : console.catalogs.get? directory = some catalog) :
    catalogAt directory console = .ok catalog console := by
  have whole : catalogAt directory console =
      .ok ((console.catalogs.get? directory).getD (.empty directory .empty)) console := rfl
  rw [whole, held]
  rfl

theorem setCatalog_eq (directory : Path) (catalog : Catalog) (console : Console) :
    setCatalog directory catalog console =
      .ok () { console with catalogs := console.catalogs.insert directory catalog } := rfl

/-- Opening a catalog makes directories, and puts in a catalog that was not open yet. -/
theorem moves_openCatalog (sound : console.desk.Sound) (filled : directory.bytes ≠ []) :
    Desk.Moves console.desk (stateAfter (openCatalog directory) console).desk ∧
      ∀ opened, openCatalog directory console = .ok () opened →
        ∃ catalog, opened.catalogs.get? directory = some catalog := by
  have begun : (get : Program Console) console = .ok console console := rfl
  unfold openCatalog
  rw [stateAfter_bind_of_ok begun, bind_of_ok begun]
  by_cases known : console.catalogs.contains directory = true
  · rw [if_pos known]
    refine ⟨.refl, fun opened whole => ?_⟩
    cases whole
    exact Option.isSome_iff_exists.mp known
  · rw [if_neg known]
    have tried := act_eq (loadOrCreate directory) console
    obtain ⟨evolves, loaded⟩ := evolves_loadOrCreate sound.tree filled
    have grown : Desk.Move console.desk
        ⟨stateAfter (loadOrCreate directory) console.disk, console.catalogs⟩ := .grow _ evolves
    rw [stateAfter_bind_of_ok tried, bind_of_ok tried]
    cases result : loadOrCreate directory console.disk with
    | error fault left =>
        have refused : ∀ console : Console, ∃ failure,
            (if fault.requiresRebuild then throw (.unusable directory fault)
              else throw (.fault fault) : Program Unit) console = .error failure console := by
          intro console
          split <;> exact ⟨_, rfl⟩
        obtain ⟨failure, stopped⟩ := refused
          { console with disk := stateAfter (loadOrCreate directory) console.disk }
        refine ⟨.single ?_, fun opened whole => nomatch stopped.symm.trans whole⟩
        rw [stateAfter_of_error stopped]
        exact grown
    | ok catalog left =>
        obtain ⟨rfl, there, consistent⟩ := loaded catalog left result
        have fresh : console.catalogs.get? catalog.directory = none := by
          rw [← Option.not_isSome_iff_eq_none]
          exact known
        have entered : Desk.Move ⟨left, console.catalogs⟩
            ⟨left, console.catalogs.insert catalog.directory catalog⟩ :=
          .enter fresh there consistent
        rw [stateAfter_of_ok result] at grown ⊢
        refine ⟨.tail (.single grown) entered, fun opened whole => ⟨catalog, ?_⟩⟩
        cases whole
        exact OrderedMap.get?_insert_self ..

/-- A failure on the disk stops the program that asks for success. -/
theorem require_act_eq (action : Disk.Action Unit) (console : Console) :
    (do require (← act action) : Program Unit) console =
      match action console.disk with
      | .ok _ disk => .ok () { console with disk := disk }
      | .error fault disk => .error (.fault fault) { console with disk := disk } := by
  rw [bind_of_ok (act_eq action console)]
  unfold stateAfter
  cases action console.disk <;> rfl

/-- Saving an open catalog writes it to its directory. -/
theorem saveCatalog_eq (console : Console) {catalog : Catalog}
    (held : console.catalogs.get? directory = some catalog) (now : Int) :
    saveCatalog directory now console =
      match catalog.flush now console.disk with
      | .ok _ disk => .ok () { console with disk := disk }
      | .error fault disk => .error (.fault fault) { console with disk := disk } := by
  unfold saveCatalog
  rw [bind_of_ok (catalogAt_eq held)]
  exact require_act_eq _ console

/-- A directory without a snapshot is opened as an empty catalog. -/
theorem openCatalog_of_ready (fresh : console.catalogs.get? directory = none)
    (ready : IsReady console.disk directory)
    (unwritten : console.disk.holds (snapshotPath directory) = false) :
    openCatalog directory console = .ok ()
      { console with catalogs := console.catalogs.insert directory (empty directory .empty) } := by
  have begun : (get : Program Console) console = .ok console console := rfl
  have unknown : console.catalogs.contains directory = false :=
    OrderedMap.contains_eq_false.mpr fresh
  have made := loadOrCreate_of_unwritten ready unwritten
  have tried := act_eq (loadOrCreate directory) console
  rw [made, stateAfter_of_ok made] at tried
  unfold openCatalog
  rw [bind_of_ok begun, unknown, if_neg Bool.false_ne_true, bind_of_ok tried]
  rfl

/-- A path that cannot be indexed leaves everything as it is. -/
theorem indexInto_of_refused (clock : Clock) {before : Catalog} {fault : Fault}
    (held : console.catalogs.get? directory = some before)
    (refused : before.index settings.extensions console.disk path = .error fault) :
    indexInto settings clock directory path console = .error (.fault fault) console := by
  have begun : (get : Program Console) console = .ok console console := rfl
  unfold indexInto
  rw [bind_of_ok (catalogAt_eq held), bind_of_ok begun, refused]
  rfl

/-- A path that is indexed changes the open catalog, which is then written. The line succeeds when
the catalog can be written. -/
theorem indexInto_of_indexed (clock : Clock) (console : Console) {before after : Catalog}
    {ids : List DocId}
    (held : console.catalogs.get? directory = some before)
    (indexed : before.index settings.extensions console.disk path = .ok (ids, after)) :
    (stateAfter (indexInto settings clock directory path) console).desk =
        ⟨stateAfter (after.flush clock.seconds) console.disk,
          console.catalogs.insert directory after⟩ ∧
      ((∃ done, indexInto settings clock directory path console = .ok () done) ↔
        ∃ left, after.flush clock.seconds console.disk = .ok () left) := by
  have begun : (get : Program Console) console = .ok console console := rfl
  have given : require (.ok (ids, after)) console = .ok (ids, after) console := rfl
  have known : (console.catalogs.insert directory after).get? directory = some after :=
    OrderedMap.get?_insert_self ..
  have saved := saveCatalog_eq
    { console with catalogs := console.catalogs.insert directory after } known clock.seconds
  have quiet : IsQuiet (do
      printLine s!"Indexed {ids.length} documents from {path.text}"
      printLine s!"  Documents:   {after.documents.size}"
      printLine s!"  Terms:       {after.terms.size}"
      printLine s!"  Time:        {durationText 2 1000000000 clock.elapsedNanos}s") :=
    isQuiet_bind (isQuiet_print _) (isQuiet_bind (isQuiet_print _)
      (isQuiet_bind (isQuiet_print _) (isQuiet_print _)))
  have whole : indexInto settings clock directory path console = (do
      saveCatalog directory clock.seconds
      printLine s!"Indexed {ids.length} documents from {path.text}"
      printLine s!"  Documents:   {after.documents.size}"
      printLine s!"  Terms:       {after.terms.size}"
      printLine s!"  Time:        {durationText 2 1000000000 clock.elapsedNanos}s" : Program Unit)
      { console with catalogs := console.catalogs.insert directory after } := by
    unfold indexInto
    rw [bind_of_ok (catalogAt_eq held), bind_of_ok begun, indexed, bind_of_ok given]
    exact bind_of_ok (setCatalog_eq ..)
  unfold stateAfter at *
  rw [whole]
  cases flushed : after.flush clock.seconds console.disk with
  | error fault left =>
      simp only [flushed] at saved
      rw [bind_of_error saved]
      refine ⟨rfl, ?_, ?_⟩
      · rintro ⟨done, failed⟩
        cases failed
      · rintro ⟨written, failed⟩
        cases failed
  | ok value left =>
      simp only [flushed] at saved
      rw [bind_of_ok saved]
      obtain ⟨last, shown, same⟩ := quiet
        { console with catalogs := console.catalogs.insert directory after, disk := left }
      rw [shown]
      exact ⟨same, fun _ => ⟨left, rfl⟩, fun _ => ⟨last, rfl⟩⟩

/-- A search that is answered is remembered in the log of the catalog. -/
theorem searchIn_of_found (clock : Clock) {query : String} {before : Catalog}
    {hits : List Retrieval.Hit} (held : console.catalogs.get? directory = some before)
    (found : Retrieval.searchText settings before console.disk query = .ok hits) :
    ∃ last, searchIn settings clock directory query false console = .ok () last ∧
      last.desk = ⟨console.disk, console.catalogs.insert directory
        (Retrieval.remember before clock query hits)⟩ := by
  have begun : (get : Program Console) console = .ok console console := rfl
  have given : requireAnswer ((.ok hits : Except Retrieval.Abort (List Retrieval.Hit)) >>=
      fun hits => return (hits, Retrieval.remember before clock query hits)) console =
      .ok (hits, Retrieval.remember before clock query hits) console := rfl
  obtain ⟨last, shown, same⟩ := isQuiet_bind (isQuiet_printLines (hits.flatMap hitLines))
    (isQuiet_bind (isQuiet_warn _) (isQuiet_warn _)) { console with
      catalogs := console.catalogs.insert directory (Retrieval.remember before clock query hits) }
  refine ⟨last, ?_, same⟩
  unfold searchIn
  rw [bind_of_ok (catalogAt_eq held), bind_of_ok begun]
  unfold Retrieval.search
  rw [found]
  exact (bind_of_ok given).trans ((bind_of_ok (setCatalog_eq ..)).trans shown)

/-- A search without an answer leaves everything as it is. -/
theorem searchIn_of_abort (clock : Clock) {query : String} {before : Catalog}
    {abort : Retrieval.Abort} (held : console.catalogs.get? directory = some before)
    (stopped : Retrieval.searchText settings before console.disk query = .error abort) :
    searchIn settings clock directory query false console =
      .error (.ofAbort abort) console := by
  have begun : (get : Program Console) console = .ok console console := rfl
  unfold searchIn
  rw [bind_of_ok (catalogAt_eq held), bind_of_ok begun]
  unfold Retrieval.search
  rw [stopped]
  rfl

/-- Searching an open catalog changes its log only. -/
theorem searchIn_of_opened (settings : Settings) (clock : Clock) (query : String)
    (console : Console) {before : Catalog}
    (held : console.catalogs.get? directory = some before) :
    (stateAfter (searchIn settings clock directory query false) console).desk = console.desk ∨
      ∃ after : Catalog, after.directory = before.directory ∧ after.snapshot = before.snapshot ∧
        (stateAfter (searchIn settings clock directory query false) console).desk =
          ⟨console.disk, console.catalogs.insert directory after⟩ := by
  cases found : Retrieval.searchText settings before console.disk query with
  | error abort =>
      rw [stateAfter_of_error (searchIn_of_abort clock held found)]
      exact .inl rfl
  | ok hits =>
      obtain ⟨last, whole, same⟩ := searchIn_of_found clock held found
      rw [stateAfter_of_ok whole]
      exact .inr ⟨Retrieval.remember before clock query hits, rfl, rfl, same⟩

/-- Searching an open catalog does not crash as long as its counter has not come back to 0. -/
theorem searchIn_ne_crash (settings : Settings) (clock : Clock) (query : String)
    {console : Console} {before : Catalog}
    (held : console.catalogs.get? directory = some before) (unwrapped : before.nextId ≠ 0)
    (left : Console) : searchIn settings clock directory query false console ≠ .error .crash left := by
  cases found : Retrieval.searchText settings before console.disk query with
  | error abort =>
      rw [searchIn_of_abort clock held found]
      cases abort with
      | fault cause => exact nofun
      | crash => exact (Retrieval.searchText_ne_crash unwrapped _ _ _ found).elim
  | ok hits =>
      obtain ⟨last, whole, -⟩ := searchIn_of_found clock held found
      rw [whole]
      exact nofun

/-- The catalog that a path has been indexed into, and the moves that this takes. -/
theorem moves_of_indexed (clock : Clock) {before after : Catalog} {ids : List DocId}
    (sound : console.desk.Sound)
    (held : console.catalogs.get? directory = some before)
    (indexed : before.index settings.extensions console.disk path = .ok (ids, after))
    (room : before.nextId.toNat + ids.length < UInt64.size)
    (fits : after.snapshot.write.length < UInt64.size) :
    Desk.Moves console.desk (stateAfter (indexInto settings clock directory path) console).desk ∧
      ((∃ done, indexInto settings clock directory path console = .ok () done) →
        (stateAfter (indexInto settings clock directory path) console).desk.Keeps directory
          after.snapshot) := by
  obtain ⟨desk, flushed⟩ := indexInto_of_indexed clock console held indexed
  have adds := adds_of_index (sound.opened _ _ held).consistent indexed room
  have changed : Desk.Move console.desk ⟨console.disk, console.catalogs.insert directory after⟩ :=
    .change held adds.directory adds.consistent adds.extension fun _ => fits
  have known : (console.catalogs.insert directory after).get? directory = some after :=
    OrderedMap.get?_insert_self ..
  rw [desk]
  refine ⟨.tail (.single changed) (.write known clock.seconds), fun done => ?_⟩
  obtain ⟨left, written⟩ := flushed.mp done
  rw [stateAfter_of_ok written]
  obtain ⟨location, hosts⟩ := (sound.of_move changed).hosts known
  obtain ⟨stores, stored⟩ := hosts.stores clock.seconds
  rw [stateAfter_of_ok written] at stores
  have leads := (leads_of_resolve hosts.resolves).congr
    ((sound.of_move changed).opened _ _ known).filed.symm
  exact ⟨⟨after, known, .refl _, fits⟩, location, after.snapshot, clock.seconds,
    stores.evolves.leads leads, stored _ written, .refl _, adds.consistent, fits⟩

end Lines

/-- A line that works with a catalog names its directory. -/
def ShellLine.HasDirectory : ShellLine → Prop
  | .index directory _ | .search directory _ => directory.bytes ≠ []
  | _ => True

theorem ShellLine.hasDirectory_ofText (text : List Char) :
    (ShellLine.ofText text).HasDirectory := by
  unfold ofText
  simp only
  split
  next => trivial
  next => trivial
  next => trivial
  next => trivial
  next =>
    split
    next complete =>
      simpa [HasDirectory, Utf8.bytes_eq_nil] using (Bool.and_eq_true_iff.mp complete).1
    next => trivial
  next =>
    split
    next complete =>
      simpa [HasDirectory, Utf8.bytes_eq_nil] using (Bool.and_eq_true_iff.mp complete).1
    next => trivial
  next => trivial

section Input

/-- A program that reads no input. -/
def KeepsInput {α : Type} (program : Program α) : Prop :=
  ∀ console, (stateAfter program console).input = console.input

/-- Programs one after another leave the input alone where each of them does. -/
theorem keepsInput_bind {α β : Type} {first : Program α} {next : α → Program β}
    (keeps : KeepsInput first) (rest : ∀ value, KeepsInput (next value)) :
    KeepsInput (first >>= next) := by
  intro console
  have same := keeps console
  cases result : first console with
  | ok value left =>
      rw [stateAfter_of_ok result] at same
      rw [stateAfter_bind_of_ok result, rest value left, same]
  | error failure left =>
      rw [stateAfter_of_error result] at same
      rw [stateAfter_bind_of_error result, same]

theorem keepsInput_require {α : Type} (result : Except Fault α) : KeepsInput (require result) :=
  fun _ => by cases result <;> rfl

theorem keepsInput_requireAnswer {α : Type} (result : Except Retrieval.Abort α) :
    KeepsInput (requireAnswer result) := by
  intro console
  cases result with
  | ok value => rfl
  | error abort => cases abort <;> rfl

theorem keepsInput_act {α : Type} (action : Disk.Action α) : KeepsInput (act action) :=
  fun console => by rw [stateAfter_of_ok (act_eq action console)]

theorem keepsInput_printLines (lines : List String) : KeepsInput (printLines lines) := by
  unfold printLines
  induction lines with
  | nil => exact fun _ => rfl
  | cons line rest ih =>
      show KeepsInput (printLine line >>= fun _ => rest.forM printLine)
      exact keepsInput_bind (fun _ => rfl) fun _ => ih

/-- Opening a catalog reads nothing of the input. -/
theorem keepsInput_openCatalog (directory : Path) : KeepsInput (openCatalog directory) := by
  unfold openCatalog
  refine keepsInput_bind (fun _ => rfl) fun console => ?_
  split
  next => exact fun _ => rfl
  next =>
    refine keepsInput_bind (keepsInput_act _) fun result => ?_
    cases result with
    | ok catalog => exact fun _ => rfl
    | error fault =>
        simp only
        split <;> exact fun _ => rfl

/-- Indexing reads nothing of the input. -/
theorem keepsInput_indexInto (settings : Settings) (clock : Clock) (directory path : Path) :
    KeepsInput (indexInto settings clock directory path) := by
  unfold indexInto
  refine keepsInput_bind (fun _ => rfl) fun catalog => keepsInput_bind (fun _ => rfl) fun console =>
    keepsInput_bind (keepsInput_require _) fun result => ?_
  refine keepsInput_bind (fun _ => rfl) fun _ => keepsInput_bind ?_ fun _ => fun _ => rfl
  exact keepsInput_bind (fun _ => rfl) fun _ => keepsInput_bind (keepsInput_act _) fun _ =>
    keepsInput_require _

/-- Searching reads nothing of the input. -/
theorem keepsInput_searchIn (settings : Settings) (clock : Clock) (directory : Path)
    (query : String) : KeepsInput (searchIn settings clock directory query false) := by
  unfold searchIn
  refine keepsInput_bind (fun _ => rfl) fun catalog => keepsInput_bind (fun _ => rfl) fun console =>
    keepsInput_bind (keepsInput_requireAnswer _) fun result => ?_
  exact keepsInput_bind (fun _ => rfl) fun _ =>
    keepsInput_bind (keepsInput_printLines _) fun _ _ => rfl

/-- A line leaves the rest of the input to the lines after it. -/
theorem keepsInput_follow (settings : Settings) (clock : Clock) (line : ShellLine) :
    KeepsInput (follow settings clock line) := by
  intro console
  cases line with
  | index directory path =>
      rw [follow, stateAfter_attempt]
      exact keepsInput_bind (keepsInput_openCatalog _)
        (fun _ => keepsInput_indexInto _ _ _ _) console
  | search directory query =>
      rw [follow, stateAfter_attempt]
      exact keepsInput_bind (keepsInput_openCatalog _)
        (fun _ => keepsInput_searchIn _ _ _ _) console
  | _ => rfl

/-- A line ends where its mark is, and the rest of the input stays. -/
theorem nextLine_of_input {console : Console} {line rest : List Char}
    (input : console.input = line ++ '\n' :: rest) (unbroken : '\n' ∉ line)
    (plain : line.getLast? ≠ some '\r') :
    nextLine console = .ok (some line) { console with input := rest } := by
  have cut : (line ++ '\n' :: rest).takeWhile (· != '\n') = line := by
    have goes (c : Char) (member : c ∈ line) : (c != '\n') = true :=
      bne_iff_ne.mpr fun same => unbroken (same ▸ member)
    rw [List.takeWhile_append_of_pos goes]
    simp
  unfold nextLine
  rw [input]
  split
  next empty => simp at empty
  next =>
    simp only [cut]
    rw [if_neg fun both => plain both.1]
    simp

end Input

section Turns

variable {settings : Settings} {clock : Clock} {turn : Turn}

/-- A line indexes one path into one catalog. -/
theorem Turn.Indexes.unique {directory path place file : Path} {before known after last : Catalog}
    {ids others : List DocId} (one : turn.Indexes settings directory path before ids after)
    (other : turn.Indexes settings place file known others last) :
    before = known ∧ ids = others ∧ after = last := by
  obtain ⟨line, opened, entered, held, indexed⟩ := one
  obtain ⟨same, again, reentered, found, read⟩ := other
  cases line.symm.trans same
  obtain rfl : opened = again := (EStateM.Result.ok.inj (entered.symm.trans reentered)).2
  obtain rfl : before = known := Option.some.inj (held.symm.trans found)
  cases indexed.symm.trans read
  exact ⟨rfl, rfl, rfl⟩

/-- What a line that indexes comes to. -/
theorem Turn.moves_index (clock : Clock) {directory path : Path}
    (indexing : turn.line = .index directory path) (sound : turn.console.desk.Sound)
    (filled : directory.bytes ≠ []) (room : turn.HasRoom settings) :
    Desk.Moves turn.console.desk (turn.after settings clock).desk ∧
      ∀ before ids after, turn.Indexes settings directory path before ids after →
        before.Adds ids after ∧ (turn.Succeeds settings clock →
          (turn.after settings clock).desk.Keeps directory after.snapshot) := by
  have after_eq : turn.after settings clock =
      stateAfter (indexLine settings clock directory path) turn.console := by
    unfold Turn.after
    rw [indexing]
    exact stateAfter_attempt ..
  have succeeds_eq : turn.Succeeds settings clock =
      ∃ done, indexLine settings clock directory path turn.console = .ok () done := by
    unfold Turn.Succeeds
    rw [indexing]
  obtain ⟨opening, opened_held⟩ := moves_openCatalog sound filled
  rw [after_eq, succeeds_eq]
  unfold indexLine
  cases entered : openCatalog directory turn.console with
  | error failure left =>
      rw [stateAfter_of_error entered] at opening
      rw [stateAfter_bind_of_error entered]
      refine ⟨opening, fun before ids after indexes => ?_⟩
      obtain ⟨opened, other, -⟩ := indexes.indexed
      cases entered.symm.trans other
  | ok value opened =>
      rw [stateAfter_of_ok entered] at opening
      rw [stateAfter_bind_of_ok entered, bind_of_ok entered]
      obtain ⟨before, held⟩ := opened_held opened entered
      have sound_opened := (sound.of_moves opening).1
      cases indexed : before.index settings.extensions opened.disk path with
      | error fault =>
          have refused := indexInto_of_refused clock held indexed
          rw [stateAfter_of_error refused]
          refine ⟨opening, ?_⟩
          rintro known others last ⟨-, same, again, found, read⟩
          obtain rfl : opened = same := (EStateM.Result.ok.inj (entered.symm.trans again)).2
          obtain rfl : before = known := Option.some.inj (held.symm.trans found)
          cases indexed.symm.trans read
      | ok result =>
          obtain ⟨ids, after⟩ := result
          have indexes : turn.Indexes settings directory path before ids after :=
            ⟨indexing, opened, entered, held, indexed⟩
          obtain ⟨counted, fits⟩ := room directory path before ids after indexes
          obtain ⟨moves, kept⟩ := moves_of_indexed clock sound_opened held indexed counted
            fits
          refine ⟨opening.trans moves, ?_⟩
          intro known others last other
          obtain ⟨rfl, rfl, rfl⟩ := indexes.unique other
          exact ⟨adds_of_index (sound_opened.opened _ _ held).consistent indexed counted, kept⟩

/-- A line that indexes and succeeds does not crash. -/
theorem Turn.Succeeds.goesOn {directory path : Path} (succeeds : turn.Succeeds settings clock)
    (line : turn.line = .index directory path) : turn.GoesOn settings clock := by
  unfold Turn.Succeeds at succeeds
  unfold Turn.GoesOn
  rw [line] at succeeds ⊢
  obtain ⟨done, whole⟩ := succeeds
  exact attempt_of_ne_crash fun left crashed => nomatch whole.symm.trans crashed

/-- What a line that searches comes to. -/
theorem moves_searchLine {console : Console} {directory : Path} {query : String}
    (sound : console.desk.Sound) (filled : directory.bytes ≠ []) :
    Desk.Moves console.desk
      (stateAfter (searchLine settings clock directory query) console).desk := by
  obtain ⟨opening, opened_held⟩ := moves_openCatalog sound filled
  unfold searchLine
  cases entered : openCatalog directory console with
  | error failure left =>
      rw [stateAfter_of_error entered] at opening
      rwa [stateAfter_bind_of_error entered]
  | ok value opened =>
      rw [stateAfter_of_ok entered] at opening
      rw [stateAfter_bind_of_ok entered]
      obtain ⟨before, held⟩ := opened_held opened entered
      have sound_opened := (sound.of_moves opening).1
      rcases searchIn_of_opened settings clock query opened held with
        same | ⟨after, directory_eq, snapshot, desk⟩
      · rwa [same]
      · have consistent := (sound_opened.opened _ _ held).consistent
        rw [desk]
        rw [← snapshot] at consistent
        exact opening.tail (.change held directory_eq consistent (snapshot ▸ .refl _)
          fun fits => snapshot ▸ fits)

/-- Whatever a line comes to, it is a sequence of moves. -/
theorem Turn.moves (clock : Clock) (sound : turn.console.desk.Sound)
    (named : turn.line.HasDirectory) (room : turn.HasRoom settings) :
    Desk.Moves turn.console.desk (turn.after settings clock).desk := by
  cases line : turn.line with
  | index directory path =>
      rw [line] at named
      exact (Turn.moves_index clock line sound named room).1
  | search directory query =>
      rw [line] at named
      unfold Turn.after
      rw [line]
      show Desk.Moves _ (stateAfter (attempt _) _).desk
      rw [stateAfter_attempt]
      exact moves_searchLine sound named
  | _ =>
      unfold Turn.after
      rw [line]
      exact .refl

/-- The next line is read from the input and from nothing else. -/
theorem desk_of_nextLine {console left : Console} {text : Option (List Char)}
    (whole : nextLine console = .ok text left) : left.desk = console.desk := by
  unfold nextLine at whole
  split at whole <;> (cases whole; rfl)

/-- The shell follows one line after another. -/
theorem shellLines_succ (fuel : Nat) (console : Console) :
    shellLines settings clock (fuel + 1) console =
      match nextLine (stateAfter (print "> ") console) with
      | .ok (some text) left =>
          match ShellLine.ofText text with
          | .quit => .ok () left
          | line => (do follow settings clock line; shellLines settings clock fuel) left
      | .ok none left => .ok () left
      | .error failure left => .error failure left := by
  have shown : print "> " console = .ok () (stateAfter (print "> ") console) := rfl
  rw [shellLines, bind_of_ok shown]
  cases next : nextLine (stateAfter (print "> ") console) with
  | error failure left => rw [bind_of_error next]
  | ok text left =>
      rw [bind_of_ok next]
      cases text with
      | none => rfl
      | some text =>
          cases line : ShellLine.ofText text <;> simp only [line] <;> rfl

end Turns

end Concordance.CommandLine
