import Concordance.Proofs.Catalog.Places
import Concordance.Proofs.Disk

namespace Concordance

/-- What indexing a path reads: the file itself, or all files below a directory. -/
def Indexable.ofRoot (extensions : ExtensionSettings) (disk : Disk) (path : Path) :
    Except Fault (List Indexable) :=
  match disk.look path with
  | .error fault => .error (.disk fault)
  | .ok (.file _ _) => do return (← ofFile extensions disk path).toList
  | .ok _ => do return ofFiles extensions disk (← collectFiles extensions disk path)

namespace Catalog

/-- Indexing a file registers what it gives. -/
theorem indexFile_eq (catalog : Catalog) (extensions : ExtensionSettings) (disk : Disk)
    (path : Path) :
    catalog.indexFile extensions disk path =
      (Indexable.ofFile extensions disk path).map fun item =>
        (((catalog.registerAll item.toList).1.map Prod.snd).head?,
          (catalog.registerAll item.toList).2) := by
  unfold indexFile
  cases Indexable.ofFile extensions disk path with
  | error fault => rfl
  | ok item => cases item <;> rfl

/-- Indexing a path registers all that is read for it. -/
theorem index_eq (catalog : Catalog) (extensions : ExtensionSettings) (disk : Disk)
    (path : Path) :
    catalog.index extensions disk path =
      (Indexable.ofRoot extensions disk path).map fun items =>
        ((catalog.registerAll items).1.map Prod.snd, (catalog.registerAll items).2) := by
  unfold index Indexable.ofRoot
  cases disk.look path with
  | error fault => rfl
  | ok entry =>
      cases entry with
      | file content modified =>
          simp only [indexFile_eq]
          cases Indexable.ofFile extensions disk path with
          | error fault => rfl
          | ok item => cases item <;> rfl
      | _ => cases collectFiles extensions disk path <;> rfl

/-- Registering a file takes one number. -/
theorem nextId_register (catalog : Catalog) (item : Indexable) :
    (catalog.register item).2.nextId = catalog.nextId + 1 :=
  (sameDocuments_addWords _ _ _).nextId

theorem directory_register (catalog : Catalog) (item : Indexable) :
    (catalog.register item).2.directory = catalog.directory :=
  (sameDocuments_addWords _ _ _).directory

/-- Registering a file files its document under the next number. -/
theorem documents_register (catalog : Catalog) (item : Indexable) :
    (catalog.register item).2.documents =
      catalog.documents.insert catalog.nextId (item.document catalog.nextId) := by
  show (addWords _ _ _).documents.insert _ _ = _
  rw [(sameDocuments_addWords _ _ _).documents]
  rfl

/-- A registered file is filed under the number it was given. -/
theorem document?_register (catalog : Catalog) (item : Indexable) (id : DocId) :
    (catalog.register item).2.document? id =
      if id = catalog.nextId then some (item.document id) else catalog.document? id := by
  unfold document?
  rw [documents_register, OrderedMap.get?_insert]
  simp only [Std.LawfulEqOrd.compare_eq_iff_eq]
  split
  next same => rw [same]
  next => rfl

/-- The words of a registered file are recorded under the number it was given. -/
theorem places_register (catalog : Catalog) (item : Indexable) (word : String) (id : DocId) :
    (catalog.register item).2.places word id =
      if id = catalog.nextId then
        extend (catalog.places word id) (Extract.offsetsOf item.extraction.words word)
      else catalog.places word id := by
  show (addWords _ _ _).places word id = _
  rw [places_addWords]
  split
  next same =>
    rw [same]
    rfl
  next => rfl

/-- Files are registered one after another. -/
theorem registerAll_cons (catalog : Catalog) (item : Indexable) (rest : List Indexable) :
    catalog.registerAll (item :: rest) =
      ((item.path, catalog.nextId) :: ((catalog.register item).2.registerAll rest).1,
        ((catalog.register item).2.registerAll rest).2) := rfl

/-- Every file is registered, in the order of the list. -/
theorem paths_registerAll (catalog : Catalog) (items : List Indexable) :
    (catalog.registerAll items).1.map Prod.fst = items.map Indexable.path := by
  induction items generalizing catalog with
  | nil => rfl
  | cons item rest ih => rw [registerAll_cons, List.map_cons, List.map_cons, ih]

/-- As many numbers are given as there are files. -/
theorem length_registerAll (catalog : Catalog) (items : List Indexable) :
    (catalog.registerAll items).1.length = items.length := by
  have lengths := congrArg List.length (paths_registerAll catalog items)
  rwa [List.length_map, List.length_map] at lengths

theorem directory_registerAll (catalog : Catalog) (items : List Indexable) :
    (catalog.registerAll items).2.directory = catalog.directory := by
  induction items generalizing catalog with
  | nil => rfl
  | cons item rest ih => rw [registerAll_cons, ih, directory_register]

end Catalog

/-- A disk with one file in its root, in which one word stands twice. -/
def noteDisk : Disk := ⟨.ofList [(["note.txt"], .file [0x68, 0x69, 0x20, 0x68, 0x69] 0)], [], .world⟩

def notePath : Path := ⟨"/note.txt"⟩

/-- What the file gives to a catalog. -/
def note : Indexable :=
  ⟨notePath, Zone.world.moment 0, .ofContent notePath [0x68, 0x69, 0x20, 0x68, 0x69]⟩

theorem resolve_notePath {disk : Disk} {content : Bytes} {modified : Int}
    (found : disk.entry? ["note.txt"] = some (.file content modified)) :
    disk.resolve notePath = .ok (.taken ["note.txt"] (.file content modified)) := by
  have checked : Disk.checkSpelling notePath.bytes = .ok () :=
    Disk.checkSpelling_eq_ok.mpr (by decide)
  have pieces : notePath.pieces = [[], ("note.txt" : Bytes)] := by decide
  have absolute : notePath.isAbsolute = true := by decide
  rw [Disk.resolve_eq_ok]
  refine ⟨checked, ?_⟩
  unfold Disk.walkFrom
  rw [pieces, absolute, Disk.walk_blank (.inl rfl)]
  exact Disk.walk_file (by decide) found

/-- What a file of a disk gives is told by its bytes. -/
theorem ofFile_of_found {disk : Disk} (extensions : ExtensionSettings)
    (read : extensions.isIgnored notePath = false) (zoned : disk.zone = .world)
    (found : disk.entry? ["note.txt"] = some (.file [0x68, 0x69, 0x20, 0x68, 0x69] 0)) :
    Indexable.ofFile extensions disk notePath = .ok (some note) := by
  have valid : note.extraction.isValid = true := by decide +kernel
  unfold note at valid ⊢
  unfold Indexable.ofFile Disk.look
  rw [resolve_notePath found]
  simp only [read, valid, zoned, Bool.not_true, Bool.or_false, Bool.false_eq_true, if_false]

theorem ofFile_notePath (extensions : ExtensionSettings)
    (read : extensions.isIgnored notePath = false) :
    Indexable.ofFile extensions noteDisk notePath = .ok (some note) :=
  ofFile_of_found extensions read rfl rfl

end Concordance
