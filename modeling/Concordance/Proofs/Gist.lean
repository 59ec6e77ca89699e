import Concordance.Proofs.Catalog.Faithful
import Concordance.Proofs.Spelling

/-! The gist of a document: all that searches see of it apart from its number. -/
namespace Concordance

/-- What a document is apart from its number and from the time at which its file was changed. The path
counts by its steps, and the words count by their offsets. -/
structure Gist where
  parts : List Path.Part
  kind : DocumentKind
  places : String → Option Offsets
  wordCount : UInt64
  metadata : Metadata

namespace Gist

def ofExtraction (path : Path) (extraction : Extract.Extraction) : Gist :=
  ⟨path.parts, extraction.kind, Extract.placesOf extraction.words, extraction.wordCount,
    extraction.metadata⟩

/-- The gist of a file with some content, none where such a file gives no document. -/
def ofContent? (extensions : ExtensionSettings) (path : Path) (content : Bytes) : Option Gist :=
  let extraction := Extract.Extraction.ofContent path content
  if extensions.isIgnored path || !extraction.isValid then none
  else some (ofExtraction path extraction)

/-- The gist of what a path leads to, none where it gives no document. -/
def ofPath? (extensions : ExtensionSettings) (disk : Disk) (path : Path) : Option Gist :=
  (disk.file? path).bind fun found => ofContent? extensions path found.1

/-- What a content gives depends on the parts of its path only. -/
theorem ofContent?_congr {extensions : ExtensionSettings} {first second : Path}
    (same : first.parts = second.parts) (content : Bytes) :
    ofContent? extensions first content = ofContent? extensions second content := by
  unfold ofContent? ofExtraction Extract.Extraction.ofContent ExtensionSettings.isIgnored
  rw [Path.fileExtension_congr same, same]

/-- Two spellings of one path give the same gist. -/
theorem ofPath?_congr {extensions : ExtensionSettings} {first second : Path}
    (spelling : Disk.IsFileSpelling first) (again : Disk.IsFileSpelling second)
    (same : first.parts = second.parts) (disk : Disk) :
    ofPath? extensions disk first = ofPath? extensions disk second := by
  unfold ofPath?
  rw [Disk.file?_congr spelling again same]
  exact congrArg _ (funext fun found => ofContent?_congr same found.1)

end Gist

namespace Indexable

def gist (item : Indexable) : Gist := .ofExtraction item.path item.extraction

/-- What has been read of a file is what its content gives. -/
theorem of_ofFile {extensions : ExtensionSettings} {disk : Disk} {path : Path} {item : Indexable}
    (read : ofFile extensions disk path = .ok (some item)) :
    item.path = path ∧ ∃ content modified, disk.look path = .ok (.file content modified) ∧
      Gist.ofContent? extensions path content = some item.gist := by
  unfold ofFile at read
  split at read
  next => cases read
  next content modified found =>
    simp only at read
    split at read
    next => cases read
    next accepted =>
      cases read
      refine ⟨rfl, content, modified, found, ?_⟩
      unfold Gist.ofContent?
      simp only
      rw [if_neg accepted]
      rfl
  next => cases read

/-- What has been read of a file bears the second of its last change. -/
theorem modified_of_ofFile {extensions : ExtensionSettings} {disk : Disk} {path : Path}
    {item : Indexable} (read : ofFile extensions disk path = .ok (some item)) :
    ∃ modified, disk.modified? path = some modified ∧ item.modified = disk.zone.moment modified := by
  unfold ofFile at read
  split at read
  next => cases read
  next content modified found =>
    simp only at read
    split at read
    next => cases read
    next =>
      cases read
      refine ⟨modified, ?_, rfl⟩
      unfold Disk.modified?
      rw [found]
  next => cases read

theorem gist_of_ofFile (extensions : ExtensionSettings) (disk : Disk) (path : Path) :
    (match ofFile extensions disk path with
      | .ok item => item
      | .error _ => none).map gist = Gist.ofPath? extensions disk path := by
  unfold ofFile Gist.ofPath? Disk.file? Gist.ofContent?
  cases disk.look path with
  | error fault => rfl
  | ok entry =>
      cases entry with
      | file content modified =>
          simp only [Option.bind_some]
          by_cases refused : (extensions.isIgnored path ||
              !(Extract.Extraction.ofContent path content).isValid) = true
          · rw [if_pos refused, if_pos refused]
            rfl
          · rw [if_neg refused, if_neg refused]
            rfl
      | _ => rfl

/-- A path with a gist can be read. -/
theorem exists_of_gist {extensions : ExtensionSettings} {disk : Disk} {path : Path} {gist : Gist}
    (found : Gist.ofPath? extensions disk path = some gist) :
    ∃ item, ofFile extensions disk path = .ok (some item) := by
  rw [← gist_of_ofFile] at found
  obtain ⟨item, read, -⟩ := Option.map_eq_some_iff.mp found
  split at read
  next some result => exact ⟨item, result.trans (congrArg _ read)⟩
  next => cases read

/-- The gists of what has been read are those of the paths that give documents. -/
theorem gists_ofFiles (extensions : ExtensionSettings) (disk : Disk) (paths : List Path) :
    (ofFiles extensions disk paths).map gist =
      paths.filterMap (Gist.ofPath? extensions disk) := by
  unfold ofFiles
  rw [List.map_filterMap]
  exact List.filterMap_congr fun path _ => gist_of_ofFile extensions disk path

/-- What files give comes from one of them. -/
theorem mem_ofFiles {extensions : ExtensionSettings} {disk : Disk} {paths : List Path}
    {item : Indexable} (member : item ∈ ofFiles extensions disk paths) :
    item.path ∈ paths ∧ ofFile extensions disk item.path = .ok (some item) := by
  obtain ⟨path, held, read⟩ := List.mem_filterMap.mp member
  split at read
  next found result =>
    rw [read] at result
    rw [(of_ofFile result).1]
    exact ⟨held, result⟩
  next => cases read

/-- A file that gives something is among those that do. -/
theorem mem_map_path_ofFiles {extensions : ExtensionSettings} {disk : Disk} {paths : List Path}
    {path : Path} {item : Indexable} (member : path ∈ paths)
    (read : ofFile extensions disk path = .ok (some item)) :
    path ∈ (ofFiles extensions disk paths).map Indexable.path :=
  List.mem_map.mpr ⟨item, List.mem_filterMap.mpr ⟨path, member, by rw [read]⟩, (of_ofFile read).1⟩

/-- What has been read of a list of paths comes in the order of the list. -/
theorem sublist_ofFiles (extensions : ExtensionSettings) (disk : Disk) (paths : List Path) :
    ((ofFiles extensions disk paths).map path).Sublist paths := by
  induction paths with
  | nil => exact .slnil
  | cons file rest ih =>
      unfold ofFiles at ih ⊢
      rw [List.filterMap_cons]
      split
      next => exact ih.cons file
      next item read =>
        split at read
        next found result =>
          rw [read] at result
          rw [List.map_cons, (of_ofFile result).1]
          exact ih.cons_cons file
        next => cases read

end Indexable

namespace Catalog

/-- The gist of a live document. -/
def gist? (catalog : Catalog) (id : DocId) : Option Gist :=
  (catalog.document? id).map fun document =>
    ⟨document.path.parts, document.facts.kind, fun word => catalog.places word id,
      document.facts.wordCount, document.metadata⟩

/-- The gists of all documents. -/
def gists (catalog : Catalog) : List Gist := catalog.live.toList.filterMap catalog.gist?

/-- The gist of a document depends on the document and its places only. -/
theorem gist?_congr {first second : Catalog} {id : DocId}
    (document : first.document? id = second.document? id)
    (places : ∀ word, first.places word id = second.places word id) :
    first.gist? id = second.gist? id := by
  unfold gist?
  rw [document, funext places]

/-- A number is that of a document made of a file. -/
structure Files (catalog : Catalog) (id : DocId) (item : Indexable) : Prop where
  document : catalog.document? id = some (item.document id)
  places : ∀ word, catalog.places word id = Extract.placesOf item.extraction.words word

/-- A document that was filed has the gist of its file. -/
theorem Files.gist?_eq {catalog : Catalog} {id : DocId} {item : Indexable}
    (files : catalog.Files id item) : catalog.gist? id = some item.gist := by
  unfold gist?
  rw [files.document, funext files.places]
  rfl

variable {catalog : Catalog} {origins : Origins}

/-- The file that is registered has the next number. -/
theorem files_register (faithful : catalog.snapshot.Faithful origins) (item : Indexable)
    (room : catalog.nextId.toNat + 1 < UInt64.size) :
    (catalog.register item).2.Files catalog.nextId item := by
  have found : (catalog.register item).2.document? catalog.nextId =
      some (item.document catalog.nextId) := by
    rw [document?_register, if_pos rfl]
  obtain ⟨other, origin, -, places⟩ := (faithful_register faithful item room).original found
  have same : other = item := by
    unfold Origins.set at origin
    rw [if_pos rfl] at origin
    exact (Option.some.inj origin).symm
  exact ⟨found, same ▸ places⟩

/-- Registering files leaves the documents that were there. -/
theorem kept_registerAll (items : List Indexable) {id : DocId} (taken : id < catalog.nextId)
    (room : catalog.nextId.toNat + items.length < UInt64.size) :
    (catalog.registerAll items).2.document? id = catalog.document? id ∧
      ∀ word, (catalog.registerAll items).2.places word id = catalog.places word id := by
  induction items generalizing catalog with
  | nil => exact ⟨rfl, fun _ => rfl⟩
  | cons item rest ih =>
      rw [List.length_cons] at room
      have next := toNat_succ (show catalog.nextId.toNat + 1 < UInt64.size by omega)
      have other : id ≠ catalog.nextId := UInt64.ne_of_lt taken
      have below : id < (catalog.register item).2.nextId := by
        rw [UInt64.lt_iff_toNat_lt] at taken ⊢
        rw [nextId_register, next]
        omega
      obtain ⟨document, places⟩ := ih below (room_register item room)
      rw [registerAll_cons]
      refine ⟨document.trans ?_, fun word => (places word).trans ?_⟩
      · rw [document?_register, if_neg other]
      · rw [places_register, if_neg other]

/-- Each registered file has the number that is given for it, beyond all that were taken before. -/
theorem forall₂_registerAll (faithful : catalog.snapshot.Faithful origins)
    (items : List Indexable) (room : catalog.nextId.toNat + items.length < UInt64.size) :
    List.Forall₂ (fun item (entry : Path × DocId) => entry.1 = item.path ∧
        catalog.nextId ≤ entry.2 ∧ (catalog.registerAll items).2.Files entry.2 item)
      items (catalog.registerAll items).1 := by
  induction items generalizing catalog origins with
  | nil => exact .nil
  | cons item rest ih =>
      rw [List.length_cons] at room
      have one : catalog.nextId.toNat + 1 < UInt64.size := by omega
      have fewer := room_register item room
      have taken : catalog.nextId < (catalog.register item).2.nextId := by
        rw [UInt64.lt_iff_toNat_lt, nextId_register, toNat_succ one]
        omega
      have first := files_register faithful item one
      obtain ⟨document, places⟩ := kept_registerAll rest taken fewer
      rw [registerAll_cons]
      refine .cons ⟨rfl, UInt64.le_refl _, ?_⟩ ?_
      · exact ⟨document.trans first.document, fun word => (places word).trans (first.places word)⟩
      · apply (ih (faithful_register faithful item one) fewer).imp
        rintro other entry ⟨path, later, files⟩
        exact ⟨path, UInt64.le_trans (UInt64.le_of_lt taken) later, files⟩

/-- Every registered file has been filed under the number it was given. -/
theorem files_registerAll (faithful : catalog.snapshot.Faithful origins) {items : List Indexable}
    (room : catalog.nextId.toNat + items.length < UInt64.size) {entry : Path × DocId}
    (member : entry ∈ (catalog.registerAll items).1) :
    ∃ item ∈ items, entry.1 = item.path ∧ catalog.nextId ≤ entry.2 ∧
      (catalog.registerAll items).2.Files entry.2 item := by
  have each := forall₂_registerAll faithful items room
  clear room
  generalize (catalog.registerAll items).2 = after at each ⊢
  generalize (catalog.registerAll items).1 = entries at each member
  induction each with
  | nil => cases member
  | cons here _ ih =>
      rcases List.mem_cons.mp member with rfl | later
      · exact ⟨_, List.mem_cons_self, here⟩
      · obtain ⟨item, held, files⟩ := ih later
        exact ⟨item, List.mem_cons_of_mem _ held, files⟩

/-- The new documents have the gists of the files that are registered. -/
theorem gists_registerAll (faithful : catalog.snapshot.Faithful origins) (items : List Indexable)
    (room : catalog.nextId.toNat + items.length < UInt64.size) :
    ((catalog.registerAll items).1.map Prod.snd).filterMap (catalog.registerAll items).2.gist? =
      items.map Indexable.gist := by
  have each := forall₂_registerAll faithful items room
  clear room
  generalize (catalog.registerAll items).2 = after at each ⊢
  generalize (catalog.registerAll items).1 = entries at each ⊢
  induction each with
  | nil => rfl
  | cons here _ ih => rw [List.map_cons, List.filterMap_cons, here.2.2.gist?_eq, ih, List.map_cons]

/-- Registering files moves the counter on by their number. -/
theorem toNat_nextId_registerAll (items : List Indexable)
    (room : catalog.nextId.toNat + items.length < UInt64.size) :
    (catalog.registerAll items).2.nextId.toNat = catalog.nextId.toNat + items.length := by
  induction items generalizing catalog with
  | nil => rfl
  | cons item rest ih =>
      rw [List.length_cons] at room ⊢
      have next := toNat_succ (show catalog.nextId.toNat + 1 < UInt64.size by omega)
      rw [registerAll_cons, ih (room_register item room), nextId_register, next]
      omega

/-- A number that was not live comes beside those that were. -/
theorem perm_keys_register (fresh : catalog.documents.get? catalog.nextId = none)
    (item : Indexable) : (catalog.register item).2.documents.keys.Perm
      (catalog.nextId :: catalog.documents.keys) := by
  have added := (OrderedMap.perm_insert_of_get?_eq_none (item.document catalog.nextId)
    fresh).map Prod.fst
  unfold OrderedMap.keys
  rwa [documents_register]

/-- The numbers of registered files come beside those that were live. -/
theorem perm_keys_registerAll (faithful : catalog.snapshot.Faithful origins)
    (items : List Indexable) (room : catalog.nextId.toNat + items.length < UInt64.size) :
    (catalog.registerAll items).2.documents.keys.Perm
      ((catalog.registerAll items).1.map Prod.snd ++ catalog.documents.keys) := by
  induction items generalizing catalog origins with
  | nil => exact .refl _
  | cons item rest ih =>
      rw [List.length_cons] at room
      have fresh : catalog.documents.get? catalog.nextId = none := by
        rw [← Option.not_isSome_iff_eq_none]
        intro there
        obtain ⟨document, found⟩ := Option.isSome_iff_exists.mp there
        exact UInt64.lt_irrefl _ (faithful.taken found).2
      have whole := ih (faithful_register faithful item (by omega)) (room_register item room)
      rw [registerAll_cons]
      exact (whole.trans ((perm_keys_register fresh item).append_left _)).trans List.perm_middle

end Catalog
end Concordance
