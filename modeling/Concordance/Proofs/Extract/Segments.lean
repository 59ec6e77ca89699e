import Concordance.Proofs.Calendar
import Concordance.Proofs.Extract.Flatten

namespace Concordance

theorem not_mem_of_mem_cutName {name part : String} (member : part ∈ cutName name) :
    '.' ∉ part.toList := by
  obtain ⟨piece, inside, rfl⟩ := List.mem_map.mp member
  obtain ⟨before, after, split⟩ := List.append_of_mem inside
  obtain ⟨-, -, -, -, -, -, unmarked⟩ := Text.isPiece_of_pieces split
  rw [String.toList_ofList]
  intro dot
  exact Bool.noConfusion (unmarked '.' dot)

/-- A name without dots is one part. -/
theorem cutName_of_not_mem {name : String} (dotless : '.' ∉ name.toList) : cutName name = [name] := by
  have alone : Text.pieces (· == '.') name.toList = [name.toList] := by
    apply Text.pieces_of_forall_not
    intro c member
    simpa using fun same : c = '.' => dotless (same ▸ member)
  rw [cutName, alone, List.map_singleton, String.ofList_toList]

/-- A way is what its names are cut into where they have no dots. -/
theorem flatMap_cutName_eq_self_iff {path : List String} :
    path.flatMap cutName = path ↔ ∀ name ∈ path, '.' ∉ name.toList := by
  constructor
  · intro same name member
    rw [← same] at member
    obtain ⟨other, -, inside⟩ := List.mem_flatMap.mp member
    exact not_mem_of_mem_cutName inside
  · intro dotless
    induction path with
    | nil => rfl
    | cons name rest ih =>
        obtain ⟨head, tail⟩ := List.forall_mem_cons.mp dotless
        rw [List.flatMap_cons, cutName_of_not_mem head, ih tail]
        rfl

namespace Extract

/-- A joined name has the parts of its names. -/
theorem cutName_joinedName {path : List String} (filled : path ≠ []) :
    cutName (joinedName path) = path.flatMap cutName := by
  have parts : path.map String.toList ≠ [] := by simpa using filled
  rw [cutName, toList_joinedName, Text.pieces_join rfl parts, List.flatMap_map, List.map_flatMap]
  rfl

/-- The parts of a name join to the name. -/
theorem joinedName_cutName (name : String) : joinedName (cutName name) = name := by
  rw [← String.toList_inj, toList_joinedName, join_cutName]

/-- A way is joined to a name where its names are cut into the segments of that name. -/
theorem joinedName_eq_iff {path : List String} (filled : path ≠ []) {key : Key} :
    joinedName path = key.name ↔ path.flatMap cutName = key.segments := by
  rw [← cutName_joinedName filled]
  constructor
  · intro same
    rw [same]
    rfl
  · intro same
    rw [← joinedName_cutName (joinedName path), same]
    exact joinedName_cutName key.name

/-- The fields of an object that a way leads to have different names. So it is in every document that
is read, as a later field replaces an earlier one of its name. -/
def HasDistinctNames (document : Json) : Prop := ∀ place path fields,
  Reaches document ⟨place, path, .object fields⟩ → (fields.map Prod.fst).Nodup

section Ways

theorem HasDistinctNames.field {fields : List (String × Json)}
    (distinct : HasDistinctNames (.object fields)) {index : Nat} {name : String} {child : Json}
    (found : fields[index]? = some (name, child)) : HasDistinctNames child :=
  fun place path inner onward => distinct (index :: place) (name :: path) inner (.field found onward)

theorem HasDistinctNames.item {items : List Json} (distinct : HasDistinctNames (.array items))
    {index : Nat} {item : Json} (found : items[index]? = some item) (inner : item.isObject = true) :
    HasDistinctNames item :=
  fun place path fields onward =>
    distinct (index :: place) (indexName index :: path) fields (.item found inner onward)

theorem indexName_injective : Function.Injective indexName := by
  intro first second same
  have digits := congrArg (Number.readDigits 0) (String.ofList_injective same)
  rwa [Number.readDigits_decimalDigits, Number.readDigits_decimalDigits] at digits

/-- Where names are different, a way tells what it leads to. -/
theorem Reaches.eq_of_path {document : Json} {first second : Leaf}
    (distinct : HasDistinctNames document) (one : Reaches document first)
    (two : Reaches document second) (same : first.path = second.path) : first = second := by
  induction one generalizing second with
  | here =>
      cases two with
      | here => rfl
      | field => cases same
      | item => cases same
  | @field fields index name child leaf found onward ih =>
      cases two with
      | here => cases same
      | @field _ other otherName otherChild inner foundOther onwardOther =>
          obtain ⟨rfl, rest⟩ := List.cons.inj same
          have names : (fields.map Prod.fst)[index]? = (fields.map Prod.fst)[other]? := by
            rw [List.getElem?_map, List.getElem?_map, found, foundOther]
            rfl
          have inside : index < (fields.map Prod.fst).length := by
            rw [List.length_map]
            exact (List.getElem?_eq_some_iff.mp found).1
          obtain rfl := (List.getElem?_inj inside (distinct [] [] fields (.here _))).mp names
          cases found.symm.trans foundOther
          rw [ih (distinct.field found) onwardOther rest]
  | @item items index item leaf found inner onward ih =>
      cases two with
      | here => cases same
      | @item _ other _ leaf' foundOther _ onwardOther =>
          obtain ⟨digits, rest⟩ := List.cons.inj same
          obtain rfl := indexName_injective digits
          obtain rfl := Option.some.inj (found.symm.trans foundOther)
          rw [ih (distinct.item found inner) onwardOther rest]

theorem HasDistinctNames.object {fields : List (String × Json)}
    (names : (fields.map Prod.fst).Nodup) (each : ∀ field ∈ fields, HasDistinctNames field.2) :
    HasDistinctNames (.object fields) := by
  intro place path inner reached
  generalize given : Leaf.mk place path (.object inner) = leaf at reached
  cases reached with
  | here =>
      cases given
      exact names
  | @field _ _ _ _ leaf found onward =>
      obtain ⟨further, onwardPath, node⟩ := leaf
      cases given
      exact each _ (List.mem_of_getElem? found) further onwardPath inner onward

theorem HasDistinctNames.array {items : List Json} (each : ∀ item ∈ items, HasDistinctNames item) :
    HasDistinctNames (.array items) := by
  intro place path inner reached
  generalize given : Leaf.mk place path (.object inner) = leaf at reached
  cases reached with
  | here => cases given
  | @item _ _ _ leaf found _ onward =>
      obtain ⟨further, onwardPath, node⟩ := leaf
      cases given
      exact each _ (List.mem_of_getElem? found) further onwardPath inner onward

end Ways

section Reading

open Json

/-- Fields in the order of their names, in whose values names are different. -/
structure AreDistinct (fields : List (String × Json)) : Prop where
  ascending : fields.Pairwise fun first second => compare first.1 second.1 = .lt
  each : ∀ field ∈ fields, HasDistinctNames field.2

theorem AreDistinct.object {fields : List (String × Json)} (distinct : AreDistinct fields) :
    HasDistinctNames (.object fields) :=
  .object (OrderedMap.mk fields distinct.ascending).nodup_keys distinct.each

theorem AreDistinct.put {fields : List (String × Json)} (distinct : AreDistinct fields)
    (name : String) {value : Json} (inside : HasDistinctNames value) :
    AreDistinct (OrderedMap.put name value fields) := by
  apply AreDistinct.mk (OrderedMap.pairwise_put name value distinct.ascending)
  intro field member
  have held : ((OrderedMap.mk fields distinct.ascending).insert name value).get? field.1 =
      some field.2 := OrderedMap.get?_of_mem member
  rw [OrderedMap.get?_insert] at held
  split at held
  next =>
    cases held
    exact inside
  next =>
    obtain ⟨other, -, there⟩ := OrderedMap.get?_eq_some_iff_exists.mp held
    exact distinct.each (other, field.2) there

/-- With this fuel, the objects in all that is read have fields of different names. -/
structure ReadsDistinct (fuel : Nat) : Prop where
  value : ∀ {depth text value rest}, readValue fuel depth text = some (value, rest) →
    HasDistinctNames value
  items : ∀ {depth text items rest}, readItems fuel depth text = some (items, rest) →
    ∀ item ∈ items, HasDistinctNames item
  fields : ∀ {depth before text fields rest},
    readFields fuel depth before text = some (fields, rest) → AreDistinct before →
      AreDistinct fields

namespace ReadsDistinct

variable {fuel depth : Nat} {text rest : List Char}

theorem of_readValue (distinct : ReadsDistinct fuel) {value : Json}
    (read : readValue (fuel + 1) depth text = some (value, rest)) : HasDistinctNames value := by
  simp only [readValue] at read
  split at read
  next =>
    split at read
    next => cases read
    next =>
      split at read
      next =>
        cases read
        exact HasDistinctNames.object .nil nofun
      next =>
        obtain ⟨⟨fields, after⟩, found, same⟩ := Option.map_eq_some_iff.mp read
        cases same
        exact (distinct.fields found ⟨.nil, nofun⟩).object
  next =>
    split at read
    next => cases read
    next =>
      split at read
      next =>
        cases read
        exact HasDistinctNames.array nofun
      next =>
        obtain ⟨⟨items, after⟩, found, same⟩ := Option.map_eq_some_iff.mp read
        cases same
        exact .array (distinct.items found)
  -- A scalar has no objects in it.
  all_goals
    obtain ⟨_, _, same⟩ := Option.map_eq_some_iff.mp read
    cases same
    nofun

theorem of_readItems (distinct : ReadsDistinct fuel) {items : List Json}
    (read : readItems (fuel + 1) depth text = some (items, rest)) :
    ∀ item ∈ items, HasDistinctNames item := by
  simp only [readItems] at read
  obtain ⟨⟨item, after⟩, found, read⟩ := Option.bind_eq_some_iff.mp read
  have head := distinct.value found
  split at read
  next =>
    obtain ⟨⟨others, last⟩, more, same⟩ := Option.bind_eq_some_iff.mp read
    cases same
    exact List.forall_mem_cons.mpr ⟨head, distinct.items more⟩
  next =>
    cases read
    exact List.forall_mem_singleton.mpr head
  next => cases read

theorem of_readFields (distinct : ReadsDistinct fuel) {before fields : List (String × Json)}
    (read : readFields (fuel + 1) depth before text = some (fields, rest))
    (earlier : AreDistinct before) : AreDistinct fields := by
  simp only [readFields] at read
  split at read
  next =>
    obtain ⟨⟨name, colon⟩, -, read⟩ := Option.bind_eq_some_iff.mp read
    split at read
    next =>
      obtain ⟨⟨value, after⟩, found, read⟩ := Option.bind_eq_some_iff.mp read
      have joined := earlier.put (String.ofList name) (distinct.value found)
      split at read
      next => exact distinct.fields read joined
      next =>
        cases read
        exact joined
      next => cases read
    next => cases read
  next => cases read

end ReadsDistinct

/-- Whatever is read has distinct names. -/
theorem readsDistinct (fuel : Nat) : ReadsDistinct fuel := by
  induction fuel with
  | zero => exact ⟨nofun, nofun, nofun⟩
  | succ fuel ih => exact ⟨ih.of_readValue, ih.of_readItems, ih.of_readFields⟩

/-- In a document that is read the fields of each object have different names. -/
theorem hasDistinctNames_of_ofBytes? {bytes : List UInt8} {document : Json}
    (read : ofBytes? bytes = some document) : HasDistinctNames document := by
  rw [ofBytes?] at read
  split at read
  next text _ =>
    rw [ofText?] at read
    obtain ⟨⟨value, rest⟩, found, read⟩ := Option.bind_eq_some_iff.mp read
    obtain ⟨-, same⟩ := Option.ite_none_right_eq_some.mp read
    cases same
    exact (readsDistinct _).value found
  next => cases read

end Reading

section Listing

/-- Each leaf has one entry, whose key has the names on the way to it as segments, and each entry is
that of one leaf. -/
structure ListsLeaves (metadata : Metadata) (document : Json) : Prop where
  entry : ∀ leaf, IsLeafOf document leaf →
    ∃! entry, entry ∈ metadata.entries ∧ entry.1.segments = leaf.path
  leaf : ∀ entry ∈ metadata.entries,
    ∃! leaf, IsLeafOf document leaf ∧ leaf.path = entry.1.segments

theorem segments_injective : Function.Injective Key.segments := by
  intro first second same
  apply Key.eq_of_name
  rw [← joinedName_cutName first.name, ← joinedName_cutName second.name]
  exact congrArg joinedName same

/-- The keys of the metadata have the parts of the names of leaves as segments. -/
theorem mem_keys_iff_segments {document : Json} {metadata : Metadata}
    (flat : flatten document = .ok metadata) {key : Key} :
    key ∈ metadata.keys ↔
      ∃ leaf, IsLeafOf document leaf ∧ leaf.path.flatMap cutName = key.segments := by
  rw [mem_keys_of_flatten flat]
  apply exists_congr
  intro leaf
  exact and_congr_right fun isLeaf => joinedName_eq_iff isLeaf.named

/-- Where no name has a dot, the metadata lists the leaves. -/
theorem ListsLeaves.of_dotless {document : Json} {metadata : Metadata}
    (distinct : HasDistinctNames document) (flat : flatten document = .ok metadata)
    (dotless : ∀ leaf, IsLeafOf document leaf → ∀ name ∈ leaf.path, '.' ∉ name.toList) :
    ListsLeaves metadata document := by
  have uncut {leaf : Leaf} (isLeaf : IsLeafOf document leaf) : leaf.path.flatMap cutName = leaf.path :=
    flatMap_cutName_eq_self_iff.mpr (dotless leaf isLeaf)
  constructor
  · intro leaf isLeaf
    obtain ⟨gapless, -⟩ := exists_flatten_iff.mp ⟨metadata, flat⟩ leaf isLeaf
    have cut : leaf.path.flatMap cutName =
        (Key.mk (joinedName leaf.path) (isDotted_iff.mpr gapless)).segments :=
      (joinedName_eq_iff isLeaf.named).mp rfl
    have there := (mem_keys_iff_segments flat).mpr ⟨leaf, isLeaf, cut⟩
    obtain ⟨entry, member, same⟩ := List.mem_map.mp there
    have segments : entry.1.segments = leaf.path := by rw [same, ← cut, uncut isLeaf]
    apply ExistsUnique.intro entry ⟨member, segments⟩
    rintro other ⟨inside, alike⟩
    apply List.inj_on_of_nodup_map metadata.nodup_keys inside member
    exact segments_injective (alike.trans segments.symm)
  · intro entry member
    obtain ⟨leaf, isLeaf, cut⟩ := (mem_keys_iff_segments flat).mp (List.mem_map_of_mem member)
    rw [uncut isLeaf] at cut
    apply ExistsUnique.intro leaf ⟨isLeaf, cut⟩
    rintro other ⟨otherLeaf, same⟩
    exact Reaches.eq_of_path distinct otherLeaf.reached isLeaf.reached (same.trans cut.symm)

/-- A document whose fields have different names has one entry for each leaf, with the names on the
way to it as segments, where no name on a way to a leaf has a dot, and nowhere else. The segments of
its keys are in any case the parts between dots of the names on those ways. -/
theorem segments_of_flatten {document : Json} {metadata : Metadata}
    (distinct : HasDistinctNames document) (flat : flatten document = .ok metadata) :
    (ListsLeaves metadata document ↔
      ∀ leaf, IsLeafOf document leaf → ∀ name ∈ leaf.path, '.' ∉ name.toList) ∧
    ∀ key, key ∈ metadata.keys ↔
      ∃ leaf, IsLeafOf document leaf ∧ leaf.path.flatMap cutName = key.segments := by
  apply And.intro _ fun key => mem_keys_iff_segments flat
  constructor
  · intro lists leaf isLeaf name member
    obtain ⟨entry, ⟨-, same⟩, -⟩ := lists.entry leaf isLeaf
    exact not_mem_of_mem_cutName (same.symm ▸ member : name ∈ entry.1.segments)
  · exact ListsLeaves.of_dotless distinct flat

/-- A document of two leaves, one of them in an item of an array. -/
def shelf : Json :=
  .object [("books", .array [.string "old", .object [("title", .string "Emma")]]),
    ("open", .bool true)]

/-- Leaves of different ways whose names have the same parts. -/
def merging : Json := .object [("a", .object [("b", .null)]), ("a.b", .bool true)]

theorem segments_of_flatten_shelf :
    let metadata : Metadata := .ofList
      [(⟨"books.1.title", by decide⟩, .text "Emma"), (⟨"open", by decide⟩, .bool true)]
    (HasDistinctNames shelf ∧ flatten shelf = .ok metadata) ∧ ListsLeaves metadata shelf := by
  intro metadata
  have read : Json.ofBytes?
      "\x7b\"books\":[\"old\",\x7b\"title\":\"Emma\"\x7d],\"open\":true\x7d".toUTF8.data.toList =
      some shelf := rfl
  have distinct := hasDistinctNames_of_ofBytes? read
  have flat : flatten shelf = .ok metadata := rfl
  have listed : (leaves shelf).map Leaf.path = [["books", "1", "title"], ["open"]] := by
    decide +kernel
  have dotless : ∀ leaf, IsLeafOf shelf leaf → ∀ name ∈ leaf.path, '.' ∉ name.toList := by
    intro leaf isLeaf
    have path := List.mem_map_of_mem (f := Leaf.path) (mem_leaves.mpr isLeaf)
    rw [listed] at path
    generalize leaf.path = names at path
    revert names
    decide +kernel
  exact ⟨⟨distinct, flat⟩, (segments_of_flatten distinct flat).1.mpr dotless⟩

theorem merged_of_dotted : ¬∀ document metadata, HasDistinctNames document →
    flatten document = .ok metadata → ListsLeaves metadata document := by
  intro lists
  have read : Json.ofBytes? "\x7b\"a.b\":true,\"a\":\x7b\"b\":null\x7d\x7d".toUTF8.data.toList =
      some merging := rfl
  have distinct := hasDistinctNames_of_ofBytes? read
  have listed := lists merging (.ofList [(⟨"a.b", by decide⟩, .bool true)]) distinct rfl
  have isLeaf : IsLeafOf merging ⟨[1], ["a.b"], .bool true⟩ :=
    ⟨.field rfl (.here _), rfl, by decide⟩
  obtain ⟨entry, ⟨-, same⟩, -⟩ := listed.entry _ isLeaf
  have dotted : "a.b" ∈ entry.1.segments := by simp [same]
  exact not_mem_of_mem_cutName dotted (by decide)

end Listing

end Extract
end Concordance
