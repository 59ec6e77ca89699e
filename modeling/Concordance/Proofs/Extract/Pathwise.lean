import Concordance.Proofs.Extract.Flatten

namespace Concordance.Extract

/-- A document is filed by the names of its leaves. Which documents are filed is told leaf by leaf;
the keys are the joined names of the leaves; and under each stands what the last leaf of the name is
filed as, where an array of texts that are not all moments keeps of each what `kept` says. -/
structure IsPathwise (kept : String → String) (document : Json) : Prop where
  accepted : (∃ metadata, flatten document = .ok metadata) ↔ ∀ leaf, IsLeafOf document leaf →
    HasNoGap (joinedName leaf.path) ∧ IsFileable leaf.node
  keys : ∀ metadata, flatten document = .ok metadata → ∀ key : Key,
    key ∈ metadata.keys ↔ ∃ leaf, IsLeafOf document leaf ∧ joinedName leaf.path = key.name
  values : ∀ metadata, flatten document = .ok metadata → ∀ (key : Key) value,
    metadata.get? key = some value ↔
      ∃ leaf, IsLast document key.name leaf ∧ FiledAs kept leaf.node value

/-- Of texts among which one spells no moment, each that spells one is written as moments are. -/
def KeepsSpelling (node : Json) : Prop := ∀ texts : List String, node = .array (texts.map .string) →
  (∃ text ∈ texts, Moment.ofText? text = none) →
    ∀ text ∈ texts, ∀ moment, Moment.ofText? text = some moment → moment.toText = text

theorem map_spelling_eq_self_iff {texts : List String} : texts.map spelling = texts ↔
    ∀ text ∈ texts, ∀ moment, Moment.ofText? text = some moment → moment.toText = text := by
  conv_lhs => rhs; rw [← List.map_id texts]
  rw [List.map_inj_left]
  simp only [id_eq, spelling_eq_self_iff]

theorem string_injective : Function.Injective Json.string := fun _ _ => Json.string.inj

/-- Texts are told by the array of them. -/
theorem texts_injective {first second : List String}
    (same : Json.array (first.map .string) = .array (second.map .string)) : first = second :=
  string_injective.list_map (Json.array.inj same)

/-- What is kept of texts matters at an array of texts only, and there of its own texts. -/
theorem FiledAs.of_map_eq {first second : String → String} {node : Json} {value : Value}
    (filed : FiledAs first node value)
    (same : ∀ texts : List String, node = .array (texts.map .string) →
      (∃ text ∈ texts, Moment.ofText? text = none) → texts.map first = texts.map second) :
    FiledAs second node value := by
  cases filed with
  | null => exact .null
  | bool => exact .bool _
  | number => exact .number _
  | moment spelt => exact .moment spelt
  | text plain => exact .text plain
  | numbers => exact .numbers _
  | moments filled spelt => exact .moments filled spelt
  | texts mixed =>
      rw [same _ rfl mixed]
      exact .texts mixed

/-- Where spellings are kept, it makes no difference to keep the texts themselves. -/
theorem filedAs_id_iff {node : Json} (keeps : KeepsSpelling node) {value : Value} :
    FiledAs id node value ↔ FiledAs spelling node value := by
  have same (texts : List String) (given : node = .array (texts.map .string))
      (mixed : ∃ text ∈ texts, Moment.ofText? text = none) :
      texts.map spelling = texts.map id := by
    rw [List.map_id, map_spelling_eq_self_iff]
    exact keeps texts given mixed
  constructor
  · intro filed
    exact filed.of_map_eq fun texts given mixed => (same texts given mixed).symm
  · intro filed
    exact filed.of_map_eq same

/-- One leaf of a name is the last one. -/
theorem IsLast.eq {document : Json} {name : String} {first second : Leaf}
    (one : IsLast document name first) (two : IsLast document name second) : first = second := by
  obtain ⟨-, before, after, split, apart⟩ := isLast_iff.mp one
  have sorted := pairwise_leaves document
  have member := mem_leaves.mpr two.isLeaf
  rw [split] at member sorted
  rcases List.mem_append.mp member with earlier | later
  · have less := (List.pairwise_append.mp sorted).2.2 second earlier first List.mem_cons_self
    exact absurd less (two.last first one.isLeaf one.joined)
  · rcases List.mem_cons.mp later with same | later
    · exact same.symm
    · exact absurd two.joined (apart second later)

/-- Texts of which one spells no moment are filed as texts. -/
theorem filedAs_mixed {kept : String → String} {texts : List String}
    (mixed : ∃ text ∈ texts, Moment.ofText? text = none) {value : Value} :
    FiledAs kept (.array (texts.map .string)) value ↔ value = .texts (texts.map kept) := by
  constructor
  · intro filed
    obtain ⟨text, member, plain⟩ := mixed
    generalize given : Json.array (texts.map .string) = node at filed
    cases filed with
    | texts => rw [texts_injective given]
    | numbers values =>
        have inside : Json.string text ∈ values.map .number :=
          Json.array.inj given ▸ List.mem_map_of_mem member
        simp at inside
    | moments filled spelt =>
        obtain rfl := texts_injective given
        obtain ⟨moment, -, read⟩ := exists_of_forall₂ spelt.flip member
        cases plain.symm.trans read
    | null | bool | number | moment | text => cases given
  · rintro rfl
    exact .texts mixed

/-- A document is filed by the names of its leaves, and moments beside other texts are spelled as
moments are. -/
theorem isPathwise_spelling (document : Json) : IsPathwise spelling document := by
  apply IsPathwise.mk exists_flatten_iff
  · intro metadata flat key
    exact mem_keys_of_flatten flat
  · intro metadata flat key value
    exact get?_of_flatten flat

/-- A document keeps texts themselves wherever the last leaf of a name keeps its spelling. -/
theorem isPathwise_id_iff (document : Json) : IsPathwise id document ↔
    ∀ metadata leaf, flatten document = .ok metadata →
      IsLast document (joinedName leaf.path) leaf → KeepsSpelling leaf.node := by
  constructor
  · intro pathwise metadata leaf flat last texts given mixed
    obtain ⟨gapless, -⟩ := exists_flatten_iff.mp ⟨metadata, flat⟩ leaf last.isLeaf
    have held : metadata.get? ⟨joinedName leaf.path, isDotted_iff.mpr gapless⟩ =
        some (.texts (texts.map spelling)) := by
      apply (get?_of_flatten flat).mpr ⟨leaf, last, ?_⟩
      rw [given]
      exact .texts mixed
    obtain ⟨other, alike, filed⟩ := (pathwise.values metadata flat _ _).mp held
    rw [alike.eq last, given, filedAs_mixed mixed, Value.texts.injEq, List.map_id] at filed
    exact map_spelling_eq_self_iff.mp filed
  · intro keeps
    obtain ⟨accepted, keys, values⟩ := isPathwise_spelling document
    apply IsPathwise.mk accepted keys
    intro metadata flat key value
    rw [values metadata flat]
    apply exists_congr
    intro leaf
    apply and_congr_right
    intro last
    exact (filedAs_id_iff (keeps metadata leaf flat (last.joined ▸ last))).symm

/-- A document is filed by the names of its leaves, and moments beside other texts are spelled as
moments are; the texts themselves are kept where the last leaf of each name keeps its spelling, and
nowhere else. -/
theorem isPathwise_flatten (document : Json) : IsPathwise spelling document ∧
    (IsPathwise id document ↔ ∀ metadata leaf, flatten document = .ok metadata →
      IsLast document (joinedName leaf.path) leaf → KeepsSpelling leaf.node) :=
  ⟨isPathwise_spelling document, isPathwise_id_iff document⟩

/-- A moment that is written without leading zeros, beside a text that spells none. -/
def unpadded : Json := .object [("a", .array [.string "2021-1-1 0:0:0", .string "soon"])]

theorem not_isPathwise_of_unpadded : ¬∀ document, IsPathwise id document := by
  intro pathwise
  have flat : flatten unpadded =
      .ok (.ofList [(⟨"a", by decide⟩, .texts ["2021-01-01 00:00:00", "soon"])]) := rfl
  have keeps : KeepsSpelling (.array [.string "2021-1-1 0:0:0", .string "soon"]) :=
    (isPathwise_id_iff unpadded).mp (pathwise unpadded) _ ⟨[0], ["a"], _⟩ flat
      (isLast_iff.mpr ⟨rfl, [], [], rfl, nofun⟩)
  have same := map_spelling_eq_self_iff.mpr
    (keeps ["2021-1-1 0:0:0", "soon"] rfl ⟨"soon", by decide, by decide +kernel⟩)
  exact absurd same (by decide +kernel)

section Texts

/-- A field whose value has no branches is the only leaf. -/
theorem leaves_field {name : String} {node : Json} (bare : node.hasBranches = false) :
    leaves (.object [(name, node)]) = [⟨[0], [name], node⟩] := by
  have one : ends node = [⟨[], [], node⟩] := by
    cases node with
    | object => cases bare
    | array items =>
        rw [ends, if_neg]
        exact Bool.eq_false_iff.mp bare
    | null | bool | number | string => rfl
  rw [leaves, ends, endsOfFields, one]
  rfl

theorem hasBranches_texts (texts : List String) :
    (Json.array (texts.map .string)).hasBranches = false := by
  simp [Json.hasBranches, Json.isObject]

/-- Texts of which one spells no moment are filed under the name of their field as texts, whatever
surrounds them. Each that spells a moment is spelled as that moment is, so the texts themselves are
kept where each was written so before. -/
theorem texts_of_mixed {texts : List String} (mixed : ∃ text ∈ texts, Moment.ofText? text = none) :
    (∀ name metadata, flatten (.object [(name, .array (texts.map .string))]) = .ok metadata ↔
      ∃ key : Key, key.name = name ∧ .ofList [(key, .texts (texts.map spelling))] = metadata) ∧
    (∀ document metadata (key : Key) leaf, flatten document = .ok metadata →
      IsLast document key.name leaf → leaf.node = .array (texts.map .string) →
        metadata.get? key = some (.texts (texts.map spelling))) ∧
    (texts.map spelling = texts ↔
      ∀ text ∈ texts, ∀ moment, Moment.ofText? text = some moment → moment.toText = text) := by
  apply And.intro
  · intro name metadata
    rw [flatten_eq_ok, leaves_field (hasBranches_texts texts)]
    constructor
    · rintro ⟨entries, filed, rfl⟩
      obtain ⟨entry, rest, files, none, rfl⟩ := List.forall₂_cons_left_iff.mp filed
      cases none
      obtain ⟨key, value⟩ := entry
      obtain rfl := (filedAs_mixed mixed).mp files.value
      exact ⟨key, files.name, rfl⟩
    · rintro ⟨key, named, rfl⟩
      exact ⟨_, .cons ⟨named, .texts mixed⟩ .nil, rfl⟩
  · apply And.intro _ map_spelling_eq_self_iff
    intro document metadata key leaf flat last given
    apply (get?_of_flatten flat).mpr ⟨leaf, last, ?_⟩
    rw [given]
    exact .texts mixed

theorem texts_of_mixed_tags :
    (∃ text ∈ ["later", "2020-1-1 0:0:0"], Moment.ofText? text = none) ∧
    flatten (.object [("tags", .array [.string "later", .string "2020-1-1 0:0:0"])]) =
      .ok (.ofList [(⟨"tags", by decide⟩, .texts ["later", "2020-01-01 00:00:00"])]) := by
  have mixed : ∃ text ∈ ["later", "2020-1-1 0:0:0"], Moment.ofText? text = none :=
    ⟨"later", by decide, by decide +kernel⟩
  have spelt : ["later", "2020-1-1 0:0:0"].map spelling = ["later", "2020-01-01 00:00:00"] := by
    decide +kernel
  exact ⟨mixed, ((texts_of_mixed mixed).1 "tags" _).mpr ⟨⟨"tags", by decide⟩, rfl, by rw [spelt]⟩⟩

/-- Not all texts that stay texts are kept as they were written. -/
theorem respelled_of_unpadded : ¬∀ texts : List String,
    (∃ text ∈ texts, Moment.ofText? text = none) → ∀ key : Key,
      flatten (.object [(key.name, .array (texts.map .string))]) =
        .ok (.ofList [(key, .texts texts)]) := by
  intro kept
  have same := kept ["later", "2020-1-1 0:0:0"] ⟨"later", by decide, by decide +kernel⟩
    ⟨"tags", by decide⟩
  exact absurd same (by decide +kernel)

end Texts

end Concordance.Extract
