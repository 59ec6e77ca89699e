import Concordance.Extract.Flatten
import Mathlib.Data.List.Forall2
import Mathlib.Data.Set.List

/-! The values that JSON values are filed as, told case by case. -/
namespace Concordance.Extract

/-- The spelling of a text that is kept beside texts that spell no moment. -/
def spelling (text : String) : String :=
  match Moment.ofText? text with
  | some moment => moment.toText
  | none => text

theorem spelling_eq_self_iff {text : String} :
    spelling text = text ↔ ∀ moment, Moment.ofText? text = some moment → moment.toText = text := by
  rw [spelling]
  cases Moment.ofText? text <;> simp

/-- Each text spells the moment in the same place. -/
def SpellMoments (texts : List String) (moments : List Moment) : Prop :=
  List.Forall₂ (fun text moment => Moment.ofText? text = some moment) texts moments

/-- What a JSON value is filed as, where an array of texts that are not all moments keeps of each
what `kept` says. -/
inductive FiledAs (kept : String → String) : Json → Value → Prop where
  | null : FiledAs kept .null .null
  | bool (value : Bool) : FiledAs kept (.bool value) (.bool value)
  | number (value : Number) : FiledAs kept (.number value) (.number value)
  | moment {text : String} {moment : Moment} (spelt : Moment.ofText? text = some moment) :
      FiledAs kept (.string text) (.moment moment)
  | text {text : String} (plain : Moment.ofText? text = none) :
      FiledAs kept (.string text) (.text text)
  | numbers (values : List Number) :
      FiledAs kept (.array (values.map .number)) (.numbers values)
  | moments {texts : List String} {moments : List Moment} (filled : texts ≠ [])
      (spelt : SpellMoments texts moments) :
      FiledAs kept (.array (texts.map .string)) (.moments moments)
  | texts {texts : List String} (mixed : ∃ text ∈ texts, Moment.ofText? text = none) :
      FiledAs kept (.array (texts.map .string)) (.texts (texts.map kept))

/-- A scalar, an array of numbers only or an array of texts only. -/
inductive IsFileable : Json → Prop where
  | null : IsFileable .null
  | bool (value : Bool) : IsFileable (.bool value)
  | number (value : Number) : IsFileable (.number value)
  | string (text : String) : IsFileable (.string text)
  | numbers (values : List Number) : IsFileable (.array (values.map .number))
  | texts (texts : List String) : IsFileable (.array (texts.map .string))

section Totality

variable {kept : String → String}

theorem FiledAs.isFileable {node : Json} {value : Value} (filed : FiledAs kept node value) :
    IsFileable node := by
  cases filed with
  | null => exact .null
  | bool => exact .bool _
  | number => exact .number _
  | moment | text => exact .string _
  | numbers => exact .numbers _
  | moments | texts => exact .texts _

/-- Texts that all spell moments spell a list of them. -/
theorem exists_spellMoments {texts : List String}
    (spelt : ∀ text ∈ texts, Moment.ofText? text ≠ none) : ∃ moments, SpellMoments texts moments := by
  induction texts with
  | nil => exact ⟨[], .nil⟩
  | cons text rest ih =>
      obtain ⟨head, tail⟩ := List.forall_mem_cons.mp spelt
      obtain ⟨moment, found⟩ := Option.ne_none_iff_exists'.mp head
      obtain ⟨moments, later⟩ := ih tail
      exact ⟨moment :: moments, .cons found later⟩

theorem exists_filedAs (kept : String → String) {node : Json} (fileable : IsFileable node) :
    ∃ value, FiledAs kept node value := by
  cases fileable with
  | null => exact ⟨_, .null⟩
  | bool value => exact ⟨_, .bool value⟩
  | number value => exact ⟨_, .number value⟩
  | string text =>
      cases found : Moment.ofText? text with
      | none => exact ⟨_, .text found⟩
      | some moment => exact ⟨_, .moment found⟩
  | numbers values => exact ⟨_, .numbers values⟩
  | texts texts =>
      by_cases mixed : ∃ text ∈ texts, Moment.ofText? text = none
      · exact ⟨_, .texts mixed⟩
      · cases texts with
        | nil => exact ⟨_, .numbers []⟩
        | cons text rest =>
            obtain ⟨moments, spelt⟩ := exists_spellMoments fun text member plain =>
              mixed ⟨text, member, plain⟩
            exact ⟨_, .moments (List.cons_ne_nil text rest) spelt⟩

end Totality

section Texts

/-- The scalar of a text: the moment that it spells, or the text. -/
def scalarOfText (text : String) : Value :=
  match Moment.ofText? text with
  | some moment => .moment moment
  | none => .text text

/-- A string is a moment where it spells one, and a text otherwise. -/
theorem scalarOf_string (text : String) : scalarOf (.string text) = .ok (scalarOfText text) := by
  rw [scalarOf, scalarOfText]
  cases Moment.ofText? text <;> rfl

/-- Scalars that are known one by one are known of a list. -/
theorem mapM_scalarOf {α : Type} {node : α → Json} {scalar : α → Value}
    (each : ∀ element, scalarOf (node element) = .ok (scalar element)) (elements : List α) :
    (elements.map node).mapM scalarOf = .ok (elements.map scalar) := by
  induction elements with
  | nil => rfl
  | cons element rest ih =>
      rw [List.map_cons, List.mapM_cons, each, ih]
      rfl

theorem text?_scalarOfText (text : String) :
    (scalarOfText text).text?.isSome = (Moment.ofText? text).isNone := by
  rw [scalarOfText]
  cases Moment.ofText? text <;> rfl

theorem moment?_scalarOfText (text : String) : (scalarOfText text).moment? = Moment.ofText? text := by
  rw [scalarOfText]
  cases Moment.ofText? text <;> rfl

/-- Where one text spells no moment, all texts stay texts. -/
theorem demoteMoments_mixed {texts : List String}
    (mixed : ∃ text ∈ texts, Moment.ofText? text = none) :
    demoteMoments (texts.map scalarOfText) = (texts.map spelling).map Value.text := by
  have worded : (texts.map scalarOfText).any (·.text?.isSome) = true := by
    simpa [List.any_map, Function.comp_def, text?_scalarOfText] using mixed
  rw [demoteMoments, worded, Bool.true_and, List.map_map, List.map_map]
  split
  next =>
    apply List.map_congr_left
    intro text _
    simp only [Function.comp_apply, scalarOfText, spelling]
    cases Moment.ofText? text <;> rfl
  next bare =>
    apply List.map_congr_left
    intro text member
    have plain : Moment.ofText? text = none := by
      simp only [List.any_map, Function.comp_def, moment?_scalarOfText, List.any_eq_true,
        not_exists, not_and, Option.not_isSome_iff_eq_none] at bare
      exact bare text member
    simp only [Function.comp_apply, scalarOfText, spelling, plain]

theorem map_scalarOfText {texts : List String} {moments : List Moment}
    (spelt : SpellMoments texts moments) :
    texts.map scalarOfText = moments.map Value.moment := by
  induction spelt with
  | nil => rfl
  | cons found _ ih => rw [List.map_cons, List.map_cons, ih, scalarOfText, found]

/-- Without a text nothing is written as one. -/
theorem demoteMoments_of_wordless {items : List Value}
    (wordless : ∀ item ∈ items, item.text? = none) : demoteMoments items = items := by
  have none : items.any (·.text?.isSome) = false := by
    simpa [List.any_eq_false] using wordless
  rw [demoteMoments, none, Bool.false_and, if_neg Bool.false_ne_true]

/-- What holds of all that is left beside texts held before, if it may be undone at moments. -/
theorem forall_of_demoteMoments {After Before : Value → Prop}
    (kept : ∀ item, After item → Before item)
    (undone : ∀ moment, After (.text moment.toText) → Before (.moment moment)) {items : List Value}
    (all : ∀ item ∈ demoteMoments items, After item) : ∀ item ∈ items, Before item := by
  intro item member
  rw [demoteMoments] at all
  split at all
  next =>
    have after := all _ (List.mem_map_of_mem member)
    split at after
    next moment => exact undone moment after
    next => exact kept item after
  next => exact kept item (all item member)

end Texts

section Arrays

/-- Scalars that make an array: numbers, or texts or moments of which there are some. -/
inductive Collects : List Value → Value → Prop where
  | numbers (values : List Number) : Collects (values.map .number) (.numbers values)
  | texts {texts : List String} (filled : texts ≠ []) : Collects (texts.map .text) (.texts texts)
  | moments {moments : List Moment} (filled : moments ≠ []) :
      Collects (moments.map .moment) (.moments moments)

/-- Elements are all of one kind where they come from a list of that kind. -/
theorem mapM_element {α : Type} {element? : Value → Option α} {scalar : α → Value}
    (tells : ∀ {item element}, element? item = some element ↔ item = scalar element)
    {items : List Value} {elements : List α} :
    items.mapM element? = some elements ↔ items = elements.map scalar := by
  induction items generalizing elements with
  | nil =>
      rw [List.mapM_nil]
      cases elements <;> simp [pure]
  | cons item rest ih =>
      rw [List.mapM_cons]
      constructor
      · intro found
        obtain ⟨element, head, found⟩ := Option.bind_eq_some_iff.mp found
        obtain ⟨others, tail, found⟩ := Option.bind_eq_some_iff.mp found
        cases found
        rw [List.map_cons, tells.mp head, ih.mp tail]
      · intro same
        cases elements with
        | nil => cases same
        | cons element others =>
            obtain ⟨head, tail⟩ := List.cons.inj same
            rw [tells.mpr head, ih.mpr tail]
            rfl

theorem number?_eq_some {item : Value} {element : Number} :
    item.number? = some element ↔ item = .number element := by
  cases item <;> simp [Value.number?]

theorem text?_eq_some {item : Value} {element : String} :
    item.text? = some element ↔ item = .text element := by
  cases item <;> simp [Value.text?]

theorem moment?_eq_some {item : Value} {element : Moment} :
    item.moment? = some element ↔ item = .moment element := by
  cases item <;> simp [Value.moment?]

/-- Where all items are elements of one kind, the array of the elements is made. -/
theorem collected_eq_ok {α : Type} {element? : Value → Option α} {scalar : α → Value}
    (tells : ∀ {item element}, element? item = some element ↔ item = scalar element)
    {array : List α → Value} {fault : Fault} {items : List Value} {value : Value} :
    (match items.mapM element? with
      | some elements => Except.ok (array elements)
      | none => .error fault) = .ok value ↔
      ∃ elements, items = elements.map scalar ∧ array elements = value := by
  cases found : items.mapM element? with
  | none =>
      constructor
      · nofun
      · rintro ⟨elements, same, -⟩
        cases found.symm.trans ((mapM_element tells).mpr same)
  | some elements =>
      have same := (mapM_element tells).mp found
      constructor
      · intro made
        cases made
        exact ⟨elements, same, rfl⟩
      · rintro ⟨others, alike, rfl⟩
        cases found.symm.trans ((mapM_element tells).mpr alike)
        rfl

theorem collects_of_ofItems {items : List Value} {value : Value}
    (made : Value.ofItems items = .ok value) : Collects items value := by
  cases items with
  | nil =>
      cases made
      exact .numbers []
  | cons first rest =>
      rw [Value.ofItems] at made
      split at made
      next =>
        obtain ⟨values, same, rfl⟩ := (collected_eq_ok number?_eq_some).mp made
        exact same ▸ .numbers values
      next =>
        obtain ⟨texts, same, rfl⟩ := (collected_eq_ok text?_eq_some).mp made
        have filled : texts ≠ [] := by
          rintro rfl
          cases same
        exact same ▸ .texts filled
      next =>
        obtain ⟨moments, same, rfl⟩ := (collected_eq_ok moment?_eq_some).mp made
        have filled : moments ≠ [] := by
          rintro rfl
          cases same
        exact same ▸ .moments filled
      next => cases made

theorem ofItems_of_collects {items : List Value} {value : Value} (collects : Collects items value) :
    Value.ofItems items = .ok value := by
  cases collects with
  | numbers values =>
      cases values with
      | nil => rfl
      | cons => exact (collected_eq_ok number?_eq_some).mpr ⟨_, rfl, rfl⟩
  | @texts texts filled =>
      cases texts with
      | nil => exact absurd rfl filled
      | cons => exact (collected_eq_ok text?_eq_some).mpr ⟨_, rfl, rfl⟩
  | @moments moments filled =>
      cases moments with
      | nil => exact absurd rfl filled
      | cons => exact (collected_eq_ok moment?_eq_some).mpr ⟨_, rfl, rfl⟩

/-- Items make an array where they are of one kind. -/
theorem ofItems_eq_ok {items : List Value} {value : Value} :
    Value.ofItems items = .ok value ↔ Collects items value :=
  ⟨collects_of_ofItems, ofItems_of_collects⟩

end Arrays

section Filing

/-- An array is filed where its scalars are of one kind, moments beside texts put back. -/
theorem valueOf_array {items : List Json} {value : Value} : valueOf (.array items) = .ok value ↔
    ∃ scalars, items.mapM scalarOf = .ok scalars ∧ Collects (demoteMoments scalars) value := by
  simp only [valueOf, ← ofItems_eq_ok]
  cases items.mapM scalarOf with
  | error fault => simp [bind, Except.bind]
  | ok scalars => simp [bind, Except.bind]

/-- A value is filed as the rules say. -/
theorem valueOf_of_filedAs {node : Json} {value : Value} (filed : FiledAs spelling node value) :
    valueOf node = .ok value := by
  cases filed with
  | null | bool | number => rfl
  | moment spelt => rw [valueOf, scalarOf_string, scalarOfText, spelt]; exact fun _ => nofun
  | text plain => rw [valueOf, scalarOf_string, scalarOfText, plain]; exact fun _ => nofun
  | numbers values =>
      apply valueOf_array.mpr
      refine ⟨values.map .number, mapM_scalarOf (fun _ => rfl) values, ?_⟩
      rw [demoteMoments_of_wordless (by simp [Value.text?])]
      exact .numbers values
  | @moments texts moments filled spelt =>
      apply valueOf_array.mpr
      refine ⟨texts.map scalarOfText, mapM_scalarOf scalarOf_string texts, ?_⟩
      rw [map_scalarOfText spelt, demoteMoments_of_wordless (by simp [Value.text?])]
      apply Collects.moments
      rintro rfl
      cases spelt
      exact filled rfl
  | @texts texts mixed =>
      apply valueOf_array.mpr
      refine ⟨texts.map scalarOfText, mapM_scalarOf scalarOf_string texts, ?_⟩
      rw [demoteMoments_mixed mixed]
      apply Collects.texts
      obtain ⟨text, member, -⟩ := mixed
      exact List.ne_nil_of_mem (List.mem_map_of_mem member)

/-- Every item of a list has a scalar in the list of them. -/
theorem exists_scalar_of_mem {items : List Json} {scalars : List Value} {item : Json}
    (found : items.mapM scalarOf = .ok scalars) (member : item ∈ items) :
    ∃ scalar ∈ scalars, scalarOf item = .ok scalar := by
  induction items generalizing scalars with
  | nil => cases member
  | cons first rest ih =>
      rw [List.mapM_cons] at found
      cases head : scalarOf first with
      | error fault =>
          rw [head] at found
          cases found
      | ok scalar =>
          cases tail : rest.mapM scalarOf with
          | error fault =>
              rw [head, tail] at found
              cases found
          | ok others =>
              rw [head, tail] at found
              cases found
              rcases List.mem_cons.mp member with rfl | later
              · exact ⟨scalar, List.mem_cons_self, head⟩
              · obtain ⟨other, inside, told⟩ := ih tail later
                exact ⟨other, List.mem_cons_of_mem _ inside, told⟩

theorem eq_number_of_scalarOf {node : Json} {value : Number}
    (found : scalarOf node = .ok (.number value)) : node = .number value := by
  cases node with
  | number other =>
      cases found
      rfl
  | string text =>
      rw [scalarOf_string, scalarOfText] at found
      split at found <;> cases found
  | null | bool | array | object => cases found

/-- A text, or a moment that is written as one. -/
def IsWorded (scalar : Value) : Prop := scalar.kind = .text ∨ scalar.kind = .moment

theorem eq_string_of_scalarOf {node : Json} {scalar : Value} (found : scalarOf node = .ok scalar)
    (worded : IsWorded scalar) : ∃ text, node = .string text := by
  cases node with
  | string text => exact ⟨text, rfl⟩
  | null | bool | number =>
      cases found
      rcases worded with kind | kind <;> cases kind
  | array | object => cases found

/-- Items that are all made of elements are a list of elements. -/
theorem exists_map_of_forall {α : Type} (node : α → Json) {items : List Json}
    (each : ∀ item ∈ items, ∃ element, item = node element) :
    ∃ elements : List α, items = elements.map node := by
  have ranged : items ∈ Set.range (List.map node) := by
    rw [Set.range_list_map]
    intro item member
    obtain ⟨element, same⟩ := each item member
    exact ⟨element, same.symm⟩
  obtain ⟨elements, same⟩ := ranged
  exact ⟨elements, same.symm⟩

/-- Only what the rules name is filed. -/
theorem isFileable_of_valueOf {node : Json} {value : Value} (filed : valueOf node = .ok value) :
    IsFileable node := by
  cases node with
  | null => exact .null
  | bool => exact .bool _
  | number => exact .number _
  | string => exact .string _
  | object => cases filed
  | array items =>
      obtain ⟨scalars, found, collects⟩ := valueOf_array.mp filed
      -- Numbers can only come from numbers, and texts or moments only from texts.
      have numbers (each : ∀ shown ∈ demoteMoments scalars, ∃ value, shown = .number value) :
          IsFileable (.array items) := by
        have before := forall_of_demoteMoments (fun _ => id) (fun _ => nofun) each
        obtain ⟨values, rfl⟩ := exists_map_of_forall Json.number fun item member => by
          obtain ⟨scalar, inside, told⟩ := exists_scalar_of_mem found member
          obtain ⟨value, rfl⟩ := before scalar inside
          exact ⟨value, eq_number_of_scalarOf told⟩
        exact .numbers values
      have texts (each : ∀ shown ∈ demoteMoments scalars, IsWorded shown) :
          IsFileable (.array items) := by
        have before := forall_of_demoteMoments (fun _ => id) (fun _ _ => .inr rfl) each
        obtain ⟨texts, rfl⟩ := exists_map_of_forall Json.string fun item member => by
          obtain ⟨scalar, inside, told⟩ := exists_scalar_of_mem found member
          exact eq_string_of_scalarOf told (before scalar inside)
        exact .texts texts
      generalize demoteMoments scalars = shown at collects numbers texts
      cases collects with
      | numbers values => exact numbers (by simp)
      | texts => exact texts (by simp [IsWorded, Value.kind])
      | moments => exact texts (by simp [IsWorded, Value.kind])

/-- A JSON value is filed as the value that it is said to be filed as. -/
theorem valueOf_eq_ok {node : Json} {value : Value} :
    valueOf node = .ok value ↔ FiledAs spelling node value := by
  constructor
  · intro filed
    obtain ⟨other, told⟩ := exists_filedAs spelling (isFileable_of_valueOf filed)
    have same := (valueOf_of_filedAs told).symm.trans filed
    cases same
    exact told
  · exact valueOf_of_filedAs

end Filing

end Concordance.Extract
