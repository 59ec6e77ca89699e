import Concordance.Vocabulary
import Concordance.Proofs.Text.ByteOrder

namespace Concordance

namespace Forest

/-- A word ends in the forest. -/
def holds (forest : Forest) (word : List UInt8) : Bool := (find? word forest).any Prod.fst

@[simp] theorem holds_nil (forest : Forest) : forest.holds [] = false := by
  cases forest <;> rfl

@[simp] theorem holds_none (word : List UInt8) : none.holds word = false := by
  cases word <;> rfl

theorem holds_tree (byte other : UInt8) (rest : List UInt8) (isWord : Bool)
    (below beside : Forest) :
    (tree other isWord below beside).holds (byte :: rest) =
      if byte = other then if rest = [] then isWord else below.holds rest
      else beside.holds (byte :: rest) := by
  unfold holds
  rw [find?]
  by_cases same : byte = other
  · rw [if_pos same, if_pos same]
    cases rest <;> simp
  · rw [if_neg same, if_neg same]

/-- The bytes of the forest come after a byte. -/
def IsAfter (byte : UInt8) : Forest → Prop
  | none => True
  | tree other _ _ _ => byte < other

/-- The trees of the forest stand in ascending order, and each of them leads to a word. -/
def IsCanonical : Forest → Prop
  | none => True
  | tree byte isWord below beside =>
      (isWord = true ∨ below ≠ none) ∧ below.IsCanonical ∧ beside.IsCanonical ∧
        beside.IsAfter byte

theorem IsAfter.trans {first second : UInt8} {forest : Forest} (less : first < second)
    (after : forest.IsAfter second) : forest.IsAfter first := by
  cases forest with
  | none => exact True.intro
  | tree other => exact lt_trans less after

/-- No word starts with a byte that comes before all trees. -/
theorem holds_of_isAfter {byte : UInt8} {forest : Forest} (canonical : forest.IsCanonical)
    (after : forest.IsAfter byte) (rest : List UInt8) : forest.holds (byte :: rest) = false := by
  induction forest with
  | none => rfl
  | tree other isWord below beside _ ih =>
      obtain ⟨-, -, sorted, later⟩ := canonical
      rw [holds_tree, if_neg (ne_of_lt after)]
      exact ih sorted (later.trans after)

/-- A tree leads to a word. -/
theorem exists_holds_tree {byte : UInt8} {isWord : Bool} {below beside : Forest}
    (canonical : (tree byte isWord below beside).IsCanonical) :
    ∃ rest, (tree byte isWord below beside).holds (byte :: rest) = true := by
  induction below generalizing byte isWord beside with
  | none =>
      obtain ⟨leads, -⟩ := canonical
      refine ⟨[], ?_⟩
      rw [holds_tree, if_pos rfl, if_pos rfl]
      simpa using leads
  | tree next ends under other ih _ =>
      obtain ⟨-, inside, -⟩ := canonical
      obtain ⟨rest, found⟩ := ih inside
      refine ⟨next :: rest, ?_⟩
      rw [holds_tree, if_pos rfl, if_neg (by simp)]
      exact found

/-- Canonical forests that hold the same words are the same forest. -/
theorem eq_of_holds {first second : Forest} (left : first.IsCanonical)
    (right : second.IsCanonical) (same : ∀ word, first.holds word = second.holds word) :
    first = second := by
  induction first generalizing second with
  | none =>
      cases second with
      | none => rfl
      | tree =>
          obtain ⟨rest, found⟩ := exists_holds_tree right
          rw [← same, holds_none] at found
          cases found
  | tree byte isWord below beside ihBelow ihBeside =>
      cases second with
      | none =>
          obtain ⟨rest, found⟩ := exists_holds_tree left
          rw [same, holds_none] at found
          cases found
      | tree other ends under next =>
          -- The lesser of two first bytes starts a word that the other forest cannot hold.
          have equal : byte = other := by
            rcases lt_trichotomy byte other with less | equal | more
            · obtain ⟨rest, found⟩ := exists_holds_tree left
              rw [same, holds_of_isAfter right less] at found
              cases found
            · exact equal
            · obtain ⟨rest, found⟩ := exists_holds_tree right
              rw [← same, holds_of_isAfter left more] at found
              cases found
          subst equal
          have words : isWord = ends := by
            have single := same [byte]
            rwa [holds_tree, holds_tree, if_pos rfl, if_pos rfl, if_pos rfl, if_pos rfl] at single
          have inside : below = under := by
            apply ihBelow left.2.1 right.2.1
            intro word
            cases word with
            | nil => rw [holds_nil, holds_nil]
            | cons c rest =>
                have longer := same (byte :: c :: rest)
                rwa [holds_tree, holds_tree, if_pos rfl, if_pos rfl, if_neg (by simp),
                  if_neg (by simp)] at longer
          have outside : beside = next := by
            apply ihBeside left.2.2.1 right.2.2.1
            intro word
            cases word with
            | nil => rw [holds_nil, holds_nil]
            | cons c rest =>
                by_cases here : c = byte
                · rw [here, holds_of_isAfter left.2.2.1 left.2.2.2,
                    holds_of_isAfter right.2.2.1 right.2.2.2]
                · have further := same (c :: rest)
                  rwa [holds_tree, holds_tree, if_neg here, if_neg here] at further
          rw [words, inside, outside]

/-- The trees below the first byte of a chain. -/
def chainBelow : List UInt8 → Forest
  | [] => none
  | next :: rest => chain next rest

theorem chain_eq (byte : UInt8) (rest : List UInt8) :
    chain byte rest = tree byte rest.isEmpty (chainBelow rest) none := by
  cases rest <;> rfl

theorem isCanonical_chain (byte : UInt8) (rest : List UInt8) : (chain byte rest).IsCanonical := by
  induction rest generalizing byte with
  | nil => exact ⟨.inl rfl, True.intro, True.intro, True.intro⟩
  | cons next rest ih =>
      refine ⟨.inr ?_, ih next, True.intro, True.intro⟩
      rw [chain_eq]
      simp

theorem isCanonical_chainBelow (rest : List UInt8) : (chainBelow rest).IsCanonical := by
  cases rest with
  | nil => exact True.intro
  | cons next rest => exact isCanonical_chain next rest

theorem holds_chainBelow (rest : List UInt8) {word : List UInt8} (filled : word ≠ []) :
    (chainBelow rest).holds word = decide (word = rest) := by
  induction rest generalizing word with
  | nil => simp [chainBelow, filled]
  | cons next rest ih =>
      obtain ⟨byte, more, rfl⟩ := List.exists_cons_of_ne_nil filled
      rw [chainBelow, chain_eq, holds_tree]
      by_cases same : byte = next
      · rw [if_pos same]
        by_cases short : more = []
        · rw [if_pos short, short, same]
          cases rest <;> simp
        · rw [if_neg short, ih short, same]
          simp
      · rw [if_neg same, holds_none]
        simp [same]

theorem insert_none (byte : UInt8) (rest : List UInt8) :
    insert (byte :: rest) none = tree byte rest.isEmpty (chainBelow rest) none := by
  show chain byte rest = _
  exact chain_eq byte rest

/-- A word with an earlier byte gets a tree in front. -/
theorem insert_before {byte other : UInt8} (less : byte < other) (rest : List UInt8)
    (isWord : Bool) (below beside : Forest) :
    insert (byte :: rest) (tree other isWord below beside) =
      tree byte rest.isEmpty (chainBelow rest) (tree other isWord below beside) := by
  rw [insert.eq_def]
  simp only [if_pos less, chain_eq]

/-- A word with the byte of the first tree goes into it. -/
theorem insert_here (byte : UInt8) (rest : List UInt8) (isWord : Bool) (below beside : Forest) :
    insert (byte :: rest) (tree byte isWord below beside) =
      tree byte (isWord || rest.isEmpty) (insert rest below) beside := by
  rw [insert.eq_def]
  cases rest <;> simp [insert]

/-- A word with a later byte goes into the trees beside. -/
theorem insert_beyond {byte other : UInt8} (more : other < byte) (rest : List UInt8)
    (isWord : Bool) (below beside : Forest) :
    insert (byte :: rest) (tree other isWord below beside) =
      tree other isWord below (insert (byte :: rest) beside) := by
  rw [insert.eq_def]
  simp only [if_neg (lt_asymm more), if_neg (ne_of_gt more)]

/-- Inserting a word with a later byte keeps a forest behind a byte. -/
theorem isAfter_insert {first byte : UInt8} (less : first < byte) (rest : List UInt8)
    {forest : Forest} (after : forest.IsAfter first) :
    (insert (byte :: rest) forest).IsAfter first := by
  cases forest with
  | none =>
      rw [insert_none]
      exact less
  | tree other isWord below beside =>
      rcases lt_trichotomy byte other with before | rfl | beyond
      · rw [insert_before before]
        exact less
      · rw [insert_here]
        exact less
      · rw [insert_beyond beyond]
        exact after

theorem insert_ne_none (word : List UInt8) {forest : Forest} (filled : forest ≠ none) :
    insert word forest ≠ none := by
  cases word with
  | nil => rwa [insert]
  | cons byte rest =>
      cases forest with
      | none => exact absurd rfl filled
      | tree other isWord below beside =>
          rcases lt_trichotomy byte other with before | rfl | beyond
          · rw [insert_before before]
            simp
          · rw [insert_here]
            simp
          · rw [insert_beyond beyond]
            simp

/-- A forest with one more word is canonical again. -/
theorem isCanonical_insert (word : List UInt8) {forest : Forest} (canonical : forest.IsCanonical) :
    (insert word forest).IsCanonical := by
  induction forest generalizing word with
  | none =>
      cases word with
      | nil => exact canonical
      | cons byte rest =>
          rw [insert]
          exact isCanonical_chain byte rest
  | tree other isWord below beside ihBelow ihBeside =>
      cases word with
      | nil => exact canonical
      | cons byte rest =>
          obtain ⟨leads, inside, sorted, after⟩ := canonical
          rcases lt_trichotomy byte other with before | rfl | beyond
          · rw [insert_before before]
            refine ⟨?_, isCanonical_chainBelow rest, ⟨leads, inside, sorted, after⟩, before⟩
            cases rest with
            | nil => exact .inl rfl
            | cons next more =>
                right
                rw [chainBelow, chain_eq]
                simp
          · rw [insert_here]
            refine ⟨?_, ihBelow rest inside, sorted, after⟩
            rcases leads with ends | filled
            · left
              rw [ends, Bool.true_or]
            · exact .inr (insert_ne_none rest filled)
          · rw [insert_beyond beyond]
            exact ⟨leads, inside, ihBeside _ sorted, isAfter_insert beyond rest after⟩

/-- A word that is put into a forest joins its words, and nothing else does. -/
theorem holds_insert {word : List UInt8} (filled : word ≠ []) {forest : Forest}
    (canonical : forest.IsCanonical) (other : List UInt8) :
    (insert word forest).holds other = (forest.holds other || decide (other = word)) := by
  induction forest generalizing word other with
  | none =>
      obtain ⟨byte, rest, rfl⟩ := List.exists_cons_of_ne_nil filled
      rw [insert, holds_none, Bool.false_or]
      by_cases blank : other = []
      · rw [blank, holds_nil]
        rfl
      · exact holds_chainBelow (byte :: rest) blank
  | tree here isWord below beside ihBelow ihBeside =>
      obtain ⟨byte, rest, rfl⟩ := List.exists_cons_of_ne_nil filled
      obtain ⟨leads, inside, sorted, after⟩ := canonical
      cases other with
      | nil => simp
      | cons c more =>
          rcases lt_trichotomy byte here with before | rfl | beyond
          · rw [insert_before before, holds_tree]
            by_cases same : c = byte
            -- No word of a canonical forest starts with a byte before its first.
            · have whole : (tree here isWord below beside).IsCanonical :=
                ⟨leads, inside, sorted, after⟩
              have missing := holds_of_isAfter whole before more
              rw [if_pos same, same, missing, Bool.false_or]
              by_cases short : more = []
              · rw [if_pos short, short]
                cases rest <;> simp
              · rw [if_neg short, holds_chainBelow rest short]
                simp
            · rw [if_neg same]
              simp [same]
          · rw [insert_here, holds_tree, holds_tree]
            by_cases same : c = byte
            · rw [if_pos same, if_pos same, same]
              by_cases short : more = []
              · rw [if_pos short, if_pos short, short]
                cases rest <;> simp
              · rw [if_neg short, if_neg short]
                by_cases ends : rest = []
                · rw [ends, insert]
                  simp [short]
                · rw [ihBelow ends inside]
                  simp
            · rw [if_neg same, if_neg same]
              simp [same]
          · rw [insert_beyond beyond, holds_tree, holds_tree]
            by_cases same : c = here
            · rw [if_pos same, if_pos same]
              have apart : here ≠ byte := ne_of_lt beyond
              simp [same, apart]
            · rw [if_neg same, if_neg same]
              exact ihBeside filled sorted _

/-- A tree beside others, unless it leads to no word. -/
def prune (byte : UInt8) (stays : Bool) (under beside : Forest) : Forest :=
  if under = none ∧ stays = false then beside else tree byte stays under beside

/-- A word with the byte of the first tree is taken from it. -/
theorem erase_here (byte : UInt8) (rest : List UInt8) (isWord : Bool) (below beside : Forest) :
    erase (byte :: rest) (tree byte isWord below beside) =
      prune byte (isWord && !rest.isEmpty) (erase rest below) beside := by
  rw [erase, if_pos rfl]
  unfold prune
  cases rest <;> simp [erase]

theorem erase_beyond {byte other : UInt8} (apart : byte ≠ other) (rest : List UInt8)
    (isWord : Bool) (below beside : Forest) :
    erase (byte :: rest) (tree other isWord below beside) =
      tree other isWord below (erase (byte :: rest) beside) := by
  rw [erase, if_neg apart]

/-- Pruning keeps a forest canonical. -/
theorem isCanonical_prune {byte : UInt8} {stays : Bool} {under beside : Forest}
    (inside : under.IsCanonical) (sorted : beside.IsCanonical) (after : beside.IsAfter byte) :
    (prune byte stays under beside).IsCanonical := by
  unfold prune
  split
  next => exact sorted
  next leads =>
    refine ⟨?_, inside, sorted, after⟩
    by_cases filled : under = none
    · left
      rw [← Bool.not_eq_false]
      exact fun ends => leads ⟨filled, ends⟩
    · exact .inr filled

theorem isAfter_prune {first byte : UInt8} (less : first < byte) {stays : Bool}
    {under beside : Forest} (after : beside.IsAfter byte) :
    (prune byte stays under beside).IsAfter first := by
  unfold prune
  split
  next => exact after.trans less
  next => exact less

/-- Pruning loses no word. -/
theorem holds_prune {byte : UInt8} {stays : Bool} {under beside : Forest}
    (sorted : beside.IsCanonical) (after : beside.IsAfter byte) (word : List UInt8) :
    (prune byte stays under beside).holds word = (tree byte stays under beside).holds word := by
  unfold prune
  split
  next bare =>
    cases word with
    | nil => rw [holds_nil, holds_nil]
    | cons c rest =>
        rw [holds_tree, bare.1, bare.2]
        by_cases same : c = byte
        · rw [if_pos same, same, holds_of_isAfter sorted after, holds_none, ite_self]
        · rw [if_neg same]
  next => rfl

theorem isAfter_erase {first : UInt8} (word : List UInt8) {forest : Forest}
    (canonical : forest.IsCanonical) (after : forest.IsAfter first) :
    (erase word forest).IsAfter first := by
  cases word with
  | nil => rwa [erase]
  | cons byte rest =>
      cases forest with
      | none => exact True.intro
      | tree other isWord below beside =>
          by_cases same : byte = other
          · subst same
            rw [erase_here]
            exact isAfter_prune after canonical.2.2.2
          · rw [erase_beyond same]
            exact after

/-- A forest without a word is canonical again. -/
theorem isCanonical_erase (word : List UInt8) {forest : Forest} (canonical : forest.IsCanonical) :
    (erase word forest).IsCanonical := by
  induction forest generalizing word with
  | none => cases word <;> exact True.intro
  | tree other isWord below beside ihBelow ihBeside =>
      cases word with
      | nil => exact canonical
      | cons byte rest =>
          obtain ⟨leads, inside, sorted, after⟩ := canonical
          by_cases same : byte = other
          · subst same
            rw [erase_here]
            exact isCanonical_prune (ihBelow rest inside) sorted after
          · rw [erase_beyond same]
            exact ⟨leads, inside, ihBeside _ sorted, isAfter_erase _ sorted after⟩

/-- A word that is erased leaves a forest, and no other word does. -/
theorem holds_erase (word : List UInt8) {forest : Forest} (canonical : forest.IsCanonical)
    (other : List UInt8) :
    (erase word forest).holds other = (forest.holds other && decide (other ≠ word)) := by
  induction forest generalizing word other with
  | none => cases word <;> simp [erase]
  | tree here isWord below beside ihBelow ihBeside =>
      obtain ⟨leads, inside, sorted, after⟩ := canonical
      cases word with
      | nil =>
          cases other with
          | nil => simp
          | cons c more => simp [erase]
      | cons byte rest =>
          cases other with
          | nil => simp
          | cons c more =>
              by_cases first : byte = here
              · subst first
                rw [erase_here, holds_prune sorted after, holds_tree, holds_tree]
                by_cases same : c = byte
                · rw [if_pos same, if_pos same, ihBelow rest inside, same]
                  by_cases short : more = []
                  · rw [if_pos short, if_pos short, short]
                    cases rest <;> simp
                  · rw [if_neg short, if_neg short]
                    simp
                · rw [if_neg same, if_neg same]
                  simp [same]
              · rw [erase_beyond first, holds_tree, holds_tree]
                by_cases same : c = here
                · rw [if_pos same, if_pos same]
                  have apart : here ≠ byte := fun equal => first equal.symm
                  simp [same, apart]
                · rw [if_neg same, if_neg same]
                  exact ihBeside _ sorted _

end Forest

end Concordance
