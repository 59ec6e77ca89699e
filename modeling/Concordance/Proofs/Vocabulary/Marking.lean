import Concordance.Proofs.Vocabulary.Forest

/-! Marking in a single pass. -/
namespace Concordance

namespace Node

/-- A word ends where a path leads to. -/
def holds (node : Node) (path : List UInt8) : Bool :=
  if path = [] then node.isWord else node.below.holds path

theorem holds_bare (path : List UInt8) : bare.holds path = false := by
  simp [holds, bare]

/-- The place with a word at the end of a path. -/
def insert (path : List UInt8) (node : Node) : Node :=
  ⟨node.isWord || path.isEmpty, node.below.insert path⟩

/-- The place without the word at the end of a path. -/
def erase (path : List UInt8) (node : Node) : Node :=
  ⟨node.isWord && !path.isEmpty, node.below.erase path⟩

/-- A place that leads to nothing once a word is taken from it has led to that word. -/
theorem holds_of_erase {node : Node} (canonical : node.below.IsCanonical) (leads : node ≠ bare)
    {path : List UInt8} (nothing : node.erase path = bare) : node.holds path = true := by
  obtain ⟨isWord, below⟩ := node
  obtain ⟨ends, under⟩ := Node.mk.inj nothing
  cases path with
  | nil =>
      have blank : below = .none := by rwa [Forest.erase] at under
      cases isWord with
      | true => rfl
      | false => exact absurd (congrArg (Node.mk false) blank) leads
  | cons byte rest =>
      have plain : isWord = false := by simpa using ends
      subst plain
      cases below with
      | none => exact absurd rfl leads
      | tree other stays inside beside =>
          obtain ⟨more, found⟩ := Forest.exists_holds_tree canonical
          have gone := Forest.holds_erase (byte :: rest) canonical (other :: more)
          rw [under, found, Forest.holds_none] at gone
          have same : other :: more = byte :: rest := by simpa using gone
          rwa [same] at found

/-- A word that is there already changes nothing. -/
theorem insert_of_holds {node : Node} (canonical : node.below.IsCanonical) {path : List UInt8}
    (known : node.holds path = true) : node.insert path = node := by
  cases path with
  | nil =>
      have ends : node.isWord = true := known
      simp [insert, Forest.insert, ← ends]
  | cons byte rest =>
      have held : node.below.holds (byte :: rest) = true := known
      have same : node.below.insert (byte :: rest) = node.below := by
        refine Forest.eq_of_holds (Forest.isCanonical_insert _ canonical) canonical fun other => ?_
        rw [Forest.holds_insert (List.cons_ne_nil byte rest) canonical]
        by_cases equal : other = byte :: rest
        · simp [equal, held]
        · simp [equal]
      simp [insert, same]

/-- A word that is not there leaves nothing behind. -/
theorem erase_of_not_holds {node : Node} (canonical : node.below.IsCanonical) {path : List UInt8}
    (missing : node.holds path = false) : node.erase path = node := by
  cases path with
  | nil =>
      have ends : node.isWord = false := missing
      simp [erase, Forest.erase, ← ends]
  | cons byte rest =>
      have held : node.below.holds (byte :: rest) = false := missing
      have same : node.below.erase (byte :: rest) = node.below := by
        refine Forest.eq_of_holds (Forest.isCanonical_erase _ canonical) canonical fun other => ?_
        rw [Forest.holds_erase _ canonical]
        by_cases equal : other = byte :: rest
        · simp [equal, held]
        · simp [equal]
      simp [erase, same]

end Node

namespace Forest

variable {forest : Forest}

theorem child?_of_isAfter {byte : UInt8} (canonical : forest.IsCanonical)
    (after : forest.IsAfter byte) : forest.child? byte = Option.none := by
  induction forest with
  | none => rfl
  | tree other isWord below beside _ ih =>
      obtain ⟨-, -, sorted, later⟩ := canonical
      rw [child?, if_neg (ne_of_lt after)]
      exact ih sorted (later.trans after)

/-- A tree of a canonical forest leads to a word, and what is below is canonical. -/
theorem isCanonical_child {byte : UInt8} {child : Node} (canonical : forest.IsCanonical)
    (found : forest.child? byte = some child) : child ≠ .bare ∧ child.below.IsCanonical := by
  induction forest with
  | none => cases found
  | tree other isWord below beside _ ih =>
      obtain ⟨leads, inside, sorted, -⟩ := canonical
      rw [child?] at found
      split at found
      next =>
        cases found
        refine ⟨fun same => ?_, inside⟩
        obtain ⟨rfl, rfl⟩ := Node.mk.inj same
        simp at leads
      next => exact ih sorted found

/-- The words that start with a byte are those of its tree. -/
theorem holds_cons (forest : Forest) (byte : UInt8) (rest : List UInt8) :
    forest.holds (byte :: rest) = ((forest.child? byte).getD .bare).holds rest := by
  induction forest with
  | none => exact (Node.holds_bare rest).symm
  | tree other isWord below beside _ ih =>
      rw [holds_tree, child?]
      by_cases same : byte = other
      · rw [if_pos same, if_pos same]
        rfl
      · rw [if_neg same, if_neg same]
        exact ih

/-- A word goes into the tree of its first byte. -/
theorem insert_eq_put (canonical : forest.IsCanonical) (byte : UInt8) (rest : List UInt8) :
    insert (byte :: rest) forest =
      forest.put byte (((forest.child? byte).getD .bare).insert rest) := by
  induction forest with
  | none =>
      rw [insert_none]
      cases rest <;> rfl
  | tree other isWord below beside _ ih =>
      rcases lt_trichotomy byte other with before | rfl | beyond
      · rw [child?_of_isAfter canonical before, insert_before before, put, if_pos before]
        cases rest <;> rfl
      · rw [insert_here, child?, if_pos rfl, put, if_neg (lt_irrefl byte), if_pos rfl]
        rfl
      · have apart : byte ≠ other := ne_of_gt beyond
        rw [insert_beyond beyond, ih canonical.2.2.1, child?, if_neg apart, put,
          if_neg (lt_asymm beyond), if_neg apart]

/-- A word that no tree leads to leaves the forest as it is. -/
theorem erase_of_child?_none {byte : UInt8} (missing : forest.child? byte = Option.none)
    (rest : List UInt8) : erase (byte :: rest) forest = forest := by
  induction forest with
  | none => rfl
  | tree other isWord below beside _ ih =>
      rw [child?] at missing
      split at missing
      next => cases missing
      next apart => rw [erase_beyond apart, ih missing]

/-- A word is taken from the tree of its first byte, which goes when it leads to no other word. -/
theorem erase_eq_put {byte : UInt8} {child : Node} (canonical : forest.IsCanonical)
    (found : forest.child? byte = some child) (rest : List UInt8) :
    erase (byte :: rest) forest =
      if child.erase rest = .bare then forest.drop byte else forest.put byte (child.erase rest) := by
  induction forest with
  | none => cases found
  | tree other isWord below beside _ ih =>
      obtain ⟨-, -, sorted, after⟩ := canonical
      rw [child?] at found
      by_cases same : byte = other
      · subst same
        rw [if_pos rfl] at found
        cases found
        rw [erase_here, prune, drop, if_pos rfl, put, if_neg (lt_irrefl byte), if_pos rfl]
        simp only [Node.erase, Node.bare, Node.mk.injEq, and_comm]
      · rw [if_neg same] at found
        have beyond : other < byte := by
          rcases lt_trichotomy byte other with less | equal | more
          · rw [child?_of_isAfter sorted (after.trans less)] at found
            cases found
          · exact absurd equal same
          · exact more
        rw [erase_beyond same, ih sorted found, drop, if_neg same, put, if_neg (lt_asymm beyond),
          if_neg same]
        split <;> rfl

end Forest

namespace Node

theorem holds_cons (node : Node) (byte : UInt8) (rest : List UInt8) :
    node.holds (byte :: rest) = ((node.below.child? byte).getD bare).holds rest := by
  rw [holds, if_neg (List.cons_ne_nil byte rest), Forest.holds_cons]

/-- The pass that marks a path puts the word in and tells whether it was missing. -/
theorem mark_eq (path : List UInt8) {node : Node} (canonical : node.below.IsCanonical) :
    node.mark path = (!node.holds path, node.insert path) := by
  induction path generalizing node with
  | nil => simp [mark, holds, insert, Forest.insert]
  | cons byte rest ih =>
      have inside : ((node.below.child? byte).getD bare).below.IsCanonical := by
        cases found : node.below.child? byte with
        | none => exact True.intro
        | some child => exact (Forest.isCanonical_child canonical found).2
      have more : node.insert (byte :: rest) = ⟨node.isWord,
          node.below.put byte (((node.below.child? byte).getD bare).insert rest)⟩ := by
        rw [insert, Forest.insert_eq_put canonical]
        simp
      rw [mark, ih inside, holds_cons, more]

/-- The pass that unmarks a path takes the word out and tells whether it was there. -/
theorem unmark_eq (path : List UInt8) {node : Node} (canonical : node.below.IsCanonical) :
    node.unmark path = (node.holds path, node.erase path) := by
  induction path generalizing node with
  | nil => simp [unmark, holds, erase, Forest.erase]
  | cons byte rest ih =>
      rw [unmark, holds_cons]
      cases found : node.below.child? byte with
      | none =>
          simp [erase, Forest.erase_of_child?_none found, holds_bare]
      | some child =>
          obtain ⟨leads, inside⟩ := Forest.isCanonical_child canonical found
          have taken : node.erase (byte :: rest) = ⟨node.isWord,
              if child.erase rest = bare then node.below.drop byte
              else node.below.put byte (child.erase rest)⟩ := by
            rw [erase, Forest.erase_eq_put canonical found]
            simp
          simp only [ih inside, taken, Option.getD_some]
          -- A tree that leads to nothing now led to the word before, so pruning waits for no other.
          by_cases nothing : child.erase rest = bare
          · rw [if_pos ⟨holds_of_erase inside leads nothing, nothing⟩, if_pos nothing]
          · rw [if_neg fun both => nothing both.2, if_neg nothing]

end Node

end Concordance
