import Concordance.Text.Utf8

/-! The words of a catalog as a tree of bytes, for completing the start of a word. -/
namespace Concordance

/-- Trees beside one another: the byte of the first one, whether a word ends there, the trees
below it and the trees beside it. -/
inductive Forest where
  | none
  | tree (byte : UInt8) (isWord : Bool) (below beside : Forest)
deriving DecidableEq, Repr

/-- A place in a tree: whether a word ends there, and the trees below. -/
structure Node where
  isWord : Bool
  below : Forest
deriving DecidableEq, Repr

namespace Forest

/-- The tree of one word of which a byte has been taken. -/
def chain (byte : UInt8) : List UInt8 → Forest
  | [] => tree byte true none none
  | next :: rest => tree byte false (chain next rest) none

/-- The forest with one more word. -/
def insert : List UInt8 → Forest → Forest
  | [], forest => forest
  | byte :: rest, none => chain byte rest
  | byte :: rest, tree other isWord below beside =>
      if byte < other then
        match chain byte rest with
        | none => none
        | tree first ends under _ => tree first ends under (tree other isWord below beside)
      else if byte = other then
        match rest with
        | [] => tree other true below beside
        | next :: more => tree other isWord (insert (next :: more) below) beside
      else tree other isWord below (insert (byte :: rest) beside)

/-- The forest without a word, and without the trees that only led to it. -/
def erase : List UInt8 → Forest → Forest
  | [], forest => forest
  | _ :: _, none => none
  | byte :: rest, tree other isWord below beside =>
      if byte = other then
        let stays := isWord && !rest.isEmpty
        let under := if rest.isEmpty then below else erase rest below
        if under = none ∧ stays = false then beside else tree other stays under beside
      else tree other isWord below (erase (byte :: rest) beside)

/-- The tree that a word leads to: whether the word ends there and what is below. -/
def find? : List UInt8 → Forest → Option (Bool × Forest)
  | [], _ => Option.none
  | _ :: _, none => Option.none
  | byte :: rest, tree other isWord below beside =>
      if byte = other then
        if rest.isEmpty then some (isWord, below) else find? rest below
      else find? (byte :: rest) beside

/-- The place that a byte leads to. -/
def child? (byte : UInt8) : Forest → Option Node
  | none => Option.none
  | tree other isWord below beside =>
      if byte = other then some ⟨isWord, below⟩ else child? byte beside

/-- The forest in which a byte leads to a place, whatever it led to before. -/
def put (byte : UInt8) (child : Node) : Forest → Forest
  | none => tree byte child.isWord child.below none
  | tree other isWord below beside =>
      if byte < other then tree byte child.isWord child.below (tree other isWord below beside)
      else if byte = other then tree byte child.isWord child.below beside
      else tree other isWord below (put byte child beside)

/-- The forest in which a byte leads nowhere. -/
def drop (byte : UInt8) : Forest → Forest
  | none => none
  | tree other isWord below beside =>
      if byte = other then beside else tree other isWord below (drop byte beside)

/-- The text that a path spells, when it spells one. -/
def text? (path : List UInt8) : Option (List Char) := (Utf8.decode path).toOption

/-- The words behind a path are added as texts to those found before, one after another until there
are enough. What stands behind is not looked at then. -/
def collect (limit : Nat) (path : List UInt8) : Forest → List (List Char) → List (List Char)
  | none, found => found
  | tree byte isWord below beside, found =>
      if limit ≤ found.length then found
      else
        let here := path ++ [byte]
        let found := if isWord then found ++ (text? here).toList else found
        collect limit path beside (collect limit here below found)

end Forest

namespace Node

/-- The place where no word ends and that leads nowhere. -/
def bare : Node := ⟨false, .none⟩

/-- A word ends where a path leads to. Places on the path that are missing are made. The answer
tells whether no word ended there before. -/
def mark : List UInt8 → Node → Bool × Node
  | [], node => (!node.isWord, { node with isWord := true })
  | byte :: rest, node =>
      let (isNew, child) := mark rest ((node.below.child? byte).getD bare)
      (isNew, { node with below := node.below.put byte child })

/-- No word ends where a path leads to. On the way back, a place from which a word has been taken and
that leads to no other word goes as well. The answer tells whether a word ended there before. -/
def unmark : List UInt8 → Node → Bool × Node
  | [], node => (node.isWord, { node with isWord := false })
  | byte :: rest, node =>
      match node.below.child? byte with
      | none => (false, node)
      | some child =>
          let (wasWord, child) := unmark rest child
          if wasWord ∧ child = bare then (wasWord, { node with below := node.below.drop byte })
          else (wasWord, { node with below := node.below.put byte child })

end Node

/-- A set of words with the number of them. The empty word is no path in the forest. -/
structure Vocabulary where
  hasEmpty : Bool
  forest : Forest
  size : Nat
deriving DecidableEq, Repr

namespace Vocabulary

def empty : Vocabulary := ⟨false, .none, 0⟩

/-- The place that all words start from. -/
def root (vocabulary : Vocabulary) : Node := ⟨vocabulary.hasEmpty, vocabulary.forest⟩

/-- What a start leads to: whether it is a word itself and what is below. -/
def find? (vocabulary : Vocabulary) (start : List UInt8) : Option (Bool × Forest) :=
  if start.isEmpty then some (vocabulary.hasEmpty, vocabulary.forest)
  else vocabulary.forest.find? start

def contains (vocabulary : Vocabulary) (word : List Char) : Bool :=
  match vocabulary.find? (Utf8.encode word) with
  | some (isWord, _) => isWord
  | none => false

/-- The vocabulary with one more word. A word that is there already changes nothing. -/
def insert (vocabulary : Vocabulary) (word : List Char) : Vocabulary :=
  if vocabulary.contains word then vocabulary
  else
    let size := vocabulary.size + 1
    if word.isEmpty then { vocabulary with hasEmpty := true, size }
    else { vocabulary with forest := vocabulary.forest.insert (Utf8.encode word), size }

/-- The vocabulary without a word. A word that is not there changes nothing. -/
def erase (vocabulary : Vocabulary) (word : List Char) : Vocabulary :=
  if vocabulary.contains word then
    let size := vocabulary.size - 1
    if word.isEmpty then { vocabulary with hasEmpty := false, size }
    else { vocabulary with forest := vocabulary.forest.erase (Utf8.encode word), size }
  else vocabulary

/-- One more word in a single pass, and whether it is new. -/
def add (vocabulary : Vocabulary) (word : List Char) : Bool × Vocabulary :=
  let (isNew, root) := vocabulary.root.mark (Utf8.encode word)
  (isNew, ⟨root.isWord, root.below, if isNew then vocabulary.size + 1 else vocabulary.size⟩)

/-- One word less in a single pass, and whether it was there. -/
def remove (vocabulary : Vocabulary) (word : List Char) : Bool × Vocabulary :=
  let (wasWord, root) := vocabulary.root.unmark (Utf8.encode word)
  (wasWord, ⟨root.isWord, root.below, if wasWord then vocabulary.size - 1 else vocabulary.size⟩)

/-- At most `limit` words that start in a given way. Where there are none, the start itself is the
only answer. -/
def complete (vocabulary : Vocabulary) (start : List Char) (limit : Nat) : List (List Char) :=
  match vocabulary.find? (Utf8.encode start) with
  | none => [start]
  | some (isWord, below) =>
      let found := if 0 < limit ∧ isWord then [start] else []
      match below.collect limit (Utf8.encode start) found with
      | [] => [start]
      | found => found

end Vocabulary
end Concordance
