import Concordance.Posting

/-! Sets of document numbers, kept as bits that are packed into words. -/
namespace Concordance

namespace IdSet

/-- The number of words that the bits up to a greatest one take, 64 in each. The bits are counted in
a word themselves, so up to the greatest number of all there are none. -/
def wordCount (greatest : Nat) : Nat := ((greatest + 1) % UInt64.size + 63) / 64

end IdSet

/-- The number `i` is in the set when bit `i % 64` of word `i / 64` is set. -/
structure IdSet where
  greatest : Nat
  words : List UInt64
  sized : words.length = IdSet.wordCount greatest
deriving DecidableEq, Repr

namespace IdSet

/-- The bit of a number in its word. -/
def bitOf (id : Nat) : UInt64 := 1 <<< UInt64.ofNat (id % 64)

def empty (greatest : Nat) : IdSet where
  greatest := greatest
  words := List.replicate (wordCount greatest) 0
  sized := List.length_replicate

/-- The words without bit 0 and without the bits beyond the greatest one. -/
def maskEnds (greatest : Nat) (words : List UInt64) : List UInt64 :=
  let words := words.modify 0 (· &&& ~~~1)
  let used := greatest % 64 + 1
  if used < 64 then words.modify (words.length - 1) (· &&& ((1 <<< UInt64.ofNat used) - 1))
  else words

theorem length_maskEnds (greatest : Nat) (words : List UInt64) :
    (maskEnds greatest words).length = words.length := by
  simp only [maskEnds]
  split <;> simp

/-- The set of all numbers from 1 to the greatest. -/
def full (greatest : Nat) : IdSet where
  greatest := greatest
  words := maskEnds greatest ((empty greatest).words.map fun _ => ~~~0)
  sized := by rw [length_maskEnds, List.length_map, (empty greatest).sized, empty]

/-- The set with one more number. Numbers out of range are left out. -/
def insert (set : IdSet) (id : Nat) : IdSet :=
  if id = 0 ∨ set.greatest < id then set
  else
    { set with
      words := set.words.modify (id / 64) (· ||| bitOf id)
      sized := by rw [List.length_modify, set.sized] }

def contains (set : IdSet) (id : Nat) : Bool :=
  if id = 0 ∨ set.greatest < id then false
  else set.words.getD (id / 64) 0 &&& bitOf id != 0

def ofIds (greatest : Nat) (ids : List Nat) : IdSet := ids.foldl insert (empty greatest)

/-- The number is in range, but the set has no word for its bit. -/
def lacksWord (set : IdSet) (id : Nat) : Bool :=
  id ≠ 0 && id ≤ set.greatest && set.words.length ≤ id / 64

/-- The set with one more number, where the word for it is found. -/
def insert? (set : IdSet) (id : Nat) : Option IdSet :=
  if set.lacksWord id then none else some (set.insert id)

/-- The set of numbers, where the words for all of them are found. -/
def ofIds? (greatest : Nat) (ids : List Nat) : Option IdSet := ids.foldlM insert? (empty greatest)

/-- The words of a first list, each joined to the one at its place in a second list. -/
def joinWords (join : UInt64 → UInt64 → UInt64) : List UInt64 → List UInt64 → List UInt64
  | first :: firsts, second :: seconds => join first second :: joinWords join firsts seconds
  | firsts, _ => firsts

theorem length_joinWords (join : UInt64 → UInt64 → UInt64) (firsts seconds : List UInt64) :
    (joinWords join firsts seconds).length = firsts.length := by
  induction firsts generalizing seconds with
  | nil => rfl
  | cons first firsts ih =>
      cases seconds with
      | nil => rfl
      | cons second seconds => simp [joinWords, ih]

/-- What is in both sets. -/
def inter (first second : IdSet) : IdSet :=
  { first with
    words := joinWords (· &&& ·) first.words second.words
    sized := by rw [length_joinWords, first.sized] }

/-- What is in one of the sets or in both. -/
def union (first second : IdSet) : IdSet :=
  { first with
    words := joinWords (· ||| ·) first.words second.words
    sized := by rw [length_joinWords, first.sized] }

/-- The numbers in range that are not in the set. -/
def complement (set : IdSet) : IdSet :=
  { set with
    words := maskEnds set.greatest (set.words.map (~~~ ·))
    sized := by rw [length_maskEnds, List.length_map, set.sized] }

/-- A bit of a word. -/
def bitIn (word : UInt64) (place : Nat) : Bool := word.toBitVec.getLsbD place

/-- The number of bits of a word that are set. -/
def onesIn (word : UInt64) : Nat := (List.range 64).countP (bitIn word)

/-- The number of bits below the lowest one that is set. -/
def trailingZeros (word : UInt64) : Nat := ((List.range 64).find? (bitIn word)).getD 64

/-- The word without the lowest of its bits that are set. -/
def dropLowest (word : UInt64) : UInt64 := word &&& (word - 1)

theorem toNat_pred {word : UInt64} (filled : word ≠ 0) : (word - 1).toNat = word.toNat - 1 := by
  have positive : word.toNat ≠ 0 := fun zero => filled (UInt64.toNat_inj.mp zero)
  have least : (1 : UInt64) ≤ word := by
    rw [UInt64.le_iff_toNat_le, UInt64.toNat_one]
    exact Nat.one_le_iff_ne_zero.mpr positive
  exact UInt64.toNat_sub_of_le _ _ least

theorem dropLowest_lt {word : UInt64} (filled : word ≠ 0) :
    (dropLowest word).toNat < word.toNat := by
  have positive : word.toNat ≠ 0 := fun zero => filled (UInt64.toNat_inj.mp zero)
  calc (dropLowest word).toNat = word.toNat &&& (word - 1).toNat := UInt64.toNat_and ..
    _ ≤ (word - 1).toNat := Nat.and_le_right
    _ = word.toNat - 1 := toNat_pred filled
    _ < word.toNat := Nat.pred_lt positive

/-- The bits of a word that are set. The lowest of them is taken off until none is left. -/
def bitsIn (word : UInt64) : List Nat :=
  if word = 0 then [] else trailingZeros word :: bitsIn (dropLowest word)
termination_by word.toNat
decreasing_by exact dropLowest_lt ‹_›

/-- The numbers of the set in ascending order. -/
def toList (set : IdSet) : List Nat :=
  set.words.zipIdx.flatMap fun (word, place) => (bitsIn word).map (64 * place + ·)

def size (set : IdSet) : Nat :=
  set.words.foldl (fun count word => count + onesIn word) 0

def isEmpty (set : IdSet) : Bool := set.words.all (· == 0)

/-- The numbers between curly brackets. -/
def text (set : IdSet) : String :=
  "\x7b" ++ ", ".intercalate (set.toList.map fun id => String.ofList (Nat.toDigits 10 id)) ++ "\x7d"

end IdSet
end Concordance
