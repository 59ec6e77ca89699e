import Concordance.Ranking

/-! A ranking kept in tiers. -/
namespace Concordance

/-- Where a tier stands: the better score comes first. -/
structure Height where
  score : Int
deriving DecidableEq

namespace Height

instance : Ord Height := ⟨compareOn fun height => -height.score⟩

instance : Std.TransOrd Height :=
  inferInstanceAs (Std.TransCmp (compareOn fun height : Height => -height.score))

instance : Std.LawfulEqOrd Height where
  compare_self := Std.ReflCmp.compare_self
  eq_of_compare {first second} same := by
    have scores : -first.score = -second.score := Std.LawfulEqOrd.eq_of_compare (α := Int) same
    cases first
    cases second
    rw [Height.mk.injEq]
    exact Int.neg_inj.mp scores

end Height

/-- The documents of each score, and how many there are in all. -/
structure Tiers where
  groups : OrderedMap Height (OrderedSet DocId)
  size : Nat
deriving DecidableEq

namespace Tiers

def empty : Tiers := ⟨.empty, 0⟩

def isEmpty (tiers : Tiers) : Bool := tiers.size == 0

/-- The documents of a score, of which there may be none. -/
def tier (tiers : Tiers) (score : Int) : OrderedSet DocId :=
  (tiers.groups.get? ⟨score⟩).getD .empty

/-- A document with a score is counted unless it is there already. -/
def insert (tiers : Tiers) (score : Int) (id : DocId) : Tiers :=
  let tier := tiers.tier score
  ⟨tiers.groups.insert ⟨score⟩ (tier.insert id),
    if tier.contains id then tiers.size else tiers.size + 1⟩

def ofPairs (pairs : List (Int × DocId)) : Tiers :=
  pairs.foldl (fun tiers pair => tiers.insert pair.1 pair.2) empty

/-- The entries in the order of the ranks. -/
def toList (tiers : Tiers) : List Ranked :=
  tiers.groups.entries.flatMap fun (height, ids) => ids.toList.map fun id => ⟨height.score, id⟩

/-- The first entries, at most so many. Where some have to go, the others are put together anew. -/
def truncate (tiers : Tiers) (count : Nat) : Tiers :=
  if tiers.size ≤ count then tiers
  else ofPairs ((tiers.toList.take count).map fun entry => (entry.score, entry.id))

end Tiers
end Concordance
