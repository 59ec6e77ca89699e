import Concordance.Posting

/-! Documents in the order of their scores, the best first. -/
namespace Concordance

structure Ranked where
  score : Int
  id : DocId
deriving DecidableEq

namespace Ranked

instance : Ord Ranked := ⟨compareLex (compareOn fun entry => -entry.score) (compareOn Ranked.id)⟩

instance : Std.TransOrd Ranked :=
  inferInstanceAs (Std.TransCmp
    (compareLex (compareOn fun entry : Ranked => -entry.score) (compareOn Ranked.id)))

instance : Std.LawfulEqOrd Ranked where
  compare_self := Std.ReflCmp.compare_self
  eq_of_compare {first second} same := by
    have both := Ordering.then_eq_eq.mp same
    have scores : -first.score = -second.score := Std.LawfulEqOrd.eq_of_compare (α := Int) both.1
    have ids : first.id = second.id := Std.LawfulEqOrd.eq_of_compare (α := DocId) both.2
    obtain ⟨score, id⟩ := first
    obtain ⟨otherScore, otherId⟩ := second
    rw [Ranked.mk.injEq]
    exact ⟨Int.neg_inj.mp scores, ids⟩

end Ranked

/-- Each pair of a score and a document stands once, in the order of the ranks. -/
abbrev Ranking := OrderedSet Ranked

namespace Ranking

def ofPairs (pairs : List (Int × DocId)) : Ranking :=
  OrderedSet.ofList (pairs.map fun pair => ⟨pair.1, pair.2⟩)

/-- The first entries, at most so many. -/
def truncate (ranking : Ranking) (count : Nat) : Ranking :=
  ⟨ranking.toList.take count, ranking.ascending.sublist (List.take_sublist _ _)⟩

theorem toList_truncate (ranking : Ranking) (count : Nat) :
    (ranking.truncate count).toList = ranking.toList.take count := rfl

end Ranking
end Concordance
