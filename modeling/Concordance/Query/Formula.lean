/-! Boolean formulas over leaves of any type. -/
namespace Concordance.Query

inductive Formula (α : Type) where
  | leaf (leaf : α)
  | negation (inner : Formula α)
  | conjunction (parts : List (Formula α))
  | disjunction (parts : List (Formula α))

namespace Formula

variable {α β : Type}

mutual

/-- The leaves from left to right. -/
def leaves : Formula α → List α
  | leaf l => [l]
  | negation inner => inner.leaves
  | conjunction parts => leavesOf parts
  | disjunction parts => leavesOf parts

def leavesOf : List (Formula α) → List α
  | [] => []
  | part :: rest => part.leaves ++ leavesOf rest

end

mutual

/-- The truth of a formula when `holds` decides its leaves. -/
def evaluate (holds : α → Bool) : Formula α → Bool
  | leaf l => holds l
  | negation inner => !inner.evaluate holds
  | conjunction parts => evaluateAll holds parts
  | disjunction parts => evaluateAny holds parts

def evaluateAll (holds : α → Bool) : List (Formula α) → Bool
  | [] => true
  | part :: rest => part.evaluate holds && evaluateAll holds rest

def evaluateAny (holds : α → Bool) : List (Formula α) → Bool
  | [] => false
  | part :: rest => part.evaluate holds || evaluateAny holds rest

end

mutual

/-- The leaves that decide a formula when its parts are looked at from left to right and the rest of
a group is left out once its truth is known. -/
def decisive (holds : α → Bool) : Formula α → List α
  | leaf l => [l]
  | negation inner => inner.decisive holds
  | conjunction parts => decisiveAll holds parts
  | disjunction parts => decisiveAny holds parts

def decisiveAll (holds : α → Bool) : List (Formula α) → List α
  | [] => []
  | part :: rest =>
      part.decisive holds ++ if part.evaluate holds then decisiveAll holds rest else []

def decisiveAny (holds : α → Bool) : List (Formula α) → List α
  | [] => []
  | part :: rest =>
      part.decisive holds ++ if part.evaluate holds then [] else decisiveAny holds rest

end

mutual

/-- The formula with every leaf changed. -/
def map (change : α → β) : Formula α → Formula β
  | leaf l => leaf (change l)
  | negation inner => negation (inner.map change)
  | conjunction parts => conjunction (mapAll change parts)
  | disjunction parts => disjunction (mapAll change parts)

def mapAll (change : α → β) : List (Formula α) → List (Formula β)
  | [] => []
  | part :: rest => part.map change :: mapAll change rest

end

mutual

/-- Two formulas of one shape with equal leaves. -/
def same [DecidableEq α] : Formula α → Formula α → Bool
  | leaf first, leaf second => first == second
  | negation first, negation second => first.same second
  | conjunction first, conjunction second => sameAll first second
  | disjunction first, disjunction second => sameAll first second
  | _, _ => false

def sameAll [DecidableEq α] : List (Formula α) → List (Formula α) → Bool
  | [], [] => true
  | first :: firsts, second :: seconds => first.same second && sameAll firsts seconds
  | _, _ => false

end

mutual

theorem same_iff [DecidableEq α] : ∀ first second : Formula α,
    first.same second = true ↔ first = second
  | leaf first, second => by cases second <;> simp [same]
  | negation first, second => by
      cases second with
      | negation other => simp [same, same_iff first other]
      | _ => simp [same]
  | conjunction first, second => by
      cases second with
      | conjunction other => simp [same, sameAll_iff first other]
      | _ => simp [same]
  | disjunction first, second => by
      cases second with
      | disjunction other => simp [same, sameAll_iff first other]
      | _ => simp [same]

theorem sameAll_iff [DecidableEq α] : ∀ first second : List (Formula α),
    sameAll first second = true ↔ first = second
  | [], second => by cases second <;> simp [sameAll]
  | first :: firsts, second => by
      cases second with
      | nil => simp [sameAll]
      | cons other others => simp [sameAll, same_iff first other, sameAll_iff firsts others]

end

instance [DecidableEq α] : DecidableEq (Formula α) := fun first second =>
  decidable_of_iff _ (same_iff first second)

/-- A group of one part is that part. -/
def group (make : List (Formula α) → Formula α) : List (Formula α) → Formula α
  | [part] => part
  | parts => make parts

end Formula
end Concordance.Query
