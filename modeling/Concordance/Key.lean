import Concordance.Fault
import Concordance.Text.Split

namespace Concordance

/-- The parts of a name between its dots. -/
def cutName (name : String) : List String := (Text.pieces (· == '.') name.toList).map String.ofList

/-- Dots put the parts of a name together again. -/
theorem join_cutName (name : String) :
    Text.join ['.'] ((cutName name).map String.toList) = name.toList := by
  have same : String.toList ∘ String.ofList = id := funext fun _ => String.toList_ofList
  rw [cutName, List.map_map, same, List.map_id, Text.join_pieces]

/-- Every part between the dots has a character. -/
def isDotted (name : String) : Bool :=
  (Text.pieces (· == '.') name.toList).all fun piece => !piece.isEmpty

structure Key where
  name : String
  dotted : isDotted name = true
deriving DecidableEq

namespace Key

def ofName? (name : String) : Option Key :=
  if dotted : isDotted name = true then some ⟨name, dotted⟩ else none

def parse (name : String) : Except Fault Key :=
  match ofName? name with
  | some key => .ok key
  | none => .error (.badKey name)

/-- The key of names that are joined by dots. -/
def ofSegments (segments : List String) : Except Fault Key :=
  parse (String.ofList (Text.join ['.'] (segments.map String.toList)))

def segments (key : Key) : List String := cutName key.name

/-- Keys are ordered by name. -/
instance : Ord Key where
  compare first second := compare first.name second.name

instance : Std.TransOrd Key where
  eq_swap {first second} := @Std.OrientedCmp.eq_swap String compare _ first.name second.name
  isLE_trans {first second third} :=
    @Std.TransCmp.isLE_trans String compare _ first.name second.name third.name

instance : Std.LawfulEqOrd Key where
  compare_self {key} := @Std.ReflCmp.compare_self String compare _ key.name
  eq_of_compare {first second} same := by
    have names : first.name = second.name := Std.LawfulEqOrd.eq_of_compare same
    cases first; cases second; simp_all

end Key
end Concordance
