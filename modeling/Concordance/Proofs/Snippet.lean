import Concordance.Proofs.Text.Boundary
import Concordance.Snippet

namespace Concordance

open Utf8

/-- A window of a content around a match: a part that has the width that was asked for, or as much
of it as the content has, and that holds the match. -/
structure IsWindow (content : Bytes) (offset length width start stop : Nat) : Prop where
  starts : start ≤ offset
  ends : offset + length ≤ stop
  inside : stop ≤ content.length
  wide : stop - start = min width content.length

example : snippet (encode "é this is it".toList) 3 4 9 = " this is" := by decide +kernel

end Concordance
