import Concordance.Proofs.Document
import Concordance.Proofs.Posting

/-! What readers make of bytes that were cut off, and of bytes that go on. -/
namespace Concordance

namespace Fault

/-- The bytes end before what was to be read. -/
def IsShortage (fault : Fault) : Prop := ∃ needed remaining, fault = .outOfRange needed remaining

/-- The bytes are none that are ever written. -/
def IsCorruption (fault : Fault) : Prop := ∃ cause, fault = .corrupted cause

theorem IsShortage.requiresRebuild {fault : Fault} (short : fault.IsShortage) :
    fault.requiresRebuild = true := by
  obtain ⟨needed, remaining, rfl⟩ := short
  rfl

theorem IsCorruption.requiresRebuild {fault : Fault} (corrupt : fault.IsCorruption) :
    fault.requiresRebuild = true := by
  obtain ⟨cause, rfl⟩ := corrupt
  rfl

end Fault

namespace Codec

variable {α β : Type}

/-- What was read stays read when more bytes follow. A reader that fails has run out of bytes, or it
fails in the same way when more bytes follow. -/
structure Steady (read : Reader α) : Prop where
  ok : ∀ {bytes value rest}, read bytes = .ok value rest →
    ∀ more, read (bytes ++ more) = .ok value (rest ++ more)
  error : ∀ {bytes fault left}, read bytes = .error fault left →
    fault.IsShortage ∨ fault.IsCorruption ∧
      ∀ more, ∃ left, read (bytes ++ more) = .error fault left

theorem Steady.pure (value : α) : Steady (return value) where
  ok := by
    intro bytes value rest whole more
    cases whole
    rfl
  error whole := nomatch whole

theorem steady_corrupted (cause : Corruption) : Steady (throw (.corrupted cause) : Reader α) where
  ok whole := nomatch whole
  error := by
    intro bytes fault left whole
    cases whole
    exact .inr ⟨⟨cause, rfl⟩, fun more => ⟨bytes ++ more, rfl⟩⟩

/-- Readers one after another are steady where each of them is. -/
theorem Steady.bind {first : Reader α} {next : α → Reader β} (head : Steady first)
    (tail : ∀ value, Steady (next value)) : Steady (first >>= next) where
  ok := by
    intro bytes value rest whole more
    obtain ⟨middle, left, begun, ended⟩ := ok_of_bind whole
    rw [bind_of_ok (head.ok begun more)]
    exact (tail middle).ok ended more
  error := by
    intro bytes fault last whole
    rcases error_of_bind whole with failed | ⟨middle, left, begun, failed⟩
    · refine (head.error failed).imp_right fun ⟨corrupt, again⟩ => ⟨corrupt, fun more => ?_⟩
      obtain ⟨left, failed⟩ := again more
      exact ⟨left, bind_of_error failed⟩
    · refine ((tail middle).error failed).imp_right fun ⟨corrupt, again⟩ =>
        ⟨corrupt, fun more => ?_⟩
      rw [bind_of_ok (head.ok begun more)]
      exact again more

theorem Steady.map {read : Reader α} (steady : Steady read) (change : α → β) :
    Steady (read >>= fun value => return change value) :=
  steady.bind fun value => .pure (change value)

theorem steady_take (count : Nat) : Steady (take count) where
  ok := by
    intro bytes value rest whole more
    unfold take at whole ⊢
    by_cases short : lacks bytes count = true
    · rw [if_pos short] at whole
      cases whole
    · rw [if_neg short] at whole
      cases whole
      rw [lacks_iff] at short
      have enough : count ≤ bytes.length := by omega
      rw [lacks_eq_false (by rw [List.length_append]; omega), if_neg Bool.false_ne_true,
        List.take_append_of_le_length enough, List.drop_append_of_le_length enough]
  error := by
    intro bytes fault left whole
    unfold take at whole
    split at whole
    next =>
      cases whole
      exact .inl ⟨_, _, rfl⟩
    next => cases whole

theorem steady_byte : Steady readByte := (steady_take 1).map _

theorem steady_word : Steady readWord := (steady_take 8).map _

/-- A length that fits the bytes that are left fits more of them. -/
theorem steady_length : Steady readLength := by
  refine steady_word.bind fun word => ?_
  have looked : ∀ bytes : Bytes, (do
      let rest ← get
      if lacks rest word.toNat then throw (.outOfRange word.toNat rest.length)
      else return word.toNat : Reader Nat) bytes =
        if lacks bytes word.toNat then .error (.outOfRange word.toNat bytes.length) bytes
        else .ok word.toNat bytes := by
    intro bytes
    have begun : (get : Reader Bytes) bytes = .ok bytes bytes := rfl
    rw [bind_of_ok begun]
    split <;> rfl
  constructor
  · intro bytes value rest whole more
    rw [looked] at whole ⊢
    split at whole
    next => cases whole
    next enough =>
      cases whole
      rw [lacks_iff] at enough
      rw [lacks_eq_false (by rw [List.length_append]; omega), if_neg Bool.false_ne_true]
  · intro bytes fault left whole
    rw [looked] at whole
    split at whole
    next =>
      cases whole
      exact .inl ⟨_, _, rfl⟩
    next => cases whole

theorem steady_text : Steady readText := by
  refine steady_length.bind fun length => (steady_take length).bind fun bytes => ?_
  cases Utf8.decode bytes with
  | ok text => exact .pure _
  | error fault => exact steady_corrupted _

theorem steady_moment : Steady readMoment := by
  refine steady_text.bind fun text => ?_
  cases Moment.ofText? text with
  | some moment => exact .pure _
  | none => exact steady_corrupted _

theorem steady_many {read : Reader α} (steady : Steady read) (count : Nat) :
    Steady (readMany read count) := by
  induction count with
  | zero => exact .pure []
  | succ count ih => exact steady.bind fun first => ih.map (first :: ·)

theorem steady_list {read : Reader α} (steady : Steady read) : Steady (readList read) :=
  steady_length.bind fun length => steady_many steady length

theorem steady_key : Steady readKey := by
  refine steady_text.bind fun name => ?_
  cases Key.ofName? name with
  | some key => exact .pure _
  | none => exact steady_corrupted _

theorem steady_flag : Steady readFlag := steady_byte.map _

end Codec

open Codec

/-- Values of the type are read by a steady reader. -/
class SteadyBinary (α : Type) [Binary α] : Prop where
  steady : Steady (Binary.read : Reader α)

namespace Codec

instance : SteadyBinary UInt8 := ⟨steady_byte⟩
instance : SteadyBinary UInt64 := ⟨steady_word⟩
instance : SteadyBinary Number := ⟨steady_word.map _⟩
instance : SteadyBinary String := ⟨steady_text⟩
instance : SteadyBinary Moment := ⟨steady_moment⟩
instance : SteadyBinary Key := ⟨steady_key⟩

instance {α : Type} [Binary α] [SteadyBinary α] : SteadyBinary (List α) :=
  ⟨steady_list SteadyBinary.steady⟩

instance {α : Type} [Ord α] [Std.TransOrd α] [Binary α] [SteadyBinary α] :
    SteadyBinary (OrderedSet α) :=
  ⟨(steady_list SteadyBinary.steady).map _⟩

instance {κ ν : Type} [Ord κ] [Std.TransOrd κ] [Binary κ] [Binary ν] [SteadyBinary κ]
    [SteadyBinary ν] : SteadyBinary (OrderedMap κ ν) :=
  ⟨(steady_list (SteadyBinary.steady.bind fun key =>
    SteadyBinary.steady.map (Prod.mk key))).map _⟩

/-- A value of any kind, also one of which kind and form do not go together. -/
theorem steady_value : Steady readValue := by
  refine steady_byte.bind fun tag => steady_flag.bind fun isArray => ?_
  cases ScalarKind.ofTag? tag with
  | none => exact steady_corrupted _
  | some kind =>
      cases kind with
      | null =>
          cases isArray with
          | false => exact .pure _
          | true => exact steady_corrupted _
      | bool =>
          cases isArray with
          | false => exact steady_flag.map _
          | true => exact steady_corrupted _
      | number => cases isArray <;> exact SteadyBinary.steady.map _
      | text => cases isArray <;> exact SteadyBinary.steady.map _
      | moment => cases isArray <;> exact SteadyBinary.steady.map _

instance : SteadyBinary Value := ⟨steady_value⟩

end Codec

/-- A tag of no kind is a corruption. -/
theorem DocumentKind.fault_of_ofTag {tag : UInt8} {fault : Fault}
    (failed : ofTag tag = .error fault) : fault = .corrupted (.unknownDocumentTag tag) := by
  unfold ofTag at failed
  repeat
    split at failed
    next => cases failed
  cases failed
  rfl

theorem DocumentKind.steady_kind : Steady DocumentKind.read := by
  refine steady_byte.bind fun tag => ?_
  cases known : ofTag tag with
  | ok kind => exact .pure kind
  | error fault =>
      rw [fault_of_ofTag known]
      exact steady_corrupted _

instance : SteadyBinary DocumentKind := ⟨DocumentKind.steady_kind⟩

instance : SteadyBinary Comment :=
  ⟨SteadyBinary.steady.bind fun time => SteadyBinary.steady.map (Comment.mk time)⟩

theorem Document.steady : Steady Document.read :=
  SteadyBinary.steady.bind fun _ => SteadyBinary.steady.bind fun _ =>
    SteadyBinary.steady.bind fun _ => SteadyBinary.steady.bind fun _ =>
      SteadyBinary.steady.bind fun _ => SteadyBinary.steady.bind fun _ =>
        SteadyBinary.steady.bind fun _ => SteadyBinary.steady.map _

instance : SteadyBinary Document := ⟨Document.steady⟩

theorem Posting.steady : Steady Posting.read := by
  refine SteadyBinary.steady.bind fun documents => SteadyBinary.steady.bind fun offsets => ?_
  split
  next =>
    split
    next => exact .pure _
    next => exact steady_corrupted _
  next => exact steady_corrupted _

instance : SteadyBinary Posting := ⟨Posting.steady⟩

end Concordance
