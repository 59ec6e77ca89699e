import Concordance.Ordered.Set
import Concordance.Value

/-! The binary form of everything a catalog keeps. -/
namespace Concordance

/-- A reader of bytes. Its state is what is left to read. -/
abbrev Reader := EStateM Fault Bytes

/-- Types with a binary form. -/
class Binary (α : Type) where
  write : α → Bytes
  read : Reader α

export Binary (write)

namespace Codec

/-- The lowest bytes of a number, the lowest first. -/
def littleEndian : Nat → Nat → Bytes
  | 0, _ => []
  | count + 1, n => UInt8.ofNat (n % 256) :: littleEndian count (n / 256)

/-- The number whose bytes these are, the lowest first. -/
def ofLittleEndian : Bytes → Nat
  | [] => 0
  | byte :: rest => byte.toNat + 256 * ofLittleEndian rest

theorem length_littleEndian (count n : Nat) : (littleEndian count n).length = count := by
  induction count generalizing n with
  | zero => rfl
  | succ count ih => simp [littleEndian, ih]

theorem ofLittleEndian_littleEndian (count n : Nat) :
    ofLittleEndian (littleEndian count n) = n % Nat.pow 256 count := by
  induction count generalizing n with
  | zero => simp [littleEndian, ofLittleEndian, Nat.mod_one]
  | succ count ih =>
      simp only [littleEndian, ofLittleEndian, ih, UInt8.toNat_ofNat', Nat.reducePow]
      have step : Nat.pow 256 (count + 1) = 256 * Nat.pow 256 count := Nat.mul_comm _ _
      rw [step, Nat.mod_mul]
      omega

/-- There are fewer bytes than a count. -/
def lacks (rest : Bytes) (count : Nat) : Bool :=
  match count with
  | 0 => false
  | count + 1 => (rest.drop count).isEmpty

theorem lacks_iff (rest : Bytes) (count : Nat) : lacks rest count = true ↔ rest.length < count := by
  cases count with
  | zero => simp [lacks]
  | succ count =>
      simp only [lacks, List.isEmpty_iff, List.drop_eq_nil_iff]
      omega

/-- The next bytes, so many of them. -/
def take (count : Nat) : Reader Bytes := fun rest =>
  if lacks rest count then .error (.outOfRange count rest.length) rest
  else .ok (rest.take count) (rest.drop count)

def readByte : Reader UInt8 := do return (← take 1).headD 0

def writeWord (word : UInt64) : Bytes := littleEndian 8 word.toNat

def readWord : Reader UInt64 := do return UInt64.ofNat (ofLittleEndian (← take 8))

def writeLength (length : Nat) : Bytes := writeWord (UInt64.ofNat length)

/-- A length. One that is greater than the number of bytes left is refused, as nothing that is
counted takes less than a byte. -/
def readLength : Reader Nat := do
  let length := (← readWord).toNat
  let rest ← get
  if lacks rest length then throw (.outOfRange length rest.length) else return length

def writeText (text : String) : Bytes :=
  let bytes := Utf8.bytes text
  writeLength bytes.length ++ bytes

def readText : Reader String := do
  let bytes ← take (← readLength)
  match Utf8.decode bytes with
  | .ok text => return String.ofList text
  | .error fault => throw (.corrupted (.notText fault))

def writeMoment (moment : Moment) : Bytes := writeText moment.toText

def readMoment : Reader Moment := do
  let text ← readText
  match Moment.ofText? text with
  | some moment => return moment
  | none => throw (.corrupted (.badMoment text))

/-- So many elements one after another. -/
def readMany {α : Type} (read : Reader α) : Nat → Reader (List α)
  | 0 => return []
  | count + 1 => do
      let first ← read
      let rest ← readMany read count
      return first :: rest

def writeList {α : Type} (write : α → Bytes) (elements : List α) : Bytes :=
  writeLength elements.length ++ elements.flatMap write

def readList {α : Type} (read : Reader α) : Reader (List α) := do readMany read (← readLength)

instance : Binary UInt8 := ⟨fun byte => [byte], readByte⟩
instance : Binary UInt64 := ⟨writeWord, readWord⟩
instance : Binary Number := ⟨fun x => writeWord x.bits, do return ⟨← readWord⟩⟩
instance : Binary String := ⟨writeText, readText⟩
instance : Binary Moment := ⟨writeMoment, readMoment⟩

instance {α : Type} [Binary α] : Binary (List α) := ⟨writeList write, readList Binary.read⟩

/-- A set is written in ascending order and read in any. -/
instance {α : Type} [Ord α] [Std.TransOrd α] [Binary α] : Binary (OrderedSet α) :=
  ⟨fun set => writeList write set.toList, do return .ofList (← readList Binary.read)⟩

/-- The entries of a map one after another. -/
instance {κ ν : Type} [Ord κ] [Std.TransOrd κ] [Binary κ] [Binary ν] : Binary (OrderedMap κ ν) where
  write map := writeList (fun entry => write entry.1 ++ write entry.2) map.entries
  read := do
    let entries ← readList do
      let key ← Binary.read
      let value ← Binary.read
      return (key, value)
    return .ofList entries

def readKey : Reader Key := do
  let name ← readText
  match Key.ofName? name with
  | some key => return key
  | none => throw (.corrupted (.badKey name))

instance : Binary Key := ⟨fun key => writeText key.name, readKey⟩

/-- A flag is set by any byte but zero. -/
def readFlag : Reader Bool := do return (← readByte) != 0

def writeFlag (flag : Bool) : Bytes := [if flag then 1 else 0]

def writeValue (value : Value) : Bytes :=
  value.kind.tag :: writeFlag value.isArray ++
    match value with
    | .null => []
    | .bool value => writeFlag value
    | .number value => write value
    | .text value => write value
    | .moment value => write value
    | .numbers values => write values
    | .texts values => write values
    | .moments values => write values

def readValue : Reader Value := do
  let tag ← readByte
  let isArray ← readFlag
  match ScalarKind.ofTag? tag, isArray with
  | some .null, false => return .null
  | some .bool, false => return .bool (← readFlag)
  | some .number, false => return .number (← Binary.read)
  | some .text, false => return .text (← Binary.read)
  | some .moment, false => return .moment (← Binary.read)
  | some .number, true => return .numbers (← Binary.read)
  | some .text, true => return .texts (← Binary.read)
  | some .moment, true => return .moments (← Binary.read)
  | _, _ => throw (.corrupted (.unknownValueTag tag isArray))

instance : Binary Value := ⟨writeValue, readValue⟩

end Codec
end Concordance
