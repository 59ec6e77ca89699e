/-! Text as bytes, and the text that bytes hold. -/
namespace Concordance

abbrev Bytes := List UInt8

namespace Utf8

/-- The number of bytes that a text takes. -/
def width (text : List Char) : Nat := text.foldr (fun c total => c.utf8Size + total) 0

def encode (text : List Char) : Bytes := text.flatMap String.utf8EncodeChar

/-- The bytes of a string. -/
def bytes (text : String) : Bytes := encode text.toList

/-- A place where bytes stop being text. The length counts the bytes at fault, and there is none
when the bytes end inside a character. -/
structure Fault where
  index : Nat
  length : Option Nat
deriving DecidableEq, Repr

def Fault.message (fault : Fault) : String :=
  match fault.length with
  | some length => s!"invalid utf-8 sequence of {length} bytes from index {fault.index}"
  | none => s!"incomplete utf-8 byte sequence from index {fault.index}"

/-- A byte that continues a character. -/
def isTail (byte : UInt8) : Bool := 0x80 ≤ byte && byte ≤ 0xbf

/-- The second bytes that may follow the first byte of a character of three or four bytes. -/
def secondRange (first : UInt8) : UInt8 × UInt8 :=
  if first = 0xe0 then (0xa0, 0xbf)
  else if first = 0xed then (0x80, 0x9f)
  else if first = 0xf0 then (0x90, 0xbf)
  else if first = 0xf4 then (0x80, 0x8f)
  else (0x80, 0xbf)

def isSecond (first second : UInt8) : Bool :=
  (secondRange first).1 ≤ second && second ≤ (secondRange first).2

/-- The low six bits of a tail byte. -/
def payload (byte : UInt8) : Nat := byte.toNat % 64

/-- The text of bytes that start at an index of the whole. -/
def decodeFrom (index : Nat) : Bytes → Except Fault (List Char)
  | [] => .ok []
  | first :: rest =>
      if first < 0x80 then
        (Char.ofNat first.toNat :: ·) <$> decodeFrom (index + 1) rest
      else if 0xc2 ≤ first && first ≤ 0xdf then
        match rest with
        | [] => .error ⟨index, none⟩
        | second :: rest =>
            if isTail second then
              (Char.ofNat (first.toNat % 32 * 64 + payload second) :: ·) <$>
                decodeFrom (index + 2) rest
            else .error ⟨index, some 1⟩
      else if 0xe0 ≤ first && first ≤ 0xef then
        match rest with
        | [] => .error ⟨index, none⟩
        | second :: rest =>
            if !isSecond first second then .error ⟨index, some 1⟩
            else match rest with
              | [] => .error ⟨index, none⟩
              | third :: rest =>
                  if isTail third then
                    (Char.ofNat ((first.toNat % 16 * 64 + payload second) * 64 + payload third) :: ·)
                      <$> decodeFrom (index + 3) rest
                  else .error ⟨index, some 2⟩
      else if 0xf0 ≤ first && first ≤ 0xf4 then
        match rest with
        | [] => .error ⟨index, none⟩
        | second :: rest =>
            if !isSecond first second then .error ⟨index, some 1⟩
            else match rest with
              | [] => .error ⟨index, none⟩
              | third :: rest =>
                  if !isTail third then .error ⟨index, some 2⟩
                  else match rest with
                    | [] => .error ⟨index, none⟩
                    | fourth :: rest =>
                        if isTail fourth then
                          (Char.ofNat (((first.toNat % 8 * 64 + payload second) * 64
                            + payload third) * 64 + payload fourth) :: ·)
                            <$> decodeFrom (index + 4) rest
                        else .error ⟨index, some 3⟩
      else .error ⟨index, some 1⟩

def decode (bytes : Bytes) : Except Fault (List Char) := decodeFrom 0 bytes

/-- The string that the bytes spell, when they spell one. -/
def decode? (bytes : Bytes) : Option String :=
  match decode bytes with
  | .ok text => some (String.ofList text)
  | .error _ => none

/-- Bytes cut wherever they stop being text: each text with the bytes at fault that follow it. A cut
takes a byte at least, so there are never more cuts than bytes. -/
def chunksWithin : Nat → Bytes → List (List Char × Bytes)
  | 0, _ => []
  | cuts + 1, bytes =>
      match decode bytes with
      | .ok text => [(text, [])]
      | .error ⟨index, length⟩ =>
          let text := ((decode (bytes.take index)).toOption).getD []
          let rest := bytes.drop index
          let width := length.getD rest.length
          (text, rest.take width) :: chunksWithin cuts (rest.drop width)

def chunks (bytes : Bytes) : List (List Char × Bytes) := chunksWithin (bytes.length + 1) bytes

/-- The text of bytes, where one mark stands for all bytes at fault in one place. -/
@[irreducible]
def lossy (bytes : Bytes) : List Char :=
  (chunks bytes).flatMap fun (text, fault) => if fault.isEmpty then text else text ++ ['\ufffd']

theorem width_nil : width [] = 0 := rfl

theorem width_cons (c : Char) (text : List Char) :
    width (c :: text) = c.utf8Size + width text := rfl

theorem width_append (first second : List Char) :
    width (first ++ second) = width first + width second := by
  induction first with
  | nil => simp [width_nil]
  | cons c rest ih => rw [List.cons_append, width_cons, width_cons, ih, Nat.add_assoc]

theorem encode_append (first second : List Char) :
    encode (first ++ second) = encode first ++ encode second := by
  simp [encode]

theorem length_encode (text : List Char) : (encode text).length = width text := by
  induction text with
  | nil => rfl
  | cons c rest ih =>
      have split : encode (c :: rest) = String.utf8EncodeChar c ++ encode rest := rfl
      rw [split, List.length_append, String.length_utf8EncodeChar, width_cons, ih]

end Utf8

/-- A text stands for its bytes where bytes are asked for. -/
instance : Coe String Bytes := ⟨Utf8.bytes⟩

end Concordance
