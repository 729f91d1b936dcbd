import DeviceDescription.Text

/-! # Encodings of characters as bytes -/
namespace DeviceDescription

inductive CharacterEncoding where
  | utf8
  | utf16 (isBigEndian : Bool)
  | latin1
  | ascii
  deriving DecidableEq, Repr

namespace CharacterEncoding

def decodeUtf8? (bytes : List UInt8) : Option Text :=
  (String.fromUTF8? ⟨bytes.toArray⟩).map String.toList

def decodeLatin1 (bytes : List UInt8) : Text := bytes.map fun b => Char.ofNat b.toNat

def units? (isBigEndian : Bool) : List UInt8 → Option (List Nat)
  | [] => some []
  | [_] => none
  | a :: b :: r =>
    let unit := if isBigEndian then 256 * a.toNat + b.toNat else 256 * b.toNat + a.toNat
    (units? isBigEndian r).map (unit :: ·)

/-- A high surrogate and a low one stand for one character, and neither stands alone. -/
def decodeUnits? : List Nat → Option Text
  | [] => some []
  | u :: r =>
    if u < 0xD800 ∨ 0xE000 ≤ u then (decodeUnits? r).map (Char.ofNat u :: ·)
    else if 0xDC00 ≤ u then none
    else match r with
      | v :: r =>
        if 0xDC00 ≤ v ∧ v < 0xE000 then
          (decodeUnits? r).map (Char.ofNat (0x10000 + 1024 * (u - 0xD800) + (v - 0xDC00)) :: ·)
        else none
      | [] => none

def decode? : CharacterEncoding → List UInt8 → Option Text
  | .utf8, bytes => decodeUtf8? bytes
  | .utf16 isBigEndian, bytes => do decodeUnits? (← units? isBigEndian bytes)
  | .latin1, bytes => some (decodeLatin1 bytes)
  | .ascii, bytes => if bytes.all (· < 128) then some (decodeLatin1 bytes) else none

def encodeUtf8 (t : Text) : List UInt8 := t.flatMap String.utf8EncodeChar

@[simp] theorem decodeUtf8?_encodeUtf8 (t : Text) : decodeUtf8? (encodeUtf8 t) = some t := by
  have hbytes : (⟨(encodeUtf8 t).toArray⟩ : ByteArray) = t.utf8Encode := ByteArray.ext List.data_toByteArray.symm
  rw [decodeUtf8?, hbytes, String.fromUTF8?, dif_pos ByteArray.isValidUTF8_utf8Encode]
  exact congrArg some String.toList_ofList

/-- The encoding that a byte order mark tells, and the bytes after the mark. -/
def ofMark? : List UInt8 → Option (CharacterEncoding × List UInt8)
  | 0xEF :: 0xBB :: 0xBF :: r => some (.utf8, r)
  | 0xFE :: 0xFF :: r => some (.utf16 true, r)
  | 0xFF :: 0xFE :: r => some (.utf16 false, r)
  | _ => none

/-- The names of encodings, compared over the shorter length and without regard to case. -/
def hasLabel (label name : Text) : Bool :=
  (label.zip (name.map Char.toLower)).all fun (a, b) => a = b

end CharacterEncoding
end DeviceDescription
