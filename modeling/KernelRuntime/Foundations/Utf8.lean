import Mathlib.Tactic.Common

/-! # Text as UTF-8 bytes

`bytes.decode("utf-8")` and `text.encode("utf-8")`, which are the functions of the core library on lists of bytes. -/

namespace KernelRuntime
set_option autoImplicit false

/-- `bytes.decode("utf-8")`; none is a `UnicodeDecodeError`. -/
def decodeUtf8 (bytes : List UInt8) : Option String := String.fromUTF8? ⟨bytes.toArray⟩

/-- `text.encode("utf-8")`. -/
def encodeUtf8 (text : String) : List UInt8 := text.toByteArray.data.toList

theorem decodeUtf8_encodeUtf8 (text : String) : decodeUtf8 (encodeUtf8 text) = some text := by
  unfold decodeUtf8 encodeUtf8
  rw [Array.toArray_toList]
  exact dif_pos text.isValidUTF8

example : decodeUtf8 [0x61, 0xc3, 0xa9] = some "aé" := by decide +kernel

example : decodeUtf8 [0xc3] = none := by decide +kernel

/-! ## Bytes that are no text -/

/-- A character that has begun: how many bytes are to come, what it is so far, and the bounds of the next byte. -/
structure Utf8Part where
  needed : ℕ
  point : ℕ
  lower : ℕ
  upper : ℕ

def replacementChar : Char := Char.ofNat 0xfffd

/-- A byte that no character has begun before. -/
def firstByte (byte : ℕ) : List Char × Option Utf8Part :=
  if byte < 0x80 then ([Char.ofNat byte], none)
  else if byte < 0xc2 then ([replacementChar], none)
  else if byte < 0xe0 then ([], some ⟨1, byte - 0xc0, 0x80, 0xbf⟩)
  else if byte < 0xf0 then
    ([], some ⟨2, byte - 0xe0, if byte = 0xe0 then 0xa0 else 0x80, if byte = 0xed then 0x9f else 0xbf⟩)
  else if byte < 0xf5 then
    ([], some ⟨3, byte - 0xf0, if byte = 0xf0 then 0x90 else 0x80, if byte = 0xf4 then 0x8f else 0xbf⟩)
  else ([replacementChar], none)

def decodeReplaceFrom : Option Utf8Part → List UInt8 → List Char
  | none, [] => []
  | some _, [] => [replacementChar]
  | none, byte :: bytes => (firstByte byte.toNat).1 ++ decodeReplaceFrom (firstByte byte.toNat).2 bytes
  | some part, byte :: bytes =>
    if part.lower ≤ byte.toNat ∧ byte.toNat ≤ part.upper then
      let point := part.point * 64 + (byte.toNat - 0x80)
      if part.needed = 1 then Char.ofNat point :: decodeReplaceFrom none bytes
      else decodeReplaceFrom (some ⟨part.needed - 1, point, 0x80, 0xbf⟩) bytes
    -- a character that breaks off is replaced as a whole, and the byte begins a new one
    else replacementChar :: ((firstByte byte.toNat).1 ++ decodeReplaceFrom (firstByte byte.toNat).2 bytes)

/-- `bytes.decode("utf-8", errors="replace")`. -/
def decodeReplace (bytes : List UInt8) : List Char := decodeReplaceFrom none bytes

end KernelRuntime
