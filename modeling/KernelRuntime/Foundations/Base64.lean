import Mathlib.Data.List.Basic
import Mathlib.Tactic.Common

/-! # Bytes as base64 text

`base64.urlsafe_b64encode` and `base64.urlsafe_b64decode`. The decoder is the lenient one of `binascii`: it skips
what is no character of the alphabet, takes the characters of both alphabets, and stops at the padding that
completes a group. -/

namespace KernelRuntime.Base64
set_option autoImplicit false

/-- The characters of the values below 64. -/
def alphabet : List Char := "ABCDEFGHIJKLMNOPQRSTUVWXYZabcdefghijklmnopqrstuvwxyz0123456789-_".toList

def charOf (value : ℕ) : Char := alphabet.getD value '='

/-- The value of a character, after `+` and `/` were taken for `-` and `_`. -/
def valueOf (c : Char) : Option ℕ :=
  if c = '+' then some 62
  else if c = '/' then some 63
  else alphabet.idxOf? c

/-- Three bytes are four characters; what is left over is padded. -/
def encode : List UInt8 → List Char
  | [] => []
  | [a] => [charOf (a.toNat / 4), charOf (a.toNat % 4 * 16), '=', '=']
  | [a, b] => [charOf (a.toNat / 4), charOf (a.toNat % 4 * 16 + b.toNat / 16), charOf (b.toNat % 16 * 4), '=']
  | a :: b :: c :: bytes =>
    charOf (a.toNat / 4) :: charOf (a.toNat % 4 * 16 + b.toNat / 16) :: charOf (b.toNat % 16 * 4 + c.toNat / 64) ::
      charOf (c.toNat % 64) :: encode bytes

/-- How far the decoder is in a group of four: the values it has read, the bits of them that no byte took yet,
and the padding since the last of them. -/
structure Group where
  read : ℕ
  bits : ℕ
  pads : ℕ
deriving DecidableEq

def Group.start : Group := ⟨0, 0, 0⟩

/-- A value: the byte that it completes, if it completes one, and the group after it. -/
def Group.next (g : Group) (value : ℕ) : List UInt8 × Group :=
  match g.read with
  | 0 => ([], ⟨1, value, 0⟩)
  | 1 => ([UInt8.ofNat (g.bits * 4 + value / 16)], ⟨2, value % 16, 0⟩)
  | 2 => ([UInt8.ofNat (g.bits * 16 + value / 4)], ⟨3, value % 4, 0⟩)
  | _ => ([UInt8.ofNat (g.bits * 64 + value)], ⟨0, 0, 0⟩)

/-- `binascii.a2b_base64`; none is a `binascii.Error`. -/
def decodeFrom : Group → List Char → Option (List UInt8)
  | g, [] => if g.read = 0 then some [] else none
  | g, c :: cs =>
    if c = '=' then
      if 2 ≤ g.read then
        if 4 ≤ g.read + (g.pads + 1) then some [] else decodeFrom { g with pads := g.pads + 1 } cs
      else decodeFrom g cs
    else
      match valueOf c with
      | none => decodeFrom g cs
      | some value => (decodeFrom (g.next value).2 cs).map ((g.next value).1 ++ ·)

def decode (cs : List Char) : Option (List UInt8) := decodeFrom .start cs

/-! ## Decoding what was encoded -/

theorem valueOf_charOf : ∀ value < 64, charOf value ≠ '=' ∧ valueOf (charOf value) = some value := by
  decide +kernel

theorem decodeFrom_charOf (g : Group) {value : ℕ} (h : value < 64) (cs : List Char) :
    decodeFrom g (charOf value :: cs) = (decodeFrom (g.next value).2 cs).map ((g.next value).1 ++ ·) := by
  obtain ⟨hpad, hvalue⟩ := valueOf_charOf value h
  rw [decodeFrom, if_neg hpad, hvalue]

theorem ofNat_of_eq {n : ℕ} {a : UInt8} (h : n = a.toNat) : UInt8.ofNat n = a := by
  rw [h, UInt8.ofNat_toNat]

theorem decode_encode (bytes : List UInt8) : decode (encode bytes) = some bytes := by
  unfold decode
  induction bytes using encode.induct with
  | case1 => rfl
  | case2 a =>
    have ha := a.toNat_lt
    simp only [encode]
    rw [decodeFrom_charOf _ (by omega), decodeFrom_charOf _ (by omega)]
    have hbyte : UInt8.ofNat (a.toNat / 4 * 4 + a.toNat % 4 * 16 / 16) = a := ofNat_of_eq (by omega)
    simp only [Group.start, Group.next, hbyte]
    rfl
  | case3 a b =>
    have ha := a.toNat_lt
    have hb := b.toNat_lt
    simp only [encode]
    rw [decodeFrom_charOf _ (by omega), decodeFrom_charOf _ (by omega), decodeFrom_charOf _ (by omega)]
    have hfirst : UInt8.ofNat (a.toNat / 4 * 4 + (a.toNat % 4 * 16 + b.toNat / 16) / 16) = a := ofNat_of_eq (by omega)
    have hsecond : UInt8.ofNat ((a.toNat % 4 * 16 + b.toNat / 16) % 16 * 16 + b.toNat % 16 * 4 / 4) = b :=
      ofNat_of_eq (by omega)
    simp only [Group.start, Group.next, hfirst, hsecond]
    rfl
  | case4 a b c bytes ih =>
    have ha := a.toNat_lt
    have hb := b.toNat_lt
    have hc := c.toNat_lt
    simp only [encode]
    rw [decodeFrom_charOf _ (by omega), decodeFrom_charOf _ (by omega), decodeFrom_charOf _ (by omega),
      decodeFrom_charOf _ (by omega)]
    have hfirst : UInt8.ofNat (a.toNat / 4 * 4 + (a.toNat % 4 * 16 + b.toNat / 16) / 16) = a := ofNat_of_eq (by omega)
    have hsecond : UInt8.ofNat ((a.toNat % 4 * 16 + b.toNat / 16) % 16 * 16 +
        (b.toNat % 16 * 4 + c.toNat / 64) / 4) = b := ofNat_of_eq (by omega)
    have hthird : UInt8.ofNat ((b.toNat % 16 * 4 + c.toNat / 64) % 4 * 64 + c.toNat % 64) = c :=
      ofNat_of_eq (by omega)
    simp only [Group.start, Group.next, hfirst, hsecond, hthird]
    change (((((decodeFrom .start (encode bytes)).map _).map _).map _).map _) = _
    rw [ih]
    rfl

example : decode "_-8".toList = none := by decide

example : decode "/- 8=\n".toList = some [0xff, 0xef] := by decide

end KernelRuntime.Base64
