import KernelRuntime.Foundations.Base64

/-! # Base64 in the alphabet of the mail standards

`base64.b64encode`, and a decoder that takes nothing but its alphabet, whole groups and line breaks. -/

namespace KernelRuntime.Base64
set_option autoImplicit false

/-- The last two characters of the alphabet are others than those for addresses. -/
def standardChar (c : Char) : Char := if c = '-' then '+' else if c = '_' then '/' else c

/-- `base64.b64encode`. -/
def standardEncode (bytes : List UInt8) : List Char := (encode bytes).map standardChar

def standardAlphabet : List Char := alphabet.map standardChar

def standardValue (c : Char) : Option ℕ := standardAlphabet.idxOf? c

/-- The bytes of two, three or four values. -/
def twoValues (a b : ℕ) : UInt8 := UInt8.ofNat (a * 4 + b / 16)

def threeValues (a b c : ℕ) : List UInt8 := [twoValues a b, UInt8.ofNat (b % 16 * 16 + c / 4)]

def fourValues (a b c d : ℕ) : List UInt8 := threeValues a b c ++ [UInt8.ofNat (c % 4 * 64 + d)]

/-- Groups of four characters, the last of them padded where there are fewer bytes. -/
def decodeGroups : List Char → Option (List UInt8)
  | [] => some []
  | a :: b :: c :: d :: cs => do
    let va ← standardValue a
    let vb ← standardValue b
    if c = '=' ∧ d = '=' ∧ cs = [] then return [twoValues va vb]
    let vc ← standardValue c
    if d = '=' ∧ cs = [] then return threeValues va vb vc
    let vd ← standardValue d
    let bytes ← decodeGroups cs
    return fourValues va vb vc vd ++ bytes
  | _ => none

/-- `base64 -d`. -/
def standardDecode (text : List Char) : Option (List UInt8) := decodeGroups (text.filter (· ≠ '\n'))

/-- A character of an encoded text. -/
def standardCharOf (value : ℕ) : Char := standardChar (charOf value)

theorem standardValue_charOf : ∀ value < 64,
    standardValue (standardCharOf value) = some value ∧ standardCharOf value ≠ '=' := by
  decide +kernel

theorem standardEncode_append_eq (a b c : UInt8) (bytes : List UInt8) :
    standardEncode (a :: b :: c :: bytes) =
      standardCharOf (a.toNat / 4) :: standardCharOf (a.toNat % 4 * 16 + b.toNat / 16) ::
        standardCharOf (b.toNat % 16 * 4 + c.toNat / 64) :: standardCharOf (c.toNat % 64) ::
          standardEncode bytes := rfl

theorem decodeGroups_standardEncode (bytes : List UInt8) : decodeGroups (standardEncode bytes) = some bytes := by
  induction bytes using encode.induct with
  | case1 => rfl
  | case2 a =>
    have ha := a.toNat_lt
    obtain ⟨hfirst, _⟩ := standardValue_charOf (a.toNat / 4) (by omega)
    obtain ⟨hsecond, _⟩ := standardValue_charOf (a.toNat % 4 * 16) (by omega)
    have hbyte : twoValues (a.toNat / 4) (a.toNat % 4 * 16) = a := ofNat_of_eq (by omega)
    change decodeGroups [standardCharOf (a.toNat / 4), standardCharOf (a.toNat % 4 * 16), '=', '='] = _
    simp [decodeGroups, hfirst, hsecond, hbyte]
  | case3 a b =>
    have ha := a.toNat_lt
    have hb := b.toNat_lt
    obtain ⟨hfirst, _⟩ := standardValue_charOf (a.toNat / 4) (by omega)
    obtain ⟨hsecond, _⟩ := standardValue_charOf (a.toNat % 4 * 16 + b.toNat / 16) (by omega)
    obtain ⟨hthird, hpad⟩ := standardValue_charOf (b.toNat % 16 * 4) (by omega)
    have hbytes : threeValues (a.toNat / 4) (a.toNat % 4 * 16 + b.toNat / 16) (b.toNat % 16 * 4) = [a, b] :=
      congrArg₂ (fun x y => [x, y]) (ofNat_of_eq (by omega)) (ofNat_of_eq (by omega))
    change decodeGroups [standardCharOf (a.toNat / 4), standardCharOf (a.toNat % 4 * 16 + b.toNat / 16),
      standardCharOf (b.toNat % 16 * 4), '='] = _
    simp [decodeGroups, hfirst, hsecond, hthird, hpad, hbytes]
  | case4 a b c bytes ih =>
    have ha := a.toNat_lt
    have hb := b.toNat_lt
    have hc := c.toNat_lt
    obtain ⟨hfirst, _⟩ := standardValue_charOf (a.toNat / 4) (by omega)
    obtain ⟨hsecond, _⟩ := standardValue_charOf (a.toNat % 4 * 16 + b.toNat / 16) (by omega)
    obtain ⟨hthird, hthird'⟩ := standardValue_charOf (b.toNat % 16 * 4 + c.toNat / 64) (by omega)
    obtain ⟨hfourth, hfourth'⟩ := standardValue_charOf (c.toNat % 64) (by omega)
    have hbytes : fourValues (a.toNat / 4) (a.toNat % 4 * 16 + b.toNat / 16) (b.toNat % 16 * 4 + c.toNat / 64)
        (c.toNat % 64) = [a, b, c] := by
      have hone : twoValues (a.toNat / 4) (a.toNat % 4 * 16 + b.toNat / 16) = a := ofNat_of_eq (by omega)
      have htwo : UInt8.ofNat ((a.toNat % 4 * 16 + b.toNat / 16) % 16 * 16 +
          (b.toNat % 16 * 4 + c.toNat / 64) / 4) = b := ofNat_of_eq (by omega)
      have hthree : UInt8.ofNat ((b.toNat % 16 * 4 + c.toNat / 64) % 4 * 64 + c.toNat % 64) = c :=
        ofNat_of_eq (by omega)
      unfold fourValues threeValues
      rw [hone, htwo, hthree]
      rfl
    rw [standardEncode_append_eq]
    simp [decodeGroups, hfirst, hsecond, hthird, hthird', hfourth, hfourth', hbytes, ih]

/-- The characters of an encoded text. -/
def isStandardChar (c : Char) : Bool := c.isAlphanum || c = '+' || c = '/' || c = '='

theorem isStandardChar_charOf : ∀ value < 64, isStandardChar (standardCharOf value) = true := by
  decide +kernel

theorem isStandardChar_of_mem {bytes : List UInt8} {c : Char} (h : c ∈ standardEncode bytes) :
    isStandardChar c = true := by
  induction bytes using encode.induct with
  | case1 => cases h
  | case2 a =>
    have ha := a.toNat_lt
    change c ∈ [standardCharOf (a.toNat / 4), standardCharOf (a.toNat % 4 * 16), '=', '='] at h
    simp only [List.mem_cons, List.not_mem_nil, or_false] at h
    rcases h with rfl | rfl | rfl | rfl
    · exact isStandardChar_charOf _ (by omega)
    · exact isStandardChar_charOf _ (by omega)
    · rfl
    · rfl
  | case3 a b =>
    have ha := a.toNat_lt
    have hb := b.toNat_lt
    change c ∈ [standardCharOf (a.toNat / 4), standardCharOf (a.toNat % 4 * 16 + b.toNat / 16),
      standardCharOf (b.toNat % 16 * 4), '='] at h
    simp only [List.mem_cons, List.not_mem_nil, or_false] at h
    rcases h with rfl | rfl | rfl | rfl
    · exact isStandardChar_charOf _ (by omega)
    · exact isStandardChar_charOf _ (by omega)
    · exact isStandardChar_charOf _ (by omega)
    · rfl
  | case4 a b d bytes ih =>
    have ha := a.toNat_lt
    have hb := b.toNat_lt
    have hd := d.toNat_lt
    rw [standardEncode_append_eq] at h
    simp only [List.mem_cons] at h
    rcases h with rfl | rfl | rfl | rfl | h
    · exact isStandardChar_charOf _ (by omega)
    · exact isStandardChar_charOf _ (by omega)
    · exact isStandardChar_charOf _ (by omega)
    · exact isStandardChar_charOf _ (by omega)
    · exact ih h

/-- Line breaks around an encoded text do not matter. -/
theorem standardDecode_encode_newline (bytes : List UInt8) :
    standardDecode (standardEncode bytes ++ ['\n']) = some bytes := by
  have hkept : (standardEncode bytes).filter (· ≠ '\n') = standardEncode bytes := by
    refine List.filter_eq_self.mpr fun c hc => ?_
    have hchar := isStandardChar_of_mem hc
    simp only [decide_eq_true_eq]
    rintro rfl
    exact absurd hchar (by decide)
  unfold standardDecode
  rw [List.filter_append, hkept]
  exact (congrArg decodeGroups (List.append_nil _)).trans (decodeGroups_standardEncode bytes)

end KernelRuntime.Base64
