import KernelRuntime.Foundations.Utf8

/-! # Names quoted like strings of C

How git prints the name of a file: as it is, or between quotes with its special bytes escaped. -/

namespace KernelRuntime
set_option autoImplicit false

def asciiChar (b : UInt8) : Char := Char.ofNat b.toNat

/-- The byte stands for itself: a printable one other than the quote and the backslash. -/
def plainByte (b : UInt8) : Bool := decide (0x20 ≤ b.toNat ∧ b.toNat < 0x7f ∧ b.toNat ≠ 0x22 ∧ b.toNat ≠ 0x5c)

def octalDigit (n : ℕ) : Char := Char.ofNat (48 + n % 8)

/-- The escapes of one letter. -/
def escapeLetters : List (UInt8 × Char) :=
  [(7, 'a'), (8, 'b'), (9, 't'), (10, 'n'), (11, 'v'), (12, 'f'), (13, 'r'), (0x22, '"'), (0x5c, '\\')]

def escapeByte (b : UInt8) : List Char :=
  if plainByte b then [asciiChar b]
  else
    match escapeLetters.lookup b with
    | some letter => ['\\', letter]
    | none => ['\\', octalDigit (b.toNat / 64), octalDigit (b.toNat / 8), octalDigit b.toNat]

/-- `quote_c_style`. -/
def quoteC (name : List UInt8) : List Char :=
  if name.all plainByte then name.map asciiChar else '"' :: (name.flatMap escapeByte ++ ['"'])

/-! ## Printable characters -/

def Printable (c : Char) : Prop := 0x20 ≤ c.toNat ∧ c.toNat < 0x7f

instance (c : Char) : Decidable (Printable c) := inferInstanceAs (Decidable (_ ∧ _))

theorem toNat_charOfNat {n : ℕ} (h : n < 0x80) : (Char.ofNat n).toNat = n := by
  have hvalid : n.isValidChar := Or.inl (by omega)
  unfold Char.ofNat
  rw [dif_pos hvalid]
  rfl

theorem asciiChar_toNat {b : UInt8} (h : b.toNat < 0x80) : (asciiChar b).toNat = b.toNat :=
  toNat_charOfNat h

theorem plainByte_iff (b : UInt8) :
    plainByte b = true ↔ 0x20 ≤ b.toNat ∧ b.toNat < 0x7f ∧ b.toNat ≠ 0x22 ∧ b.toNat ≠ 0x5c :=
  decide_eq_true_iff

theorem asciiChar_printable {b : UInt8} (h : plainByte b = true) : Printable (asciiChar b) := by
  obtain ⟨hlow, hhigh, -, -⟩ := (plainByte_iff b).mp h
  unfold Printable
  rw [asciiChar_toNat (by omega)]
  exact ⟨hlow, hhigh⟩

theorem octalDigit_printable (n : ℕ) : Printable (octalDigit n) := by
  unfold Printable octalDigit
  rw [toNat_charOfNat (by omega)]
  omega

theorem escapeLetters_printable : ∀ e ∈ escapeLetters, Printable e.2 := by decide

theorem escapeByte_printable {b : UInt8} {c : Char} (h : c ∈ escapeByte b) : Printable c := by
  unfold escapeByte at h
  split_ifs at h with hplain
  · rw [List.mem_singleton.mp h]
    exact asciiChar_printable hplain
  · cases hletter : escapeLetters.lookup b with
    | some letter =>
      rw [hletter] at h
      have hmem := (List.lookup_eq_some_iff.mp hletter)
      obtain ⟨before, after, heq, -⟩ := hmem
      have hin : (b, letter) ∈ escapeLetters := by
        rw [heq]
        simp
      simp only [List.mem_cons, List.not_mem_nil, or_false] at h
      rcases h with rfl | rfl
      · decide
      · exact escapeLetters_printable _ hin
    | none =>
      rw [hletter] at h
      simp only [List.mem_cons, List.not_mem_nil, or_false] at h
      rcases h with rfl | rfl | rfl | rfl
      · decide
      · exact octalDigit_printable _
      · exact octalDigit_printable _
      · exact octalDigit_printable _

theorem quoteC_printable {name : List UInt8} {c : Char} (h : c ∈ quoteC name) : Printable c := by
  unfold quoteC at h
  split_ifs at h with hplain
  · obtain ⟨b, hb, rfl⟩ := List.mem_map.mp h
    exact asciiChar_printable (List.all_eq_true.mp hplain b hb)
  · rw [List.mem_cons, List.mem_append, List.mem_flatMap, List.mem_singleton] at h
    rcases h with rfl | ⟨b, -, hc⟩ | rfl
    · decide
    · exact escapeByte_printable hc
    · decide

/-! ## Bytes -/

theorem encodeUtf8_injective : Function.Injective encodeUtf8 := by
  intro a b h
  have hdecoded := congrArg decodeUtf8 h
  rw [decodeUtf8_encodeUtf8, decodeUtf8_encodeUtf8] at hdecoded
  exact Option.some.inj hdecoded

theorem utf8EncodeChar_of_lt {c : Char} (h : c.toNat < 0x80) : String.utf8EncodeChar c = [UInt8.ofNat c.toNat] := by
  unfold String.utf8EncodeChar
  exact if_pos (Nat.le_of_lt_succ h)

theorem encodeUtf8_ofList {cs : List Char} (h : ∀ c ∈ cs, c.toNat < 0x80) :
    encodeUtf8 (String.ofList cs) = cs.map fun c => UInt8.ofNat c.toNat := by
  have hbytes : encodeUtf8 (String.ofList cs) = cs.flatMap String.utf8EncodeChar := by
    unfold encodeUtf8
    rw [String.toByteArray_ofList]
    simp [List.utf8Encode]
  rw [hbytes]
  clear hbytes
  induction cs with
  | nil => rfl
  | cons c cs ih =>
    rw [List.flatMap_cons, utf8EncodeChar_of_lt (h c List.mem_cons_self), List.map_cons,
      ih fun x hx => h x (List.mem_cons_of_mem c hx)]
    rfl

theorem encodeUtf8_asciiChars {name : List UInt8} (h : ∀ b ∈ name, b.toNat < 0x80) :
    encodeUtf8 (String.ofList (name.map asciiChar)) = name := by
  rw [encodeUtf8_ofList, List.map_map]
  · refine (List.map_congr_left fun b hb => ?_).trans (List.map_id name)
    rw [Function.comp_apply, asciiChar_toNat (h b hb), UInt8.ofNat_toNat, id_eq]
  · intro c hc
    obtain ⟨b, hb, rfl⟩ := List.mem_map.mp hc
    rw [asciiChar_toNat (h b hb)]
    exact h b hb

/-- The bytes of a name as it is printed. -/
theorem encodeUtf8_quoteC (name : List UInt8) :
    encodeUtf8 (String.ofList (quoteC name)) = (quoteC name).map fun c => UInt8.ofNat c.toNat :=
  encodeUtf8_ofList fun _ hc => Nat.lt_trans (quoteC_printable hc).2 (by decide)

theorem quoteC_of_plain {name : List UInt8} (h : ∀ b ∈ name, plainByte b = true) :
    quoteC name = name.map asciiChar := if_pos (List.all_eq_true.mpr h)

theorem encodeUtf8_quoteC_of_plain {name : List UInt8} (h : ∀ b ∈ name, plainByte b = true) :
    encodeUtf8 (String.ofList (quoteC name)) = name := by
  rw [quoteC_of_plain h, encodeUtf8_asciiChars]
  intro b hb
  obtain ⟨-, hhigh, -⟩ := (plainByte_iff b).mp (h b hb)
  omega

/-! ## A quoted name is no name that is printed as it is -/

theorem escapeByte_length_pos (b : UInt8) : 1 ≤ (escapeByte b).length := by
  unfold escapeByte
  split_ifs
  · exact Nat.le_refl 1
  · cases escapeLetters.lookup b with
    | some letter => exact Nat.le_succ_of_le (Nat.le_refl 1)
    | none => exact Nat.le_add_left 1 3

theorem length_le_flatMap_escapeByte (name : List UInt8) : name.length ≤ (name.flatMap escapeByte).length := by
  induction name with
  | nil => exact Nat.le_refl 0
  | cons b name ih =>
    have hone := escapeByte_length_pos b
    rw [List.flatMap_cons, List.length_append, List.length_cons]
    omega

section Quoted
variable {name : List UInt8}

theorem quoteC_of_not_plain (h : ¬ ∀ b ∈ name, plainByte b = true) :
    quoteC name = '"' :: (name.flatMap escapeByte ++ ['"']) :=
  if_neg fun hall => h (List.all_eq_true.mp hall)

theorem length_lt_encodeUtf8_quoteC (h : ¬ ∀ b ∈ name, plainByte b = true) :
    name.length < (encodeUtf8 (String.ofList (quoteC name))).length := by
  have hlength := length_le_flatMap_escapeByte name
  rw [encodeUtf8_quoteC, List.length_map, quoteC_of_not_plain h, List.length_cons, List.length_append]
  omega

/-- The quotes of a quoted name would have to be quoted again. -/
theorem encodeUtf8_quoteC_not_plain (h : ¬ ∀ b ∈ name, plainByte b = true) :
    ¬ ∀ b ∈ encodeUtf8 (String.ofList (quoteC name)), plainByte b = true := by
  intro hplain
  have hquote : (0x22 : UInt8) ∈ encodeUtf8 (String.ofList (quoteC name)) := by
    rw [encodeUtf8_quoteC, quoteC_of_not_plain h]
    exact List.mem_cons_self
  exact absurd (hplain _ hquote) (by decide)

end Quoted

example : quoteC [0x61, 0x62] = "ab".toList := by decide +kernel

example : quoteC [0x61, 0xc3, 0xa9, 0x09] = "\"a\\303\\251\\t\"".toList := by decide +kernel

end KernelRuntime
