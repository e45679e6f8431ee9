import Mathlib.Data.List.Nodup
import KernelRuntime.Foundations.Json

/-! # Flat dictionaries as JSON text

`json.dumps` of a dictionary of texts and whole numbers, without spaces, and what the decoder makes of it. The
text is ASCII: other characters are escaped, those beyond the first plane as two surrogates. -/

namespace KernelRuntime.Encoder
set_option autoImplicit false

def hexChar (n : ℕ) : Char := "0123456789abcdef".toList.getD n '0'

def hex4 (n : ℕ) : List Char := [hexChar (n / 4096), hexChar (n / 256 % 16), hexChar (n / 16 % 16), hexChar (n % 16)]

/-- `\uXXXX`. -/
def unicodeEscape (n : ℕ) : List Char := '\\' :: 'u' :: hex4 n

/-- `py_encode_basestring_ascii`, one character of it. -/
def escape (c : Char) : List Char :=
  if c = '"' then ['\\', '"']
  else if c = '\\' then ['\\', '\\']
  else if c = '\n' then ['\\', 'n']
  else if c = '\r' then ['\\', 'r']
  else if c = '\t' then ['\\', 't']
  else if c = Char.ofNat 12 then ['\\', 'f']
  else if c = Char.ofNat 8 then ['\\', 'b']
  else if 32 ≤ c.toNat ∧ c.toNat ≤ 126 then [c]
  else if c.toNat < 0x10000 then unicodeEscape c.toNat
  else
    unicodeEscape (0xd800 + (c.toNat - 0x10000) / 1024) ++ unicodeEscape (0xdc00 + (c.toNat - 0x10000) % 1024)

def string (text : String) : List Char := '"' :: (text.toList.flatMap escape ++ ['"'])

def int (n : ℤ) : List Char := if n < 0 then '-' :: Nat.toDigits 10 n.natAbs else Nat.toDigits 10 n.natAbs

/-- A value of a flat dictionary. -/
inductive Scalar where
  | str (text : String)
  | int (n : ℤ)
deriving DecidableEq

def Scalar.toJson : Scalar → Json
  | .str text => .str text
  | .int n => .int n

def scalar : Scalar → List Char
  | .str text => string text
  | .int n => int n

def member (m : String × Scalar) : List Char := string m.1 ++ ':' :: scalar m.2

/-- The members after the first one, and the closing brace. -/
def tail : List (String × Scalar) → List Char
  | [] => ['\x7d']
  | m :: ms => ',' :: (member m ++ tail ms)

/-- `json.dumps(fields, separators=(",", ":"))`. -/
def dumps (fields : List (String × Scalar)) : String :=
  String.ofList (match fields with
    | [] => ['\x7b', '\x7d']
    | m :: ms => '\x7b' :: (member m ++ tail ms))

def toFields (fields : List (String × Scalar)) : Fields := fields.map fun m => (m.1, m.2.toJson)

example : dumps [("a", .str "é\""), ("n", .int (-7))] = "\x7b\"a\":\"\\u00e9\\\"\",\"n\":-7\x7d" := by decide +kernel

/-! ## Strings -/

theorem hexDigit_hexChar : ∀ n < 16, Decoder.hexDigit (hexChar n) = some n := by decide +kernel

theorem hex4_hex4 {n : ℕ} (h : n < 0x10000) (rest : List Char) : Decoder.hex4 (hex4 n ++ rest) = some (n, rest) := by
  have hsum : n / 4096 * 4096 + n / 256 % 16 * 256 + n / 16 % 16 * 16 + n % 16 = n := by omega
  simp only [hex4, List.cons_append, List.nil_append, Decoder.hex4]
  rw [hexDigit_hexChar _ (by omega), hexDigit_hexChar _ (by omega), hexDigit_hexChar _ (by omega),
    hexDigit_hexChar _ (by omega)]
  simp only [Option.bind_eq_bind, Option.bind_some, Option.pure_def, hsum]

theorem toNat_valid (c : Char) : c.toNat < 0xd800 ∨ 0xdfff < c.toNat ∧ c.toNat < 0x110000 := by
  have h := c.valid
  simp only [UInt32.isValidChar, Nat.isValidChar] at h
  exact h

theorem unicodeEscape_plane {c : Char} {hex rest : List Char} (h : Decoder.hex4 hex = some (c.toNat, rest)) :
    Decoder.unicodeEscape hex = some (c, rest) := by
  have hvalid := toNat_valid c
  have hhigh : ¬ (0xd800 ≤ c.toNat ∧ c.toNat ≤ 0xdbff) := by omega
  have hlow : ¬ (0xdc00 ≤ c.toNat ∧ c.toNat ≤ 0xdfff) := by omega
  unfold Decoder.unicodeEscape
  simp only [h, Option.bind_eq_bind, Option.bind_some, if_neg hhigh, if_neg hlow, Char.ofNat_toNat]

/-- The two surrogates of a character beyond the first plane. -/
theorem unicodeEscape_pair {c : Char} {hex more rest : List Char} {high low : ℕ}
    (hhex : Decoder.hex4 hex = some (high, '\\' :: 'u' :: more)) (hmore : Decoder.hex4 more = some (low, rest))
    (hhigh : 0xd800 ≤ high ∧ high ≤ 0xdbff) (hlow : 0xdc00 ≤ low ∧ low ≤ 0xdfff)
    (hsum : 0x10000 + (high - 0xd800) * 1024 + (low - 0xdc00) = c.toNat) :
    Decoder.unicodeEscape hex = some (c, rest) := by
  unfold Decoder.unicodeEscape
  simp only [hhex, Option.bind_eq_bind, Option.bind_some, if_pos hhigh, hmore, if_pos hlow, hsum, Char.ofNat_toNat]

theorem unicodeEscape_surrogates {c : Char} (h : ¬ c.toNat < 0x10000) (rest : List Char) :
    Decoder.unicodeEscape (hex4 (0xd800 + (c.toNat - 0x10000) / 1024) ++
      (unicodeEscape (0xdc00 + (c.toNat - 0x10000) % 1024) ++ rest)) = some (c, rest) := by
  have hvalid := toNat_valid c
  generalize hhigh : 0xd800 + (c.toNat - 0x10000) / 1024 = high
  generalize hlow : 0xdc00 + (c.toNat - 0x10000) % 1024 = low
  exact unicodeEscape_pair (hex4_hex4 (by omega) _) (hex4_hex4 (by omega) rest) (by omega) (by omega) (by omega)

theorem string_simpleEscape {fuel : ℕ} {e c : Char} (hu : e ≠ 'u') (h : Decoder.simpleEscape e = some c)
    (cs : List Char) :
    Decoder.string (fuel + 1) ('\\' :: e :: cs) = (Decoder.string fuel cs).map fun r => (c :: r.1, r.2) := by
  rw [Decoder.string.eq_def]
  simp only [if_neg (show ¬ '\\' = '"' by decide), if_true, h, Option.bind_eq_bind, Option.bind_some, Option.pure_def]
  cases Decoder.string fuel cs <;> rfl

theorem string_unicodeEscape {fuel : ℕ} {c : Char} {hex cs : List Char}
    (h : Decoder.unicodeEscape hex = some (c, cs)) :
    Decoder.string (fuel + 1) ('\\' :: 'u' :: hex) = (Decoder.string fuel cs).map fun r => (c :: r.1, r.2) := by
  rw [Decoder.string.eq_def]
  simp only [if_neg (show ¬ '\\' = '"' by decide), if_true, h, Option.bind_eq_bind, Option.bind_some, Option.pure_def]
  cases Decoder.string fuel cs <;> rfl

theorem string_plain {fuel : ℕ} {c : Char} (hquote : c ≠ '"') (hback : c ≠ '\\') (h : 32 ≤ c.toNat) (cs : List Char) :
    Decoder.string (fuel + 1) (c :: cs) = (Decoder.string fuel cs).map fun r => (c :: r.1, r.2) := by
  rw [Decoder.string.eq_def]
  simp only [if_neg hquote, if_neg hback, if_neg (Nat.not_lt.mpr h), Option.bind_eq_bind, Option.pure_def]
  cases Decoder.string fuel cs <;> rfl

theorem string_escape (fuel : ℕ) (c : Char) (cs : List Char) :
    Decoder.string (fuel + 1) (escape c ++ cs) = (Decoder.string fuel cs).map fun r => (c :: r.1, r.2) := by
  unfold escape
  split_ifs with hquote hback hnewline hreturn htab hfeed hbackspace hprint hplane
  · rw [hquote]
    exact string_simpleEscape (by decide) rfl cs
  · rw [hback]
    exact string_simpleEscape (by decide) rfl cs
  · rw [hnewline]
    exact string_simpleEscape (by decide) rfl cs
  · rw [hreturn]
    exact string_simpleEscape (by decide) rfl cs
  · rw [htab]
    exact string_simpleEscape (by decide) rfl cs
  · rw [hfeed]
    exact string_simpleEscape (by decide) rfl cs
  · rw [hbackspace]
    exact string_simpleEscape (by decide) rfl cs
  · exact string_plain hquote hback hprint.1 cs
  · exact string_unicodeEscape (unicodeEscape_plane (hex4_hex4 hplane cs))
  · rw [List.append_assoc]
    exact string_unicodeEscape (unicodeEscape_surrogates hplane cs)

theorem length_le_escaped (text : List Char) : text.length ≤ (text.flatMap escape).length := by
  have hpos : ∀ c, 1 ≤ (escape c).length := by
    intro c
    unfold escape
    split_ifs <;> simp [unicodeEscape]
  induction text with
  | nil => exact Nat.le_refl _
  | cons c text ih =>
    have hc := hpos c
    rw [List.flatMap_cons, List.length_append, List.length_cons]
    omega

theorem string_escaped {fuel : ℕ} {text : List Char} (h : text.length < fuel) (rest : List Char) :
    Decoder.string fuel (text.flatMap escape ++ '"' :: rest) = some (text, rest) := by
  induction text generalizing fuel with
  | nil =>
    obtain ⟨fuel, rfl⟩ := Nat.exists_eq_succ_of_ne_zero (Nat.ne_zero_of_lt h)
    rw [Decoder.string.eq_def]
    rfl
  | cons c text ih =>
    obtain ⟨fuel, rfl⟩ := Nat.exists_eq_succ_of_ne_zero (Nat.ne_zero_of_lt h)
    rw [List.flatMap_cons, List.append_assoc, string_escape, ih (Nat.lt_of_succ_lt_succ h)]
    rfl

/-! ## Whole numbers -/

theorem digits_append {ds rest : List Char} (hds : ∀ c ∈ ds, c.isDigit = true)
    (hrest : ∀ c ∈ rest.head?, c.isDigit = false) :
    Decoder.digits (ds ++ rest) = (ds, rest) := by
  have hdigit : ∀ c : Char, ('0' ≤ c ∧ c ≤ '9') ↔ c.isDigit = true := by
    intro c
    simp [Char.isDigit, Char.le_def]
  induction ds with
  | nil =>
    cases rest with
    | nil => rfl
    | cons c rest =>
      have hc : ¬ ('0' ≤ c ∧ c ≤ '9') := by
        rw [hdigit, hrest c rfl]
        exact Bool.false_ne_true
      simp only [List.nil_append, Decoder.digits, if_neg hc]
  | cons c ds ih =>
    have hc : '0' ≤ c ∧ c ≤ '9' := (hdigit c).mpr (hds c List.mem_cons_self)
    simp only [List.cons_append, Decoder.digits, if_pos hc, ih fun c h => hds c (List.mem_cons_of_mem _ h)]

theorem natOf_toDigits (n : ℕ) : Decoder.natOf (Nat.toDigits 10 n) = n := by
  have h := Nat.ofDigitChars_ten_toDigits (n := n)
  rw [Nat.ofDigitChars_eq_foldl] at h
  unfold Decoder.natOf
  simpa [Nat.mul_comm] using h

/-- Only zero is written with a zero in front. -/
theorem toDigits_zero_head {n : ℕ} {more : List Char} (h : Nat.toDigits 10 n = '0' :: more) : n = 0 := by
  induction n using Nat.strongRecOn generalizing more with
  | ind n ih =>
    by_cases hn : n < 10
    · rw [Nat.toDigits_of_lt_base hn] at h
      have hchar := (List.cons.inj h).1
      have hnat := Nat.toNat_digitChar_of_lt_ten hn
      rw [hchar] at hnat
      have : '0'.toNat = 48 := rfl
      omega
    · rw [Nat.toDigits_of_base_le (by decide) (Nat.not_lt.mp hn)] at h
      cases hdiv : Nat.toDigits 10 (n / 10) with
      | nil => exact absurd hdiv Nat.toDigits_ne_nil
      | cons c cs =>
        rw [hdiv] at h
        obtain ⟨rfl, _⟩ := List.cons.inj h
        have hzero := ih (n / 10) (by omega) hdiv
        omega

/-- What may stand after a number: nothing that the number could go on with. -/
def Ends (rest : List Char) : Prop := ∃ c more, rest = c :: more ∧ (c = ',' ∨ c = '\x7d')

theorem number_digits (negative : Bool) {d : Char} {ds : List Char} {c : Char} {more : List Char}
    (hds : ∀ c ∈ d :: ds, c.isDigit = true) (hzero : d = '0' → ds = []) (hc : c = ',' ∨ c = '\x7d') :
    Decoder.number negative (d :: ds ++ c :: more) =
      some (.int ((if negative then -1 else 1) * Decoder.natOf (d :: ds)), c :: more) := by
  have hdigit : c.isDigit = false := by rcases hc with rfl | rfl <;> rfl
  have hfraction : Decoder.fraction (c :: more) = ([], c :: more) := by rcases hc with rfl | rfl <;> rfl
  have hexponent : Decoder.exponent (c :: more) = (none, c :: more) := by rcases hc with rfl | rfl <;> rfl
  have hdigits : Decoder.digits (d :: ds ++ c :: more) = (d :: ds, c :: more) := by
    refine digits_append hds fun c' hc' => ?_
    cases hc'
    exact hdigit
  unfold Decoder.number
  by_cases hd : d = '0'
  · obtain rfl := hzero hd
    subst hd
    simp [hfraction, hexponent]
  · rw [hdigits]
    simp [hd, hfraction, hexponent]

/-! ## Values -/

theorem ne_of_isDigit {c d : Char} (hc : c.isDigit = true) (hd : d.isDigit = false) : c ≠ d := by
  rintro rfl
  rw [hc] at hd
  cases hd

/-- No word starts with a digit, and none has one after a minus sign. -/
theorem word_digit {c : Char} (h : c.isDigit = true) (cs : List Char) :
    Decoder.word (c :: cs) = none ∧ Decoder.word ('-' :: c :: cs) = none := by
  have hn := ne_of_isDigit h (d := 'n') rfl
  have ht := ne_of_isDigit h (d := 't') rfl
  have hf := ne_of_isDigit h (d := 'f') rfl
  have hN := ne_of_isDigit h (d := 'N') rfl
  have hI := ne_of_isDigit h (d := 'I') rfl
  have hm := ne_of_isDigit h (d := '-') rfl
  constructor
  · simp [Decoder.word, Decoder.words, List.findSome?, List.dropPrefix?, hn, ht, hf, hN, hI, hm]
  · simp [Decoder.word, Decoder.words, List.findSome?, List.dropPrefix?, hI]

theorem value_int {fuel : ℕ} (n : ℤ) {rest : List Char} (h : Ends rest) :
    Decoder.value (fuel + 1) (int n ++ rest) = some (.int n, rest) := by
  obtain ⟨c, more, rfl, hc⟩ := h
  cases hdigits : Nat.toDigits 10 n.natAbs with
  | nil => exact absurd hdigits Nat.toDigits_ne_nil
  | cons d ds =>
    have hds : ∀ c ∈ d :: ds, c.isDigit = true := fun c hc =>
      Nat.isDigit_of_mem_toDigits (by decide) (by decide) (hdigits ▸ hc)
    have hzero : d = '0' → ds = [] := by
      rintro rfl
      rw [toDigits_zero_head hdigits, Nat.toDigits_zero] at hdigits
      exact (List.cons.inj hdigits).2.symm
    have hnat : Decoder.natOf (d :: ds) = n.natAbs := hdigits ▸ natOf_toDigits n.natAbs
    have hd := hds d List.mem_cons_self
    obtain ⟨hword, hminus⟩ := word_digit hd (ds ++ c :: more)
    unfold int
    split_ifs with hneg
    · have hn : (-1 : ℤ) * n.natAbs = n := by omega
      rw [hdigits, List.cons_append, Decoder.value.eq_def]
      simp only [List.cons_append, hminus]
      rw [if_neg (by decide), if_neg (by decide), if_neg (by decide), if_true, ← List.cons_append,
        number_digits true hds hzero hc, hnat, if_pos rfl, hn]
    · have hn : (1 : ℤ) * n.natAbs = n := by omega
      rw [hdigits, List.cons_append, Decoder.value.eq_def]
      simp only [hword]
      rw [if_neg (ne_of_isDigit hd rfl), if_neg (ne_of_isDigit hd rfl), if_neg (ne_of_isDigit hd rfl),
        if_neg (ne_of_isDigit hd rfl), ← List.cons_append, number_digits false hds hzero hc, hnat,
        if_neg Bool.false_ne_true, hn]

theorem value_string {fuel : ℕ} {text : String} (h : text.toList.length ≤ fuel) (rest : List Char) :
    Decoder.value (fuel + 1) (string text ++ rest) = some (.str text, rest) := by
  unfold string
  rw [List.cons_append, List.append_assoc, List.singleton_append, Decoder.value.eq_def]
  simp only [if_true]
  rw [string_escaped (Nat.lt_succ_of_le h)]
  simp

theorem value_scalar {fuel : ℕ} (v : Scalar) {rest : List Char} (hrest : Ends rest)
    (h : (scalar v).length ≤ fuel) : Decoder.value (fuel + 1) (scalar v ++ rest) = some (v.toJson, rest) := by
  cases v with
  | str text =>
    refine value_string (Nat.le_trans ?_ h) rest
    have hescape : text.toList.length ≤ (text.toList.flatMap escape).length := length_le_escaped _
    simp only [scalar, string, List.length_cons, List.length_append]
    omega
  | int n => exact value_int n hrest

/-! ## Dictionaries -/

theorem ends_tail (ms : List (String × Scalar)) (rest : List Char) : Ends (tail ms ++ rest) := by
  cases ms with
  | nil => exact ⟨_, _, rfl, Or.inr rfl⟩
  | cons m ms => exact ⟨_, _, rfl, Or.inl rfl⟩

theorem closes_self (bracket : Char) (cs : List Char) : Decoder.closes bracket (bracket :: cs) = some cs := by
  simp [Decoder.closes, List.dropPrefix?]

theorem closes_of_ne {bracket c : Char} (h : c ≠ bracket) (cs : List Char) :
    Decoder.closes bracket (c :: cs) = none := by
  simp [Decoder.closes, List.dropPrefix?, h]

theorem skipSpace_cons {c : Char} (h : c ∉ [' ', '\t', '\n', '\r']) (cs : List Char) :
    Decoder.skipSpace (c :: cs) = c :: cs := by
  rw [Decoder.skipSpace, if_neg]
  simpa using h

theorem skipSpace_scalar (v : Scalar) (cs : List Char) : Decoder.skipSpace (scalar v ++ cs) = scalar v ++ cs := by
  have hdigit : ∀ c : Char, c.isDigit = true → c ∉ [' ', '\t', '\n', '\r'] := by
    intro c hc hmem
    simp only [List.mem_cons, List.not_mem_nil, or_false] at hmem
    rcases hmem with rfl | rfl | rfl | rfl <;> cases hc
  cases v with
  | str text => exact skipSpace_cons (by decide) _
  | int n =>
    simp only [scalar, int]
    split_ifs
    · exact skipSpace_cons (by decide) _
    · cases hdigits : Nat.toDigits 10 n.natAbs with
      | nil => exact absurd hdigits Nat.toDigits_ne_nil
      | cons d ds =>
        have hd : d ∈ Nat.toDigits 10 n.natAbs := hdigits ▸ List.mem_cons_self
        exact skipSpace_cons (hdigit d (Nat.isDigit_of_mem_toDigits (by decide) (by decide) hd)) _

theorem length_member (m : String × Scalar) :
    m.1.toList.length + (scalar m.2).length + 3 ≤ (member m).length := by
  have hkey := length_le_escaped m.1.toList
  simp only [member, string, List.length_append, List.length_cons, List.length_nil]
  omega

/-- A turn of the decoder: one member, before what follows it is looked at. -/
theorem members_step {fuel : ℕ} {m : String × Scalar} {done : Fields} {rest : List Char}
    (hfuel : (member m).length ≤ fuel) (hrest : Ends rest) (hkey : m.1 ∉ done.map Prod.fst) :
    Decoder.members (fuel + 1) done (member m ++ rest) =
      ((Decoder.closes '\x7d' (Decoder.skipSpace rest)).map fun rest' => (done ++ [(m.1, m.2.toJson)], rest')).or
        ((Decoder.closes ',' (Decoder.skipSpace rest)).bind fun rest' =>
          Decoder.members fuel (done ++ [(m.1, m.2.toJson)]) (Decoder.skipSpace rest')) := by
  have hlength := length_member m
  obtain ⟨fuel, rfl⟩ : ∃ n, fuel = n + 1 := ⟨fuel - 1, by omega⟩
  have hstring : Decoder.string (fuel + 1 + 1)
      (m.1.toList.flatMap escape ++ '"' :: ':' :: (scalar m.2 ++ rest)) =
        some (m.1.toList, ':' :: (scalar m.2 ++ rest)) := string_escaped (by omega) _
  have hmember : member m ++ rest = '"' :: (m.1.toList.flatMap escape ++ '"' :: ':' :: (scalar m.2 ++ rest)) := by
    simp [member, string]
  rw [hmember, Decoder.members.eq_def]
  simp only [closes_self, Option.bind_some, hstring, skipSpace_cons (show ':' ∉ [' ', '\t', '\n', '\r'] by decide),
    skipSpace_scalar, value_scalar m.2 hrest (show (scalar m.2).length ≤ fuel by omega), String.ofList_toList,
    assocSet_of_not_mem m.2.toJson hkey]
  cases Decoder.closes '\x7d' (Decoder.skipSpace rest) with
  | some rest' => rfl
  | none => cases Decoder.closes ',' (Decoder.skipSpace rest) <;> rfl

theorem members_tail {fuel : ℕ} {m : String × Scalar} {ms : List (String × Scalar)} {done : Fields}
    (hfuel : (member m ++ tail ms).length ≤ fuel) (hkeys : (done.map Prod.fst ++ (m :: ms).map Prod.fst).Nodup)
    (rest : List Char) :
    Decoder.members fuel done (member m ++ (tail ms ++ rest)) = some (done ++ toFields (m :: ms), rest) := by
  induction ms generalizing m done fuel with
  | nil =>
    simp only [tail, List.length_append, List.length_cons, List.length_nil] at hfuel
    obtain ⟨fuel, rfl⟩ : ∃ n, fuel = n + 1 := ⟨fuel - 1, by omega⟩
    have hkey : m.1 ∉ done.map Prod.fst := fun h =>
      (List.nodup_append'.mp hkeys).2.2 h List.mem_cons_self
    rw [members_step (by omega) (ends_tail [] rest) hkey, tail, List.cons_append, skipSpace_cons (by decide),
      closes_self]
    rfl
  | cons m' ms ih =>
    simp only [tail, List.length_append, List.length_cons] at hfuel
    obtain ⟨fuel, rfl⟩ : ∃ n, fuel = n + 1 := ⟨fuel - 1, by omega⟩
    have hkey : m.1 ∉ done.map Prod.fst := fun h =>
      (List.nodup_append'.mp hkeys).2.2 h List.mem_cons_self
    have hnext : ((done ++ [(m.1, m.2.toJson)]).map Prod.fst ++ (m' :: ms).map Prod.fst).Nodup := by
      rw [List.map_append, List.append_assoc]
      exact hkeys
    rw [members_step (by omega) (ends_tail (m' :: ms) rest) hkey, tail, List.cons_append, skipSpace_cons (by decide),
      closes_of_ne (by decide), closes_self, List.append_assoc, Option.map_none, Option.none_or, Option.bind_some]
    have hquote : Decoder.skipSpace (member m' ++ (tail ms ++ rest)) = member m' ++ (tail ms ++ rest) :=
      skipSpace_cons (by decide) _
    rw [hquote, ih (by rw [List.length_append]; omega) hnext, List.append_assoc]
    rfl

/-- A flat dictionary is read as it was written. -/
theorem decode_dumps {fields : List (String × Scalar)} (h : (fields.map Prod.fst).Nodup) :
    Decoder.decode (dumps fields) = some (.obj (toFields fields)) := by
  cases fields with
  | nil => decide +kernel
  | cons m ms =>
    unfold Decoder.decode dumps
    rw [String.toList_ofList]
    have hlength : ('\x7b' :: (member m ++ tail ms)).length = (member m ++ tail ms).length + 1 := List.length_cons
    obtain ⟨fuel, hfuel⟩ : ∃ n, 2 * ('\x7b' :: (member m ++ tail ms)).length + 2 = n + 1 := ⟨_, rfl⟩
    have hquote : Decoder.skipSpace (member m ++ tail ms) = member m ++ tail ms := skipSpace_cons (by decide) _
    have hopen : Decoder.closes '\x7d' (member m ++ tail ms) = none := closes_of_ne (by decide) _
    have hkeys : (List.map Prod.fst ([] : Fields) ++ (m :: ms).map Prod.fst).Nodup := h
    have hmembers := members_tail (show (member m ++ tail ms).length ≤ fuel by omega) hkeys []
    rw [List.append_nil, List.nil_append] at hmembers
    have hvalue : Decoder.value (fuel + 1) ('\x7b' :: (member m ++ tail ms)) =
        some (.obj (toFields (m :: ms)), []) := by
      rw [Decoder.value.eq_def]
      simp only
      rw [if_neg (by decide), if_neg (by decide), if_true, hquote, hopen]
      simp only
      rw [hmembers]
      rfl
    simp only
    rw [hfuel, skipSpace_cons (by decide), hvalue]
    rfl

/-! ## Numbers beyond the limit -/

/-- The longest run of digits, when so many stand directly before the text. -/
def digitRun : ℕ → List Char → ℕ
  | run, [] => run
  | run, c :: cs => if c.isDigit then digitRun (run + 1) cs else max run (digitRun 0 cs)

theorem digitRun_cons (run : ℕ) (c : Char) (cs : List Char) :
    digitRun run (c :: cs) = if c.isDigit then digitRun (run + 1) cs else max run (digitRun 0 cs) := rfl

theorem digitRun_le_countP (run : ℕ) (cs : List Char) : digitRun run cs ≤ run + cs.countP Char.isDigit := by
  induction cs generalizing run with
  | nil => exact Nat.le_refl _
  | cons c cs ih =>
    rw [digitRun_cons, List.countP_cons]
    split_ifs
    · have := ih (run + 1)
      omega
    · have := ih 0
      omega

theorem le_digitRun (run : ℕ) (cs : List Char) : run ≤ digitRun run cs := by
  induction cs generalizing run with
  | nil => exact Nat.le_refl _
  | cons c cs ih =>
    rw [digitRun_cons]
    split_ifs
    · exact Nat.le_of_succ_le (ih (run + 1))
    · exact Nat.le_max_left _ _

theorem le_digitRun_digits {ds : List Char} (hds : ∀ c ∈ ds, c.isDigit = true) (run : ℕ) (rest : List Char) :
    run + ds.length ≤ digitRun run (ds ++ rest) := by
  induction ds generalizing run with
  | nil => exact le_digitRun run rest
  | cons c ds ih =>
    rw [List.cons_append, digitRun_cons, if_pos (hds c List.mem_cons_self), List.length_cons]
    have := ih (fun c hc => hds c (List.mem_cons_of_mem _ hc)) (run + 1)
    omega

/-- A part of the text that is all digits is no longer than the longest run. -/
theorem length_le_digitRun {ds : List Char} (hds : ∀ c ∈ ds, c.isDigit = true) (run : ℕ)
    (before rest : List Char) : ds.length ≤ digitRun run (before ++ (ds ++ rest)) := by
  induction before generalizing run with
  | nil =>
    have := le_digitRun_digits hds run rest
    simp only [List.nil_append]
    omega
  | cons c before ih =>
    rw [List.cons_append, digitRun_cons]
    split_ifs
    · exact ih _
    · exact Nat.le_trans (ih 0) (Nat.le_max_right _ _)

/-- An interpreter that takes no more digits in a row. -/
def digitLimits (limit : ℕ) (h : 640 ≤ limit) : Limits where
  refuses text := decide (limit < digitRun 0 text.toList)
  flat text _ hdigits := by
    have := digitRun_le_countP 0 text.toList
    simp only [decide_eq_false_iff_not]
    omega

theorem digitLimits_refuses {limit : ℕ} (h : 640 ≤ limit) (text : String) :
    (digitLimits limit h).refuses text = decide (limit < digitRun 0 text.toList) := rfl

theorem toList_dumps_int (name : String) (n : ℕ) : (dumps [(name, .int n)]).toList =
    '\x7b' :: (string name ++ [':']) ++ (Nat.toDigits 10 n ++ ['\x7d']) := by
  have hint : int n = Nat.toDigits 10 n := by
    unfold int
    rw [if_neg (Int.not_lt.mpr (Int.natCast_nonneg n)), Int.natAbs_natCast]
  unfold dumps
  simp only [String.toList_ofList, member, scalar, hint, tail, List.cons_append, List.append_assoc, List.nil_append]

/-- A number with more digits than the limit is refused. -/
theorem refuses_dumps {limit : ℕ} (h : 640 ≤ limit) (name : String) {n : ℕ} (hn : 10 ^ limit ≤ n) :
    (digitLimits limit h).refuses (dumps [(name, .int n)]) = true := by
  have hdigits : ∀ c ∈ Nat.toDigits 10 n, c.isDigit = true :=
    fun c hc => Nat.isDigit_of_mem_toDigits (by decide) (by decide) hc
  have hlong : limit < (Nat.toDigits 10 n).length := by
    have hpos : 0 < limit := by omega
    have hfits := Nat.length_toDigits_le_iff (n := n) (b := 10) (by decide) hpos
    omega
  have hrun := length_le_digitRun hdigits 0 ('\x7b' :: (string name ++ [':'])) ['\x7d']
  rw [← toList_dumps_int] at hrun
  rw [digitLimits_refuses, decide_eq_true_iff]
  exact Nat.lt_of_lt_of_le hlong hrun

end KernelRuntime.Encoder
