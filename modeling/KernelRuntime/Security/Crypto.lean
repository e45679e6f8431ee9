import KernelRuntime.Foundations.Json

/-! # Stored secrets

`encrypt_string` and `decrypt_string` around a Fernet cipher. Neither touches an empty text, and a text
that the cipher refuses is decrypted to the empty text. -/

namespace KernelRuntime
set_option autoImplicit false

/-- The cipher of the process. A token depends on the time and on random bytes, which are the first
argument; what is no token of this key is refused. -/
structure Fernet where
  encrypt : ℕ → String → String
  decrypt : String → Option String

def encryptString (fernet : Fernet) (entropy : ℕ) (data : String) : String :=
  if data = "" then data else fernet.encrypt entropy data

def decryptString (fernet : Fernet) (encryptedData : String) : String :=
  if encryptedData = "" then encryptedData else (fernet.decrypt encryptedData).getD ""

/-- A truthy value that is no text has no `encode`, and the exception is caught. -/
def decryptValue (fernet : Fernet) : Json → String
  | .str s => decryptString fernet s
  | _ => ""

/-- `value.startswith("gAAAA")`. -/
def looksEncrypted (value : String) : Bool := "gAAAA".toList.isPrefixOf value.toList

/-- What the runtime relies on: tokens can be decrypted, and are recognized by their first letters. -/
structure Fernet.RoundTrips (fernet : Fernet) : Prop where
  decrypt_encrypt : ∀ entropy data, fernet.decrypt (fernet.encrypt entropy data) = some data
  marked : ∀ entropy data, looksEncrypted (fernet.encrypt entropy data) = true

/-- Besides, a text that is no token is never its own plaintext. -/
structure Fernet.Recognizes (fernet : Fernet) : Prop extends fernet.RoundTrips where
  foreign : ∀ data, looksEncrypted data = false → fernet.decrypt data ≠ some data

section Crypto
variable {fernet : Fernet}

theorem ne_empty_of_looksEncrypted {value : String} (h : looksEncrypted value = true) : value ≠ "" := by
  rintro rfl
  exact absurd h (by decide)

theorem looksEncrypted_encryptString (h : fernet.RoundTrips) (entropy : ℕ) {data : String}
    (hdata : data ≠ "") : looksEncrypted (encryptString fernet entropy data) = true := by
  rw [encryptString, if_neg hdata]
  exact h.marked entropy data

theorem encryptString_ne_empty (h : fernet.RoundTrips) (entropy : ℕ) {data : String} (hdata : data ≠ "") :
    encryptString fernet entropy data ≠ "" :=
  ne_empty_of_looksEncrypted (looksEncrypted_encryptString h entropy hdata)

theorem decryptString_encryptString (h : fernet.RoundTrips) (entropy : ℕ) (data : String) :
    decryptString fernet (encryptString fernet entropy data) = data := by
  by_cases hdata : data = ""
  · rw [hdata]
    rfl
  · rw [decryptString, if_neg (encryptString_ne_empty h entropy hdata), encryptString, if_neg hdata,
      h.decrypt_encrypt]
    rfl

/-- An encrypted text is not the text, when the text does not look encrypted. -/
theorem encryptString_ne (h : fernet.RoundTrips) (entropy : ℕ) {data : String} (hdata : data ≠ "")
    (hplain : looksEncrypted data = false) : encryptString fernet entropy data ≠ data := by
  intro heq
  have hmarked := looksEncrypted_encryptString h entropy hdata
  rw [heq, hplain] at hmarked
  cases hmarked

theorem decryptString_ne_of_plain (h : fernet.Recognizes) {data : String} (hdata : data ≠ "")
    (hplain : looksEncrypted data = false) : decryptString fernet data ≠ data := by
  rw [decryptString, if_neg hdata]
  cases hdecrypt : fernet.decrypt data with
  | none => exact fun heq => hdata heq.symm
  | some plain => exact fun heq => h.foreign data hplain (hdecrypt.trans (congrArg some heq))

end Crypto

/-- A cipher to compute with: the token is the text behind the mark. -/
def markingFernet : Fernet where
  encrypt _ data := "gAAAA" ++ data
  decrypt token := (token.toList.dropPrefix? "gAAAA".toList).map String.ofList

theorem markingFernet_recognizes : markingFernet.Recognizes where
  decrypt_encrypt entropy data := by
    show (("gAAAA" ++ data).toList.dropPrefix? "gAAAA".toList).map String.ofList = some data
    rw [String.toList_append, List.dropPrefix?_append_of_beq _ (beq_self_eq_true _), Option.map_some,
      String.ofList_toList]
  marked entropy data := by
    show "gAAAA".toList.isPrefixOf ("gAAAA" ++ data).toList = true
    rw [String.toList_append, List.isPrefixOf_iff_prefix]
    exact List.prefix_append _ _
  foreign data hplain hdecrypt := by
    obtain ⟨rest, hrest, _⟩ := Option.map_eq_some_iff.mp hdecrypt
    obtain ⟨mark, hdata, hmark⟩ := List.dropPrefix?_eq_some_iff.mp hrest
    rw [eq_of_beq hmark] at hdata
    have hprefix : looksEncrypted data = true := by
      unfold looksEncrypted
      rw [List.isPrefixOf_iff_prefix, hdata]
      exact List.prefix_append _ _
    rw [hplain] at hprefix
    cases hprefix

end KernelRuntime
