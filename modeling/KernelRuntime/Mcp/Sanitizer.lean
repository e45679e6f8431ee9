import KernelRuntime.Foundations.JsonStrings

/-! # Sanitizing the arguments of a plugin call

`sanitize_request_payload` follows dictionaries to any depth, and lists as far as the dictionaries in them. -/

namespace KernelRuntime.Sanitizer
set_option autoImplicit false

/-- The class of the pattern. -/
def specialCharacters : List Char := ['<', '>', Char.ofNat 39, '"', '&']

/-- `re.sub` of the pattern by nothing. -/
def removeSpecial (text : String) : String :=
  String.ofList (text.toList.filter fun c => decide (c ∉ specialCharacters))

mutual

def sanitizeRequestPayload : Fields → Fields
  | [] => []
  | (key, value) :: payload => (key, sanitizeValue value) :: sanitizeRequestPayload payload

def sanitizeValue : Json → Json
  | .str text => .str (removeSpecial text)
  | .obj fields => .obj (sanitizeRequestPayload fields)
  | .arr items => .arr (sanitizeItems items)
  | .null => .null
  | .bool b => .bool b
  | .int n => .int n
  | .float x => .float x

def sanitizeItems : List Json → List Json
  | [] => []
  | .obj fields :: items => .obj (sanitizeRequestPayload fields) :: sanitizeItems items
  -- neither a string in a list nor a list in a list is looked into
  | .str text :: items => .str text :: sanitizeItems items
  | .arr inner :: items => .arr inner :: sanitizeItems items
  | .null :: items => .null :: sanitizeItems items
  | .bool b :: items => .bool b :: sanitizeItems items
  | .int n :: items => .int n :: sanitizeItems items
  | .float x :: items => .float x :: sanitizeItems items

end

/-- The text has none of the characters. -/
def Plain (text : String) : Prop := ∀ c ∈ text.toList, c ∉ specialCharacters

/-- Every string of the payload lost the characters and nothing else changed, so no string has one and nothing
is left to sanitize. -/
structure Sanitizes (payload output : Fields) : Prop where
  cleaned : output = mapStringsFields removeSpecial payload
  plain : AllStringsFields Plain output
  stable : sanitizeRequestPayload output = output

mutual

/-- Every string directly in a list is plain, and so is every string of a list in a list. -/
def ListsPlain : Json → Prop
  | .obj fields => FieldsListsPlain fields
  | .arr items => ItemsPlain items
  | .null | .bool _ | .int _ | .float _ | .str _ => True

def FieldsListsPlain : Fields → Prop
  | [] => True
  | (_, value) :: fields => ListsPlain value ∧ FieldsListsPlain fields

def ItemsPlain : List Json → Prop
  | [] => True
  | .obj fields :: items => FieldsListsPlain fields ∧ ItemsPlain items
  | .str text :: items => Plain text ∧ ItemsPlain items
  | .arr inner :: items => AllStringsItems Plain inner ∧ ItemsPlain items
  | .null :: items | .bool _ :: items | .int _ :: items | .float _ :: items => ItemsPlain items

end

/-! ## One text -/

theorem removeSpecial_eq_self_iff (text : String) : removeSpecial text = text ↔ Plain text := by
  have hlist : removeSpecial text = text ↔
      text.toList.filter (fun c => decide (c ∉ specialCharacters)) = text.toList := by
    rw [removeSpecial, ← String.toList_inj, String.toList_ofList]
  rw [hlist, List.filter_eq_self]
  simp [Plain]

theorem plain_removeSpecial (text : String) : Plain (removeSpecial text) := by
  intro c hc
  rw [removeSpecial, String.toList_ofList, List.mem_filter] at hc
  exact of_decide_eq_true hc.2

theorem fixed_eq_plain : (fun text => removeSpecial text = text) = Plain :=
  funext fun text => propext (removeSpecial_eq_self_iff text)

theorem mapStringsItems_fixed_iff (items : List Json) :
    items = mapStringsItems removeSpecial items ↔ AllStringsItems Plain items := by
  rw [eq_comm, mapStringsItems_eq_self_iff, fixed_eq_plain]

/-! ## The whole payload -/

mutual

theorem sanitizeRequestPayload_eq_iff (payload : Fields) :
    sanitizeRequestPayload payload = mapStringsFields removeSpecial payload ↔ FieldsListsPlain payload := by
  cases payload with
  | nil => simp [sanitizeRequestPayload, mapStringsFields, FieldsListsPlain]
  | cons field payload =>
    obtain ⟨key, value⟩ := field
    rw [sanitizeRequestPayload, mapStringsFields, FieldsListsPlain, List.cons.injEq, Prod.mk.injEq,
      and_iff_right rfl, sanitizeValue_eq_iff value, sanitizeRequestPayload_eq_iff payload]

theorem sanitizeValue_eq_iff (value : Json) :
    sanitizeValue value = value.mapStrings removeSpecial ↔ ListsPlain value := by
  cases value with
  | arr items => simp [sanitizeValue, Json.mapStrings, ListsPlain, sanitizeItems_eq_iff items]
  | obj fields => simp [sanitizeValue, Json.mapStrings, ListsPlain, sanitizeRequestPayload_eq_iff fields]
  | _ => simp [sanitizeValue, Json.mapStrings, ListsPlain]

theorem sanitizeItems_eq_iff (items : List Json) :
    sanitizeItems items = mapStringsItems removeSpecial items ↔ ItemsPlain items := by
  cases items with
  | nil => simp [sanitizeItems, mapStringsItems, ItemsPlain]
  | cons item items =>
    cases item with
    | obj fields =>
      rw [sanitizeItems, mapStringsItems, ItemsPlain, List.cons.injEq, Json.mapStrings, Json.obj.injEq,
        sanitizeRequestPayload_eq_iff fields, sanitizeItems_eq_iff items]
    | arr inner =>
      rw [sanitizeItems, mapStringsItems, ItemsPlain, List.cons.injEq, Json.mapStrings, Json.arr.injEq,
        mapStringsItems_fixed_iff, sanitizeItems_eq_iff items]
    | str text =>
      rw [sanitizeItems, mapStringsItems, ItemsPlain, List.cons.injEq, Json.mapStrings, Json.str.injEq, eq_comm,
        removeSpecial_eq_self_iff, sanitizeItems_eq_iff items]
    | _ => simp [sanitizeItems, mapStringsItems, ItemsPlain, Json.mapStrings, sanitizeItems_eq_iff items]

end

mutual

/-- Sanitizing again changes nothing, whatever the first time left. -/
theorem sanitizeRequestPayload_idempotent (payload : Fields) :
    sanitizeRequestPayload (sanitizeRequestPayload payload) = sanitizeRequestPayload payload := by
  cases payload with
  | nil => simp [sanitizeRequestPayload]
  | cons field payload =>
    obtain ⟨key, value⟩ := field
    rw [sanitizeRequestPayload, sanitizeRequestPayload, sanitizeValue_idempotent value,
      sanitizeRequestPayload_idempotent payload]

theorem sanitizeValue_idempotent (value : Json) : sanitizeValue (sanitizeValue value) = sanitizeValue value := by
  cases value with
  | str text =>
    rw [sanitizeValue, sanitizeValue, (removeSpecial_eq_self_iff _).mpr (plain_removeSpecial text)]
  | arr items => simp [sanitizeValue, sanitizeItems_idempotent items]
  | obj fields => simp [sanitizeValue, sanitizeRequestPayload_idempotent fields]
  | _ => simp [sanitizeValue]

theorem sanitizeItems_idempotent (items : List Json) : sanitizeItems (sanitizeItems items) = sanitizeItems items := by
  cases items with
  | nil => simp [sanitizeItems]
  | cons item items =>
    cases item with
    | obj fields =>
      rw [sanitizeItems, sanitizeItems, sanitizeRequestPayload_idempotent fields, sanitizeItems_idempotent items]
    | _ => simp [sanitizeItems, sanitizeItems_idempotent items]

end

/-- **A payload is sanitized exactly when its lists are plain**: the strings that lie directly in a list, and all
strings of a list in a list, go out as they came. -/
theorem sanitizes_iff (payload : Fields) :
    Sanitizes payload (sanitizeRequestPayload payload) ↔ FieldsListsPlain payload := by
  constructor
  · intro h
    exact (sanitizeRequestPayload_eq_iff payload).mp h.cleaned
  · intro h
    have hcleaned := (sanitizeRequestPayload_eq_iff payload).mpr h
    refine ⟨hcleaned, ?_, sanitizeRequestPayload_idempotent payload⟩
    rw [hcleaned]
    exact allStringsFields_mapStringsFields plain_removeSpecial payload

/-- A list of tags keeps its markup. -/
theorem tags_unsanitized : ¬ ∀ payload : Fields, Sanitizes payload (sanitizeRequestPayload payload) := by
  intro h
  have hplain := (h [("tags", .arr [.str "<b>"])]).plain
  exact absurd (hplain.1.1 '<' (by decide)) (by decide)

end KernelRuntime.Sanitizer
