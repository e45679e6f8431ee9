import KernelRuntime.Foundations.Json

/-! # The strings of a value

`Json.mapStrings` changes every string of a value, at any depth of lists and dictionaries, and nothing else:
keys, lengths and the other leaves stay. `Json.AllStrings` says that every such string has a property. -/

namespace KernelRuntime
set_option autoImplicit false

mutual

/-- The value with `f` applied to its strings, the keys apart. -/
def Json.mapStrings (f : String → String) : Json → Json
  | .null => .null
  | .bool b => .bool b
  | .int n => .int n
  | .float x => .float x
  | .str s => .str (f s)
  | .arr items => .arr (mapStringsItems f items)
  | .obj fields => .obj (mapStringsFields f fields)

def mapStringsItems (f : String → String) : List Json → List Json
  | [] => []
  | item :: items => item.mapStrings f :: mapStringsItems f items

def mapStringsFields (f : String → String) : List (String × Json) → List (String × Json)
  | [] => []
  | (key, v) :: fields => (key, v.mapStrings f) :: mapStringsFields f fields

end

mutual

def Json.AllStrings (p : String → Prop) : Json → Prop
  | .null | .bool _ | .int _ | .float _ => True
  | .str s => p s
  | .arr items => AllStringsItems p items
  | .obj fields => AllStringsFields p fields

def AllStringsItems (p : String → Prop) : List Json → Prop
  | [] => True
  | item :: items => item.AllStrings p ∧ AllStringsItems p items

def AllStringsFields (p : String → Prop) : List (String × Json) → Prop
  | [] => True
  | (_, v) :: fields => v.AllStrings p ∧ AllStringsFields p fields

end

section Strings
variable {f g : String → String} {p : String → Prop}

/-! ## A map and its fixed points -/

mutual

theorem Json.mapStrings_eq_self_iff (v : Json) : v.mapStrings f = v ↔ v.AllStrings fun s => f s = s := by
  cases v with
  | str s => simp [Json.mapStrings, Json.AllStrings]
  | arr items => simp [Json.mapStrings, Json.AllStrings, mapStringsItems_eq_self_iff items]
  | obj fields => simp [Json.mapStrings, Json.AllStrings, mapStringsFields_eq_self_iff fields]
  | _ => simp [Json.mapStrings, Json.AllStrings]

theorem mapStringsItems_eq_self_iff (items : List Json) :
    mapStringsItems f items = items ↔ AllStringsItems (fun s => f s = s) items := by
  cases items with
  | nil => simp [mapStringsItems, AllStringsItems]
  | cons item items =>
    rw [mapStringsItems, AllStringsItems, List.cons.injEq, item.mapStrings_eq_self_iff,
      mapStringsItems_eq_self_iff items]

theorem mapStringsFields_eq_self_iff (fields : List (String × Json)) :
    mapStringsFields f fields = fields ↔ AllStringsFields (fun s => f s = s) fields := by
  cases fields with
  | nil => simp [mapStringsFields, AllStringsFields]
  | cons field fields =>
    obtain ⟨key, v⟩ := field
    rw [mapStringsFields, AllStringsFields, List.cons.injEq, Prod.mk.injEq, v.mapStrings_eq_self_iff,
      mapStringsFields_eq_self_iff fields, and_iff_right rfl]

end

mutual

theorem Json.allStrings_mapStrings (h : ∀ s, p (f s)) (v : Json) : (v.mapStrings f).AllStrings p := by
  cases v with
  | str s =>
    rw [Json.mapStrings, Json.AllStrings]
    exact h s
  | arr items =>
    rw [Json.mapStrings, Json.AllStrings]
    exact allStringsItems_mapStringsItems h items
  | obj fields =>
    rw [Json.mapStrings, Json.AllStrings]
    exact allStringsFields_mapStringsFields h fields
  | _ => simp [Json.mapStrings, Json.AllStrings]

theorem allStringsItems_mapStringsItems (h : ∀ s, p (f s)) (items : List Json) :
    AllStringsItems p (mapStringsItems f items) := by
  cases items with
  | nil => simp [mapStringsItems, AllStringsItems]
  | cons item items =>
    rw [mapStringsItems, AllStringsItems]
    exact ⟨item.allStrings_mapStrings h, allStringsItems_mapStringsItems h items⟩

theorem allStringsFields_mapStringsFields (h : ∀ s, p (f s)) (fields : List (String × Json)) :
    AllStringsFields p (mapStringsFields f fields) := by
  cases fields with
  | nil => simp [mapStringsFields, AllStringsFields]
  | cons field fields =>
    obtain ⟨key, v⟩ := field
    rw [mapStringsFields, AllStringsFields]
    exact ⟨v.allStrings_mapStrings h, allStringsFields_mapStringsFields h fields⟩

end

end Strings
end KernelRuntime
