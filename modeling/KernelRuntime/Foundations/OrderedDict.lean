import Mathlib.Data.List.Nodup
import Mathlib.Data.List.Basic
import Mathlib.Tactic.Common

/-! # Insertion-ordered dictionaries

The dictionaries of Python: writing an existing key keeps its place, a new key goes last, and
iteration follows the places. `assocSet` and `assocErase` act on plain lists of pairs;
`OrderedDict` adds the proof that no key occurs twice. -/

namespace KernelRuntime
set_option autoImplicit false

section Assoc
variable {κ α : Type*} [DecidableEq κ]

/-- `entries[k] = v`. -/
def assocSet (k : κ) (v : α) : List (κ × α) → List (κ × α)
  | [] => [(k, v)]
  | e :: rest => if e.1 = k then (k, v) :: rest else e :: assocSet k v rest

/-- `entries.pop(k, None)`. -/
def assocErase (k : κ) (entries : List (κ × α)) : List (κ × α) :=
  entries.filter (fun e => decide (e.1 ≠ k))

theorem lookup_entry (k : κ) (e : κ × α) (rest : List (κ × α)) : (e :: rest).lookup k =
    match k == e.1 with
    | true => some e.2
    | false => rest.lookup k := rfl

theorem lookup_assocSet (k j : κ) (v : α) (entries : List (κ × α)) :
    (assocSet k v entries).lookup j = if j = k then some v else entries.lookup j := by
  induction entries with
  | nil =>
    by_cases hj : j = k
    · simp [assocSet, hj]
    · simp [assocSet, lookup_entry, hj, beq_eq_false_iff_ne.mpr hj]
  | cons e rest ih =>
    by_cases he : e.1 = k
    · by_cases hj : j = k
      · simp [assocSet, he, hj]
      · simp [assocSet, he, hj, lookup_entry, beq_eq_false_iff_ne.mpr hj]
    · by_cases hj : j = e.1
      · have hjk : j ≠ k := fun h => he (hj ▸ h)
        subst hj
        simp [assocSet, he, lookup_entry]
      · simp [assocSet, he, lookup_entry, beq_eq_false_iff_ne.mpr hj, ih]

theorem lookup_assocErase (k j : κ) (entries : List (κ × α)) :
    (assocErase k entries).lookup j = if j = k then none else entries.lookup j := by
  induction entries with
  | nil => simp [assocErase]
  | cons e rest ih =>
    by_cases he : e.1 = k
    · have hskip : assocErase k (e :: rest) = assocErase k rest :=
        List.filter_cons_of_neg (by simpa using he)
      rw [hskip, ih]
      by_cases hj : j = k
      · simp [hj]
      · have hje : j ≠ e.1 := fun h => hj (h.trans he)
        simp [hj, lookup_entry, beq_eq_false_iff_ne.mpr hje]
    · have hkeep : assocErase k (e :: rest) = e :: assocErase k rest :=
        List.filter_cons_of_pos (by simpa using he)
      rw [hkeep]
      by_cases hj : j = e.1
      · subst hj
        simp [lookup_entry, he]
      · simp only [lookup_entry, beq_eq_false_iff_ne.mpr hj, ih]

theorem mem_assocSet_self (k : κ) (v : α) (entries : List (κ × α)) : (k, v) ∈ assocSet k v entries := by
  induction entries with
  | nil => exact List.mem_singleton_self _
  | cons e rest ih =>
    unfold assocSet
    split_ifs
    · exact List.mem_cons_self
    · exact List.mem_cons_of_mem _ ih

theorem mem_assocSet_of_ne {k : κ} {v : α} {entries : List (κ × α)} {e : κ × α} (h : e ∈ entries)
    (hne : e.1 ≠ k) : e ∈ assocSet k v entries := by
  induction entries with
  | nil => cases h
  | cons f rest ih =>
    unfold assocSet
    rcases List.mem_cons.mp h with rfl | hrest
    · rw [if_neg hne]
      exact List.mem_cons_self
    · split_ifs
      · exact List.mem_cons_of_mem _ hrest
      · exact List.mem_cons_of_mem _ (ih hrest)

theorem mem_assocErase {k : κ} {entries : List (κ × α)} {e : κ × α} :
    e ∈ assocErase k entries ↔ e ∈ entries ∧ e.1 ≠ k := by
  unfold assocErase
  rw [List.mem_filter, decide_eq_true_eq]

theorem keys_assocSet (k : κ) (v : α) (entries : List (κ × α)) :
    (assocSet k v entries).map Prod.fst =
      if k ∈ entries.map Prod.fst then entries.map Prod.fst else entries.map Prod.fst ++ [k] := by
  induction entries with
  | nil => simp [assocSet]
  | cons e rest ih =>
    by_cases he : e.1 = k
    · simp [assocSet, he]
    · have hk : k ≠ e.1 := fun h => he h.symm
      simp only [assocSet, he, if_false, List.map_cons, ih, List.mem_cons, hk, false_or]
      split_ifs <;> simp

theorem nodup_assocSet (k : κ) (v : α) {entries : List (κ × α)}
    (h : (entries.map Prod.fst).Nodup) : ((assocSet k v entries).map Prod.fst).Nodup := by
  rw [keys_assocSet]
  split_ifs with hk
  · exact h
  · rw [List.nodup_append]
    refine ⟨h, List.nodup_singleton k, ?_⟩
    intro a ha b hb
    rw [List.mem_singleton.mp hb]
    exact fun hab => hk (hab ▸ ha)

theorem nodup_assocErase (k : κ) {entries : List (κ × α)}
    (h : (entries.map Prod.fst).Nodup) : ((assocErase k entries).map Prod.fst).Nodup :=
  h.sublist (List.filter_sublist.map Prod.fst)

theorem lookup_eq_some_iff {entries : List (κ × α)} (h : (entries.map Prod.fst).Nodup)
    (k : κ) (v : α) : entries.lookup k = some v ↔ (k, v) ∈ entries := by
  induction entries with
  | nil => simp
  | cons e rest ih =>
    obtain ⟨hnot, hrest⟩ := List.nodup_cons.mp h
    have ih' := ih hrest
    by_cases hk : k = e.1
    · subst hk
      have hmem : (e.1, v) ∉ rest := fun hm => hnot (List.mem_map.mpr ⟨_, hm, rfl⟩)
      simp only [lookup_entry, beq_self_eq_true, List.mem_cons, hmem, or_false, Option.some.injEq]
      constructor
      · rintro rfl; rfl
      · intro he; exact (congrArg Prod.snd he).symm
    · have hne : (k, v) ≠ e := fun he => hk (congrArg Prod.fst he)
      simp only [lookup_entry, beq_eq_false_iff_ne.mpr hk, List.mem_cons, hne, false_or, ih']

theorem assocSet_eq_self {k : κ} {v : α} {entries : List (κ × α)} (h : entries.lookup k = some v) :
    assocSet k v entries = entries := by
  induction entries with
  | nil => cases h
  | cons e rest ih =>
    unfold assocSet
    by_cases he : e.1 = k
    · have hv : e.2 = v := by simpa [lookup_entry, he] using h
      rw [if_pos he, ← he, ← hv]
    · have hrest : rest.lookup k = some v := by
        simpa [lookup_entry, beq_eq_false_iff_ne.mpr fun heq : k = e.1 => he heq.symm] using h
      rw [if_neg he, ih hrest]

/-- `entries.update(new)`. -/
def writeAll (new entries : List (κ × α)) : List (κ × α) := new.foldl (fun d e => assocSet e.1 e.2 d) entries

theorem lookup_writeAll_of_not_mem {new : List (κ × α)} {k : κ} (h : k ∉ new.map Prod.fst)
    (entries : List (κ × α)) : (writeAll new entries).lookup k = entries.lookup k := by
  induction new generalizing entries with
  | nil => rfl
  | cons e rest ih =>
    rw [List.map_cons, List.mem_cons, not_or] at h
    show (writeAll rest (assocSet e.1 e.2 entries)).lookup k = _
    rw [ih h.2, lookup_assocSet, if_neg h.1]

theorem lookup_writeAll_of_mem {new : List (κ × α)} (hnodup : (new.map Prod.fst).Nodup) {e : κ × α} (he : e ∈ new)
    (entries : List (κ × α)) : (writeAll new entries).lookup e.1 = some e.2 := by
  induction new generalizing entries with
  | nil => cases he
  | cons f rest ih =>
    obtain ⟨hnot, hrest⟩ := List.nodup_cons.mp hnodup
    show (writeAll rest (assocSet f.1 f.2 entries)).lookup e.1 = _
    rcases List.mem_cons.mp he with rfl | he
    · rw [lookup_writeAll_of_not_mem hnot, lookup_assocSet, if_pos rfl]
    · exact ih hrest he _

theorem assocSet_assocSet (k : κ) (v w : α) (entries : List (κ × α)) :
    assocSet k w (assocSet k v entries) = assocSet k w entries := by
  induction entries with
  | nil => simp [assocSet]
  | cons e rest ih =>
    by_cases he : e.1 = k
    · simp [assocSet, he]
    · simp [assocSet, he, ih]

theorem assocErase_assocSet (k : κ) (v : α) (entries : List (κ × α)) :
    assocErase k (assocSet k v entries) = assocErase k entries := by
  induction entries with
  | nil => simp [assocErase, assocSet]
  | cons e rest ih =>
    by_cases he : e.1 = k
    · simp [assocErase, assocSet, he]
    · unfold assocErase at ih ⊢
      rw [assocSet, if_neg he, List.filter_cons, List.filter_cons, ih]

theorem assocErase_of_not_mem {k : κ} {entries : List (κ × α)} (h : k ∉ entries.map Prod.fst) :
    assocErase k entries = entries :=
  List.filter_eq_self.mpr fun _ he => decide_eq_true fun heq => h (heq ▸ List.mem_map_of_mem he)

theorem assocSet_of_not_mem {k : κ} (v : α) {entries : List (κ × α)} (h : k ∉ entries.map Prod.fst) :
    assocSet k v entries = entries ++ [(k, v)] := by
  induction entries with
  | nil => rfl
  | cons e rest ih =>
    rw [List.map_cons, List.mem_cons, not_or] at h
    unfold assocSet
    rw [if_neg (Ne.symm h.1), ih h.2, List.cons_append]

/-- An update of new keys goes to the end. -/
theorem writeAll_of_nodup {new entries : List (κ × α)} (h : ((entries ++ new).map Prod.fst).Nodup) :
    writeAll new entries = entries ++ new := by
  induction new generalizing entries with
  | nil => exact (List.append_nil entries).symm
  | cons e rest ih =>
    have hnot : e.1 ∉ entries.map Prod.fst := by
      rw [List.map_append, List.map_cons] at h
      exact fun hmem => (List.disjoint_of_nodup_append h) hmem List.mem_cons_self
    show writeAll rest (assocSet e.1 e.2 entries) = _
    rw [assocSet_of_not_mem e.2 hnot, ih (by rwa [List.append_assoc]), List.append_assoc]
    rfl

/-- An update that changes nothing. -/
theorem writeAll_eq_self_iff {new : List (κ × α)} (hnodup : (new.map Prod.fst).Nodup) (entries : List (κ × α)) :
    writeAll new entries = entries ↔ ∀ e ∈ new, entries.lookup e.1 = some e.2 := by
  constructor
  · intro h e he
    have hlookup := lookup_writeAll_of_mem hnodup he entries
    rwa [h] at hlookup
  · intro h
    induction new with
    | nil => rfl
    | cons e rest ih =>
      show writeAll rest (assocSet e.1 e.2 entries) = entries
      rw [assocSet_eq_self (h e List.mem_cons_self)]
      exact ih (List.nodup_cons.mp hnodup).2 fun e' he' => h e' (List.mem_cons_of_mem _ he')

end Assoc

/-- A row is found by its key where no other row has it. -/
theorem find?_of_nodup_map {ρ κ : Type*} (key : ρ → κ) {rows : List ρ} {p : ρ → Bool} {r : ρ}
    (hnodup : (rows.map key).Nodup) (hr : r ∈ rows) (hp : p r = true)
    (hkey : ∀ r', p r' = true → key r' = key r) : rows.find? p = some r := by
  have hfound : (rows.find? p).isSome = true := List.find?_isSome.mpr ⟨r, hr, hp⟩
  obtain ⟨r', hr'⟩ := Option.isSome_iff_exists.mp hfound
  have hsame : key r' = key r := hkey r' (List.find?_some hr')
  rw [hr', List.inj_on_of_nodup_map hnodup (List.mem_of_find?_eq_some hr') hr hsame]

/-- A dictionary: its entries in insertion order, no key twice. -/
structure OrderedDict (κ α : Type*) where
  entries : List (κ × α)
  nodup : (entries.map Prod.fst).Nodup

namespace OrderedDict
variable {κ α : Type*} [DecidableEq κ]

def empty : OrderedDict κ α := ⟨[], List.nodup_nil⟩

def get? (d : OrderedDict κ α) (k : κ) : Option α := d.entries.lookup k

def contains (d : OrderedDict κ α) (k : κ) : Bool := (d.get? k).isSome

def set (d : OrderedDict κ α) (k : κ) (v : α) : OrderedDict κ α :=
  ⟨assocSet k v d.entries, nodup_assocSet k v d.nodup⟩

def erase (d : OrderedDict κ α) (k : κ) : OrderedDict κ α :=
  ⟨assocErase k d.entries, nodup_assocErase k d.nodup⟩

def keys (d : OrderedDict κ α) : List κ := d.entries.map Prod.fst

def values (d : OrderedDict κ α) : List α := d.entries.map Prod.snd

@[simp] theorem get?_empty (k : κ) : (empty : OrderedDict κ α).get? k = none := rfl

theorem get?_set (d : OrderedDict κ α) (k j : κ) (v : α) :
    (d.set k v).get? j = if j = k then some v else d.get? j := lookup_assocSet k j v d.entries

@[simp] theorem get?_set_self (d : OrderedDict κ α) (k : κ) (v : α) :
    (d.set k v).get? k = some v := by rw [get?_set, if_pos rfl]

theorem get?_set_ne (d : OrderedDict κ α) {k j : κ} (v : α) (h : j ≠ k) :
    (d.set k v).get? j = d.get? j := by rw [get?_set, if_neg h]

theorem get?_erase (d : OrderedDict κ α) (k j : κ) :
    (d.erase k).get? j = if j = k then none else d.get? j := lookup_assocErase k j d.entries

@[simp] theorem get?_erase_self (d : OrderedDict κ α) (k : κ) : (d.erase k).get? k = none := by
  rw [get?_erase, if_pos rfl]

theorem get?_of_get?_erase {d : OrderedDict κ α} {k j : κ} {v : α}
    (h : (d.erase k).get? j = some v) : d.get? j = some v := by
  rw [get?_erase] at h
  split_ifs at h
  exact h

omit [DecidableEq κ] in
theorem eq_of_entries {d d' : OrderedDict κ α} (h : d.entries = d'.entries) : d = d' := by
  cases d
  cases d'
  cases h
  rfl

theorem set_set (d : OrderedDict κ α) (k : κ) (v w : α) : (d.set k v).set k w = d.set k w :=
  eq_of_entries (assocSet_assocSet k v w d.entries)

theorem erase_set (d : OrderedDict κ α) (k : κ) (v : α) : (d.set k v).erase k = d.erase k :=
  eq_of_entries (assocErase_assocSet k v d.entries)

theorem not_mem_keys_iff (d : OrderedDict κ α) (k : κ) : k ∉ d.entries.map Prod.fst ↔ d.contains k = false := by
  unfold contains get?
  rw [Option.isSome_eq_false_iff, Option.isNone_iff_eq_none, List.lookup_eq_none_iff, List.mem_map]
  constructor
  · exact fun h e he => bne_iff_ne.mpr fun heq => h ⟨e, he, heq.symm⟩
  · rintro h ⟨e, he, heq⟩
    exact bne_iff_ne.mp (h e he) heq.symm

theorem erase_of_not_contains {d : OrderedDict κ α} {k : κ} (h : d.contains k = false) : d.erase k = d :=
  eq_of_entries (assocErase_of_not_mem ((d.not_mem_keys_iff k).mpr h))

theorem length_set_of_not_contains {d : OrderedDict κ α} {k : κ} (v : α) (h : d.contains k = false) :
    (d.set k v).entries.length = d.entries.length + 1 := by
  show (assocSet k v d.entries).length = _
  rw [assocSet_of_not_mem v ((d.not_mem_keys_iff k).mpr h), List.length_append]
  rfl

theorem mem_values_iff (d : OrderedDict κ α) (v : α) : v ∈ d.values ↔ ∃ k, d.get? k = some v := by
  simp only [values, get?, List.mem_map, lookup_eq_some_iff d.nodup]
  constructor
  · rintro ⟨e, he, rfl⟩; exact ⟨e.1, he⟩
  · rintro ⟨k, hk⟩; exact ⟨(k, v), hk, rfl⟩

theorem mem_keys_iff (d : OrderedDict κ α) (k : κ) : k ∈ d.keys ↔ ∃ v, d.get? k = some v := by
  simp only [keys, get?, List.mem_map, lookup_eq_some_iff d.nodup]
  constructor
  · rintro ⟨e, he, rfl⟩; exact ⟨e.2, he⟩
  · rintro ⟨v, hv⟩; exact ⟨(k, v), hv, rfl⟩

/-- Two values are at different keys. -/
theorem pairwise_values (d : OrderedDict κ α) {R : α → α → Prop}
    (h : ∀ k v j w, d.get? k = some v → d.get? j = some w → k ≠ j → R v w) : d.values.Pairwise R := by
  have hkeys : d.entries.Pairwise fun e f => e.1 ≠ f.1 := List.pairwise_map.mp d.nodup
  refine List.pairwise_map.mpr (hkeys.imp_of_mem fun {e f} he hf hne => ?_)
  exact h e.1 e.2 f.1 f.2 ((lookup_eq_some_iff d.nodup _ _).mpr he) ((lookup_eq_some_iff d.nodup _ _).mpr hf) hne

/-! ## A change of all values -/

def map {β : Type*} (f : α → β) (d : OrderedDict κ α) : OrderedDict κ β where
  entries := d.entries.map fun e => (e.1, f e.2)
  nodup := by
    rw [List.map_map]
    exact d.nodup

omit [DecidableEq κ] in
theorem values_map {β : Type*} (f : α → β) (d : OrderedDict κ α) :
    (d.map f).values = d.values.map f := by
  unfold values map
  simp

theorem get?_map {β : Type*} (f : α → β) (d : OrderedDict κ α) (k : κ) : (d.map f).get? k = (d.get? k).map f := by
  obtain ⟨entries, hnodup⟩ := d
  show (entries.map fun e => (e.1, f e.2)).lookup k = (entries.lookup k).map f
  clear hnodup
  induction entries with
  | nil => rfl
  | cons e rest ih =>
    cases hk : k == e.1 with
    | true => simp [lookup_entry, hk]
    | false => simp [lookup_entry, hk, ih]

/-! ## Some of the entries -/

def filter (p : α → Bool) (d : OrderedDict κ α) : OrderedDict κ α :=
  ⟨d.entries.filter fun e => p e.2, d.nodup.sublist (List.filter_sublist.map Prod.fst)⟩

theorem get?_filter (p : α → Bool) (d : OrderedDict κ α) (k : κ) : (d.filter p).get? k = (d.get? k).filter p := by
  apply Option.ext
  intro v
  rw [Option.filter_eq_some_iff]
  unfold get?
  rw [lookup_eq_some_iff (d.filter p).nodup, lookup_eq_some_iff d.nodup]
  exact List.mem_filter

/-! ## A property of all values -/

/-- Every value satisfies `p`. -/
def All (p : α → Prop) (d : OrderedDict κ α) : Prop := ∀ k v, d.get? k = some v → p v

theorem All.empty (p : α → Prop) : (empty : OrderedDict κ α).All p := by
  intro k v h
  cases h

theorem All.set {p : α → Prop} {d : OrderedDict κ α} (h : d.All p) (k : κ) {v : α} (hv : p v) :
    (d.set k v).All p := by
  intro j w hw
  rw [get?_set] at hw
  split_ifs at hw with hj
  · exact Option.some.inj hw ▸ hv
  · exact h j w hw

theorem All.erase {p : α → Prop} {d : OrderedDict κ α} (h : d.All p) (k : κ) : (d.erase k).All p :=
  fun j v hv => h j v (get?_of_get?_erase hv)

theorem All.foldl_erase {ι : Type*} {p : α → Prop} (f : ι → κ) (is : List ι) {d : OrderedDict κ α}
    (h : d.All p) : (is.foldl (fun d i => d.erase (f i)) d).All p := by
  induction is generalizing d with
  | nil => exact h
  | cons i is ih => exact ih (h.erase (f i))

/-! ## Loops over keys, and what they keep -/

theorem get?_foldl_erase (ks : List κ) (d : OrderedDict κ α) (k : κ) :
    (ks.foldl erase d).get? k = if k ∈ ks then none else d.get? k := by
  induction ks generalizing d with
  | nil => simp
  | cons j js ih =>
    rw [List.foldl_cons, ih, get?_erase]
    by_cases hjs : k ∈ js
    · simp [hjs]
    · simp [hjs]

theorem get?_foldl_set {ι : Type*} (f : ι → κ) (v : α) (is : List ι) (d : OrderedDict κ α) (k : κ) :
    (is.foldl (fun d i => d.set (f i) v) d).get? k = if k ∈ is.map f then some v else d.get? k := by
  induction is generalizing d with
  | nil => simp
  | cons i is ih =>
    rw [List.foldl_cons, ih, get?_set, List.map_cons]
    by_cases his : k ∈ is.map f
    · simp [his]
    · by_cases hk : k = f i
      · simp [hk]
      · simp [his, hk]

/-- The entries of `d` whose values satisfy `p` are in `d'`. -/
def Keeps (p : α → Prop) (d d' : OrderedDict κ α) : Prop :=
  ∀ k v, p v → d.get? k = some v → d'.get? k = some v

theorem Keeps.refl (p : α → Prop) (d : OrderedDict κ α) : d.Keeps p d := fun _ _ _ h => h

theorem keeps_foldl_erase_iff {p : α → Prop} {ks : List κ} {d : OrderedDict κ α} :
    d.Keeps p (ks.foldl erase d) ↔ ∀ k ∈ ks, ∀ v, d.get? k = some v → ¬ p v := by
  constructor
  · intro h k hk v hv hp
    have hkept := h k v hp hv
    rw [get?_foldl_erase, if_pos hk] at hkept
    cases hkept
  · intro h k v hp hv
    rw [get?_foldl_erase, if_neg]
    · exact hv
    · exact fun hk => h k hk v hv hp

/-- Filling free keys with other values neither keeps nor loses an entry. -/
theorem keeps_fill_iff {p : α → Prop} {d d' d'' : OrderedDict κ α}
    (hkeep : ∀ k v, d'.get? k = some v → d''.get? k = some v)
    (hnew : ∀ k v, d''.get? k = some v → d'.get? k = some v ∨ ¬ p v) : d.Keeps p d'' ↔ d.Keeps p d' :=
  ⟨fun h k v hp hv => (hnew k v (h k v hp hv)).resolve_right (not_not_intro hp),
    fun h k v hp hv => hkeep k v (h k v hp hv)⟩

/-- Writing one value to some keys keeps the entries that it does not overwrite. -/
theorem keeps_foldl_set_iff {ι : Type*} {p : α → Prop} {f : ι → κ} {w : α} (hw : ¬ p w) {is : List ι}
    {d d' : OrderedDict κ α} :
    d.Keeps p (is.foldl (fun d i => d.set (f i) w) d') ↔
      d.Keeps p d' ∧ ∀ i ∈ is, ∀ v, d.get? (f i) = some v → ¬ p v := by
  constructor
  · intro h
    have hfree : ∀ k v, p v → d.get? k = some v → k ∉ is.map f := by
      intro k v hp hv hk
      have hkept := h k v hp hv
      rw [get?_foldl_set, if_pos hk] at hkept
      exact hw (Option.some.inj hkept ▸ hp)
    refine ⟨fun k v hp hv => ?_, fun i hi v hv hp => hfree (f i) v hp hv (List.mem_map_of_mem hi)⟩
    have hkept := h k v hp hv
    rwa [get?_foldl_set, if_neg (hfree k v hp hv)] at hkept
  · rintro ⟨h, hfree⟩ k v hp hv
    rw [get?_foldl_set, if_neg]
    · exact h k v hp hv
    · intro hk
      obtain ⟨i, hi, rfl⟩ := List.mem_map.mp hk
      exact hfree i hi v hv hp

end OrderedDict
end KernelRuntime
