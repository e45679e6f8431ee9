import KernelRuntime.Foundations.OrderedDict

/-! # Least-recently-used caches

Dictionaries of bounded size. Reading and writing a key use it; a new key that finds the dictionary full puts out
others. Which ones it puts out is left to the library; the laws say what a cache keeps. -/

namespace KernelRuntime
set_option autoImplicit false

/-- A library of caches. -/
structure LruLibrary (κ α : Type) [DecidableEq κ] where
  Cache : Type
  /-- A new cache of that size. -/
  new : ℕ → Cache
  items : Cache → List (κ × α)
  get? : Cache → κ → Option α
  /-- The key was read. -/
  touch : Cache → κ → Cache
  /-- `cache[k] = v`. -/
  set : Cache → κ → α → Cache
  /-- The value of the key was changed in place, which the cache does not see. -/
  modify : Cache → κ → α → Cache
  nodup_items : ∀ c, ((items c).map Prod.fst).Nodup
  mem_items_iff : ∀ c k v, (k, v) ∈ items c ↔ get? c k = some v
  get?_new : ∀ maxsize k, get? (new maxsize) k = none
  get?_touch : ∀ c k j, get? (touch c k) j = get? c j
  get?_modify : ∀ c k j v, get? (modify c k v) j = if j = k then (get? c k).map fun _ => v else get? c j
  /-- What is in the cache after a write is the written entry, or was there before. -/
  get?_of_set : ∀ {c k v j w}, get? (set c k v) j = some w → (j = k ∧ w = v) ∨ (j ≠ k ∧ get? c j = some w)

/-! ## A library that keeps the order of use -/

/-- The entries, and their keys with the least recently used one first. -/
structure LruCache (κ α : Type) where
  maxsize : ℕ
  data : OrderedDict κ α
  order : List κ

namespace LruCache
variable {κ α : Type} [DecidableEq κ]

/-- The key was used. -/
def touch (c : LruCache κ α) (k : κ) : LruCache κ α :=
  { c with order := c.order.filter (fun j => decide (j ≠ k)) ++ [k] }

/-- Keys are put out until one more entry fits. -/
def makeRoom (maxsize : ℕ) (data : OrderedDict κ α) : List κ → LruCache κ α
  | [] => ⟨maxsize, data, []⟩
  | k :: rest =>
    if maxsize < data.entries.length + 1 then makeRoom maxsize (data.erase k) rest
    else ⟨maxsize, data, k :: rest⟩

def set (c : LruCache κ α) (k : κ) (v : α) : LruCache κ α :=
  let roomy := if c.data.contains k then c else makeRoom c.maxsize c.data c.order
  touch { roomy with data := roomy.data.set k v } k

def modify (c : LruCache κ α) (k : κ) (v : α) : LruCache κ α :=
  if c.data.contains k then { c with data := c.data.set k v } else c

theorem get?_of_makeRoom {maxsize : ℕ} {data : OrderedDict κ α} {order : List κ} {j : κ} {v : α}
    (h : (makeRoom maxsize data order).data.get? j = some v) : data.get? j = some v := by
  induction order generalizing data with
  | nil => exact h
  | cons k rest ih =>
    unfold makeRoom at h
    split_ifs at h
    · exact OrderedDict.get?_of_get?_erase (ih h)
    · exact h

theorem get?_of_set {c : LruCache κ α} {k j : κ} {v w : α} (h : (c.set k v).data.get? j = some w) :
    (j = k ∧ w = v) ∨ (j ≠ k ∧ c.data.get? j = some w) := by
  unfold set touch at h
  simp only at h
  rw [OrderedDict.get?_set] at h
  split_ifs at h with hj hthere
  · exact Or.inl ⟨hj, (Option.some.inj h).symm⟩
  · exact Or.inr ⟨hj, h⟩
  · exact Or.inr ⟨hj, get?_of_makeRoom h⟩

theorem get?_modify (c : LruCache κ α) (k j : κ) (v : α) : (c.modify k v).data.get? j =
    if j = k then (c.data.get? k).map fun _ => v else c.data.get? j := by
  unfold modify
  by_cases hthere : c.data.contains k = true
  · rw [if_pos hthere]
    obtain ⟨old, hold⟩ := Option.isSome_iff_exists.mp hthere
    rw [hold]
    exact OrderedDict.get?_set _ _ _ _
  · rw [if_neg hthere]
    have hnone : c.data.get? k = none := Option.not_isSome_iff_eq_none.mp hthere
    split_ifs with hj
    · rw [hj, hnone]
      rfl
    · rfl

/-- These caches. -/
def library (κ α : Type) [DecidableEq κ] : LruLibrary κ α where
  Cache := LruCache κ α
  new maxsize := ⟨maxsize, OrderedDict.empty, []⟩
  items c := c.data.entries
  get? c k := c.data.get? k
  touch := touch
  set := set
  modify := modify
  nodup_items c := c.data.nodup
  mem_items_iff c k v := (lookup_eq_some_iff c.data.nodup k v).symm
  get?_new _ _ := rfl
  get?_touch _ _ _ := rfl
  get?_modify := get?_modify
  get?_of_set := get?_of_set

end LruCache
end KernelRuntime
