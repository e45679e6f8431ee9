import KernelRuntime.Foundations.OrderedDict
import Mathlib.Data.List.Perm.Subperm
import Mathlib.Order.MinMax

/-! # Sorted sets

The sorted sets of Redis: every member has one score, adding a member again overwrites its score, and members are
taken away by their scores. -/

namespace KernelRuntime
set_option autoImplicit false

structure SortedSet (μ σ : Type*) where
  scores : OrderedDict μ σ

namespace SortedSet
variable {μ σ : Type*}

def empty : SortedSet μ σ := ⟨.empty⟩

def zcard (z : SortedSet μ σ) : ℕ := z.scores.entries.length

theorem eq_empty_of_zcard {z : SortedSet μ σ} (h : z.zcard = 0) : z = .empty := by
  obtain ⟨⟨entries, hnodup⟩⟩ := z
  obtain rfl : entries = [] := List.length_eq_zero_iff.mp h
  rfl

variable [DecidableEq μ]

def score? (z : SortedSet μ σ) (m : μ) : Option σ := z.scores.get? m

def zadd (z : SortedSet μ σ) (m : μ) (s : σ) : SortedSet μ σ := ⟨z.scores.set m s⟩

section Order
variable [LinearOrder σ]

def zremrangebyscore (z : SortedSet μ σ) (lo hi : σ) : SortedSet μ σ :=
  ⟨z.scores.filter fun s => !(decide (lo ≤ s) && decide (s ≤ hi))⟩

/-- The score of `zrange 0 0`. -/
def lowest (z : SortedSet μ σ) : Option σ := z.scores.values.min?

end Order

@[simp] theorem score?_empty (m : μ) : (empty : SortedSet μ σ).score? m = none := rfl

theorem score?_zadd (z : SortedSet μ σ) (m k : μ) (s : σ) :
    (z.zadd m s).score? k = if k = m then some s else z.score? k := OrderedDict.get?_set _ _ _ _

/-! ## Members, counted -/

section Members
variable {z : SortedSet μ σ} {l : List μ}

omit [DecidableEq μ] in
theorem zcard_eq_length_keys (z : SortedSet μ σ) : z.zcard = z.scores.keys.length := (List.length_map _).symm

/-- Members that are known to be different are at most as many as the set has. -/
theorem length_le_zcard (hnodup : l.Nodup) (hmem : ∀ m ∈ l, (z.score? m).isSome) : l.length ≤ z.zcard := by
  rw [zcard_eq_length_keys]
  have hsub : l ⊆ z.scores.keys := fun m hm => (OrderedDict.mem_keys_iff _ _).mpr (Option.isSome_iff_exists.mp (hmem m hm))
  exact (hnodup.subperm hsub).length_le

/-- A list that names all members has their number of places exactly when it names none twice. -/
theorem zcard_eq_length_iff (hmem : ∀ m, m ∈ l ↔ (z.score? m).isSome) : z.zcard = l.length ↔ l.Nodup := by
  rw [zcard_eq_length_keys]
  have hkeys : ∀ m, m ∈ z.scores.keys ↔ m ∈ l :=
    fun m => by rw [OrderedDict.mem_keys_iff, hmem, Option.isSome_iff_exists]; rfl
  have hsub : z.scores.keys.Subperm l := List.Nodup.subperm z.scores.nodup fun m hm => (hkeys m).mp hm
  constructor
  · intro hlength
    exact (hsub.perm_of_length_le hlength.ge).nodup_iff.mp z.scores.nodup
  · intro hnodup
    exact Nat.le_antisymm hsub.length_le (hnodup.subperm fun m hm => (hkeys m).mpr hm).length_le

end Members

/-! ## Scores -/

variable [LinearOrder σ]

theorem score?_zremrangebyscore {z : SortedSet μ σ} {lo hi s : σ} {m : μ} :
    (z.zremrangebyscore lo hi).score? m = some s ↔ z.score? m = some s ∧ ¬ (lo ≤ s ∧ s ≤ hi) := by
  unfold score? zremrangebyscore
  rw [OrderedDict.get?_filter, Option.filter_eq_some_iff, not_and_or]
  simp

theorem lowest_eq_some_iff {z : SortedSet μ σ} {s : σ} :
    z.lowest = some s ↔ (∃ m, z.score? m = some s) ∧ ∀ m s', z.score? m = some s' → s ≤ s' := by
  have hmin : Std.LawfulOrderMin σ := .of_le_min_iff (fun _ _ _ => le_min_iff) min_choice
  unfold lowest score?
  rw [List.min?_eq_some_iff]
  simp only [OrderedDict.mem_values_iff]
  constructor
  · rintro ⟨hmem, hle⟩
    exact ⟨hmem, fun m s' hs' => hle s' ⟨m, hs'⟩⟩
  · rintro ⟨hmem, hle⟩
    refine ⟨hmem, fun s' hs' => ?_⟩
    obtain ⟨m, hs'⟩ := hs'
    exact hle m s' hs'

end SortedSet
end KernelRuntime
