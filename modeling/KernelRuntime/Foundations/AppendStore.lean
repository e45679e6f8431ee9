import Mathlib.Data.List.Perm.Basic
import Mathlib.Data.List.Nodup
import Mathlib.Data.List.Sort
import Mathlib.Order.Defs.LinearOrder

/-! # Stores that number what they append

An `AppendStore` adds one row at the end for each call. `Dominates` says that the number of the row
of every call of a run is above the numbers of all rows already there (of those that `p` selects).
Then the rows of the run are strictly increasing, and sorting them by number gives back the order
in which they were appended. -/

namespace KernelRuntime
set_option autoImplicit false

/-- A store of rows `ρ` in states `σ`; each call `β` appends one row. -/
structure AppendStore (σ ρ β : Type*) where
  rows : σ → List ρ
  append : σ → β → ρ × σ
  rows_append : ∀ s c, rows (append s c).2 = rows s ++ [(append s c).1]

namespace AppendStore
variable {σ ρ β : Type*} (store : AppendStore σ ρ β)

/-- The rows a run of calls adds. -/
def appended (s : σ) : List β → List ρ
  | [] => []
  | c :: cs => (store.append s c).1 :: appended (store.append s c).2 cs

/-- The state after a run of calls. -/
def run (s : σ) : List β → σ
  | [] => s
  | c :: cs => run (store.append s c).2 cs

theorem rows_run (s : σ) (cs : List β) :
    store.rows (store.run s cs) = store.rows s ++ store.appended s cs := by
  induction cs generalizing s with
  | nil => simp [run, appended]
  | cons c cs ih =>
    rw [run, ih, store.rows_append, appended, List.append_assoc, List.singleton_append]

section Numbered
variable {α : Type*} [LinearOrder α] (num : ρ → α) (p : ρ → Prop)

/-- Every call of the run numbers its row above all selected rows stored before it. -/
def Dominates (s : σ) : List β → Prop
  | [] => True
  | c :: cs => (∀ r ∈ store.rows s, p r → num r < num (store.append s c).1) ∧
      Dominates (store.append s c).2 cs

variable {store num p}

theorem Dominates.lt_appended {s : σ} {cs : List β} (h : store.Dominates num p s cs) {r a : ρ}
    (hr : r ∈ store.rows s) (hp : p r) (ha : a ∈ store.appended s cs) : num r < num a := by
  induction cs generalizing s with
  | nil => simp [appended] at ha
  | cons c cs ih =>
    rcases List.mem_cons.mp ha with rfl | ha'
    · exact h.1 r hr hp
    · refine ih h.2 ?_ ha'
      rw [store.rows_append]
      exact List.mem_append_left _ hr

theorem Dominates.pairwise {s : σ} {cs : List β} (h : store.Dominates num p s cs)
    (hp : ∀ a ∈ store.appended s cs, p a) :
    (store.appended s cs).Pairwise fun a b => num a < num b := by
  induction cs generalizing s with
  | nil => exact List.Pairwise.nil
  | cons c cs ih =>
    refine List.Pairwise.cons (fun b hb => ?_) (ih h.2 fun a ha => hp a (List.mem_cons_of_mem _ ha))
    refine Dominates.lt_appended h.2 ?_ (hp _ List.mem_cons_self) hb
    rw [store.rows_append]
    exact List.mem_append_right _ (List.mem_singleton_self _)

end Numbered
end AppendStore

/-- Rows with strictly increasing numbers have one sorted order: their own. -/
theorem eq_of_perm_of_sorted {ρ α : Type*} [LinearOrder α] (num : ρ → α) {rows sorted : List ρ}
    (hrows : rows.Pairwise fun a b => num a < num b) (hperm : sorted.Perm rows)
    (hsorted : sorted.Pairwise fun a b => num a ≤ num b) : sorted = rows := by
  have hnodup : (rows.map num).Nodup := List.pairwise_map.mpr (hrows.imp fun h => ne_of_lt h)
  refine List.Perm.eq_of_pairwise ?_ hsorted (hrows.imp le_of_lt) hperm
  intro a b ha hb hab hba
  exact List.inj_on_of_nodup_map hnodup (hperm.subset ha) hb (le_antisymm hab hba)

end KernelRuntime
