import Mathlib.Data.List.Basic
import Mathlib.Tactic.Common

/-! # Writers of a whole table

A writer replaces a whole table to change some of its keys. `LastWriterWins` says that the table holds,
at every key, what the last writer concerned with the key wrote there. -/

namespace KernelRuntime
set_option autoImplicit false

section LastWriter
variable {κ α : Type*}

/-- A write: the keys that it is about, and the table that it leaves. -/
structure TableWrite (κ α : Type*) where
  concerns : κ → Bool
  table : κ → α

/-- What the last write that is about the key put there. -/
def lastValue (log : List (TableWrite κ α)) (k : κ) : Option α :=
  log.foldl (fun last w => if w.concerns k then some (w.table k) else last) none

def LastWriterWins (log : List (TableWrite κ α)) (table : κ → α) : Prop :=
  ∀ k v, lastValue log k = some v → table k = v

theorem lastValue_concat (log : List (TableWrite κ α)) (w : TableWrite κ α) (k : κ) :
    lastValue (log ++ [w]) k = if w.concerns k then some (w.table k) else lastValue log k := by
  unfold lastValue
  rw [List.foldl_append, List.foldl_cons, List.foldl_nil]

theorem LastWriterWins.nil (table : κ → α) : LastWriterWins [] table := by
  intro k v h
  cases h

/-- A write keeps the rule exactly when it puts back, at the other keys, what their last writers wrote. -/
theorem lastWriterWins_concat_iff (log : List (TableWrite κ α)) (w : TableWrite κ α) :
    LastWriterWins (log ++ [w]) w.table ↔
      ∀ k v, w.concerns k = false → lastValue log k = some v → w.table k = v := by
  constructor
  · intro h k v hk hv
    refine h k v ?_
    rw [lastValue_concat, if_neg (by simp [hk]), hv]
  · intro h k v hv
    rw [lastValue_concat] at hv
    split_ifs at hv with hk
    · exact Option.some.inj hv
    · exact h k v (Bool.not_eq_true _ ▸ hk) hv

/-- A write that leaves the other keys as they are. -/
theorem LastWriterWins.concat {log : List (TableWrite κ α)} {table : κ → α} (h : LastWriterWins log table)
    {w : TableWrite κ α} (hrest : ∀ k, w.concerns k = false → w.table k = table k) :
    LastWriterWins (log ++ [w]) w.table :=
  (lastWriterWins_concat_iff log w).mpr fun k v hk hv => (hrest k hk).trans (h k v hv)

/-- A write that changes another key that somebody wrote. -/
theorem LastWriterWins.not_concat {log : List (TableWrite κ α)} {table : κ → α} (h : LastWriterWins log table)
    {w : TableWrite κ α} {k : κ} (hk : w.concerns k = false) (hwritten : (lastValue log k).isSome)
    (hchanged : w.table k ≠ table k) : ¬ LastWriterWins (log ++ [w]) w.table := by
  obtain ⟨v, hv⟩ := Option.isSome_iff_exists.mp hwritten
  intro hwins
  exact hchanged (((lastWriterWins_concat_iff log w).mp hwins k v hk hv).trans (h k v hv).symm)

end LastWriter
end KernelRuntime
