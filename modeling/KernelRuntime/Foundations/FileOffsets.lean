import Mathlib.Data.List.Basic
import Mathlib.Tactic.Common

/-! # Writing at an offset

A file that several handles write: each writes at its own offset, over what is there, and a gap is filled. -/

namespace KernelRuntime
set_option autoImplicit false

variable {α : Type*} (pad : α)

/-- The content after `new` was written at the offset `k`. -/
def writeAt (old : List α) (k : ℕ) (new : List α) : List α :=
  if new = [] then old
  else old.take k ++ List.replicate (k - old.length) pad ++ (new ++ old.drop (k + new.length))

variable {pad}

@[simp] theorem writeAt_nil (old : List α) (k : ℕ) : writeAt pad old k [] = old := if_pos rfl

theorem writeAt_of_ne {new : List α} (h : new ≠ []) (old : List α) (k : ℕ) : writeAt pad old k new =
    old.take k ++ List.replicate (k - old.length) pad ++ (new ++ old.drop (k + new.length)) := if_neg h

@[simp] theorem writeAt_empty (new : List α) : writeAt pad [] 0 new = new := by
  by_cases h : new = []
  · rw [h, writeAt_nil]
  · rw [writeAt_of_ne h]
    simp

theorem length_front (old : List α) (k : ℕ) (pad : α) :
    (old.take k ++ List.replicate (k - old.length) pad).length = k := by
  rw [List.length_append, List.length_take, List.length_replicate]
  omega

theorem length_writeAt {new : List α} (h : new ≠ []) (old : List α) (k : ℕ) :
    (writeAt pad old k new).length = max old.length (k + new.length) := by
  rw [writeAt_of_ne h, List.length_append, length_front, List.length_append, List.length_drop]
  omega

/-- A place that is no filling holds what was written there, or what was there before. -/
theorem getElem?_writeAt {new : List α} (h : new ≠ []) {old : List α} {k j : ℕ} (hj : k ≤ j ∨ j < old.length) :
    (writeAt pad old k new)[j]? = if k ≤ j ∧ j < k + new.length then new[j - k]? else old[j]? := by
  have hfront := length_front old k pad
  rw [writeAt_of_ne h]
  by_cases hbefore : j < k
  · have hold : j < (old.take k).length := by
      rw [List.length_take]
      omega
    rw [List.getElem?_append_left (by omega), List.getElem?_append_left hold, List.getElem?_take_of_lt hbefore,
      if_neg (by omega)]
  · rw [List.getElem?_append_right (by omega), hfront]
    by_cases hin : j < k + new.length
    · rw [List.getElem?_append_left (by omega), if_pos ⟨by omega, hin⟩]
    · rw [List.getElem?_append_right (by omega), List.getElem?_drop, if_neg (by omega)]
      congr 1
      omega

/-! ## A text that gets to the file -/

/-- The content is no longer than the text, and its first `n` places are the text's. -/
structure Agrees (text : List α) (n : ℕ) (content : List α) : Prop where
  length_le : content.length ≤ text.length
  place : ∀ j < n, content[j]? = text[j]?

/-- What is written at the offset stays inside the text, and among the text's first `n` places it is the text's own. -/
def Spares (text : List α) (n offset : ℕ) (new : List α) : Prop :=
  ∀ k < new.length, offset + k < text.length ∧ (offset + k < n → new[k]? = text[offset + k]?)

theorem agrees_nil (text : List α) : Agrees text 0 [] := ⟨Nat.zero_le _, nofun⟩

theorem Agrees.eq {text content : List α} (h : Agrees text text.length content) : content = text := by
  refine List.ext_getElem? fun j => ?_
  by_cases hj : j < text.length
  · exact h.place j hj
  · rw [List.getElem?_eq_none (Nat.le_of_not_lt hj), List.getElem?_eq_none (Nat.le_trans h.length_le (Nat.le_of_not_lt hj))]

section Agrees
variable {text content new : List α} {n offset : ℕ}

theorem Agrees.lt_length (h : Agrees text n content) (hn : n ≤ text.length) {j : ℕ} (hj : j < n) :
    j < content.length := by
  by_contra hlong
  have hplace := h.place j hj
  rw [List.getElem?_eq_none (Nat.le_of_not_lt hlong), List.getElem?_eq_getElem (Nat.lt_of_lt_of_le hj hn)] at hplace
  cases hplace

/-- Bytes that spare the text leave its places. -/
theorem Agrees.spared (h : Agrees text n content) (hn : n ≤ text.length) (hnew : Spares text n offset new) :
    Agrees text n (writeAt pad content offset new) := by
  by_cases hempty : new = []
  · rw [hempty, writeAt_nil]
    exact h
  have hpos : 0 < new.length := List.length_pos_iff.mpr hempty
  refine ⟨?_, fun j hj => ?_⟩
  · have hlast := (hnew (new.length - 1) (by omega)).1
    have hlength := h.length_le
    rw [length_writeAt hempty]
    omega
  · rw [getElem?_writeAt hempty (Or.inr (h.lt_length hn hj))]
    split_ifs with hin
    · have hplace := (hnew (j - offset) (by omega)).2 (by omega)
      rwa [Nat.add_sub_cancel' hin.1] at hplace
    · exact h.place j hj

/-- The text's next bytes make more of its places right. -/
theorem Agrees.extend (h : Agrees text n content) (hnew : new <+: text.drop n) :
    Agrees text (n + new.length) (writeAt pad content n new) := by
  obtain ⟨rest, hrest⟩ := hnew
  have hlong : new.length + rest.length = text.length - n := by
    rw [← List.length_append, hrest, List.length_drop]
  by_cases hempty : new = []
  · rw [hempty, writeAt_nil]
    exact h
  have hpos : 0 < new.length := List.length_pos_iff.mpr hempty
  refine ⟨?_, fun j hj => ?_⟩
  · have hlength := h.length_le
    rw [length_writeAt hempty]
    omega
  · by_cases hbefore : j < n
    · rw [getElem?_writeAt hempty (Or.inr (h.lt_length (by omega) hbefore)), if_neg (by omega)]
      exact h.place j hbefore
    · have hgiven : (new ++ rest)[j - n]? = new[j - n]? := List.getElem?_append_left (by omega)
      rw [getElem?_writeAt hempty (Or.inl (by omega)), if_pos ⟨by omega, hj⟩, ← hgiven, hrest, List.getElem?_drop,
        Nat.add_sub_cancel' (by omega)]

end Agrees

end KernelRuntime
