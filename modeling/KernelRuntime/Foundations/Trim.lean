import Mathlib.Data.List.Infix
import Mathlib.Data.List.DropRight

/-! # Trimming a list at both ends -/

namespace KernelRuntime
set_option autoImplicit false

variable {α : Type*} (p : α → Bool)

/-- The list without the items at its ends that satisfy `p`. -/
def trimEnds (l : List α) : List α := (l.dropWhile p).rdropWhile p

variable {p}

theorem rdropWhile_append_of_all {l m : List α} (hm : ∀ x ∈ m, p x = true) :
    (l ++ m).rdropWhile p = l.rdropWhile p := by
  unfold List.rdropWhile
  rw [List.reverse_append, List.dropWhile_append_of_pos fun x hx => hm x (List.mem_reverse.mp hx)]

theorem rdropWhile_append_of_last {l : List α} {x : α} (hx : p x = false) (m : List α) :
    (l ++ x :: m).rdropWhile p = l ++ x :: m.rdropWhile p := by
  induction m using List.reverseRecOn with
  | nil =>
    rw [List.rdropWhile_concat_neg _ _ _ (by simp [hx])]
    simp
  | append_singleton m y ih =>
    rw [← List.cons_append, ← List.append_assoc]
    by_cases hy : p y = true
    · rw [List.rdropWhile_concat_pos _ _ _ hy, List.rdropWhile_concat_pos _ _ _ hy, ih]
    · rw [List.rdropWhile_concat_neg _ _ _ hy, List.rdropWhile_concat_neg _ _ _ hy]
      simp

/-- What is trimmed off at the end may be anything that satisfies `p`. -/
theorem trimEnds_append_of_all {l m : List α} (hm : ∀ x ∈ m, p x = true) : trimEnds p (l ++ m) = trimEnds p l := by
  unfold trimEnds
  by_cases hl : ∀ x ∈ l, p x = true
  · have hboth : ∀ x ∈ l ++ m, p x = true := fun x hx => (List.mem_append.mp hx).elim (hl x) (hm x)
    rw [List.dropWhile_eq_nil_iff.mpr hboth, List.dropWhile_eq_nil_iff.mpr hl]
  · have hne : l.dropWhile p ≠ [] := fun h => hl (List.dropWhile_eq_nil_iff.mp h)
    rw [List.dropWhile_append, if_neg (by simpa using hne), rdropWhile_append_of_all hm]

theorem trimEnds_eq_self {l : List α} (h : ∀ x ∈ l, p x = false) : trimEnds p l = l := by
  unfold trimEnds
  have hfront : l.dropWhile p = l := by
    cases l with
    | nil => rfl
    | cons x l => exact List.dropWhile_cons_of_neg (by simp [h x List.mem_cons_self])
  rw [hfront, List.rdropWhile_eq_self_iff]
  intro hl
  simp [h _ (List.getLast_mem hl)]

/-- Nothing is trimmed off exactly if both ends stay. -/
theorem trimEnds_eq_self_iff {l : List α} :
    trimEnds p l = l ↔ (∀ x ∈ l.head?, p x = false) ∧ ∀ x ∈ l.getLast?, p x = false := by
  constructor
  · intro h
    have hshort : (l.dropWhile p).rdropWhile p <+: l.dropWhile p := List.rdropWhile_prefix p _
    have hlength : l.length ≤ (l.dropWhile p).length := by
      have hle := hshort.length_le
      unfold trimEnds at h
      rwa [h] at hle
    have hfront : l.dropWhile p = l := (List.dropWhile_suffix p).eq_of_length_le hlength
    unfold trimEnds at h
    rw [hfront, List.rdropWhile_eq_self_iff] at h
    refine ⟨fun x hx => ?_, fun x hx => ?_⟩
    · cases l with
      | nil => cases hx
      | cons y l =>
        obtain rfl := Option.some.inj hx
        by_contra hy
        rw [List.dropWhile_cons_of_pos (by simpa using hy)] at hfront
        have hle := (List.dropWhile_suffix (l := l) p).length_le
        rw [hfront, List.length_cons] at hle
        omega
    · have hne : l ≠ [] := by
        rintro rfl
        cases hx
      rw [List.getLast?_eq_some_getLast hne] at hx
      obtain rfl := Option.some.inj hx
      simpa using h hne
  · rintro ⟨hhead, hlast⟩
    have hfront : l.dropWhile p = l := by
      cases l with
      | nil => rfl
      | cons x l => exact List.dropWhile_cons_of_neg (by simp [hhead x rfl])
    unfold trimEnds
    rw [hfront, List.rdropWhile_eq_self_iff]
    intro hne
    simp [hlast _ (List.getLast?_eq_some_getLast hne)]

/-- Around an item that stays, each side is trimmed by itself. -/
theorem trimEnds_append_cons {l m : List α} {x : α} (hx : p x = false) :
    trimEnds p (l ++ x :: m) = l.dropWhile p ++ x :: m.rdropWhile p := by
  unfold trimEnds
  have hfront : (l ++ x :: m).dropWhile p = l.dropWhile p ++ x :: m := by
    rw [List.dropWhile_append]
    split
    next hnil => rw [List.isEmpty_iff.mp hnil, List.dropWhile_cons_of_neg (by simp [hx]), List.nil_append]
    next => rfl
  rw [hfront, rdropWhile_append_of_last hx]

theorem trimEnds_prefix_dropWhile (l : List α) : trimEnds p l <+: l.dropWhile p := List.rdropWhile_prefix p _

end KernelRuntime
