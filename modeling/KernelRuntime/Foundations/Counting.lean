import KernelRuntime.Foundations.OrderedDict

/-! # Counting in lists

What replacing one element, or one value of a dictionary of lists, does to a count. The equations add
on both sides, so that a conservation law is a sum of them. -/

namespace KernelRuntime
set_option autoImplicit false

section Counting
variable {α κ : Type*} (p : α → Bool)

theorem countP_set_add {l : List α} {k : ℕ} {a : α} (h : l[k]? = some a) (b : α) :
    (l.set k b).countP p + (if p a then 1 else 0) = l.countP p + (if p b then 1 else 0) := by
  induction l generalizing k with
  | nil => cases h
  | cons x l ih =>
    cases k with
    | zero =>
      obtain rfl : x = a := by simpa using h
      rw [List.set_cons_zero, List.countP_cons, List.countP_cons]
      omega
    | succ k =>
      have hrest := ih (show l[k]? = some a by simpa using h)
      rw [List.set_cons_succ, List.countP_cons, List.countP_cons]
      omega

/-- The count over all lists of a dictionary. -/
def countAll (entries : List (κ × List α)) : ℕ := (entries.flatMap Prod.snd).countP p

theorem countAll_cons (e : κ × List α) (entries : List (κ × List α)) :
    countAll p (e :: entries) = e.2.countP p + countAll p entries := by
  unfold countAll
  rw [List.flatMap_cons, List.countP_append]

variable [DecidableEq κ]

theorem countAll_assocSet {entries : List (κ × List α)} {k : κ} {l : List α}
    (h : entries.lookup k = some l) (l' : List α) :
    countAll p (assocSet k l' entries) + l.countP p = countAll p entries + l'.countP p := by
  induction entries with
  | nil => cases h
  | cons e entries ih =>
    by_cases he : e.1 = k
    · obtain rfl : e.2 = l := by simpa [lookup_entry, he] using h
      rw [assocSet, if_pos he, countAll_cons, countAll_cons]
      show l'.countP p + countAll p entries + _ = _
      omega
    · have hne : (k == e.1) = false := beq_eq_false_iff_ne.mpr (Ne.symm he)
      rw [lookup_entry, hne] at h
      have hrest := ih h
      rw [assocSet, if_neg he, countAll_cons, countAll_cons]
      omega

theorem countAll_assocSet_new {entries : List (κ × List α)} {k : κ} (h : entries.lookup k = none)
    (l' : List α) : countAll p (assocSet k l' entries) = countAll p entries + l'.countP p := by
  induction entries with
  | nil => simp [assocSet, countAll]
  | cons e entries ih =>
    cases hk : k == e.1 with
    | true =>
      rw [lookup_entry, hk] at h
      cases h
    | false =>
      rw [lookup_entry, hk] at h
      have hne : e.1 ≠ k := fun he => by simp [he] at hk
      rw [assocSet, if_neg hne, countAll_cons, countAll_cons, ih h]
      omega

/-! ## One entry more or less -/

theorem countP_values_set_new {d : OrderedDict κ α} {k : κ} (h : d.get? k = none) (v : α) :
    (d.set k v).values.countP p = d.values.countP p + if p v then 1 else 0 := by
  have happend : ∀ entries : List (κ × α), entries.lookup k = none → assocSet k v entries = entries ++ [(k, v)] := by
    intro entries hnone
    induction entries with
    | nil => rfl
    | cons e rest ih =>
      cases hk : k == e.1 with
      | true =>
        rw [lookup_entry, hk] at hnone
        cases hnone
      | false =>
        rw [lookup_entry, hk] at hnone
        have hne : e.1 ≠ k := fun he => by simp [he] at hk
        rw [assocSet, if_neg hne, ih hnone, List.cons_append]
  unfold OrderedDict.values OrderedDict.set
  simp only [happend d.entries h, List.map_append, List.countP_append, List.map_singleton, List.countP_singleton]

theorem countP_values_erase_add {d : OrderedDict κ α} {k : κ} {v : α} (h : d.get? k = some v) :
    (d.erase k).values.countP p + (if p v then 1 else 0) = d.values.countP p := by
  obtain ⟨entries, hnodup⟩ := d
  show ((assocErase k entries).map Prod.snd).countP p + _ = (entries.map Prod.snd).countP p
  replace h : entries.lookup k = some v := h
  induction entries with
  | nil => cases h
  | cons e rest ih =>
    obtain ⟨hnot, hrest⟩ := List.nodup_cons.mp hnodup
    rw [List.map_cons, List.countP_cons]
    by_cases hk : e.1 = k
    · obtain rfl : e.2 = v := by simpa [lookup_entry, hk] using h
      have hsame : assocErase k (e :: rest) = rest := by
        unfold assocErase
        rw [List.filter_cons_of_neg (by simpa using hk), List.filter_eq_self]
        exact fun a ha => decide_eq_true fun hak => hnot (List.mem_map.mpr ⟨a, ha, hak.trans hk.symm⟩)
      rw [hsame]
    · have hne : (k == e.1) = false := beq_eq_false_iff_ne.mpr (Ne.symm hk)
      rw [lookup_entry, hne] at h
      have hkeep : assocErase k (e :: rest) = e :: assocErase k rest :=
        List.filter_cons_of_pos (by simpa using hk)
      rw [hkeep, List.map_cons, List.countP_cons]
      have hcount := ih hrest h
      omega

end Counting
end KernelRuntime
