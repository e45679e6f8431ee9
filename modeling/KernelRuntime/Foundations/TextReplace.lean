import Mathlib.Data.List.Infix

/-! # Replacing a text in a text

`s.replace(old, new)` for a nonempty `old`: the text is scanned from the left, every occurrence of `old`
that begins behind the last one is replaced, and what is put in is not scanned again. -/

namespace KernelRuntime
set_option autoImplicit false

section Replace
variable {α : Type*}

/-- An occurrence is at the front, or in the rest. -/
theorem occurs_cons_iff {old : List α} {c : α} {cs : List α} (hmiss : ¬ old <+: c :: cs) :
    old <:+: c :: cs ↔ old <:+: cs := by
  rw [List.infix_cons_iff]
  exact or_iff_right hmiss

variable [DecidableEq α]

/-- The scan; the number counts the items of an occurrence that are still to be skipped. -/
def replaceFrom (old new : List α) : ℕ → List α → List α
  | _, [] => []
  | k + 1, _ :: cs => replaceFrom old new k cs
  | 0, c :: cs =>
    if old.isPrefixOf (c :: cs) then new ++ replaceFrom old new (old.length - 1) cs
    else c :: replaceFrom old new 0 cs

/-- `s.replace(old, new)`. -/
def replaceAll (old new s : List α) : List α := replaceFrom old new 0 s

theorem replaceFrom_drop (old new : List α) (k : ℕ) (s : List α) :
    replaceFrom old new k s = replaceAll old new (s.drop k) := by
  induction s generalizing k with
  | nil => cases k <;> simp [replaceFrom, replaceAll]
  | cons c cs ih =>
    cases k with
    | zero => rfl
    | succ k => exact ih k

theorem replaceAll_append {old : List α} (hold : old ≠ []) (new rest : List α) :
    replaceAll old new (old ++ rest) = new ++ replaceAll old new rest := by
  cases old with
  | nil => exact absurd rfl hold
  | cons c cs =>
    have hprefix : (c :: cs).isPrefixOf (c :: (cs ++ rest)) = true :=
      List.isPrefixOf_iff_prefix.mpr (List.prefix_append (c :: cs) rest)
    unfold replaceAll
    rw [List.cons_append, replaceFrom, if_pos hprefix, replaceFrom_drop]
    simp [replaceAll]

theorem replaceAll_cons {old : List α} (new : List α) {c : α} {cs : List α} (h : ¬ old <+: c :: cs) :
    replaceAll old new (c :: cs) = c :: replaceAll old new cs := by
  have hprefix : ¬ old.isPrefixOf (c :: cs) = true := fun hp => h (List.isPrefixOf_iff_prefix.mp hp)
  unfold replaceAll
  rw [replaceFrom, if_neg hprefix]

theorem replace_induction {old : List α} (hold : old ≠ []) {P : List α → Prop} (nil : P [])
    (hit : ∀ rest, P rest → P (old ++ rest))
    (miss : ∀ c cs, ¬ old <+: c :: cs → P cs → P (c :: cs)) (s : List α) : P s := by
  generalize hn : s.length = n
  induction n using Nat.strong_induction_on generalizing s with
  | _ n ih =>
    cases s with
    | nil => exact nil
    | cons c cs =>
      by_cases hprefix : old <+: c :: cs
      · obtain ⟨rest, hrest⟩ := hprefix
        have hlength := congrArg List.length hrest
        have hpos := List.length_pos_of_ne_nil hold
        rw [List.length_append] at hlength
        rw [← hrest]
        exact hit rest (ih rest.length (by omega) rest rfl)
      · rw [List.length_cons] at hn
        exact miss c cs hprefix (ih cs.length (by omega) cs rfl)

theorem replaceAll_self {old : List α} (hold : old ≠ []) (s : List α) : replaceAll old old s = s := by
  induction s using replace_induction hold with
  | nil => rfl
  | hit rest ih => rw [replaceAll_append hold, ih]
  | miss c cs hmiss ih => rw [replaceAll_cons old hmiss, ih]

theorem replaceAll_of_not_infix {old : List α} (hold : old ≠ []) (new : List α) {s : List α}
    (h : ¬ old <:+: s) : replaceAll old new s = s := by
  induction s using replace_induction hold with
  | nil => rfl
  | hit rest ih => exact absurd (List.prefix_append old rest).isInfix h
  | miss c cs hmiss ih =>
    rw [occurs_cons_iff hmiss] at h
    rw [replaceAll_cons new hmiss, ih h]

/-- A single item is replaced where it stands. -/
theorem replaceAll_single (x : α) (new s : List α) :
    replaceAll [x] new s = s.flatMap fun c => if c = x then new else [c] := by
  induction s using replace_induction (List.cons_ne_nil x []) with
  | nil => rfl
  | hit rest ih => rw [replaceAll_append (List.cons_ne_nil x []), ih, List.singleton_append, List.flatMap_cons, if_pos rfl]
  | miss c cs hmiss ih =>
    have hc : c ≠ x := by
      rintro rfl
      exact hmiss (List.prefix_append [c] cs)
    rw [replaceAll_cons new hmiss, ih, List.flatMap_cons, if_neg hc, List.singleton_append]

theorem mem_replaceAll {old : List α} (hold : old ≠ []) {new s : List α} {c : α}
    (h : c ∈ replaceAll old new s) : c ∈ new ∨ c ∈ s := by
  induction s using replace_induction hold with
  | nil => exact Or.inr h
  | hit rest ih =>
    rw [replaceAll_append hold, List.mem_append] at h
    exact h.elim Or.inl fun h => (ih h).imp_right (List.mem_append_right old)
  | miss b cs hmiss ih =>
    rw [replaceAll_cons new hmiss, List.mem_cons] at h
    rcases h with rfl | h
    · exact Or.inr List.mem_cons_self
    · exact (ih h).imp_right (List.mem_cons_of_mem b)

section Length
variable {old new new' : List α}

theorem length_replaceAll_le (hold : old ≠ []) (hnew : new.length ≤ new'.length) (s : List α) :
    (replaceAll old new s).length ≤ (replaceAll old new' s).length := by
  induction s using replace_induction hold with
  | nil => exact Nat.le_refl _
  | hit rest ih =>
    rw [replaceAll_append hold, replaceAll_append hold, List.length_append, List.length_append]
    omega
  | miss c cs hmiss ih =>
    rw [replaceAll_cons new hmiss, replaceAll_cons new' hmiss, List.length_cons, List.length_cons]
    omega

/-- A longer replacement of something makes a longer text. -/
theorem length_replaceAll_lt (hold : old ≠ []) (hnew : new.length < new'.length) {s : List α}
    (h : old <:+: s) : (replaceAll old new s).length < (replaceAll old new' s).length := by
  induction s using replace_induction hold with
  | nil => exact absurd (List.infix_nil.mp h) hold
  | hit rest ih =>
    have hrest := length_replaceAll_le hold (Nat.le_of_lt hnew) rest
    rw [replaceAll_append hold, replaceAll_append hold, List.length_append, List.length_append]
    omega
  | miss c cs hmiss ih =>
    have hrest := ih ((occurs_cons_iff hmiss).mp h)
    rw [replaceAll_cons new hmiss, replaceAll_cons new' hmiss, List.length_cons, List.length_cons]
    omega

theorem replaceAll_eq_self_iff (hold : old ≠ []) (hnew : old.length < new.length) (s : List α) :
    replaceAll old new s = s ↔ ¬ old <:+: s := by
  constructor
  · intro hsame hfound
    have hlonger := length_replaceAll_lt hold hnew hfound
    rw [replaceAll_self hold, hsame] at hlonger
    omega
  · exact replaceAll_of_not_infix hold new

/-- What is put in can be read off, when something was replaced. -/
theorem replaceAll_injective (hold : old ≠ []) {s : List α} (hfound : old <:+: s)
    (h : replaceAll old new s = replaceAll old new' s) : new = new' := by
  have hlength : new.length = new'.length := by
    rcases Nat.lt_trichotomy new.length new'.length with hlt | heq | hlt
    · have hlonger := length_replaceAll_lt hold hlt hfound
      rw [h] at hlonger
      omega
    · exact heq
    · have hlonger := length_replaceAll_lt hold hlt hfound
      rw [h] at hlonger
      omega
  induction s using replace_induction hold with
  | nil => exact absurd (List.infix_nil.mp hfound) hold
  | hit rest ih =>
    rw [replaceAll_append hold, replaceAll_append hold] at h
    exact (List.append_inj h hlength).1
  | miss c cs hmiss ih =>
    rw [replaceAll_cons new hmiss, replaceAll_cons new' hmiss] at h
    exact ih ((occurs_cons_iff hmiss).mp hfound) (List.cons.inj h).2

end Length
end Replace
end KernelRuntime
