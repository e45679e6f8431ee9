import KernelRuntime.Foundations.TextReplace

/-! # The parts of a text between separators

`s.split(sep)` for a nonempty `sep`: the text is scanned from the left, and each occurrence of `sep` that begins
behind the last one ends a part. -/

namespace KernelRuntime
set_option autoImplicit false

variable {α : Type*} [DecidableEq α]

/-- The scan; the number counts the items of a separator that are still to be skipped. -/
def splitFrom (sep : List α) : ℕ → List α → List (List α)
  | _, [] => [[]]
  | k + 1, _ :: cs => splitFrom sep k cs
  | 0, c :: cs =>
    if sep.isPrefixOf (c :: cs) then [] :: splitFrom sep (sep.length - 1) cs
    else (splitFrom sep 0 cs).modifyHead (c :: ·)

/-- `s.split(sep)`. -/
def splitText (sep s : List α) : List (List α) := splitFrom sep 0 s

theorem splitFrom_drop (sep : List α) (k : ℕ) (s : List α) :
    splitFrom sep k s = splitText sep (s.drop k) := by
  induction s generalizing k with
  | nil => cases k <;> simp [splitFrom, splitText]
  | cons c cs ih =>
    cases k with
    | zero => rfl
    | succ k => exact ih k

@[simp] theorem splitText_nil (sep : List α) : splitText sep [] = [[]] := rfl

theorem splitText_append {sep : List α} (hsep : sep ≠ []) (rest : List α) :
    splitText sep (sep ++ rest) = [] :: splitText sep rest := by
  cases sep with
  | nil => exact absurd rfl hsep
  | cons c cs =>
    have hprefix : (c :: cs).isPrefixOf (c :: (cs ++ rest)) = true :=
      List.isPrefixOf_iff_prefix.mpr (List.prefix_append (c :: cs) rest)
    unfold splitText
    rw [List.cons_append, splitFrom, if_pos hprefix, splitFrom_drop]
    simp [splitText]

theorem splitText_cons {sep : List α} {c : α} {cs : List α} (h : ¬ sep <+: c :: cs) :
    splitText sep (c :: cs) = (splitText sep cs).modifyHead (c :: ·) := by
  have hprefix : ¬ sep.isPrefixOf (c :: cs) = true := fun hp => h (List.isPrefixOf_iff_prefix.mp hp)
  unfold splitText
  rw [splitFrom, if_neg hprefix]

theorem splitText_ne_nil {sep : List α} (hsep : sep ≠ []) (s : List α) : splitText sep s ≠ [] := by
  induction s using replace_induction hsep with
  | nil => exact List.cons_ne_nil _ _
  | hit rest ih =>
    rw [splitText_append hsep]
    exact List.cons_ne_nil _ _
  | miss c cs hmiss ih =>
    rw [splitText_cons hmiss]
    cases hparts : splitText sep cs with
    | nil => exact absurd hparts ih
    | cons part parts => exact List.cons_ne_nil _ _

theorem splitText_of_not_mem {sep : List α} (hsep : sep ≠ []) {s : List α} (h : ¬ sep <:+: s) :
    splitText sep s = [s] := by
  induction s using replace_induction hsep with
  | nil => rfl
  | hit rest ih => exact absurd (List.prefix_append sep rest).isInfix h
  | miss c cs hmiss ih =>
    rw [occurs_cons_iff hmiss] at h
    rw [splitText_cons hmiss, ih h]
    rfl

omit [DecidableEq α] in
/-- An item that is in no separator keeps what is behind it out of every separator in front of it. -/
theorem not_prefix_append_cons {sep s rest : List α} {x : α} (hx : x ∉ sep) (h : ¬ sep <+: s) :
    ¬ sep <+: s ++ x :: rest := by
  intro hp
  rcases le_or_gt sep.length s.length with hle | hlt
  · exact h (List.prefix_of_prefix_length_le hp (List.prefix_append s _) hle)
  · have hs : s ++ [x] <+: sep := by
      refine List.prefix_of_prefix_length_le ?_ hp (by simp; omega)
      exact ⟨rest, by simp⟩
    exact hx (hs.subset (List.mem_append_right s List.mem_cons_self))

/-- The parts of a text that goes on behind an item of no separator: the last part goes on as well. -/
theorem splitText_append_cons {sep : List α} (hsep : sep ≠ []) {x : α} (hx : x ∉ sep) (s rest : List α) :
    splitText sep (s ++ x :: rest) =
      (splitText sep s).dropLast ++
        ((splitText sep (x :: rest)).modifyHead (((splitText sep s).getLast?.getD []) ++ ·)) := by
  induction s using replace_induction hsep with
  | nil =>
    cases hparts : splitText sep (x :: rest) with
    | nil => exact absurd hparts (splitText_ne_nil hsep _)
    | cons part parts => simp [hparts]
  | hit s ih =>
    obtain ⟨part, parts, hparts⟩ := List.exists_cons_of_ne_nil (splitText_ne_nil hsep s)
    rw [List.append_assoc, splitText_append hsep, splitText_append hsep, ih, hparts]
    simp
  | miss c cs hmiss ih =>
    have hmiss' : ¬ sep <+: c :: (cs ++ x :: rest) := not_prefix_append_cons hx hmiss
    obtain ⟨part, parts, hparts⟩ := List.exists_cons_of_ne_nil (splitText_ne_nil hsep cs)
    obtain ⟨next, more, hnext⟩ := List.exists_cons_of_ne_nil (splitText_ne_nil hsep (x :: rest))
    rw [List.cons_append, splitText_cons hmiss', splitText_cons hmiss, ih, hparts, hnext]
    cases parts with
    | nil => rfl
    | cons part' parts' => simp [List.getLast?_cons_cons]

/-- A text is its first part, and if there is a second one, the separator and what is behind it. -/
theorem splitText_eq_cons_cons {sep : List α} (hsep : sep ≠ []) {s part next : List α} {parts : List (List α)}
    (h : splitText sep s = part :: next :: parts) : ∃ rest, s = part ++ sep ++ rest := by
  induction s using replace_induction hsep generalizing part with
  | nil => cases h
  | hit rest ih =>
    rw [splitText_append hsep] at h
    obtain ⟨rfl, _⟩ := List.cons.inj h
    exact ⟨rest, rfl⟩
  | miss c cs hmiss ih =>
    rw [splitText_cons hmiss] at h
    cases hparts : splitText sep cs with
    | nil => exact absurd hparts (splitText_ne_nil hsep cs)
    | cons part' parts' =>
      rw [hparts] at h
      simp only [List.modifyHead_cons, List.cons.injEq] at h
      obtain ⟨rfl, rfl⟩ := h
      obtain ⟨rest, hrest⟩ := ih hparts
      exact ⟨rest, by rw [hrest]; simp⟩

theorem splitText_one_eq_none_iff {sep : List α} (hsep : sep ≠ []) {s : List α} :
    (splitText sep s)[1]? = none ↔ ¬ sep <:+: s := by
  refine ⟨fun h hthere => ?_, fun h => by rw [splitText_of_not_mem hsep h]; rfl⟩
  induction s using replace_induction hsep with
  | nil => exact hsep (List.eq_nil_of_infix_nil hthere)
  | hit rest ih =>
    rw [splitText_append hsep] at h
    cases hparts : splitText sep rest with
    | nil => exact splitText_ne_nil hsep rest hparts
    | cons part parts =>
      rw [hparts] at h
      cases h
  | miss c cs hmiss ih =>
    rw [occurs_cons_iff hmiss] at hthere
    refine ih ?_ hthere
    rw [splitText_cons hmiss] at h
    cases hparts : splitText sep cs with
    | nil => exact absurd hparts (splitText_ne_nil hsep cs)
    | cons part parts =>
      rw [hparts] at h
      exact h

example : splitText "::".toList "a:::b::".toList = ["a".toList, ":b".toList, []] := by decide

end KernelRuntime
