import KernelRuntime.Foundations.OrderedDict
import Mathlib.Data.List.Forall2
import Mathlib.Data.List.Induction

/-! # Folding events into one value per key

Each event has a key, and updates the value of that key or opens it. After any number of events there is
one value per key, in the order in which the keys came first, and it is what the events of that key alone
add up to. -/

namespace KernelRuntime
set_option autoImplicit false

section Upsert
variable {κ α : Type*} [DecidableEq κ]

/-- The first value with the key is replaced; without one a new value goes last. -/
def upsert (keyOf : α → κ) (k : κ) (f : Option α → α) : List α → List α
  | [] => [f none]
  | x :: rest => if keyOf x = k then f (some x) :: rest else x :: upsert keyOf k f rest

variable {keyOf : α → κ} {k : κ} {f : Option α → α}

theorem upsert_of_not_mem {xs : List α} (h : k ∉ xs.map keyOf) : upsert keyOf k f xs = xs ++ [f none] := by
  induction xs with
  | nil => rfl
  | cons x rest ih =>
    rw [List.map_cons, List.mem_cons, not_or] at h
    unfold upsert
    rw [if_neg (Ne.symm h.1), ih h.2]
    rfl

omit [DecidableEq κ] in
theorem forall₂_of_ne {R S : κ → α → Prop} {ks : List κ} {xs : List α} (h : List.Forall₂ R ks xs)
    (hk : k ∉ ks) (hother : ∀ j x, j ≠ k → R j x → S j x) : List.Forall₂ S ks xs := by
  have hne : ∀ j ∈ ks, j ≠ k := fun j hj heq => hk (heq ▸ hj)
  have hboth := (List.forall₂_and_left ks xs).mpr ⟨hne, h⟩
  exact hboth.imp fun j x hjx => hother j x hjx.1 hjx.2

/-- Only the value of the key changes. -/
theorem forall₂_upsert {R S : κ → α → Prop} {ks : List κ} {xs : List α} (h : List.Forall₂ R ks xs)
    (hkey : ∀ j x, R j x → keyOf x = j) (hnodup : ks.Nodup) (hk : k ∈ ks)
    (hself : ∀ x, R k x → S k (f (some x))) (hother : ∀ j x, j ≠ k → R j x → S j x) :
    List.Forall₂ S ks (upsert keyOf k f xs) := by
  induction h with
  | nil => cases hk
  | @cons j x ks xs hx htail ih =>
    obtain ⟨hj, hrest⟩ := List.nodup_cons.mp hnodup
    unfold upsert
    rw [hkey j x hx]
    split_ifs with hjk
    · subst hjk
      exact List.Forall₂.cons (hself x hx) (forall₂_of_ne htail hj hother)
    · have hmem : k ∈ ks := (List.mem_cons.mp hk).resolve_left fun heq => hjk heq.symm
      exact List.Forall₂.cons (hother j x hjk hx) (ih hrest hmem)

/-- A dictionary write that depends on the old value is such a replacement. -/
theorem assocSet_eq_upsert {β : Type*} (k : κ) (g : Option β → β) (entries : List (κ × β)) :
    assocSet k (g (entries.lookup k)) entries =
      upsert Prod.fst k (fun old => (k, g (old.map Prod.snd))) entries := by
  induction entries with
  | nil => rfl
  | cons e rest ih =>
    unfold assocSet upsert
    by_cases he : e.1 = k
    · have hlookup : (e :: rest).lookup k = some e.2 := by simp [lookup_entry, he]
      rw [if_pos he, if_pos he, hlookup]
      rfl
    · have hlookup : (e :: rest).lookup k = rest.lookup k := by
        simp [lookup_entry, beq_eq_false_iff_ne.mpr fun heq : k = e.1 => he heq.symm]
      rw [if_neg he, if_neg he, hlookup, ih]

theorem nodup_writeAll {β : Type*} {entries : List (κ × β)} (new : List (κ × β)) (h : (entries.map Prod.fst).Nodup) :
    ((writeAll new entries).map Prod.fst).Nodup := by
  induction new generalizing entries with
  | nil => exact h
  | cons e rest ih => exact ih (nodup_assocSet e.1 e.2 h)

theorem assocSet_perm {β : Type*} (k : κ) (v : β) {entries : List (κ × β)} (h : (entries.map Prod.fst).Nodup) :
    (assocSet k v entries).Perm ((k, v) :: entries.filter fun e => decide (e.1 ≠ k)) := by
  induction entries with
  | nil => exact List.Perm.refl _
  | cons e rest ih =>
    obtain ⟨hfresh, hrest⟩ := List.nodup_cons.mp h
    unfold assocSet
    by_cases he : e.1 = k
    · have hothers : rest.filter (fun e => decide (e.1 ≠ k)) = rest :=
        List.filter_eq_self.mpr fun f hf => decide_eq_true fun hk => hfresh (he.trans hk.symm ▸ List.mem_map_of_mem hf)
      rw [if_pos he, List.filter_cons_of_neg (by simpa using he), hothers]
    · rw [if_neg he, List.filter_cons_of_pos (by simpa using he)]
      exact ((ih hrest).cons e).trans (List.Perm.swap _ _ _)

/-- Writes leave the entries of other keys, and add themselves. -/
theorem writeAll_perm {β : Type*} {entries new : List (κ × β)} (h : (entries.map Prod.fst).Nodup)
    (hnew : (new.map Prod.fst).Nodup) :
    (writeAll new entries).Perm (entries.filter (fun e => decide (e.1 ∉ new.map Prod.fst)) ++ new) := by
  induction new generalizing entries with
  | nil =>
    simp only [List.map_nil, List.not_mem_nil, not_false_eq_true, decide_true, List.filter_true, List.append_nil]
    exact List.Perm.refl _
  | cons e rest ih =>
    obtain ⟨hfresh, hrest⟩ := List.nodup_cons.mp hnew
    refine (ih (nodup_assocSet e.1 e.2 h) hrest).trans ?_
    have hwrite := (assocSet_perm e.1 e.2 h).filter fun f => decide (f.1 ∉ rest.map Prod.fst)
    rw [List.filter_cons_of_pos (by simpa using hfresh), List.filter_filter] at hwrite
    have hkeys : (entries.filter fun f => decide (f.1 ∉ rest.map Prod.fst) && decide (f.1 ≠ e.1)) =
        entries.filter fun f => decide (f.1 ∉ (e :: rest).map Prod.fst) := by
      refine List.filter_congr fun f _ => ?_
      rw [List.map_cons, ← Bool.decide_and]
      simp only [List.mem_cons, not_or]
      exact decide_eq_decide.mpr and_comm
    rw [hkeys] at hwrite
    exact (hwrite.append_right rest).trans List.perm_middle.symm

end Upsert

/-! ## The fold -/

section Fold
variable {κ α ε : Type*} [DecidableEq κ] (keyOf : α → κ) (key : ε → κ) (update : Option α → ε → α)

/-- One event acts on the value of its key. -/
def feed (xs : List α) (e : ε) : List α := upsert keyOf (key e) (fun old => update old e) xs

/-- What the events of one key add up to. -/
def total (es : List ε) : Option α := es.foldl (fun old e => some (update old e)) none

/-- The events of a key. -/
def eventsOf (k : κ) (es : List ε) : List ε := es.filter fun e => decide (key e = k)

theorem total_append (es : List ε) (e : ε) : total update (es ++ [e]) = some (update (total update es) e) := by
  unfold total
  rw [List.foldl_append]
  rfl

theorem total_eq_none {es : List ε} (h : total update es = none) : es = [] := by
  induction es using List.reverseRecOn with
  | nil => rfl
  | append_singleton es e _ =>
    rw [total_append] at h
    cases h

theorem eventsOf_append_self (es : List ε) (e : ε) :
    eventsOf key (key e) (es ++ [e]) = eventsOf key (key e) es ++ [e] := by
  unfold eventsOf
  rw [List.filter_append]
  simp

theorem eventsOf_append_of_ne {k : κ} {e : ε} (h : k ≠ key e) (es : List ε) :
    eventsOf key k (es ++ [e]) = eventsOf key k es := by
  unfold eventsOf
  rw [List.filter_append]
  simp [Ne.symm h]

theorem eventsOf_eq_nil_of_not_mem {k : κ} {es : List ε} (h : k ∉ es.map key) : eventsOf key k es = [] := by
  refine List.filter_eq_nil_iff.mpr fun e he => ?_
  have hne : key e ≠ k := fun heq => h (List.mem_map.mpr ⟨e, he, heq⟩)
  simpa using hne

theorem eraseDups_append_singleton (ks : List κ) (k : κ) :
    (ks ++ [k]).eraseDups = if k ∈ ks then ks.eraseDups else ks.eraseDups ++ [k] := by
  rw [List.eraseDups_append]
  split_ifs with hk <;> simp [List.removeAll, hk, List.eraseDups_cons]

theorem nodup_eraseDups (ks : List κ) : ks.eraseDups.Nodup := by
  induction ks using List.reverseRecOn with
  | nil => exact List.nodup_nil
  | append_singleton ks k ih =>
    rw [eraseDups_append_singleton]
    split_ifs with hk
    · exact ih
    · rw [List.nodup_append]
      refine ⟨ih, List.nodup_singleton k, fun a ha b hb heq => hk ?_⟩
      rw [← List.mem_singleton.mp hb, ← heq]
      exact List.mem_eraseDups.mp ha

omit [DecidableEq κ] in
theorem keys_of_forall₂ {keyOf : α → κ} {R : κ → α → Prop} {ks : List κ} {xs : List α}
    (h : List.Forall₂ R ks xs) (hkey : ∀ j x, R j x → keyOf x = j) : xs.map keyOf = ks := by
  induction h with
  | nil => rfl
  | cons hx htail ih => rw [List.map_cons, hkey _ _ hx, ih]

/-- **One value per key, in the order of the first events, each the total of its own events.** -/
theorem forall₂_foldl_feed (hkey : ∀ old e, keyOf (update old e) = key e) (es : List ε) :
    List.Forall₂ (fun k x => keyOf x = k ∧ total update (eventsOf key k es) = some x)
      (es.map key).eraseDups (es.foldl (feed keyOf key update) []) := by
  induction es using List.reverseRecOn with
  | nil => exact List.Forall₂.nil
  | append_singleton es e ih =>
    rw [List.foldl_append, List.foldl_cons, List.foldl_nil, List.map_append, List.map_singleton,
      eraseDups_append_singleton]
    have hself : total update (eventsOf key (key e) (es ++ [e])) =
        some (update (total update (eventsOf key (key e) es)) e) := by
      rw [eventsOf_append_self, total_append]
    have hother : ∀ j x, j ≠ key e → keyOf x = j ∧ total update (eventsOf key j es) = some x →
        keyOf x = j ∧ total update (eventsOf key j (es ++ [e])) = some x := by
      intro j x hj hx
      rw [eventsOf_append_of_ne key hj]
      exact hx
    split_ifs with hk
    · refine forall₂_upsert ih (fun j x hx => hx.1) (nodup_eraseDups _) (List.mem_eraseDups.mpr hk) ?_ hother
      rintro x ⟨-, hx⟩
      exact ⟨hkey _ _, hx ▸ hself⟩
    · have hfresh : key e ∉ (es.map key).eraseDups := fun hmem => hk (List.mem_eraseDups.mp hmem)
      have hkeys := keys_of_forall₂ ih fun j x hx => hx.1
      have hnew : feed keyOf key update (es.foldl (feed keyOf key update) []) e =
          es.foldl (feed keyOf key update) [] ++ [update none e] :=
        upsert_of_not_mem (by rw [hkeys]; exact hfresh)
      rw [hnew]
      refine List.rel_append (forall₂_of_ne ih hfresh hother) (List.Forall₂.cons ⟨hkey _ _, ?_⟩ .nil)
      rw [hself, eventsOf_eq_nil_of_not_mem key hk]
      rfl

end Fold
end KernelRuntime
