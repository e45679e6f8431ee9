import Mathlib.Data.List.TakeWhile
import KernelRuntime.Foundations.FileTree

/-! # Directories on a walk

`mkdir(parents=True, exist_ok=True)` on a machine that may refuse a directory: it makes what is missing, place
after place, and what it made stays when a later place cannot be one. -/

namespace KernelRuntime.FileTree
set_option autoImplicit false

/-- A walk ends before this place: a file is there, or nothing is and it cannot be made. -/
def blocked (refuses : List String → Bool) (t : FileTree) (p : List String) : Bool :=
  match t p with
  | some .directory => false
  | some (.file _) => true
  | none => refuses p

/-- The directories that were made, whether the walk came to its end, and the tree after it. -/
structure Walked where
  made : List (List String)
  done : Bool
  tree : FileTree

def makeAll (refuses : List String → Bool) (t : FileTree) : List (List String) → Walked
  | [] => ⟨[], true, t⟩
  | p :: ps =>
    match t p with
    | some .directory => makeAll refuses t ps
    | some (.file _) => ⟨[], false, t⟩
    | none =>
      if refuses p then ⟨[], false, t⟩
      else
        let rest := makeAll refuses (Function.update t p (some .directory)) ps
        ⟨p :: rest.made, rest.done, rest.tree⟩

/-- `path.mkdir(parents=True, exist_ok=True)`, where `ps` are the places of its parents and of itself, from the top. A
path that no call of the system takes is refused before anything is made. -/
def mkdirs (unusable : Bool) (refuses : List String → Bool) (t : FileTree) (ps : List (List String)) : Walked :=
  if unusable then ⟨[], false, t⟩ else makeAll refuses t ps

/-- The places that a walk comes to. -/
def passed (refuses : List String → Bool) (t : FileTree) (ps : List (List String)) : List (List String) :=
  ps.takeWhile fun p => !blocked refuses t p

section Walk
variable {refuses : List String → Bool} {t : FileTree}

/-- A place that was made is no obstacle, and was none before. -/
theorem blocked_update {p : List String} (hnone : t p = none) (hp : refuses p = false) (q : List String) :
    blocked refuses (Function.update t p (some .directory)) q = blocked refuses t q := by
  unfold blocked
  by_cases hq : q = p
  · rw [hq, Function.update_self, hnone, hp]
  · rw [Function.update_of_ne hq]

theorem passed_update {p : List String} (hnone : t p = none) (hp : refuses p = false) (ps : List (List String)) :
    passed refuses (Function.update t p (some .directory)) ps = passed refuses t ps := by
  unfold passed
  exact congrArg (fun f => ps.takeWhile fun q => !f q) (funext fun q => blocked_update hnone hp q)

theorem makeAll_tree (ps : List (List String)) (q : List String) :
    (makeAll refuses t ps).tree q = if q ∈ (makeAll refuses t ps).made then some .directory else t q := by
  induction ps generalizing t with
  | nil => rfl
  | cons p ps ih =>
    unfold makeAll
    split
    · exact ih
    · rfl
    · split_ifs with hrefuses hmem hmem
      · cases hmem
      · rfl
      · rw [ih]
        by_cases hq : q ∈ (makeAll refuses (Function.update t p (some .directory)) ps).made
        · rw [if_pos hq]
        · have hqp : q = p := (List.mem_cons.mp hmem).resolve_right hq
          rw [if_neg hq, hqp, Function.update_self]
      · rw [List.mem_cons, not_or] at hmem
        rw [ih, if_neg hmem.2, Function.update_of_ne hmem.1]

theorem passed_cons (p : List String) (ps : List (List String)) :
    passed refuses t (p :: ps) = if blocked refuses t p = true then [] else p :: passed refuses t ps := by
  unfold passed
  cases h : blocked refuses t p <;> simp [h]

theorem mem_made_iff (ps : List (List String)) (q : List String) :
    q ∈ (makeAll refuses t ps).made ↔ q ∈ passed refuses t ps ∧ t q = none := by
  induction ps generalizing t with
  | nil => simp [makeAll, passed]
  | cons p ps ih =>
    rw [passed_cons]
    unfold makeAll
    cases hnode : t p with
    | some node =>
      cases node with
      | directory =>
        have hfree : ¬ blocked refuses t p = true := by simp [blocked, hnode]
        simp only [if_neg hfree, List.mem_cons]
        rw [ih]
        constructor
        · exact fun h => ⟨Or.inr h.1, h.2⟩
        · rintro ⟨rfl | hq, hnone⟩
          · rw [hnode] at hnone
            cases hnone
          · exact ⟨hq, hnone⟩
      | file content =>
        have hblocked : blocked refuses t p = true := by simp [blocked, hnode]
        simp [if_pos hblocked]
    | none =>
      by_cases hrefuses : refuses p = true
      · have hblocked : blocked refuses t p = true := by simpa [blocked, hnode] using hrefuses
        simp [if_pos hblocked, hrefuses]
      · have hfree : ¬ blocked refuses t p = true := by simpa [blocked, hnode] using hrefuses
        rw [Bool.not_eq_true] at hrefuses
        simp only [if_neg hfree, hrefuses, Bool.false_eq_true, if_false, List.mem_cons]
        rw [ih, passed_update hnode hrefuses]
        by_cases hq : q = p
        · subst hq
          simp [hnode]
        · rw [Function.update_of_ne hq]
          simp [hq]

theorem done_iff (ps : List (List String)) :
    (makeAll refuses t ps).done = true ↔ ∀ p ∈ ps, blocked refuses t p = false := by
  induction ps generalizing t with
  | nil => simp [makeAll]
  | cons p ps ih =>
    rw [List.forall_mem_cons]
    unfold makeAll
    cases hnode : t p with
    | some node =>
      cases node with
      | directory =>
        have hfree : blocked refuses t p = false := by simp [blocked, hnode]
        exact ih.trans (and_iff_right hfree).symm
      | file content => simp [blocked, hnode]
    | none =>
      by_cases hrefuses : refuses p = true
      · simp [blocked, hnode, hrefuses]
      · rw [Bool.not_eq_true] at hrefuses
        have hfree : blocked refuses t p = false := by simpa [blocked, hnode] using hrefuses
        simp only [hrefuses, Bool.false_eq_true, if_false]
        rw [ih, and_iff_right hfree]
        exact forall₂_congr fun q _ => by rw [blocked_update hnode hrefuses]

/-- At the end of a walk there are directories all along it. -/
theorem directory_of_done {ps : List (List String)} (h : (makeAll refuses t ps).done = true) {p : List String}
    (hp : p ∈ ps) : (makeAll refuses t ps).tree p = some .directory := by
  have hfree := (done_iff ps).mp h
  have hall : ∀ q ∈ ps, (fun q => !blocked refuses t q) q = true := fun q hq => by simp [hfree q hq]
  rw [makeAll_tree]
  split_ifs with hmade
  · rfl
  · have hpassed : p ∈ passed refuses t ps := by
      unfold passed
      rwa [List.takeWhile_eq_self_iff.mpr hall]
    cases hnode : t p with
    | none => exact absurd ((mem_made_iff ps p).mpr ⟨hpassed, hnode⟩) hmade
    | some node =>
      cases node with
      | directory => rfl
      | file content => simpa [blocked, hnode] using hfree p hp

/-! ## A path with its parents -/

variable {unusable : Bool}

theorem mkdirs_tree (ps : List (List String)) (q : List String) : (mkdirs unusable refuses t ps).tree q =
    if q ∈ (mkdirs unusable refuses t ps).made then some .directory else t q := by
  unfold mkdirs
  split_ifs with hunusable hmade hmade
  · cases hmade
  · rfl
  · rw [makeAll_tree, if_pos hmade]
  · rw [makeAll_tree, if_neg hmade]

theorem mem_mkdirs_iff (ps : List (List String)) (q : List String) : q ∈ (mkdirs unusable refuses t ps).made ↔
    unusable = false ∧ q ∈ passed refuses t ps ∧ t q = none := by
  unfold mkdirs
  cases unusable with
  | false => exact (mem_made_iff ps q).trans (and_iff_right rfl).symm
  | true => exact iff_of_false List.not_mem_nil nofun

theorem mkdirs_done_iff (ps : List (List String)) : (mkdirs unusable refuses t ps).done = true ↔
    unusable = false ∧ ∀ p ∈ ps, blocked refuses t p = false := by
  unfold mkdirs
  cases unusable with
  | false => exact (done_iff ps).trans (and_iff_right rfl).symm
  | true => exact iff_of_false Bool.false_ne_true nofun

theorem directory_of_mkdirs {ps : List (List String)} (h : (mkdirs unusable refuses t ps).done = true)
    {p : List String} (hp : p ∈ ps) : (mkdirs unusable refuses t ps).tree p = some .directory := by
  unfold mkdirs at h ⊢
  split_ifs at h ⊢ with hunusable
  exact directory_of_done h hp

/-- Directories that were made block nothing, and what blocked does so still. -/
theorem blocked_mkdirs (ps : List (List String)) (q : List String) :
    blocked refuses (mkdirs unusable refuses t ps).tree q = blocked refuses t q := by
  by_cases hmade : q ∈ (mkdirs unusable refuses t ps).made
  · obtain ⟨_, hpassed, _⟩ := (mem_mkdirs_iff ps q).mp hmade
    have hfree : blocked refuses t q = false := by simpa using List.mem_takeWhile_imp hpassed
    rw [hfree]
    unfold blocked
    rw [mkdirs_tree, if_pos hmade]
  · unfold blocked
    rw [mkdirs_tree, if_neg hmade]

theorem passed_mkdirs (ps qs : List (List String)) :
    passed refuses (mkdirs unusable refuses t ps).tree qs = passed refuses t qs := by
  unfold passed
  exact congrArg (fun f => qs.takeWhile fun q => !f q) (funext fun q => blocked_mkdirs ps q)

theorem mkdirs_directory (ps : List (List String)) {q : List String} (h : t q = some .directory) :
    (mkdirs unusable refuses t ps).tree q = some .directory := by
  rw [mkdirs_tree, h, ite_self]

end Walk
end KernelRuntime.FileTree
