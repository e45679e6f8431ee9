import Mathlib.Data.List.Infix
import Mathlib.Logic.Function.Basic
import KernelRuntime.Foundations.Json

/-! # A file tree

Directories and files on a disk without links, by the components of their paths. The operations are
those of `pathlib` and `open`: what they raise, and what they change. -/

namespace KernelRuntime
set_option autoImplicit false

abbrev Bytes := List UInt8

inductive Node where
  | directory
  | file (content : Bytes)
deriving DecidableEq

/-- Paths are compared by their components. -/
instance instLawfulBEqPath : LawfulBEq (List String) := inferInstance

abbrev FileTree := List String → Option Node

namespace FileTree

/-- `path.exists()`. -/
def pathExists (t : FileTree) (p : List String) : Bool := (t p).isSome

/-- The bytes of the file at a path. -/
def contentAt (t : FileTree) (p : List String) : Option Bytes :=
  match t p with
  | some (.file content) => some content
  | _ => none

/-- `q` is a directory on the way to `p`. -/
def Above (q p : List String) : Prop := q <+: p ∧ q ≠ p

instance (q p : List String) : Decidable (Above q p) := inferInstanceAs (Decidable (_ ∧ _))

def osError (message : String) (p : List String) : PyError :=
  ⟨.other, message ++ ": '/" ++ String.intercalate "/" p ++ "'"⟩

/-- `open(path, "rb")` and `read()`. -/
def read (t : FileTree) (p : List String) : Except PyError Bytes :=
  match t p with
  | some (.file content) => .ok content
  | some .directory => .error (osError "[Errno 21] Is a directory" p)
  | none => .error (osError "[Errno 2] No such file or directory" p)

/-- The directories on the way to `p`, from the top. -/
def ancestors (p : List String) : List (List String) := p.inits.dropLast

/-- `path.parent.mkdir(parents=True, exist_ok=True)`. -/
def makeParents (t : FileTree) (p : List String) : Except PyError FileTree :=
  match (ancestors p).find? fun q => (t.contentAt q).isSome with
  | some q => .error (osError "[Errno 20] Not a directory" q)
  | none => .ok fun q => if Above q p ∧ t q = none then some .directory else t q

/-- `open(path, "wb")` and `write(content)`. -/
def write (t : FileTree) (p : List String) (content : Bytes) : Except PyError FileTree :=
  match t p with
  | some .directory => .error (osError "[Errno 21] Is a directory" p)
  | _ =>
    if t p.dropLast = some .directory then .ok (Function.update t p (some (.file content)))
    else .error (osError "[Errno 2] No such file or directory" p)

/-- `path.unlink()`. -/
def unlink (t : FileTree) (p : List String) : Except PyError FileTree :=
  match t p with
  | some (.file _) => .ok (Function.update t p none)
  | some .directory => .error (osError "[Errno 21] Is a directory" p)
  | none => .error (osError "[Errno 2] No such file or directory" p)

/-- A file is written after the directories on its way are made; what was made stays when the writing
fails. -/
def store (t : FileTree) (p : List String) (content : Bytes) : Except PyError Unit × FileTree :=
  match t.makeParents p with
  | .error e => (.error e, t)
  | .ok t' =>
    match t'.write p content with
    | .error e => (.error e, t')
    | .ok t'' => (.ok (), t'')

/-- `path.mkdir(parents=True, exist_ok=True)`. -/
def makeDirectory (t : FileTree) (p : List String) : Except PyError FileTree :=
  match t.makeParents p with
  | .error e => .error e
  | .ok t' =>
    match t' p with
    | some .directory => .ok t'
    | some (.file _) => .error (osError "[Errno 17] File exists" p)
    | none => .ok (Function.update t' p (some .directory))

/-- `shutil.rmtree(path)`. -/
def removeTree (t : FileTree) (p : List String) : Except PyError FileTree :=
  match t p with
  | some .directory => .ok fun q => if p <+: q then none else t q
  | some (.file _) => .error (osError "[Errno 20] Not a directory" p)
  | none => .error (osError "[Errno 2] No such file or directory" p)

/-! ## What the operations change -/

theorem pathExists_iff (t : FileTree) (p : List String) : t.pathExists p = true ↔ t p ≠ none := by
  unfold pathExists
  exact Option.isSome_iff_ne_none

theorem contentAt_eq_some_iff {t : FileTree} {p : List String} {content : Bytes} :
    t.contentAt p = some content ↔ t p = some (.file content) := by
  unfold contentAt
  cases h : t p with
  | none => simp
  | some node => cases node <;> simp

theorem read_eq_ok_iff {t : FileTree} {p : List String} {content : Bytes} :
    t.read p = .ok content ↔ t.contentAt p = some content := by
  rw [contentAt_eq_some_iff]
  unfold read
  cases h : t p with
  | none => simp
  | some node => cases node <;> simp

theorem makeParents_apply {t t' : FileTree} {p : List String} (h : t.makeParents p = .ok t')
    (q : List String) : t' q = if Above q p ∧ t q = none then some .directory else t q := by
  unfold makeParents at h
  cases hfind : (ancestors p).find? fun q => (t.contentAt q).isSome with
  | some r =>
    rw [hfind] at h
    cases h
  | none =>
    rw [hfind] at h
    cases h
    rfl

theorem makeParents_frame {t t' : FileTree} {p q : List String} (h : t.makeParents p = .ok t')
    (hq : ¬ Above q p) : t' q = t q := by
  rw [makeParents_apply h, if_neg fun hand => hq hand.1]

theorem contentAt_makeParents {t t' : FileTree} {p : List String} (h : t.makeParents p = .ok t')
    (q : List String) : t'.contentAt q = t.contentAt q := by
  unfold contentAt
  rw [makeParents_apply h]
  split_ifs with hmade
  · rw [hmade.2]
  · rfl

theorem write_ok {t t' : FileTree} {p : List String} {content : Bytes} (h : t.write p content = .ok t') :
    t' = Function.update t p (some (.file content)) := by
  unfold write at h
  split at h
  · cases h
  · split_ifs at h
    cases h
    rfl

theorem contentAt_update_ne (t : FileTree) {p q : List String} (node : Option Node) (hne : q ≠ p) :
    contentAt (Function.update t p node) q = t.contentAt q := by
  unfold contentAt
  rw [Function.update_of_ne hne]

theorem contentAt_unlink {t t' : FileTree} {p : List String} (h : t.unlink p = .ok t') (q : List String) :
    t'.contentAt q = if q = p then none else t.contentAt q := by
  unfold unlink at h
  split at h
  · cases h
    split_ifs with hq
    · unfold contentAt
      rw [hq, Function.update_self]
    · exact contentAt_update_ne t none hq
  · cases h
  · cases h

/-- What is neither written nor on the way to it stays, whatever happens. -/
theorem store_frame (t : FileTree) {p q : List String} (content : Bytes) (hq : ¬ q <+: p) :
    (t.store p content).2 q = t q := by
  have habove : ¬ Above q p := fun h => hq h.1
  unfold store
  cases hmake : t.makeParents p with
  | error e => rfl
  | ok t' =>
    simp only
    cases hwrite : t'.write p content with
    | error e => exact makeParents_frame hmake habove
    | ok t'' =>
      have hne : q ≠ p := by
        rintro rfl
        exact hq List.prefix_rfl
      rw [write_ok hwrite]
      simp only [Function.update_of_ne hne]
      exact makeParents_frame hmake habove

theorem contentAt_store_ne (t : FileTree) {p q : List String} (content : Bytes) (hne : q ≠ p) :
    (t.store p content).2.contentAt q = t.contentAt q := by
  unfold store
  cases hmake : t.makeParents p with
  | error e => rfl
  | ok t' =>
    simp only
    cases hwrite : t'.write p content with
    | error e => exact contentAt_makeParents hmake q
    | ok t'' =>
      rw [write_ok hwrite, ← contentAt_makeParents hmake q]
      exact contentAt_update_ne t' _ hne

theorem store_ne_none (t : FileTree) {p q : List String} (content : Bytes) (h : t q ≠ none) :
    (t.store p content).2 q ≠ none := by
  unfold store
  cases hmake : t.makeParents p with
  | error e => exact h
  | ok t' =>
    have h' : t' q ≠ none := by
      rw [makeParents_apply hmake]
      split_ifs
      · exact nofun
      · exact h
    simp only
    cases hwrite : t'.write p content with
    | error e => exact h'
    | ok t'' =>
      rw [write_ok hwrite]
      by_cases hq : q = p
      · subst hq
        simp
      · simp only [Function.update_of_ne hq]
        exact h'

theorem contentAt_store_self {t t' : FileTree} {p : List String} {content : Bytes}
    (h : t.store p content = (.ok (), t')) : t'.contentAt p = some content := by
  unfold store at h
  cases hmake : t.makeParents p with
  | error e =>
    rw [hmake] at h
    cases h
  | ok t₁ =>
    rw [hmake] at h
    simp only at h
    cases hwrite : t₁.write p content with
    | error e =>
      rw [hwrite] at h
      cases h
    | ok t₂ =>
      rw [hwrite] at h
      cases h
      rw [write_ok hwrite, contentAt_eq_some_iff]
      simp

/-- A directory is made at the end, or was there. -/
theorem makeDirectory_cases {t t' : FileTree} {p : List String} (h : t.makeDirectory p = .ok t') :
    ∃ t₁, t.makeParents p = .ok t₁ ∧
      (t' = t₁ ∨ (t₁ p = none ∧ t' = Function.update t₁ p (some .directory))) := by
  unfold makeDirectory at h
  cases hmake : t.makeParents p with
  | error e =>
    rw [hmake] at h
    cases h
  | ok t₁ =>
    refine ⟨t₁, rfl, ?_⟩
    rw [hmake] at h
    simp only at h
    split at h
    · cases h
      exact Or.inl rfl
    · cases h
    · next hnode =>
      cases h
      exact Or.inr ⟨hnode, rfl⟩

theorem makeDirectory_frame {t t' : FileTree} {p q : List String} (h : t.makeDirectory p = .ok t')
    (hq : ¬ q <+: p) : t' q = t q := by
  obtain ⟨t₁, hmake, rfl | ⟨-, rfl⟩⟩ := makeDirectory_cases h
  · exact makeParents_frame hmake fun habove => hq habove.1
  · have hne : q ≠ p := by
      rintro rfl
      exact hq List.prefix_rfl
    rw [Function.update_of_ne hne]
    exact makeParents_frame hmake fun habove => hq habove.1

theorem contentAt_makeDirectory {t t' : FileTree} {p : List String} (h : t.makeDirectory p = .ok t')
    (q : List String) : t'.contentAt q = t.contentAt q := by
  obtain ⟨t₁, hmake, rfl | ⟨hnone, rfl⟩⟩ := makeDirectory_cases h
  · exact contentAt_makeParents hmake q
  · rw [← contentAt_makeParents hmake q]
    by_cases hq : q = p
    · subst hq
      simp [contentAt, hnone]
    · exact contentAt_update_ne t₁ _ hq

theorem contentAt_removeTree {t t' : FileTree} {p : List String} (h : t.removeTree p = .ok t')
    (q : List String) : t'.contentAt q = if p <+: q then none else t.contentAt q := by
  unfold removeTree at h
  split at h
  · cases h
    unfold contentAt
    simp only
    split_ifs <;> rfl
  · cases h
  · cases h

theorem contentAt_store_error (t : FileTree) {p : List String} {content : Bytes} {e : PyError}
    (h : (t.store p content).1 = .error e) (q : List String) :
    (t.store p content).2.contentAt q = t.contentAt q := by
  unfold store at h ⊢
  cases hmake : t.makeParents p with
  | error e => rfl
  | ok t₁ =>
    simp only [hmake] at h ⊢
    cases hwrite : t₁.write p content with
    | error e => exact contentAt_makeParents hmake q
    | ok t₂ => simp [hwrite] at h

theorem ne_of_mem_ancestors {p q : List String} (h : q ∈ ancestors p) : q ≠ p := by
  unfold ancestors at h
  obtain ⟨i, hi, rfl⟩ := List.mem_iff_getElem.mp h
  rw [List.length_dropLast, List.length_inits] at hi
  rw [List.getElem_dropLast, List.getElem_inits]
  intro heq
  have hlength := congrArg List.length heq
  rw [List.length_take] at hlength
  omega

/-- What could be stored can be stored over. -/
theorem store_again {t : FileTree} {p : List String} {content : Bytes}
    (h : (t.store p content).1 = .ok ()) (content' : Bytes) :
    ((t.store p content).2.store p content').1 = .ok () := by
  unfold store at h ⊢
  cases hmake : t.makeParents p with
  | error e => simp [hmake] at h
  | ok t₁ =>
    simp only [hmake] at h ⊢
    cases hwrite : t₁.write p content with
    | error e => simp [hwrite] at h
    | ok t₂ =>
      have ht₂ := write_ok hwrite
      -- the directories on the way are still there
      have hancestors : (ancestors p).find? (fun q => (t₂.contentAt q).isSome) = none := by
        rw [List.find?_eq_none]
        intro q hq
        have hne := ne_of_mem_ancestors hq
        have hnone : ((ancestors p).find? fun q => (t.contentAt q).isSome) = none := by
          unfold makeParents at hmake
          cases hfind : (ancestors p).find? fun q => (t.contentAt q).isSome with
          | none => rfl
          | some r => simp [hfind] at hmake
        rw [ht₂, contentAt_update_ne t₁ _ hne, contentAt_makeParents hmake q]
        exact List.find?_eq_none.mp hnone q hq
      have hparent : t₁ p.dropLast = some .directory ∧ t₁ p ≠ some .directory := by
        unfold write at hwrite
        split at hwrite
        · cases hwrite
        · next hnode =>
          split_ifs at hwrite with hdir
          exact ⟨hdir, fun hp => hnode hp⟩
      have hne : p.dropLast ≠ p := fun heq => hparent.2 (heq ▸ hparent.1)
      simp only [makeParents, hancestors]
      unfold write
      have hself : t₂ p = some (.file content) := by rw [ht₂, Function.update_self]
      have hdir : t₂ p.dropLast = some .directory := by
        rw [ht₂, Function.update_of_ne hne]
        exact hparent.1
      simp [hself, hdir, Above]

end FileTree
end KernelRuntime
