import KernelRuntime.Foundations.DirectoryWalk
import KernelRuntime.Governance.PurePaths

/-! # Routes

A text leads from a directory place after place, one for each of its names. What a walk meets is said of these
places, from the first one on. -/

namespace KernelRuntime
open ToolExecution
set_option autoImplicit false

/-- The names of a text, without the empty ones and `.`. -/
def textNames (text : String) : List String := (pathNames text).filter fun name => decide (name ≠ "" ∧ name ≠ ".")

/-- The way that a text leads: on from a directory, or from the top when it begins with `/`. -/
def route (base : PurePath) (text : String) : PurePath :=
  if isAbsolute text then ⟨anchorOf text, textNames text⟩ else ⟨base.anchor, base.parts ++ textNames text⟩

theorem join_of (base : PurePath) (text : String) : base.join (.of text) = route base text := by
  unfold PurePath.join PurePath.of route
  rw [ContainerPaths.pureParts_eq]
  cases habsolute : isAbsolute text with
  | false => rw [if_pos (PurePath.anchorOf_relative.mpr habsolute), if_neg Bool.false_ne_true]; rfl
  | true =>
    have hanchor : anchorOf text ≠ .relative := fun h => by
      rw [PurePath.anchorOf_relative.mp h] at habsolute
      cases habsolute
    rw [if_neg hanchor, if_pos rfl]
    rfl

/-- A name without a slash leads one place on, unless it is `.` or empty. -/
theorem route_name (base : PurePath) {name : String} (hslash : '/' ∉ name.toList) :
    route base name = ⟨base.anchor, base.parts ++ if name = "" ∨ name = "." then [] else [name]⟩ := by
  have hrelative : ¬ isAbsolute name = true := by
    rw [PurePath.isAbsolute_iff]
    rintro ⟨cs, hcs⟩
    exact hslash (hcs ▸ List.mem_cons_self)
  unfold route textNames
  rw [if_neg hrelative, pathNames_of_no_slash hslash]
  by_cases hstay : name = "" ∨ name = "."
  · rw [if_pos hstay]
    rcases hstay with rfl | rfl <;> rfl
  · rw [if_neg hstay, List.filter_eq_self.mpr fun n hn => ?_]
    rw [List.mem_singleton.mp hn]
    exact decide_eq_true (not_or.mp hstay)

/-! ## Walks -/

/-- The places of a walk, from the first one to the last. -/
def walkPlaces (p names : List String) : List (List String) := names.inits.map fun before => before.foldl walk p

/-- All places of a walk are so. -/
def Along (ok : List String → Prop) : List String → List String → Prop
  | p, [] => ok p
  | p, name :: names => ok p ∧ Along ok (walk p name) names

/-- All places that a walk comes to are so. It goes on from place to place as long as these let it. -/
def Visits (lets ok : List String → Prop) : List String → List String → Prop
  | p, [] => lets p → ok p
  | p, name :: names => lets p → ok p ∧ Visits lets ok (walk p name) names

theorem walkPlaces_nil (p : List String) : walkPlaces p [] = [p] := rfl

theorem walkPlaces_cons (p : List String) (name : String) (names : List String) :
    walkPlaces p (name :: names) = p :: walkPlaces (walk p name) names := by
  unfold walkPlaces
  rw [List.inits_cons, List.map_cons, List.map_map]
  rfl

section Walks
variable {lets ok : List String → Prop}

theorem along_iff (p names : List String) : Along ok p names ↔ ∀ q ∈ walkPlaces p names, ok q := by
  induction names generalizing p with
  | nil => rw [walkPlaces_nil, List.forall_mem_singleton, Along]
  | cons name names ih => rw [walkPlaces_cons, List.forall_mem_cons, Along, ih]

theorem along_append (p before after : List String) :
    Along ok p (before ++ after) ↔ Along ok p before ∧ Along ok (before.foldl walk p) after := by
  induction before generalizing p with
  | nil =>
    refine ⟨fun h => ⟨?_, h⟩, fun h => h.2⟩
    cases after with
    | nil => exact h
    | cons name names => exact h.1
  | cons name before ih => rw [List.cons_append, Along, Along, ih, and_assoc]; rfl

theorem visits_append (p before after : List String) : Visits lets ok p (before ++ after) ↔
    Visits lets ok p before ∧ (Along lets p before → Visits lets ok (before.foldl walk p) after) := by
  induction before generalizing p with
  | nil =>
    refine ⟨fun h => ⟨?_, fun _ => h⟩, fun h => ?_⟩
    · cases after with
      | nil => exact h
      | cons name names => exact fun hp => (h hp).1
    · cases after with
      | nil => exact h.1
      | cons name names => exact fun hp => h.2 hp hp
  | cons name before ih =>
    rw [List.cons_append, Visits, Visits, ih]
    constructor
    · exact fun h => ⟨fun hp => ⟨(h hp).1, (h hp).2.1⟩, fun hway => (h hway.1).2.2 hway.2⟩
    · exact fun h hp => ⟨(h.1 hp).1, (h.1 hp).2, fun hway => h.2 ⟨hp, hway⟩⟩

theorem Visits.along {p names : List String} (h : Visits lets ok p names) (hway : Along lets p names) :
    Along ok p names := by
  induction names generalizing p with
  | nil => exact h hway
  | cons name names ih => exact ⟨(h hway.1).1, ih (h hway.1).2 hway.2⟩

/-- A walk is at every place above the one where it ends, or it began below. -/
theorem Along.above {p names q : List String} (h : Along ok p names) (hbefore : ∀ r, r <+: p → ok r)
    (hq : q <+: names.foldl walk p) : ok q := by
  induction names generalizing p with
  | nil => exact hbefore q hq
  | cons name names ih =>
    refine ih h.2 (fun r hr => ?_) hq
    unfold walk at hr
    split_ifs at hr with hstay hup
    · exact hbefore r hr
    · exact hbefore r (hr.trans (List.dropLast_prefix p))
    · rcases List.prefix_concat_iff.mp hr with rfl | hr
      · have hwalk : walk p name = p ++ [name] := by
          unfold walk
          rw [if_neg hstay, if_neg hup]
        rw [← hwalk]
        cases names with
        | nil => exact h.2
        | cons _ _ => exact h.2.1
      · exact hbefore r hr

/-- From the top a walk is at every place above the one where it ends. -/
theorem Along.above_end {names q : List String} (h : Along ok [] names) (hq : q <+: names.foldl walk []) : ok q :=
  h.above (fun r hr => by
    rw [List.prefix_nil.mp hr]
    cases names with
    | nil => exact h
    | cons _ _ => exact h.1) hq

/-- The places that a walk comes to when directories are made are those that it passes. -/
theorem visits_iff {refuses : List String → Bool} {t : FileTree} (p names : List String) :
    Visits (fun q => FileTree.blocked refuses t q = false) ok p names ↔
      ∀ q ∈ FileTree.passed refuses t (walkPlaces p names), ok q := by
  induction names generalizing p with
  | nil =>
    rw [walkPlaces_nil, FileTree.passed_cons, Visits]
    cases FileTree.blocked refuses t p with
    | false => simp [FileTree.passed]
    | true => simp
  | cons name names ih =>
    rw [walkPlaces_cons, FileTree.passed_cons, Visits, ih]
    cases FileTree.blocked refuses t p with
    | false => simp
    | true => simp

end Walks

/-! ## How deep names lead -/

/-- One place down for a name, one up for `..`, and none for a name that stays. -/
def descent (name : String) : ℤ := if name = "" ∨ name = "." then 0 else if name = ".." then -1 else 1

def level : List String → ℤ
  | [] => 0
  | name :: names => descent name + level names

@[simp] theorem level_nil : level [] = 0 := rfl

@[simp] theorem level_cons (name : String) (names : List String) : level (name :: names) = descent name + level names :=
  rfl

@[simp] theorem level_append (before after : List String) : level (before ++ after) = level before + level after := by
  induction before with
  | nil => simp
  | cons name before ih => simp [ih, add_assoc]

@[simp] theorem level_singleton (name : String) : level [name] = descent name := by simp

/-- From the first name on there were more ways down than up. -/
def Deeper (names : List String) : Prop := ∀ before, before <+: names → before ≠ [] → 0 < level before

/-- The names come to the directory, and from there on lead below it. -/
def Descends (dir names : List String) : Prop :=
  ∃ before after, names = before ++ after ∧ before.foldl walk [] = dir ∧ after ≠ [] ∧ Deeper after

theorem Deeper.concat {names : List String} (h : Deeper names) {name : String} (hlast : 0 < level (names ++ [name])) :
    Deeper (names ++ [name]) := by
  intro before hbefore hne
  rcases List.prefix_concat_iff.mp hbefore with rfl | hprefix
  · exact hlast
  · exact h before hprefix hne

theorem deeper_of_concat {names : List String} {name : String} (h : Deeper (names ++ [name])) : Deeper names :=
  fun before hbefore hne => h before (hbefore.trans (List.prefix_append _ _)) hne

/-- Names that lead below a directory add to it what their level says. -/
theorem Deeper.walk {names : List String} (h : Deeper names) (dir : List String) :
    ∃ below, names.foldl KernelRuntime.walk dir = dir ++ below ∧ (below.length : ℤ) = level names := by
  induction names using List.reverseRecOn with
  | nil => exact ⟨[], (List.append_nil dir).symm, rfl⟩
  | append_singleton names name ih =>
    obtain ⟨below, hbelow, hlength⟩ := ih (deeper_of_concat h)
    have hlevel : 0 < level names + descent name := by
      have hall := h (names ++ [name]) List.prefix_rfl (by simp)
      rwa [level_append, level_singleton] at hall
    rw [List.foldl_append, List.foldl_cons, List.foldl_nil, hbelow, level_append, level_singleton]
    unfold KernelRuntime.walk descent at *
    by_cases hstay : name = "" ∨ name = "."
    · rw [if_pos hstay, if_pos hstay, add_zero]
      exact ⟨below, rfl, hlength⟩
    · rw [if_neg hstay] at hlevel ⊢
      rw [if_neg hstay]
      by_cases hup : name = ".."
      · rw [if_pos hup] at hlevel ⊢
        rw [if_pos hup]
        have hne : below ≠ [] := List.length_pos_iff.mp (by omega)
        refine ⟨below.dropLast, List.dropLast_append_of_ne_nil hne, ?_⟩
        rw [List.length_dropLast]
        omega
      · rw [if_neg hup, if_neg hup]
        refine ⟨below ++ [name], List.append_assoc .., ?_⟩
        rw [List.length_append, List.length_singleton]
        omega

theorem Descends.inside {dir names : List String} (h : Descends dir names) :
    StrictlyInside dir (names.foldl walk []) := by
  obtain ⟨before, after, rfl, rfl, hne, hdeeper⟩ := h
  obtain ⟨below, hbelow, hlength⟩ := hdeeper.walk (before.foldl walk [])
  have hlevel := hdeeper after List.prefix_rfl hne
  rw [List.foldl_append, hbelow]
  refine ⟨List.prefix_append _ _, fun heq => ?_⟩
  rw [List.append_right_eq_self.mp heq, List.length_nil] at hlength
  omega

theorem StrictlyInside.length_lt {dir p : List String} (h : StrictlyInside dir p) : dir.length < p.length :=
  lt_of_le_of_ne h.1.length_le fun heq => h.2 (h.1.eq_of_length heq).symm

/-- A step of a walk that ends below a directory began there, or in the directory itself. -/
theorem StrictlyInside.of_walk {dir p : List String} {name : String} (h : StrictlyInside dir (walk p name)) :
    (StrictlyInside dir p ∧ ((walk p name).length : ℤ) = p.length + descent name) ∨ (p = dir ∧ descent name = 1) := by
  have hlength := h.length_lt
  unfold walk descent at *
  by_cases hstay : name = "" ∨ name = "."
  · rw [if_pos hstay] at h ⊢
    rw [if_pos hstay, add_zero]
    exact Or.inl ⟨h, rfl⟩
  · rw [if_neg hstay] at h hlength ⊢
    rw [if_neg hstay]
    by_cases hup : name = ".."
    · rw [if_pos hup] at h hlength ⊢
      rw [if_pos hup]
      rw [List.length_dropLast] at hlength ⊢
      refine Or.inl ⟨⟨h.1.trans (List.dropLast_prefix p), fun heq => ?_⟩, by omega⟩
      rw [heq] at hlength
      omega
    · rw [if_neg hup] at h ⊢
      rw [if_neg hup]
      by_cases hp : p = dir
      · exact Or.inr ⟨hp, rfl⟩
      · refine Or.inl ⟨⟨(List.prefix_concat_iff.mp h.1).resolve_left fun heq => h.2 heq.symm, hp⟩, ?_⟩
        simp

/-- The names after the last time that the walk was at the directory. -/
theorem descends_of_inside {dir names : List String} (h : StrictlyInside dir (names.foldl walk [])) :
    Descends dir names := by
  induction names using List.reverseRecOn with
  | nil => exact absurd (List.prefix_nil.mp h.1).symm h.2
  | append_singleton names name ih =>
    rw [List.foldl_append, List.foldl_cons, List.foldl_nil] at h
    rcases h.of_walk with ⟨hinside, hend⟩ | ⟨hdir, hdown⟩
    · obtain ⟨before, after, rfl, rfl, hne, hdeeper⟩ := ih hinside
      obtain ⟨below, hbelow, hlevel⟩ := hdeeper.walk (before.foldl walk [])
      refine ⟨before, after ++ [name], List.append_assoc .., rfl, by simp, hdeeper.concat ?_⟩
      have hlength := h.length_lt
      rw [List.foldl_append] at hend hlength
      rw [hbelow, List.length_append] at hend
      rw [hbelow] at hlength
      rw [level_append, level_singleton]
      omega
    · refine ⟨names, [name], rfl, hdir, by simp, fun before hbefore hne => ?_⟩
      obtain rfl : before = [name] := (List.prefix_concat_iff.mp (show before <+: [] ++ [name] from hbefore)).resolve_right
        fun hnil => hne (List.prefix_nil.mp hnil)
      rw [level_singleton, hdown]
      decide

/-- **Names lead below a directory exactly when they come to it and never come back as high again.** -/
theorem inside_iff_descends (dir names : List String) :
    StrictlyInside dir (names.foldl walk []) ↔ Descends dir names :=
  ⟨descends_of_inside, Descends.inside⟩

end KernelRuntime
