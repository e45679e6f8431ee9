import KernelRuntime.Storage.Overlay

/-! # The names of a tracked file

A file that git lists is meant by its path, with or without the slash and the workspace before it. The
path is looked up after the slashes at its start and the first `workspace/` in it are gone. -/

namespace KernelRuntime.Gvfs
set_option autoImplicit false

/-! ## The first occurrence -/

section RemoveFirst
variable {old : List Char}

theorem removeFirst_append (cs : List Char) (h : old ≠ []) : removeFirst old (old ++ cs) = cs := by
  obtain ⟨c, rest, rfl⟩ := List.exists_cons_of_ne_nil h
  rw [List.cons_append, removeFirst, ← List.cons_append,
    if_pos (List.isPrefixOf_iff_prefix.mpr (List.prefix_append _ cs)), List.drop_left]

theorem removeFirst_of_absent {cs : List Char} (h : ¬ old <:+: cs) : removeFirst old cs = cs := by
  induction cs with
  | nil => rfl
  | cons c cs ih =>
    have hprefix : ¬ old.isPrefixOf (c :: cs) = true := fun hp =>
      h (List.isPrefixOf_iff_prefix.mp hp).isInfix
    have hrest : ¬ old <:+: cs := fun hthere => h (hthere.trans (List.suffix_cons c cs).isInfix)
    rw [removeFirst, if_neg hprefix, ih hrest]

theorem length_removeFirst_le (old cs : List Char) : (removeFirst old cs).length ≤ cs.length := by
  induction cs with
  | nil => exact Nat.le_refl 0
  | cons c cs ih =>
    rw [removeFirst]
    split_ifs
    · rw [List.length_drop]
      exact Nat.sub_le _ _
    · exact Nat.succ_le_succ ih

theorem length_removeFirst_lt {cs : List Char} (hold : old ≠ []) (h : old <:+: cs) :
    (removeFirst old cs).length < cs.length := by
  have hpos : 0 < old.length := List.length_pos_iff.mpr hold
  induction cs with
  | nil => exact absurd (List.infix_nil.mp h) hold
  | cons c cs ih =>
    rw [removeFirst]
    split_ifs with hprefix
    · rw [List.length_drop, List.length_cons]
      omega
    · have hrest : old <:+: cs := by
        rcases List.infix_cons_iff.mp h with hp | hthere
        · exact absurd (List.isPrefixOf_iff_prefix.mpr hp) hprefix
        · exact hthere
      exact Nat.succ_lt_succ (ih hrest)

theorem removeFirst_eq_self_iff (hold : old ≠ []) (cs : List Char) :
    removeFirst old cs = cs ↔ ¬ old <:+: cs := by
  constructor
  · intro heq hthere
    have hlt := length_removeFirst_lt hold hthere
    rw [heq] at hlt
    exact lt_irrefl _ hlt
  · exact removeFirst_of_absent

/-- The occurrence that goes is the first one: nothing before its last letter has another one in it. -/
theorem removeFirst_of_first {before : List Char} (hold : old ≠ []) (after : List Char)
    (hfirst : ¬ old <:+: before ++ old.dropLast) : removeFirst old (before ++ (old ++ after)) = before ++ after := by
  induction before with
  | nil => exact removeFirst_append after hold
  | cons c before ih =>
    have hnot : ¬ old.isPrefixOf (c :: (before ++ (old ++ after))) = true := by
      intro hp
      -- an occurrence at the start would end before the one at hand does
      have hprefix : old <+: c :: before ++ old.dropLast ++ (old.drop (old.length - 1) ++ after) := by
        have hjoin : c :: before ++ old.dropLast ++ (old.drop (old.length - 1) ++ after) =
            c :: (before ++ (old ++ after)) := by
          rw [List.append_assoc, ← List.append_assoc old.dropLast, List.dropLast_eq_take, List.take_append_drop]
          rfl
        rw [hjoin]
        exact List.isPrefixOf_iff_prefix.mp hp
      have hshort : old.length ≤ (c :: before ++ old.dropLast).length := by
        rw [List.length_append, List.length_cons, List.length_dropLast]
        omega
      exact hfirst ((List.prefix_of_prefix_length_le hprefix (List.prefix_append _ _) hshort).isInfix)
    have hrest : ¬ old <:+: before ++ old.dropLast := fun hthere =>
      hfirst (hthere.trans (List.suffix_cons c _).isInfix)
    rw [List.cons_append, removeFirst, if_neg hnot, ih hrest, List.cons_append]

/-- What has an occurrence has a first one. -/
theorem exists_first {cs : List Char} (hold : old ≠ []) (h : old <:+: cs) :
    ∃ before after, cs = before ++ (old ++ after) ∧ ¬ old <:+: before ++ old.dropLast := by
  induction cs with
  | nil => exact absurd (List.infix_nil.mp h) hold
  | cons c cs ih =>
    have hshort : ¬ old <:+: [] ++ old.dropLast := fun hthere => by
      have hlength := hthere.length_le
      have hpos := List.length_pos_iff.mpr hold
      rw [List.nil_append, List.length_dropLast] at hlength
      omega
    by_cases hprefix : old <+: c :: cs
    · obtain ⟨after, hafter⟩ := hprefix
      exact ⟨[], after, hafter.symm, hshort⟩
    · obtain ⟨before, after, rfl, hfirst⟩ := ih ((List.infix_cons_iff.mp h).resolve_left hprefix)
      refine ⟨c :: before, after, rfl, fun hthere => ?_⟩
      rcases List.infix_cons_iff.mp hthere with hp | hlater
      · have hbefore : old.dropLast <+: old ++ after := (List.dropLast_prefix old).trans (List.prefix_append _ _)
        exact hprefix (hp.trans ((List.prefix_append_right_inj (c :: before)).mpr hbefore))
      · exact hfirst hlater

end RemoveFirst

/-! ## Keys -/

/-- The path neither starts with a slash nor has the workspace in it. -/
def Unmarked (path : String) : Prop :=
  path.toList.head? ≠ some '/' ∧ ¬ "workspace/".toList <:+: path.toList

instance (path : String) : Decidable (Unmarked path) :=
  inferInstanceAs (Decidable (path.toList.head? ≠ some '/' ∧ ¬ "workspace/".toList <:+: path.toList))

theorem marker_ne_nil : "workspace/".toList ≠ [] := by decide

theorem normalizePath_eq_self_iff (path : String) : normalizePath path = path ↔ Unmarked path := by
  unfold normalizePath Unmarked
  rw [← String.toList_inj, String.toList_ofList]
  cases hpath : path.toList with
  | nil => simp [removeFirst]
  | cons c cs =>
    by_cases hc : c = '/'
    · have hshort := (length_removeFirst_le "workspace/".toList
        (cs.dropWhile fun x => decide (x = '/'))).trans (List.dropWhile_sublist _).length_le
      refine iff_of_false (fun heq => ?_) fun h => h.1 (by rw [hc, List.head?_cons])
      rw [List.dropWhile_cons_of_pos (by simpa using hc)] at heq
      have hlength := congrArg List.length heq
      rw [List.length_cons] at hlength
      omega
    · rw [List.dropWhile_cons_of_neg (by simpa using hc), removeFirst_eq_self_iff marker_ne_nil]
      exact ⟨fun h => ⟨by simpa using hc, h⟩, And.right⟩

/-- What is left of a path: it is without the slashes in front, and without the first `workspace/` after them. -/
inductive LeavesKey (path key : String) : Prop
  | unmarked (slashes rest : List Char) (hpath : path.toList = slashes ++ rest) (hslashes : ∀ c ∈ slashes, c = '/')
      (hrest : rest.head? ≠ some '/') (hmarker : ¬ "workspace/".toList <:+: rest) (hkey : key.toList = rest)
  | marked (slashes before after : List Char)
      (hpath : path.toList = slashes ++ (before ++ ("workspace/".toList ++ after)))
      (hslashes : ∀ c ∈ slashes, c = '/') (hrest : (before ++ "workspace/".toList).head? ≠ some '/')
      (hfirst : ¬ "workspace/".toList <:+: before ++ "workspace/".toList.dropLast) (hkey : key.toList = before ++ after)

theorem normalizePath_eq_iff (path key : String) : normalizePath path = key ↔ LeavesKey path key := by
  have hstrip : ∀ slashes rest : List Char, (∀ c ∈ slashes, c = '/') → rest.head? ≠ some '/' →
      (slashes ++ rest).dropWhile (fun c => decide (c = '/')) = rest := by
    intro slashes rest hslashes hrest
    rw [List.dropWhile_append_of_pos fun c hc => decide_eq_true (hslashes c hc)]
    cases rest with
    | nil => rfl
    | cons c cs => exact List.dropWhile_cons_of_neg (by simpa using hrest)
  constructor
  · rintro rfl
    have hslashes : ∀ c ∈ path.toList.takeWhile (fun c => decide (c = '/')), c = '/' := fun c hc =>
      of_decide_eq_true (List.all_eq_true.mp List.all_takeWhile c hc)
    have hrest : (path.toList.dropWhile (fun c => decide (c = '/'))).head? ≠ some '/' := fun hhead => by
      have hnot := List.head?_dropWhile_not (fun c => decide (c = '/')) path.toList
      rw [hhead] at hnot
      cases hnot
    have hpath : path.toList = _ := (List.takeWhile_append_dropWhile (p := fun c => decide (c = '/'))).symm
    have hkey : (normalizePath path).toList =
        removeFirst "workspace/".toList (path.toList.dropWhile fun c => decide (c = '/')) := String.toList_ofList
    generalize path.toList.dropWhile (fun c => decide (c = '/')) = rest at hrest hpath hkey
    by_cases hmarker : "workspace/".toList <:+: rest
    · obtain ⟨before, after, rfl, hfirst⟩ := exists_first marker_ne_nil hmarker
      rw [removeFirst_of_first marker_ne_nil after hfirst] at hkey
      refine .marked _ before after hpath hslashes (fun hhead => hrest ?_) hfirst hkey
      rw [← List.append_assoc, List.head?_append, hhead, Option.some_or]
    · rw [removeFirst_of_absent hmarker] at hkey
      exact .unmarked _ rest hpath hslashes hrest hmarker hkey
  · intro h
    unfold normalizePath
    rw [← String.toList_inj, String.toList_ofList]
    cases h with
    | unmarked slashes rest hpath hslashes hrest hmarker hkey =>
      rw [hpath, hstrip slashes rest hslashes hrest, removeFirst_of_absent hmarker, hkey]
    | marked slashes before after hpath hslashes hrest hfirst hkey =>
      have hhead : (before ++ ("workspace/".toList ++ after)).head? ≠ some '/' := by
        rw [← List.append_assoc, List.head?_append]
        simpa using hrest
      rw [hpath, hstrip slashes _ hslashes hhead, removeFirst_of_first marker_ne_nil after hfirst, hkey]

/-- The workspace before a path is what goes. -/
theorem normalizePath_workspace (path : String) : normalizePath ("/workspace/" ++ path) = path := by
  have hchars : ("/workspace/" ++ path).toList = '/' :: ("workspace/".toList ++ path.toList) := by
    rw [String.toList_append]
    rfl
  unfold normalizePath
  rw [hchars, List.dropWhile_cons_of_pos (by decide),
    show ("workspace/".toList ++ path.toList).dropWhile (fun x => decide (x = '/')) =
      "workspace/".toList ++ path.toList from List.dropWhile_cons_of_neg (by decide),
    removeFirst_append _ marker_ne_nil, String.ofList_toList]

theorem normalizePath_slash (path : String) : normalizePath ("/" ++ path) = normalizePath path := by
  have hchars : ("/" ++ path).toList = '/' :: path.toList := by
    rw [String.toList_append]
    rfl
  unfold normalizePath
  rw [hchars, List.dropWhile_cons_of_pos (by decide)]

/-! ## What a name denotes -/

/-- Reading the name is reading the entry of the tracked file, with and without its content. -/
def Denotes (storagePath : List String) (s : State) (name path : String) : Prop :=
  ∃ vfile, s.mount.files.get? path = some vfile ∧
    ∀ load now, readFile storagePath now s name load = loadEntry storagePath s path vfile load

/-- Every tracked file is what its path denotes in the three ways to write it; no two tracked paths are
looked up under one key, and every tracked file can be reached. -/
structure NamesRight (storagePath : List String) (s : State) : Prop where
  plain : ∀ path ∈ s.mount.files.keys, Denotes storagePath s path path
  slash : ∀ path ∈ s.mount.files.keys, Denotes storagePath s ("/" ++ path) path
  workspace : ∀ path ∈ s.mount.files.keys, Denotes storagePath s ("/workspace/" ++ path) path
  apart : ∀ path ∈ s.mount.files.keys, ∀ other ∈ s.mount.files.keys,
    normalizePath path = normalizePath other → path = other
  reached : ∀ path ∈ s.mount.files.keys, ∃ name, Denotes storagePath s name path

section Listed
variable {output : String} {storagePath : List String} {now : ℕ} {s : State}

theorem denotes_of_key {name path : String} (hpath : path ∈ s.mount.files.keys)
    (hkey : normalizePath name = path) : Denotes storagePath s name path := by
  obtain ⟨vfile, hget⟩ := (OrderedDict.mem_keys_iff _ _).mp hpath
  refine ⟨vfile, hget, fun load now => ?_⟩
  unfold readFile
  simp only [hkey, hget]

theorem key_of_denotes (hindex : indexRepository now output = .ok s.mount.files) {name path : String}
    (h : Denotes storagePath s name path) : normalizePath name = path := by
  obtain ⟨vfile, hget, hread⟩ := h
  obtain ⟨sha, rfl, -⟩ := indexRepository_entry hindex (fun _ _ _ _ _ => True.intro) hget
  have hreturned : (readFile storagePath now s name false).1 = .ok (some (indexedFile now path sha)) := by
    rw [hread false now]
    rfl
  unfold readFile at hreturned
  simp only at hreturned
  cases hfound : s.mount.files.get? (normalizePath name) with
  | some found =>
    obtain ⟨sha', rfl, -⟩ := indexRepository_entry hindex (fun _ _ _ _ _ => True.intro) hfound
    rw [hfound] at hreturned
    have hsame : some (indexedFile now (normalizePath name) sha') = some (indexedFile now path sha) :=
      Except.ok.inj hreturned
    exact congrArg VirtualFile.path (Option.some.inj hsame)
  | none =>
    rw [hfound] at hreturned
    simp only at hreturned
    split_ifs at hreturned
    · -- an untracked file is no entry of the listing
      have hsame : some (untrackedFile now (normalizePath name)) = some (indexedFile now path sha) :=
        Except.ok.inj hreturned
      exact congrArg VirtualFile.path (Option.some.inj hsame)
    · cases hreturned

theorem denotes_iff (hindex : indexRepository now output = .ok s.mount.files) {name path : String}
    (hpath : path ∈ s.mount.files.keys) : Denotes storagePath s name path ↔ normalizePath name = path :=
  ⟨key_of_denotes hindex, denotes_of_key hpath⟩

/-- **The names of the files that git lists denote them exactly when no listed path starts with a slash
or has the workspace in it.** -/
theorem namesRight_iff (storagePath : List String) (hindex : indexRepository now output = .ok s.mount.files) :
    NamesRight storagePath s ↔ ∀ path ∈ s.mount.files.keys, Unmarked path := by
  constructor
  · intro h path hpath
    exact (normalizePath_eq_self_iff path).mp ((denotes_iff hindex hpath).mp (h.plain path hpath))
  · intro h
    have hself : ∀ path ∈ s.mount.files.keys, normalizePath path = path := fun path hpath =>
      (normalizePath_eq_self_iff path).mpr (h path hpath)
    refine ⟨fun path hpath => ?_, fun path hpath => ?_, fun path hpath => ?_, ?_, ?_⟩
    · exact denotes_of_key hpath (hself path hpath)
    · exact denotes_of_key hpath ((normalizePath_slash path).trans (hself path hpath))
    · exact denotes_of_key hpath (normalizePath_workspace path)
    · intro path hpath other hother heq
      rwa [hself path hpath, hself other hother] at heq
    · exact fun path hpath => ⟨path, denotes_of_key hpath (hself path hpath)⟩

end Listed

/-! ## Runs -/

theorem namesRight_note : NamesRight noteStorage noteMount := by
  have hindex : indexRepository 0 noteListing = .ok noteMount.mount.files := rfl
  refine (namesRight_iff noteStorage hindex).mpr fun path hpath => ?_
  rw [show path = "note.txt" from List.mem_singleton.mp hpath]
  decide +kernel

/-- A package that bears the name of the workspace. -/
def packageListing : String :=
  "100644 blob 45b983be36b73c0788dc9cbcb76cbb80fc7bb057\tsrc/a.txt\n" ++
  "100644 blob b023018cabc396e7692c70bbf5784a93d3f738ab\tsrc/workspace/a.txt\n"

def packageMount : State where
  mount :=
    { noteMount.mount with
      files := (OrderedDict.empty.set "src/a.txt"
          (indexedFile 0 "src/a.txt" "45b983be36b73c0788dc9cbcb76cbb80fc7bb057")).set "src/workspace/a.txt"
        (indexedFile 0 "src/workspace/a.txt" "b023018cabc396e7692c70bbf5784a93d3f738ab") }
  disk := noteDisk

set_option maxRecDepth 2000 in
/-- The file of the package is read as another file. -/
theorem package_file_misread : ¬ ∀ (output : String) (storagePath : List String) (now : ℕ) (s : State),
    indexRepository now output = .ok s.mount.files → NamesRight storagePath s := by
  intro h
  have hright := h packageListing noteStorage 0 packageMount (by rfl)
  have hsame := hright.apart "src/a.txt" (by decide +kernel) "src/workspace/a.txt" (by decide +kernel)
    (by decide +kernel)
  exact absurd hsame (by decide)

end KernelRuntime.Gvfs
