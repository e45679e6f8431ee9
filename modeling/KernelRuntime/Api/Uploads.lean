import KernelRuntime.Foundations.DirectoryWalk
import KernelRuntime.Foundations.Execution
import KernelRuntime.Governance.PurePaths

/-! # Files uploaded to the workspace of a session

`upload_files_to_workspace` stores every file under a name that the client chose. A leading slash is taken off
before backslashes become slashes; a name that starts with a backslash becomes an absolute path after that. -/

namespace KernelRuntime.Uploads
open ToolExecution
set_option autoImplicit false

structure UploadFile where
  filename : Option String
  content : Bytes
deriving DecidableEq

/-- The paths that no call of the operating system takes, as with a null byte; the directories and the files that it
does not let the process make or open; and what of a content gets to the disk, with whether that is all of it. -/
structure Machine where
  unusable : List String → Bool
  refusesDirectory : List String → Bool
  refusesFile : List String → Bool
  copied : List String → Bytes → Bytes × Bool

/-- `path.relative_to("/")`. -/
def relativeToRoot (p : PurePath) : Except PyError PurePath :=
  match p.anchor with
  | .root => .ok ⟨.relative, p.parts⟩
  | _ => .error ⟨.valueError, "'" ++ p.text ++ "' is not in the subpath of '/'"⟩

/-- `raw_filename.replace("\\", "/")`. -/
def slashed (text : String) : String := String.ofList (text.toList.map fun c => if c = '\\' then '/' else c)

/-- `file.filename or "unnamed"`. -/
def UploadFile.rawFilename (file : UploadFile) : String :=
  if file.filename.getD "" = "" then "unnamed" else file.filename.getD ""

/-- `Path(*[p for p in path.parts if p != ".."])`. -/
def withoutUps (p : PurePath) : PurePath := ⟨p.anchor, p.parts.filter fun name => decide (name ≠ "..")⟩

/-- `safe_rel_path`. -/
def safeRelPath (rawFilename : String) : Except PyError PurePath := do
  let path ← if isAbsolute rawFilename then relativeToRoot (PurePath.of (slashed rawFilename))
    else .ok (PurePath.of (slashed rawFilename))
  return withoutUps path

/-- `workspace / safe_rel_path`: an absolute path takes the place of the workspace. -/
def destination (workspace : List String) (p : PurePath) : List String :=
  match p.anchor with
  | .relative => workspace ++ p.parts
  | _ => p.parts

/-- What one turn of the loop did: the directories it made, the file it created or overwrote with the name for the
response, whether it came to its end, and the disk after it. -/
structure Stored where
  made : List (List String)
  opened : Option (List String × String)
  complete : Bool
  disk : FileTree

/-- `dest_path.parent.mkdir(parents=True, exist_ok=True)`. -/
def makeParents (m : Machine) (t : FileTree) (dest : List String) : FileTree.Walked :=
  FileTree.mkdirs (m.unusable dest.dropLast) m.refusesDirectory t (FileTree.ancestors dest)

/-- One turn of the loop. -/
def storeFile (m : Machine) (workspace : List String) (t : FileTree) (file : UploadFile) : Stored :=
  match safeRelPath file.rawFilename with
  | .error _ => ⟨[], none, false, t⟩
  | .ok path =>
    let dest := destination workspace path
    let parents := makeParents m t dest
    if parents.done = false ∨ parents.tree dest = some .directory ∨ m.refusesFile dest = true then
      ⟨parents.made, none, false, parents.tree⟩
    else
      let copy := m.copied dest file.content
      ⟨parents.made, some (dest, path.text), copy.2, Function.update parents.tree dest (some (.file copy.1))⟩

/-- The loop goes on after a file that was stored. -/
def step (m : Machine) (workspace : List String) (t : FileTree) (file : UploadFile) : Option FileTree :=
  let stored := storeFile m workspace t file
  if stored.complete then some stored.disk else none

/-- The turns of the loop. -/
def storeFiles (m : Machine) (workspace : List String) (t : FileTree) : List UploadFile → List Stored
  | [] => []
  | file :: files =>
    let stored := storeFile m workspace t file
    stored :: if stored.complete then storeFiles m workspace stored.disk files else []

/-- `workspace.mkdir(parents=True, exist_ok=True)`. -/
def makeWorkspace (m : Machine) (workspace : List String) (t : FileTree) : FileTree.Walked :=
  FileTree.mkdirs (m.unusable workspace) m.refusesDirectory t workspace.inits

/-- `upload_files_to_workspace`: what it does for each file that it comes to. -/
def uploadFilesToWorkspace (m : Machine) (workspace : List String) (t : FileTree) (files : List UploadFile) :
    List Stored :=
  let made := makeWorkspace m workspace t
  if made.done then storeFiles m workspace made.tree files else []

example : safeRelPath "/a\\..\\./b" = .ok ⟨.relative, ["a", "b"]⟩ := by decide +kernel

example : safeRelPath "\\etc/passwd" = .ok ⟨.root, ["etc", "passwd"]⟩ := by decide +kernel

/-! ## Containment -/

/-- What was made for a file lies in the workspace, and the file itself at the relative name of the response. -/
structure Contained (workspace : List String) (s : Stored) : Prop where
  made : ∀ p ∈ s.made, StrictlyInside workspace p
  opened : ∀ p name, s.opened = some (p, name) →
    isAbsolute name = false ∧ p = workspace ++ pureParts name ∧ StrictlyInside workspace p

/-- The path that a name stands for when it is absolute. -/
def absoluteParts (rawFilename : String) : List String :=
  (pureParts (slashed rawFilename)).filter fun name => decide (name ≠ "..")

def startsBackslash (rawFilename : String) : Bool := "\\".toList.isPrefixOf rawFilename.toList

/-- A file can be opened at this path, once the directories on the way to it were made. -/
structure Writable (m : Machine) (t : FileTree) (p : List String) : Prop where
  usable : m.unusable p.dropLast = false
  way : ∀ q ∈ FileTree.ancestors p, FileTree.blocked m.refusesDirectory t q = false
  free : t p ≠ some .directory
  allowed : m.refusesFile p = false

/-- The name does not start with a backslash; or nothing can be opened at its path, and what is missing on the way
there is missing in the workspace. -/
def StepOk (m : Machine) (workspace : List String) (t : FileTree) (file : UploadFile) : Prop :=
  startsBackslash file.rawFilename = true →
    ¬ Writable m t (absoluteParts file.rawFilename) ∧
      (m.unusable (absoluteParts file.rawFilename).dropLast = false →
        ∀ q ∈ FileTree.passed m.refusesDirectory t (FileTree.ancestors (absoluteParts file.rawFilename)),
          t q = none → StrictlyInside workspace q)

/-- The workspace is there. -/
def WorkspaceThere (workspace : List String) (t : FileTree) : Prop := ∀ q, q <+: workspace → t q = some .directory

/-! ## Names -/

theorem startsBackslash_iff {raw : String} : startsBackslash raw = true ↔ ∃ cs, raw.toList = '\\' :: cs := by
  unfold startsBackslash
  rw [List.isPrefixOf_iff_prefix]
  exact ⟨fun ⟨cs, h⟩ => ⟨cs, h.symm⟩, fun ⟨cs, h⟩ => ⟨cs, h.symm⟩⟩

/-- A backslash in front becomes a slash in front. -/
theorem isAbsolute_slashed {raw : String} (h : isAbsolute raw = false) :
    isAbsolute (slashed raw) = startsBackslash raw := by
  rw [← Bool.not_eq_true, PurePath.isAbsolute_iff] at h
  rw [Bool.eq_iff_iff, PurePath.isAbsolute_iff, startsBackslash_iff]
  unfold slashed
  rw [String.toList_ofList]
  cases hraw : raw.toList with
  | nil => simp
  | cons c cs =>
    have hc : c ≠ '/' := by
      rintro rfl
      exact h ⟨cs, hraw⟩
    by_cases hback : c = '\\' <;> simp [hback, hc]

theorem plain_absoluteParts (raw : String) : ∀ name ∈ absoluteParts raw, IsPlain name := by
  intro name hname
  obtain ⟨hpart, hup⟩ := List.mem_filter.mp hname
  rw [ContainerPaths.pureParts_eq] at hpart
  obtain ⟨hpath, hproper⟩ := List.mem_filter.mp hpart
  exact ⟨(of_decide_eq_true hproper).1, (of_decide_eq_true hproper).2, of_decide_eq_true hup,
    no_slash_pathNames _ name hpath⟩

theorem withoutUps_of (raw : String) :
    withoutUps (PurePath.of (slashed raw)) = ⟨anchorOf (slashed raw), absoluteParts raw⟩ := by
  simp only [withoutUps, PurePath.of, absoluteParts]

theorem safeRelPath_eq (raw : String) : safeRelPath raw =
    (if isAbsolute raw = true then relativeToRoot (PurePath.of (slashed raw))
      else .ok (PurePath.of (slashed raw))).map withoutUps := by
  unfold safeRelPath
  cases isAbsolute raw with
  | true =>
    rw [if_pos rfl]
    cases relativeToRoot (PurePath.of (slashed raw)) <;> rfl
  | false => rfl

/-- The path of a name: relative to the workspace, or absolute where the name starts with a backslash. -/
theorem safeRelPath_cases (raw : String) :
    (∃ e, safeRelPath raw = .error e ∧ startsBackslash raw = false) ∨
      (safeRelPath raw = .ok ⟨.relative, absoluteParts raw⟩ ∧ startsBackslash raw = false) ∨
      ∃ anchor, anchor ≠ .relative ∧ safeRelPath raw = .ok ⟨anchor, absoluteParts raw⟩ ∧
        startsBackslash raw = true := by
  rw [safeRelPath_eq]
  by_cases hslash : isAbsolute raw = true
  · have hback : startsBackslash raw = false := by
      obtain ⟨cs, hcs⟩ := PurePath.isAbsolute_iff.mp hslash
      rw [← Bool.not_eq_true, startsBackslash_iff, hcs]
      rintro ⟨cs', h⟩
      cases h
    rw [if_pos hslash]
    have hparts : withoutUps ⟨.relative, (PurePath.of (slashed raw)).parts⟩ = ⟨.relative, absoluteParts raw⟩ := by
      simp only [withoutUps, PurePath.of, absoluteParts]
    unfold relativeToRoot
    split
    · exact Or.inr (Or.inl ⟨congrArg Except.ok hparts, hback⟩)
    · exact Or.inl ⟨_, rfl, hback⟩
  · rw [if_neg hslash, Except.map, withoutUps_of]
    rw [Bool.not_eq_true] at hslash
    have habsolute := isAbsolute_slashed hslash
    cases hback : startsBackslash raw with
    | false =>
      have hanchor : anchorOf (slashed raw) = .relative := PurePath.anchorOf_relative.mpr (habsolute.trans hback)
      exact Or.inr (Or.inl ⟨by rw [hanchor], rfl⟩)
    | true =>
      have hanchor : anchorOf (slashed raw) ≠ .relative := by
        rw [Ne, PurePath.anchorOf_relative, habsolute, hback]
        rintro ⟨⟩
      exact Or.inr (Or.inr ⟨anchorOf (slashed raw), hanchor, rfl, rfl⟩)

theorem destination_absolute {anchor : Anchor} (h : anchor ≠ .relative) (workspace parts : List String) :
    destination workspace ⟨anchor, parts⟩ = parts := by
  cases anchor with
  | relative => exact absurd rfl h
  | root => rfl
  | doubleRoot => rfl

/-! ## One file -/

theorem mem_makeParents {m : Machine} {t : FileTree} {dest q : List String} : q ∈ (makeParents m t dest).made ↔
    m.unusable dest.dropLast = false ∧
      q ∈ FileTree.passed m.refusesDirectory t (FileTree.ancestors dest) ∧ t q = none :=
  FileTree.mem_mkdirs_iff _ q

theorem writable_iff {m : Machine} {t : FileTree} {dest : List String} : Writable m t dest ↔
    ¬ ((makeParents m t dest).done = false ∨ (makeParents m t dest).tree dest = some .directory ∨
      m.refusesFile dest = true) := by
  have hself : dest ∉ (makeParents m t dest).made := fun h =>
    FileTree.ne_of_mem_ancestors (List.takeWhile_subset _ (mem_makeParents.mp h).2.1) rfl
  have htree : (makeParents m t dest).tree dest = t dest := (FileTree.mkdirs_tree _ dest).trans (if_neg hself)
  rw [htree, not_or, not_or, Bool.not_eq_false, Bool.not_eq_true]
  unfold makeParents
  rw [FileTree.mkdirs_done_iff]
  exact ⟨fun h => ⟨⟨h.usable, h.way⟩, h.free, h.allowed⟩, fun h => ⟨h.1.1, h.1.2, h.2.1, h.2.2⟩⟩

theorem storeFile_eq {m : Machine} {workspace : List String} {t : FileTree} {file : UploadFile} {path : PurePath}
    (hpath : safeRelPath file.rawFilename = .ok path) {dest : List String} (hdest : destination workspace path = dest) :
    (storeFile m workspace t file).made = (makeParents m t dest).made ∧
      (Writable m t dest → (storeFile m workspace t file).opened = some (dest, path.text)) ∧
      (¬ Writable m t dest → (storeFile m workspace t file).opened = none) := by
  unfold storeFile
  simp only [hpath, hdest]
  split_ifs with hfails
  · exact ⟨rfl, fun h => absurd hfails (writable_iff.mp h), fun _ => rfl⟩
  · exact ⟨rfl, fun _ => rfl, fun h => absurd (writable_iff.mpr hfails) h⟩

theorem prefix_of_mem_ancestors {p q : List String} (h : q ∈ FileTree.ancestors p) : q <+: p :=
  (List.mem_inits q p).mp (List.dropLast_subset _ h)

/-- What is missing on the way to a path in the workspace is missing in the workspace. -/
theorem strictlyInside_of_missing {workspace rest q : List String} {t : FileTree} (hthere : WorkspaceThere workspace t)
    (hq : q <+: workspace ++ rest) (hnone : t q = none) : StrictlyInside workspace q := by
  have hnot : ¬ q <+: workspace := fun h => by
    rw [hthere q h] at hnone
    cases hnone
  rcases List.prefix_or_prefix_of_prefix hq (List.prefix_append workspace rest) with h | h
  · exact absurd h hnot
  · refine ⟨h, ?_⟩
    rintro rfl
    exact hnot List.prefix_rfl

theorem contained_of_relative {m : Machine} {workspace : List String} {t : FileTree} {file : UploadFile}
    (hthere : WorkspaceThere workspace t)
    (hpath : safeRelPath file.rawFilename = .ok ⟨.relative, absoluteParts file.rawFilename⟩) :
    Contained workspace (storeFile m workspace t file) := by
  have hplain := plain_absoluteParts file.rawFilename
  generalize absoluteParts file.rawFilename = parts at hpath hplain
  have hnames : ∀ name ∈ parts, PurePath.IsName name := fun name hname =>
    ⟨(hplain name hname).1, (hplain name hname).2.1, (hplain name hname).2.2.2⟩
  have hdest : destination workspace ⟨.relative, parts⟩ = workspace ++ parts := rfl
  obtain ⟨hmade, hopen, hshut⟩ := storeFile_eq (m := m) (t := t) hpath hdest
  refine ⟨?_, ?_⟩
  · rw [hmade]
    intro q hq
    obtain ⟨_, hpassed, hnone⟩ := mem_makeParents.mp hq
    exact strictlyInside_of_missing hthere (prefix_of_mem_ancestors (List.takeWhile_subset _ hpassed)) hnone
  · intro p name hopened
    by_cases hwritable : Writable m t (workspace ++ parts)
    · rw [hopen hwritable] at hopened
      obtain ⟨rfl, rfl⟩ := Prod.mk.inj (Option.some.inj hopened)
      have hne : parts ≠ [] := by
        rintro rfl
        rw [List.append_nil] at hwritable
        exact hwritable.free (hthere workspace List.prefix_rfl)
      have htext : PurePath.text ⟨.relative, parts⟩ = String.intercalate "/" parts := by
        unfold PurePath.text
        rw [if_neg fun h => hne h.2]
        exact String.empty_append
      refine ⟨?_, by rw [PurePath.pureParts_text hnames], List.prefix_append _ _, fun h => hne ?_⟩
      · rw [htext]
        exact isAbsolute_intercalate hne fun name hname => ⟨(hplain name hname).1, (hplain name hname).2.2.2⟩
      · exact List.append_right_eq_self.mp h
    · rw [hshut hwritable] at hopened
      cases hopened

theorem contained_iff {m : Machine} {workspace : List String} {t : FileTree} {file : UploadFile}
    (hthere : WorkspaceThere workspace t) :
    Contained workspace (storeFile m workspace t file) ↔ StepOk m workspace t file := by
  unfold StepOk
  rcases safeRelPath_cases file.rawFilename with ⟨e, hpath, hback⟩ | ⟨hpath, hback⟩ | ⟨anchor, hanchor, hpath, hback⟩
  · rw [hback]
    refine iff_of_true ?_ (by rintro ⟨⟩)
    unfold storeFile
    rw [hpath]
    exact ⟨fun _ hmade => (by cases hmade), fun _ _ hopen => (by cases hopen)⟩
  · rw [hback]
    exact iff_of_true (contained_of_relative hthere hpath) (by rintro ⟨⟩)
  · obtain ⟨hmade, hopen, hshut⟩ := storeFile_eq (m := m) (t := t) hpath
      (destination_absolute hanchor workspace _)
    constructor
    · intro h _
      refine ⟨fun hwritable => ?_, fun husable q hq hnone => h.made q ?_⟩
      · have hrelative := (h.opened _ _ (hopen hwritable)).1
        rw [PurePath.isAbsolute_text hanchor] at hrelative
        cases hrelative
      · rw [hmade]
        exact mem_makeParents.mpr ⟨husable, hq, hnone⟩
    · intro h
      obtain ⟨hshutOut, hmissing⟩ := h hback
      refine ⟨fun q hq => ?_, fun p name hopened => ?_⟩
      · rw [hmade] at hq
        obtain ⟨husable, hpassed, hnone⟩ := mem_makeParents.mp hq
        exact hmissing husable q hpassed hnone
      · rw [hshut hshutOut] at hopened
        cases hopened

/-- The disk changes only where something was made or opened. -/
theorem storeFile_frame (m : Machine) (workspace : List String) (t : FileTree) (file : UploadFile) {q : List String}
    (hmade : q ∉ (storeFile m workspace t file).made)
    (hopened : ∀ name, (storeFile m workspace t file).opened ≠ some (q, name)) :
    (storeFile m workspace t file).disk q = t q := by
  unfold storeFile at hmade hopened ⊢
  cases hpath : safeRelPath file.rawFilename with
  | error e => rfl
  | ok path =>
    simp only [hpath] at hmade hopened ⊢
    split_ifs at hmade hopened ⊢ with hfails
    · exact (FileTree.mkdirs_tree _ q).trans (if_neg hmade)
    · have hne : q ≠ destination workspace path := by
        rintro rfl
        exact hopened path.text rfl
      exact (Function.update_of_ne hne _ _).trans ((FileTree.mkdirs_tree _ q).trans (if_neg hmade))

theorem storeFile_directory (m : Machine) (workspace : List String) {t : FileTree} (file : UploadFile)
    {q : List String} (h : t q = some .directory) :
    (storeFile m workspace t file).disk q = some .directory := by
  have hwalk : ∀ dest, (makeParents m t dest).tree q = some .directory := fun dest =>
    FileTree.mkdirs_directory _ h
  unfold storeFile
  cases hpath : safeRelPath file.rawFilename with
  | error e => exact h
  | ok path =>
    simp only
    split_ifs with hfails
    · exact hwalk _
    · have hne : q ≠ destination workspace path := by
        rintro rfl
        exact hfails (Or.inr (Or.inl (hwalk _)))
      exact (Function.update_of_ne hne _ _).trans (hwalk _)

/-! ## All files -/

theorem workspaceThere_step {m : Machine} {workspace : List String} {t t' : FileTree} {file : UploadFile}
    (hthere : WorkspaceThere workspace t) (h : step m workspace t file = some t') : WorkspaceThere workspace t' := by
  intro q hq
  unfold step at h
  simp only at h
  split_ifs at h
  cases h
  exact storeFile_directory m workspace file (hthere q hq)

theorem storeFiles_contained_iff {m : Machine} {workspace : List String} {t : FileTree} {files : List UploadFile}
    (hthere : WorkspaceThere workspace t) :
    (∀ s ∈ storeFiles m workspace t files, Contained workspace s) ↔
      Guarded (step m workspace) (StepOk m workspace) t files := by
  induction files generalizing t with
  | nil => exact iff_of_true nofun True.intro
  | cons file files ih =>
    unfold storeFiles
    rw [List.forall_mem_cons, contained_iff hthere]
    refine and_congr_right fun _ => ?_
    cases hcomplete : (storeFile m workspace t file).complete with
    | false =>
      have hstep : step m workspace t file = none := by simp [step, hcomplete]
      rw [hstep]
      exact iff_of_true nofun nofun
    | true =>
      have hstep : step m workspace t file = some (storeFile m workspace t file).disk := by simp [step, hcomplete]
      rw [hstep, if_pos rfl, ih (workspaceThere_step hthere hstep)]
      exact ⟨fun h t' ht' => Option.some.inj ht' ▸ h, fun h => h _ rfl⟩

theorem workspaceThere_makeWorkspace {m : Machine} {workspace : List String} {t : FileTree}
    (h : (makeWorkspace m workspace t).done = true) : WorkspaceThere workspace (makeWorkspace m workspace t).tree :=
  fun q hq => FileTree.directory_of_mkdirs h ((List.mem_inits q workspace).mpr hq)

/-- Uploaded files and the directories made for them are contained in the workspace exactly when no file that is
reached has a name with a backslash in front, unless that name leads to nothing. -/
theorem uploads_contained_iff (m : Machine) (workspace : List String) (t : FileTree) (files : List UploadFile) :
    (∀ s ∈ uploadFilesToWorkspace m workspace t files, Contained workspace s) ↔
      ((makeWorkspace m workspace t).done = true →
        Guarded (step m workspace) (StepOk m workspace) (makeWorkspace m workspace t).tree files) := by
  unfold uploadFilesToWorkspace
  simp only
  by_cases hdone : (makeWorkspace m workspace t).done = true
  · rw [if_pos hdone, storeFiles_contained_iff (workspaceThere_makeWorkspace hdone)]
    exact ⟨fun h _ => h, fun h => h hdone⟩
  · rw [if_neg hdone]
    exact iff_of_true nofun fun h => absurd h hdone

/-- A machine that refuses nothing. -/
def openMachine : Machine := ⟨fun _ => false, fun _ => false, fun _ => false, fun _ content => (content, true)⟩

/-- The file is created in `/etc`. -/
theorem backslash_escapes : ¬ ∀ s ∈ uploadFilesToWorkspace openMachine ["srv", "t_acme", "s_s1"] (fun _ => none)
    [⟨some "\\etc\\cron.d", [0x2a]⟩], Contained ["srv", "t_acme", "s_s1"] s := by
  intro h
  have hlog : (uploadFilesToWorkspace openMachine ["srv", "t_acme", "s_s1"] (fun _ => none)
      [⟨some "\\etc\\cron.d", [0x2a]⟩]).map Stored.opened = [some (["etc", "cron.d"], "/etc/cron.d")] := by
    decide +kernel
  obtain ⟨s, hs, hopened⟩ := List.mem_map.mp (hlog ▸ List.mem_singleton_self _)
  exact absurd ((h s hs).opened _ _ hopened).1 (by decide)

end KernelRuntime.Uploads
