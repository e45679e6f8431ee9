import KernelRuntime.Foundations.Execution
import KernelRuntime.Storage.Mount

/-! # What the file operations change

One operation touches the entry of one path. Reading and deleting leave the disk alone; writing stores
the change of its path and the state file, and nothing else. -/

namespace KernelRuntime.Gvfs
set_option autoImplicit false

/-- A call, with the time at which it runs. -/
inductive Op where
  | read (path : String) (load : Bool) (now : ℕ)
  | write (path : String) (content : Bytes) (now : ℕ)
  | delete (path : String) (now : ℕ)
deriving DecidableEq

def Op.path : Op → String
  | .read path _ _ => path
  | .write path _ _ => path
  | .delete path _ => path

/-- The state that an operation leaves, whether it returns or raises. -/
def step (lib : Library) (storagePath : List String) (s : State) : Op → State
  | .read path load now => (readFile storagePath now s path load).2
  | .write path content now => (writeFile lib storagePath now s path content).2
  | .delete path now => (deleteFile now s path).2

/-! ## Paths of the repository -/

/-- A path relative to the repository, without `.` and `..`. -/
def RelativePath (path : String) : Prop := ∀ name ∈ pathNames path, IsPlain name

instance (path : String) : Decidable (RelativePath path) :=
  inferInstanceAs (Decidable (∀ name ∈ pathNames path, IsPlain name))

theorem pathNames_injective {p q : String} (h : pathNames p = pathNames q) : p = q := by
  unfold pathNames at h
  have hchars : p.toList.splitOn '/' = q.toList.splitOn '/' :=
    (List.map_injective_iff.mpr fun a b hab => by
      simpa using congrArg String.toList hab) h
  have hp : ['/'].intercalate (p.toList.splitOn '/') = p.toList := List.intercalate_splitOn '/'
  rw [hchars, List.intercalate_splitOn] at hp
  exact String.toList_inj.mp hp.symm

theorem RelativePath.not_absolute {path : String} (h : RelativePath path) : isAbsolute path = false := by
  unfold isAbsolute
  cases hchars : path.toList with
  | nil => rfl
  | cons c cs =>
    show ('/' :: []).isPrefixOf (c :: cs) = false
    rw [List.isPrefixOf, Bool.and_eq_false_iff]
    left
    by_contra hc
    have hslash : '/' = c := by simpa using hc
    subst hslash
    have hempty : "" ∈ pathNames path := by
      unfold pathNames
      rw [hchars, List.splitOn_cons_eq_if_modifyHead]
      simp
    exact (h "" hempty).1 rfl

theorem diskPath_relative (root : List String) {path : String} (h : RelativePath path) :
    diskPath root path = root ++ pathNames path := by
  unfold diskPath
  rw [h.not_absolute]
  exact foldl_walk_plain h _

theorem diskPath_injective (root : List String) {p q : String} (hp : RelativePath p)
    (hq : RelativePath q) (h : diskPath root p = diskPath root q) : p = q := by
  rw [diskPath_relative root hp, diskPath_relative root hq] at h
  exact pathNames_injective (List.append_cancel_left h)

theorem getModifiedPath_ne_stateFile (storagePath : List String) (mount : SessionMount) {path : String}
    (h : RelativePath path) : getModifiedPath storagePath mount path ≠ stateFile storagePath mount := by
  unfold getModifiedPath stateFile
  rw [diskPath_relative _ h, List.append_assoc]
  intro heq
  have hnames := List.append_cancel_left heq
  exact absurd (List.cons.inj hnames).1 (by decide)

theorem sessionDir_le_stateFile (storagePath : List String) (mount : SessionMount) :
    sessionDir storagePath mount <+: stateFile storagePath mount := List.prefix_append _ _

theorem sessionDir_le_getModifiedPath (storagePath : List String) (mount : SessionMount) {path : String}
    (h : RelativePath path) : sessionDir storagePath mount <+: getModifiedPath storagePath mount path := by
  unfold getModifiedPath
  rw [diskPath_relative _ h, List.append_assoc]
  exact List.prefix_append _ _

theorem getModifiedPath_not_above_stateFile (storagePath : List String) (mount : SessionMount)
    {path : String} (h : RelativePath path) :
    ¬ getModifiedPath storagePath mount path <+: stateFile storagePath mount := by
  unfold getModifiedPath stateFile
  rw [diskPath_relative _ h, List.append_assoc, List.prefix_append_right_inj]
  intro hle
  exact absurd (List.cons_prefix_cons.mp hle).1 (by decide)

/-- The clone and the session's directory lie apart. -/
def RootsApart (storagePath : List String) (mount : SessionMount) : Prop :=
  ¬ mount.localPath <+: sessionDir storagePath mount ∧ ¬ sessionDir storagePath mount <+: mount.localPath

theorem RootsApart.ne {storagePath : List String} {mount : SessionMount} (h : RootsApart storagePath mount)
    {path : String} (hpath : RelativePath path) {q : List String}
    (hq : sessionDir storagePath mount <+: q) : diskPath mount.localPath path ≠ q := by
  rintro rfl
  have hlocal : mount.localPath <+: diskPath mount.localPath path := by
    rw [diskPath_relative _ hpath]
    exact List.prefix_append _ _
  rcases List.prefix_or_prefix_of_prefix hlocal hq with hle | hle
  · exact h.1 hle
  · exact h.2 hle

/-! ## Writing -/

/-- The index after a write. -/
def writtenMount (lib : Library) (now : ℕ) (s : State) (path : String) (content : Bytes) : SessionMount :=
  let key := normalizePath path
  { s.mount with files := s.mount.files.set key (writtenFile lib now (s.mount.files.get? key) key content) }

section Write
variable (lib : Library) (storagePath : List String) (now : ℕ) (s : State) (path : String) (content : Bytes)

/-- The path under which the change is stored. -/
def changePath : List String :=
  getModifiedPath storagePath s.mount
    (writtenFile lib now (s.mount.files.get? (normalizePath path)) (normalizePath path) content).path

/-- The disk once the change is stored, and how that ended. -/
def storedChange : Except PyError Unit × FileTree :=
  s.disk.store (changePath lib storagePath now s path content) content

/-- The disk once the state file is stored as well. -/
def storedState : Except PyError Unit × FileTree :=
  (storedChange lib storagePath now s path content).2.store (stateFile storagePath s.mount)
    (lib.dumps (saveMount lib (writtenMount lib now s path content)))

theorem writeFile_eq : writeFile lib storagePath now s path content =
    match (storedChange lib storagePath now s path content).1 with
    | .error e => (.error e, ⟨writtenMount lib now s path content, (storedChange lib storagePath now s path content).2⟩)
    | .ok () => ((storedState lib storagePath now s path content).1.map fun _ =>
        writtenFile lib now (s.mount.files.get? (normalizePath path)) (normalizePath path) content,
        ⟨writtenMount lib now s path content, (storedState lib storagePath now s path content).2⟩) := by
  unfold writeFile persistFileChange
  simp only
  change (Except.map _ (match (storedChange lib storagePath now s path content).1 with
      | .error e => _
      | .ok () => _ : Except PyError Unit × State).1,
    (match (storedChange lib storagePath now s path content).1 with
      | .error e => _
      | .ok () => _ : Except PyError Unit × State).2) = _
  cases (storedChange lib storagePath now s path content).1 with
  | error e => rfl
  | ok u => rfl

theorem writeFile_mount :
    (writeFile lib storagePath now s path content).2.mount = writtenMount lib now s path content := by
  rw [writeFile_eq]
  cases (storedChange lib storagePath now s path content).1 with
  | error e => rfl
  | ok u => rfl

theorem writeFile_get? (q : String) : (writeFile lib storagePath now s path content).2.mount.files.get? q =
    if q = normalizePath path then
      some (writtenFile lib now (s.mount.files.get? (normalizePath path)) (normalizePath path) content)
    else s.mount.files.get? q := by
  rw [writeFile_mount]
  exact OrderedDict.get?_set _ _ _ _

theorem getModifiedPath_writeFile (q : String) :
    getModifiedPath storagePath (writeFile lib storagePath now s path content).2.mount q =
      getModifiedPath storagePath s.mount q := by
  rw [writeFile_mount]
  rfl

theorem writeFile_disk : (writeFile lib storagePath now s path content).2.disk =
      (storedChange lib storagePath now s path content).2 ∨
    (writeFile lib storagePath now s path content).2.disk =
      (storedState lib storagePath now s path content).2 := by
  rw [writeFile_eq]
  cases (storedChange lib storagePath now s path content).1 with
  | error e => exact Or.inl rfl
  | ok u => exact Or.inr rfl

theorem writeFile_contentAt {q : List String} (hchange : q ≠ changePath lib storagePath now s path content)
    (hstate : q ≠ stateFile storagePath s.mount) :
    (writeFile lib storagePath now s path content).2.disk.contentAt q = s.disk.contentAt q := by
  have hstored := FileTree.contentAt_store_ne s.disk content hchange
  rcases writeFile_disk lib storagePath now s path content with hdisk | hdisk
  · rw [hdisk]
    exact hstored
  · rw [hdisk]
    exact (FileTree.contentAt_store_ne _ _ hstate).trans hstored

theorem writeFile_frame {q : List String} (hchange : ¬ q <+: changePath lib storagePath now s path content)
    (hstate : ¬ q <+: stateFile storagePath s.mount) :
    (writeFile lib storagePath now s path content).2.disk q = s.disk q := by
  have hstored := FileTree.store_frame s.disk content hchange
  rcases writeFile_disk lib storagePath now s path content with hdisk | hdisk
  · rw [hdisk]
    exact hstored
  · rw [hdisk]
    exact (FileTree.store_frame _ _ hstate).trans hstored

theorem writeFile_ne_none {q : List String} (h : s.disk q ≠ none) :
    (writeFile lib storagePath now s path content).2.disk q ≠ none := by
  have hstored := FileTree.store_ne_none s.disk
    (p := changePath lib storagePath now s path content) content h
  rcases writeFile_disk lib storagePath now s path content with hdisk | hdisk
  · rw [hdisk]
    exact hstored
  · rw [hdisk]
    exact FileTree.store_ne_none _ _ hstored

/-- A write that completes leaves its content and the state of the index on the disk. -/
theorem writeFile_ok {vfile : VirtualFile} (h : (writeFile lib storagePath now s path content).1 = .ok vfile)
    (hne : changePath lib storagePath now s path content ≠ stateFile storagePath s.mount) :
    (writeFile lib storagePath now s path content).2.disk.contentAt (changePath lib storagePath now s path content) =
        some content ∧
      (writeFile lib storagePath now s path content).2.disk.contentAt (stateFile storagePath s.mount) =
        some (lib.dumps (saveMount lib (writtenMount lib now s path content))) := by
  rw [writeFile_eq] at h ⊢
  cases hchange : (storedChange lib storagePath now s path content).1 with
  | error e =>
    rw [hchange] at h
    cases h
  | ok u =>
    rw [hchange] at h
    have hcontent := FileTree.contentAt_store_self (Prod.ext hchange rfl :
      s.disk.store (changePath lib storagePath now s path content) content = (.ok (), _))
    cases hstate : (storedState lib storagePath now s path content).1 with
    | error e =>
      simp only [hstate] at h
      cases h
    | ok u =>
      exact ⟨(FileTree.contentAt_store_ne _ _ hne).trans hcontent,
        FileTree.contentAt_store_self (Prod.ext hstate rfl)⟩

/-- The change of a write that completes is there, wherever it was stored. -/
theorem writeFile_present {vfile : VirtualFile} (h : (writeFile lib storagePath now s path content).1 = .ok vfile) :
    (writeFile lib storagePath now s path content).2.disk (changePath lib storagePath now s path content) ≠ none := by
  rw [writeFile_eq] at h ⊢
  cases hchange : (storedChange lib storagePath now s path content).1 with
  | error e =>
    rw [hchange] at h
    cases h
  | ok u =>
    have hcontent := FileTree.contentAt_store_self (Prod.ext hchange rfl :
      s.disk.store (changePath lib storagePath now s path content) content = (.ok (), _))
    have hthere := FileTree.contentAt_eq_some_iff.mp hcontent
    exact FileTree.store_ne_none _ _ fun hnone => by cases hthere.symm.trans hnone

end Write

/-! ## Reading and deleting -/

theorem deleteFile_frame (now : ℕ) (s : State) (path : String) : (deleteFile now s path).2.disk = s.disk ∧
    (deleteFile now s path).2.mount.localPath = s.mount.localPath ∧
    (deleteFile now s path).2.mount.sessionId = s.mount.sessionId := by
  unfold deleteFile
  simp only
  cases s.mount.files.get? (normalizePath path) with
  | some vfile =>
    simp only
    split_ifs
    · exact ⟨rfl, rfl, rfl⟩
    · exact ⟨rfl, rfl, rfl⟩
  | none => exact ⟨rfl, rfl, rfl⟩

theorem getModifiedPath_deleteFile (storagePath : List String) (now : ℕ) (s : State) (path q : String) :
    getModifiedPath storagePath (deleteFile now s path).2.mount q = getModifiedPath storagePath s.mount q := by
  unfold getModifiedPath sessionDir
  rw [(deleteFile_frame now s path).2.2]

theorem deleteFile_get? (now : ℕ) (s : State) (path k : String) :
    (deleteFile now s path).2.mount.files.get? k =
      if k = normalizePath path then
        (s.mount.files.get? k).bind fun vfile =>
          if vfile.status = .added then none
          else some { vfile with status := .deleted, content := none, modifiedAt := now }
      else s.mount.files.get? k := by
  unfold deleteFile
  simp only
  cases hentry : s.mount.files.get? (normalizePath path) with
  | none =>
    split_ifs with hk
    · rw [hk, hentry]
      rfl
    · rfl
  | some vfile =>
    simp only
    by_cases hadded : vfile.status = .added
    · rw [if_pos hadded]
      show (s.mount.files.erase (normalizePath path)).get? k = _
      rw [OrderedDict.get?_erase]
      split_ifs with hk
      · rw [hk, hentry, Option.bind_some, if_pos hadded]
      · rfl
    · rw [if_neg hadded]
      show (s.mount.files.set (normalizePath path) _).get? k = _
      rw [OrderedDict.get?_set]
      split_ifs with hk
      · rw [hk, hentry, Option.bind_some, if_neg hadded]
      · rfl

end KernelRuntime.Gvfs
