import KernelRuntime.Storage.Operations

/-! # The overlay as a map

A mount shows the files of HEAD with the changes of the session over them: a map from paths to
contents. `Represents` ties the index and the disk to that map; reading through the index gives what
the map holds as long as no step meets one of the cases in which the code loses track. -/

namespace KernelRuntime.Gvfs
set_option autoImplicit false

/-! ## The map -/

/-- The contents by path. -/
abbrev View := String → Option Bytes

/-- What an operation means for the map. -/
def overlay (o : View) : Op → View
  | .read _ _ _ => o
  | .write path content _ => Function.update o path (some content)
  | .delete path _ => Function.update o path none

/-- A fresh clone: the index is what git lists, the files of HEAD are on the disk, and nothing is
stored for the session. -/
structure Fresh (storagePath : List String) (head : View) (output : String) (s : State) : Prop where
  index : ∃ now, indexRepository now output = .ok s.mount.files
  checkout : ∀ path content, RelativePath path → head path = some content →
    s.disk.contentAt (diskPath s.mount.localPath path) = some content
  noChanges : ∀ q, sessionDir storagePath s.mount <+: q → s.disk q = none
  apart : RootsApart storagePath s.mount

/-- A state, and what the map should be there. -/
abbrev Run := State × View

/-- The state and the map move together. -/
def runStep (lib : Library) (storagePath : List String) (r : Run) (op : Op) : Option Run :=
  some (step lib storagePath r.1 op, overlay r.2 op)

/-- `read_file(path, load_content=True)` gives what the map has: the content with its length, or
`None`. -/
def ReadsAs (storagePath : List String) (now : ℕ) (s : State) (path : String) (expected : Option Bytes) : Prop :=
  match expected with
  | some content => ∃ vfile, (readFile storagePath now s path true).1 = .ok (some vfile) ∧
      vfile.content = some content ∧ vfile.size = content.length
  | none => (readFile storagePath now s path true).1 = .ok none

/-! ## Where the code keeps track -/

/-- The path is used as it is written. -/
def PlainPath (path : String) : Prop := normalizePath path = path

/-- An entry that is read is not deleted, and one without content is a file of HEAD that no directory
of changes hides. A path without an entry is read from the clone only if it is a file of HEAD. -/
structure ReadTracked (storagePath : List String) (head : View) (s : State) (path : String) : Prop where
  plain : PlainPath path
  entry : ∀ vfile, s.mount.files.get? path = some vfile →
    vfile.status ≠ .deleted ∧ (vfile.content = none → head path ≠ none)
  noEntry : s.mount.files.get? path = none →
    s.disk.pathExists (diskPath s.mount.localPath path) = true → head path ≠ none
  visible : s.disk (getModifiedPath storagePath s.mount path) ≠ some .directory

/-- The entry of a path that is written records the length of the new content already. -/
structure WriteTracked (s : State) (path : String) (content : Bytes) : Prop where
  plain : PlainPath path
  size : ∀ vfile, s.mount.files.get? path = some vfile → vfile.size = content.length

/-- A path that is deleted and belongs to HEAD has an entry from the listing. -/
structure DeleteTracked (head : View) (s : State) (path : String) : Prop where
  plain : PlainPath path
  listed : head path ≠ none →
    ∃ vfile, s.mount.files.get? path = some vfile ∧ vfile.status ≠ .added

/-- The step meets none of the cases in which the index loses track of the map. -/
def Tracked (storagePath : List String) (head : View) (s : State) : Op → Prop
  | .read path _ _ => ReadTracked storagePath head s path
  | .write path content _ => WriteTracked s path content
  | .delete path _ => DeleteTracked head s path

/-! ## The invariant -/

/-- An entry, the map at its path, and the stored change. -/
structure EntryFits (storagePath : List String) (head o : View) (s : State) (path : String)
    (vfile : VirtualFile) : Prop where
  path_eq : vfile.path = path
  deleted : vfile.status = .deleted → o path = none ∧ vfile.content = none
  added : vfile.status = .added → vfile.content ≠ none
  loaded : ∀ content, vfile.content = some content →
    o path = some content ∧ vfile.size = content.length
  lazy : vfile.content = none → vfile.status ≠ .deleted → o path = head path ∧
    s.disk.contentAt (getModifiedPath storagePath s.mount path) = none

/-- The index and the disk represent the map. -/
structure Represents (storagePath : List String) (head : View) (r : Run) : Prop where
  apart : RootsApart storagePath r.1.mount
  checkout : ∀ path content, RelativePath path → head path = some content →
    r.1.disk.contentAt (diskPath r.1.mount.localPath path) = some content
  entry : ∀ path vfile, RelativePath path → r.1.mount.files.get? path = some vfile →
    EntryFits storagePath head r.2 r.1 path vfile
  noEntry : ∀ path, RelativePath path → r.1.mount.files.get? path = none →
    r.2 path = head path ∧ (head path ≠ none →
      r.1.disk.contentAt (getModifiedPath storagePath r.1.mount path) = none)

/-! ## Fresh mounts -/

theorem indexLines_entry {P : String → Prop} {now : ℕ} {files files' : OrderedDict String VirtualFile}
    {lines : List (List Char)} (h : indexLines now files lines = .ok files')
    (hlines : ∀ line ∈ lines, ∀ path sha, indexLine line = .ok (some (path, sha)) → P sha)
    (hfiles : ∀ path vfile, files.get? path = some vfile → ∃ sha, vfile = indexedFile now path sha ∧ P sha) :
    ∀ path vfile, files'.get? path = some vfile → ∃ sha, vfile = indexedFile now path sha ∧ P sha := by
  induction lines generalizing files with
  | nil =>
    cases h
    exact hfiles
  | cons line lines ih =>
    have hrest := fun l hl => hlines l (List.mem_cons_of_mem _ hl)
    unfold indexLines at h
    cases hline : indexLine line with
    | error e =>
      rw [hline] at h
      cases h
    | ok entry =>
      rw [hline] at h
      cases entry with
      | none => exact ih h hrest hfiles
      | some entry =>
        refine ih h hrest fun path vfile hget => ?_
        rw [OrderedDict.get?_set] at hget
        split_ifs at hget with hpath
        · cases hget
          exact ⟨entry.2, by rw [hpath], hlines line List.mem_cons_self entry.1 entry.2 hline⟩
        · exact hfiles path vfile hget

/-- The listing gives unchanged entries without content, with the names of objects that it prints. -/
theorem indexRepository_entry {P : String → Prop} {now : ℕ} {output : String}
    {files : OrderedDict String VirtualFile} (h : indexRepository now output = .ok files)
    (hlines : ∀ line ∈ outputLines output, ∀ path sha, indexLine line = .ok (some (path, sha)) → P sha)
    {path : String} {vfile : VirtualFile} (hget : files.get? path = some vfile) :
    ∃ sha, vfile = indexedFile now path sha ∧ P sha :=
  indexLines_entry h hlines (fun _ _ hnone => by cases hnone) path vfile hget

theorem Fresh.represents {storagePath : List String} {head : View} {output : String} {s : State}
    (h : Fresh storagePath head output s) : Represents storagePath head (s, head) where
  apart := h.apart
  checkout := h.checkout
  entry := by
    intro path vfile hpath hget
    obtain ⟨now, hindex⟩ := h.index
    obtain ⟨sha, rfl, -⟩ := indexRepository_entry hindex (fun _ _ _ _ _ => True.intro) hget
    refine ⟨rfl, nofun, nofun, nofun, fun _ _ => ⟨rfl, ?_⟩⟩
    unfold FileTree.contentAt
    rw [h.noChanges _ (sessionDir_le_getModifiedPath storagePath s.mount hpath)]
  noEntry := by
    intro path hpath _
    refine ⟨rfl, fun _ => ?_⟩
    unfold FileTree.contentAt
    rw [h.noChanges _ (sessionDir_le_getModifiedPath storagePath s.mount hpath)]

/-! ## Steps -/

section Steps
variable {lib : Library} {storagePath : List String} {head o : View} {now : ℕ} {s : State}

/-- What is loaded for a path that was not written yet comes from the clone. -/
theorem loadContent_from_clone {path : String} {vfile : VirtualFile} (hkey : vfile.path = path)
    (hvisible : s.disk (getModifiedPath storagePath s.mount path) ≠ some .directory)
    (hstored : s.disk.contentAt (getModifiedPath storagePath s.mount path) = none) {content : Bytes}
    (hcheckout : s.disk.contentAt (diskPath s.mount.localPath path) = some content) :
    loadContent storagePath s vfile = .ok { vfile with content := some content, headContent := some content,
                                                       headSha := some vfile.sha, size := content.length } := by
  have hnothing : s.disk.pathExists (getModifiedPath storagePath s.mount path) = false := by
    unfold FileTree.pathExists
    unfold FileTree.contentAt at hstored
    cases hnode : s.disk (getModifiedPath storagePath s.mount path) with
    | none => rfl
    | some node =>
      cases node with
      | directory => exact absurd hnode hvisible
      | file content =>
        rw [hnode] at hstored
        cases hstored
  have hthere : s.disk.pathExists (diskPath s.mount.localPath path) = true := by
    unfold FileTree.pathExists
    rw [FileTree.contentAt_eq_some_iff.mp hcheckout]
    rfl
  unfold loadContent
  simp only [hkey]
  rw [if_neg (by rw [hnothing]; decide), if_pos hthere, FileTree.read_eq_ok_iff.mpr hcheckout]
  rfl

theorem EntryFits.congr {path : String} {vfile : VirtualFile} (h : EntryFits storagePath head o s path vfile)
    {o' : View} {s' : State} (hview : o' path = o path)
    (hstored : s'.disk.contentAt (getModifiedPath storagePath s'.mount path) =
      s.disk.contentAt (getModifiedPath storagePath s.mount path)) :
    EntryFits storagePath head o' s' path vfile where
  path_eq := h.path_eq
  deleted := hview ▸ h.deleted
  added := h.added
  loaded := hview ▸ h.loaded
  lazy := by
    rw [hview, hstored]
    exact h.lazy

theorem writtenFile_spec (lib : Library) (now : ℕ) (entry : Option VirtualFile) (path : String) (content : Bytes)
    (hkey : ∀ vfile, entry = some vfile → vfile.path = path) :
    (writtenFile lib now entry path content).path = path ∧
      (writtenFile lib now entry path content).content = some content ∧
      (writtenFile lib now entry path content).status ≠ .deleted := by
  cases entry with
  | none => exact ⟨rfl, rfl, by simp [writtenFile]⟩
  | some vfile =>
    refine ⟨hkey vfile rfl, rfl, ?_⟩
    unfold writtenFile
    simp only
    split_ifs <;> decide

section Write
variable (lib : Library) (storagePath : List String) (now : ℕ) (s : State) (path : String) (content : Bytes)

/-- A content is stored under the path of its entry. -/
theorem changePath_eq (hkey : ∀ vfile, s.mount.files.get? (normalizePath path) = some vfile →
    vfile.path = normalizePath path) :
    changePath lib storagePath now s path content = getModifiedPath storagePath s.mount (normalizePath path) := by
  unfold changePath
  rw [(writtenFile_spec lib now _ _ content hkey).1]

/-- What is stored for the other paths stays. -/
theorem writeFile_stored (hkey : ∀ vfile, s.mount.files.get? (normalizePath path) = some vfile →
    vfile.path = normalizePath path) (hpath : RelativePath (normalizePath path)) {q : String} (hq : RelativePath q)
    (hne : q ≠ normalizePath path) :
    (writeFile lib storagePath now s path content).2.disk.contentAt
        (getModifiedPath storagePath (writeFile lib storagePath now s path content).2.mount q) =
      s.disk.contentAt (getModifiedPath storagePath s.mount q) := by
  rw [getModifiedPath_writeFile]
  refine writeFile_contentAt lib storagePath now s path content ?_ (getModifiedPath_ne_stateFile storagePath s.mount hq)
  rw [changePath_eq lib storagePath now s path content hkey]
  exact fun heq => hne (diskPath_injective _ hq hpath heq)

/-- So does the clone. -/
theorem writeFile_checkout (hkey : ∀ vfile, s.mount.files.get? (normalizePath path) = some vfile →
    vfile.path = normalizePath path) (hpath : RelativePath (normalizePath path))
    (hapart : RootsApart storagePath s.mount) {q : String} (hq : RelativePath q) :
    (writeFile lib storagePath now s path content).2.disk.contentAt (diskPath s.mount.localPath q) =
      s.disk.contentAt (diskPath s.mount.localPath q) := by
  refine writeFile_contentAt lib storagePath now s path content ?_ ?_
  · rw [changePath_eq lib storagePath now s path content hkey]
    exact hapart.ne hq (sessionDir_le_getModifiedPath storagePath s.mount hpath)
  · exact hapart.ne hq (sessionDir_le_stateFile storagePath s.mount)

end Write

/-- **A tracked write.** -/
theorem Represents.write (h : Represents storagePath head (s, o)) {path : String} {content : Bytes}
    (hpath : RelativePath path) (htracked : WriteTracked s path content) :
    Represents storagePath head ((writeFile lib storagePath now s path content).2,
      Function.update o path (some content)) := by
  have hkey : ∀ vfile, s.mount.files.get? path = some vfile → vfile.path = path :=
    fun vfile hget => (h.entry path vfile hpath hget).path_eq
  obtain ⟨hwpath, hwcontent, hwstatus⟩ := writtenFile_spec lib now (s.mount.files.get? path) path content hkey
  have hmount := writeFile_mount lib storagePath now s path content
  have hplain : normalizePath path = path := htracked.plain
  have hget := writeFile_get? lib storagePath now s path content
  have hstored := fun q => writeFile_stored lib storagePath now s path content (q := q)
  have hcheckout := fun q => writeFile_checkout lib storagePath now s path content (q := q)
  rw [hplain] at hget hstored hcheckout
  refine ⟨?_, ?_, ?_, ?_⟩
  · simp only [hmount]
    exact h.apart
  · intro q c hq hhead
    simp only [hmount]
    exact (hcheckout q hkey hpath h.apart hq).trans (h.checkout q c hq hhead)
  · intro q vfile hq hentry
    simp only at hentry ⊢
    rw [hget] at hentry
    split_ifs at hentry with hqp
    · subst hqp
      cases hentry
      refine ⟨hwpath, fun hdeleted => absurd hdeleted hwstatus, fun _ => by rw [hwcontent]; rintro ⟨⟩,
        ?_, fun hnone => by rw [hwcontent] at hnone; cases hnone⟩
      intro c hc
      rw [hwcontent] at hc
      cases hc
      refine ⟨Function.update_self _ _ _, ?_⟩
      cases hold : s.mount.files.get? q with
      | none => rfl
      | some vfile => exact htracked.size vfile hold
    · exact (h.entry q vfile hq hentry).congr (Function.update_of_ne hqp _ _) (hstored q hkey hpath hq hqp)
  · intro q hq hnone
    simp only at hnone ⊢
    rw [hget] at hnone
    split_ifs at hnone with hqp
    rw [Function.update_of_ne hqp, hstored q hkey hpath hq hqp]
    exact h.noEntry q hq hnone

/-- **A tracked deletion.** -/
theorem Represents.delete (h : Represents storagePath head (s, o)) {path : String}
    (htracked : DeleteTracked head s path) :
    Represents storagePath head ((deleteFile now s path).2, Function.update o path none) := by
  obtain ⟨hdisk, hlocal, hsession⟩ := deleteFile_frame now s path
  refine ⟨?_, ?_, ?_, ?_⟩
  · unfold RootsApart sessionDir
    simp only [hlocal, hsession]
    exact h.apart
  · intro q c hq hhead
    simp only [hdisk, hlocal]
    exact h.checkout q c hq hhead
  · intro q vfile hq hentry
    simp only at hentry ⊢
    rw [deleteFile_get?, htracked.plain] at hentry
    split_ifs at hentry with hqp
    · subst hqp
      obtain ⟨old, hold, hentry⟩ := Option.bind_eq_some_iff.mp hentry
      split_ifs at hentry with hadded
      cases hentry
      exact ⟨(h.entry q old hq hold).path_eq, fun _ => ⟨Function.update_self _ _ _, rfl⟩, by rintro ⟨⟩,
        fun _ hloaded => (by cases hloaded), fun _ hstatus => absurd rfl hstatus⟩
    · refine (h.entry q vfile hq hentry).congr (Function.update_of_ne hqp _ _) ?_
      rw [getModifiedPath_deleteFile, hdisk]
  · intro q hq hnone
    simp only at hnone ⊢
    rw [deleteFile_get?, htracked.plain] at hnone
    rw [getModifiedPath_deleteFile, hdisk]
    split_ifs at hnone with hqp
    · subst hqp
      have hhead : head q = none := by
        by_contra hne
        obtain ⟨vfile, hget, hadded⟩ := htracked.listed hne
        rw [hget, Option.bind_some, if_neg hadded] at hnone
        cases hnone
      rw [Function.update_self]
      exact ⟨hhead.symm, fun hne => absurd hhead hne⟩
    · rw [Function.update_of_ne hqp]
      exact h.noEntry q hq hnone

theorem Represents.setFile (h : Represents storagePath head (s, o)) {path : String} {vfile : VirtualFile}
    (hfits : EntryFits storagePath head o s path vfile) :
    Represents storagePath head (s.setFile path vfile, o) where
  apart := h.apart
  checkout := h.checkout
  entry := by
    intro q e hq hget
    change (s.mount.files.set path vfile).get? q = some e at hget
    rw [OrderedDict.get?_set] at hget
    split_ifs at hget with hqp
    · subst hqp
      cases hget
      exact hfits.congr rfl rfl
    · exact (h.entry q e hq hget).congr rfl rfl
  noEntry := by
    intro q hq hget
    change (s.mount.files.set path vfile).get? q = none at hget
    rw [OrderedDict.get?_set] at hget
    split_ifs at hget
    exact h.noEntry q hq hget

theorem Represents.loadEntry (h : Represents storagePath head (s, o)) {path : String}
    (hpath : RelativePath path) {vfile : VirtualFile} (hget : s.mount.files.get? path = some vfile)
    (hstatus : vfile.status ≠ .deleted) (hhead : vfile.content = none → head path ≠ none)
    (hvisible : s.disk (getModifiedPath storagePath s.mount path) ≠ some .directory) (load : Bool) :
    Represents storagePath head ((Gvfs.loadEntry storagePath s path vfile load).2, o) ∧
      (load = true → ∃ content e, o path = some content ∧
        (Gvfs.loadEntry storagePath s path vfile load).1 = .ok (some e) ∧ e.content = some content ∧
          e.size = content.length) := by
  have hfits := h.entry path vfile hpath hget
  unfold Gvfs.loadEntry
  by_cases hload : load = true ∧ vfile.content = none
  · rw [if_pos hload]
    obtain ⟨hsame, hstored⟩ := hfits.lazy hload.2 hstatus
    obtain ⟨content, hcontent⟩ := Option.ne_none_iff_exists'.mp (hhead hload.2)
    rw [loadContent_from_clone hfits.path_eq hvisible hstored (h.checkout path content hpath hcontent)]
    have hview : o path = some content := hsame.trans hcontent
    refine ⟨h.setFile ⟨hfits.path_eq, fun hdeleted => absurd hdeleted hstatus, fun _ => nofun, ?_, nofun⟩,
      fun _ => ⟨content, _, hview, rfl, rfl, rfl⟩⟩
    intro c hc
    cases hc
    exact ⟨hview, rfl⟩
  · rw [if_neg hload]
    refine ⟨h, fun hyes => ?_⟩
    cases hcontent : vfile.content with
    | none => exact absurd ⟨hyes, hcontent⟩ hload
    | some content =>
      obtain ⟨hview, hsize⟩ := hfits.loaded content hcontent
      exact ⟨content, vfile, hview, rfl, hcontent, hsize⟩

/-- **A tracked read keeps the map and shows it.** -/
theorem Represents.read (h : Represents storagePath head (s, o)) {path : String}
    (hpath : RelativePath path) (htracked : ReadTracked storagePath head s path) (load : Bool) :
    Represents storagePath head ((readFile storagePath now s path load).2, o) ∧
      (load = true → ReadsAs storagePath now s path (o path)) := by
  have hplain : normalizePath path = path := htracked.plain
  have hshow : ∀ {result : Except PyError (Option VirtualFile) × State},
      (load = true → ∃ content e, o path = some content ∧ result.1 = .ok (some e) ∧
        e.content = some content ∧ e.size = content.length) →
      readFile storagePath now s path load = result → load = true → ReadsAs storagePath now s path (o path) := by
    intro result hresult hrun hload
    obtain ⟨content, e, hview, hok, hcontent, hsize⟩ := hresult hload
    subst hload
    rw [hview]
    exact ⟨e, by rw [hrun]; exact hok, hcontent, hsize⟩
  cases hget : s.mount.files.get? path with
  | some vfile =>
    have hrun : readFile storagePath now s path load = Gvfs.loadEntry storagePath s path vfile load := by
      unfold readFile
      simp only [hplain, hget]
    obtain ⟨hstatus, hhead⟩ := htracked.entry vfile hget
    have hload := h.loadEntry hpath hget hstatus hhead htracked.visible load
    rw [hrun]
    exact ⟨hload.1, hshow hload.2 hrun⟩
  | none =>
    obtain ⟨hsame, hstored⟩ := h.noEntry path hpath hget
    by_cases hthere : s.disk.pathExists (diskPath s.mount.localPath path) = true
    · have hrun : readFile storagePath now s path load =
          Gvfs.loadEntry storagePath (s.setFile path (untrackedFile now path)) path (untrackedFile now path)
            load := by
        unfold readFile
        simp only [hplain, hget, if_pos hthere]
      have hhead := htracked.noEntry hget hthere
      have hnew : Represents storagePath head (s.setFile path (untrackedFile now path), o) :=
        h.setFile ⟨rfl, by rintro ⟨⟩, by rintro ⟨⟩, fun _ hloaded => (by cases hloaded), fun _ _ => ⟨hsame, hstored hhead⟩⟩
      have hload := hnew.loadEntry hpath (OrderedDict.get?_set_self _ _ _) (by rintro ⟨⟩) (fun _ => hhead)
        htracked.visible load
      rw [hrun]
      exact ⟨hload.1, hshow hload.2 hrun⟩
    · have hrun : ∀ load, readFile storagePath now s path load = (.ok none, s) := by
        intro load
        unfold readFile
        simp only [hplain, hget, if_neg hthere]
      rw [hrun]
      refine ⟨h, fun _ => ?_⟩
      have hhead : head path = none := by
        by_contra hne
        obtain ⟨content, hcontent⟩ := Option.ne_none_iff_exists'.mp hne
        have hfile := h.checkout path content hpath hcontent
        rw [FileTree.contentAt_eq_some_iff] at hfile
        exact hthere (by unfold FileTree.pathExists; rw [hfile]; rfl)
      have hview : o path = none := hsame.trans hhead
      rw [hview]
      show (readFile storagePath now s path true).1 = .ok none
      rw [hrun]

end Steps

/-! ## Runs -/

theorem represents_step {lib : Library} {storagePath : List String} {head : View} {r r' : Run} {op : Op}
    (h : Represents storagePath head r)
    (hok : RelativePath op.path ∧ Tracked storagePath head r.1 op)
    (hstep : runStep lib storagePath r op = some r') : Represents storagePath head r' := by
  cases hstep
  cases op with
  | read path load now => exact (h.read hok.1 hok.2 load).1
  | write path content now => exact h.write hok.1 hok.2
  | delete path now => exact h.delete hok.2

/-- The condition on the steps of a run: paths relative to the repository, none of which meets one of
the cases in which the code loses track. -/
def TrackedRun (lib : Library) (storagePath : List String) (head : View) (s : State) (ops : List Op) :
    Prop :=
  Guarded (runStep lib storagePath)
    (fun r op => RelativePath op.path ∧ Tracked storagePath head r.1 op) (s, head) ops

/-- **In every run from a fresh mount whose steps are tracked, a tracked read gives what the map
has.** -/
theorem read_refines_overlay (lib : Library) (storagePath : List String) {head : View} {output : String}
    {s : State} (hfresh : Fresh storagePath head output s) {ops : List Op} {t : State} {o : View}
    (hrun : exec (runStep lib storagePath) (s, head) ops = some (t, o))
    (htracked : TrackedRun lib storagePath head s ops) {path : String} (hpath : RelativePath path)
    (hread : ReadTracked storagePath head t path) (now : ℕ) : ReadsAs storagePath now t path (o path) := by
  have hinv : Represents storagePath head (t, o) :=
    exec_invariant (fun _ _ _ h hok hstep => represents_step h hok hstep) hfresh.represents htracked hrun
  exact (hinv.read hpath hread true).2 rfl

/-! ## A repository with one file -/

/-- `hi` and a line break. -/
def hiBytes : Bytes := [104, 105, 10]

/-- `bye` and a line break. -/
def byeBytes : Bytes := [98, 121, 101, 10]

/-- The digests of the contents that occur. -/
def noteDigest (content : Bytes) : String :=
  if content = hiBytes then "98ea6e4f216f2fb4b69fff9b3a44842c38686ca685f3f55dc48c5d3fb1107be4"
  else "abc6fd595fc079d3114d4b71a4d84b1d1d0f79df1e70f8813212f2a65d8916df"

/-- `isoformat` in the first ten seconds of 1970. -/
def secondText (time : ℕ) : String := "1970-01-01T00:00:0" ++ Nat.repr time

def ofSecondText (text : String) : Except PyError ℕ :=
  match text.toList.dropPrefix? "1970-01-01T00:00:0".toList with
  | some digits => .ok (Nat.ofDigitChars 10 digits 0)
  | none => .error ⟨.valueError, "Invalid isoformat string: '" ++ text ++ "'"⟩

theorem secondText_ne_empty (time : ℕ) : secondText time ≠ "" := by
  intro h
  have hlength := congrArg String.length h
  unfold secondText at hlength
  rw [String.length_append] at hlength
  have hstart : "1970-01-01T00:00:0".length = 18 := by decide
  rw [hstart, String.length_empty] at hlength
  omega

theorem ofSecondText_secondText (time : ℕ) : ofSecondText (secondText time) = .ok time := by
  have hdigits : (Nat.repr time).toList = Nat.toDigits 10 time := String.toList_ofList
  unfold ofSecondText secondText
  rw [String.toList_append, List.dropPrefix?_append_of_beq _ (beq_self_eq_true _), hdigits]
  exact congrArg Except.ok Nat.ofDigitChars_ten_toDigits

def noteLibrary : Library where
  sha256Hex := noteDigest
  dumps _ := []
  loads _ := .error ⟨.valueError, "Expecting value: line 1 column 1 (char 0)"⟩
  isoformat := secondText
  fromisoformat := ofSecondText
  sha256Hex_length := by
    intro content
    unfold noteDigest
    split_ifs <;> decide
  isoformat_ne_empty := secondText_ne_empty
  fromisoformat_isoformat := ofSecondText_secondText

def noteHead : View := fun path => if path = "note.txt" then some hiBytes else none

/-- What `git ls-tree` prints. -/
def noteListing : String := "100644 blob 45b983be36b73c0788dc9cbcb76cbb80fc7bb057\tnote.txt\n"

def noteDirectories : List (List String) :=
  [[], ["srv"], ["srv", "repo"], ["srv", "repo", ".git"], ["srv", "gvfs_metadata"]]

def noteDisk : FileTree := fun q =>
  if q = ["srv", "repo", "note.txt"] then some (.file hiBytes)
  else if q ∈ noteDirectories then some .directory
  else none

def noteStorage : List String := ["srv", "gvfs_metadata"]

def noteMount : State where
  mount :=
    { sessionId := "s1", repoUrl := "https://example.test/repo", branch := "main", commitSha := none,
      localPath := ["srv", "repo"], virtualRoot := "/workspace",
      files := OrderedDict.empty.set "note.txt"
        (indexedFile 0 "note.txt" "45b983be36b73c0788dc9cbcb76cbb80fc7bb057"), lastSync := some 0 }
  disk := noteDisk

theorem noteMount_fresh : Fresh noteStorage noteHead noteListing noteMount where
  index := ⟨0, rfl⟩
  checkout := by
    intro path content hpath hhead
    unfold noteHead at hhead
    split_ifs at hhead with h
    cases hhead
    subst h
    decide +kernel
  noChanges := by
    rintro q ⟨rest, rfl⟩
    show noteDisk (["srv", "gvfs_metadata", "sessions", "s1"] ++ rest) = none
    simp [noteDisk, noteDirectories]
  apart := by
    unfold RootsApart
    decide

theorem relativePath_note : RelativePath "note.txt" := by
  unfold RelativePath IsPlain
  decide +kernel

theorem relativePath_todo : RelativePath "todo.txt" := by
  unfold RelativePath IsPlain
  decide +kernel

/-- A new file is written and read. -/
theorem new_file_is_read :
    ReadsAs noteStorage 1 (step noteLibrary noteStorage noteMount (.write "todo.txt" byeBytes 0)) "todo.txt"
      (some byeBytes) := by
  have hview : overlay noteHead (.write "todo.txt" byeBytes 0) "todo.txt" = some byeBytes := by decide +kernel
  have hentry : (step noteLibrary noteStorage noteMount (.write "todo.txt" byeBytes 0)).mount.files.get?
      "todo.txt" = some ⟨"todo.txt", some byeBytes, "abc6fd595fc079d3", 4, .added, 0, none, none⟩ := by
    decide +kernel
  rw [← hview]
  refine read_refines_overlay noteLibrary noteStorage noteMount_fresh
    (show exec (runStep noteLibrary noteStorage) (noteMount, noteHead) [.write "todo.txt" byeBytes 0] = some
      (step noteLibrary noteStorage noteMount (.write "todo.txt" byeBytes 0),
        overlay noteHead (.write "todo.txt" byeBytes 0)) from rfl) ?_ relativePath_todo ?_ 1
  · refine ⟨⟨relativePath_todo, ⟨show normalizePath "todo.txt" = "todo.txt" by decide +kernel, ?_⟩⟩,
      fun _ _ => True.intro⟩
    intro vfile hget
    have hnone : noteMount.mount.files.get? "todo.txt" = none := by decide +kernel
    rw [hnone] at hget
    cases hget
  · refine ⟨show normalizePath "todo.txt" = "todo.txt" by decide +kernel, ?_, ?_, by decide +kernel⟩
    · intro vfile hget
      rw [hentry] at hget
      cases hget
      exact ⟨by decide, nofun⟩
    · intro hget
      rw [hentry] at hget
      cases hget

/-- A file of HEAD is deleted, and reading it still gives its content. -/
theorem deleted_file_is_read : ¬ ∀ (lib : Library) (storagePath : List String) (head : View)
    (output : String) (s : State) (ops : List Op) (t : State) (o : View) (path : String),
    Fresh storagePath head output s →
    (∀ op ∈ ops, RelativePath op.path ∧ ¬ "workspace/".toList <+: op.path.toList) →
    exec (runStep lib storagePath) (s, head) ops = some (t, o) →
    RelativePath path ∧ ¬ "workspace/".toList <+: path.toList →
    ∀ now, ReadsAs storagePath now t path (o path) := by
  intro h
  have hpath : RelativePath "note.txt" ∧ ¬ "workspace/".toList <+: "note.txt".toList :=
    ⟨relativePath_note, by decide +kernel⟩
  have hreads := h noteLibrary noteStorage noteHead noteListing noteMount [.delete "note.txt" 0]
    (step noteLibrary noteStorage noteMount (.delete "note.txt" 0)) (overlay noteHead (.delete "note.txt" 0))
    "note.txt" noteMount_fresh (fun op hop => by rw [List.mem_singleton.mp hop]; exact hpath) rfl hpath 1
  have hgone : overlay noteHead (.delete "note.txt" 0) "note.txt" = none := by decide +kernel
  rw [hgone] at hreads
  have hstill : ((readFile noteStorage 1 (step noteLibrary noteStorage noteMount (.delete "note.txt" 0))
      "note.txt" true).1.toOption.bind id).map VirtualFile.content = some (some hiBytes) := by decide +kernel
  have hnone : (readFile noteStorage 1 (step noteLibrary noteStorage noteMount (.delete "note.txt" 0))
      "note.txt" true).1 = .ok none := hreads
  rw [hnone] at hstill
  cases hstill

end KernelRuntime.Gvfs
