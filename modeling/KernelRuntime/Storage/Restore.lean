import KernelRuntime.Storage.Overlay

/-! # A mount that is rebuilt from the disk

A write stores its content and the state of the index; a deletion stores nothing. A mount that is
restored from the state file is the mount in memory as long as no deletion changed an entry after the
last write. -/

namespace KernelRuntime.Gvfs
set_option autoImplicit false

/-! ## What should be rebuilt -/

/-- What is compared of an entry. -/
def VirtualFile.record (vfile : VirtualFile) : FileStatus × String × Option String :=
  (vfile.status, vfile.sha, vfile.headSha)

/-- The content that `read_file` gives for a path, if it gives a file. -/
def readContent (storagePath : List String) (now : ℕ) (s : State) (path : String) :
    Except PyError (Option (Option Bytes)) :=
  (readFile storagePath now s path true).1.map fun entry => entry.map VirtualFile.content

/-- The mount of a new process, before it is restored. -/
def blankMount (mount : SessionMount) : SessionMount := { mount with files := OrderedDict.empty }

structure SameMount (storagePath : List String) (s : State) (mount : SessionMount) : Prop where
  records : ∀ path, (mount.files.get? path).map VirtualFile.record =
    (s.mount.files.get? path).map VirtualFile.record
  contents : ∀ now path, readContent storagePath now ⟨mount, s.disk⟩ path = readContent storagePath now s path

/-- The process stops, and the mount is restored from what is on the disk. -/
def Rebuilt (lib : Library) (storagePath : List String) (s : State) : Prop :=
  ∃ mount, restoreMountState lib (blankMount s.mount) s.disk (stateFile storagePath s.mount) = .ok mount ∧
    SameMount storagePath s mount

/-! ## When it is rebuilt -/

theorem eq_ok_of_toOption {α : Type} {x : Except PyError α} {a : α} (h : x.toOption = some a) : x = .ok a := by
  cases x with
  | error e => cases h
  | ok b => exact congrArg Except.ok (Option.some.inj h)

/-- `json` gives back the state that it wrote. -/
def RoundTrips (lib : Library) (mount : SessionMount) : Prop :=
  lib.loads (lib.dumps (saveMount lib mount)) = .ok (saveMount lib mount)

/-- The state file holds an index with the records of this one, whatever its times. -/
structure SavedAs (lib : Library) (storagePath : List String) (s : State) (saved : SessionMount) : Prop where
  file : ∃ text, s.disk.contentAt (stateFile storagePath s.mount) = some text ∧
    lib.loads text = .ok (saveMount lib saved)
  path_eq : ∀ path vfile, saved.files.get? path = some vfile → vfile.path = path
  records : ∀ path, (saved.files.get? path).map VirtualFile.record =
    (s.mount.files.get? path).map VirtualFile.record

def Saved (lib : Library) (storagePath : List String) (s : State) : Prop := ∃ saved, SavedAs lib storagePath s saved

/-- A path of the repository is written and the write completes. No directory of changes comes to hide a
content that was loaded from the clone. -/
structure WriteDurable (lib : Library) (storagePath : List String) (now : ℕ) (s : State) (path : String)
    (content : Bytes) : Prop where
  relative : RelativePath (normalizePath path)
  completes : ∃ vfile, (writeFile lib storagePath now s path content).1 = .ok vfile
  visible : ∀ q vfile, s.mount.files.get? q = some vfile → vfile.content ≠ none →
    ¬ FileTree.Above (getModifiedPath storagePath s.mount q)
      (getModifiedPath storagePath s.mount (normalizePath path))

/-- The state file holds the index, and the deletion changes no entry that is not deleted already. -/
structure DeleteDurable (lib : Library) (storagePath : List String) (s : State) (path : String) : Prop where
  saved : Saved lib storagePath s
  gone : ∀ vfile, s.mount.files.get? (normalizePath path) = some vfile → vfile.status = .deleted

/-- The step leaves nothing behind that is in memory only. -/
def Durable (lib : Library) (storagePath : List String) (s : State) : Op → Prop
  | .read _ _ _ => False
  | .write path content now => WriteDurable lib storagePath now s path content
  | .delete path _ => DeleteDurable lib storagePath s path

/-! ## The invariant -/

/-- The disk has a content for the path: a stored change, or a file of the clone that none hides. -/
def OnDisk (storagePath : List String) (s : State) (path : String) (content : Bytes) : Prop :=
  s.disk.contentAt (getModifiedPath storagePath s.mount path) = some content ∨
    (s.disk (getModifiedPath storagePath s.mount path) = none ∧
      s.disk.contentAt (diskPath s.mount.localPath path) = some content)

/-- Every content in memory is on the disk. -/
structure Recoverable (storagePath : List String) (s : State) : Prop where
  apart : RootsApart storagePath s.mount
  path_eq : ∀ path vfile, s.mount.files.get? path = some vfile → vfile.path = path
  onDisk : ∀ path vfile content, s.mount.files.get? path = some vfile → vfile.content = some content →
    RelativePath path ∧ OnDisk storagePath s path content

theorem Fresh.recoverable {storagePath : List String} {head : View} {output : String} {s : State}
    (h : Fresh storagePath head output s) : Recoverable storagePath s where
  apart := h.apart
  path_eq := by
    intro path vfile hget
    obtain ⟨now, hindex⟩ := h.index
    obtain ⟨sha, rfl, -⟩ := indexRepository_entry hindex (fun _ _ _ _ _ => True.intro) hget
    rfl
  onDisk := by
    intro path vfile content hget hcontent
    obtain ⟨now, hindex⟩ := h.index
    obtain ⟨sha, rfl, -⟩ := indexRepository_entry hindex (fun _ _ _ _ _ => True.intro) hget
    cases hcontent

/-! ## Restoring -/

/-- What an entry is after it was saved and restored. -/
def restoredFile (vfile : VirtualFile) : VirtualFile := { vfile with content := none, headContent := none }

theorem restoreFile_saveFile (lib : Library) (vfile : VirtualFile) :
    restoreFile lib (saveFile lib vfile) = .ok (restoredFile vfile) := by
  unfold restoreFile saveFile
  simp only [FileStatus.ofValue_value, lib.fromisoformat_isoformat]
  rfl

theorem restoreTime_isoformat (lib : Library) (time : Option ℕ) :
    restoreTime lib (time.map lib.isoformat) = .ok time := by
  cases time with
  | none => rfl
  | some time =>
    have htext : (some (lib.isoformat time)).filter (fun text => decide (text ≠ "")) = some (lib.isoformat time) :=
      Option.filter_some_pos (decide_eq_true (lib.isoformat_ne_empty time))
    unfold restoreTime
    rw [Option.map_some, htext]
    exact congrArg (Except.map some) (lib.fromisoformat_isoformat time)

/-- The loop gives each saved entry its place. -/
theorem restoreFiles_saved (lib : Library) {entries : List (String × VirtualFile)}
    (hnodup : (entries.map Prod.fst).Nodup) (hpath : ∀ e ∈ entries, e.2.path = e.1) (files : OrderedDict String VirtualFile) :
    ∃ files', restoreFiles lib files ((entries.map Prod.snd).map (saveFile lib)) = .ok files' ∧
      ∀ path, files'.get? path = ((entries.lookup path).map restoredFile).or (files.get? path) := by
  induction entries generalizing files with
  | nil => exact ⟨files, rfl, fun path => rfl⟩
  | cons e rest ih =>
    obtain ⟨hnot, hrest⟩ := List.nodup_cons.mp hnodup
    obtain ⟨files', hrun, hget⟩ := ih hrest (fun f hf => hpath f (List.mem_cons_of_mem _ hf))
      (files.set e.1 (restoredFile e.2))
    have hfirst : (restoredFile e.2).path = e.1 := hpath e List.mem_cons_self
    refine ⟨files', ?_, fun path => ?_⟩
    · rw [List.map_cons, List.map_cons, restoreFiles, restoreFile_saveFile]
      simp only [hfirst]
      exact hrun
    · rw [hget, OrderedDict.get?_set]
      by_cases hpe : path = e.1
      · have hnone : rest.lookup path = none := by
          rw [hpe, List.lookup_eq_none_iff]
          intro f hf
          exact bne_iff_ne.mpr fun heq => hnot (List.mem_map.mpr ⟨f, hf, heq.symm⟩)
        rw [hnone, if_pos hpe, hpe]
        simp [lookup_entry]
      · rw [if_neg hpe]
        simp [lookup_entry, beq_eq_false_iff_ne.mpr hpe]

/-- **A saved index is restored, without the contents.** -/
theorem restoreMountState_saved {lib : Library} {storagePath : List String} {s : State} {saved : SessionMount}
    (hfile : ∃ text, s.disk.contentAt (stateFile storagePath s.mount) = some text ∧
      lib.loads text = .ok (saveMount lib saved))
    (hpath : ∀ path vfile, saved.files.get? path = some vfile → vfile.path = path) :
    ∃ mount, restoreMountState lib (blankMount s.mount) s.disk (stateFile storagePath s.mount) = .ok mount ∧
      mount.sessionId = s.mount.sessionId ∧ mount.localPath = s.mount.localPath ∧
      ∀ path, mount.files.get? path = (saved.files.get? path).map restoredFile := by
  obtain ⟨text, hfile, hloads⟩ := hfile
  obtain ⟨files, hrun, hget⟩ := restoreFiles_saved lib saved.files.nodup
    (fun e he => hpath e.1 e.2 ((lookup_eq_some_iff saved.files.nodup _ _).mpr he)) OrderedDict.empty
  have hfiles : restoreFiles lib (blankMount s.mount).files (saveMount lib saved).files = .ok files := hrun
  have htime : restoreTime lib (saveMount lib saved).lastSync = .ok saved.lastSync :=
    restoreTime_isoformat lib saved.lastSync
  refine ⟨{ saved with sessionId := s.mount.sessionId, localPath := s.mount.localPath, files := files },
    ?_, rfl, rfl, ?_⟩
  · unfold restoreMountState
    rw [FileTree.read_eq_ok_iff.mpr hfile]
    show (lib.loads text >>= _) = _
    rw [hloads]
    show (restoreFiles lib (blankMount s.mount).files (saveMount lib saved).files >>= _) = _
    rw [hfiles]
    show (restoreTime lib (saveMount lib saved).lastSync >>= _) = _
    rw [htime]
    rfl
  · intro path
    show files.get? path = _
    rw [hget, OrderedDict.get?_empty, Option.or_none]
    rfl

/-! ## Reading the rebuilt mount -/

/-- The content that is loaded for a path. -/
def diskContent (storagePath : List String) (s : State) (path : String) : Except PyError (Option Bytes) :=
  let modifiedPath := getModifiedPath storagePath s.mount path
  let filePath := diskPath s.mount.localPath path
  if s.disk.pathExists modifiedPath then (s.disk.read modifiedPath).map some
  else if s.disk.pathExists filePath then (s.disk.read filePath).map some
  else .ok none

theorem loadContent_content (storagePath : List String) (s : State) {vfile : VirtualFile}
    (hcontent : vfile.content = none) :
    (loadContent storagePath s vfile).map VirtualFile.content = diskContent storagePath s vfile.path := by
  unfold loadContent diskContent
  simp only
  split_ifs
  · cases s.disk.read (getModifiedPath storagePath s.mount vfile.path) with
    | error e => rfl
    | ok content => rfl
  · cases s.disk.read (diskPath s.mount.localPath vfile.path) with
    | error e => rfl
    | ok content => rfl
  · rw [← hcontent]
    rfl

theorem OnDisk.diskContent {storagePath : List String} {s : State} {path : String} {content : Bytes}
    (h : OnDisk storagePath s path content) : diskContent storagePath s path = .ok (some content) := by
  have hthere : ∀ {q}, s.disk.contentAt q = some content → s.disk.pathExists q = true := by
    intro q hq
    rw [FileTree.pathExists_iff, FileTree.contentAt_eq_some_iff.mp hq]
    rintro ⟨⟩
  unfold Gvfs.diskContent
  simp only
  rcases h with hstored | ⟨hnone, hclone⟩
  · rw [if_pos (hthere hstored), FileTree.read_eq_ok_iff.mpr hstored]
    rfl
  · have hnothing : ¬ s.disk.pathExists (getModifiedPath storagePath s.mount path) = true := by
      rw [FileTree.pathExists_iff]
      exact fun hne => hne hnone
    rw [if_neg hnothing, if_pos (hthere hclone), FileTree.read_eq_ok_iff.mpr hclone]
    rfl

/-- The content of an entry that is read, from the memory or from the disk. -/
theorem loadEntry_content (storagePath : List String) (s : State) (path : String) (vfile : VirtualFile) :
    ((loadEntry storagePath s path vfile true).1.map fun entry => entry.map VirtualFile.content) =
      match vfile.content with
      | some content => .ok (some (some content))
      | none => (diskContent storagePath s vfile.path).map some := by
  unfold loadEntry
  cases hcontent : vfile.content with
  | some content =>
    rw [if_neg fun hboth => by cases hboth.2]
    exact congrArg (fun c => Except.ok (some c)) hcontent
  | none =>
    rw [if_pos ⟨rfl, rfl⟩, ← loadContent_content storagePath s hcontent]
    cases loadContent storagePath s vfile with
    | error e => rfl
    | ok loaded => rfl

theorem readContent_eq (storagePath : List String) (now : ℕ) (s : State) (path : String) :
    readContent storagePath now s path =
      match s.mount.files.get? (normalizePath path) with
      | some vfile =>
        match vfile.content with
        | some content => .ok (some (some content))
        | none => (diskContent storagePath s vfile.path).map some
      | none =>
        if s.disk.pathExists (diskPath s.mount.localPath (normalizePath path)) then
          (diskContent storagePath s (normalizePath path)).map some
        else .ok none := by
  unfold readContent readFile
  simp only
  cases s.mount.files.get? (normalizePath path) with
  | some vfile => exact loadEntry_content storagePath s _ vfile
  | none =>
    simp only
    split_ifs
    · exact loadEntry_content storagePath _ _ (untrackedFile now (normalizePath path))
    · rfl

/-- **A recoverable mount whose index is saved is rebuilt.** -/
theorem Recoverable.rebuilt {lib : Library} {storagePath : List String} {s : State}
    (h : Recoverable storagePath s) (hsaved : Saved lib storagePath s) : Rebuilt lib storagePath s := by
  obtain ⟨saved, hsaved⟩ := hsaved
  obtain ⟨mount, hrun, hsession, hlocal, hget⟩ := restoreMountState_saved hsaved.file hsaved.path_eq
  have hdisk : ∀ path, diskContent storagePath ⟨mount, s.disk⟩ path = diskContent storagePath s path := by
    intro path
    unfold diskContent getModifiedPath sessionDir
    simp only [hsession, hlocal]
  refine ⟨mount, hrun, fun path => ?_, fun now path => ?_⟩
  · rw [hget, Option.map_map, ← hsaved.records path]
    rfl
  · rw [readContent_eq, readContent_eq]
    simp only [hget, hlocal, hdisk]
    have hrecord := hsaved.records (normalizePath path)
    cases hentry : s.mount.files.get? (normalizePath path) with
    | none =>
      rw [hentry, Option.map_none, Option.map_eq_none_iff] at hrecord
      rw [hrecord]
      rfl
    | some vfile =>
      rw [hentry] at hrecord
      obtain ⟨file, hfile, -⟩ := Option.map_eq_some_iff.mp hrecord
      rw [hfile]
      show (diskContent storagePath s file.path).map some = _
      rw [hsaved.path_eq _ file hfile]
      cases hcontent : vfile.content with
      | none => simp only [hcontent, h.path_eq _ vfile hentry]
      | some content =>
        simp only [hcontent]
        rw [(h.onDisk _ vfile content hentry hcontent).2.diskContent]
        rfl

/-! ## Steps -/

section Steps
variable {lib : Library} {storagePath : List String} {now : ℕ} {s : State}

/-- **A write that completes saves the index and keeps it recoverable.** -/
theorem Recoverable.write (h : Recoverable storagePath s) {path : String} {content : Bytes}
    (hok : WriteDurable lib storagePath now s path content) :
    Recoverable storagePath (writeFile lib storagePath now s path content).2 ∧
      (RoundTrips lib (writeFile lib storagePath now s path content).2.mount →
        Saved lib storagePath (writeFile lib storagePath now s path content).2) := by
  obtain ⟨hrelative, ⟨result, hcompletes⟩, hvisible⟩ := hok
  obtain ⟨hwpath, hwcontent, -⟩ := writtenFile_spec lib now (s.mount.files.get? (normalizePath path))
    (normalizePath path) content fun vfile hget => h.path_eq _ vfile hget
  have hmount := writeFile_mount lib storagePath now s path content
  have hchange := changePath_eq lib storagePath now s path content (h.path_eq _)
  have hne : changePath lib storagePath now s path content ≠ stateFile storagePath s.mount := by
    rw [hchange]
    exact getModifiedPath_ne_stateFile storagePath s.mount hrelative
  obtain ⟨hstored, hstate⟩ := writeFile_ok lib storagePath now s path content hcompletes hne
  have hkeys : ∀ q vfile, (writeFile lib storagePath now s path content).2.mount.files.get? q = some vfile →
      vfile.path = q := by
    intro q vfile hget
    rw [writeFile_get?] at hget
    split_ifs at hget with hq
    · cases hget
      exact hwpath.trans hq.symm
    · exact h.path_eq q vfile hget
  refine ⟨⟨?_, hkeys, ?_⟩, fun hjson => ⟨_, ⟨_, ?_, hjson⟩, hkeys, fun _ => rfl⟩⟩
  · rw [hmount]
    exact h.apart
  · intro q vfile c hget hc
    unfold OnDisk
    rw [getModifiedPath_writeFile]
    rw [writeFile_get?] at hget
    split_ifs at hget with hq
    · cases hget
      rw [hwcontent] at hc
      cases hc
      rw [hq, ← hchange]
      exact ⟨hrelative, Or.inl hstored⟩
    · obtain ⟨hqrelative, hdisk⟩ := h.onDisk q vfile c hget hc
      have hqne : getModifiedPath storagePath s.mount q ≠ changePath lib storagePath now s path content := by
        rw [hchange]
        exact fun heq => hq (diskPath_injective _ hqrelative hrelative heq)
      refine ⟨hqrelative, hdisk.imp (fun hq' => ?_) fun hsource => ⟨?_, ?_⟩⟩
      · rw [writeFile_contentAt lib storagePath now s path content hqne
          (getModifiedPath_ne_stateFile storagePath s.mount hqrelative)]
        exact hq'
      · rw [writeFile_frame lib storagePath now s path content ?_
          (getModifiedPath_not_above_stateFile storagePath s.mount hqrelative)]
        · exact hsource.1
        · intro hle
          have hcontent : vfile.content ≠ none := by
            rw [hc]
            rintro ⟨⟩
          rw [hchange] at hle hqne
          exact hvisible q vfile hget hcontent ⟨hle, hqne⟩
      · rw [hmount]
        exact (writeFile_checkout lib storagePath now s path content (h.path_eq _) hrelative h.apart hqrelative).trans
          hsource.2
  · rw [hmount]
    exact hstate

/-- **A deletion that meets no live entry changes nothing that is saved.** -/
theorem Recoverable.delete (h : Recoverable storagePath s) {path : String}
    (hok : DeleteDurable lib storagePath s path) :
    Recoverable storagePath (deleteFile now s path).2 ∧ Saved lib storagePath (deleteFile now s path).2 := by
  obtain ⟨hsaved, hgone⟩ := hok
  unfold deleteFile
  simp only
  cases hentry : s.mount.files.get? (normalizePath path) with
  | none => exact ⟨h, hsaved⟩
  | some vfile =>
    have hdeleted : vfile.status = .deleted := hgone vfile hentry
    have hnotAdded : ¬ vfile.status = .added := by
      rw [hdeleted]
      rintro ⟨⟩
    simp only
    rw [if_neg hnotAdded]
    refine ⟨⟨h.apart, ?_, ?_⟩, ?_⟩
    · intro q e hget
      change (s.mount.files.set (normalizePath path) _).get? q = some e at hget
      rw [OrderedDict.get?_set] at hget
      split_ifs at hget with hq
      · cases hget
        exact (h.path_eq _ vfile hentry).trans hq.symm
      · exact h.path_eq q e hget
    · intro q e c hget hc
      change (s.mount.files.set (normalizePath path) _).get? q = some e at hget
      rw [OrderedDict.get?_set] at hget
      split_ifs at hget with hq
      · cases hget
        cases hc
      · exact h.onDisk q e c hget hc
    · obtain ⟨saved, hfile, hkeys, hrecords⟩ := hsaved
      refine ⟨saved, hfile, hkeys, fun q => (hrecords q).trans ?_⟩
      show _ = ((s.mount.files.set (normalizePath path) _).get? q).map VirtualFile.record
      rw [OrderedDict.get?_set]
      split_ifs with hq
      · rw [hq, hentry, Option.map_some, Option.map_some]
        exact congrArg some (congrArg (·, vfile.sha, vfile.headSha) hdeleted)
      · rfl

theorem Recoverable.step (h : Recoverable storagePath s) {op : Op} (hok : Durable lib storagePath s op) :
    Recoverable storagePath (Gvfs.step lib storagePath s op) ∧
      (RoundTrips lib (Gvfs.step lib storagePath s op).mount →
        Saved lib storagePath (Gvfs.step lib storagePath s op)) := by
  cases op with
  | read path load now => exact hok.elim
  | write path content now => exact h.write hok
  | delete path now => exact (h.delete hok).imp_right fun hsaved _ => hsaved

/-- A deletion that marks an entry of a saved index, or takes it out, is lost. -/
theorem deletion_not_rebuilt (now : ℕ) (hsaved : Saved lib storagePath s) {path : String} {vfile : VirtualFile}
    (hentry : s.mount.files.get? (normalizePath path) = some vfile) (hlive : vfile.status ≠ .deleted) :
    ¬ Rebuilt lib storagePath (deleteFile now s path).2 := by
  obtain ⟨hdisk, hlocal, hsession⟩ := deleteFile_frame now s path
  obtain ⟨saved, hsaved⟩ := hsaved
  have hstate : stateFile storagePath (deleteFile now s path).2.mount = stateFile storagePath s.mount := by
    unfold stateFile sessionDir
    rw [hsession]
  have hfile : ∃ text, (deleteFile now s path).2.disk.contentAt
      (stateFile storagePath (deleteFile now s path).2.mount) = some text ∧
      lib.loads text = .ok (saveMount lib saved) := by
    rw [hdisk, hstate]
    exact hsaved.file
  obtain ⟨mount, hrun, -, -, hget⟩ := restoreMountState_saved hfile hsaved.path_eq
  rintro ⟨mount', hrun', hsame⟩
  cases hrun.symm.trans hrun'
  have hbefore : ((saved.files.get? (normalizePath path)).map restoredFile).map VirtualFile.record =
      some vfile.record := by
    rw [Option.map_map, ← Option.map_some, ← hentry, ← hsaved.records]
    rfl
  have hrecord := hsame.records (normalizePath path)
  rw [hget, hbefore, deleteFile_get?, if_pos rfl, hentry, Option.bind_some] at hrecord
  split_ifs at hrecord with hadded
  · cases hrecord
  · exact hlive (congrArg Prod.fst (Option.some.inj hrecord))

end Steps

/-! ## Runs -/

/-- An operation as a step of a run. -/
def opStep (lib : Library) (storagePath : List String) (s : State) (op : Op) : Option State :=
  some (step lib storagePath s op)

/-- **In every run of durable writes and deletions, the mount can be rebuilt after each operation.** -/
theorem durable_run_rebuilt {lib : Library} {storagePath : List String} {s : State}
    (hstart : Recoverable storagePath s) {ops : List Op} {op : Op} {t : State}
    (hrun : exec (opStep lib storagePath) s (ops ++ [op]) = some t)
    (hok : Guarded (opStep lib storagePath) (Durable lib storagePath) s (ops ++ [op]))
    (hjson : RoundTrips lib t.mount) :
    Rebuilt lib storagePath t := by
  obtain ⟨u, hbefore, hlast⟩ := (exec_concat_eq_some _).mp hrun
  have hstep : ∀ s i s', Recoverable storagePath s → Durable lib storagePath s i →
      opStep lib storagePath s i = some s' → Recoverable storagePath s' := by
    rintro s i s' h hok ⟨⟩
    exact (h.step hok).1
  have hrecoverable : Recoverable storagePath u := exec_invariant hstep hstart hok.of_append hbefore
  cases hlast
  obtain ⟨h, hsaved⟩ := hrecoverable.step (hok.last hbefore)
  exact h.rebuilt (hsaved hjson)

/-! ## A note that is rewritten and deleted -/

/-- The operation is a write that completes, or a deletion. -/
def Completed (lib : Library) (storagePath : List String) (s : State) : Op → Prop
  | .read _ _ _ => False
  | .write path content now => ∃ vfile, (writeFile lib storagePath now s path content).1 = .ok vfile
  | .delete _ _ => True

/-- The state of the index when the note has the status. -/
def savedNote (status : FileStatus) : SavedState where
  sessionId := "s1"
  repoUrl := "https://example.test/repo"
  branch := "main"
  commitSha := none
  virtualRoot := "/workspace"
  files := [⟨"note.txt", "abc6fd595fc079d3", 0, status.value, some "45b983be36b73c0788dc9cbcb76cbb80fc7bb057",
    "1970-01-01T00:00:00"⟩]
  lastSync := some "1970-01-01T00:00:00"

/-- The text of the state up to the status of the note. -/
def noteTextStart : String :=
  "\x7b\n  \"session_id\": \"s1\",\n  \"repo_url\": \"https://example.test/repo\",\n" ++
    "  \"branch\": \"main\",\n  \"commit_sha\": null,\n  \"virtual_root\": \"/workspace\",\n" ++
    "  \"files\": [\n    \x7b\n      \"path\": \"note.txt\",\n      \"sha\": \"abc6fd595fc079d3\",\n" ++
    "      \"size\": 0,\n      \"status\": \""

def noteTextEnd : String :=
  "\",\n      \"head_sha\": \"45b983be36b73c0788dc9cbcb76cbb80fc7bb057\",\n" ++
    "      \"modified_at\": \"1970-01-01T00:00:00\"\n    \x7d\n  ],\n  \"last_sync\": \"1970-01-01T00:00:00\"\n\x7d"

def noteText (status : FileStatus) : Bytes :=
  (noteTextStart ++ status.value ++ noteTextEnd).toList.map fun c => UInt8.ofNat c.toNat

theorem noteText_ne : noteText .deleted ≠ noteText .modified := by
  intro h
  have hlength := congrArg List.length h
  have hvalues : (FileStatus.value .modified).length = (FileStatus.value .deleted).length + 1 := by decide
  unfold noteText at hlength
  simp only [List.length_map, String.length_toList, String.length_append] at hlength
  omega

/-- `json` on the states of a table. -/
def tableLibrary (digest : Bytes → String) (hlength : ∀ content, (digest content).length = 64)
    (table : List (SavedState × Bytes)) : Library where
  sha256Hex := digest
  dumps saved := (table.lookup saved).getD []
  loads text :=
    match table.find? fun e => decide (e.2 = text) with
    | some e => .ok e.1
    | none => .error ⟨.valueError, "Expecting value: line 1 column 1 (char 0)"⟩
  isoformat := secondText
  fromisoformat := ofSecondText
  sha256Hex_length := hlength
  isoformat_ne_empty := secondText_ne_empty
  fromisoformat_isoformat := ofSecondText_secondText

theorem tableLibrary_dumps (digest : Bytes → String) (hlength : ∀ content, (digest content).length = 64)
    {table : List (SavedState × Bytes)} (hstates : (table.map Prod.fst).Nodup) {saved : SavedState} {text : Bytes}
    (hmem : (saved, text) ∈ table) : (tableLibrary digest hlength table).dumps saved = text := by
  show (table.lookup saved).getD [] = text
  rw [(lookup_eq_some_iff hstates _ _).mpr hmem, Option.getD_some]

theorem tableLibrary_roundTrips (digest : Bytes → String) (hlength : ∀ content, (digest content).length = 64)
    {table : List (SavedState × Bytes)} (hstates : (table.map Prod.fst).Nodup)
    (htexts : (table.map Prod.snd).Nodup) {mount : SessionMount} {text : Bytes}
    (hmem : (saveMount (tableLibrary digest hlength table) mount, text) ∈ table) :
    RoundTrips (tableLibrary digest hlength table) mount := by
  unfold RoundTrips
  rw [tableLibrary_dumps digest hlength hstates hmem]
  show (match table.find? fun e => decide (e.2 = text) with | some e => Except.ok e.1 | none => _) = _
  rw [find?_of_nodup_map Prod.snd htexts hmem (decide_eq_true rfl) fun _ hp => of_decide_eq_true hp]

def noteJson : Library :=
  tableLibrary noteDigest noteLibrary.sha256Hex_length
    [(savedNote .modified, noteText .modified), (savedNote .deleted, noteText .deleted)]

theorem noteJson_roundTrips {mount : SessionMount} {status : FileStatus}
    (hmem : (saveMount noteJson mount, noteText status) ∈
      [(savedNote .modified, noteText .modified), (savedNote .deleted, noteText .deleted)]) :
    RoundTrips noteJson mount := by
  have hsaved : savedNote .modified ≠ savedNote .deleted := by decide
  exact tableLibrary_roundTrips _ _ (by simp [hsaved]) (by simp [noteText_ne.symm]) hmem

theorem write_note_durable :
    Durable noteJson noteStorage noteMount (.write "note.txt" byeBytes 0) where
  relative := by decide +kernel
  completes := ⟨_, rfl⟩
  visible := by
    intro q vfile hget hcontent
    obtain ⟨now, hindex⟩ := noteMount_fresh.index
    obtain ⟨sha, rfl, -⟩ := indexRepository_entry hindex (fun _ _ _ _ _ => True.intro) hget
    exact absurd rfl hcontent

/-- The note is rewritten, with the state file stored. -/
def writtenNote : State := step noteJson noteStorage noteMount (.write "note.txt" byeBytes 0)

theorem writtenNote_roundTrips : RoundTrips noteJson writtenNote.mount := by
  have hstate : saveMount noteJson writtenNote.mount = savedNote .modified := by decide +kernel
  exact noteJson_roundTrips (by rw [hstate]; exact List.mem_cons_self)

/-- A rewritten note is there again. -/
theorem written_note_rebuilt : Rebuilt noteJson noteStorage writtenNote :=
  durable_run_rebuilt noteMount_fresh.recoverable
    (show exec (opStep noteJson noteStorage) noteMount ([] ++ [.write "note.txt" byeBytes 0]) =
      some writtenNote from rfl)
    ⟨write_note_durable, fun _ _ => True.intro⟩
    writtenNote_roundTrips

/-- A note that is deleted after it was rewritten comes back. -/
theorem deleted_note_not_rebuilt : ¬ ∀ (lib : Library) (storagePath : List String) (head : View)
    (output : String) (s : State) (ops : List Op) (op : Op) (t : State),
    Fresh storagePath head output s → (∀ o ∈ ops ++ [op], RelativePath o.path) →
    Guarded (opStep lib storagePath) (fun u o => Completed lib storagePath u o ∧
      RoundTrips lib (step lib storagePath u o).mount) s (ops ++ [op]) →
    exec (opStep lib storagePath) s (ops ++ [op]) = some t → Rebuilt lib storagePath t := by
  intro h
  obtain ⟨-, hsaved⟩ := noteMount_fresh.recoverable.step write_note_durable
  have hstate : saveMount noteJson (step noteJson noteStorage writtenNote (.delete "note.txt" 0)).mount =
      savedNote .deleted := by decide +kernel
  have hdeleted : RoundTrips noteJson (step noteJson noteStorage writtenNote (.delete "note.txt" 0)).mount :=
    noteJson_roundTrips (by rw [hstate]; exact List.mem_cons_of_mem _ List.mem_cons_self)
  have hentry : (writtenNote.mount.files.get? (normalizePath "note.txt")).map VirtualFile.status =
      some .modified := by decide +kernel
  obtain ⟨vfile, hget, hstatus⟩ := Option.map_eq_some_iff.mp hentry
  refine deletion_not_rebuilt 0 (hsaved writtenNote_roundTrips) hget (by rw [hstatus]; exact nofun) ?_
  refine h noteJson noteStorage noteHead noteListing noteMount [.write "note.txt" byeBytes 0]
    (.delete "note.txt" 0) _ noteMount_fresh ?_ ?_ rfl
  · intro o ho
    rcases List.mem_cons.mp ho with rfl | ho
    · exact relativePath_note
    · rw [List.mem_singleton.mp ho]
      exact relativePath_note
  · refine ⟨⟨write_note_durable.completes, writtenNote_roundTrips⟩, ?_⟩
    rintro s' ⟨⟩
    exact ⟨⟨True.intro, hdeleted⟩, fun _ _ => True.intro⟩

end KernelRuntime.Gvfs
