import KernelRuntime.Storage.Overlay

/-! # The status of a change

`get_changes` reports the status of each entry. It should be the comparison of HEAD with the overlay.
A write compares the first half of a SHA-256 digest with the name of a git object, which never agree:
every second write of a path is reported as a modification. -/

namespace KernelRuntime.Gvfs
set_option autoImplicit false

/-! ## What should be reported -/

/-- The comparison of a path in HEAD with the overlay. -/
def statusOf : Option Bytes → Option Bytes → FileStatus
  | none, none => .unchanged
  | none, some _ => .added
  | some _, none => .deleted
  | some old, some new => if new = old then .unchanged else .modified

theorem statusOf_eq_added_iff {old new : Option Bytes} :
    statusOf old new = .added ↔ old = none ∧ new ≠ none := by
  cases old with
  | none => cases new <;> simp [statusOf]
  | some c =>
    cases new with
    | none => simp [statusOf]
    | some c' =>
      unfold statusOf
      simp only
      split_ifs <;> simp

/-- `get_changes` reports exactly the paths that the overlay adds, modifies and deletes. -/
structure ReportsChanges (head o : View) (mount : SessionMount) : Prop where
  added : ∀ path, path ∈ (getChanges mount).added.map VirtualFile.path ↔
    o path ≠ none ∧ head path = none
  modified : ∀ path, path ∈ (getChanges mount).modified.map VirtualFile.path ↔
    ∃ old new, head path = some old ∧ o path = some new ∧ new ≠ old
  deleted : ∀ path, path ∈ (getChanges mount).deleted.map VirtualFile.path ↔
    head path ≠ none ∧ o path = none

/-- The status under which a path is reported; an entry that is reported under none counts as
unchanged. -/
def reported : Option VirtualFile → FileStatus
  | none => .unchanged
  | some vfile => if vfile.hasChanges then vfile.status else .unchanged

theorem reported_eq_iff {entry : Option VirtualFile} {status : FileStatus}
    (hstatus : status ∈ [FileStatus.modified, .added, .deleted]) :
    reported entry = status ↔ ∃ vfile, entry = some vfile ∧ vfile.status = status := by
  have hne : FileStatus.unchanged ≠ status := by
    rintro rfl
    simp at hstatus
  cases entry with
  | none => simp [reported, hne]
  | some vfile =>
    unfold reported VirtualFile.hasChanges
    by_cases hchanges : vfile.status ∈ [FileStatus.modified, .added, .deleted]
    · simp [hchanges]
    · have hother : vfile.status ≠ status := by
        rintro rfl
        exact hchanges hstatus
      simp [hchanges, hne, hother]

theorem mem_reported_iff (files : OrderedDict String VirtualFile)
    (hkey : ∀ path vfile, files.get? path = some vfile → vfile.path = path) (status : FileStatus)
    (path : String) :
    path ∈ (files.values.filter fun f => decide (f.status = status)).map VirtualFile.path ↔
      ∃ vfile, files.get? path = some vfile ∧ vfile.status = status := by
  simp only [List.mem_map, List.mem_filter, OrderedDict.mem_values_iff, decide_eq_true_eq]
  constructor
  · rintro ⟨vfile, ⟨⟨k, hk⟩, hstatus⟩, rfl⟩
    rw [hkey k vfile hk]
    exact ⟨vfile, hk, hstatus⟩
  · rintro ⟨vfile, hget, hstatus⟩
    exact ⟨vfile, ⟨⟨path, hget⟩, hstatus⟩, hkey path vfile hget⟩

/-- The report is right when every path is reported under its comparison. -/
theorem reportsChanges_of_reported {head o : View} {mount : SessionMount}
    (hkey : ∀ path vfile, mount.files.get? path = some vfile → vfile.path = path)
    (h : ∀ path, reported (mount.files.get? path) = statusOf (head path) (o path)) :
    ReportsChanges head o mount := by
  have hmem : ∀ status ∈ [FileStatus.modified, .added, .deleted], ∀ path,
      path ∈ (mount.files.values.filter fun f => decide (f.status = status)).map VirtualFile.path ↔
        statusOf (head path) (o path) = status := by
    intro status hstatus path
    rw [mem_reported_iff mount.files hkey, ← h path, reported_eq_iff hstatus]
  refine ⟨fun path => ?_, fun path => ?_, fun path => ?_⟩
  · refine (hmem .added (by simp) path).trans ?_
    rw [statusOf_eq_added_iff, and_comm]
  · refine (hmem .modified (by simp) path).trans ?_
    cases head path <;> cases o path <;> simp [statusOf]
  · refine (hmem .deleted (by simp) path).trans ?_
    cases head path <;> cases o path <;> simp [statusOf]
    split_ifs <;> simp

/-! ## Paths -/

/-- The path that is meant: leading slashes and the name of the virtual root are cut off. -/
def meantPath (path : String) : String :=
  let relative := path.toList.dropWhile (· = '/')
  String.ofList ((relative.dropPrefix? "workspace/".toList).getD relative)

/-- The operation on the path that is meant. -/
def Op.meant : Op → Op
  | .read path load now => .read (meantPath path) load now
  | .write path content now => .write (meantPath path) content now
  | .delete path now => .delete (meantPath path) now

/-- The state and the overlay of the paths that are meant move together. -/
def meantStep (lib : Library) (storagePath : List String) (r : Run) (op : Op) : Option Run :=
  some (step lib storagePath r.1 op, overlay r.2 op.meant)

/-! ## Where the status is right -/

/-- A write that completes, adds a path that HEAD has not and the index has not, or changes the
content of a listed file of HEAD. -/
structure WriteReported (lib : Library) (storagePath : List String) (head : View) (now : ℕ) (s : State)
    (path : String) (content : Bytes) : Prop where
  plain : normalizePath path = meantPath path
  completes : ∃ vfile, (writeFile lib storagePath now s path content).1 = .ok vfile
  adds : s.mount.files.get? (normalizePath path) = none → head (normalizePath path) = none
  changes : ∀ vfile, s.mount.files.get? (normalizePath path) = some vfile →
    ∃ old, head (normalizePath path) = some old ∧ content ≠ old

/-- A deletion of a listed file of HEAD, of an added file, or of nothing. -/
structure DeleteReported (head : View) (s : State) (path : String) : Prop where
  plain : normalizePath path = meantPath path
  listed : s.mount.files.get? (normalizePath path) = none → head (normalizePath path) = none
  entry : ∀ vfile, s.mount.files.get? (normalizePath path) = some vfile → vfile.status ≠ .added →
    head (normalizePath path) ≠ none

/-- The step keeps the report right. Reading always does. -/
def Reported (lib : Library) (storagePath : List String) (head : View) (s : State) : Op → Prop
  | .read _ _ _ => True
  | .write path content now => WriteReported lib storagePath head now s path content
  | .delete path _ => DeleteReported head s path

/-- Git prints object names of forty digits. -/
def ObjectNames (output : String) : Prop :=
  ∀ line ∈ outputLines output, ∀ path sha, indexLine line = .ok (some (path, sha)) → sha.length = 40

/-! ## The invariant -/

/-- An entry's object name is no digest, and its own digest has a stored change. -/
structure NamesApart (lib : Library) (storagePath : List String) (s : State) (path : String)
    (vfile : VirtualFile) : Prop where
  path_eq : vfile.path = path
  headSha : ∀ content, vfile.headSha ≠ some (lib.shortSha content)
  sha : ∀ content, vfile.sha = lib.shortSha content →
    s.disk (getModifiedPath storagePath s.mount path) ≠ none

structure Compares (lib : Library) (storagePath : List String) (head : View) (r : Run) : Prop where
  names : ∀ path vfile, r.1.mount.files.get? path = some vfile → NamesApart lib storagePath r.1 path vfile
  status : ∀ path, reported (r.1.mount.files.get? path) = statusOf (head path) (r.2 path)

theorem Fresh.compares (lib : Library) {storagePath : List String} {head : View} {output : String}
    {s : State} (h : Fresh storagePath head output s) (hnames : ObjectNames output) :
    Compares lib storagePath head (s, head) where
  names := by
    intro path vfile hget
    obtain ⟨now, hindex⟩ := h.index
    obtain ⟨sha, rfl, hsha⟩ := indexRepository_entry hindex hnames hget
    have hother : ∀ content, sha ≠ lib.shortSha content := by
      rintro content rfl
      rw [lib.shortSha_length] at hsha
      cases hsha
    exact ⟨rfl, fun content heq => hother content (Option.some.inj heq),
      fun content heq => absurd heq (hother content)⟩
  status := by
    intro path
    have hentry : reported (s.mount.files.get? path) = .unchanged := by
      cases hget : s.mount.files.get? path with
      | none => rfl
      | some vfile =>
        obtain ⟨now, hindex⟩ := h.index
        obtain ⟨sha, rfl, -⟩ := indexRepository_entry hindex hnames hget
        rfl
    have hsame : statusOf (head path) (head path) = .unchanged := by
      cases head path <;> simp [statusOf]
    exact hentry.trans hsame.symm

/-! ## Steps -/

section Steps
variable {lib : Library} {storagePath : List String} {head o : View} {now : ℕ} {s : State}

theorem NamesApart.congr {path : String} {vfile : VirtualFile}
    (h : NamesApart lib storagePath s path vfile) {s' : State}
    (hstored : s.disk (getModifiedPath storagePath s.mount path) ≠ none →
      s'.disk (getModifiedPath storagePath s'.mount path) ≠ none) :
    NamesApart lib storagePath s' path vfile where
  path_eq := h.path_eq
  headSha := h.headSha
  sha := fun content heq => hstored (h.sha content heq)

theorem reported_congr {vfile vfile' : VirtualFile} (h : vfile'.status = vfile.status) :
    reported (some vfile') = reported (some vfile) := by
  unfold reported VirtualFile.hasChanges
  simp only [h]

/-- Loading a content keeps the status, and takes the object name from an entry without a stored
change. -/
theorem loadContent_keeps {path : String} {vfile loaded : VirtualFile}
    (h : NamesApart lib storagePath s path vfile) (hload : loadContent storagePath s vfile = .ok loaded) :
    NamesApart lib storagePath s path loaded ∧ loaded.status = vfile.status := by
  unfold loadContent at hload
  simp only [h.path_eq] at hload
  split_ifs at hload with hchange hfile
  · obtain ⟨content, -, rfl⟩ := map_eq_ok_iff.mp hload
    exact ⟨⟨rfl, h.headSha, h.sha⟩, rfl⟩
  · obtain ⟨content, -, rfl⟩ := map_eq_ok_iff.mp hload
    refine ⟨⟨rfl, ?_, h.sha⟩, rfl⟩
    intro c heq
    exact hchange ((FileTree.pathExists_iff _ _).mpr (h.sha c (Option.some.inj heq)))
  · cases hload
    exact ⟨⟨rfl, h.headSha, h.sha⟩, rfl⟩

theorem Compares.setFile (h : Compares lib storagePath head (s, o)) {path : String} {vfile : VirtualFile}
    (hnames : NamesApart lib storagePath s path vfile)
    (hreported : reported (some vfile) = statusOf (head path) (o path)) :
    Compares lib storagePath head (s.setFile path vfile, o) where
  names := by
    intro q e hget
    change (s.mount.files.set path vfile).get? q = some e at hget
    rw [OrderedDict.get?_set] at hget
    split_ifs at hget with hqp
    · subst hqp
      cases hget
      exact hnames.congr id
    · exact (h.names q e hget).congr id
  status := by
    intro q
    show reported ((s.mount.files.set path vfile).get? q) = _
    rw [OrderedDict.get?_set]
    split_ifs with hqp
    · rw [hqp]
      exact hreported
    · exact h.status q

theorem Compares.loadEntry (h : Compares lib storagePath head (s, o)) {path : String} {vfile : VirtualFile}
    (hget : s.mount.files.get? path = some vfile) (load : Bool) :
    Compares lib storagePath head ((Gvfs.loadEntry storagePath s path vfile load).2, o) := by
  unfold Gvfs.loadEntry
  split_ifs with hload
  · cases hloaded : loadContent storagePath s vfile with
    | error e => exact h
    | ok loaded =>
      obtain ⟨hnames, hstatus⟩ := loadContent_keeps (h.names path vfile hget) hloaded
      refine h.setFile hnames ?_
      have hbefore := h.status path
      simp only [hget] at hbefore
      rw [reported_congr hstatus, hbefore]
  · exact h

/-- **Every read keeps the report.** -/
theorem Compares.read (h : Compares lib storagePath head (s, o)) (path : String) (load : Bool) :
    Compares lib storagePath head ((readFile storagePath now s path load).2, o) := by
  unfold readFile
  simp only
  cases hget : s.mount.files.get? (normalizePath path) with
  | some vfile => exact h.loadEntry hget load
  | none =>
    simp only
    split_ifs
    · have hempty : ∀ content, "" ≠ lib.shortSha content := by
        intro content heq
        have hlength := lib.shortSha_length content
        rw [← heq] at hlength
        cases hlength
      have hbefore := h.status (normalizePath path)
      simp only [hget] at hbefore
      have hnew : Compares lib storagePath head
          (s.setFile (normalizePath path) (untrackedFile now (normalizePath path)), o) :=
        h.setFile ⟨rfl, fun _ => by rintro ⟨⟩, fun content heq => absurd heq (hempty content)⟩ hbefore
      exact hnew.loadEntry (OrderedDict.get?_set_self _ _ _) load
    · exact h

/-- **A write keeps the report when it adds a new path or changes a file of HEAD.** -/
theorem Compares.write (h : Compares lib storagePath head (s, o)) {path : String} {content : Bytes}
    (hok : WriteReported lib storagePath head now s path content) :
    Compares lib storagePath head ((writeFile lib storagePath now s path content).2,
      Function.update o (meantPath path) (some content)) := by
  obtain ⟨hplain, ⟨vfile, hcompletes⟩, hadds, hchanges⟩ := hok
  rw [← hplain]
  have hkey : ∀ e, s.mount.files.get? (normalizePath path) = some e → e.path = normalizePath path :=
    fun e he => (h.names _ e he).path_eq
  obtain ⟨hwpath, -, -⟩ := writtenFile_spec lib now _ (normalizePath path) content hkey
  refine ⟨?_, ?_⟩
  · intro q e he
    simp only at he ⊢
    rw [writeFile_get?] at he
    split_ifs at he with hqp
    · subst hqp
      cases he
      refine ⟨hwpath, ?_, fun _ _ => ?_⟩
      · intro c
        cases hold : s.mount.files.get? (normalizePath path) with
        | none => rintro ⟨⟩
        | some old => exact (h.names _ old hold).headSha c
      · have hpresent := writeFile_present lib storagePath now s path content hcompletes
        unfold changePath at hpresent
        rw [hwpath] at hpresent
        rw [getModifiedPath_writeFile]
        exact hpresent
    · refine (h.names q e he).congr fun hthere => ?_
      rw [getModifiedPath_writeFile]
      exact writeFile_ne_none lib storagePath now s path content hthere
  · intro q
    simp only
    rw [writeFile_get?]
    split_ifs with hqp
    · subst hqp
      rw [Function.update_self]
      cases hold : s.mount.files.get? (normalizePath path) with
      | none =>
        rw [hadds hold]
        rfl
      | some old =>
        obtain ⟨c, hhead, hne⟩ := hchanges old hold
        have hsha : some (lib.shortSha content) ≠ old.headSha :=
          fun heq => (h.names _ old hold).headSha content heq.symm
        rw [hhead]
        simp [writtenFile, reported, VirtualFile.hasChanges, statusOf, hsha, hne]
    · rw [Function.update_of_ne hqp]
      exact h.status q

/-- **A deletion keeps the report when it meets a listed file of HEAD, an added file or nothing.** -/
theorem Compares.delete (h : Compares lib storagePath head (s, o)) {path : String}
    (hok : DeleteReported head s path) :
    Compares lib storagePath head ((deleteFile now s path).2, Function.update o (meantPath path) none) := by
  obtain ⟨hplain, hlisted, hentry⟩ := hok
  rw [← hplain]
  obtain ⟨hdisk, -, -⟩ := deleteFile_frame now s path
  have hstored : ∀ q, s.disk (getModifiedPath storagePath s.mount q) ≠ none →
      (deleteFile now s path).2.disk (getModifiedPath storagePath (deleteFile now s path).2.mount q) ≠ none := by
    intro q hthere
    rw [getModifiedPath_deleteFile, hdisk]
    exact hthere
  refine ⟨?_, ?_⟩
  · intro q e he
    simp only at he ⊢
    rw [deleteFile_get?] at he
    split_ifs at he with hqp
    · obtain ⟨old, hold, he⟩ := Option.bind_eq_some_iff.mp he
      split_ifs at he
      cases he
      have hnames := h.names q old hold
      have hdeleted : NamesApart lib storagePath s q
          { old with status := .deleted, content := none, modifiedAt := now } :=
        ⟨hnames.path_eq, hnames.headSha, hnames.sha⟩
      exact hdeleted.congr (hstored q)
    · exact (h.names q e he).congr (hstored q)
  · intro q
    simp only
    rw [deleteFile_get?]
    split_ifs with hqp
    · subst hqp
      rw [Function.update_self]
      have hbefore := h.status (normalizePath path)
      simp only at hbefore
      cases hold : s.mount.files.get? (normalizePath path) with
      | none =>
        rw [hlisted hold]
        rfl
      | some old =>
        rw [Option.bind_some]
        by_cases hadded : old.status = .added
        · rw [if_pos hadded]
          have hnone : head (normalizePath path) = none := by
            rw [hold, (reported_eq_iff (by simp)).mpr ⟨old, rfl, hadded⟩] at hbefore
            exact (statusOf_eq_added_iff.mp hbefore.symm).1
          rw [hnone]
          rfl
        · rw [if_neg hadded]
          obtain ⟨c, hhead⟩ := Option.ne_none_iff_exists'.mp (hentry old hold hadded)
          rw [hhead]
          rfl
    · rw [Function.update_of_ne hqp]
      exact h.status q

end Steps

/-! ## Runs -/

theorem compares_step {lib : Library} {storagePath : List String} {head : View} {r r' : Run} {op : Op}
    (h : Compares lib storagePath head r) (hok : Reported lib storagePath head r.1 op)
    (hstep : meantStep lib storagePath r op = some r') : Compares lib storagePath head r' := by
  cases hstep
  cases op with
  | read path load now => exact h.read path load
  | write path content now => exact h.write hok
  | delete path now => exact h.delete hok

/-- **In every run from a fresh mount whose writes and deletions meet the condition, `get_changes`
reports the comparison of HEAD with the overlay.** -/
theorem changes_reported (lib : Library) (storagePath : List String) {head : View} {output : String}
    {s : State} (hfresh : Fresh storagePath head output s) (hnames : ObjectNames output) {ops : List Op}
    {t : State} {o : View} (hrun : exec (meantStep lib storagePath) (s, head) ops = some (t, o))
    (hok : Guarded (meantStep lib storagePath)
      (fun r op => Reported lib storagePath head r.1 op) (s, head) ops) :
    ReportsChanges head o t.mount := by
  have hinv : Compares lib storagePath head (t, o) :=
    exec_invariant (fun _ _ _ h hok hstep => compares_step h hok hstep) (hfresh.compares lib hnames) hok hrun
  exact reportsChanges_of_reported (fun path vfile hget => (hinv.names path vfile hget).path_eq) hinv.status

theorem noteListing_objectNames : ObjectNames noteListing := by
  unfold ObjectNames
  have hline : outputLines noteListing =
      ["100644 blob 45b983be36b73c0788dc9cbcb76cbb80fc7bb057\tnote.txt".toList] := by decide +kernel
  have hentry : indexLine "100644 blob 45b983be36b73c0788dc9cbcb76cbb80fc7bb057\tnote.txt".toList =
      .ok (some ("note.txt", "45b983be36b73c0788dc9cbcb76cbb80fc7bb057")) := by rfl
  rw [hline]
  intro line hmem path sha h
  rw [List.mem_singleton.mp hmem, hentry] at h
  cases h
  decide +kernel

/-- A new file is reported as added. -/
theorem new_file_is_added :
    ReportsChanges noteHead (overlay noteHead (.write "todo.txt" byeBytes 0))
      (step noteLibrary noteStorage noteMount (.write "todo.txt" byeBytes 0)).mount := by
  have hpath : normalizePath "todo.txt" = "todo.txt" := by decide +kernel
  have hmeant : meantPath "todo.txt" = "todo.txt" := by decide +kernel
  have hnone : noteMount.mount.files.get? "todo.txt" = none := by decide +kernel
  refine changes_reported noteLibrary noteStorage noteMount_fresh noteListing_objectNames
    (show exec (meantStep noteLibrary noteStorage) (noteMount, noteHead) [.write "todo.txt" byeBytes 0] = some
      (step noteLibrary noteStorage noteMount (.write "todo.txt" byeBytes 0),
        overlay noteHead (Op.meant (.write "todo.txt" byeBytes 0))) from rfl) ?_
  refine ⟨⟨hpath.trans hmeant.symm, ⟨_, rfl⟩, fun _ => by rw [hpath]; decide +kernel, ?_⟩,
    fun _ _ => True.intro⟩
  intro vfile hget
  rw [hpath, hnone] at hget
  cases hget

/-- A file that is rewritten with its content in HEAD is reported as modified. -/
theorem rewritten_file_is_modified : ¬ ∀ (lib : Library) (storagePath : List String) (head : View)
    (output : String) (s : State) (ops : List Op) (t : State) (o : View),
    Fresh storagePath head output s → ObjectNames output → (∀ op ∈ ops, RelativePath op.path) →
    exec (meantStep lib storagePath) (s, head) ops = some (t, o) → ReportsChanges head o t.mount := by
  intro h
  have hreport := h noteLibrary noteStorage noteHead noteListing noteMount [.write "note.txt" hiBytes 0]
    (step noteLibrary noteStorage noteMount (.write "note.txt" hiBytes 0))
    (overlay noteHead (Op.meant (.write "note.txt" hiBytes 0))) noteMount_fresh noteListing_objectNames
    (fun op hop => by rw [List.mem_singleton.mp hop]; exact relativePath_note) rfl
  have hmodified : "note.txt" ∈ (getChanges (step noteLibrary noteStorage noteMount
      (.write "note.txt" hiBytes 0)).mount).modified.map VirtualFile.path := by decide +kernel
  obtain ⟨old, new, hold, hnew, hne⟩ := (hreport.modified "note.txt").mp hmodified
  have hhead : noteHead "note.txt" = some hiBytes := by decide +kernel
  have hview : overlay noteHead (Op.meant (.write "note.txt" hiBytes 0)) "note.txt" = some hiBytes := by
    decide +kernel
  rw [hhead] at hold
  rw [hview] at hnew
  exact hne (Option.some.inj (hnew.symm.trans hold))

end KernelRuntime.Gvfs
