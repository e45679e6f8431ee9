import KernelRuntime.Foundations.EditScript
import KernelRuntime.Foundations.TextLines
import KernelRuntime.Foundations.Utf8
import KernelRuntime.Storage.Overlay
import KernelRuntime.Tools.Router

/-! # The diff of a changed file

`get_diff` compares the content that was loaded from HEAD with the current one. What it prints are hunks, and the hunks
turn the one into the other. -/

namespace KernelRuntime.Gvfs
open SequenceMatcher
set_option autoImplicit false

/-! ## The text -/

/-- `content.decode("utf-8", errors="replace").splitlines(keepends=True)`, where no content is `b""`. -/
def diffLines (content : Option Bytes) : List (List Char) :=
  splitLinesKeep ToolExecution.lineBreaks (decodeReplace (content.getD []))

/-- `_format_range_unified`. -/
def formatRangeUnified (start stop : ℕ) : String :=
  if stop - start = 1 then toString (start + 1)
  else toString (if stop - start = 0 then start else start + 1) ++ "," ++ toString (stop - start)

def hunkHeader (h : Hunk (List Char)) : String :=
  "@@ -" ++ formatRangeUnified h.i1 h.i2 ++ " +" ++ formatRangeUnified h.j1 h.j2 ++ " @@"

def markedLine : Mark × List Char → List Char
  | (.context, line) => ' ' :: line
  | (.removed, line) => '-' :: line
  | (.added, line) => '+' :: line

def hunkText (h : Hunk (List Char)) : List Char := (hunkHeader h).toList ++ h.lines.flatMap markedLine

/-- `"".join(unified_diff(..., lineterm=""))`. The lines of the headers do not end. -/
def unifiedDiff (path : String) (hs : List (Hunk (List Char))) : List Char :=
  match hs with
  | [] => []
  | hs => ("--- a/" ++ path ++ "+++ b/" ++ path).toList ++ hs.flatMap hunkText

/-- The hunks between two contents, with three lines around each change. -/
def contentHunks (old new : Option Bytes) : List (Hunk (List Char)) := hunks (diffLines old) (diffLines new) 3

def generateDiff (vfile : VirtualFile) : Option String :=
  if !vfile.hasChanges then none
  else some (String.ofList (unifiedDiff vfile.path (contentHunks vfile.headContent vfile.content)))

/-- `GVFS.get_diff` of a mounted session. -/
def getDiff (storagePath : List String) (now : ℕ) (s : State) (path : String) :
    Except PyError (Option String) × State :=
  let r := readFile storagePath now s path true
  (r.1.map fun vfile => vfile.bind generateDiff, r.2)

theorem unifiedDiff_eq_nil_iff (path : String) (hs : List (Hunk (List Char))) : unifiedDiff path hs = [] ↔ hs = [] := by
  cases hs with
  | nil => simp [unifiedDiff]
  | cons h hs => simp [unifiedDiff]

theorem contentHunks_eq_nil_iff (old new : Option Bytes) :
    contentHunks old new = [] ↔ decodeReplace (old.getD []) = decodeReplace (new.getD []) := by
  unfold contentHunks
  rw [hunks_eq_nil_iff]
  refine ⟨fun h => ?_, fun h => by rw [diffLines, h]; rfl⟩
  rw [← flatten_splitLinesKeep ToolExecution.lineBreaks (decodeReplace (old.getD [])),
    ← flatten_splitLinesKeep ToolExecution.lineBreaks (decodeReplace (new.getD []))]
  exact congrArg List.flatten h

/-! ## What the diff starts from -/

/-- Whether an operation is the first that loads the content of the path, or replaces it. -/
def access (path : String) : Op → Option Bool
  | .read p load _ => if p = path ∧ load = true then some true else none
  | .write p _ _ => if p = path then some false else none
  | .delete _ _ => none

/-- What the diff starts from: nothing, if the path was written before it was read. -/
def diffBase (head : View) (path : String) (ops : List Op) : Option Bytes :=
  if ops.findSome? (access path) = some false then none else head path

/-- The content of HEAD is known if it was loaded. -/
def loadedHead (head : View) (path : String) (first : Option Bool) : Option Bytes :=
  if first = some true then head path else none

/-- Paths are used as they are written, no entry that is read is deleted, and the entry of a path that is deleted and
belongs to HEAD is from the listing. -/
def Plain (storagePath : List String) (head : View) (s : State) (op : Op) : Prop :=
  RelativePath op.path ∧ PlainPath op.path ∧ match op with
    | .read path _ _ => ReadTracked storagePath head s path
    | .write _ _ _ => True
    | .delete path _ => DeleteTracked head s path

/-- An entry, once the content of its path was accessed first as `first` says. -/
structure EntryDiffs (storagePath : List String) (head o : View) (path : String) (first : Option Bool) (s : State)
    (vfile : VirtualFile) : Prop where
  base : vfile.headContent = loadedHead head path first
  loaded : ∀ content, vfile.content = some content → o path = some content
  fresh : first = none → vfile.content = none
  lazy : vfile.content = none → vfile.status ≠ .deleted → first ≠ some false ∧ o path = head path ∧
    s.disk.contentAt (getModifiedPath storagePath s.mount path) = none

/-- The path in the index and on the disk. -/
structure Diffs (storagePath : List String) (head : View) (path : String) (first : Option Bool) (r : Run) : Prop where
  apart : RootsApart storagePath r.1.mount
  keys : ∀ q vfile, r.1.mount.files.get? q = some vfile → vfile.path = q
  checkout : ∀ content, head path = some content →
    r.1.disk.contentAt (diskPath r.1.mount.localPath path) = some content
  entry : ∀ vfile, r.1.mount.files.get? path = some vfile → EntryDiffs storagePath head r.2 path first r.1 vfile
  noEntry : r.1.mount.files.get? path = none → r.2 path = head path ∧
    (head path ≠ none → first = none ∧ r.1.disk.contentAt (getModifiedPath storagePath r.1.mount path) = none)

theorem Fresh.diffs {storagePath : List String} {head : View} {output : String} {s : State}
    (h : Fresh storagePath head output s) {path : String} (hpath : RelativePath path) :
    Diffs storagePath head path none (s, head) := by
  obtain ⟨now, hindex⟩ := h.index
  have hstored : s.disk.contentAt (getModifiedPath storagePath s.mount path) = none := by
    unfold FileTree.contentAt
    rw [h.noChanges _ (sessionDir_le_getModifiedPath storagePath s.mount hpath)]
  refine ⟨h.apart, fun q vfile hget => ?_, fun content => h.checkout path content hpath, fun vfile hget => ?_,
    fun _ => ⟨rfl, fun _ => ⟨rfl, hstored⟩⟩⟩
  · obtain ⟨sha, rfl, -⟩ := indexRepository_entry hindex (fun _ _ _ _ _ => True.intro) hget
    rfl
  · obtain ⟨sha, rfl, -⟩ := indexRepository_entry hindex (fun _ _ _ _ _ => True.intro) hget
    exact ⟨rfl, fun _ hloaded => (by cases hloaded), fun _ => rfl, fun _ _ => ⟨by rintro ⟨⟩, rfl, hstored⟩⟩

section Steps
variable {lib : Library} {storagePath : List String} {head o : View} {now : ℕ} {s : State} {path : String} {first : Option Bool}

theorem EntryDiffs.congr {vfile : VirtualFile} (h : EntryDiffs storagePath head o path first s vfile) {o' : View} {s' : State}
    (hview : o' path = o path) (hstored : s'.disk.contentAt (getModifiedPath storagePath s'.mount path) =
      s.disk.contentAt (getModifiedPath storagePath s.mount path)) :
    EntryDiffs storagePath head o' path first s' vfile where
  base := h.base
  loaded := hview ▸ h.loaded
  fresh := h.fresh
  lazy := by
    rw [hview, hstored]
    exact h.lazy

theorem Diffs.setFile (h : Diffs storagePath head path first (s, o)) {key : String} {vfile : VirtualFile}
    {first' : Option Bool} (hkey : vfile.path = key) (hother : key ≠ path → first' = first)
    (hentry : key = path → EntryDiffs storagePath head o path first' s vfile) :
    Diffs storagePath head path first' (s.setFile key vfile, o) where
  apart := h.apart
  checkout := h.checkout
  keys := by
    intro q e hget
    change (s.mount.files.set key vfile).get? q = some e at hget
    rw [OrderedDict.get?_set] at hget
    split_ifs at hget with hq
    · cases hget
      exact hkey.trans hq.symm
    · exact h.keys q e hget
  entry := by
    intro e hget
    change (s.mount.files.set key vfile).get? path = some e at hget
    rw [OrderedDict.get?_set] at hget
    split_ifs at hget with hq
    · cases hget
      exact (hentry hq.symm).congr rfl rfl
    · rw [hother (Ne.symm hq)]
      exact (h.entry e hget).congr rfl rfl
  noEntry := by
    intro hget
    change (s.mount.files.set key vfile).get? path = none at hget
    rw [OrderedDict.get?_set] at hget
    split_ifs at hget with hq
    rw [hother (Ne.symm hq)]
    exact h.noEntry hget

/-- An entry of the path is loaded, if it is asked for. -/
theorem Diffs.loadEntry (now : ℕ) (h : Diffs storagePath head path first (s, o)) {vfile : VirtualFile}
    (hget : s.mount.files.get? path = some vfile) (hstatus : vfile.status ≠ .deleted)
    (hhead : vfile.content = none → head path ≠ none)
    (hvisible : s.disk (getModifiedPath storagePath s.mount path) ≠ some .directory) (load : Bool) :
    Diffs storagePath head path (first.or (access path (.read path load now))) ((Gvfs.loadEntry storagePath s path vfile load).2, o) ∧
      (load = true → ∃ e, (Gvfs.loadEntry storagePath s path vfile load).1 = .ok (some e) ∧ e.path = path ∧
        e.headContent = loadedHead head path (first.or (some true)) ∧ e.content = o path) := by
  have hentry := h.entry vfile hget
  have hkey := h.keys path vfile hget
  cases load with
  | false =>
    have haccess : access path (.read path false now) = none := if_neg fun hload => Bool.false_ne_true hload.2
    rw [haccess, Option.or_none]
    exact ⟨h, fun hload => absurd hload Bool.false_ne_true⟩
  | true =>
    have haccess : access path (.read path true now) = some true := if_pos ⟨rfl, rfl⟩
    rw [haccess]
    unfold Gvfs.loadEntry
    cases hcontent : vfile.content with
    | none =>
      obtain ⟨hfirst, hview, hstored⟩ := hentry.lazy hcontent hstatus
      obtain ⟨content, hhead⟩ := Option.ne_none_iff_exists'.mp (hhead hcontent)
      have hor : first.or (some true) = some true := by
        cases first with
        | none => rfl
        | some b =>
          cases b with
          | false => exact absurd rfl hfirst
          | true => rfl
      have hbase : loadedHead head path (first.or (some true)) = some content := by
        rw [hor, loadedHead, if_pos rfl, hhead]
      rw [if_pos ⟨rfl, rfl⟩, loadContent_from_clone hkey hvisible hstored (h.checkout content hhead), hbase]
      refine ⟨h.setFile hkey (fun hne => absurd rfl hne) fun _ => ⟨hbase.symm, fun c hc => ?_, fun hnone => ?_, ?_⟩,
        fun _ => ⟨_, rfl, hkey, rfl, (hview.trans hhead).symm⟩⟩
      · cases hc
        exact hview.trans hhead
      · rw [hor] at hnone
        cases hnone
      · rintro ⟨⟩
    | some content =>
      have hfirst : first.or (some true) = first := by
        cases first with
        | none => exact absurd (hentry.fresh rfl) (by rw [hcontent]; exact Option.some_ne_none _)
        | some b => rfl
      rw [if_neg fun hnone => Option.some_ne_none _ hnone.2, hfirst]
      exact ⟨h, fun _ => ⟨vfile, rfl, hkey, hentry.base, hcontent.trans (hentry.loaded content hcontent).symm⟩⟩

/-- **A read loads HEAD, unless the path was written before.** -/
theorem Diffs.read (h : Diffs storagePath head path first (s, o)) (hplain : PlainPath path)
    (htracked : ReadTracked storagePath head s path) (load : Bool) :
    Diffs storagePath head path (first.or (access path (.read path load now))) ((readFile storagePath now s path load).2, o) ∧
      (load = true → ∀ vfile, (readFile storagePath now s path load).1 = .ok (some vfile) → vfile.path = path ∧
        vfile.headContent = loadedHead head path (first.or (some true)) ∧ vfile.content = o path) := by
  have hnormal : normalizePath path = path := hplain
  have hresult : ∀ {r : Except PyError (Option VirtualFile)}, (∃ e, r = .ok (some e) ∧ e.path = path ∧
      e.headContent = loadedHead head path (first.or (some true)) ∧ e.content = o path) → ∀ vfile, r = .ok (some vfile) →
      vfile.path = path ∧ vfile.headContent = loadedHead head path (first.or (some true)) ∧ vfile.content = o path := by
    rintro r ⟨e, rfl, he⟩ vfile hok
    cases hok
    exact he
  unfold readFile
  simp only [hnormal]
  cases hget : s.mount.files.get? path with
  | some vfile =>
    obtain ⟨hstatus, hhead⟩ := htracked.entry vfile hget
    have hload := h.loadEntry now hget hstatus hhead htracked.visible load
    exact ⟨hload.1, fun hyes => hresult (hload.2 hyes)⟩
  | none =>
    obtain ⟨hview, hfresh⟩ := h.noEntry hget
    simp only
    split_ifs with hthere
    · have hhead := htracked.noEntry hget hthere
      obtain ⟨rfl, hstored⟩ := hfresh hhead
      have hnew : Diffs storagePath head path none (s.setFile path (untrackedFile now path), o) :=
        h.setFile rfl (fun hne => absurd rfl hne) fun _ => ⟨rfl, fun _ hloaded => (by cases hloaded), fun _ => rfl,
          fun _ _ => ⟨by rintro ⟨⟩, hview, hstored⟩⟩
      have hload := hnew.loadEntry now (OrderedDict.get?_set_self _ _ _) (by rintro ⟨⟩) (fun _ => hhead)
        htracked.visible load
      exact ⟨hload.1, fun hyes => hresult (hload.2 hyes)⟩
    · have hhead : head path = none := by
        by_contra hne
        obtain ⟨content, hcontent⟩ := Option.ne_none_iff_exists'.mp hne
        have hfile := h.checkout content hcontent
        rw [FileTree.contentAt_eq_some_iff] at hfile
        exact hthere (by unfold FileTree.pathExists; rw [hfile]; rfl)
      refine ⟨⟨h.apart, h.keys, h.checkout, fun vfile hsome => ?_, fun _ => ⟨hview, fun hne => absurd hhead hne⟩⟩, ?_⟩
      · rw [hget] at hsome
        cases hsome
      · intro _ vfile hok
        cases hok

theorem loadedHead_or_false (head : View) (path : String) (first : Option Bool) :
    loadedHead head path (first.or (some false)) = loadedHead head path first := by
  cases first <;> rfl

theorem Diffs.loadedHead_of_noEntry (h : Diffs storagePath head path first (s, o)) (hget : s.mount.files.get? path = none) :
    loadedHead head path first = none := by
  unfold loadedHead
  split_ifs with hfirst
  · by_contra hhead
    rw [((h.noEntry hget).2 hhead).1] at hfirst
    cases hfirst
  · rfl

/-- The entry that a write of the path leaves keeps the content that was loaded of HEAD. -/
theorem Diffs.entry_written (h : Diffs storagePath head path first (s, o)) (content : Bytes) {s' : State} :
    EntryDiffs storagePath head (Function.update o path (some content)) path (first.or (some false)) s'
      (writtenFile lib now (s.mount.files.get? path) path content) := by
  obtain ⟨-, hwcontent, -⟩ := writtenFile_spec lib now (s.mount.files.get? path) path content (h.keys path)
  refine ⟨?_, fun c hc => ?_, fun hnone => ?_, fun hnone => ?_⟩
  · rw [loadedHead_or_false]
    cases hold : s.mount.files.get? path with
    | none => exact (h.loadedHead_of_noEntry hold).symm
    | some vfile => exact (h.entry vfile hold).base
  · rw [hwcontent] at hc
    cases hc
    exact Function.update_self _ _ _
  · cases first <;> cases hnone
  · rw [hwcontent] at hnone
    cases hnone

/-- **A write leaves the content that was loaded of HEAD.** -/
theorem Diffs.write (h : Diffs storagePath head path first (s, o)) (hpath : RelativePath path) {key : String}
    (hkey : RelativePath key) (hplain : PlainPath key) (content : Bytes) :
    Diffs storagePath head path (first.or (access path (.write key content now)))
      ((writeFile lib storagePath now s key content).2, Function.update o key (some content)) := by
  have hnormal : normalizePath key = key := hplain
  have hmount := writeFile_mount lib storagePath now s key content
  have hget := writeFile_get? lib storagePath now s key content
  have hstored := writeFile_stored lib storagePath now s key content (q := path)
  have hcheckout := writeFile_checkout lib storagePath now s key content (q := path)
  rw [hnormal] at hget hstored hcheckout
  refine ⟨?_, fun q vfile hsome => ?_, fun c hhead => ?_, fun vfile hsome => ?_, fun hnone => ?_⟩
  · simp only [hmount]
    exact h.apart
  · rw [hget] at hsome
    split_ifs at hsome with hq
    · cases hsome
      exact (writtenFile_spec lib now _ key content (h.keys key)).1.trans hq.symm
    · exact h.keys q vfile hsome
  · simp only [hmount]
    exact (hcheckout (h.keys key) hkey h.apart hpath).trans (h.checkout c hhead)
  · rw [hget] at hsome
    split_ifs at hsome with hq
    · subst hq
      cases hsome
      rw [access, if_pos rfl]
      exact h.entry_written content
    · rw [access, if_neg (Ne.symm hq), Option.or_none]
      exact (h.entry vfile hsome).congr (Function.update_of_ne hq _ _) (hstored (h.keys key) hkey hpath hq)
  · rw [hget] at hnone
    split_ifs at hnone with hq
    rw [access, if_neg (Ne.symm hq), Option.or_none]
    simp only
    rw [Function.update_of_ne hq, hstored (h.keys key) hkey hpath hq]
    exact h.noEntry hnone

/-- **A deletion leaves it as well.** -/
theorem Diffs.delete (h : Diffs storagePath head path first (s, o)) {key : String} (htracked : DeleteTracked head s key) :
    Diffs storagePath head path first ((deleteFile now s key).2, Function.update o key none) := by
  obtain ⟨hdisk, hlocal, hsession⟩ := deleteFile_frame now s key
  have hstored : (deleteFile now s key).2.disk.contentAt (getModifiedPath storagePath (deleteFile now s key).2.mount path) =
      s.disk.contentAt (getModifiedPath storagePath s.mount path) := by
    rw [getModifiedPath_deleteFile, hdisk]
  refine ⟨?_, fun q vfile hsome => ?_, fun c hhead => ?_, fun vfile hsome => ?_, fun hnone => ?_⟩
  · unfold RootsApart sessionDir
    simp only [hlocal, hsession]
    exact h.apart
  · rw [deleteFile_get?, htracked.plain] at hsome
    split_ifs at hsome with hq
    · obtain ⟨old, hold, hsome⟩ := Option.bind_eq_some_iff.mp hsome
      split_ifs at hsome
      cases hsome
      exact h.keys q old hold
    · exact h.keys q vfile hsome
  · simp only [hdisk, hlocal]
    exact h.checkout c hhead
  · rw [deleteFile_get?, htracked.plain] at hsome
    split_ifs at hsome with hq
    · obtain ⟨old, hold, hsome⟩ := Option.bind_eq_some_iff.mp hsome
      split_ifs at hsome
      cases hsome
      exact ⟨(h.entry old hold).base, fun _ hloaded => (by cases hloaded), fun _ => rfl, fun _ hstatus => absurd rfl hstatus⟩
    · exact (h.entry vfile hsome).congr (Function.update_of_ne hq _ _) hstored
  · rw [deleteFile_get?, htracked.plain] at hnone
    simp only
    rw [hstored]
    split_ifs at hnone with hq
    · have hhead : head path = none := by
        by_contra hne
        rw [hq] at hne hnone
        obtain ⟨vfile, hget, hadded⟩ := htracked.listed hne
        rw [hget, Option.bind_some, if_neg hadded] at hnone
        cases hnone
      rw [hq, Function.update_self, ← hq]
      exact ⟨hhead.symm, fun hne => absurd hhead hne⟩
    · rw [Function.update_of_ne hq]
      exact h.noEntry hnone

/-- Reading another path changes nothing here. -/
theorem Diffs.read_other (h : Diffs storagePath head path first (s, o)) {key : String} (hplain : PlainPath key)
    (hne : key ≠ path) (load : Bool) : Diffs storagePath head path first ((readFile storagePath now s key load).2, o) := by
  have hnormal : normalizePath key = key := hplain
  have hload : ∀ {s : State} {vfile : VirtualFile}, Diffs storagePath head path first (s, o) → vfile.path = key →
      Diffs storagePath head path first ((Gvfs.loadEntry storagePath s key vfile load).2, o) := by
    intro s vfile h hkey
    unfold Gvfs.loadEntry
    split_ifs
    · cases hloaded : loadContent storagePath s vfile with
      | error e => exact h
      | ok loaded =>
        exact h.setFile ((loadContent_path hloaded).trans hkey) (fun _ => rfl) fun heq => absurd heq hne
    · exact h
  unfold readFile
  simp only [hnormal]
  cases hget : s.mount.files.get? key with
  | some vfile => exact hload h (h.keys key vfile hget)
  | none =>
    simp only
    split_ifs
    · have huntracked : (untrackedFile now key).path = key := rfl
      exact hload (h.setFile huntracked (fun _ => rfl) fun heq => absurd heq hne) rfl
    · exact h

theorem diffs_step {r r' : Run} {op : Op} (hpath : RelativePath path) (h : Diffs storagePath head path first r)
    (hok : Plain storagePath head r.1 op) (hstep : runStep lib storagePath r op = some r') :
    Diffs storagePath head path (first.or (access path op)) r' := by
  cases hstep
  obtain ⟨hkey, hplain, htracked⟩ := hok
  cases op with
  | read key load now =>
    by_cases hne : key = path
    · subst hne
      exact (h.read hplain htracked load).1
    · rw [access, if_neg fun hload => hne hload.1, Option.or_none]
      exact h.read_other hplain hne load
  | write key content now => exact h.write hpath hkey hplain content
  | delete key now =>
    rw [access, Option.or_none]
    exact h.delete htracked

end Steps

/-! ## Runs -/

theorem diffs_run {lib : Library} {storagePath : List String} {head : View} {output : String} {s : State}
    (hfresh : Fresh storagePath head output s) {path : String} (hpath : RelativePath path) {ops : List Op} {r : Run}
    (hrun : exec (runStep lib storagePath) (s, head) ops = some r)
    (hplain : Guarded (runStep lib storagePath) (fun r op => Plain storagePath head r.1 op) (s, head) ops) :
    Diffs storagePath head path (ops.findSome? (access path)) r := by
  induction ops using List.reverseRecOn generalizing r with
  | nil =>
    cases hrun
    exact hfresh.diffs hpath
  | append_singleton ops op ih =>
    obtain ⟨r', hrun', hstep⟩ := (exec_concat_eq_some _).mp hrun
    have h := diffs_step hpath (ih hrun' hplain.of_append) (hplain.last hrun') hstep
    rwa [List.findSome?_append, List.findSome?_singleton]

/-- What `get_diff` prints after a run. -/
theorem Diffs.getDiff_text {storagePath : List String} {head o : View} {t : State} {path : String} {ops : List Op}
    (h : Diffs storagePath head path (ops.findSome? (access path)) (t, o)) (hread : ReadTracked storagePath head t path)
    {now : ℕ} {text : String} (hdiff : (getDiff storagePath now t path).1 = .ok (some text)) :
    text = String.ofList (unifiedDiff path (contentHunks (diffBase head path ops) (o path))) := by
  obtain ⟨found, hfound, hsome⟩ := map_eq_ok_iff.mp hdiff
  obtain ⟨vfile, rfl, hgenerate⟩ := Option.bind_eq_some_iff.mp hsome
  obtain ⟨hkey, hbase, hcontent⟩ := (h.read hread.plain hread true).2 rfl vfile hfound
  have hloaded : vfile.headContent = diffBase head path ops := by
    rw [hbase, diffBase]
    cases ops.findSome? (access path) with
    | none => rfl
    | some b => cases b <;> rfl
  unfold generateDiff at hgenerate
  split_ifs at hgenerate with hchanged
  cases hgenerate
  rw [hkey, hloaded, hcontent]

/-- **In every run from a fresh mount, the hunks of the diff turn HEAD into what the map has, or nothing into it where
the path was written before it was read.** -/
theorem getDiff_patches (lib : Library) (storagePath : List String) {head : View} {output : String} {s : State}
    (hfresh : Fresh storagePath head output s) {ops : List Op} {t : State} {o : View}
    (hrun : exec (runStep lib storagePath) (s, head) ops = some (t, o))
    (hplain : Guarded (runStep lib storagePath) (fun r op => Plain storagePath head r.1 op) (s, head) ops)
    {path : String} (hpath : RelativePath path) (hread : ReadTracked storagePath head t path) {now : ℕ}
    {text : String} (hdiff : (getDiff storagePath now t path).1 = .ok (some text)) :
    ∃ hs, text = String.ofList (unifiedDiff path hs) ∧
      patch hs (diffLines (diffBase head path ops)) = some (diffLines (o path)) ∧
      (text = "" ↔ decodeReplace ((diffBase head path ops).getD []) = decodeReplace ((o path).getD [])) := by
  rw [(diffs_run hfresh hpath hrun hplain).getDiff_text hread hdiff]
  refine ⟨contentHunks (diffBase head path ops) (o path), rfl, patch_hunks _ _ _, ?_⟩
  rw [← contentHunks_eq_nil_iff, ← unifiedDiff_eq_nil_iff path, ← String.ofList_nil, String.ofList_inj]

/-- A file that is read and rewritten. -/
def editedNote : List Op := [.read "note.txt" true 0, .write "note.txt" byeBytes 0]

def editedMount : State := editedNote.foldl (step noteLibrary noteStorage) noteMount

def noteDiff : String := "--- a/note.txt+++ b/note.txt@@ -1 +1 @@-hi\n+bye\n"

theorem plain_note : PlainPath "note.txt" := show normalizePath "note.txt" = "note.txt" by decide +kernel

/-- The note can be read as long as it is not deleted. -/
theorem note_tracked {s : State} (hlisted : ∃ vfile, s.mount.files.get? "note.txt" = some vfile ∧ vfile.status ≠ .deleted)
    (hvisible : s.disk (getModifiedPath noteStorage s.mount "note.txt") ≠ some .directory) :
    ReadTracked noteStorage noteHead s "note.txt" := by
  have hhead : noteHead "note.txt" ≠ none := by decide +kernel
  obtain ⟨vfile, hget, hstatus⟩ := hlisted
  refine ⟨plain_note, fun vfile' hget' => ?_, fun _ _ => hhead, hvisible⟩
  rw [hget] at hget'
  cases hget'
  exact ⟨hstatus, fun _ => hhead⟩

/-- A note that is read, and then written. -/
theorem note_plain (content : Bytes) : Guarded (runStep noteLibrary noteStorage)
    (fun r op => Plain noteStorage noteHead r.1 op) (noteMount, noteHead)
    [.read "note.txt" true 0, .write "note.txt" content 0] := by
  refine ⟨⟨relativePath_note, plain_note, note_tracked ⟨_, rfl, by decide⟩ (by decide +kernel)⟩, fun _ hfirst => ?_⟩
  cases hfirst
  exact ⟨⟨relativePath_note, plain_note, True.intro⟩, fun _ _ => True.intro⟩

theorem note_diff_patches : ∃ hs, noteDiff = String.ofList (unifiedDiff "note.txt" hs) ∧
    patch hs (diffLines (diffBase noteHead "note.txt" editedNote)) =
      some (diffLines (overlay noteHead (.write "note.txt" byeBytes 0) "note.txt")) ∧
    (noteDiff = "" ↔ decodeReplace ((diffBase noteHead "note.txt" editedNote).getD []) =
      decodeReplace ((overlay noteHead (.write "note.txt" byeBytes 0) "note.txt").getD [])) := by
  have hwritten : ∃ vfile, editedMount.mount.files.get? "note.txt" = some vfile ∧ vfile.status ≠ .deleted :=
    ⟨_, rfl, by decide +kernel⟩
  exact getDiff_patches noteLibrary noteStorage noteMount_fresh
    (show exec (runStep noteLibrary noteStorage) (noteMount, noteHead) editedNote = some (editedMount, _) from rfl)
    (note_plain byeBytes) relativePath_note (note_tracked hwritten (by decide +kernel))
    (show (getDiff noteStorage 0 editedMount "note.txt").1 = .ok (some noteDiff) by decide +kernel)

/-! ## Diffs on lines of their own -/

/-- A line of a diff; behind one that does not end stands a note. -/
def ownLine (line : List Char) : List Char :=
  if line.getLast? = some '\n' then line else line ++ "\n\\ No newline at end of file\n".toList

def ownHunk (h : Hunk (List Char)) : List Char :=
  (hunkHeader h ++ "\n").toList ++ h.lines.flatMap fun line => ownLine (markedLine line)

/-- A unified diff in which each header and each line has a line of its own. -/
def wellFormedDiff (path : String) (hs : List (Hunk (List Char))) : List Char :=
  match hs with
  | [] => []
  | hs => ("--- a/" ++ path ++ "\n+++ b/" ++ path ++ "\n").toList ++ hs.flatMap ownHunk

/-- A content as the diff shows it; no content is `b""`. -/
def shownText (content : Option Bytes) : List Char := decodeReplace (content.getD [])

/-- The text is a well-formed diff that turns the one content into the other. -/
def DiffRight (path : String) (old new : Option Bytes) (text : String) : Prop :=
  ∃ hs, text.toList = wellFormedDiff path hs ∧ (patch hs (diffLines old)).map List.flatten = some (shownText new)

theorem flatten_diffLines (content : Option Bytes) : (diffLines content).flatten = shownText content :=
  flatten_splitLinesKeep _ _

/-- The headers that are printed do not end, and so no diff but the empty one is well formed. -/
theorem unifiedDiff_eq_wellFormedDiff_iff {path : String} {hs hs' : List (Hunk (List Char))} :
    unifiedDiff path hs = wellFormedDiff path hs' ↔ hs = [] ∧ hs' = [] := by
  cases hs with
  | nil =>
    cases hs' with
    | nil => simp [unifiedDiff, wellFormedDiff]
    | cons h' hs' => simp [unifiedDiff, wellFormedDiff]
  | cons h hs =>
    cases hs' with
    | nil => simp [unifiedDiff, wellFormedDiff]
    | cons h' hs' =>
      refine iff_of_false (fun heq => ?_) (fun hnil => List.cons_ne_nil _ _ hnil.1)
      simp only [unifiedDiff, wellFormedDiff, String.toList_append, List.append_assoc, List.append_cancel_left_eq] at heq
      exact absurd (List.cons.inj heq).1 (by decide)

theorem diffRight_iff {path : String} {hs : List (Hunk (List Char))} {old new : Option Bytes} :
    DiffRight path old new (String.ofList (unifiedDiff path hs)) ↔ hs = [] ∧ shownText old = shownText new := by
  have hnothing : (patch [] (diffLines old)).map List.flatten = some (shownText old) :=
    congrArg some (flatten_diffLines old)
  constructor
  · rintro ⟨hs', htext, hpatch⟩
    rw [String.toList_ofList] at htext
    obtain ⟨rfl, rfl⟩ := unifiedDiff_eq_wellFormedDiff_iff.mp htext
    exact ⟨rfl, Option.some.inj (hnothing.symm.trans hpatch)⟩
  · rintro ⟨rfl, hsame⟩
    exact ⟨[], String.toList_ofList, hnothing.trans (congrArg some hsame)⟩

/-- What is loaded is still changed or not. -/
theorem loadContent_status {storagePath : List String} {s : State} {vfile loaded : VirtualFile}
    (h : loadContent storagePath s vfile = .ok loaded) : loaded.status = vfile.status := by
  unfold loadContent at h
  simp only at h
  split_ifs at h
  · obtain ⟨content, -, rfl⟩ := map_eq_ok_iff.mp h
    rfl
  · obtain ⟨content, -, rfl⟩ := map_eq_ok_iff.mp h
    rfl
  · rw [← Except.ok.inj h]

/-- A path with changes has a diff. -/
theorem Diffs.exists_diff {storagePath : List String} {head o : View} {t : State} {path : String} {first : Option Bool}
    (h : Diffs storagePath head path first (t, o)) (hread : ReadTracked storagePath head t path) {vfile : VirtualFile}
    (hget : t.mount.files.get? path = some vfile) (hchanged : vfile.hasChanges = true) (now : ℕ) :
    ∃ text, (getDiff storagePath now t path).1 = .ok (some text) := by
  obtain ⟨hstatus, hhead⟩ := hread.entry vfile hget
  obtain ⟨e, he, -⟩ := (h.loadEntry now hget hstatus hhead hread.visible true).2 rfl
  have hsame : e.status = vfile.status := by
    unfold Gvfs.loadEntry at he
    split_ifs at he
    · cases hloaded : loadContent storagePath t vfile with
      | error err =>
        rw [hloaded] at he
        cases he
      | ok loaded =>
        rw [hloaded] at he
        obtain rfl := Option.some.inj (Except.ok.inj he)
        exact loadContent_status hloaded
    · obtain rfl := Option.some.inj (Except.ok.inj he)
      rfl
  have hnormal : normalizePath path = path := hread.plain
  have hfile : (readFile storagePath now t path true).1 = .ok (some e) := by
    unfold readFile
    simp only [hnormal, hget]
    exact he
  have hstill : e.hasChanges = true := by
    unfold VirtualFile.hasChanges at hchanged ⊢
    rw [hsame]
    exact hchanged
  refine ⟨String.ofList (unifiedDiff e.path (contentHunks e.headContent e.content)), ?_⟩
  unfold getDiff generateDiff
  simp [hfile, hstill, Except.map]

/-- **In every run from a fresh mount, the diff of a path with changes is right exactly when there is nothing to show:
the content is the one of HEAD, and it was loaded before the path was written, or it is empty.** -/
theorem diff_right_iff (lib : Library) (storagePath : List String) {head : View} {output : String} {s : State}
    (hfresh : Fresh storagePath head output s) {ops : List Op} {t : State} {o : View}
    (hrun : exec (runStep lib storagePath) (s, head) ops = some (t, o))
    (hplain : Guarded (runStep lib storagePath) (fun r op => Plain storagePath head r.1 op) (s, head) ops)
    {path : String} (hpath : RelativePath path) (hread : ReadTracked storagePath head t path)
    (hchanged : ∃ vfile, t.mount.files.get? path = some vfile ∧ vfile.hasChanges = true) (now : ℕ) :
    (∃ text, (getDiff storagePath now t path).1 = .ok (some text) ∧ DiffRight path (head path) (o path) text) ↔
      shownText (head path) = shownText (o path) ∧
        (ops.findSome? (access path) = some false → shownText (o path) = []) := by
  have hdiffs := diffs_run hfresh hpath hrun hplain
  obtain ⟨vfile, hget, hchanges⟩ := hchanged
  obtain ⟨text, htext⟩ := hdiffs.exists_diff hread hget hchanges now
  have hdiff : DiffRight path (head path) (o path) text ↔
      shownText (diffBase head path ops) = shownText (o path) ∧ shownText (head path) = shownText (o path) := by
    rw [hdiffs.getDiff_text hread htext, diffRight_iff, contentHunks_eq_nil_iff]
    exact Iff.rfl
  have hright : (∃ text, (getDiff storagePath now t path).1 = .ok (some text) ∧
      DiffRight path (head path) (o path) text) ↔ DiffRight path (head path) (o path) text := by
    refine ⟨?_, fun hright => ⟨text, htext, hright⟩⟩
    rintro ⟨text', htext', hright⟩
    obtain rfl := Option.some.inj (Except.ok.inj (htext.symm.trans htext'))
    exact hright
  rw [hright, hdiff, diffBase]
  constructor
  · rintro ⟨hbase, hsame⟩
    refine ⟨hsame, fun hwritten => ?_⟩
    rw [if_pos hwritten] at hbase
    exact hbase.symm
  · rintro ⟨hsame, hwritten⟩
    refine ⟨?_, hsame⟩
    split_ifs with hfirst
    · exact (hwritten hfirst).symm
    · exact hsame

/-- A file that is read and written as it was; the digest is none that git prints, and so it counts as modified. -/
def rewrittenOps : List Op := [.read "note.txt" true 0, .write "note.txt" hiBytes 0]

def rewrittenMount : State := rewrittenOps.foldl (step noteLibrary noteStorage) noteMount

theorem rewritten_diff_right : ∃ text, (getDiff noteStorage 0 rewrittenMount "note.txt").1 = .ok (some text) ∧
    DiffRight "note.txt" (noteHead "note.txt") (overlay noteHead (.write "note.txt" hiBytes 0) "note.txt") text := by
  have hwritten : ∃ vfile, rewrittenMount.mount.files.get? "note.txt" = some vfile ∧ vfile.status = .modified :=
    ⟨_, rfl, by decide +kernel⟩
  obtain ⟨vfile, hget, hmodified⟩ := hwritten
  have hchanges : vfile.hasChanges = true := by
    unfold VirtualFile.hasChanges
    rw [hmodified]
    rfl
  exact (diff_right_iff noteLibrary noteStorage noteMount_fresh
    (show exec (runStep noteLibrary noteStorage) (noteMount, noteHead) rewrittenOps = some (rewrittenMount, _) from rfl)
    (note_plain hiBytes) relativePath_note
    (note_tracked ⟨vfile, hget, by rw [hmodified]; decide⟩ (by decide +kernel)) ⟨vfile, hget, hchanges⟩ 0).mpr
    ⟨by decide +kernel, fun hwritten => absurd hwritten (by decide)⟩

/-- The diff of a changed line begins with both headers on one line. -/
theorem edited_diff_not_right : ¬ ∀ (lib : Library) (storagePath : List String) (head : View) (output : String) (s : State)
    (ops : List Op) (t : State) (o : View) (path : String) (now : ℕ), Fresh storagePath head output s →
    RelativePath path → (∀ op ∈ ops, op.path = path) → exec (runStep lib storagePath) (s, head) ops = some (t, o) →
    (∃ vfile, t.mount.files.get? path = some vfile ∧ vfile.hasChanges = true) →
    ∃ text, (getDiff storagePath now t path).1 = .ok (some text) ∧ DiffRight path (head path) (o path) text := by
  intro h
  obtain ⟨text, htext, hright⟩ := h noteLibrary noteStorage noteHead noteListing noteMount editedNote editedMount _
    "note.txt" 0 noteMount_fresh relativePath_note (by simp [editedNote, Op.path]) rfl ⟨_, rfl, by decide +kernel⟩
  have hprinted : (getDiff noteStorage 0 editedMount "note.txt").1 =
      .ok (some (String.ofList (unifiedDiff "note.txt" (contentHunks (some hiBytes) (some byeBytes))))) := by
    decide +kernel
  obtain rfl := Option.some.inj (Except.ok.inj (hprinted.symm.trans htext))
  have hsame := (diffRight_iff.mp hright).2
  exact absurd hsame (by decide +kernel)

end KernelRuntime.Gvfs
