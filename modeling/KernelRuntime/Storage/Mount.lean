import KernelRuntime.Foundations.FileTree
import KernelRuntime.Governance.Paths

/-! # A git repository mounted for a session

The virtual file system keeps an index of files in memory. Contents are read when they are asked for:
from the session's directory of changed files, else from the clone. Every write goes to that directory
and to a state file, from which a mount is rebuilt. A call takes the time at which it runs. -/

namespace KernelRuntime.Gvfs
set_option autoImplicit false

/-! ## The index -/

inductive FileStatus where
  | unchanged
  | modified
  | added
  | deleted
  | conflict
  | untracked
deriving DecidableEq

namespace FileStatus

def value : FileStatus → String
  | .unchanged => "unchanged"
  | .modified => "modified"
  | .added => "added"
  | .deleted => "deleted"
  | .conflict => "conflict"
  | .untracked => "untracked"

/-- `FileStatus(value)`. -/
def ofValue (text : String) : Except PyError FileStatus :=
  match [unchanged, modified, added, deleted, conflict, untracked].find? fun s => s.value = text with
  | some status => .ok status
  | none => .error ⟨.valueError, "'" ++ text ++ "' is not a valid FileStatus"⟩

@[simp] theorem ofValue_value (status : FileStatus) : ofValue status.value = .ok status := by
  cases status <;> decide

end FileStatus

structure VirtualFile where
  path : String
  content : Option Bytes
  sha : String
  size : ℕ
  status : FileStatus
  modifiedAt : ℕ
  headSha : Option String
  headContent : Option Bytes
deriving DecidableEq

def VirtualFile.hasChanges (vfile : VirtualFile) : Bool :=
  decide (vfile.status ∈ [FileStatus.modified, .added, .deleted])

structure SessionMount where
  sessionId : String
  repoUrl : String
  branch : String
  commitSha : Option String
  localPath : List String
  virtualRoot : String
  files : OrderedDict String VirtualFile
  lastSync : Option ℕ

/-- The index and the disk. -/
structure State where
  mount : SessionMount
  disk : FileTree

def State.setFile (s : State) (path : String) (vfile : VirtualFile) : State :=
  { s with mount := { s.mount with files := s.mount.files.set path vfile } }

/-! ## What is called -/

/-- An entry of the state file. -/
structure SavedFile where
  path : String
  sha : String
  size : ℕ
  status : String
  headSha : Option String
  modifiedAt : String
deriving DecidableEq

structure SavedState where
  sessionId : String
  repoUrl : String
  branch : String
  commitSha : Option String
  virtualRoot : String
  files : List SavedFile
  lastSync : Option String
deriving DecidableEq

/-- `hashlib`, `json` and the texts of `datetime`. -/
structure Library where
  sha256Hex : Bytes → String
  dumps : SavedState → Bytes
  loads : Bytes → Except PyError SavedState
  isoformat : ℕ → String
  fromisoformat : String → Except PyError ℕ
  sha256Hex_length : ∀ content, (sha256Hex content).length = 64
  isoformat_ne_empty : ∀ time, isoformat time ≠ ""
  fromisoformat_isoformat : ∀ time, fromisoformat (isoformat time) = .ok time

/-- `hashlib.sha256(content).hexdigest()[:16]`. -/
def Library.shortSha (lib : Library) (content : Bytes) : String :=
  String.ofList ((lib.sha256Hex content).toList.take 16)

theorem Library.shortSha_length (lib : Library) (content : Bytes) : (lib.shortSha content).length = 16 := by
  have hlength : (lib.sha256Hex content).toList.length = 64 := by
    rw [String.length_toList, lib.sha256Hex_length]
  unfold Library.shortSha
  rw [String.length_ofList, List.length_take, hlength]
  rfl

/-! ## Paths -/

/-- `s.replace(old, "", 1)`: the first occurrence goes, wherever it is. -/
def removeFirst (old : List Char) : List Char → List Char
  | [] => []
  | c :: cs =>
    if old.isPrefixOf (c :: cs) then (c :: cs).drop old.length else c :: removeFirst old cs

/-- `path.lstrip("/").replace("workspace/", "", 1)`. -/
def normalizePath (path : String) : String :=
  String.ofList (removeFirst "workspace/".toList (path.toList.dropWhile (· = '/')))

/-- `root / path` on the disk: an absolute path replaces the root. -/
def diskPath (root : List String) (path : String) : List String :=
  (pathNames path).foldl walk (if isAbsolute path then [] else root)

/-- The directory of the session under the storage path. -/
def sessionDir (storagePath : List String) (mount : SessionMount) : List String :=
  storagePath ++ ["sessions", mount.sessionId]

def getModifiedPath (storagePath : List String) (mount : SessionMount) (path : String) : List String :=
  diskPath (sessionDir storagePath mount ++ ["changes"]) path

def stateFile (storagePath : List String) (mount : SessionMount) : List String :=
  sessionDir storagePath mount ++ ["vfs_state.json"]

/-! ## The state file -/

def saveFile (lib : Library) (vfile : VirtualFile) : SavedFile :=
  ⟨vfile.path, vfile.sha, vfile.size, vfile.status.value, vfile.headSha, lib.isoformat vfile.modifiedAt⟩

def saveMount (lib : Library) (mount : SessionMount) : SavedState where
  sessionId := mount.sessionId
  repoUrl := mount.repoUrl
  branch := mount.branch
  commitSha := mount.commitSha
  virtualRoot := mount.virtualRoot
  files := mount.files.values.map (saveFile lib)
  lastSync := mount.lastSync.map lib.isoformat

def saveMountState (lib : Library) (storagePath : List String) (s : State) : Except PyError Unit × State :=
  let stored := s.disk.store (stateFile storagePath s.mount) (lib.dumps (saveMount lib s.mount))
  (stored.1, { s with disk := stored.2 })

/-- `persist_file_change`, for the content that the file has. -/
def persistFileChange (lib : Library) (storagePath : List String) (s : State) (vfile : VirtualFile)
    (content : Bytes) : Except PyError Unit × State :=
  let stored := s.disk.store (getModifiedPath storagePath s.mount vfile.path) content
  match stored.1 with
  | .error e => (.error e, { s with disk := stored.2 })
  | .ok () => saveMountState lib storagePath { s with disk := stored.2 }

def restoreFile (lib : Library) (fstate : SavedFile) : Except PyError VirtualFile := do
  let status ← FileStatus.ofValue fstate.status
  let modifiedAt ← lib.fromisoformat fstate.modifiedAt
  return ⟨fstate.path, none, fstate.sha, fstate.size, status, modifiedAt, fstate.headSha, none⟩

/-- The loop of `restore_mount_state` over the files. -/
def restoreFiles (lib : Library) (files : OrderedDict String VirtualFile) :
    List SavedFile → Except PyError (OrderedDict String VirtualFile)
  | [] => .ok files
  | fstate :: rest =>
    match restoreFile lib fstate with
    | .error e => .error e
    | .ok vfile => restoreFiles lib (files.set vfile.path vfile) rest

/-- `datetime.fromisoformat(text) if text else None`. -/
def restoreTime (lib : Library) (text : Option String) : Except PyError (Option ℕ) :=
  match text.filter fun text => decide (text ≠ "") with
  | some text => (lib.fromisoformat text).map some
  | none => .ok none

def restoreMountState (lib : Library) (mount : SessionMount) (disk : FileTree)
    (stateFile : List String) : Except PyError SessionMount := do
  let text ← disk.read stateFile
  let state ← lib.loads text
  let files ← restoreFiles lib mount.files state.files
  let lastSync ← restoreTime lib state.lastSync
  return { mount with repoUrl := state.repoUrl, branch := state.branch, commitSha := state.commitSha,
                      virtualRoot := state.virtualRoot, files := files, lastSync := lastSync }

/-! ## The index of a clone -/

/-- `str.isspace`. -/
def isWhitespace (c : Char) : Bool :=
  decide ((9 ≤ c.toNat ∧ c.toNat ≤ 13) ∨ (28 ≤ c.toNat ∧ c.toNat ≤ 32) ∨ c.toNat = 0x85 ∨
    c.toNat = 0xa0 ∨ c.toNat = 0x1680 ∨ (0x2000 ≤ c.toNat ∧ c.toNat ≤ 0x200a) ∨ c.toNat = 0x2028 ∨
    c.toNat = 0x2029 ∨ c.toNat = 0x202f ∨ c.toNat = 0x205f ∨ c.toNat = 0x3000)

/-- `text.strip()`. -/
def strip (cs : List Char) : List Char :=
  ((cs.dropWhile isWhitespace).reverse.dropWhile isWhitespace).reverse

/-- `text.split()`. -/
def words (cs : List Char) : List (List Char) := (cs.splitOnP isWhitespace).filter fun w => decide (w ≠ [])

/-- `stdout.decode().strip().split("\n")`. -/
def outputLines (output : String) : List (List Char) := (strip output.toList).splitOn '\n'

/-- A line of `git ls-tree -r HEAD`: the path that it names, and the object. -/
def indexLine (line : List Char) : Except PyError (Option (String × String)) :=
  match line.splitOn '\t' with
  | [info, path] =>
    match (words info)[2]? with
    | some sha => .ok (some (String.ofList path, String.ofList sha))
    | none => .error ⟨.other, "list index out of range"⟩
  | _ => .ok none

/-- A file of the index. -/
def indexedFile (now : ℕ) (path sha : String) : VirtualFile := ⟨path, none, sha, 0, .unchanged, now, some sha, none⟩

/-- The loop of `index_repository`. -/
def indexLines (now : ℕ) (files : OrderedDict String VirtualFile) :
    List (List Char) → Except PyError (OrderedDict String VirtualFile)
  | [] => .ok files
  | line :: rest =>
    match indexLine line with
    | .error e => .error e
    | .ok none => indexLines now files rest
    | .ok (some (path, sha)) => indexLines now (files.set path (indexedFile now path sha)) rest

/-- `index_repository`, from the output of git. -/
def indexRepository (now : ℕ) (output : String) : Except PyError (OrderedDict String VirtualFile) :=
  indexLines now OrderedDict.empty (outputLines output)

/-! ## Files -/

def loadContent (storagePath : List String) (s : State) (vfile : VirtualFile) :
    Except PyError VirtualFile :=
  let modifiedPath := getModifiedPath storagePath s.mount vfile.path
  let filePath := diskPath s.mount.localPath vfile.path
  if s.disk.pathExists modifiedPath then
    (s.disk.read modifiedPath).map fun content =>
      { vfile with content := some content, size := content.length }
  else if s.disk.pathExists filePath then
    (s.disk.read filePath).map fun content =>
      { vfile with content := some content, headContent := some content, headSha := some vfile.sha,
                   size := content.length }
  else .ok { vfile with size := (vfile.content.map List.length).getD 0 }

theorem loadContent_path {storagePath : List String} {s : State} {vfile loaded : VirtualFile}
    (h : loadContent storagePath s vfile = .ok loaded) : loaded.path = vfile.path := by
  unfold loadContent at h
  simp only at h
  split_ifs at h
  · obtain ⟨content, -, rfl⟩ := map_eq_ok_iff.mp h
    rfl
  · obtain ⟨content, -, rfl⟩ := map_eq_ok_iff.mp h
    rfl
  · rw [← Except.ok.inj h]

/-- A path on the disk that is not in the index. -/
def untrackedFile (now : ℕ) (path : String) : VirtualFile := ⟨path, none, "", 0, .untracked, now, none, none⟩

/-- The end of `read_file`: the content is loaded into the entry when it is asked for. -/
def loadEntry (storagePath : List String) (s : State) (path : String) (vfile : VirtualFile)
    (load : Bool) : Except PyError (Option VirtualFile) × State :=
  if load = true ∧ vfile.content = none then
    match loadContent storagePath s vfile with
    | .error e => (.error e, s)
    | .ok loaded => (.ok (some loaded), s.setFile path loaded)
  else (.ok (some vfile), s)

/-- `FilesystemAPI.read_file`. -/
def readFile (storagePath : List String) (now : ℕ) (s : State) (path : String) (load : Bool) :
    Except PyError (Option VirtualFile) × State :=
  let key := normalizePath path
  match s.mount.files.get? key with
  | some vfile => loadEntry storagePath s key vfile load
  | none =>
    if s.disk.pathExists (diskPath s.mount.localPath key) then
      let vfile := untrackedFile now key
      loadEntry storagePath (s.setFile key vfile) key vfile load
    else (.ok none, s)

/-- What `write_file` makes of the entry of a path. -/
def writtenFile (lib : Library) (now : ℕ) (entry : Option VirtualFile) (path : String) (content : Bytes) :
    VirtualFile :=
  let newSha := lib.shortSha content
  match entry with
  | some vfile =>
    let status := if some newSha ≠ vfile.headSha then FileStatus.modified else .unchanged
    { vfile with status := status, content := some content,
                 sha := if status = .modified then newSha else vfile.headSha.getD "",
                 modifiedAt := now }
  | none => ⟨path, some content, newSha, content.length, .added, now, none, none⟩

/-- `FilesystemAPI.write_file`. -/
def writeFile (lib : Library) (storagePath : List String) (now : ℕ) (s : State) (path : String)
    (content : Bytes) : Except PyError VirtualFile × State :=
  let key := normalizePath path
  let vfile := writtenFile lib now (s.mount.files.get? key) key content
  let persisted := persistFileChange lib storagePath (s.setFile key vfile) vfile content
  (persisted.1.map fun _ => vfile, persisted.2)

/-- `FilesystemAPI.delete_file`. -/
def deleteFile (now : ℕ) (s : State) (path : String) : Bool × State :=
  let key := normalizePath path
  match s.mount.files.get? key with
  | some vfile =>
    if vfile.status = .added then
      (true, { s with mount := { s.mount with files := s.mount.files.erase key } })
    else (true, s.setFile key { vfile with status := .deleted, content := none, modifiedAt := now })
  | none => (false, s)

/-- `f.path.startswith(path + "/") or f.path == path`. -/
def isUnder (path : String) (vfile : VirtualFile) : Bool :=
  (path ++ "/").toList.isPrefixOf vfile.path.toList || decide (vfile.path = path)

/-- `FilesystemAPI.list_directory`. -/
def listDirectory (s : State) (path : String) : List VirtualFile :=
  let key := normalizePath path
  let files := s.mount.files.values.filter fun f => decide (f.status ≠ .deleted)
  let under := if key ≠ "." then files.filter (isUnder key) else files
  under.mergeSort fun f g => decide (f.path ≤ g.path)

/-! ## Changes -/

structure Changes where
  modified : List VirtualFile
  added : List VirtualFile
  deleted : List VirtualFile

/-- `ChangesAPI.get_changes`. -/
def getChanges (mount : SessionMount) : Changes where
  modified := mount.files.values.filter fun f => decide (f.status = .modified)
  added := mount.files.values.filter fun f => decide (f.status = .added)
  deleted := mount.files.values.filter fun f => decide (f.status = .deleted)

end KernelRuntime.Gvfs
