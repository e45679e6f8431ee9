import KernelRuntime.Foundations.TextReplace
import KernelRuntime.Memory.ContextBuilder
import KernelRuntime.Security.Crypto
import KernelRuntime.Storage.Commit

/-! # The mounts of the sessions

`GitVirtualFileSystem` keeps one mount for each session. `mount_repository` gives the mount that is there
when its URL and branch are the requested ones, else it builds one: from the state file of the session when
there is one, else from a clone. A clone with a token writes the token into the URL of the mount. -/

namespace KernelRuntime.Gvfs
set_option autoImplicit false

/-! ## The runtime -/

/-- What `git clone`, and `git checkout` after it, leave in a directory: the files by their paths in it, the
tree of HEAD, and the output of `git ls-tree -r HEAD`. -/
structure Clone where
  files : FileTree
  head : View
  listing : String

/-- The libraries, git and the directories. `gitClone` takes the command, `GITHUB_TOKEN`, the commit to check
out, the files of the directory and the time; an error is what it printed. `sessionRoot` is
`get_session_root` for the tenant of the session. -/
structure Deployment where
  lib : Library
  fernet : Fernet
  git : Git
  gitClone : List String → Option String → Option String → FileTree → ℕ → Except String Clone
  storagePath : List String
  sessionRoot : String → List String
  /-- The metadata and the clones of a session lie apart. -/
  apart : ∀ sessionId, ¬ sessionRoot sessionId <+: storagePath ++ ["sessions", sessionId] ∧
    ¬ storagePath ++ ["sessions", sessionId] <+: sessionRoot sessionId

/-- A mount with the encrypted token that it was made with. -/
structure Mounted where
  mount : SessionMount
  authToken : Option String

/-- `_mounts`, the disk, and the tree of HEAD in each directory. -/
structure Sessions where
  mounts : OrderedDict String Mounted
  disk : FileTree
  heads : List String → View

/-! ## Cloning -/

/-- `repo_url.split("/")[-1].replace(".git", "")`. -/
def repoName (repoUrl : String) : String :=
  String.ofList (replaceAll ".git".toList [] ((repoUrl.toList.splitOn '/').getLast?.getD []))

/-- `get_session_root(tenant_id, session_id) / "repos" / repo_name`. -/
@[irreducible] def localPath (d : Deployment) (sessionId repoUrl : String) : List String :=
  diskPath (d.sessionRoot sessionId ++ ["repos"]) (repoName repoUrl)

def cloneCommand (repoUrl branch : String) (commitSha : Option String) (localPath : List String) :
    List String :=
  if (truthyText commitSha).isSome then ["git", "clone", repoUrl, pathText localPath]
  else ["git", "clone", "--depth", "1", "--branch", branch, repoUrl, pathText localPath]

def githubPrefix : List Char := "https://github.com/".toList

/-- `f"https://\x7btoken\x7d@github.com/"`. -/
def githubPrefixWith (token : String) : List Char := "https://".toList ++ token.toList ++ "@github.com/".toList

/-- `"github.com" in repo_url`. -/
def OnGithub (repoUrl : String) : Prop := "github.com".toList <:+: repoUrl.toList

instance (repoUrl : String) : Decidable (OnGithub repoUrl) := inferInstanceAs (Decidable (_ <:+: _))

def githubToken (fernet : Fernet) (repoUrl : String) (authToken : Option String) : Option String :=
  match truthyText authToken with
  | some encrypted => if OnGithub repoUrl then some (decryptString fernet encrypted) else none
  | none => none

/-- `mount.repo_url` after the token was read. -/
def clonedUrl (fernet : Fernet) (repoUrl : String) (authToken : Option String) : String :=
  match githubToken fernet repoUrl authToken with
  | some token => String.ofList (replaceAll githubPrefix (githubPrefixWith token) repoUrl.toList)
  | none => repoUrl

def directoryAt (disk : FileTree) (directory : List String) : FileTree := fun rest => disk (directory ++ rest)

/-- The disk with these files in a directory. -/
def withDirectory (disk : FileTree) (directory : List String) (files : FileTree) : FileTree := fun q =>
  if directory <+: q then files (q.drop directory.length) else disk q

def cloneRepository (d : Deployment) (now : ℕ) (s : Sessions) (mount : SessionMount)
    (authToken : Option String) : Except PyError SessionMount × Sessions :=
  match d.gitClone (cloneCommand mount.repoUrl mount.branch mount.commitSha mount.localPath)
      (githubToken d.fernet mount.repoUrl authToken) (truthyText mount.commitSha)
      (directoryAt s.disk mount.localPath) now with
  | .error stderr => (.error ⟨.other, "Git clone failed: " ++ stderr⟩, s)
  | .ok clone =>
    ((indexRepository now clone.listing).map fun files =>
        { mount with repoUrl := clonedUrl d.fernet mount.repoUrl authToken, files := files },
      { s with disk := withDirectory s.disk mount.localPath clone.files,
               heads := Function.update s.heads mount.localPath clone.head })

/-! ## Mounting -/

structure MountCall where
  sessionId : String
  repoUrl : String
  branch : String
  commitSha : Option String
  authToken : Option String
deriving DecidableEq

/-- `SessionMount(...)`, with the path that `_initialize_mount` sets first. -/
def newMount (d : Deployment) (call : MountCall) : SessionMount where
  sessionId := call.sessionId
  repoUrl := call.repoUrl
  branch := call.branch
  commitSha := call.commitSha
  localPath := localPath d call.sessionId call.repoUrl
  virtualRoot := "/workspace"
  files := OrderedDict.empty
  lastSync := none

/-- The end of `_initialize_mount`. -/
def synced (now : ℕ) (mount : SessionMount) : SessionMount := { mount with lastSync := some now }

def initializeMount (d : Deployment) (now : ℕ) (s : Sessions) (mount : SessionMount)
    (authToken : Option String) : Except PyError SessionMount × Sessions :=
  match s.disk.makeDirectory mount.localPath with
  | .error e => (.error e, s)
  | .ok disk =>
    let stateFile := stateFile d.storagePath mount
    if disk.pathExists stateFile then
      ((restoreMountState d.lib mount disk stateFile).map (synced now), { s with disk := disk })
    else
      let cloned := cloneRepository d now { s with disk := disk } mount authToken
      (cloned.1.map (synced now), cloned.2)

/-- The mount of the session, when it has the URL and the branch of the call. -/
def currentMount (s : Sessions) (call : MountCall) : Option Mounted :=
  (s.mounts.get? call.sessionId).filter fun m =>
    decide (m.mount.repoUrl = call.repoUrl ∧ m.mount.branch = call.branch)

def mountRepository (d : Deployment) (now : ℕ) (s : Sessions) (call : MountCall) :
    Except PyError Mounted × Sessions :=
  match currentMount s call with
  | some m => (.ok m, s)
  | none =>
    let initialized := initializeMount d now s (newMount d call) call.authToken
    (initialized.1.map fun mount => ⟨mount, call.authToken⟩,
      match initialized.1 with
      | .error _ => initialized.2
      | .ok mount =>
        { initialized.2 with
            mounts := initialized.2.mounts.set call.sessionId ⟨mount, call.authToken⟩ })

/-! ## The other operations -/

def Mounted.state (m : Mounted) (disk : FileTree) : State := ⟨m.mount, disk⟩

def Sessions.put (s : Sessions) (sessionId : String) (m : Mounted) (state : State) : Sessions :=
  { s with mounts := s.mounts.set sessionId { m with mount := state.mount }, disk := state.disk }

/-- `unmount` of a mount that is taken out of the table: the state is saved, or the directory of the session
removed. -/
def unmountDisk (d : Deployment) (m : Mounted) (disk : FileTree) (persist : Bool) : FileTree :=
  if persist then (saveMountState d.lib d.storagePath (m.state disk)).2.disk
  else
    let sessionDir := sessionDir d.storagePath m.mount
    if disk.pathExists sessionDir then
      match disk.removeTree sessionDir with
      | .error _ => disk
      | .ok disk' => disk'
    else disk

inductive Request where
  | mount (call : MountCall) (now : ℕ)
  | file (sessionId : String) (op : Op)
  | commit (sessionId message : String) (author : Option String)
  | unmount (sessionId : String) (persist : Bool)
deriving DecidableEq

/-- An operation on the mount of a session; without a mount it changes nothing. -/
def Sessions.onMount (s : Sessions) (sessionId : String) (f : Mounted → Sessions) : Sessions :=
  match s.mounts.get? sessionId with
  | none => s
  | some m => f m

/-- The sessions after a request, whether it returns or raises. -/
def perform (d : Deployment) (s : Sessions) : Request → Sessions
  | .mount call now => (mountRepository d now s call).2
  | .file sessionId op => s.onMount sessionId fun m =>
      s.put sessionId m (step d.lib d.storagePath (m.state s.disk) op)
  | .commit sessionId message author => s.onMount sessionId fun m =>
      let done := commitChanges d.lib d.git d.storagePath (s.heads m.mount.localPath) (m.state s.disk)
        message author
      { s.put sessionId m done.2.2 with heads := Function.update s.heads m.mount.localPath done.2.1 }
  | .unmount sessionId persist => s.onMount sessionId fun m =>
      { s with mounts := s.mounts.erase sessionId, disk := unmountDisk d m s.disk persist }

end KernelRuntime.Gvfs
