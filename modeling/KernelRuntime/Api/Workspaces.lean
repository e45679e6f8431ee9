import KernelRuntime.Foundations.Execution
import KernelRuntime.Foundations.FileTree
import KernelRuntime.Governance.PathAgreement
import KernelRuntime.Tools.BashExecute

/-! # Workspaces of a session, and where its commands run

The session routes make a directory for every workspace, under `tenant_<tenant>`. The sandbox resolves the
folder of a command in the root of the session, under `t_<tenant>/s_<session>`. The two meet only if
something else made the folder there, and the local runner falls back to the directory of the process. -/

namespace KernelRuntime.Workspaces
set_option autoImplicit false

open AgentLoop ToolExecution PathAgreement

structure WorkspaceBinding where
  type : String
  path : Option String
  url : Option String
  slug : Option String
deriving DecidableEq

/-- A row of the table of workspaces. -/
structure WorkspaceModel where
  tenantId : String
  slug : String
deriving DecidableEq

/-- `existing` are the paths that are there. -/
structure State where
  workspaces : List WorkspaceModel
  sessions : List SessionModel
  existing : List (List String)
deriving DecidableEq

def State.init : State := ⟨[], [], []⟩

/-! ## Binding workspaces -/

/-- `.lower().replace(" ", "-")[:64]`. -/
def slugText (lower : String → String) (name : String) : String :=
  String.ofList (((lower name).toList.map fun c => if c = ' ' then '-' else c).take 64)

/-- `url.rstrip("/").split("/")[-1]`, without `.git`. -/
def repositoryName (url : String) : String :=
  let trimmed := (url.toList.reverse.dropWhile (· = '/')).reverse
  let name := (splitPath [] trimmed).getLast?.getD ""
  match name.toList.reverse.dropPrefix? ".git".toList.reverse with
  | some rest => String.ofList rest.reverse
  | none => name

/-- `make_slug`. The last argument is the hex text of a fresh identifier. -/
def makeSlug (lower : String → String) (ws : WorkspaceBinding) (hex : String) : String :=
  let slug := ws.slug.getD ""
  let path := ws.path.getD ""
  let url := ws.url.getD ""
  if slug ≠ "" then slug
  else if ws.type = "local" ∧ path ≠ "" then slugText lower ((pureParts path).getLast?.getD "")
  else if ws.type = "git" ∧ url ≠ "" then slugText lower (repositoryName url)
  else "workspace-" ++ shortId hex

/-- `workspace_root() / f"tenant_{tenant_id}" / slug`. -/
def workspaceDirectory (fs : FileSystem) (tenantId slug : String) : String :=
  if isAbsolute slug then slug else fs.workspaceRoot ++ "/tenant_" ++ tenantId ++ "/" ++ slug

/-- `mkdir(parents=True, exist_ok=True)`. -/
def makeDirectory (fs : FileSystem) (existing : List (List String)) (path : String) :
    Except PyError (List (List String)) := do
  let parts ← fs.resolve path
  return existing ++ parts.inits

/-- `prepare_workspaces`: the slugs, and what is on the disk afterwards. -/
def prepareWorkspaces (fs : FileSystem) (lower : String → String) (tenantId : String) :
    List (WorkspaceBinding × String) → List (List String) → Except PyError (List String × List (List String))
  | [], existing => .ok ([], existing)
  | (ws, hex) :: rest, existing => do
    let slug := makeSlug lower ws hex
    let existing' ← makeDirectory fs existing (workspaceDirectory fs tenantId slug)
    let (slugs, existing'') ← prepareWorkspaces fs lower tenantId rest existing'
    return (slug :: slugs, existing'')

def getOrCreateWorkspace (workspaces : List WorkspaceModel) (tenantId slug : String) : List WorkspaceModel :=
  if (⟨tenantId, slug⟩ : WorkspaceModel) ∈ workspaces then workspaces else workspaces ++ [⟨tenantId, slug⟩]

/-- `create_session`. Without workspaces it binds a local one. -/
def createSession (fs : FileSystem) (lower : String → String) (s : State) (sessionId tenantId role : String)
    (requested : List (WorkspaceBinding × String)) (hex : String) : Except PyError State := do
  let bindings := if requested = [] then [(⟨"local", none, none, none⟩, hex)] else requested
  let (slugs, existing) ← prepareWorkspaces fs lower tenantId bindings s.existing
  return {
    workspaces := slugs.foldl (fun rows slug => getOrCreateWorkspace rows tenantId slug) s.workspaces
    sessions := s.sessions ++ [⟨sessionId, tenantId, role, [], "auto", slugs⟩]
    existing := existing }

/-- The folders of the session of a tenant. -/
def setFolders (sessions : List SessionModel) (sessionId tenantId : String)
    (folders : List String → List String) : List SessionModel :=
  sessions.map fun s =>
    if s.id = sessionId ∧ s.tenantId = tenantId then { s with mountedFolders := folders s.mountedFolders } else s

/-- `add_workspace`. When the repository does not mount, the rows are not committed. -/
def addWorkspace (fs : FileSystem) (lower : String → String) (s : State) (sessionId tenantId : String)
    (ws : WorkspaceBinding) (hex : String) (mounts : Bool) : Except PyError State := do
  let (_, existing) ← prepareWorkspaces fs lower tenantId [(ws, hex)] s.existing
  let slug := makeSlug lower ws hex
  if ws.type = "git" ∧ ws.url.getD "" ≠ "" ∧ mounts = false then return { s with existing := existing }
  else return {
    workspaces := getOrCreateWorkspace s.workspaces tenantId slug
    sessions := setFolders s.sessions sessionId tenantId fun current =>
      if slug ∈ current then current else current ++ [slug]
    existing := existing }

/-! ## Runs -/

/-- The session of a call, as the tool worker loads it. -/
def State.session (s : State) (sessionId tenantId : String) : Option SessionModel :=
  loadSession ⟨s.sessions, [], [], [], 0⟩ sessionId (some tenantId)

/-- `mounted[0] if mounted else ""`. The workspaces of a session come in any order. -/
def isActiveFolder (s : State) (sessionId tenantId folder : String) : Bool :=
  match s.session sessionId tenantId with
  | none => decide (folder = "")
  | some session => decide (folder ∈ session.mountedFolders ∨ session.mountedFolders = [] ∧ folder = "")

inductive Label where
  | createSession (sessionId tenantId role : String) (requested : List (WorkspaceBinding × String)) (hex : String)
  | addWorkspace (sessionId tenantId : String) (ws : WorkspaceBinding) (hex : String) (mounts : Bool)
  | removeWorkspace (sessionId tenantId slug : String)
  /-- A `bash_execute` call that governance let pass, on the machine as it is then. -/
  | bash (m : Machine) (sessionId tenantId folder : String) (args : Fields)
  /-- Anything else changes the disk: a command, a clone, an operator. -/
  | disk (existing : List (List String))

/-- `tenant_id or "local"`. -/
def callTenant (tenantId : String) : String := if tenantId = "" then "local" else tenantId

def State.disk (s : State) : Disk where
  pathExists path := decide (path ∈ s.existing)
  isFile _ := false
  readText _ := .ok none
  makeParents _ := .ok ()
  writeText _ _ := .ok ()

/-- The call, from the router on. -/
def bashRun (bash : String → Fields → ToolRun) (s : State) (m : Machine) (sessionId tenantId folder : String)
    (args : Fields) : ToolRun :=
  executeTool m s.disk ⟨"bash_execute", true, bash⟩ sessionId (assocSet "folder_slug" (.str folder) args)
    (callTenant tenantId)

/-- The roots that a call makes before it resolves its folder. -/
def rootsMade (m : Machine) (sessionId tenantId : String) : List (List String) :=
  match sessionRoot m.fs sessionId (callTenant tenantId) with
  | .ok root => root.inits
  | .error _ => []

/-- One request or call. A request that fails leaves the rows as they are. -/
def step (fs : FileSystem) (lower : String → String) (s : State) : Label → Option State
  | .createSession sessionId tenantId role requested hex =>
    if s.sessions.any fun session => decide (session.id = sessionId) then none
    else (createSession fs lower s sessionId tenantId role requested hex).toOption
  | .addWorkspace sessionId tenantId ws hex mounts =>
    (addWorkspace fs lower s sessionId tenantId ws hex mounts).toOption
  | .removeWorkspace sessionId tenantId slug =>
    some { s with sessions := setFolders s.sessions sessionId tenantId fun current =>
      current.filter fun folder => decide (folder ≠ slug) }
  | .bash m sessionId tenantId folder _ =>
    if isActiveFolder s sessionId tenantId folder then
      some { s with existing := s.existing ++ rootsMade m sessionId tenantId }
    else none
  | .disk existing => some { s with existing := existing }

/-! ## Where a command runs -/

/-- Outside Kubernetes the working directory of a call is its folder, and that lies in the root of the
session. -/
def StaysInside (bash : String → Fields → ToolRun) (s : State) : Label → Prop
  | .bash m sessionId tenantId folder args => m.kubernetesMode = false →
      isActiveFolder s sessionId tenantId folder = true →
      ∀ place, (bashRun bash s m sessionId tenantId folder args).place = some place →
        ∃ path, resolveWorkspacePath m.fs (folderOf (.str folder)) sessionId (callTenant tenantId) = .ok path ∧
          (relativeTo path (getSessionRoot m.fs (callTenant tenantId) sessionId)).isSome ∧ place = .host path
  | _ => True

/-- The folder is there once the roots are made. -/
def FolderThere (s : State) (m : Machine) (sessionId tenantId : String) (path : List String) : Prop :=
  path ∈ s.existing ∨ m.fs.resolve (getSessionRoot m.fs tenantId sessionId) = .ok path ∨
    sessionRoot m.fs sessionId tenantId = .ok path

/-- A command that runs on the machine itself finds its folder there, unless the process is in it anyway. -/
def StepOk (s : State) : Label → Prop
  | .bash m sessionId tenantId folder args => m.kubernetesMode = false →
      isActiveFolder s sessionId tenantId folder = true → m.dockerAvailable = false → m.allowAnonLocal = true →
      ∀ command path, Fields.get args "command" = .str command → command ≠ "" →
        resolveWorkspacePath m.fs (folderOf (.str folder)) sessionId (callTenant tenantId) = .ok path →
        (relativeTo path (getSessionRoot m.fs (callTenant tenantId) sessionId)).isSome →
        FolderThere s m sessionId (callTenant tenantId) path ∨ m.getcwd = path
  | _ => True

section Sandbox
variable {m : Machine} {s : State} {sessionId tenantId : String}

/-- The places of `SandboxAdapter.execute`: the folder itself, behind the mount of a container, or the
directory that the local runner takes. -/
theorem sandboxAdapter_place_iff {disk : Disk} {command workingDir : Json} {place : Place} :
    (sandboxAdapter m disk command sessionId tenantId workingDir).place = some place ↔
      ∃ c path, command = .str c ∧ resolveWorkspacePath m.fs workingDir sessionId tenantId = .ok path ∧
        (relativeTo path (getSessionRoot m.fs tenantId sessionId)).isSome ∧
        (m.dockerAvailable = true ∧ place = .host path ∨
          m.dockerAvailable = false ∧ m.allowAnonLocal = true ∧
            place = .host (if ((disk.withDirectory (m.fs.resolve (getSessionRoot m.fs tenantId sessionId))).withDirectory
              (sessionRoot m.fs sessionId tenantId)).pathExists path then path else m.getcwd)) := by
  unfold sandboxAdapter
  cases hpath : resolveWorkspacePath m.fs workingDir sessionId tenantId with
  | error e => simp [ToolRun.raised]
  | ok path =>
    simp only
    cases hrelative : relativeTo path (getSessionRoot m.fs tenantId sessionId) with
    | none =>
      refine iff_of_false (by rintro ⟨⟩) ?_
      rintro ⟨c, path', _, hpath', hsome, _⟩
      obtain rfl := Except.ok.inj hpath'
      rw [hrelative] at hsome
      cases hsome
    | some rest =>
      simp only
      by_cases hdocker : m.dockerAvailable = true
      · rw [if_pos hdocker, runInDocker, behindMount_relativeTo hrelative]
        constructor
        · intro h
          obtain ⟨⟨c, rfl⟩, rfl⟩ := startIn_place_eq_some h
          exact ⟨c, path, rfl, rfl, by rw [hrelative]; rfl, Or.inl ⟨hdocker, rfl⟩⟩
        · rintro ⟨c, path', rfl, hpath', _, ⟨_, rfl⟩ | ⟨hno, _⟩⟩
          · obtain rfl := Except.ok.inj hpath'
            rfl
          · rw [hdocker] at hno
            cases hno
      · rw [if_neg hdocker]
        rw [Bool.not_eq_true] at hdocker
        by_cases hlocal : m.allowAnonLocal = true
        · rw [if_pos hlocal, runLocalDev]
          constructor
          · intro h
            obtain ⟨⟨c, rfl⟩, rfl⟩ := startIn_place_eq_some h
            exact ⟨c, path, rfl, rfl, by rw [hrelative]; rfl, Or.inr ⟨hdocker, hlocal, rfl⟩⟩
          · rintro ⟨c, path', rfl, hpath', _, ⟨hyes, _⟩ | ⟨_, _, rfl⟩⟩
            · rw [hdocker] at hyes
              cases hyes
            · obtain rfl := Except.ok.inj hpath'
              rfl
        · rw [if_neg hlocal]
          refine iff_of_false (by rintro ⟨⟩) ?_
          rintro ⟨c, path', _, _, _, ⟨hyes, _⟩ | ⟨_, hyes, _⟩⟩
          · rw [hdocker] at hyes
            cases hyes
          · exact hlocal hyes

/-- Outside Kubernetes the router hands the folder of the call to the sandbox. -/
theorem bashRun_place (bash : String → Fields → ToolRun) (hmode : m.kubernetesMode = false) (folder : String)
    (args : Fields) : (bashRun bash s m sessionId tenantId folder args).place =
      if (Fields.get args "command").truthy = false then none
      else (sandboxAdapter m s.disk (Fields.get args "command") sessionId (callTenant tenantId)
        (folderOf (.str folder))).place := by
  have hcommand : Fields.get (assocErase "folder_slug" (assocSet "folder_slug" (.str folder) args)) "command" =
      Fields.get args "command" := by
    simp [Fields.get, lookup_assocErase, lookup_assocSet]
  have hslug : folderSlug (assocSet "folder_slug" (.str folder) args) = .str folder :=
    folderSlug_of_str (by simp [Fields.get, lookup_assocSet])
  unfold bashRun
  rw [executeTool_bash m s.disk rfl, routedCall, sandboxCall, hcommand, hslug, hmode]
  by_cases htruthy : (Fields.get args "command").truthy = false
  · rw [if_pos htruthy, if_pos htruthy]
    rfl
  · rw [if_neg htruthy, if_neg htruthy]
    rfl

theorem pathExists_iff (tenantId' : String) (path : List String) :
    ((s.disk.withDirectory (m.fs.resolve (getSessionRoot m.fs tenantId' sessionId))).withDirectory
      (sessionRoot m.fs sessionId tenantId')).pathExists path = true ↔
        FolderThere s m sessionId tenantId' path := by
  simp [Disk.withDirectory, State.disk, FolderThere, or_assoc]

theorem staysInside_iff (bash : String → Fields → ToolRun) (i : Label) : StaysInside bash s i ↔ StepOk s i := by
  cases i with
  | bash m sessionId tenantId folder args =>
    unfold StaysInside StepOk
    refine forall_congr' fun hmode => forall_congr' fun _ => ?_
    rw [bashRun_place bash hmode]
    constructor
    · intro h hdocker hlocal command path hcommand hne hpath hrelative
      by_contra hmissing
      rw [not_or] at hmissing
      have hthere := (pathExists_iff (callTenant tenantId) path).not.mpr hmissing.1
      have htruthy : ¬ (Fields.get args "command").truthy = false := by simp [hcommand, Json.truthy, hne]
      have hplace : (sandboxAdapter m s.disk (Fields.get args "command") sessionId (callTenant tenantId)
          (folderOf (.str folder))).place = some _ := sandboxAdapter_place_iff.mpr
        ⟨command, path, hcommand, hpath, hrelative, Or.inr ⟨hdocker, hlocal, rfl⟩⟩
      obtain ⟨path', hpath', _, hsame⟩ := h _ (by rw [if_neg htruthy]; exact hplace)
      obtain rfl := Except.ok.inj (hpath.symm.trans hpath')
      rw [if_neg hthere] at hsame
      exact hmissing.2 (Place.host.inj hsame)
    · intro h place hplace
      split_ifs at hplace with htruthy
      obtain ⟨command, path, hcommand, hpath, hrelative, hwhere⟩ := sandboxAdapter_place_iff.mp hplace
      refine ⟨path, hpath, hrelative, ?_⟩
      rcases hwhere with ⟨_, rfl⟩ | ⟨hdocker, hlocal, rfl⟩
      · rfl
      · have hne : command ≠ "" := by
          rintro rfl
          rw [hcommand] at htruthy
          exact htruthy rfl
        rcases h hdocker hlocal command path hcommand hne hpath hrelative with hthere | hcwd
        · rw [if_pos ((pathExists_iff _ _).mpr hthere)]
        · rw [hcwd, ite_self]
  | createSession _ _ _ _ _ => exact Iff.rfl
  | addWorkspace _ _ _ _ _ => exact Iff.rfl
  | removeWorkspace _ _ _ => exact Iff.rfl
  | disk _ => exact Iff.rfl

/-- **The commands of a run stay in the roots of their sessions exactly when every command that runs on the
machine itself finds its folder there.** -/
theorem stays_inside_iff_guarded (bash : String → Fields → ToolRun) (fs : FileSystem) (lower : String → String)
    (is : List Label) : Guarded (step fs lower) (StaysInside bash) State.init is ↔
      Guarded (step fs lower) StepOk State.init is := by
  have hsame : StaysInside bash = StepOk := funext fun s => funext fun i => propext (staysInside_iff bash i)
  rw [hsame]

end Sandbox

/-! ## The default workspace of a session -/

def developerMachine : Machine where
  fs := plainFileSystem "/srv/workspace" "/tmp"
  run _ _ := .ok .null
  getcwd := ["srv", "app"]
  kubernetesMode := false
  inCluster := false
  useDockerSandbox := false
  dockerAvailable := false
  allowAnonLocal := true
  imageWorkdir := []
  workspaceClaim := []

/-- A session is created without naming a workspace, and a command runs in it. -/
def firstCommand : List Label :=
  [.createSession "s1" "acme" "developer" [] "0123456789",
   .bash developerMachine "s1" "acme" "workspace-01234567" [("command", .str "ls")]]

/-- The session with its workspace. -/
def freshSession : State :=
  ⟨[⟨"acme", "workspace-01234567"⟩], [⟨"s1", "acme", "developer", [], "auto", ["workspace-01234567"]⟩],
    ["srv", "workspace", "tenant_acme", "workspace-01234567"].inits⟩

theorem step_createSession : step developerMachine.fs id State.init
    (.createSession "s1" "acme" "developer" [] "0123456789") = some freshSession := by decide +kernel

/-- The command runs in the directory of the server. -/
theorem command_leaves_the_root : ¬ ∀ (bash : String → Fields → ToolRun) (fs : FileSystem)
    (lower : String → String) (is : List Label),
    Guarded (step fs lower) (StaysInside bash) State.init is := by
  intro h
  have hbash := ((h (fun _ _ => .raised databaseError) developerMachine.fs id firstCommand).2 _ step_createSession).1
  have hplace : (bashRun (fun _ _ => .raised databaseError) freshSession developerMachine "s1" "acme"
      "workspace-01234567" [("command", .str "ls")]).place = some (.host ["srv", "app"]) := by decide +kernel
  obtain ⟨path, hpath, _, hsame⟩ := hbash rfl (by decide +kernel) _ hplace
  have hfolder : resolveWorkspacePath developerMachine.fs (folderOf (.str "workspace-01234567")) "s1"
      (callTenant "acme") = .ok ["srv", "workspace", "t_acme", "s_s1", "workspace-01234567"] := by decide +kernel
  obtain rfl := Except.ok.inj (hfolder.symm.trans hpath)
  exact absurd (Place.host.inj hsame) (by decide)

end KernelRuntime.Workspaces
