import KernelRuntime.AgentLoop.ToolWorker
import KernelRuntime.Tools.Router

/-! # The path that is checked and the path that is used

The policy engine resolves the path of a call in the root of the session. The tool resolves a path
again: a file tool with the tenant that it finds in its arguments, a shell command with the mounted
folder of the session in place of `working_dir`. -/

namespace KernelRuntime.PathAgreement
set_option autoImplicit false

open AgentLoop ToolExecution

/-! ## What the policy checks and what the tool uses -/

/-- The path that `assert_action_allowed` resolves for a call of a file tool or of the shell. -/
def checkedPath (fs : FileSystem) (session : SessionModel) (toolName : String) (fields : Fields) :
    Except PyError (List String) :=
  if toolName = "bash_execute" then
    resolveWorkspacePath fs ((fields.lookup "working_dir").getD (.str ".")) session.id session.tenantId
  else resolveWorkspacePath fs (Fields.get fields "filepath") session.id session.tenantId

theorem checkedPath_of_allows {fs : FileSystem} {session : SessionModel} {toolName : String}
    {fields : Fields} (hrole : session.userRole ≠ "admin")
    (hname : toolName ∈ ["read_file", "write_file", "bash_execute"])
    (hallow : PolicyEngine.Allows fs session toolName (.obj fields)) :
    ∃ path, checkedPath fs session toolName fields = .ok path := by
  obtain ⟨-, -, hpath⟩ := (PolicyEngine.allows_obj_iff fs hrole toolName fields).mp hallow
  unfold PolicyEngine.assertPathAllowed at hpath
  unfold checkedPath
  by_cases hbash : toolName = "bash_execute"
  · subst hbash
    rw [if_neg (by decide), if_pos rfl] at hpath
    rw [if_pos rfl]
    obtain ⟨workingDir, hdir, hpath⟩ := bind_eq_ok_iff.mp hpath
    obtain ⟨path, hresolve, -⟩ := bind_eq_ok_iff.mp hpath
    cases hdir
    exact ⟨path, hresolve⟩
  · have hfile : toolName ∈ ["read_file", "write_file", "create_file", "edit_file"] := by
      simp only [List.mem_cons, List.not_mem_nil, or_false] at hname ⊢
      tauto
    rw [if_pos hfile] at hpath
    rw [if_neg hbash]
    obtain ⟨filepath, hget, hpath⟩ := bind_eq_ok_iff.mp hpath
    obtain ⟨path, hresolve, -⟩ := bind_eq_ok_iff.mp hpath
    cases hget
    exact ⟨path, hresolve⟩

/-- The three tools, on a disk. The router runs shell commands itself, whatever the tool's own
`execute` does. -/
def coreTool (fs : FileSystem) (disk : Disk) (bash : String → Fields → ToolRun) (toolName : String) :
    BaseTool :=
  if toolName = "read_file" then ReadFileTool fs disk
  else if toolName = "write_file" then WriteFileTool fs disk
  else ⟨toolName, true, bash⟩

/-- The executions that the tool worker makes of a call. -/
def callExecutions (env : Env) (event : ToolEvent) (session : SessionModel) (spec : ToolSpec) :
    List Execution :=
  match classify env session spec with
  | .ok r => r.executions event session spec
  | .error _ => []

/-- An operation that calls no tool. -/
def CallsNothing {α : Type} (handler : Handler α) : Prop :=
  Preserves (fun w w' => w'.executed = w.executed) handler

theorem CallsNothing.bind {α β : Type} {handler : Handler α} {rest : α → Handler β}
    (h : CallsNothing handler) (hrest : ∀ a, CallsNothing (rest a)) : CallsNothing (handler >>= rest) :=
  Preserves.bind (fun _ _ _ h h' => h'.trans h) h hrest

theorem callsNothing_query (env : Env) : CallsNothing (query env) := by
  intro w
  unfold finalState query
  simp only
  split_ifs <;> rfl

theorem callsNothing_write (env : Env) {change : World → World}
    (hchange : ∀ w, (change w).executed = w.executed) : CallsNothing (write env change) := by
  intro w
  unfold finalState write
  simp only
  split_ifs
  · rfl
  · exact hchange _

theorem callsNothing_persistMessage (env : Env) (sessionId : String) (turn : Turn) :
    CallsNothing (persistMessage env sessionId turn) :=
  (callsNothing_query env).bind fun _ => (callsNothing_query env).bind fun _ =>
    callsNothing_write env fun _ => rfl

theorem callsNothing_commit (env : Env) : CallsNothing (commit env) :=
  callsNothing_write env fun _ => rfl

theorem callsNothing_publishLog (taskId : Option String) (e : LogEvent) :
    CallsNothing (publishLog taskId e) := fun _ => rfl

theorem callsNothing_pure {α : Type} (a : α) : CallsNothing (pure a : Handler α) := fun _ => rfl

/-- The tool message of a call, its commit and its log entry. -/
theorem callsNothing_reply (env : Env) (sessionId : String) (turn : Turn) (taskId : Option String)
    (e : LogEvent) (b : Bool) : CallsNothing (do
      persistMessage env sessionId turn
      commit env
      publishLog taskId e
      return b : Handler Bool) :=
  (callsNothing_persistMessage env sessionId turn).bind fun _ => (callsNothing_commit env).bind fun _ =>
    (callsNothing_publishLog taskId e).bind fun _ => callsNothing_pure b

/-- **The executions of a call, whether or not the database fails.** -/
theorem executed_processTool (env : Env) (event : ToolEvent) (session : SessionModel) (k : ℕ)
    (spec : ToolSpec) (w : World) : (finalState (processTool env event session k spec) w).executed =
      w.executed ++ callExecutions env event session spec := by
  unfold processTool
  rw [finalState_bind]
  have hlog : publishLog event.taskId (.toolExecuting spec.name) w = .ok () (w.log event.taskId (.toolExecuting spec.name)) :=
    rfl
  rw [hlog]
  simp only
  cases hgov : PolicyEngine.assertActionAllowed env.fs session spec.name spec.args with
  | error govErr =>
    have hnone : callExecutions env event session spec = [] := by
      simp [callExecutions, classify, hgov, CallResult.executions]
    rw [hnone, List.append_nil]
    exact callsNothing_reply env _ _ _ _ _ _
  | ok u =>
    simp only
    rw [finalState_bind]
    -- running the tool asks nothing of the database
    have hsame : toolOutput env event session k spec = toolOutput env.reliable event session k spec := rfl
    rw [hsame]
    rcases toolOutput_run env event session k spec
      (w.log event.taskId (.toolExecuting spec.name)) hgov with
      ⟨r, text, hr, -, -, -, hrun⟩ | ⟨e, he, hrun⟩
    · rw [hrun]
      simp only
      refine (callsNothing_reply env _ _ _ _ _ _).trans ?_
      simp only [callExecutions, hr]
      rfl
    · rw [hrun]
      simp only [callExecutions, he]
      exact (List.append_nil _).symm

/-- What the router does for an execution. -/
def route (m : Machine) (disk : Disk) (bash : String → Fields → ToolRun) (execution : Execution) :
    ToolRun :=
  executeTool m disk (coreTool m.fs disk bash execution.toolName) execution.sessionId
    execution.kwargs execution.tenantId

/-- Whatever is on the disk, what a call of the worker opens, or the directory its command starts in,
is the path that the policy resolved. -/
def UsesCheckedPath (m : Machine) (env : Env) (bash : String → Fields → ToolRun) (event : ToolEvent)
    (session : SessionModel) (spec : ToolSpec) (fields : Fields) : Prop :=
  ∀ disk : Disk, ∀ execution ∈ callExecutions { env with fs := m.fs } event session spec,
    ∀ place, (route m disk bash execution).place = some place →
      ∃ path, checkedPath m.fs session spec.name fields = .ok path ∧ place = .host path

/-! ## The arguments that reach the tool -/

/-- The arguments after the tool worker and the router. -/
def routedArguments (session : SessionModel) (fields : Fields) : Fields :=
  let rest := assocErase "folder_slug"
    (assocSet "folder_slug" (.str (activeFolder session)) (assocErase "dry_run" fields))
  if activeFolder session ≠ "" ∧ (rest.lookup "working_dir").isNone then
    assocSet "working_dir" (.str (activeFolder session)) rest
  else rest

/-- The two layers change nothing but these three arguments. -/
theorem lookup_routedArguments (session : SessionModel) (fields : Fields) {key : String}
    (hkey : key ∉ ["dry_run", "folder_slug", "working_dir"]) :
    (routedArguments session fields).lookup key = fields.lookup key := by
  simp only [List.mem_cons, List.not_mem_nil, or_false, not_or] at hkey
  obtain ⟨hdry, hslug, hdir⟩ := hkey
  have hrest : (assocErase "folder_slug" (assocSet "folder_slug" (.str (activeFolder session))
      (assocErase "dry_run" fields))).lookup key = fields.lookup key := by
    rw [lookup_assocErase, if_neg hslug, lookup_assocSet, if_neg hslug, lookup_assocErase, if_neg hdry]
  unfold routedArguments
  simp only
  split_ifs with h
  · rw [lookup_assocSet, if_neg hdir, hrest]
  · exact hrest

/-- A call of a file tool passes the binding of its arguments. -/
def Binds (toolName : String) (fields : Fields) : Prop :=
  fields.lookup "session_id" = none ∧ fields.lookup "self" = none ∧
    (fields.lookup "filepath").isSome ∧ (toolName = "write_file" → (fields.lookup "content").isSome)

theorem bindArguments_ok_iff (modulePath className : String) (parameters : List String)
    (kwargs : Fields) : bindArguments modulePath className parameters kwargs = .ok () ↔
      kwargs.lookup "session_id" = none ∧ kwargs.lookup "self" = none ∧
        ∀ p ∈ parameters, (kwargs.lookup p).isSome := by
  have hmissing : missingParameters parameters kwargs = [] ↔
      ∀ p ∈ parameters, (kwargs.lookup p).isSome := by
    unfold missingParameters
    simp [List.filter_eq_nil_iff, Option.isSome_iff_ne_none]
  rw [← hmissing]
  unfold bindArguments
  cases hsession : kwargs.lookup "session_id" with
  | some v => simp [bind, Except.bind, throw, throwThe, MonadExceptOf.throw]
  | none =>
    cases hself : kwargs.lookup "self" with
    | some v => simp [bind, Except.bind, throw, throwThe, MonadExceptOf.throw]
    | none =>
      match missingParameters parameters kwargs with
      | [] => simp [pure, Except.pure]
      | [p] => simp [throw, throwThe, MonadExceptOf.throw]
      | p :: q :: ps => simp [throw, throwThe, MonadExceptOf.throw]

theorem resolveArgument_routed (fs : FileSystem) (sessionId : String) (session : SessionModel)
    (fields : Fields) :
    resolveArgument fs sessionId (routedArguments session fields) =
      resolveArgument fs sessionId fields := by
  unfold resolveArgument tenantArgument Fields.get
  rw [lookup_routedArguments session fields (by decide), lookup_routedArguments session fields (by decide)]

/-! ## The file tools -/

theorem readFile_place (fs : FileSystem) (disk : Disk) (sessionId : String) (kwargs : Fields)
    (place : Place) : (readFile fs disk sessionId kwargs).place = some place ↔
      Binds "read_file" kwargs ∧ ∃ path, resolveArgument fs sessionId kwargs = .ok path ∧
        disk.pathExists path = true ∧ disk.isFile path = true ∧ place = .host path := by
  have hbind := bindArguments_ok_iff "src.tools.filesystem.read" "ReadFileTool" ["filepath"] kwargs
  have hbinds : Binds "read_file" kwargs ↔
      bindArguments "src.tools.filesystem.read" "ReadFileTool" ["filepath"] kwargs = .ok () := by
    rw [hbind]
    simp [Binds]
  rw [hbinds]
  unfold readFile
  cases bindArguments "src.tools.filesystem.read" "ReadFileTool" ["filepath"] kwargs with
  | error e => simp [ToolRun.raised]
  | ok u =>
    cases resolveArgument fs sessionId kwargs with
    | error e => simp [ToolRun.raised]
    | ok path =>
      cases hexists : disk.pathExists path with
      | false => simp [hexists]
      | true =>
        cases hfile : disk.isFile path with
        | false => simp [hexists, hfile]
        | true =>
          simp only [hexists, hfile, Bool.true_eq_false, if_false, Option.some.injEq, true_and,
            Except.ok.injEq]
          constructor
          · rintro rfl
            exact ⟨path, rfl, hexists, hfile, rfl⟩
          · rintro ⟨p, rfl, -, -, rfl⟩
            rfl

theorem writeFile_place (fs : FileSystem) (disk : Disk) (sessionId : String) (kwargs : Fields)
    (place : Place) : (writeFile fs disk sessionId kwargs).place = some place ↔
      Binds "write_file" kwargs ∧ ∃ path, resolveArgument fs sessionId kwargs = .ok path ∧
        disk.makeParents path = .ok () ∧ place = .host path := by
  have hbind := bindArguments_ok_iff "src.tools.filesystem.write" "WriteFileTool"
    ["filepath", "content"] kwargs
  have hbinds : Binds "write_file" kwargs ↔ bindArguments "src.tools.filesystem.write" "WriteFileTool"
      ["filepath", "content"] kwargs = .ok () := by
    rw [hbind]
    simp [Binds]
  rw [hbinds]
  unfold writeFile
  cases bindArguments "src.tools.filesystem.write" "WriteFileTool" ["filepath", "content"] kwargs with
  | error e => simp [ToolRun.raised]
  | ok u =>
    cases resolveArgument fs sessionId kwargs with
    | error e => simp [ToolRun.raised]
    | ok path =>
      cases hparents : disk.makeParents path with
      | error e => simp [hparents, ToolRun.raised]
      | ok u =>
        simp only [hparents, Option.some.injEq, true_and, Except.ok.injEq]
        constructor
        · rintro rfl
          exact ⟨path, rfl, hparents, rfl⟩
        · rintro ⟨p, rfl, -, rfl⟩
          rfl

/-! ## Shell commands -/

/-- `folder_slug or "."`. -/
def mountedFolder (session : SessionModel) : String :=
  if activeFolder session = "" then "." else activeFolder session

theorem folderOf_activeFolder (session : SessionModel) :
    folderOf (.str (activeFolder session)) = .str (mountedFolder session) := folderOf_str _

/-- With the mounted folder at `folder`, a command always starts in `directory`. On a development
machine a folder that is missing is replaced by the directory of the process. -/
def StartsIn (m : Machine) (sessionId tenantId : String) (folder directory : List String) : Prop :=
  if m.kubernetesMode = true then
    if m.inCluster = true then behindMount m.workspaceClaim folder = .host directory
    else if m.useDockerSandbox = true then behindMount folder m.imageWorkdir = .host directory
    else folder = directory
  else if relativeTo folder (getSessionRoot m.fs tenantId sessionId) = none then True
  else if m.dockerAvailable = true then folder = directory
  else if m.allowAnonLocal = true then
    folder = directory ∧ (m.fs.resolve (getSessionRoot m.fs tenantId sessionId) = .ok folder ∨
      sessionRoot m.fs sessionId tenantId = .ok folder ∨ m.getcwd = directory)
  else True

theorem startIn_place (m : Machine) (place : Place) (command : String) (wrap : String) :
    (startIn m place (.str command) wrap).place = some place := rfl

theorem startIn_place_eq_some {m : Machine} {place place' : Place} {command : Json} {wrap : String}
    (h : (startIn m place command wrap).place = some place') :
    (∃ c, command = .str c) ∧ place' = place := by
  cases command with
  | str c => exact ⟨⟨c, rfl⟩, (Option.some.inj h).symm⟩
  | _ => cases h

/-- The mount of the root puts the folder back where it is on the host. -/
theorem behindMount_relativeTo {folder rest : List String} {root : String}
    (h : relativeTo folder root = some rest) :
    behindMount (pureParts root) ("workspace" :: rest) = .host folder := by
  unfold relativeTo at h
  split_ifs at h
  obtain ⟨parts, rfl, hparts⟩ := List.dropPrefix?_eq_some_iff.mp h
  rw [eq_of_beq hparts]
  simp [behindMount]

/-- Every path is there. -/
def fullDisk : Disk := ⟨fun _ => true, fun _ => true, fun _ => .ok none, fun _ => .ok (), fun _ _ => .ok ()⟩

/-- No path is there. -/
def emptyDisk : Disk := ⟨fun _ => false, fun _ => false, fun _ => .ok none, fun _ => .ok (), fun _ _ => .ok ()⟩

/-- A command that is started at the same place on every disk. -/
theorem startIn_place_iff {m : Machine} {place : Place} {command wrap : String} {directory : List String} :
    (∀ (_ : Disk) (place' : Place), (startIn m place (.str command) wrap).place = some place' →
      place' = .host directory) ↔ place = .host directory :=
  ⟨fun h => h fullDisk _ rfl, fun h _ _ hp => (startIn_place_eq_some hp).2.trans h⟩

theorem localExecutor_place_iff {m : Machine} {command : String} {folder directory : List String}
    {root : Except PyError (List String)} :
    (∀ (disk : Disk) (place : Place), (localExecutor m (disk.withDirectory root) (.str command) folder).place =
      some place → place = .host directory) ↔
      if m.useDockerSandbox = true then behindMount folder m.imageWorkdir = .host directory
      else folder = directory := by
  unfold localExecutor
  by_cases hdocker : m.useDockerSandbox = true
  · simp only [if_pos hdocker]
    exact startIn_place_iff
  · simp only [if_neg hdocker]
    constructor
    · intro h
      exact Place.host.inj (h fullDisk (.host folder) rfl)
    · rintro rfl disk place hp
      split_ifs at hp
      · exact (startIn_place_eq_some hp).2
      · cases hp

/-- On a development machine the folder is there for every disk when one of the two calls before it made it. -/
theorem runLocalDev_place_iff {m : Machine} {command : String} {folder directory : List String}
    {root root' : Except PyError (List String)} :
    (∀ (disk : Disk) (place : Place),
      (runLocalDev m ((disk.withDirectory root).withDirectory root') (.str command) folder).place = some place →
        place = .host directory) ↔
      folder = directory ∧ (root = .ok folder ∨ root' = .ok folder ∨ m.getcwd = directory) := by
  unfold runLocalDev
  constructor
  · intro h
    refine ⟨Place.host.inj (h fullDisk (.host folder) rfl), ?_⟩
    by_cases hroot : root = .ok folder
    · exact Or.inl hroot
    · by_cases hroot' : root' = .ok folder
      · exact Or.inr (Or.inl hroot')
      · refine Or.inr (Or.inr (Place.host.inj (h emptyDisk (.host m.getcwd) ?_)))
        rw [startIn_place, if_neg]
        simp [Disk.withDirectory, emptyDisk, hroot, hroot']
  · rintro ⟨rfl, hthere⟩ disk place hp
    rw [(startIn_place_eq_some hp).2]
    split_ifs with hexists
    · rfl
    · simp only [Disk.withDirectory, Bool.or_eq_true, decide_eq_true_eq, not_or] at hexists
      rcases hthere with hroot | hroot | hcwd
      · exact absurd hroot hexists.1.2
      · exact absurd hroot hexists.2
      · rw [hcwd]

theorem sandboxAdapter_startsIn_iff {m : Machine} {command sessionId tenantId : String} {workingDir : Json}
    {folder directory : List String}
    (hfolder : resolveWorkspacePath m.fs workingDir sessionId tenantId = .ok folder) :
    (∀ (disk : Disk) (place : Place), (sandboxAdapter m disk (.str command) sessionId tenantId workingDir).place =
      some place → place = .host directory) ↔
      if relativeTo folder (getSessionRoot m.fs tenantId sessionId) = none then True
      else if m.dockerAvailable = true then folder = directory
      else if m.allowAnonLocal = true then
        folder = directory ∧ (m.fs.resolve (getSessionRoot m.fs tenantId sessionId) = .ok folder ∨
          sessionRoot m.fs sessionId tenantId = .ok folder ∨ m.getcwd = directory)
      else True := by
  unfold sandboxAdapter
  simp only [hfolder]
  cases hrelative : relativeTo folder (getSessionRoot m.fs tenantId sessionId) with
  | none =>
    simp only [if_true, iff_true]
    intro disk place hp
    cases hp
  | some rest =>
    simp only [reduceCtorEq, if_false]
    by_cases havailable : m.dockerAvailable = true
    · simp only [if_pos havailable, runInDocker, behindMount_relativeTo hrelative]
      exact startIn_place_iff.trans ⟨Place.host.inj, congrArg Place.host⟩
    · simp only [if_neg havailable]
      by_cases hlocal : m.allowAnonLocal = true
      · simp only [if_pos hlocal]
        exact runLocalDev_place_iff
      · simp only [if_neg hlocal, iff_true]
        intro disk place hp
        cases hp

theorem sandboxed_place_iff (m : Machine) (bash : String → Fields → ToolRun)
    (sessionId tenantId : String) {kwargs : Fields} {slug : Json} {command : String}
    {folder directory : List String} (hcommand : Fields.get kwargs "command" = .str command)
    (hnonempty : command ≠ "")
    (hfolder : resolveWorkspacePath m.fs (folderOf slug) sessionId tenantId = .ok folder) :
    (∀ disk place, (executeSandboxed m disk ⟨"bash_execute", true, bash⟩ sessionId tenantId kwargs
      slug).place = some place → place = .host directory) ↔
    StartsIn m sessionId tenantId folder directory := by
  have htruthy : ¬ (Json.str command).truthy = false := by simp [Json.truthy, hnonempty]
  have hplace : ∀ disk, (executeSandboxed m disk ⟨"bash_execute", true, bash⟩ sessionId tenantId kwargs
      slug) =
      if m.kubernetesMode = true then
        if m.inCluster = true then kubernetesExecutor m (.str command) folder
        else localExecutor m (disk.withDirectory (sessionRoot m.fs sessionId tenantId)) (.str command)
          folder
      else sandboxAdapter m disk (.str command) sessionId tenantId (folderOf slug) := by
    intro disk
    unfold executeSandboxed
    simp only [if_true, hcommand, if_neg htruthy, hfolder]
  unfold StartsIn
  simp only [hplace]
  by_cases hkube : m.kubernetesMode = true
  · simp only [if_pos hkube]
    by_cases hcluster : m.inCluster = true
    · simp only [if_pos hcluster]
      exact startIn_place_iff
    · simp only [if_neg hcluster]
      exact localExecutor_place_iff
  · simp only [if_neg hkube]
    exact sandboxAdapter_startsIn_iff hfolder

/-- What a command needs to be started. -/
theorem sandboxed_starts {m : Machine} {disk : Disk} {bash : String → Fields → ToolRun}
    {sessionId tenantId : String} {slug : Json} {kwargs : Fields} {place : Place}
    (h : (executeSandboxed m disk ⟨"bash_execute", true, bash⟩ sessionId tenantId kwargs slug).place =
      some place) :
    ∃ command folder, Fields.get kwargs "command" = .str command ∧ command ≠ "" ∧
      resolveWorkspacePath m.fs (folderOf slug) sessionId tenantId = .ok folder := by
  unfold executeSandboxed at h
  simp only [if_true] at h
  by_cases htruthy : (Fields.get kwargs "command").truthy = false
  · rw [if_pos htruthy] at h
    cases h
  rw [if_neg htruthy] at h
  cases hfolder : resolveWorkspacePath m.fs (folderOf slug) sessionId tenantId with
  | error e =>
    unfold sandboxAdapter at h
    simp only [hfolder] at h
    split_ifs at h <;> cases h
  | ok folder =>
    have hcommand : ∃ c, Fields.get kwargs "command" = .str c := by
      unfold sandboxAdapter localExecutor kubernetesExecutor runInDocker runLocalDev at h
      simp only [hfolder] at h
      split at h
      · split_ifs at h <;> first | exact (startIn_place_eq_some h).1 | cases h
      · split at h
        · cases h
        · split_ifs at h <;> first | exact (startIn_place_eq_some h).1 | cases h
    obtain ⟨c, hc⟩ := hcommand
    refine ⟨c, folder, hc, ?_, rfl⟩
    rintro rfl
    exact htruthy (by rw [hc]; rfl)

/-! ## A call of the worker -/

/-- The command of a shell call starts where its argument `working_dir` says. -/
def CommandAgrees (m : Machine) (session : SessionModel) (tenantId : String) (fields : Fields) : Prop :=
  ∀ command folder directory, Fields.get fields "command" = .str command → command ≠ "" →
    resolveWorkspacePath m.fs (.str (mountedFolder session)) session.id tenantId = .ok folder →
    resolveWorkspacePath m.fs ((fields.lookup "working_dir").getD (.str ".")) session.id
      session.tenantId = .ok directory → StartsIn m session.id tenantId folder directory

/-- The tenant among the arguments of a file tool leads to the same file as the session's. -/
def FileAgrees (fs : FileSystem) (session : SessionModel) (toolName : String) (fields : Fields) : Prop :=
  ∀ root root' path, Binds toolName fields →
    sessionRoot fs session.id session.tenantId = .ok root →
    argumentRoot fs session.id (tenantArgument fields) = .ok root' →
    resolveFrom fs (Fields.get fields "filepath") root' = .ok path →
    NamesSamePlace fs (pathString fs (Fields.get fields "filepath")) root root'

/-- The call is only simulated, or its two paths agree. -/
def PathsAgree (m : Machine) (event : ToolEvent) (session : SessionModel) (toolName : String)
    (fields : Fields) : Prop :=
  (Fields.get fields "dry_run").truthy = true ∨ shadowMode session = true ∨
    if toolName = "bash_execute" then
      CommandAgrees m session ((truthyText event.tenantId).getD "local") fields
    else FileAgrees m.fs session toolName fields

/-- The paths of a file tool agree when the tenant in its arguments, `"local"` if there is none, and
the session's begin with the same eight characters. -/
theorem fileAgrees_of_shortId {fs : FileSystem} {session : SessionModel} {toolName tenantId : String}
    {fields : Fields} (htenant : tenantArgument fields = .str tenantId)
    (hshort : shortId tenantId = shortId session.tenantId) : FileAgrees fs session toolName fields := by
  intro root root' path _ hroot hroot' _
  rw [htenant, argumentRoot_str] at hroot'
  have hsame : sessionRoot fs session.id tenantId = sessionRoot fs session.id session.tenantId := by
    unfold sessionRoot getSessionRoot
    rw [hshort]
  rw [hsame, hroot] at hroot'
  cases hroot'
  exact Or.inl rfl

theorem binds_routed (toolName : String) (session : SessionModel) (fields : Fields) :
    Binds toolName (routedArguments session fields) ↔ Binds toolName fields := by
  unfold Binds
  rw [lookup_routedArguments session fields (by decide), lookup_routedArguments session fields (by decide),
    lookup_routedArguments session fields (by decide), lookup_routedArguments session fields (by decide)]

/-- What a file tool opens, whatever is on the disk. -/
theorem fileTool_agrees_iff {m : Machine} {session : SessionModel} {toolName : String} {fields : Fields}
    {checked : List String} (hname : toolName = "read_file" ∨ toolName = "write_file")
    (hchecked : resolveWorkspacePath m.fs (Fields.get fields "filepath") session.id session.tenantId =
      .ok checked) (bash : String → Fields → ToolRun) :
    (∀ disk place, ((coreTool m.fs disk bash toolName).execute session.id
      (routedArguments session fields)).place = some place → place = .host checked) ↔
    FileAgrees m.fs session toolName fields := by
  have hopens : (∀ disk place, ((coreTool m.fs disk bash toolName).execute session.id
      (routedArguments session fields)).place = some place → place = .host checked) ↔
      ∀ path, Binds toolName fields → resolveArgument m.fs session.id fields = .ok path →
        path = checked := by
    rcases hname with rfl | rfl
    · show (∀ disk place, (readFile m.fs disk session.id (routedArguments session fields)).place =
        some place → place = .host checked) ↔ _
      simp only [readFile_place, binds_routed, resolveArgument_routed]
      constructor
      · intro h path hbinds hpath
        exact Place.host.inj (h fullDisk _ ⟨hbinds, path, hpath, rfl, rfl, rfl⟩)
      · rintro h disk place ⟨hbinds, path, hpath, -, -, rfl⟩
        rw [h path hbinds hpath]
    · show (∀ disk place, (writeFile m.fs disk session.id (routedArguments session fields)).place =
        some place → place = .host checked) ↔ _
      simp only [writeFile_place, binds_routed, resolveArgument_routed]
      constructor
      · intro h path hbinds hpath
        exact Place.host.inj (h fullDisk _ ⟨hbinds, path, hpath, rfl, rfl⟩)
      · rintro h disk place ⟨hbinds, path, hpath, -, rfl⟩
        rw [h path hbinds hpath]
  rw [hopens]
  rw [resolveWorkspacePath_eq] at hchecked
  obtain ⟨root, hroot, hfrom⟩ := bind_eq_ok_iff.mp hchecked
  have hways := (resolveFrom_ok_iff _ _ _ _).mp hfrom
  constructor
  · intro h root₁ root' path hbinds hroot₁ hroot' hpath
    rw [hroot] at hroot₁
    cases hroot₁
    have heq := h path hbinds (bind_eq_ok_iff.mpr ⟨root', hroot', hpath⟩)
    exact (hways.eq_iff ((resolveFrom_ok_iff _ _ _ _).mp hpath)).mp heq
  · intro h path hbinds hpath
    obtain ⟨root', hroot', hpath⟩ := bind_eq_ok_iff.mp hpath
    exact (hways.eq_iff ((resolveFrom_ok_iff _ _ _ _).mp hpath)).mpr (h root root' path hbinds hroot hroot' hpath)

/-- The router takes the mounted folder from the arguments again. -/
theorem folderSlug_executionOf (session : SessionModel) (fields : Fields) :
    folderSlug (assocSet "folder_slug" (.str (activeFolder session)) (assocErase "dry_run" fields)) =
      .str (activeFolder session) := by
  apply folderSlug_of_str
  unfold Fields.get
  rw [lookup_assocSet, if_pos rfl]
  rfl

theorem route_bash (m : Machine) (disk : Disk) (bash : String → Fields → ToolRun) (event : ToolEvent)
    (session : SessionModel) {spec : ToolSpec} (hname : spec.name = "bash_execute") (fields : Fields) :
    route m disk bash (executionOf event session spec (assocErase "dry_run" fields)) =
      executeSandboxed m disk ⟨"bash_execute", true, bash⟩ event.sessionId
        ((truthyText event.tenantId).getD "local")
        (assocErase "folder_slug" (assocSet "folder_slug" (.str (activeFolder session))
          (assocErase "dry_run" fields))) (.str (activeFolder session)) := by
  unfold route ToolExecution.executeTool executionOf
  have htool : coreTool m.fs disk bash "bash_execute" = ⟨"bash_execute", true, bash⟩ := rfl
  simp only [hname, folderSlug_executionOf, htool, true_or, if_true]

theorem route_file (m : Machine) (disk : Disk) (bash : String → Fields → ToolRun) (event : ToolEvent)
    (session : SessionModel) {spec : ToolSpec} (hname : spec.name = "read_file" ∨ spec.name = "write_file")
    (fields : Fields) :
    route m disk bash (executionOf event session spec (assocErase "dry_run" fields)) =
      (coreTool m.fs disk bash spec.name).execute event.sessionId (routedArguments session fields) := by
  unfold route ToolExecution.executeTool executionOf routedArguments
  simp only [folderSlug_executionOf, Json.truthy_str]
  rcases hname with h | h
  · rw [h, if_neg (by simp [coreTool, ReadFileTool])]
    split_ifs <;> rfl
  · rw [h, if_neg (by simp [coreTool, WriteFileTool])]
    split_ifs <;> rfl

theorem callExecutions_of_allows {env : Env} {session : SessionModel} {spec : ToolSpec}
    {fields : Fields} (hallow : PolicyEngine.Allows env.fs session spec.name (.obj fields))
    (htool : env.getToolInstance spec.name = some ⟨spec.name, .builtin⟩)
    (hargs : spec.args = .obj fields) (event : ToolEvent) :
    callExecutions env event session spec =
      if ((Fields.get fields "dry_run").truthy || shadowMode session) = true then []
      else [executionOf event session spec (assocErase "dry_run" fields)] := by
  have hok : PolicyEngine.assertActionAllowed env.fs session spec.name (.obj fields) = .ok () := hallow
  unfold callExecutions classify
  simp only [hargs, hok, htool, reduceCtorEq, if_false]
  split_ifs <;> rfl

/-- **The tool uses the path that the policy checked, whatever is on the disk, exactly when the call
is only simulated or its two paths agree.** -/
theorem usesCheckedPath_iff (m : Machine) (env : Env) (bash : String → Fields → ToolRun)
    {db : Database} {event : ToolEvent} {session : SessionModel} {spec : ToolSpec} {fields : Fields}
    (hload : loadSession db event.sessionId event.tenantId = some session)
    (hrole : session.userRole ≠ "admin")
    (hname : spec.name ∈ ["read_file", "write_file", "bash_execute"])
    (htool : env.getToolInstance spec.name = some ⟨spec.name, .builtin⟩)
    (hargs : spec.args = .obj fields)
    (hallow : PolicyEngine.Allows m.fs session spec.name (.obj fields)) :
    UsesCheckedPath m env bash event session spec fields ↔
      PathsAgree m event session spec.name fields := by
  have hid : session.id = event.sessionId := by
    have h := List.find?_some hload
    exact (of_decide_eq_true h).1
  obtain ⟨checked, hchecked⟩ := checkedPath_of_allows hrole hname hallow
  unfold UsesCheckedPath PathsAgree
  have hexecutions := callExecutions_of_allows (show PolicyEngine.Allows ({ env with fs := m.fs } : Env).fs
    session spec.name (.obj fields) from hallow) htool hargs event
  simp only [hexecutions]
  by_cases hsimulated : ((Fields.get fields "dry_run").truthy || shadowMode session) = true
  · simp only [if_pos hsimulated, List.not_mem_nil, false_implies, implies_true, true_iff]
    rw [Bool.or_eq_true] at hsimulated
    exact hsimulated.imp_right Or.inl
  simp only [if_neg hsimulated, List.mem_singleton, forall_eq, hchecked, Except.ok.injEq, exists_eq_left']
  rw [Bool.or_eq_true, not_or] at hsimulated
  rw [or_iff_right hsimulated.1, or_iff_right hsimulated.2]
  by_cases hbash : spec.name = "bash_execute"
  · rw [if_pos hbash]
    unfold checkedPath at hchecked
    rw [if_pos hbash] at hchecked
    have hcommand : Fields.get (assocErase "folder_slug" (assocSet "folder_slug"
        (.str (activeFolder session)) (assocErase "dry_run" fields))) "command" =
        Fields.get fields "command" := by
      unfold Fields.get
      rw [lookup_assocErase, if_neg (by decide), lookup_assocSet, if_neg (by decide),
        lookup_assocErase, if_neg (by decide)]
    simp only [route_bash m _ bash event session hbash, ← hid]
    constructor
    · intro h command folder directory hc hnonempty hfolder hdirectory
      rw [hchecked] at hdirectory
      cases hdirectory
      rw [← folderOf_activeFolder] at hfolder
      exact (sandboxed_place_iff m bash _ _ (hcommand.trans hc) hnonempty hfolder).mp h
    · intro h disk place hplace
      obtain ⟨command, folder, hc, hnonempty, hfolder⟩ := sandboxed_starts hplace
      have hmounted := folderOf_activeFolder session ▸ hfolder
      have hstarts := h command folder checked (hcommand.symm.trans hc) hnonempty hmounted hchecked
      exact (sandboxed_place_iff m bash _ _ hc hnonempty hfolder).mpr hstarts disk place hplace
  · rw [if_neg hbash]
    have hfile : spec.name = "read_file" ∨ spec.name = "write_file" := by
      simp only [List.mem_cons, List.not_mem_nil, or_false] at hname
      tauto
    unfold checkedPath at hchecked
    rw [if_neg hbash] at hchecked
    rw [← fileTool_agrees_iff hfile hchecked bash, hid]
    simp only [route_file m _ bash event session hfile]

/-! ## A note of a tenant -/

/-- The machine of the local deployment, without Docker. -/
def localMachine : Machine where
  fs := localEnv.fs
  run _ _ := .ok .null
  getcwd := ["srv"]
  kubernetesMode := false
  inCluster := false
  useDockerSandbox := false
  dockerAvailable := false
  allowAnonLocal := true
  imageWorkdir := []
  workspaceClaim := []

def noteFields : Fields := [("filepath", .str "note.txt"), ("content", .str "hello")]

def noteSpec : ToolSpec := ⟨some "call_1", "write_file", .obj noteFields⟩

def noteSession (tenantId : String) : SessionModel := ⟨"s1", tenantId, "developer", [], "auto", []⟩

def noteEvent (tenantId : String) : ToolEvent :=
  ⟨.executeToolBatch, some "t1", "s1", [noteSpec], some tenantId⟩

/-- The tenant `"local"` writes where the policy looked. -/
theorem local_tenant_uses_checked_path :
    UsesCheckedPath localMachine localEnv (fun _ _ => .raised databaseError) (noteEvent "local")
      (noteSession "local") noteSpec noteFields :=
  (usesCheckedPath_iff localMachine localEnv _
    (show loadSession ⟨[noteSession "local"], [], [], [], 0⟩ "s1" (some "local") =
      some (noteSession "local") by decide) (by decide) (by decide) (by decide) rfl
    (by decide +kernel)).mpr
    (Or.inr (Or.inr (fileAgrees_of_shortId
      (show tenantArgument noteFields = .str "local" by decide) rfl)))

/-- Another tenant's file is written into the workspace of the tenant `"local"`. -/
theorem tool_ignores_the_tenant : ¬ ∀ (m : Machine) (env : Env) (bash : String → Fields → ToolRun)
    (db : Database) (event : ToolEvent) (session : SessionModel) (spec : ToolSpec) (fields : Fields),
    loadSession db event.sessionId event.tenantId = some session → session.userRole ≠ "admin" →
    spec.name ∈ ["read_file", "write_file", "bash_execute"] →
    env.getToolInstance spec.name = some ⟨spec.name, .builtin⟩ → spec.args = .obj fields →
    PolicyEngine.Allows m.fs session spec.name (.obj fields) →
    UsesCheckedPath m env bash event session spec fields := by
  intro h
  have huses := h localMachine localEnv (fun _ _ => .raised databaseError)
    ⟨[noteSession "acme"], [], [], [], 0⟩ (noteEvent "acme") (noteSession "acme") noteSpec noteFields
    (by decide) (by decide) (by decide) (by decide) rfl (by decide +kernel)
  have hexecutes : callExecutions { localEnv with fs := localMachine.fs } (noteEvent "acme")
      (noteSession "acme") noteSpec =
      [executionOf (noteEvent "acme") (noteSession "acme") noteSpec noteFields] := by decide +kernel
  have hplace : (route localMachine fullDisk (fun _ _ => .raised databaseError)
      (executionOf (noteEvent "acme") (noteSession "acme") noteSpec noteFields)).place =
      some (.host ["srv", "workspace", "t_local", "s_s1", "note.txt"]) := by decide +kernel
  obtain ⟨path, hchecked, hpath⟩ := huses fullDisk _ (by rw [hexecutes]; exact List.mem_singleton_self _)
    _ hplace
  have hacme : checkedPath localMachine.fs (noteSession "acme") noteSpec.name noteFields =
      .ok ["srv", "workspace", "t_acme", "s_s1", "note.txt"] := by decide +kernel
  rw [hacme] at hchecked
  cases hchecked
  exact absurd hpath (by decide)

end KernelRuntime.PathAgreement
