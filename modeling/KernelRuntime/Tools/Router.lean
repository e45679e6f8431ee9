import KernelRuntime.Governance.Paths

/-! # The tool execution router

`ToolExecutionRouter.execute_tool` runs `bash_execute` in a sandbox and every other tool by its own
`execute`. Here are the router, the sandboxes and the two file tools, with the file that a tool opens
and the directory that a command starts in. Timeouts and limits of the containers are left out. -/

namespace KernelRuntime.ToolExecution
set_option autoImplicit false

/-- A directory or file of the host, or one that only exists in a container. -/
inductive Place where
  | host (path : List String)
  | container (path : List String)
deriving DecidableEq

/-- What the tools find on the disk. The text of a file is not there when it is not UTF-8. -/
structure Disk where
  pathExists : List String → Bool
  isFile : List String → Bool
  readText : List String → Except PyError (Option String)
  makeParents : List String → Except PyError Unit
  writeText : List String → String → Except PyError Unit

/-- `mkdir` of a root, as far as the sandboxes look for it. -/
def Disk.withDirectory (disk : Disk) (path : Except PyError (List String)) : Disk :=
  { disk with pathExists := fun p => disk.pathExists p || decide (path = .ok p) }

/-- The machine and how it is set up. The volume of Kubernetes jobs is mounted at `/workspace`, and
the runtime sees it at `workspaceClaim`. -/
structure Machine where
  fs : FileSystem
  /-- The result of a command started in a place. -/
  run : Place → String → Except PyError Json
  getcwd : List String
  kubernetesMode : Bool
  inCluster : Bool
  useDockerSandbox : Bool
  dockerAvailable : Bool
  allowAnonLocal : Bool
  imageWorkdir : List String
  workspaceClaim : List String

/-- What a tool did: the file that it opened or the directory that its command started in, and its
result. -/
structure ToolRun where
  place : Option Place
  result : Except PyError Json

/-- The tool raised before it touched anything. -/
def ToolRun.raised (e : PyError) : ToolRun := ⟨none, .error e⟩

def toolExecutionError (message toolName : String) : PyError :=
  ⟨.other, "Tool '" ++ toolName ++ "' failed: " ++ message⟩

def sandboxExecutionError (message : String) : PyError := ⟨.other, message⟩

/-- `{"success": False, "error": ...}`. -/
def failure (error : String) : Json := .obj [("success", .bool false), ("error", .str error)]

/-- A class with `requires_sandbox` and `execute`. -/
structure BaseTool where
  name : String
  requiresSandbox : Bool
  execute : String → Fields → ToolRun

/-! ## Calls with keyword arguments -/

/-- The parameters of `execute` that the keyword arguments do not name. -/
def missingParameters (parameters : List String) (kwargs : Fields) : List String :=
  parameters.filter fun p => (kwargs.lookup p).isNone

def quoted (parameter : String) : String := "'" ++ parameter ++ "'"

/-- `tool_.execute(session_id=session_id, **kwargs)` finds its parameters, or raises. -/
def bindArguments (modulePath className : String) (parameters : List String) (kwargs : Fields) :
    Except PyError Unit := do
  let method := className ++ ".execute()"
  if (kwargs.lookup "session_id").isSome then
    throw ⟨.typeError, modulePath ++ "." ++ method ++
      " got multiple values for keyword argument 'session_id'"⟩
  if (kwargs.lookup "self").isSome then
    throw ⟨.typeError, method ++ " got multiple values for argument 'self'"⟩
  match missingParameters parameters kwargs with
  | [] => return ()
  | [p] => throw ⟨.typeError, method ++ " missing 1 required positional argument: " ++ quoted p⟩
  | ps => throw ⟨.typeError, method ++ " missing " ++ toString ps.length ++
      " required positional arguments: " ++ String.intercalate " and " (ps.map quoted)⟩

/-- An identifier as `get_session_root` takes it from the arguments of a call: it must have a length,
and more than eight items are cut off. -/
def shortIdText (fs : FileSystem) : Json → Except PyError String
  | .str s => .ok (shortId s)
  | .arr items => .ok (fs.textOf (.arr (items.take 8)))
  | .obj fields =>
    if fields.length ≤ 8 then .ok (fs.textOf (.obj fields))
    else .error ⟨.typeError, "unhashable type: 'slice'"⟩
  | v => .error ⟨.typeError, "object of type '" ++ v.typeName ++ "' has no len()"⟩

/-- The same root, for the tenant that a tool finds in its arguments. -/
def argumentRoot (fs : FileSystem) (sessionId : String) (tenantId : Json) :
    Except PyError (List String) := do
  if sessionId = "" then fs.resolve fs.workspaceRoot
  else
    let shortTenant ← shortIdText fs tenantId
    fs.resolve (fs.workspaceRoot ++ "/t_" ++ shortTenant ++ "/s_" ++ shortId sessionId)

theorem argumentRoot_str (fs : FileSystem) (sessionId tenantId : String) :
    argumentRoot fs sessionId (.str tenantId) = sessionRoot fs sessionId tenantId := by
  unfold argumentRoot sessionRoot getSessionRoot
  by_cases hsession : sessionId = ""
  · rw [if_pos hsession, if_pos hsession]
  · rw [if_neg hsession, if_neg hsession]
    rfl

/-! ## The file tools -/

/-- `kwargs.get("tenant_id", "local")`. -/
def tenantArgument (kwargs : Fields) : Json := (kwargs.lookup "tenant_id").getD (.str "local")

/-- The path of a file tool. -/
def resolveArgument (fs : FileSystem) (sessionId : String) (kwargs : Fields) :
    Except PyError (List String) := do
  let root ← argumentRoot fs sessionId (tenantArgument kwargs)
  resolveFrom fs (Fields.get kwargs "filepath") root

/-- The line boundaries of `str.splitlines`. -/
def lineBreaks : List Char :=
  ['\n', '\r', Char.ofNat 0x0b, Char.ofNat 0x0c, Char.ofNat 0x1c, Char.ofNat 0x1d, Char.ofNat 0x1e,
   Char.ofNat 0x85, Char.ofNat 0x2028, Char.ofNat 0x2029]

/-- `len(content.splitlines())`; the flag says that the last line has begun. -/
def countLines : Bool → List Char → ℕ
  | begun, [] => if begun then 1 else 0
  | _, '\r' :: '\n' :: cs => countLines false cs + 1
  | _, c :: cs => if c ∈ lineBreaks then countLines false cs + 1 else countLines true cs

/-- `ReadFileTool.execute`. -/
def readFile (fs : FileSystem) (disk : Disk) (sessionId : String) (kwargs : Fields) : ToolRun :=
  match bindArguments "src.tools.filesystem.read" "ReadFileTool" ["filepath"] kwargs with
  | .error e => .raised e
  | .ok () =>
    let filepath := Fields.get kwargs "filepath"
    match resolveArgument fs sessionId kwargs with
    | .error e => .raised (toolExecutionError e.message "read_file")
    | .ok path =>
      if disk.pathExists path = false then
        ⟨none, .ok (failure ("File not found: " ++ fs.textOf filepath))⟩
      else if disk.isFile path = false then
        ⟨none, .ok (failure ("Path is a directory: " ++ fs.textOf filepath))⟩
      else
        ⟨some (.host path),
          match disk.readText path with
          | .error e => .error (toolExecutionError e.message "read_file")
          | .ok none => .ok (failure ("Binary file not supported: " ++ fs.textOf filepath))
          | .ok (some content) => .ok (.obj [("success", .bool true), ("content", .str content),
              ("lines", .int (countLines false content.toList)), ("filepath", filepath)])⟩

/-- `WriteFileTool.execute`: the file is opened before a content that is no text is refused. -/
def writeFile (fs : FileSystem) (disk : Disk) (sessionId : String) (kwargs : Fields) : ToolRun :=
  match bindArguments "src.tools.filesystem.write" "WriteFileTool" ["filepath", "content"] kwargs with
  | .error e => .raised e
  | .ok () =>
    match resolveArgument fs sessionId kwargs with
    | .error e => .raised (toolExecutionError e.message "write_file")
    | .ok path =>
      match disk.makeParents path with
      | .error e => .raised (toolExecutionError e.message "write_file")
      | .ok () =>
        ⟨some (.host path),
          match Fields.get kwargs "content" with
          | .str content =>
            match disk.writeText path content with
            | .error e => .error (toolExecutionError e.message "write_file")
            | .ok () => .ok (.obj [("success", .bool true), ("filepath", Fields.get kwargs "filepath"),
                ("bytes_written", .int content.utf8ByteSize)])
          | v => .error (toolExecutionError
              ("write() argument must be str, not " ++ v.typeName) "write_file")⟩

def ReadFileTool (fs : FileSystem) (disk : Disk) : BaseTool := ⟨"read_file", false, readFile fs disk⟩

def WriteFileTool (fs : FileSystem) (disk : Disk) : BaseTool := ⟨"write_file", false, writeFile fs disk⟩

/-! ## The sandboxes -/

/-- The names of a path as it is written, for `relative_to`. -/
def pureParts (path : String) : List String :=
  (splitPath [] path.toList).filter fun name => decide (name ≠ "" ∧ name ≠ ".")

/-- `path.relative_to(base)` for a resolved path; nothing where it raises. -/
def relativeTo (path : List String) (base : String) : Option (List String) :=
  if isAbsolute base then path.dropPrefix? (pureParts base) else none

/-- What is behind a path of a container in which a directory is mounted at `/workspace`. -/
def behindMount (mount : List String) : List String → Place
  | [] => .container []
  | name :: rest => if name = "workspace" then .host (mount ++ rest) else .container (name :: rest)

/-- A command is started in a place. Only a text can be passed to a process. -/
def startIn (m : Machine) (place : Place) (command : Json) (wrap : String) : ToolRun :=
  match command with
  | .str c =>
    ⟨some place, match m.run place c with
      | .ok v => .ok v
      | .error e => .error (sandboxExecutionError (wrap ++ e.message))⟩
  | v => .raised (sandboxExecutionError
      (wrap ++ "expected str, bytes or os.PathLike object, not " ++ v.typeName))

/-- `run_in_docker`: the root of the session is mounted at `/workspace`. -/
def runInDocker (m : Machine) (command : Json) (workspace : String) (containerWorkdir : List String) :
    ToolRun :=
  startIn m (behindMount (pureParts workspace) containerWorkdir) command "Docker execution failed: "

/-- `run_local_dev`: a directory that is not there is replaced by the one of the process. -/
def runLocalDev (m : Machine) (disk : Disk) (command : Json) (cwd : List String) : ToolRun :=
  startIn m (.host (if disk.pathExists cwd then cwd else m.getcwd)) command "Local execution failed: "

/-- `SandboxAdapter.execute`. -/
def sandboxAdapter (m : Machine) (disk : Disk) (command : Json) (sessionId tenantId : String)
    (workingDir : Json) : ToolRun :=
  match resolveWorkspacePath m.fs workingDir sessionId tenantId with
  | .error e => .raised e
  | .ok workingPath =>
    let root := getSessionRoot m.fs tenantId sessionId
    let disk' := (disk.withDirectory (m.fs.resolve root)).withDirectory
      (sessionRoot m.fs sessionId tenantId)
    match relativeTo workingPath root with
    | none => .raised (sandboxExecutionError
        ("Working directory escapes session root: " ++ pathText workingPath))
    | some relativeWorkdir =>
      if m.dockerAvailable then runInDocker m command root ("workspace" :: relativeWorkdir)
      else if m.allowAnonLocal then runLocalDev m disk' command workingPath
      else .raised (sandboxExecutionError
        ("Docker is required for command execution in production. " ++
          "Set ALLOW_ANON_LOCAL=true for local development."))

/-- `LocalSandboxExecutor.execute`: a container gets the directory at `/workspace` and starts where
its image says; a process of the host starts in the directory, which has to be there. -/
def localExecutor (m : Machine) (disk : Disk) (command : Json) (workingDir : List String) : ToolRun :=
  if m.useDockerSandbox then
    startIn m (behindMount workingDir m.imageWorkdir) command "Execution failed: "
  else if disk.pathExists workingDir then
    startIn m (.host workingDir) command "Execution failed: "
  else .raised (sandboxExecutionError
    ("Execution failed: [Errno 2] No such file or directory: '" ++ pathText workingDir ++ "'"))

/-- `KubernetesSandboxExecutor.execute`: the directory is a path of the job's container. -/
def kubernetesExecutor (m : Machine) (command : Json) (workingDir : List String) : ToolRun :=
  startIn m (behindMount m.workspaceClaim workingDir) command "Execution failed: "

/-! ## The router -/

/-- `folder_slug or "."`. -/
def folderOf (folderSlug : Json) : Json := if folderSlug.truthy then folderSlug else .str "."

def executeSandboxed (m : Machine) (disk : Disk) (tool : BaseTool) (sessionId tenantId : String)
    (kwargs : Fields) (folderSlug : Json) : ToolRun :=
  if tool.name = "bash_execute" then
    let command := Fields.get kwargs "command"
    let folder := folderOf folderSlug
    if command.truthy = false then
      .raised (toolExecutionError "Missing command for bash_execute" tool.name)
    else if m.kubernetesMode then
      match resolveWorkspacePath m.fs folder sessionId tenantId with
      | .error e => .raised e
      | .ok safeCwd =>
        if m.inCluster then kubernetesExecutor m command safeCwd
        else localExecutor m (disk.withDirectory (sessionRoot m.fs sessionId tenantId)) command safeCwd
    else sandboxAdapter m disk command sessionId tenantId folder
  else tool.execute sessionId kwargs

/-- `kwargs.pop("folder_slug", "") or ""`. -/
def folderSlug (kwargs : Fields) : Json :=
  let slug := Fields.get kwargs "folder_slug"
  if slug.truthy then slug else .str ""

theorem folderOf_str (slug : String) : folderOf (.str slug) = .str (if slug = "" then "." else slug) := by
  unfold folderOf
  rw [apply_ite Json.str]
  by_cases hslug : slug = ""
  · rw [if_neg (Json.truthy_str.not.mpr (not_not.mpr hslug)), if_pos hslug]
  · rw [if_pos (Json.truthy_str.mpr hslug), if_neg hslug]

/-- The worker puts a text there, and the router takes out that text. -/
theorem folderSlug_of_str {kwargs : Fields} {slug : String} (h : Fields.get kwargs "folder_slug" = .str slug) :
    folderSlug kwargs = .str slug := by
  unfold folderSlug
  rw [h]
  by_cases hslug : slug = ""
  · rw [hslug]
    rfl
  · exact if_pos (Json.truthy_str.mpr hslug)

/-- `execute_tool`. Waiting for the one user of an MCP server at a time is left out. -/
def executeTool (m : Machine) (disk : Disk) (tool : BaseTool) (sessionId : String) (kwargs : Fields)
    (tenantId : String) : ToolRun :=
  let slug := folderSlug kwargs
  let rest := assocErase "folder_slug" kwargs
  if tool.requiresSandbox ∨ tool.name = "bash_execute" then
    executeSandboxed m disk tool sessionId tenantId rest slug
  else if slug.truthy ∧ (rest.lookup "working_dir").isNone then
    tool.execute sessionId (assocSet "working_dir" slug rest)
  else tool.execute sessionId rest

end KernelRuntime.ToolExecution
