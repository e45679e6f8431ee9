import Mathlib.Data.List.Infix
import KernelRuntime.Tools.Router

/-! # The two paths of a shell command

`BashExecuteTool` validates its command and bounds its timeout before it starts a shell. The router never
gets there: it hands the command and the timeout of a `bash_execute` call to a sandbox as they are. -/

namespace KernelRuntime.ToolExecution
set_option autoImplicit false

/-- `str.lower`, `str.strip` and `int(v)`. -/
structure TextMethods where
  lower : String → String
  strip : String → String
  int : Json → Except PyError ℤ

/-! ## The tool itself -/

def BLOCKED_COMMANDS : List String :=
  ["rm -rf /", "rm -rf /*", "mkfs", "dd if=/dev/zero", "dd if=/dev/random", ":()\x7b:|:&\x7d;:", "shutdown",
   "reboot", "format c:", "del /f /s /q c:", "rd /s /q c:", "takeown /f c:", "icacls c:", "chmod -R 777 /",
   "chown -R", "curl | sh", "curl | bash", "wget -O- |", "nc -e", "/dev/tcp"]

def MAX_COMMAND_LENGTH : ℕ := 10000

/-- `pattern in text`. -/
def occursIn (pattern text : String) : Bool := decide (pattern.toList <:+: text.toList)

/-- `_validate_command`: only the command is lowered. -/
def validateCommand (py : TextMethods) (command : String) : Except String Unit :=
  if command = "" ∨ py.strip command = "" then .error "Empty command"
  else if MAX_COMMAND_LENGTH < command.length then
    .error ("Command exceeds " ++ toString MAX_COMMAND_LENGTH ++ " character limit")
  else
    match BLOCKED_COMMANDS.find? fun pattern => occursIn pattern (py.strip (py.lower command)) with
    | some pattern => .error ("BLOCKED: Matches destructive pattern '" ++ pattern ++ "'")
    | none => .ok ()

structure ShellCall where
  command : String
  cwd : List String
  timeout : ℤ
deriving DecidableEq

/-- `kwargs.get("timeout", 30)`. -/
def timeoutArgument (kwargs : Fields) : Json := (kwargs.lookup "timeout").getD (.int 30)

/-- `BashExecuteTool.execute` up to the shell: an exception, the text of a refusal, or the call. -/
def bashExecute (fs : FileSystem) (py : TextMethods) (kwargs : Fields) :
    Except PyError (Except String ShellCall) := do
  let timeout ← py.int (timeoutArgument kwargs)
  match (kwargs.lookup "command").getD (.str "") with
  | .str command =>
    match validateCommand py command with
    | .error e => return .error e
    | .ok () =>
      let cwd ← resolveWorkspacePath fs ((kwargs.lookup "working_dir").getD (.str ".")) "" "local"
      return .ok ⟨command, cwd, min (max timeout 1) 120⟩
  | v =>
    if v.truthy then throw ⟨.attributeError, "'" ++ v.typeName ++ "' object has no attribute 'strip'"⟩
    else return .error "Empty command"

theorem validateCommand_ok_iff (py : TextMethods) (command : String) :
    validateCommand py command = .ok () ↔ command ≠ "" ∧ py.strip command ≠ "" ∧
      command.length ≤ MAX_COMMAND_LENGTH ∧
      ∀ pattern ∈ BLOCKED_COMMANDS, occursIn pattern (py.strip (py.lower command)) = false := by
  unfold validateCommand
  split_ifs with hempty hlong
  · refine iff_of_false nofun fun h => ?_
    exact hempty.elim h.1 h.2.1
  · refine iff_of_false nofun fun h => ?_
    exact absurd h.2.2.1 (Nat.not_le.mpr hlong)
  · rw [not_or] at hempty
    cases hfind : BLOCKED_COMMANDS.find? fun pattern => occursIn pattern (py.strip (py.lower command)) with
    | none =>
      refine iff_of_true rfl ⟨hempty.1, hempty.2, Nat.le_of_not_lt hlong, fun pattern hpattern => ?_⟩
      exact Bool.eq_false_iff.mpr (List.find?_eq_none.mp hfind pattern hpattern)
    | some pattern =>
      refine iff_of_false nofun fun h => ?_
      have hfree := h.2.2.2 pattern (List.mem_of_find?_eq_some hfind)
      have hfound : occursIn pattern (py.strip (py.lower command)) = true := by simpa using List.find?_some hfind
      rw [hfree] at hfound
      cases hfound

/-- **The tool starts a shell only with a validated command and a bounded timeout.** -/
theorem bashExecute_enforces {fs : FileSystem} {py : TextMethods} {kwargs : Fields} {call : ShellCall}
    (h : bashExecute fs py kwargs = .ok (.ok call)) :
    validateCommand py call.command = .ok () ∧ 1 ≤ call.timeout ∧ call.timeout ≤ 120 := by
  obtain ⟨timeout, _, h⟩ := bind_eq_ok_iff.mp h
  split at h
  next _ command _ =>
    cases hvalid : validateCommand py command with
    | error e =>
      rw [hvalid] at h
      cases h
    | ok u =>
      rw [hvalid] at h
      obtain ⟨cwd, _, h⟩ := bind_eq_ok_iff.mp h
      obtain rfl := Except.ok.inj (Except.ok.inj h)
      exact ⟨hvalid, by simp only; omega, by simp only; omega⟩
  next =>
    split_ifs at h
    all_goals cases h

/-! ## The path of the router -/

/-- What the router hands to a sandbox: the arguments of `SandboxAdapter.execute`, or a `SandboxConfig`. -/
inductive SandboxCall where
  | adapter (command workingDir timeout : Json)
  | config (command : Json) (workingDir : List String) (timeout : Json)
deriving DecidableEq

def SandboxCall.command : SandboxCall → Json
  | .adapter command _ _ => command
  | .config command _ _ => command

def SandboxCall.timeout : SandboxCall → Json
  | .adapter _ _ timeout => timeout
  | .config _ _ timeout => timeout

/-- `_execute_sandboxed` up to the sandbox, for `bash_execute`. -/
def sandboxCall (m : Machine) (sessionId tenantId : String) (kwargs : Fields) (folderSlug : Json) :
    Except PyError SandboxCall := do
  if (Fields.get kwargs "command").truthy = false then
    throw (toolExecutionError "Missing command for bash_execute" "bash_execute")
  else if m.kubernetesMode then
    let safeCwd ← resolveWorkspacePath m.fs (folderOf folderSlug) sessionId tenantId
    return .config (Fields.get kwargs "command") safeCwd (timeoutArgument kwargs)
  else return .adapter (Fields.get kwargs "command") (folderOf folderSlug) (timeoutArgument kwargs)

/-- `execute_tool` up to the sandbox. -/
def routedCall (m : Machine) (sessionId tenantId : String) (kwargs : Fields) : Except PyError SandboxCall :=
  sandboxCall m sessionId tenantId (assocErase "folder_slug" kwargs) (folderSlug kwargs)

def runCall (m : Machine) (disk : Disk) (sessionId tenantId : String) : SandboxCall → ToolRun
  | .adapter command workingDir _ => sandboxAdapter m disk command sessionId tenantId workingDir
  | .config command workingDir _ =>
    if m.inCluster then kubernetesExecutor m command workingDir
    else localExecutor m (disk.withDirectory (sessionRoot m.fs sessionId tenantId)) command workingDir

theorem executeTool_bash (m : Machine) (disk : Disk) {tool : BaseTool} (htool : tool.name = "bash_execute")
    (sessionId : String) (kwargs : Fields) (tenantId : String) :
    executeTool m disk tool sessionId kwargs tenantId =
      match routedCall m sessionId tenantId kwargs with
      | .error e => .raised e
      | .ok call => runCall m disk sessionId tenantId call := by
  unfold executeTool executeSandboxed routedCall sandboxCall
  simp only [htool, or_true, if_true]
  generalize folderOf (folderSlug kwargs) = folder
  generalize assocErase "folder_slug" kwargs = rest
  by_cases hcommand : (Fields.get rest "command").truthy = false
  · rw [if_pos hcommand, if_pos hcommand]
    rfl
  · rw [if_neg hcommand, if_neg hcommand]
    by_cases hmode : m.kubernetesMode = true
    · rw [if_pos hmode, if_pos hmode]
      cases resolveWorkspacePath m.fs folder sessionId tenantId with
      | error e => rfl
      | ok safeCwd => rfl
    · rw [if_neg hmode, if_neg hmode]
      rfl

/-- `1 <= timeout <= 120`. A decimal is compared as the double that is nearest to it. -/
def withinTimeout : Json → Bool
  | .bool b => b
  | .int n => decide (1 ≤ n ∧ n ≤ 120)
  | .float (.finite m e) =>
    if 0 ≤ e then decide (1 ≤ m * 10 ^ e.natAbs ∧ m * 10 ^ e.natAbs ≤ 120)
    else decide ((2 ^ 54 - 1) * 10 ^ e.natAbs ≤ m * 2 ^ 54 ∧ m * 2 ^ 47 ≤ (120 * 2 ^ 47 + 1) * 10 ^ e.natAbs)
  | _ => false

/-- What the checks of `BashExecuteTool` are for; both sides of the comparison are lowered. -/
structure CommandAllowed (lower : String → String) (command : String) : Prop where
  nonempty : command ≠ ""
  length_le : command.length ≤ MAX_COMMAND_LENGTH
  unblocked : ∀ pattern ∈ BLOCKED_COMMANDS, occursIn (lower pattern) (lower command) = false

structure Enforced (lower : String → String) (call : SandboxCall) : Prop where
  command : ∃ c, call.command = .str c ∧ CommandAllowed lower c
  timeout : withinTimeout call.timeout = true

/-- The folder of the call does not resolve to a path of the session, and the call ends there. -/
def FolderRefused (m : Machine) (sessionId tenantId : String) (kwargs : Fields) : Prop :=
  m.kubernetesMode = true ∧
    ∀ cwd, resolveWorkspacePath m.fs (folderOf (folderSlug kwargs)) sessionId tenantId ≠ .ok cwd

/-- **The router hands over what it was given:** the command and the timeout reach a sandbox unchanged. -/
theorem routedCall_ok {m : Machine} {sessionId tenantId : String} {kwargs : Fields} {call : SandboxCall}
    (h : routedCall m sessionId tenantId kwargs = .ok call) :
    call.command = Fields.get kwargs "command" ∧ call.command.truthy = true ∧
      call.timeout = timeoutArgument kwargs ∧ ¬ FolderRefused m sessionId tenantId kwargs := by
  have hcommand : Fields.get (assocErase "folder_slug" kwargs) "command" = Fields.get kwargs "command" := by
    simp [Fields.get, lookup_assocErase]
  have htimeout : timeoutArgument (assocErase "folder_slug" kwargs) = timeoutArgument kwargs := by
    simp [timeoutArgument, lookup_assocErase]
  unfold routedCall sandboxCall at h
  rw [hcommand, htimeout] at h
  split_ifs at h with htruthy hmode
  · obtain ⟨cwd, hcwd, h⟩ := bind_eq_ok_iff.mp h
    obtain rfl := Except.ok.inj h
    exact ⟨rfl, Bool.not_eq_false _ ▸ htruthy, rfl, fun hrefused => hrefused.2 cwd hcwd⟩
  · obtain rfl := Except.ok.inj h
    exact ⟨rfl, Bool.not_eq_false _ ▸ htruthy, rfl, fun hrefused => hmode hrefused.1⟩

/-- A call with a command ends at its sandbox unless its folder is refused. -/
theorem routedCall_isOk {m : Machine} {sessionId tenantId : String} {kwargs : Fields}
    (hcommand : (Fields.get kwargs "command").truthy = true)
    (hfolder : ¬ FolderRefused m sessionId tenantId kwargs) :
    ∃ call, routedCall m sessionId tenantId kwargs = .ok call := by
  have hkept : Fields.get (assocErase "folder_slug" kwargs) "command" = Fields.get kwargs "command" := by
    simp [Fields.get, lookup_assocErase]
  unfold routedCall sandboxCall
  rw [hkept, if_neg (by simp [hcommand])]
  by_cases hmode : m.kubernetesMode = true
  · rw [if_pos hmode]
    unfold FolderRefused at hfolder
    cases hcwd : resolveWorkspacePath m.fs (folderOf (folderSlug kwargs)) sessionId tenantId with
    | error e => exact absurd ⟨hmode, fun cwd h => by rw [hcwd] at h; cases h⟩ hfolder
    | ok cwd => exact ⟨_, rfl⟩
  · rw [if_neg hmode]
    exact ⟨_, rfl⟩

/-- **A routed command is checked by nobody.** It keeps the rules of `BashExecuteTool` when its own command
and timeout do, or when it never gets to a sandbox. -/
theorem routed_command_enforced_iff (m : Machine) (lower : String → String) (sessionId tenantId c : String)
    (kwargs : Fields) :
    (∀ call, routedCall m sessionId tenantId (assocSet "command" (.str c) kwargs) = .ok call →
        Enforced lower call) ↔
      c = "" ∨ FolderRefused m sessionId tenantId kwargs ∨
        CommandAllowed lower c ∧ withinTimeout (timeoutArgument kwargs) = true := by
  have hcommand : Fields.get (assocSet "command" (.str c) kwargs) "command" = .str c := by
    simp [Fields.get, lookup_assocSet]
  have htimeout : timeoutArgument (assocSet "command" (.str c) kwargs) = timeoutArgument kwargs := by
    simp [timeoutArgument, lookup_assocSet]
  have hslug : folderSlug (assocSet "command" (.str c) kwargs) = folderSlug kwargs := by
    have hkept : Fields.get (assocSet "command" (.str c) kwargs) "folder_slug" = Fields.get kwargs "folder_slug" := by
      simp [Fields.get, lookup_assocSet]
    unfold folderSlug
    rw [hkept]
  have hrefused : FolderRefused m sessionId tenantId (assocSet "command" (.str c) kwargs) ↔
      FolderRefused m sessionId tenantId kwargs := by
    unfold FolderRefused
    rw [hslug]
  constructor
  · intro h
    by_cases hempty : c = ""
    · exact Or.inl hempty
    by_cases hfolder : FolderRefused m sessionId tenantId kwargs
    · exact Or.inr (Or.inl hfolder)
    obtain ⟨call, hcall⟩ := routedCall_isOk (by rw [hcommand]; simpa [Json.truthy] using hempty)
      (hrefused.not.mpr hfolder)
    obtain ⟨hgiven, _, hgivenTimeout, _⟩ := routedCall_ok hcall
    have henforced := h call hcall
    obtain ⟨c', hc', hallowed⟩ := henforced.command
    rw [hgiven, hcommand] at hc'
    obtain rfl := Json.str.inj hc'
    have hwithin := henforced.timeout
    rw [hgivenTimeout, htimeout] at hwithin
    exact Or.inr (Or.inr ⟨hallowed, hwithin⟩)
  · intro h call hcall
    obtain ⟨hgiven, htruthy, hgivenTimeout, hfolder⟩ := routedCall_ok hcall
    rw [hcommand] at hgiven
    rcases h with rfl | hrefuse | ⟨hallowed, hwithin⟩
    · rw [hgiven] at htruthy
      cases htruthy
    · exact absurd (hrefused.mpr hrefuse) hfolder
    · exact ⟨⟨c, hgiven, hallowed⟩, by rw [hgivenTimeout, htimeout]; exact hwithin⟩

theorem occursIn_self (text : String) : occursIn text text = true := decide_eq_true List.infix_rfl

/-- The first entry of the blocklist, as the command of a call without a timeout. -/
theorem routed_rm_not_enforced : ¬ ∀ (m : Machine) (lower : String → String) (sessionId tenantId c : String)
    (kwargs : Fields) (call : SandboxCall),
    routedCall m sessionId tenantId (assocSet "command" (.str c) kwargs) = .ok call → Enforced lower call := by
  intro h
  have henforced := h
    { fs := plainFileSystem "/srv/workspace" "/tmp", run := fun _ _ => .ok .null, getcwd := ["srv"],
      kubernetesMode := false, inCluster := false, useDockerSandbox := false, dockerAvailable := true,
      allowAnonLocal := false, imageWorkdir := [], workspaceClaim := [] }
    String.toLower "s1" "acme" "rm -rf /" [] (.adapter (.str "rm -rf /") (.str ".") (.int 30)) (by decide)
  obtain ⟨c, hc, hallowed⟩ := henforced.command
  obtain rfl := Json.str.inj hc
  have hfree := hallowed.unblocked "rm -rf /" (by decide)
  rw [occursIn_self] at hfree
  cases hfree

end KernelRuntime.ToolExecution
