import KernelRuntime.Governance.Paths
import KernelRuntime.Memory.MessageStore

/-! # The policy engine

`PolicyEngine.assert_action_allowed`: human approval for dangerous tools, then the tools of the
role, then the paths of file and shell tools. An admin passes at once. -/

namespace KernelRuntime.PolicyEngine
set_option autoImplicit false

def ROLE_PERMISSIONS : List (String × List String) :=
  [("admin", ["*"]),
   ("developer", ["bash_execute", "read_file", "write_file", "git_clone", "git_read", "git_write",
     "git_commit", "git_create_pr", "code_review", "security_scan", "generate_tests",
     "generate_docs", "generate_cicd", "database_query", "api_test", "manage_dependencies",
     "code_graph_query", "web_search", "update_agent_memory", "search_past_decisions",
     "delegate_task", "dispatch_output"]),
   ("viewer", ["read_file", "code_graph_query", "web_search"])]

/-- Tools that need approval in every risk mode. -/
def ALWAYS_APPROVE_TOOLS : List String := []

/-- Tools that run in the sandbox, and need approval in strict mode. -/
def SANDBOXED_DANGEROUS_TOOLS : List String := ["bash_execute"]

/-- Tools outside the sandbox, which need approval in every risk mode. -/
def UNSANDBOXED_DANGEROUS_TOOLS : List String := ["mcp_Blender_capture_viewport_screenshot"]

/-- Whether a call of the tool needs human approval. -/
def needsApproval (riskMode toolName : String) : Bool :=
  decide (toolName ∈ ALWAYS_APPROVE_TOOLS) || decide (toolName ∈ UNSANDBOXED_DANGEROUS_TOOLS) ||
    (decide (toolName ∈ SANDBOXED_DANGEROUS_TOOLS) && decide (riskMode = "strict"))

/-- `tool_name.startswith("mcp_")`. -/
def isDynamicMcpTool (toolName : String) : Bool := "mcp_".toList.isPrefixOf toolName.toList

/-- The approval step: the flag is read from the arguments of the call. -/
def assertApproved (riskMode toolName : String) (kwargs : Json) : Except PyError Unit := do
  if needsApproval riskMode toolName then
    let approved ← kwargs.get "__approved__"
    if approved.truthy then return ()
    throw ⟨.governanceApprovalRequiredError, "Action '" ++ toolName ++ "' requires your approval."⟩

/-- The role step. -/
def assertRoleAllows (userRole toolName : String) : Except PyError Unit :=
  let allowed := (ROLE_PERMISSIONS.lookup userRole).getD []
  if allowed ≠ ["*"] ∧ toolName ∉ allowed ∧ isDynamicMcpTool toolName = false then
    .error ⟨.governanceDeniedError,
      "Tool '" ++ toolName ++ "' not permitted for role '" ++ userRole ++ "'."⟩
  else .ok ()

/-- The path step. -/
def assertPathAllowed (fs : FileSystem) (session : SessionModel) (toolName : String) (kwargs : Json) :
    Except PyError Unit := do
  if toolName ∈ ["read_file", "write_file", "create_file", "edit_file"] then
    let filepath ← kwargs.get "filepath"
    let resolved ← resolveWorkspacePath fs filepath session.id session.tenantId
    let tempRoot ← fs.resolve fs.tempDir
    if (pathText tempRoot).toList.isPrefixOf (pathText resolved).toList ∧ toolName ≠ "read_file" then
      throw ⟨.governanceDeniedError, "Writing to system temporary directory is forbidden."⟩
  else if toolName = "bash_execute" then
    let workingDir ← kwargs.getD "working_dir" (.str ".")
    let _ ← resolveWorkspacePath fs workingDir session.id session.tenantId

/-- `PolicyEngine.assert_action_allowed`. -/
def assertActionAllowed (fs : FileSystem) (session : SessionModel) (toolName : String)
    (kwargs : Json) : Except PyError Unit := do
  if session.userRole = "admin" then return ()
  assertApproved session.riskMode toolName kwargs
  assertRoleAllows session.userRole toolName
  assertPathAllowed fs session toolName kwargs

/-- The policy accepts the call. -/
def Allows (fs : FileSystem) (session : SessionModel) (toolName : String) (kwargs : Json) : Prop :=
  assertActionAllowed fs session toolName kwargs = .ok ()

instance (fs : FileSystem) (session : SessionModel) (toolName : String) (kwargs : Json) :
    Decidable (Allows fs session toolName kwargs) :=
  inferInstanceAs (Decidable (_ = _))

/-- What the policy asks of a call with a dictionary, from a role other than admin. -/
theorem allows_obj_iff (fs : FileSystem) {session : SessionModel} (hrole : session.userRole ≠ "admin")
    (toolName : String) (fields : Fields) : Allows fs session toolName (.obj fields) ↔
      (needsApproval session.riskMode toolName = true →
        (Fields.get fields "__approved__").truthy = true) ∧
      assertRoleAllows session.userRole toolName = .ok () ∧
      assertPathAllowed fs session toolName (.obj fields) = .ok () := by
  have happroved : assertApproved session.riskMode toolName (.obj fields) = .ok () ↔
      (needsApproval session.riskMode toolName = true →
        (Fields.get fields "__approved__").truthy = true) := by
    unfold assertApproved
    by_cases hneeds : needsApproval session.riskMode toolName = true
    · by_cases hflag : (Fields.get fields "__approved__").truthy = true
      · simp [hneeds, hflag, bind, Except.bind, pure, Except.pure]
      · simp [hneeds, hflag, bind, Except.bind, throw, throwThe, MonadExceptOf.throw]
    · simp [hneeds, pure, Except.pure]
  rw [← happroved]
  unfold Allows assertActionAllowed
  rw [if_neg hrole]
  cases assertApproved session.riskMode toolName (.obj fields) with
  | error e => simp [bind, Except.bind]
  | ok u =>
    cases assertRoleAllows session.userRole toolName with
    | error e => simp [bind, Except.bind]
    | ok u => simp [bind, Except.bind]

end KernelRuntime.PolicyEngine
