import KernelRuntime.Governance.PolicyEngine

/-! # The tool lists of a tenant

The policy is to hold per tenant: its configuration may deny tools, or allow only some. `get_allowed_tools`
lists the tools of a role accordingly. `assert_action_allowed` takes the same configuration and does not
look at it. -/

namespace KernelRuntime.TenantPolicy
set_option autoImplicit false
open PolicyEngine

/-- The keys of `tenant_config` that concern tools; each may be missing. -/
structure TenantConfig where
  denyTools : Option (List String)
  allowTools : Option (List String)
deriving DecidableEq

/-- `ROLE_PERMISSIONS.get(role, [])`. -/
def rolePermissions (role : String) : List String := (ROLE_PERMISSIONS.lookup role).getD []

/-- `PolicyEngine.get_allowed_tools`. -/
def getAllowedTools (role : String) (tenantConfig : Option TenantConfig) : List String :=
  let tools := rolePermissions role
  match tenantConfig with
  | none => tools
  | some config =>
    let deny := config.denyTools.getD []
    let allow := config.allowTools.getD []
    let tools := if allow = [] then tools else tools.filter fun t => decide (t ∈ allow)
    tools.filter fun t => decide (t ∉ deny)

/-- `PolicyEngine.assert_action_allowed` with all its arguments. Nothing in its body reads the last one. -/
def assertActionAllowed (fs : FileSystem) (session : SessionModel) (toolName : String) (kwargs : Json)
    (_tenantConfig : Option TenantConfig) : Except PyError Unit :=
  PolicyEngine.assertActionAllowed fs session toolName kwargs

/-! ## What the lists say -/

/-- The tenant does not deny the tool, and allows it if it allows only some. -/
def ListsPermit (tenantConfig : Option TenantConfig) (toolName : String) : Prop :=
  ∀ config ∈ tenantConfig, toolName ∉ config.denyTools.getD [] ∧
    (config.allowTools.getD [] = [] ∨ toolName ∈ config.allowTools.getD [])

theorem mem_getAllowedTools (role : String) (tenantConfig : Option TenantConfig) (toolName : String) :
    toolName ∈ getAllowedTools role tenantConfig ↔
      toolName ∈ rolePermissions role ∧ ListsPermit tenantConfig toolName := by
  unfold getAllowedTools ListsPermit
  cases tenantConfig with
  | none => simp
  | some config =>
    simp only [List.mem_filter, decide_eq_true_eq, Option.mem_some_iff, forall_eq']
    split_ifs with hallow
    · simp only [hallow, true_or, and_true]
    · simp only [List.mem_filter, decide_eq_true_eq, hallow, false_or]
      constructor
      · exact fun h => ⟨h.1.1, h.2, h.1.2⟩
      · exact fun h => ⟨⟨h.1, h.2.2⟩, h.2.1⟩

/-! ## What the enforcement asks -/

/-- The call has the approval that it needs, its tool is one of the role's, and its paths are in the
workspace. -/
structure RolePermits (fs : FileSystem) (session : SessionModel) (toolName : String) (fields : Fields) :
    Prop where
  approved : needsApproval session.riskMode toolName = true → (Fields.get fields "__approved__").truthy = true
  tool : toolName ∈ rolePermissions session.userRole
  path : assertPathAllowed fs session toolName (.obj fields) = .ok ()

/-- Only an admin has the wildcard. -/
theorem rolePermissions_ne_wildcard {role : String} (hrole : role ≠ "admin") : rolePermissions role ≠ ["*"] := by
  unfold rolePermissions ROLE_PERMISSIONS
  rw [lookup_entry, beq_eq_false_iff_ne.mpr hrole]
  by_cases hdeveloper : role = "developer"
  · rw [hdeveloper]
    decide
  · by_cases hviewer : role = "viewer"
    · rw [hviewer]
      decide
    · simp [lookup_entry, beq_eq_false_iff_ne.mpr hdeveloper, beq_eq_false_iff_ne.mpr hviewer]

theorem assertRoleAllows_iff {role toolName : String} (hrole : role ≠ "admin")
    (hstatic : isDynamicMcpTool toolName = false) :
    assertRoleAllows role toolName = .ok () ↔ toolName ∈ rolePermissions role := by
  have hwildcard := rolePermissions_ne_wildcard hrole
  unfold rolePermissions at hwildcard ⊢
  unfold assertRoleAllows
  simp only [hwildcard, hstatic, not_false_eq_true, ne_eq, true_and, and_true]
  split_ifs with hmem
  · simp [hmem]
  · simpa using hmem

theorem assertActionAllowed_iff (fs : FileSystem) {session : SessionModel} (hrole : session.userRole ≠ "admin")
    {toolName : String} (hstatic : isDynamicMcpTool toolName = false) (fields : Fields)
    (tenantConfig : Option TenantConfig) :
    assertActionAllowed fs session toolName (.obj fields) tenantConfig = .ok () ↔
      RolePermits fs session toolName fields := by
  have hallows := allows_obj_iff fs hrole toolName fields
  rw [assertRoleAllows_iff hrole hstatic] at hallows
  unfold Allows at hallows
  unfold assertActionAllowed
  rw [hallows]
  constructor
  · exact fun h => ⟨h.1, h.2.1, h.2.2⟩
  · exact fun h => ⟨h.approved, h.tool, h.path⟩

/-- The enforcement agrees with the listing for a tool: whatever call of it passes, with a session of the
role, the tool is listed. -/
def EnforcedListed (role : String) (tenantConfig : Option TenantConfig) (toolName : String) : Prop :=
  ∀ (fs : FileSystem) (session : SessionModel) (fields : Fields), session.userRole = role →
    assertActionAllowed fs session toolName (.obj fields) tenantConfig = .ok () →
      toolName ∈ getAllowedTools role tenantConfig

/-- A session and arguments that every tool of the role passes with. -/
theorem exists_allowed {role toolName : String} (htool : toolName ∈ rolePermissions role) (hrole : role ≠ "admin") :
    ∃ fs session fields, session.userRole = role ∧ PolicyEngine.Allows fs session toolName (.obj fields) := by
  refine ⟨plainFileSystem "/srv/workspace" "/tmp", ⟨"s1", "acme", role, [], "auto", []⟩,
    [("filepath", .str "notes.txt")], rfl, ?_⟩
  unfold rolePermissions ROLE_PERMISSIONS at htool
  rw [lookup_entry, beq_eq_false_iff_ne.mpr hrole] at htool
  by_cases hdeveloper : role = "developer"
  · subst hdeveloper
    revert toolName
    decide +kernel
  · by_cases hviewer : role = "viewer"
    · subst hviewer
      revert toolName
      decide +kernel
    · simp [lookup_entry, beq_eq_false_iff_ne.mpr hdeveloper, beq_eq_false_iff_ne.mpr hviewer] at htool

/-- **Whatever passes is listed, exactly for the tools that the role lacks or the lists of the tenant
permit.** -/
theorem enforcedListed_iff (role : String) (hrole : role ≠ "admin") (tenantConfig : Option TenantConfig)
    (toolName : String) (hstatic : isDynamicMcpTool toolName = false) :
    EnforcedListed role tenantConfig toolName ↔
      (toolName ∉ rolePermissions role ∨ ListsPermit tenantConfig toolName) := by
  constructor
  · intro h
    by_cases htool : toolName ∈ rolePermissions role
    · obtain ⟨fs, session, fields, hsession, hallowed⟩ := exists_allowed htool hrole
      exact Or.inr ((mem_getAllowedTools role tenantConfig toolName).mp (h fs session fields hsession hallowed)).2
    · exact Or.inl htool
  · rintro hcondition fs session fields hsession hpasses
    have hpermits := (assertActionAllowed_iff fs (hsession ▸ hrole) hstatic fields tenantConfig).mp hpasses
    have htool : toolName ∈ rolePermissions role := hsession ▸ hpermits.tool
    exact (mem_getAllowedTools role tenantConfig toolName).mpr ⟨htool, hcondition.resolve_left (not_not_intro htool)⟩

/-- A tenant that allows reading and searching only: searching agrees. -/
theorem enforcedListed_search : EnforcedListed "developer" (some ⟨none, some ["read_file", "web_search"]⟩) "web_search" :=
  (enforcedListed_iff "developer" (by decide) _ "web_search" (by decide)).mpr
    (Or.inr (by unfold ListsPermit; decide))

/-- A tenant denies the shell, and a developer's call of it passes. -/
theorem denied_shell_passes : ¬ ∀ role tenantConfig toolName, role ≠ "admin" → isDynamicMcpTool toolName = false →
    EnforcedListed role tenantConfig toolName := by
  intro h
  have hlisted := h "developer" (some ⟨some ["bash_execute"], none⟩) "bash_execute" (by decide) (by decide)
    (plainFileSystem "/srv/workspace" "/tmp") ⟨"s1", "acme", "developer", [], "auto", []⟩
    [("command", .str "ls")] rfl (by decide +kernel)
  exact absurd hlisted (by decide)

end KernelRuntime.TenantPolicy
