import KernelRuntime.AgentLoop.ResponseParser
import KernelRuntime.Api.Approval
import KernelRuntime.Governance.PathAgreement
import KernelRuntime.Mcp.Manager

/-! # The arguments of an MCP tool

The arguments of a call are parsed by the brain, stored and changed by the approval endpoint, changed
by the tool worker and the router, and unpacked next to the parameters of `execute`. `Untouched` says
for which calls all of this leaves them as the model wrote them. -/

namespace KernelRuntime.McpArguments
set_option autoImplicit false

open AgentLoop ToolExecution PathAgreement Mcp

/-! ## The tools -/

/-- A tool whose `execute(self, session_id, **kwargs)` hands `kwargs` to a server. -/
def proxyTool (modulePath className name : String) (serve : Fields → Except PyError Json) : BaseTool where
  name := name
  requiresSandbox := false
  execute _ kwargs :=
    match bindArguments modulePath className [] kwargs with
    | .error e => .raised e
    | .ok () => ⟨none, serve kwargs⟩

/-- `callTool` is `stdio_mcp_manager.execute_tool` for the tool of the server. -/
def StdioMCPToolAdapter (serverName toolName : String) (callTool : Fields → Except PyError Json) :
    BaseTool :=
  proxyTool "src.tools.stdio_adapter" "StdioMCPToolAdapter" (adapterName serverName toolName) callTool

/-- `post` is the body of `execute`, from the circuit breaker on. -/
def MCPProxyTool (name : String) (post : Fields → Except PyError Json) : BaseTool :=
  proxyTool "src.services.mcp.mcp_proxy" "MCPProxyTool" name post

/-- The class behind an instance of the registry, when a tenant registered it. -/
def mcpTool (tool : ToolInstance) : Option ((Fields → Except PyError Json) → BaseTool) :=
  match tool.provider with
  | .builtin => none
  | .plugin _ _ => some (MCPProxyTool tool.name)
  | .stdio _ serverName toolName => some (StdioMCPToolAdapter serverName toolName)

def routedName (tool : ToolInstance) : String :=
  match tool.provider with
  | .stdio _ serverName toolName => adapterName serverName toolName
  | _ => tool.name

theorem mcpTool_eq {tool : ToolInstance} (hmcp : tool.provider ≠ .builtin) :
    ∃ modulePath className, mcpTool tool = some (proxyTool modulePath className (routedName tool)) := by
  unfold mcpTool routedName
  cases hprovider : tool.provider with
  | builtin => exact absurd hprovider hmcp
  | plugin tenantId endpointUrl => exact ⟨_, _, rfl⟩
  | stdio tenantId serverName toolName => exact ⟨_, _, rfl⟩

/-! ## The way of a call -/

/-- The entry of a batch that `process_response` makes of a call of the model. -/
def Dispatched (env : Env) (call : ToolCall) (spec : ToolSpec) : Prop :=
  ∃ calls batch, payloadOf env calls = .ok batch ∧ ∃ i : ℕ, calls[i]? = some call ∧ batch[i]? = some spec

/-- What the tool worker receives for the call: the entry of the batch, or, once the worker has stored
the call for approval, the entry that the approval endpoint publishes. -/
inductive Received (env : Env) (call : ToolCall) : Bool → ToolSpec → Prop
  | direct {spec : ToolSpec} (hdispatched : Dispatched env call spec) : Received env call false spec
  | approved {spec sent : ToolSpec} {refused event : ToolEvent} {govErr : PyError}
      {req : Approval.ApprovalRequest} {message : MessageModel} {m metadata : ApprovalMetadata}
      (hdispatched : Dispatched env call spec)
      (hrow : message.extraMetadata = (refusalTurn refused spec govErr).metadata)
      (hpending : req.pending message = some m)
      (hdecide : Approval.decideCall req message m = .ok ⟨metadata, some event⟩)
      (hsent : sent ∈ event.tools) : Received env call true sent

/-- Whatever the server answers to `args` is the result of the execution: they reach the server. -/
def Reaches (env : Env) (m : Machine) (disk : Disk) (execution : Execution) (args : Fields) : Prop :=
  ∃ tool t, env.getToolInstance execution.toolName = some tool ∧ mcpTool tool = some t ∧
    ∀ serve, ToolExecution.executeTool m disk (t serve) execution.sessionId execution.kwargs
      execution.tenantId = ⟨none, serve args⟩

def SameItems (a b : Fields) : Prop := ∀ key, a.lookup key = b.lookup key

/-- The server is reached, with the arguments of the model. -/
def Intact (env : Env) (m : Machine) (disk : Disk) (execution : Execution) (fields : Fields) : Prop :=
  ∃ args, Reaches env m disk execution args ∧ SameItems args fields

/-- Keys that a layer takes out, or that are parameters of `execute`. -/
def RESERVED : List String := ["dry_run", "folder_slug", "session_id", "self"]

/-- No layer changes these arguments. -/
structure Untouched (approved : Bool) (session : SessionModel) (tool : ToolInstance) (fields : Fields) :
    Prop where
  approval : approved = true → fields.lookup "__approved__" = some (.bool true)
  reserved : ∀ key ∈ RESERVED, fields.lookup key = none
  workspace : activeFolder session = "" ∨ (fields.lookup "working_dir").isSome = true
  /-- The router takes the tool of this name for the shell. -/
  ownRoute : routedName tool ≠ "bash_execute"

/-! ## The router -/

/-- The keyword arguments that the router gives to a tool without a sandbox. -/
def routed (kwargs : Fields) : Fields :=
  let slug := folderSlug kwargs
  let rest := assocErase "folder_slug" kwargs
  if slug.truthy ∧ (rest.lookup "working_dir").isNone then assocSet "working_dir" slug rest else rest

theorem executeTool_routed (m : Machine) (disk : Disk) {tool : BaseTool} (sessionId : String)
    (kwargs : Fields) (tenantId : String) (hsandbox : tool.requiresSandbox = false)
    (hname : tool.name ≠ "bash_execute") :
    ToolExecution.executeTool m disk tool sessionId kwargs tenantId =
      tool.execute sessionId (routed kwargs) := by
  unfold ToolExecution.executeTool routed
  simp only [hsandbox, hname, Bool.false_eq_true, or_self, if_false]
  split_ifs <;> rfl

/-- A plugin with the name of the shell tool is never asked. -/
theorem executeTool_shell (m : Machine) (disk : Disk) (tool tool' : BaseTool) (sessionId : String)
    (kwargs : Fields) (tenantId : String) (hname : tool.name = "bash_execute")
    (hname' : tool'.name = "bash_execute") :
    ToolExecution.executeTool m disk tool sessionId kwargs tenantId =
      ToolExecution.executeTool m disk tool' sessionId kwargs tenantId := by
  unfold ToolExecution.executeTool
  rw [if_pos (Or.inr hname), if_pos (Or.inr hname')]
  unfold executeSandboxed
  rw [if_pos hname, if_pos hname', hname, hname']

/-- The echo server tells which arguments reached it. -/
theorem served_iff (m : Machine) (disk : Disk) (modulePath className name : String)
    (execution : Execution) (args : Fields) :
    (∀ serve, ToolExecution.executeTool m disk (proxyTool modulePath className name serve)
      execution.sessionId execution.kwargs execution.tenantId = ⟨none, serve args⟩) ↔
    name ≠ "bash_execute" ∧ args = routed execution.kwargs ∧
      args.lookup "session_id" = none ∧ args.lookup "self" = none := by
  let echo (kwargs : Fields) : Except PyError Json := .ok (.obj kwargs)
  constructor
  · intro h
    have hname : name ≠ "bash_execute" := by
      intro hname
      have hnull := h fun _ => .ok .null
      rw [executeTool_shell m disk _ (proxyTool modulePath className name echo) _ _ _ hname hname,
        h echo] at hnull
      injection hnull with _ hresult
      exact nomatch hresult
    have hecho := h echo
    rw [executeTool_routed m disk _ _ _ rfl hname] at hecho
    unfold proxyTool at hecho
    simp only at hecho
    cases hbind : bindArguments modulePath className [] (routed execution.kwargs) with
    | error e =>
      rw [hbind] at hecho
      injection hecho with _ hresult
      exact nomatch hresult
    | ok u =>
      rw [hbind] at hecho
      injection hecho with _ hresult
      injection hresult with hresult
      injection hresult with hargs
      rw [← hargs]
      obtain ⟨hsession, hself, _⟩ := (bindArguments_ok_iff modulePath className [] _).mp hbind
      exact ⟨hname, rfl, hsession, hself⟩
  · rintro ⟨hname, rfl, hsession, hself⟩ serve
    rw [executeTool_routed m disk _ _ _ rfl hname]
    unfold proxyTool
    simp only
    rw [(bindArguments_ok_iff modulePath className [] _).mpr ⟨hsession, hself, by simp⟩]

theorem folderSlug_assocSet (slug : String) (fields : Fields) :
    folderSlug (assocSet "folder_slug" (.str slug) fields) = .str slug := by
  apply folderSlug_of_str
  unfold Fields.get
  rw [lookup_assocSet, if_pos rfl]
  rfl

/-- What the tool gets for a key, when the worker puts the mounted folder next to the arguments. -/
theorem lookup_routed (slug : String) (fields : Fields) (key : String) :
    (routed (assocSet "folder_slug" (.str slug) fields)).lookup key =
      if key = "folder_slug" then none
      else if key = "working_dir" ∧ slug ≠ "" ∧ fields.lookup "working_dir" = none then some (.str slug)
      else fields.lookup key := by
  have hrest : ∀ k, (assocErase "folder_slug" (assocSet "folder_slug" (.str slug) fields)).lookup k =
      if k = "folder_slug" then none else fields.lookup k := by
    intro k
    rw [lookup_assocErase, lookup_assocSet]
    split_ifs <;> rfl
  unfold routed
  simp only [folderSlug_assocSet, Json.truthy_str, hrest, Option.isNone_iff_eq_none, String.reduceEq, if_false]
  by_cases hadds : slug ≠ "" ∧ fields.lookup "working_dir" = none
  · rw [if_pos hadds, lookup_assocSet, hrest]
    by_cases hkey : key = "working_dir"
    · subst hkey
      simp [hadds]
    · simp [hkey]
  · have hkeep : ¬ (key = "working_dir" ∧ slug ≠ "" ∧ fields.lookup "working_dir" = none) :=
      fun h => hadds h.2
    rw [if_neg hadds, hrest, if_neg hkeep]

/-! ## The worker and the approval endpoint -/

theorem executionOf_of_mem {env : Env} {event : ToolEvent} {session : SessionModel} {spec : ToolSpec}
    {execution : Execution} (h : execution ∈ callExecutions env event session spec) :
    ∃ fields, spec.args = .obj fields ∧
      execution = executionOf event session spec (assocErase "dry_run" fields) := by
  unfold callExecutions classify at h
  cases hgov : PolicyEngine.assertActionAllowed env.fs session spec.name spec.args with
  | error govErr => simp [hgov, CallResult.executions] at h
  | ok u =>
    by_cases htool : env.getToolInstance spec.name = none
    · simp [hgov, htool, CallResult.executions] at h
    · cases hargs : spec.args with
      | obj fields =>
        rw [hargs] at hgov
        simp only [hgov, htool, hargs, if_false] at h
        split_ifs at h
        · simp [CallResult.executions] at h
        · exact ⟨fields, rfl, List.mem_singleton.mp h⟩
      | _ =>
        rw [hargs] at hgov
        simp [hgov, htool, hargs, Json.pop, Except.map] at h

theorem Dispatched.spec {env : Env} {call : ToolCall} {spec : ToolSpec} (h : Dispatched env call spec) :
    spec.name = call.name ∧ parseArguments env call.arguments = .ok spec.args := by
  obtain ⟨calls, batch, hpayload, i, hcall, hspec⟩ := h
  obtain ⟨hi, rfl⟩ := List.getElem?_eq_some_iff.mp hcall
  obtain ⟨hi', rfl⟩ := List.getElem?_eq_some_iff.mp hspec
  obtain ⟨-, hname, hargs⟩ := (payloadOf_eq_ok hpayload).get hi hi'
  exact ⟨hname, hargs⟩

/-- The entry has the name of the call, and its arguments, with the flag once they are approved. -/
theorem Received.spec {env : Env} {call : ToolCall} {approved : Bool} {sent : ToolSpec} {fields : Fields}
    (h : Received env call approved sent) (hargs : parseArguments env call.arguments = .ok (.obj fields)) :
    sent.name = call.name ∧ sent.args =
      .obj (if approved then assocSet "__approved__" (.bool true) fields else fields) := by
  cases h with
  | direct hdispatched =>
    obtain ⟨hname, hspec⟩ := hdispatched.spec
    exact ⟨hname, Except.ok.inj (hspec.symm.trans hargs)⟩
  | @approved spec _ refused event govErr req message m metadata hdispatched hrow hpending hdecide hsent =>
    obtain ⟨hname, hspec⟩ := hdispatched.spec
    have hspec : spec.args = .obj fields := Except.ok.inj (hspec.symm.trans hargs)
    -- the row holds the call as the worker refused it
    have hm : m.toolName = spec.name ∧ m.args = spec.args := by
      unfold Approval.ApprovalRequest.pending at hpending
      split_ifs at hpending
      rw [hrow] at hpending
      unfold refusalTurn at hpending
      split_ifs at hpending
      · simp only [toolTurn, Option.filter_some, decide_true, if_true, Option.some.injEq] at hpending
        rw [← hpending]
        exact ⟨rfl, rfl⟩
      · simp [toolTurn] at hpending
    unfold Approval.decideCall at hdecide
    by_cases hdecision : req.decision = "denied"
    · simp [hdecision] at hdecide
    · rw [if_neg hdecision, hm.2, hspec] at hdecide
      simp only [Approval.setItem, bind, Except.bind, pure, Except.pure, Except.ok.injEq,
        Approval.Outcome.mk.injEq, Option.some.injEq] at hdecide
      rw [← hdecide.2] at hsent
      obtain rfl := List.mem_singleton.mp hsent
      exact ⟨hm.1.trans hname, rfl⟩

/-! ## Which calls arrive as the model wrote them -/

section Arrival
variable {env : Env} {m : Machine} {disk : Disk} {event : ToolEvent} {session : SessionModel}
  {call : ToolCall} {sent : ToolSpec} {approved : Bool} {fields : Fields} {execution : Execution}

theorem lookup_arrived (hreceived : Received env call approved sent)
    (hargs : parseArguments env call.arguments = .ok (.obj fields))
    (hexecuted : execution ∈ callExecutions env event session sent) (key : String) :
    (routed execution.kwargs).lookup key =
      if key = "folder_slug" ∨ key = "dry_run" then none
      else if key = "working_dir" ∧ activeFolder session ≠ "" ∧ fields.lookup "working_dir" = none then
        some (.str (activeFolder session))
      else if key = "__approved__" ∧ approved = true then some (.bool true)
      else fields.lookup key := by
  obtain ⟨sentFields, hsent, rfl⟩ := executionOf_of_mem hexecuted
  rw [(hreceived.spec hargs).2, Json.obj.injEq] at hsent
  rw [← hsent]
  have hflag : ∀ k, (if approved then assocSet "__approved__" (.bool true) fields else fields).lookup k =
      if k = "__approved__" ∧ approved = true then some (.bool true) else fields.lookup k := by
    intro k
    cases approved
    · simp
    · simp [lookup_assocSet]
  unfold executionOf
  simp only [lookup_routed, lookup_assocErase, hflag, String.reduceEq, false_and, if_false]
  by_cases hslug : key = "folder_slug"
  · simp [hslug]
  · by_cases hdry : key = "dry_run"
    · simp [hdry]
    · simp [hslug, hdry]

theorem reaches_iff {tool : ToolInstance} (htool : env.getToolInstance call.name = some tool)
    (hmcp : tool.provider ≠ .builtin) (hname : execution.toolName = call.name) (args : Fields) :
    Reaches env m disk execution args ↔ routedName tool ≠ "bash_execute" ∧
      args = routed execution.kwargs ∧ args.lookup "session_id" = none ∧ args.lookup "self" = none := by
  obtain ⟨modulePath, className, hproxy⟩ := mcpTool_eq hmcp
  rw [← served_iff m disk modulePath className (routedName tool) execution args]
  unfold Reaches
  rw [hname]
  constructor
  · rintro ⟨tool', t, htool', ht, hserved⟩
    obtain rfl := Option.some.inj (htool.symm.trans htool')
    obtain rfl := Option.some.inj (hproxy.symm.trans ht)
    exact hserved
  · intro hserved
    exact ⟨tool, _, htool, hproxy, hserved⟩

/-- **The arguments of an executed call arrive as the model wrote them, exactly when no layer touches
them.** -/
theorem intact_iff_untouched {k : ℕ} {w : World} {tool : ToolInstance}
    (hreceived : Received env call approved sent)
    (hargs : parseArguments env call.arguments = .ok (.obj fields))
    (htool : env.getToolInstance call.name = some tool) (hmcp : tool.provider ≠ .builtin)
    (hexecuted : (finalState (processTool env event session k sent) w).executed =
      w.executed ++ [execution]) :
    Intact env m disk execution fields ↔ Untouched approved session tool fields := by
  rw [executed_processTool] at hexecuted
  have hmem : execution ∈ callExecutions env event session sent := by
    rw [List.append_cancel_left hexecuted]
    exact List.mem_singleton_self _
  have hlookup := lookup_arrived hreceived hargs hmem
  have hname : execution.toolName = call.name := by
    obtain ⟨sentFields, -, rfl⟩ := executionOf_of_mem hmem
    exact (hreceived.spec hargs).1
  constructor
  · rintro ⟨args, hreaches, hsame⟩
    obtain ⟨hroute, rfl, hsession, hself⟩ := (reaches_iff htool hmcp hname args).mp hreaches
    refine ⟨fun happroved => ?_, ?_, ?_, hroute⟩
    · rw [← hsame, hlookup]
      simp [happroved]
    · simp only [RESERVED, List.forall_mem_cons, List.not_mem_nil, false_implies, implies_true, and_true]
      refine ⟨?_, ?_, (hsame _).symm.trans hsession, (hsame _).symm.trans hself⟩
      · rw [← hsame, hlookup]
        simp
      · rw [← hsame, hlookup]
        simp
    · by_contra hadds
      rw [not_or] at hadds
      have hnone : fields.lookup "working_dir" = none := Option.not_isSome_iff_eq_none.mp hadds.2
      have hdir := (hlookup "working_dir").symm.trans ((hsame _).trans hnone)
      simp [hadds.1, hnone] at hdir
  · intro h
    have hreserved : ∀ key ∈ RESERVED, (routed execution.kwargs).lookup key = none := by
      intro key hkey
      have hfree := h.reserved key hkey
      rw [hlookup]
      simp only [RESERVED, List.mem_cons, List.not_mem_nil, or_false] at hkey
      rcases hkey with rfl | rfl | rfl | rfl <;> simp [hfree]
    refine ⟨routed execution.kwargs, (reaches_iff htool hmcp hname _).mpr
      ⟨h.ownRoute, rfl, hreserved _ (by decide), hreserved _ (by decide)⟩, fun key => ?_⟩
    by_cases hkey : key ∈ RESERVED
    · rw [hreserved key hkey, h.reserved key hkey]
    · rw [hlookup]
      have hslug : ¬ (key = "folder_slug" ∨ key = "dry_run") := by
        rintro (rfl | rfl) <;> exact hkey (by decide)
      have hdir : ¬ (key = "working_dir" ∧ activeFolder session ≠ "" ∧ fields.lookup "working_dir" = none) := by
        rintro ⟨-, hslug, hnone⟩
        rcases h.workspace with hfolder | hfolder
        · exact hslug hfolder
        · simp [hnone] at hfolder
      rw [if_neg hslug, if_neg hdir]
      split_ifs with happroved
      · rw [happroved.1, h.approval happroved.2]
      · rfl

end Arrival

/-! ## Listing a directory -/

/-- The local deployment with a server `files`, whose tool `list` takes a path. -/
def filesEnv : Env :=
  { localEnv with getToolInstance := fun name =>
      if name = "mcp_files_list" then some ⟨name, .stdio "acme" "files" "list"⟩ else none }

def listCall : ToolCall := ⟨some "call_1", some "function", "mcp_files_list", "\x7b\"path\": \".\"\x7d"⟩

def listFields : Fields := [("path", .str ".")]

def listSpec : ToolSpec := ⟨some "call_1", "mcp_files_list", .obj listFields⟩

def listEvent : ToolEvent := ⟨.executeToolBatch, some "t1", "s1", [listSpec], some "acme"⟩

def mountedSession (folders : List String) : SessionModel := ⟨"s1", "acme", "developer", [], "auto", folders⟩

def listExecution (folder : String) : Execution :=
  ⟨"s1", "mcp_files_list", [("path", .str "."), ("folder_slug", .str folder)], some "call_1", "acme"⟩

theorem listSpec_received : Received filesEnv listCall false listSpec :=
  .direct ⟨[listCall], [listSpec], by decide +kernel, 0, rfl, rfl⟩

theorem listSpec_executed (w : World) (folders : List String)
    (hcall : callExecutions filesEnv listEvent (mountedSession folders) listSpec =
      [listExecution (folders.head?.getD "")]) :
    (finalState (processTool filesEnv listEvent (mountedSession folders) 0 listSpec) w).executed =
      w.executed ++ [listExecution (folders.head?.getD "")] := by
  rw [executed_processTool, hcall]

/-- Without a mounted folder the server gets the path, and nothing else. -/
theorem unmounted_intact :
    Intact filesEnv localMachine emptyDisk (listExecution "") listFields :=
  (@intact_iff_untouched filesEnv localMachine emptyDisk listEvent (mountedSession []) listCall listSpec
    false listFields (listExecution "") 0 (World.start []) _ listSpec_received (by decide +kernel)
    (show filesEnv.getToolInstance listCall.name = some ⟨"mcp_files_list", .stdio "acme" "files" "list"⟩
      by decide) (by decide)
    (listSpec_executed _ [] (by decide +kernel))).mpr
    ⟨by rintro ⟨⟩, by decide, Or.inl (by decide), by decide⟩

/-- With one, the server also gets a `working_dir`. -/
theorem mounted_folder_added : ¬ ∀ (env : Env) (m : Machine) (disk : Disk) (event : ToolEvent)
    (session : SessionModel) (call : ToolCall) (sent : ToolSpec) (approved : Bool) (fields : Fields)
    (execution : Execution) (k : ℕ) (w : World) (tool : ToolInstance),
    Received env call approved sent → parseArguments env call.arguments = .ok (.obj fields) →
    env.getToolInstance call.name = some tool → tool.provider ≠ .builtin →
    (finalState (processTool env event session k sent) w).executed = w.executed ++ [execution] →
    Intact env m disk execution fields := by
  intro h
  have hexecuted := listSpec_executed (World.start []) ["repo"] (by decide +kernel)
  obtain ⟨args, hreaches, hsame⟩ := h filesEnv localMachine emptyDisk listEvent (mountedSession ["repo"])
    listCall listSpec false listFields _ 0 (World.start []) ⟨"mcp_files_list", .stdio "acme" "files" "list"⟩
    listSpec_received (by decide +kernel) (by decide) (by decide) hexecuted
  obtain ⟨-, rfl, -⟩ := (reaches_iff (show filesEnv.getToolInstance listCall.name =
    some ⟨"mcp_files_list", .stdio "acme" "files" "list"⟩ by decide) (by decide) (by rfl) args).mp hreaches
  have hadded : (routed (listExecution "repo").kwargs).lookup "working_dir" = some (.str "repo") := by
    decide +kernel
  have hmodel : listFields.lookup "working_dir" = none := by decide
  exact nomatch hadded.symm.trans ((hsame "working_dir").trans hmodel)

end KernelRuntime.McpArguments
