import KernelRuntime.Mcp.Shutdown

/-! # The budget of restarts

`restart_count` of a registered server, beside the operations on the other servers, which share its tables. The
health check looks at the count before it restarts the server; `execute_tool` does not. -/

namespace KernelRuntime.McpRestartBudget
open McpShutdown
open Mcp (ToolManifest)
set_option autoImplicit false

inductive Label where
  | server (label : McpShutdown.Label)
  /-- The operations on the other servers of the manager. -/
  | others (m : Mcp.State)

section Server
variable (tenantId name : String)

def step (s : State) : Label → Option State
  | .server label => McpShutdown.step tenantId name s label
  | .others m => some { s with mcp := m }

/-- `execute_tool` is about to call `_restart_server`, to recover or to repeat a call. -/
def RestartsUnasked (s : State) : Label → Prop
  | .server (.executeTool id) => (s.tasks.lookup id).isNone ∧ s.unregistration ≠ .returned ∧ s.status = .error
  | .server (.answered id .protocolError) => ∃ task ∈ s.tasks.lookup id, ∃ p, task = .calling p false
  | _ => False

def WithinBudget (s : State) : Prop := s.restartCount ≤ maxRestartAttempts

def BudgetOk (s : State) (i : Label) : Prop := RestartsUnasked s i → s.restartCount < maxRestartAttempts

variable {tenantId name} {s s' : State} {id : ℕ}

/-! ## What counts -/

theorem restartCount_restart (s : State) (id : ℕ) (caller : Caller) :
    (restart tenantId name s id caller).restartCount = s.restartCount + 1 := by
  unfold restart
  simp only
  split_ifs
  · rfl
  · rfl

theorem restartCount_resume (s : State) (id : ℕ) (caller : Caller) :
    (resume s id caller).restartCount = s.restartCount := by
  cases caller with
  | recovery =>
    unfold resume
    split_ifs
    · rfl
    · rfl
  | retry => rfl
  | healthCheck => rfl

theorem restartCount_restartFails (s : State) (id : ℕ) (caller : Caller) :
    (restartFails s id caller).restartCount = s.restartCount := restartCount_resume _ id caller

theorem restartCount_toolsListed (s : State) (id : ℕ) (caller : Caller) (tools : List ToolManifest) :
    (toolsListed tenantId name s id caller tools).restartCount = s.restartCount := by
  unfold toolsListed
  simp only
  split_ifs
  · exact restartCount_resume _ id caller
  · exact restartCount_restartFails _ id caller

theorem restartCount_unregisterBegin (s : State) :
    (unregisterBegin tenantId name s).restartCount = s.restartCount := by
  unfold unregisterBegin
  simp only
  split_ifs
  · rfl
  · rfl

/-- The health check counts at most one restart more, and only within the budget. -/
theorem restartCount_checkServer (s : State) (id : ℕ) :
    (checkServer tenantId name s id).restartCount = s.restartCount ∨
      s.restartCount < maxRestartAttempts ∧
        (checkServer tenantId name s id).restartCount = s.restartCount + 1 := by
  unfold checkServer
  split_ifs with hstatus halive hbudget
  · exact Or.inl rfl
  · exact Or.inr ⟨hbudget, restartCount_restart _ id _⟩
  · exact Or.inl rfl
  · exact Or.inl rfl

theorem restartCount_executeTool (s : State) (id : ℕ) :
    (executeTool tenantId name s id).restartCount =
      if s.unregistration ≠ .returned ∧ s.status = .error then s.restartCount + 1 else s.restartCount := by
  unfold executeTool
  by_cases hreturned : s.unregistration = .returned
  · rw [if_pos hreturned, if_neg fun h => h.1 hreturned]
  · rw [if_neg hreturned]
    cases hstatus : s.status with
    | error =>
      rw [if_pos ⟨hreturned, rfl⟩]
      exact restartCount_restart s id _
    | running => exact (if_neg fun h => nomatch h.2).symm
    | stopping => exact (if_neg fun h => nomatch h.2).symm
    | restarting => exact (if_neg fun h => nomatch h.2).symm

theorem restartCount_answered (s : State) (id : ℕ) (again : Bool) (answer : Answer) :
    (answered tenantId name s id again answer).restartCount = s.restartCount ∨
      answer = .protocolError ∧ again = false ∧
        (answered tenantId name s id again answer).restartCount = s.restartCount + 1 := by
  cases answer with
  | result => exact Or.inl rfl
  | otherError => exact Or.inl rfl
  | protocolError =>
    cases again with
    | true => exact Or.inl rfl
    | false => exact Or.inr ⟨rfl, rfl, restartCount_restart s id _⟩

/-- **One step leaves the count, or it restarts the server: unasked in `execute_tool`, or within the budget.** -/
theorem restartCount_step {i : Label} (hstep : step tenantId name s i = some s') :
    s'.restartCount = s.restartCount ∨
      s'.restartCount = s.restartCount + 1 ∧ (RestartsUnasked s i ∨ s.restartCount < maxRestartAttempts) := by
  cases i with
  | others m =>
    obtain rfl := Option.some.inj hstep
    exact Or.inl rfl
  | server label =>
    cases step_cases hstep with
    | executeTool hidle =>
      rw [restartCount_executeTool]
      split_ifs with hrecovers
      · exact Or.inr ⟨rfl, Or.inl ⟨hidle, hrecovers⟩⟩
      · exact Or.inl rfl
    | @answered id p again answer hlookup =>
      rcases restartCount_answered s id again answer with hsame | ⟨rfl, rfl, hmore⟩
      · exact Or.inl hsame
      · exact Or.inr ⟨hmore, Or.inl ⟨_, hlookup, p, rfl⟩⟩
    | @check id _ =>
      rcases @restartCount_checkServer tenantId name { s with swept := false } id with hsame | ⟨hbudget, hmore⟩
      · exact Or.inl hsame
      · exact Or.inr ⟨hmore, Or.inr hbudget⟩
    | toolsListed tools => exact Or.inl (restartCount_toolsListed s _ _ tools)
    | fails => exact Or.inl (restartCount_restartFails s _ _)
    | unregister => exact Or.inl (restartCount_unregisterBegin s)
    | teardown => exact Or.inl rfl
    | spawned => exact Or.inl rfl
    | initialized => exact Or.inl rfl
    | abandoning => exact Or.inl rfl
    | cancel => exact Or.inl rfl
    | sweep => exact Or.inl rfl
    | exits => exact Or.inl rfl
    | unregisterClosed => exact Or.inl rfl

theorem WithinBudget.step {i : Label} (h : WithinBudget s) (hok : BudgetOk s i)
    (hstep : step tenantId name s i = some s') : WithinBudget s' := by
  unfold WithinBudget
  rcases restartCount_step hstep with hsame | ⟨hmore, hunasked | hbudget⟩
  · rw [hsame]
    exact h
  · rw [hmore]
    exact hok hunasked
  · rw [hmore]
    exact hbudget

/-- A restart that nobody has asked the budget for happens all the same. -/
theorem RestartsUnasked.step {i : Label} (h : RestartsUnasked s i) :
    ∃ s', McpRestartBudget.step tenantId name s i = some s' ∧ s'.restartCount = s.restartCount + 1 := by
  cases i with
  | others m => exact h.elim
  | server label =>
    cases label with
    | executeTool id =>
      obtain ⟨hidle, hrecovers⟩ := h
      refine ⟨executeTool tenantId name s id, if_pos hidle, ?_⟩
      rw [restartCount_executeTool, if_pos hrecovers]
    | answered id answer =>
      cases answer with
      | protocolError =>
        obtain ⟨task, hlookup, p, rfl⟩ := h
        refine ⟨restart tenantId name s id .retry, ?_, restartCount_restart s id _⟩
        simp only [McpRestartBudget.step, McpShutdown.step, Option.mem_def.mp hlookup]
        rfl
      | result => exact h.elim
      | otherError => exact h.elim
    | _ => exact h.elim

theorem not_withinBudget_of_unasked {i : Label} (hbad : ¬ BudgetOk s i) :
    ∃ s', step tenantId name s i = some s' ∧ ¬ WithinBudget s' := by
  obtain ⟨hunasked, hspent⟩ := Classical.not_imp.mp hbad
  obtain ⟨s', hstep, hmore⟩ := @RestartsUnasked.step tenantId name s i hunasked
  refine ⟨s', hstep, fun hwithin => hspent ?_⟩
  unfold WithinBudget at hwithin
  rw [hmore] at hwithin
  exact hwithin

end Server

/-- **In a run the count stays within the budget throughout exactly when `execute_tool` begins each of its
restarts below the budget.** -/
theorem withinBudget_iff_guarded (tenantId name : String) (m : Mcp.State) (tools : List ToolManifest)
    (is : List Label) :
    (∀ js ks s, is = js ++ ks → exec (step tenantId name) (registered tenantId name m tools) js = some s →
        WithinBudget s) ↔
      Guarded (step tenantId name) BudgetOk (registered tenantId name m tools) is :=
  @always_iff_guarded _ _ _ _ (fun _ => True) _ (fun _ _ _ _ _ => trivial)
    (fun _ _ _ _ h hok hstep => h.step hok hstep) (fun _ _ _ _ hbad => not_withinBudget_of_unasked hbad)
    _ trivial (Nat.zero_le _) is

/-- The process of a call is killed six times, and every call is repeated on a new process. -/
def restartRound (n : ℕ) : List Label :=
  [.server (.executeTool 1), .server (.exits n), .server (.answered 1 .protocolError), .server (.spawned 1),
   .server (.initialized 1), .server (.toolsListed 1 []), .server (.answered 1 .result)]

def sixRounds : List Label := (List.range 6).flatMap restartRound

theorem restartCount_sixRounds :
    (exec (step "local" "files") (registered "local" "files" Mcp.State.init []) sixRounds).map State.restartCount =
      some 6 := by decide +kernel

theorem budget_exceeded : ¬ ∀ (tenantId name : String) (m : Mcp.State) (tools : List ToolManifest)
    (is : List Label) (s : State), exec (step tenantId name) (registered tenantId name m tools) is = some s →
      WithinBudget s := by
  intro h
  obtain ⟨s, hrun, hcount⟩ := Option.map_eq_some_iff.mp restartCount_sixRounds
  have hwithin := h "local" "files" Mcp.State.init [] sixRounds s hrun
  unfold WithinBudget at hwithin
  rw [hcount] at hwithin
  exact absurd hwithin (by decide)

end KernelRuntime.McpRestartBudget
