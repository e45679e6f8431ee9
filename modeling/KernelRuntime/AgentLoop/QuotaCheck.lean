import KernelRuntime.AgentLoop.BrainEffects
import KernelRuntime.Billing.UsageTracker
import KernelRuntime.Tools.DelegationBound

/-! # The quota and the calls of the provider

Two pieces of code call a provider for a tenant. The brain asks for the quota first; the sub-agent of a
delegated task does not. -/

namespace KernelRuntime.AgentLoop
set_option autoImplicit false

/-! ## Steps without a model call -/

/-- No model call is made. -/
def Silent (w w' : World) : Prop := w'.llmCalls = w.llmCalls

theorem Silent.refl (w : World) : Silent w w := rfl

theorem Silent.trans (a b c : World) (hab : Silent a b) (hbc : Silent b c) : Silent a c := Eq.trans hbc hab

section Silence
variable (env : Env) (target : Target)

theorem silent_bind {α β : Type} {m : Handler α} {f : α → Handler β} (hm : Preserves Silent m)
    (hf : ∀ a, Preserves Silent (f a)) : Preserves Silent (m >>= f) := hm.bind Silent.trans hf

theorem silent_pure {α : Type} (a : α) : Preserves Silent (pure a : Handler α) := Preserves.pure Silent.refl a

theorem silent_query : Preserves Silent (query env) := by
  intro w
  unfold finalState query
  simp only
  split_ifs <;> rfl

theorem silent_write {change : World → World} (hchange : ∀ w, Silent w (change w)) :
    Preserves Silent (write env change) := by
  intro w
  unfold finalState write
  simp only
  split_ifs
  · rfl
  · exact hchange { w with dbOps := w.dbOps + 1 }

theorem silent_persistMessage (sessionId : String) (turn : Turn) :
    Preserves Silent (persistMessage env sessionId turn) := by
  unfold persistMessage
  refine silent_bind (silent_query env) fun _ => silent_bind (silent_query env) fun _ => ?_
  exact silent_write env fun _ => rfl

theorem silent_commit : Preserves Silent (commit env) := silent_write env fun _ => rfl

theorem silent_publishLog (taskId : Option String) (e : LogEvent) : Preserves Silent (publishLog taskId e) :=
  fun _ => rfl

theorem silent_endTask (turn : Turn) : Preserves Silent (endTask env target turn) := by
  unfold endTask
  refine silent_bind (silent_persistMessage env _ _) fun _ => ?_
  exact silent_bind (silent_publishLog _ _) fun _ => silent_commit env

theorem silent_queryIf (condition : Bool) : Preserves Silent (queryIf env condition) := by
  cases condition with
  | false => exact silent_pure ()
  | true => exact silent_query env

theorem silent_countIteration : Preserves Silent (countIteration env target) := by
  unfold countIteration
  refine silent_bind (silent_query env) fun _ => silent_bind (fun _ => rfl) fun w => ?_
  cases findTask w.db target with
  | none => exact silent_pure true
  | some task =>
    refine silent_bind (fun _ => rfl) fun _ => ?_
    split_ifs
    · refine silent_bind ?_ fun _ => silent_pure false
      unfold stopIterating
      refine silent_bind (silent_persistMessage env _ _) fun _ => silent_bind (silent_publishLog _ _) fun _ => ?_
      exact silent_bind (silent_publishLog _ _) fun _ => silent_commit env
    · refine silent_bind ?_ fun _ => silent_pure true
      unfold wrapUp
      split_ifs
      · exact silent_persistMessage env _ _
      · exact silent_pure ()

theorem silent_persistDescription (description : String) :
    Preserves Silent (persistDescription env target description) := by
  unfold persistDescription
  split_ifs
  · exact silent_pure ()
  · exact silent_persistMessage env _ _

theorem silent_loadContext (session : SessionModel) (retrieval : Option PyError) :
    Preserves Silent (loadContext env target session retrieval) := by
  unfold loadContext
  refine silent_bind (silent_query env) fun _ => silent_bind (fun _ => rfl) fun w => ?_
  cases retrieval with
  | none => exact silent_pure _
  | some e => exact Preserves.throw Silent.refl e

/-- The quota is exceeded, or the configuration has no key. -/
theorem silent_checkQuotaAndCall (messages : List ContextEntry) {config : ConfigLoader.LlmConfig} {run : BrainRun}
    (h : (∃ text, run.quota = .ok (some text)) ∨ config.apiKey.truthy = false) :
    Preserves Silent (checkQuotaAndCall env target messages config run) := by
  unfold checkQuotaAndCall
  refine silent_bind (silent_queryIf env _) fun _ => ?_
  cases hquota : run.quota with
  | error e => exact Preserves.throw Silent.refl e
  | ok found =>
    cases found with
    | some text => exact silent_endTask env target _
    | none =>
      have hkey : config.apiKey.truthy = false := h.resolve_left fun ⟨text, htext⟩ => by
        rw [hquota] at htext
        cases htext
      unfold callLlmAndStream
      simp only [hkey, Bool.false_eq_true, if_false]
      refine silent_bind (silent_publishLog _ _) fun _ => ?_
      exact silent_endTask env target _

end Silence

/-! ## The brain -/

/-- The configuration of the session has a key. -/
def BrainHasKey (env : Env) (session : SessionModel) : Prop :=
  ∃ config, ConfigLoader.loadSessionLlmConfig env.config env.tenants (some session) env.environ = .ok config ∧
    config.apiKey.truthy = true

section Brain
variable {env : Env} {session : SessionModel} {run : BrainRun}

theorem silent_raise_bind {α β : Type} {r : Except PyError α} {f : α → Handler β}
    (hf : ∀ a, r = .ok a → Preserves Silent (f a)) : Preserves Silent (raise r >>= f) := by
  cases r with
  | ok a => exact hf a rfl
  | error e => exact fun w => Silent.refl w

theorem silent_reason (target : Target) (description : String)
    (h : (∃ text, run.quota = .ok (some text)) ∨ ¬ BrainHasKey env session) :
    Preserves Silent (reason env target session description run) := by
  unfold reason loadConfig
  refine silent_bind (silent_persistDescription env target description) fun _ =>
    silent_bind (silent_publishLog _ _) fun _ => silent_bind (silent_loadContext env target session _) fun messages => ?_
  rw [bind_assoc]
  refine silent_bind (silent_queryIf env _) fun _ => silent_raise_bind fun config hconfig => ?_
  refine silent_checkQuotaAndCall env target messages (h.imp_right fun hkey => ?_)
  exact Bool.eq_false_iff.mpr fun htruthy => hkey ⟨config, hconfig, htruthy⟩

/-- An event of the session makes no model call. -/
theorem silent_processTaskEvent {event : ThinkEvent} {w : World}
    (hsession : loadSession w.db event.sessionId event.tenantId = some session)
    (h : (∃ text, run.quota = .ok (some text)) ∨ ¬ BrainHasKey env session) :
    Silent w (finalState (processTaskEvent env event run) w) := by
  have hthink : Preserves Silent (think env ⟨event.taskId, event.sessionId, session.tenantId⟩ session
      event.description run) := by
    unfold think
    refine silent_bind (silent_countIteration env _) fun going => ?_
    split_ifs
    · exact silent_reason _ _ h
    · exact silent_pure ()
  unfold processTaskEvent
  rw [finalState_bind]
  unfold query
  simp only
  split_ifs with hfails
  · rfl
  · simp only
    rw [finalState_bind]
    rw [get_run]
    simp only
    rw [hsession]
    exact hthink { w with dbOps := w.dbOps + 1 }

/-- The run is a model call and its answer. -/
def Asks (env : Env) (target : Target) (w w' : World) : Prop :=
  ∃ turns call, Wrote env target.sessionId turns [] [call] w w'

theorem Asks.of_pending {target : Target} {turns : List Turn} {w w' w'' : World}
    (h : Pending env target.sessionId turns [] w w') (h' : Asks env target w' w'') : Asks env target w w'' := by
  obtain ⟨turns', call, hwrote⟩ := h'
  exact ⟨turns ++ turns', call, h.wrote hwrote⟩

/-- An event that the quota check lets pass, when the provider answers with an error. -/
def failedRun : BrainRun := ⟨none, .ok none, .failed "overloaded"⟩

theorem checkQuotaAndCall_asks (target : Target) (messages : List ContextEntry)
    {config : ConfigLoader.LlmConfig} (hkey : config.apiKey.truthy = true) {w : World} (hw : w.usable = true)
    {raises : PyError → World → Prop} :
    Ends (checkQuotaAndCall env.reliable target messages config failedRun) w (fun _ w' => Asks env target w w')
      raises := by
  unfold checkQuotaAndCall failedRun
  have h₀ : Pending env target.sessionId [] [] w w := .refl hw
  refine h₀.bind (queryIf_pending _ hw) fun w₁ h₁ => ?_
  unfold callLlmAndStream
  simp only [hkey, if_true]
  refine h₁.bind (publishLog_pending target.taskId _ h₁.usable) fun w₂ h₂ => ?_
  refine h₂.bind (recordCall_pending _ h₂.usable) fun w₃ h₃ => ?_
  refine h₃.bind (publishLog_pending target.taskId _ h₃.usable) fun w₄ h₄ => ?_
  exact (endTask_ends _ h₄.usable).mono (fun _ _ h => ⟨_, _, h₄.wrote h⟩) fun _ _ h => h

theorem reason_asks (target : Target) (hkey : BrainHasKey env session) {w : World} (hw : w.usable = true)
    {raises : PyError → World → Prop} :
    Ends (reason env.reliable target session "" failedRun) w (fun _ w' => Asks env target w w') raises := by
  obtain ⟨config, hconfig, htruthy⟩ := hkey
  obtain ⟨before, _, _, hdescription⟩ := persistDescription_pending env target "" hw
  unfold reason
  have h₀ : Pending env target.sessionId [] [] w w := .refl hw
  refine h₀.bind hdescription fun w₁ h₁ => ?_
  refine h₁.bind (publishLog_pending target.taskId _ h₁.usable) fun w₂ h₂ => ?_
  obtain ⟨w₃, hquery, h₃⟩ : ∃ w₃, query env.reliable w₂ = .ok () w₃ ∧
    Pending env target.sessionId [] [] w₂ w₃ := query_pending h₂.usable
  refine Ends.bind_ok (loadContext_ok hquery) ?_
  obtain ⟨w₄, hqueryIf, h₄⟩ : ∃ w₄, queryIf env.reliable (decide (session.tenantId ≠ "")) w₃ = .ok () w₄ ∧
    Pending env target.sessionId [] [] w₃ w₄ := queryIf_pending _ h₃.usable
  refine Ends.bind_ok ((loadConfig_eq hqueryIf).trans (by rw [hconfig]; rfl)) ?_
  have hpending := (h₂.trans h₃).trans h₄
  exact (checkQuotaAndCall_asks target _ htruthy h₄.usable).mono (fun _ _ h => .of_pending hpending h)
    fun _ _ h => h

/-- With a key, and without an objection of the quota check, the model is called. -/
theorem processTaskEvent_asks (hkey : BrainHasKey env session) :
    Ends (processTaskEvent env.reliable ⟨none, session.id, "", none⟩ failedRun) (World.start [session])
      (fun _ w' => Asks env ⟨none, session.id, session.tenantId⟩ (World.start [session]) w') fun _ _ => False := by
  generalize htarget : (⟨none, session.id, session.tenantId⟩ : Target) = target
  have hw : (World.start [session]).usable = true := rfl
  unfold processTaskEvent
  have h₀ : Pending env target.sessionId [] [] (World.start [session]) (World.start [session]) := .refl hw
  refine h₀.bind (query_pending hw) fun w₁ h₁ => ?_
  refine h₁.bind (b := w₁) ⟨w₁, rfl, .refl h₁.usable⟩ fun w₂ h₂ => ?_
  have hdb : w₁.db = (World.start [session]).db := h₁.db
  have hfound : loadSession w₁.db session.id none = some session := by
    rw [hdb]
    simp [loadSession, World.start, truthyText]
  rw [hfound]
  simp only
  rw [htarget]
  unfold think
  have hcount : Ends (countIteration env.reliable target) w₂
      (fun going w' => going = true ∧ Pending env target.sessionId [] [] w₂ w') fun _ _ => False := by
    unfold countIteration
    have h₂' : Pending env target.sessionId [] [] w₂ w₂ := .refl h₂.usable
    refine h₂'.bind (query_pending h₂.usable) fun w₃ h₃ => ?_
    refine h₃.bind (b := w₃) ⟨w₃, rfl, .refl h₃.usable⟩ fun w₄ h₄ => ?_
    have hdb₃ : w₃.db = (World.start [session]).db := h₃.db.trans h₂.db
    have hnone : findTask w₃.db target = none := by
      rw [hdb₃]
      rfl
    rw [hnone]
    exact .of_ok rfl ⟨rfl, h₄⟩
  refine Ends.bind hcount fun going w₃ h => ?_
  obtain ⟨rfl, h₃⟩ := h
  exact (reason_asks target hkey h₃.usable).mono (fun _ _ h => .of_pending (h₂.trans h₃) h) fun _ _ h => h

end Brain

/-! ## Both paths -/

/-- While the row of the tenant is as it is, neither an event of the session nor a task delegated in it calls a
provider, whatever the database, the models and the tools do. -/
structure NoProviderCall (tenants : List Billing.TenantModel) (brain : Env) (sub : DelegateTask.Env)
    (session : SessionModel) : Prop where
  brain : ∀ dbFails event retrieval reply w, loadSession w.db event.sessionId event.tenantId = some session →
    Silent w (finalState (processTaskEvent { brain with dbFails := dbFails } event
      ⟨retrieval, .ok (Billing.checkQuota tenants session.tenantId), reply⟩) w)
  subAgent : ∀ acompletion execute depth kwargs,
    DelegateTask.providerCalls (sub.withBehaviour acompletion execute) depth session.id kwargs = 0

theorem subAgent_silent_iff (sub : DelegateTask.Env) (session : SessionModel)
    (hfind : sub.findSession session.id = some session) :
    (∀ acompletion execute depth kwargs,
      DelegateTask.providerCalls (sub.withBehaviour acompletion execute) depth session.id kwargs = 0) ↔
    DelegateTask.subAgentKey sub session = "" := by
  constructor
  · intro h
    by_contra hkey
    have hone := DelegateTask.answering_calls sub hfind hkey
    rw [h] at hone
    cases hone
  · intro hkey acompletion execute depth kwargs
    have hcosts := DelegateTask.costs_execute_keyless (sub.withBehaviour acompletion execute) hfind hkey depth kwargs
      ⟨[], 0⟩
    exact Nat.le_zero.mp hcosts

/-- **A tenant that has spent its quota causes no further call exactly when its quota is not zero, or the
default quota is spent too, or the brain has no key; and the sub-agents have none.** -/
theorem noProviderCall_iff (tenants : List Billing.TenantModel) (brain : Env) (sub : DelegateTask.Env)
    (session : SessionModel) {tenant : Billing.TenantModel}
    (hrow : tenants.find? (fun t => decide (t.id = tenant.id)) = some tenant) (hlocal : tenant.id ≠ "local")
    (hspent : Billing.Spent tenant) (htenant : session.tenantId = tenant.id)
    (hfind : sub.findSession session.id = some session) :
    NoProviderCall tenants brain sub session ↔
      (Billing.Refused tenant ∨ ¬ BrainHasKey brain session) ∧ DelegateTask.subAgentKey sub session = "" := by
  have hcheck := Billing.checkQuota_spent hrow hlocal hspent
  rw [← htenant] at hcheck
  constructor
  · intro h
    refine ⟨?_, (subAgent_silent_iff sub session hfind).mp h.subAgent⟩
    by_contra hnot
    rw [not_or, not_not] at hnot
    rw [if_neg hnot.1] at hcheck
    rcases (processTaskEvent_asks hnot.2).cases with ⟨_, w', hrun, turns, call, hwrote⟩ | ⟨_, _, _, hfalse⟩
    · have hsilent := h.brain (fun _ => false) ⟨none, session.id, "", none⟩ none (.failed "overloaded")
        (World.start [session]) (by simp [loadSession, World.start, truthyText])
      rw [hcheck] at hsilent
      have hfinal : finalState (processTaskEvent brain.reliable ⟨none, session.id, "", none⟩ failedRun)
          (World.start [session]) = w' := (run_eq_ok hrun).1
      change Silent _ (finalState (processTaskEvent brain.reliable ⟨none, session.id, "", none⟩ failedRun) _) at hsilent
      rw [hfinal] at hsilent
      have hcalls := hwrote.llmCalls
      rw [hsilent] at hcalls
      simp at hcalls
    · exact hfalse
  · rintro ⟨hbrain, hsub⟩
    refine ⟨fun dbFails event retrieval reply w hsession => ?_, (subAgent_silent_iff sub session hfind).mpr hsub⟩
    refine silent_processTaskEvent hsession (hbrain.imp_left fun hrefused => ?_)
    rw [hcheck, if_pos hrefused]
    exact ⟨_, rfl⟩

/-- A tenant that has spent its ten dollars. -/
def spentTenant : Billing.TenantModel := ⟨"acme", 1000, 10⟩

theorem spentTenant_spent : Billing.Spent spentTenant := by
  unfold Billing.Spent spentTenant
  norm_num

theorem noProviderCall_keyless :
    NoProviderCall [spentTenant] localEnv
      { DelegateTask.coreEnv (localSession "auto") with environ := fun _ => none } (localSession "auto") := by
  have hrow : [spentTenant].find? (fun t => decide (t.id = spentTenant.id)) = some spentTenant := rfl
  refine (noProviderCall_iff _ _ _ _ hrow (by decide) spentTenant_spent rfl rfl).mpr ⟨Or.inl (Or.inl ?_), ?_⟩
  · unfold spentTenant
    norm_num
  · decide

/-- The same tenant, where the platform has a key: a delegated task asks its model. -/
theorem spent_tenant_delegates : ¬ ∀ tenants brain sub session (tenant : Billing.TenantModel),
    tenants.find? (fun t => decide (t.id = tenant.id)) = some tenant → tenant.id ≠ "local" → 0 ≤ tenant.costCents →
    0 ≤ tenant.quotaUsd → Billing.Spent tenant → session.tenantId = tenant.id →
    sub.findSession session.id = some session → NoProviderCall tenants brain sub session := by
  intro h
  have hquota : 0 ≤ spentTenant.quotaUsd := by
    unfold spentTenant
    norm_num
  have hkey : DelegateTask.subAgentKey (DelegateTask.coreEnv (localSession "auto")) (localSession "auto") ≠ "" := by
    decide
  have hfind : (DelegateTask.coreEnv (localSession "auto")).findSession (localSession "auto").id =
      some (localSession "auto") := rfl
  have hnone := h [spentTenant] localEnv (DelegateTask.coreEnv (localSession "auto")) (localSession "auto")
    spentTenant rfl (by decide) (by decide) hquota spentTenant_spent rfl rfl
  have hone := DelegateTask.answering_calls (DelegateTask.coreEnv (localSession "auto")) hfind hkey
  rw [hnone.subAgent] at hone
  cases hone

end KernelRuntime.AgentLoop
