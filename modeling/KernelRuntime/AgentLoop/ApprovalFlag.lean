import KernelRuntime.AgentLoop.Redelivery
import KernelRuntime.AgentLoop.System

/-! # The approval flag of a call

The approval endpoint tells the policy of its decision by a flag in the arguments of the call, and the
arguments of a call come from the model. In a run without approvals a dangerous tool is executed
exactly when a call brings the flag along. -/

namespace KernelRuntime.AgentLoop
open PolicyEngine
set_option autoImplicit false

/-- The steps of a run in which nobody decides on a call. -/
def unattended (env : Env) (w : World) : Label → Option World
  | .approve _ => none
  | i => step env w i

/-- No tool that needs an approval was executed for the session. -/
def ApprovalEnforced (session : SessionModel) (w : World) : Prop :=
  ∀ e ∈ w.executed, e.sessionId = session.id → needsApproval session.riskMode e.toolName = false

/-- The call needs an approval, brings the flag along, and nothing else keeps it from its tool. -/
structure SelfApproved (env : Env) (session : SessionModel) (spec : ToolSpec) (fields : Fields) :
    Prop where
  dangerous : needsApproval session.riskMode spec.name = true
  object : spec.args = .obj fields
  flag : (Fields.get fields "__approved__").truthy = true
  role : assertRoleAllows session.userRole spec.name = .ok ()
  path : assertPathAllowed env.fs session spec.name spec.args = .ok ()
  registered : env.getToolInstance spec.name ≠ none
  real : ((Fields.get fields "dry_run").truthy || shadowMode session) = false

/-- No call of the session that a delivery comes to is self-approved. -/
def NoSelfApproval (env : Env) (session : SessionModel) (w : World) : Label → Prop
  | .executeTools => ∀ message queue s before spec after fields,
      w.executionQueue = message :: queue → message.data.sessionId = session.id →
      loadSession w.db message.data.sessionId message.data.tenantId = some s →
      message.data.tools = before ++ spec :: after → (∀ b ∈ before, Answerable env s b) →
      ¬ SelfApproved env s spec fields
  | _ => True

/-! ## One call -/

theorem executes_iff_selfApproved {env : Env} {session : SessionModel} {spec : ToolSpec}
    (hrole : session.userRole ≠ "admin") (hdangerous : needsApproval session.riskMode spec.name = true) :
    (∃ kwargs, classify env session spec = .ok (.executes kwargs)) ↔
      ∃ fields, SelfApproved env session spec fields := by
  constructor
  · rintro ⟨kwargs, hr⟩
    unfold classify at hr
    cases hgov : assertActionAllowed env.fs session spec.name spec.args with
    | error e =>
      rw [hgov] at hr
      cases hr
    | ok u =>
      rw [hgov] at hr
      simp only at hr
      split_ifs at hr with htool
      · cases hr
      · cases hargs : spec.args with
        | obj fields =>
          rw [hargs] at hr hgov
          simp only at hr
          split_ifs at hr with hdry
          · cases hr
          · obtain ⟨hflag, hallowed, hpath⟩ := (allows_obj_iff env.fs hrole spec.name fields).mp hgov
            rw [← hargs] at hpath
            exact ⟨fields, hdangerous, hargs, hflag hdangerous, hallowed, hpath, htool, by simpa using hdry⟩
        | _ =>
          rw [hargs] at hr
          cases hr
  · rintro ⟨fields, h⟩
    have hpath := h.path
    rw [h.object] at hpath
    have hgov : assertActionAllowed env.fs session spec.name (.obj fields) = .ok () :=
      (allows_obj_iff env.fs hrole spec.name fields).mpr ⟨fun _ => h.flag, h.role, hpath⟩
    refine ⟨assocErase "dry_run" fields, ?_⟩
    unfold classify
    rw [h.object, hgov]
    simp only
    rw [if_neg h.registered, if_neg (by simp [h.real])]

/-- A call that is handled comes after calls that are answered. -/
theorem mem_handledCalls_iff {env : Env} {session : SessionModel} {specs : List ToolSpec}
    {spec : ToolSpec} {r : CallResult} : (spec, r) ∈ handledCalls env session specs ↔
      ∃ before after, specs = before ++ spec :: after ∧ (∀ b ∈ before, Answerable env session b) ∧
        classify env session spec = .ok r := by
  induction specs with
  | nil => simp [handledCalls]
  | cons first specs ih =>
    unfold handledCalls
    cases hfirst : classify env session first with
    | error e =>
      refine iff_of_false List.not_mem_nil ?_
      rintro ⟨before, after, hsplit, hbefore, hr⟩
      cases before with
      | nil =>
        obtain rfl := (List.cons.inj hsplit).1
        rw [hfirst] at hr
        cases hr
      | cons b before =>
        obtain rfl := (List.cons.inj hsplit).1
        obtain ⟨r', hr'⟩ := (processable_iff env session first).mpr (hbefore first List.mem_cons_self)
        rw [hfirst] at hr'
        cases hr'
    | ok r' =>
      simp only [List.mem_cons, Prod.mk.injEq, ih]
      constructor
      · rintro (⟨rfl, rfl⟩ | ⟨before, after, rfl, hbefore, hr⟩)
        · exact ⟨[], specs, rfl, fun _ h => absurd h List.not_mem_nil, hfirst⟩
        · refine ⟨first :: before, after, rfl, fun b hb => ?_, hr⟩
          rcases List.mem_cons.mp hb with rfl | hb
          · exact (processable_iff env session b).mp ⟨r', hfirst⟩
          · exact hbefore b hb
      · rintro ⟨before, after, hsplit, hbefore, hr⟩
        cases before with
        | nil =>
          obtain ⟨rfl, rfl⟩ := List.cons.inj hsplit
          exact Or.inl ⟨rfl, (Except.ok.inj (hfirst.symm.trans hr)).symm⟩
        | cons b before =>
          obtain ⟨rfl, rfl⟩ := List.cons.inj hsplit
          exact Or.inr ⟨before, after, rfl, fun b hb => hbefore b (List.mem_cons_of_mem _ hb), hr⟩

/-! ## The session -/

/-- The session is in the table, with some context, and its id is its own. -/
structure Registered (session : SessionModel) (w : World) : Prop where
  clean : w.Clean
  ids : (w.db.sessions.map SessionModel.id).Nodup
  row : ∃ context, { session with context := context } ∈ w.db.sessions

theorem Registered.of_sessions {session : SessionModel} {w w' : World} (h : Registered session w)
    (hclean : w'.Clean) (hsessions : w'.db.sessions = w.db.sessions) : Registered session w' :=
  ⟨hclean, by rw [hsessions]; exact h.ids, by rw [hsessions]; exact h.row⟩

/-- What a worker loads under the id of the session is the session. -/
theorem Registered.loaded {session s : SessionModel} {w : World} (h : Registered session w)
    {tenantId : Option String} (hs : loadSession w.db session.id tenantId = some s) :
    ∃ context, s = { session with context := context } := by
  obtain ⟨context, hrow⟩ := h.row
  have hmem := List.mem_of_find?_eq_some hs
  have hid : s.id = session.id := by
    have hfound := List.find?_some hs
    exact (of_decide_eq_true hfound).1
  exact ⟨context, List.inj_on_of_nodup_map h.ids hmem hrow hid⟩

section Steps
variable {env : Env} {session : SessionModel} {w w' : World}

theorem registered_chat (h : Registered session w) {tenantId taskId : String} {req : ChatRequest}
    (hstep : sendChatMessage tenantId taskId req w = some w') :
    Registered session w' ∧ w'.executed = w.executed := by
  unfold sendChatMessage at hstep
  split_ifs at hstep with hid hfound
  · obtain rfl := Option.some.inj hstep
    refine ⟨⟨⟨h.clean.usable, rfl, h.clean.flushed⟩, ?_, ?_⟩, rfl⟩
    · show ((w.db.sessions.map _).map SessionModel.id).Nodup
      rw [List.map_map]
      convert h.ids using 2
      funext s
      simp only [Function.comp]
      split_ifs <;> rfl
    · obtain ⟨context, hrow⟩ := h.row
      have hupdated := List.mem_map_of_mem (f := fun s : SessionModel =>
        if s.id = req.sessionId ∧ s.tenantId = tenantId then
          { s with context := req.contextOf s.context } else s) hrow
      simp only at hupdated
      split_ifs at hupdated
      · exact ⟨_, hupdated⟩
      · exact ⟨_, hupdated⟩
  · obtain rfl := Option.some.inj hstep
    exact ⟨h, rfl⟩

theorem Thought.sessions {target : Target} {s : SessionModel} {asks : Prop} {reply : ProviderReply}
    {message : StreamMessage ThinkEvent} {queue : List (StreamMessage ThinkEvent)}
    (h : Thought env target s asks reply message queue w w') : w'.db.sessions = w.db.sessions := by
  rcases h.outcome with ⟨tasks, before, turns, _, _, _, _, _, _, _, hdb, _⟩ | ⟨_, _, _, _, _, hdb, _⟩
  · rw [hdb, Database.sessions_commit_addTurns]
    rfl
  · rw [hdb]

theorem registered_think (h : Registered session w) {run : BrainRun}
    (hstep : deliverThink env.reliable run w = some w') :
    Registered session w' ∧ w'.executed = w.executed := by
  obtain ⟨message, queue, target, s, asks, hqueue, _, _, hthought, _⟩ := deliverThink_inv h.clean hstep
  exact ⟨h.of_sessions hthought.clean hthought.sessions, hthought.executed⟩

theorem mem_executed_delivery {s : SessionModel} {message : StreamMessage ToolEvent}
    (h : Delivered env s message.data w w') (e : Execution) : e ∈ w'.executed ↔ e ∈ w.executed ∨
      ∃ before spec after kwargs, message.data.tools = before ++ spec :: after ∧
        (∀ b ∈ before, Answerable env s b) ∧ classify env s spec = .ok (.executes kwargs) ∧
        e = executionOf message.data s spec kwargs := by
  rw [h.executed, List.mem_append, List.mem_flatMap]
  refine or_congr_right ⟨?_, ?_⟩
  · rintro ⟨⟨spec, r⟩, hc, he⟩
    obtain ⟨before, after, hsplit, hbefore, hr⟩ := mem_handledCalls_iff.mp hc
    cases r with
    | executes kwargs => exact ⟨before, spec, after, kwargs, hsplit, hbefore, hr, List.mem_singleton.mp he⟩
    | _ => exact absurd he List.not_mem_nil
  · rintro ⟨before, spec, after, kwargs, hsplit, hbefore, hr, rfl⟩
    exact ⟨(spec, .executes kwargs), mem_handledCalls_iff.mpr ⟨before, after, hsplit, hbefore, hr⟩,
      List.mem_singleton.mpr rfl⟩

theorem registered_delivery (h : Registered session w) (hstep : deliverTools env.reliable w = some w') :
    Registered session w' := by
  obtain ⟨message, queue, hqueue, htouched⟩ := deliverTools_inv h.clean hstep
  obtain ⟨turns, _, hdb⟩ := htouched.db
  exact h.of_sessions htouched.clean (by rw [hdb, Database.sessions_commit_addTurns])

theorem enforced_delivery (hadmin : session.userRole ≠ "admin") (h : Registered session w)
    (henforced : ApprovalEnforced session w) (hok : NoSelfApproval env session w .executeTools)
    (hstep : deliverTools env.reliable w = some w') : ApprovalEnforced session w' := by
  obtain ⟨message, queue, hqueue, _⟩ := deliverTools_inv h.clean hstep
  cases hsession : loadSession w.db message.data.sessionId message.data.tenantId with
  | none =>
    obtain ⟨w'', hrun, hmissed⟩ := deliverTools_missing env h.clean hqueue hsession
    obtain rfl := Option.some.inj (hrun.symm.trans hstep)
    intro e he
    rw [hmissed.executed] at he
    exact henforced e he
  | some s =>
    obtain ⟨w'', hrun, hdelivered, _⟩ := deliverTools_spec env h.clean hqueue hsession
    obtain rfl := Option.some.inj (hrun.symm.trans hstep)
    intro e he hid
    rcases (mem_executed_delivery hdelivered e).mp he with he |
      ⟨before, spec, after, kwargs, hsplit, hbefore, hr, rfl⟩
    · exact henforced e he hid
    · change message.data.sessionId = session.id at hid
      obtain ⟨context, hs⟩ := h.loaded (hid ▸ hsession)
      have hrole : s.userRole ≠ "admin" := by
        rw [hs]
        exact hadmin
      by_contra hneeds
      have hdangerous : needsApproval s.riskMode spec.name = true := by
        rw [hs]
        exact Bool.eq_true_of_not_eq_false hneeds
      obtain ⟨fields, hself⟩ := (executes_iff_selfApproved hrole hdangerous).mp ⟨kwargs, hr⟩
      exact hok message queue s before spec after fields hqueue hid hsession hsplit hbefore hself

theorem not_enforced_delivery (hadmin : session.userRole ≠ "admin") (h : Registered session w)
    (hnot : ¬ NoSelfApproval env session w .executeTools) :
    ∃ w', deliverTools env.reliable w = some w' ∧ ¬ ApprovalEnforced session w' := by
  unfold NoSelfApproval at hnot
  push Not at hnot
  obtain ⟨message, queue, s, before, spec, after, fields, hqueue, hid, hsession, hsplit, hbefore, hself⟩ :=
    hnot
  obtain ⟨w', hrun, hdelivered, _⟩ := deliverTools_spec env h.clean hqueue hsession
  obtain ⟨context, hs⟩ := h.loaded (hid ▸ hsession)
  have hrole : s.userRole ≠ "admin" := by
    rw [hs]
    exact hadmin
  obtain ⟨kwargs, hr⟩ := (executes_iff_selfApproved hrole hself.dangerous).mpr ⟨fields, hself⟩
  refine ⟨w', hrun, fun henforced => ?_⟩
  have hmem := (mem_executed_delivery hdelivered (executionOf message.data s spec kwargs)).mpr
    (Or.inr ⟨before, spec, after, kwargs, hsplit, hbefore, hr, rfl⟩)
  have hdangerous := hself.dangerous
  rw [hs] at hdangerous
  exact absurd (hdangerous.symm.trans (henforced _ hmem hid)) (by decide)

end Steps

/-! ## Runs -/

/-- **In a run without approvals no tool that needs one is executed for a session, in exactly the runs
in which no call of the session that is delivered brings the flag along.** -/
theorem approvalEnforced_iff_guarded (env : Env) (session : SessionModel) (sessions : List SessionModel)
    (hrole : session.userRole ≠ "admin") (hids : (sessions.map SessionModel.id).Nodup)
    (hsession : session ∈ sessions) (is : List Label) :
    (∀ js ks t, is = js ++ ks → exec (unattended env.reliable) (World.start sessions) js = some t →
      ApprovalEnforced session t) ↔
    Guarded (unattended env.reliable) (NoSelfApproval env session) (World.start sessions) is := by
  have hstart : Registered session (World.start sessions) :=
    ⟨World.start_clean sessions, hids, session.context, hsession⟩
  refine always_iff_guarded ?_ ?_ ?_ hstart (fun _ he => absurd he List.not_mem_nil) is
  · intro w i w' h hstep
    cases i with
    | chat tenantId taskId req => exact (registered_chat h hstep).1
    | think run => exact (registered_think h hstep).1
    | executeTools => exact registered_delivery h hstep
    | approve req => cases hstep
  · intro w i w' h henforced hok hstep
    cases i with
    | chat tenantId taskId req =>
      intro e he
      rw [(registered_chat h hstep).2] at he
      exact henforced e he
    | think run =>
      intro e he
      rw [(registered_think h hstep).2] at he
      exact henforced e he
    | executeTools => exact enforced_delivery hrole h henforced hok hstep
    | approve req => cases hstep
  · intro w i h _ hnot
    cases i with
    | executeTools => exact not_enforced_delivery hrole h hnot
    | _ => exact absurd True.intro hnot

/-- A user asks for a command, the model answers with these arguments, and the call is delivered. -/
def commandRun (arguments : String) : List Label :=
  [.chat "acme" "t1" ⟨"s1", "list the files", false, none⟩,
   .think ⟨none, .ok none, .stream [some ⟨none, none,
     [⟨0, some "call_1", some "function", some "bash_execute", some arguments⟩]⟩] none⟩,
   .executeTools]

def listFiles : ToolSpec := ⟨some "call_1", "bash_execute", .obj [("command", .str "ls")]⟩

/-- Arguments without the flag: the command waits for its approval. -/
theorem approvalEnforced_plain_command : ∃ t,
    exec (unattended localEnv.reliable) (World.start [localSession "strict"])
      (commandRun "\x7b\"command\": \"ls\"\x7d") = some t ∧
    ApprovalEnforced (localSession "strict") t := by
  have hguarded : Guarded (unattended localEnv.reliable) (NoSelfApproval localEnv (localSession "strict"))
      (World.start [localSession "strict"]) (commandRun "\x7b\"command\": \"ls\"\x7d") := by
    refine ⟨True.intro, fun w₁ h₁ => ⟨True.intro, fun w₂ h₂ => ⟨?_, fun _ _ => True.intro⟩⟩⟩
    have hqueue : (exec (unattended localEnv.reliable) (World.start [localSession "strict"])
        ((commandRun "\x7b\"command\": \"ls\"\x7d").take 2)).map (fun w => w.executionQueue.map
          fun m => m.data.tools) =
        some [[listFiles]] := by decide +kernel
    have hrun : exec (unattended localEnv.reliable) (World.start [localSession "strict"])
        ((commandRun "\x7b\"command\": \"ls\"\x7d").take 2) = some w₂ :=
      (exec_cons_eq_some _).mpr ⟨w₁, h₁, (exec_cons_eq_some _).mpr ⟨w₂, h₂, rfl⟩⟩
    rw [hrun] at hqueue
    intro message queue s before spec after fields hmessage _ _ hsplit _ hself
    have htools : w₂.executionQueue.map (fun m => m.data.tools) = [[listFiles]] := Option.some.inj hqueue
    rw [hmessage, List.map_cons] at htools
    have hspec : spec ∈ message.data.tools := by
      rw [hsplit]
      exact List.mem_append_right _ List.mem_cons_self
    rw [(List.cons.inj htools).1, List.mem_singleton] at hspec
    have hfields := hself.object
    rw [hspec, listFiles] at hfields
    have hflag := hself.flag
    rw [← Json.obj.inj hfields] at hflag
    exact absurd hflag (by decide)
  have henforced := (approvalEnforced_iff_guarded localEnv (localSession "strict") [localSession "strict"]
    (by decide) (by decide) List.mem_cons_self _).mpr hguarded
  have hruns : (exec (unattended localEnv.reliable) (World.start [localSession "strict"])
      (commandRun "\x7b\"command\": \"ls\"\x7d")).isSome = true := by decide +kernel
  obtain ⟨t, hrun⟩ := Option.isSome_iff_exists.mp hruns
  exact ⟨t, hrun, henforced _ [] t (List.append_nil _).symm hrun⟩

/-- The model sends the flag along: the command is executed, and nobody was asked. -/
theorem model_approves_itself : ¬ ∀ (env : Env) (session : SessionModel) (sessions : List SessionModel)
    (is : List Label) (t : World), session.riskMode = "strict" → session.userRole ≠ "admin" →
    (sessions.map SessionModel.id).Nodup → session ∈ sessions →
    exec (unattended env.reliable) (World.start sessions) is = some t → ApprovalEnforced session t := by
  intro h
  have hrun : (exec (unattended localEnv.reliable) (World.start [localSession "strict"])
      (commandRun "\x7b\"command\": \"ls\", \"__approved__\": true\x7d")).map
        (fun t => t.executed.map fun e => (e.sessionId, e.toolName)) =
      some [("s1", "bash_execute")] := by decide +kernel
  obtain ⟨t, ht, hexecuted⟩ := Option.map_eq_some_iff.mp hrun
  have henforced := h localEnv (localSession "strict") [localSession "strict"] _ t rfl (by decide)
    (by decide) List.mem_cons_self ht
  have hmem : ("s1", "bash_execute") ∈ t.executed.map fun e => (e.sessionId, e.toolName) := by
    rw [hexecuted]
    exact List.mem_cons_self
  obtain ⟨e, he, hkey⟩ := List.mem_map.mp hmem
  obtain ⟨hid, hname⟩ := Prod.mk.inj hkey
  have hneeds := henforced e he hid
  rw [hname] at hneeds
  exact absurd hneeds (by decide)

end KernelRuntime.AgentLoop
