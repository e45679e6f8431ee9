import KernelRuntime.Api.SessionRoutes

/-! # What a tenant learns of the others

Every query of the routes asks for the tenant of the user, and every row that is updated was found by such a query. So
what a tenant gets is what it would get if nobody else used the server, however the statements of the requests are
interleaved. Rows are updated by their identifiers alone, and an identifier is drawn once. -/

namespace KernelRuntime.SessionRoutes
open WorkspaceRoots (WorkspaceBinding WorkspaceRow)
open AgentLoop (ChatRequest)
open Views (Safe)
set_option autoImplicit false

/-- Who drew an identifier is the tenant of the row. -/
structure Store.Owned (owner : String → String) (s : Store) : Prop where
  sessions : ∀ r ∈ s.sessions, owner r.id = r.tenantId
  workspaces : ∀ r ∈ s.workspaces, owner r.id = r.tenantId
  bindings : ∀ b ∈ s.bindings, owner b.1 = owner b.2
  tasks : ∀ r ∈ s.tasks, owner r.id = r.tenantId
  messages : ∀ r ∈ s.messages, owner r.id = r.tenantId

/-- The rows of a tenant, and what was published for it. -/
def Store.ofTenant (owner : String → String) (tenantId : String) (s : Store) : Store where
  sessions := s.sessions.filter fun r => decide (r.tenantId = tenantId)
  workspaces := s.workspaces.filter fun r => decide (r.tenantId = tenantId)
  bindings := s.bindings.filter fun b => decide (owner b.1 = tenantId)
  tasks := s.tasks.filter fun r => decide (r.tenantId = tenantId)
  messages := s.messages.filter fun r => decide (r.tenantId = tenantId)
  published := s.published.filter fun p => decide (p.data.lookup "tenant_id" = some (.str tenantId))

def views (owner : String → String) : Views Store String Store where
  view := fun tenantId s => s.ofTenant owner tenantId
  good := Store.Owned owner

/-- What is written is of the tenant. -/
def Write.OfTenant (owner : String → String) (tenantId : String) : Write → Prop
  | .addSession r => r.tenantId = tenantId ∧ owner r.id = tenantId
  | .addWorkspace r => r.tenantId = tenantId ∧ owner r.id = tenantId
  | .addBinding sessionId workspaceId => owner sessionId = tenantId ∧ owner workspaceId = tenantId
  | .removeBinding sessionId _ => owner sessionId = tenantId
  | .addTask r => r.tenantId = tenantId ∧ owner r.id = tenantId
  | .addMessage r => r.tenantId = tenantId ∧ owner r.id = tenantId
  | .setSession id _ => owner id = tenantId
  | .setMetadata id _ => owner id = tenantId

/-! ## Tables -/

section Tables
variable {α κ : Type} [DecidableEq κ] {p q : α → Bool} {rows rows' : List α} {row : α} {key : α → κ}
  {constraint : String}

theorem filter_filter_of_imp (h : ∀ a ∈ rows, q a = true → p a = true) : (rows.filter p).filter q = rows.filter q := by
  rw [List.filter_filter]
  refine List.filter_congr ?_
  intro a ha
  cases hq : q a with
  | true => simp [h a ha hq]
  | false => simp

theorem find?_filter_of_imp (h : ∀ a ∈ rows, q a = true → p a = true) : (rows.filter p).find? q = rows.find? q := by
  rw [← List.head?_filter, ← List.head?_filter, filter_filter_of_imp h]

theorem forall_insert {P : α → Prop} (h : ∀ r ∈ rows, P r) (hrow : P row)
    (hok : insert constraint key row rows = .ok rows') : ∀ r ∈ rows', P r := by
  unfold insert at hok
  split_ifs at hok
  cases hok
  simpa [or_imp, forall_and] using ⟨h, hrow⟩

theorem insert_filter (hrow : p row = true) (hkey : ∀ r ∈ rows, key r = key row → p r = true) :
    insert constraint key row (rows.filter p) = (insert constraint key row rows).map (List.filter p) := by
  have hany : ((rows.filter p).any fun r => decide (key r = key row)) = rows.any fun r => decide (key r = key row) := by
    rw [Bool.eq_iff_iff, List.any_eq_true, List.any_eq_true]
    constructor
    · rintro ⟨r, hr, hsame⟩
      exact ⟨r, (List.mem_filter.mp hr).1, hsame⟩
    · rintro ⟨r, hr, hsame⟩
      exact ⟨r, List.mem_filter.mpr ⟨hr, hkey r hr (of_decide_eq_true hsame)⟩, hsame⟩
  unfold insert
  rw [hany]
  split_ifs
  · rfl
  · simp [Except.map, hrow]

theorem filter_insert (hrow : p row = false) (h : insert constraint key row rows = .ok rows') :
    rows'.filter p = rows.filter p := by
  unfold insert at h
  split_ifs at h
  cases h
  simp [hrow]

theorem filter_map_of_eq {f : α → α} (h : ∀ a ∈ rows, p (f a) = p a) :
    (rows.map f).filter p = (rows.filter p).map f := by
  rw [List.filter_map]
  exact congrArg _ (List.filter_congr h)

theorem filter_map_of_hidden {f : α → α} (h : ∀ a ∈ rows, f a = a ∨ p a = false ∧ p (f a) = false) :
    (rows.map f).filter p = rows.filter p := by
  induction rows with
  | nil => rfl
  | cons a rows ih =>
    rw [List.map_cons]
    have hrest := ih fun b hb => h b (List.mem_cons_of_mem a hb)
    rcases h a List.mem_cons_self with ha | ⟨ha, hfa⟩
    · rw [ha, List.filter_cons, List.filter_cons, hrest]
    · rw [List.filter_cons_of_neg (by simp [hfa]), List.filter_cons_of_neg (by simp [ha]), hrest]

end Tables

/-! ## Writes -/

section Writes
variable {owner : String → String} {s s' : Store} {d e : String} {w : Write}

theorem Store.Owned.write (h : s.Owned owner) (hw : w.OfTenant owner d) (hok : s.write w = .ok s') :
    s'.Owned owner := by
  cases w with
  | addSession r =>
    obtain ⟨rows, hrows, hs'⟩ := bind_eq_ok_iff.mp hok
    cases hs'
    exact { h with sessions := forall_insert h.sessions (hw.2.trans hw.1.symm) hrows }
  | addWorkspace r =>
    obtain ⟨_, _, hok⟩ := bind_eq_ok_iff.mp hok
    obtain ⟨rows, hrows, hs'⟩ := bind_eq_ok_iff.mp hok
    cases hs'
    exact { h with workspaces := forall_insert h.workspaces (hw.2.trans hw.1.symm) hrows }
  | addBinding sessionId workspaceId =>
    obtain ⟨rows, hrows, hs'⟩ := bind_eq_ok_iff.mp hok
    cases hs'
    exact { h with bindings := forall_insert h.bindings (hw.1.trans hw.2.symm) hrows }
  | removeBinding sessionId workspaceId =>
    simp only [Store.write] at hok
    split_ifs at hok
    cases hok
    exact { h with bindings := fun b hb => h.bindings b (List.mem_filter.mp hb).1 }
  | addTask r =>
    obtain ⟨rows, hrows, hs'⟩ := bind_eq_ok_iff.mp hok
    cases hs'
    exact { h with tasks := forall_insert h.tasks (hw.2.trans hw.1.symm) hrows }
  | addMessage r =>
    obtain ⟨rows, hrows, hs'⟩ := bind_eq_ok_iff.mp hok
    cases hs'
    exact { h with messages := forall_insert h.messages (hw.2.trans hw.1.symm) hrows }
  | setSession id columns =>
    cases hok
    refine { h with sessions := ?_ }
    intro r' hr'
    obtain ⟨r, hr, rfl⟩ := List.mem_map.mp hr'
    split_ifs
    · exact h.sessions r hr
    · exact h.sessions r hr
  | setMetadata id metadata =>
    cases hok
    refine { h with messages := ?_ }
    intro r' hr'
    obtain ⟨r, hr, rfl⟩ := List.mem_map.mp hr'
    split_ifs
    · exact h.messages r hr
    · exact h.messages r hr

/-- Whether a write of the tenant is refused, and what it does, shows in its own rows. -/
theorem write_ofTenant (h : s.Owned owner) (hw : w.OfTenant owner d) :
    (s.ofTenant owner d).write w = (s.write w).map (Store.ofTenant owner d) := by
  cases w with
  | addSession r =>
    simp only [Store.write, Store.ofTenant]
    rw [insert_filter (by simpa using hw.1)]
    · cases insert "sessions.id" SessionModel.id r s.sessions <;> rfl
    · intro r' hr' hid
      simpa [← h.sessions r' hr', hid] using hw.2
  | addWorkspace r =>
    simp only [Store.write, Store.ofTenant]
    rw [insert_filter (by simpa using hw.1), insert_filter (by simpa using hw.1)]
    · cases insert "workspaces.id" WorkspaceModel.id r s.workspaces with
      | error _ => rfl
      | ok _ =>
        cases insert "workspaces.tenant_id, workspaces.slug" (fun w => (w.tenantId, w.slug)) r s.workspaces <;> rfl
    · intro r' _ hkey
      have htenant : r'.tenantId = r.tenantId := congrArg Prod.fst hkey
      simpa [htenant] using hw.1
    · intro r' hr' hid
      simpa [← h.workspaces r' hr', hid] using hw.2
  | addBinding sessionId workspaceId =>
    simp only [Store.write, Store.ofTenant]
    rw [insert_filter (by simpa using hw.1)]
    · cases insert "session_workspace.session_id, session_workspace.workspace_id" (fun b => b) (sessionId, workspaceId)
        s.bindings <;> rfl
    · intro b _ hb
      rw [hb]
      simpa using hw.1
  | removeBinding sessionId workspaceId =>
    have howner : owner sessionId = d := hw
    simp only [Store.write, Store.ofTenant, List.mem_filter, howner, decide_true, and_true]
    split_ifs
    · rw [List.filter_comm]
      rfl
    · rfl
  | addTask r =>
    simp only [Store.write, Store.ofTenant]
    rw [insert_filter (by simpa using hw.1)]
    · cases insert "tasks.id" TaskModel.id r s.tasks <;> rfl
    · intro r' hr' hid
      simpa [← h.tasks r' hr', hid] using hw.2
  | addMessage r =>
    simp only [Store.write, Store.ofTenant]
    rw [insert_filter (by simpa using hw.1)]
    · cases insert "messages.id" (fun r : MessageModel => r.id) r s.messages <;> rfl
    · intro r' hr' hid
      simpa [← h.messages r' hr', hid] using hw.2
  | setSession id columns =>
    simp only [Store.write, Store.ofTenant, Except.map]
    rw [filter_map_of_eq]
    intro r _
    split_ifs <;> rfl
  | setMetadata id metadata =>
    simp only [Store.write, Store.ofTenant, Except.map]
    rw [filter_map_of_eq]
    intro r _
    split_ifs <;> rfl

/-- The others' rows are left alone. -/
theorem ofTenant_write (h : s.Owned owner) (hw : w.OfTenant owner d) (hne : e ≠ d) (hok : s.write w = .ok s') :
    s'.ofTenant owner e = s.ofTenant owner e := by
  have hhidden : ∀ tenantId, tenantId = d → decide (tenantId = e) = false :=
    fun tenantId htenant => decide_eq_false (htenant ▸ Ne.symm hne)
  cases w with
  | addSession r =>
    obtain ⟨rows, hrows, hs'⟩ := bind_eq_ok_iff.mp hok
    cases hs'
    simp only [Store.ofTenant]
    rw [filter_insert (p := fun r => decide (r.tenantId = e)) (hhidden _ hw.1) hrows]
  | addWorkspace r =>
    obtain ⟨_, _, hok⟩ := bind_eq_ok_iff.mp hok
    obtain ⟨rows, hrows, hs'⟩ := bind_eq_ok_iff.mp hok
    cases hs'
    simp only [Store.ofTenant]
    rw [filter_insert (p := fun r => decide (r.tenantId = e)) (hhidden _ hw.1) hrows]
  | addBinding sessionId workspaceId =>
    obtain ⟨rows, hrows, hs'⟩ := bind_eq_ok_iff.mp hok
    cases hs'
    simp only [Store.ofTenant]
    rw [filter_insert (p := fun b => decide (owner b.1 = e)) (hhidden _ hw.1) hrows]
  | removeBinding sessionId workspaceId =>
    simp only [Store.write] at hok
    split_ifs at hok
    cases hok
    have hkept : ∀ b ∈ s.bindings.filter fun b => decide (owner b.1 = e),
        decide (b ≠ (sessionId, workspaceId)) = true := by
      intro b hb
      have howner : owner b.1 = e := of_decide_eq_true (List.mem_filter.mp hb).2
      refine decide_eq_true ?_
      intro heq
      rw [heq] at howner
      exact hne (howner.symm.trans hw)
    simp only [Store.ofTenant]
    rw [List.filter_comm, List.filter_eq_self.mpr hkept]
  | addTask r =>
    obtain ⟨rows, hrows, hs'⟩ := bind_eq_ok_iff.mp hok
    cases hs'
    simp only [Store.ofTenant]
    rw [filter_insert (p := fun r => decide (r.tenantId = e)) (hhidden _ hw.1) hrows]
  | addMessage r =>
    obtain ⟨rows, hrows, hs'⟩ := bind_eq_ok_iff.mp hok
    cases hs'
    simp only [Store.ofTenant]
    rw [filter_insert (p := fun r => decide (r.tenantId = e)) (hhidden _ hw.1) hrows]
  | setSession id columns =>
    cases hok
    simp only [Store.ofTenant]
    rw [filter_map_of_hidden]
    intro r hr
    split_ifs with hid
    · have htenant : r.tenantId = d := (h.sessions r hr).symm.trans (hid ▸ hw)
      exact Or.inr ⟨hhidden _ htenant, hhidden _ htenant⟩
    · exact Or.inl rfl
  | setMetadata id metadata =>
    cases hok
    simp only [Store.ofTenant]
    rw [filter_map_of_hidden]
    intro r hr
    split_ifs with hid
    · have htenant : r.tenantId = d := (h.messages r hr).symm.trans (hid ▸ hw)
      exact Or.inr ⟨hhidden _ htenant, hhidden _ htenant⟩
    · exact Or.inl rfl

variable {writes : List Write}

theorem writes_ok (h : s.Owned owner) (hw : ∀ w ∈ writes, w.OfTenant owner d)
    (hok : writes.foldlM Store.write s = .ok s') :
    s'.Owned owner ∧ ∀ e, e ≠ d → s'.ofTenant owner e = s.ofTenant owner e := by
  induction writes generalizing s with
  | nil =>
    cases hok
    exact ⟨h, fun _ _ => rfl⟩
  | cons w writes ih =>
    rw [List.foldlM_cons] at hok
    obtain ⟨t, ht, hrest⟩ := bind_eq_ok_iff.mp hok
    have hfirst := hw w List.mem_cons_self
    obtain ⟨howned, hothers⟩ := ih (h.write hfirst ht) (fun w' hw' => hw w' (List.mem_cons_of_mem _ hw')) hrest
    exact ⟨howned, fun e he => (hothers e he).trans (ofTenant_write h hfirst he ht)⟩

theorem writes_ofTenant (h : s.Owned owner) (hw : ∀ w ∈ writes, w.OfTenant owner d) :
    writes.foldlM Store.write (s.ofTenant owner d) = (writes.foldlM Store.write s).map (Store.ofTenant owner d) := by
  induction writes generalizing s with
  | nil => rfl
  | cons w writes ih =>
    have hfirst := hw w List.mem_cons_self
    rw [List.foldlM_cons, List.foldlM_cons, write_ofTenant h hfirst]
    cases ht : s.write w with
    | error e => rfl
    | ok t => exact ih (h.write hfirst ht) fun w' hw' => hw w' (List.mem_cons_of_mem _ hw')

end Writes

/-! ## Statements -/

section Statements
variable {owner : String → String} {d : String}

/-- A query that finds the same among the rows of the tenant. -/
theorem reads_of {β : Type} {f : Store → β} (hf : ∀ s, s.Owned owner → f (s.ofTenant owner d) = f s) :
    (views owner).Reads d f := by
  intro s t h
  have hsame : s.ofTenant owner d = t.ofTenant owner d := h.same
  rw [← hf s h.left, hsame, hf t h.right]

theorem safe_query {β : Type} {f : Store → β} (hf : ∀ s, s.Owned owner → f (s.ofTenant owner d) = f s) :
    (views owner).Safe d (fun _ => True) (Thread.query f : Route β) :=
  Safe.query (reads_of hf) fun _ _ => trivial

theorem safe_commit {writes : List Write} (hw : ∀ w ∈ writes, w.OfTenant owner d) :
    (views owner).Safe d (fun _ => True) (commit writes) := by
  refine Safe.attempt ⟨?_, ?_, ?_⟩
  · intro s s' hs hok
    exact (writes_ok hs hw hok).1
  · intro s t h
    have hsame : s.ofTenant owner d = t.ofTenant owner d := h.same
    change (writes.foldlM Store.write s).map (Store.ofTenant owner d) =
      (writes.foldlM Store.write t).map (Store.ofTenant owner d)
    rw [← writes_ofTenant h.left hw, ← writes_ofTenant h.right hw, hsame]
  · intro s s' e hs hok he
    exact (writes_ok hs hw hok).2 e he

theorem safe_commitOne {w : Write} (hw : w.OfTenant owner d) :
    (views owner).Safe d (fun _ => True) (commit [w]) := by
  refine safe_commit ?_
  intro w' hw'
  rw [List.mem_singleton.mp hw']
  exact hw

theorem ofTenant_publish (s : Store) (p : Publication) (e : String) :
    ({ s with published := s.published ++ [p] } : Store).ofTenant owner e =
      { s.ofTenant owner e with
        published := (s.ofTenant owner e).published ++
          if p.data.lookup "tenant_id" = some (.str e) then [p] else [] } := by
  simp only [Store.ofTenant, List.filter_append, List.filter_singleton, Bool.cond_decide]

theorem safe_publish (stream : String) {data : Fields} (hdata : data.lookup "tenant_id" = none) :
    (views owner).Safe d (fun _ => True) (publish stream d data) := by
  have hlookup : (data ++ [("tenant_id", Json.str d)]).lookup "tenant_id" = some (.str d) := by
    rw [List.lookup_append, hdata]
    rfl
  refine Safe.attempt ⟨?_, ?_, ?_⟩
  · intro s s' hs hok
    cases hok
    exact { hs with }
  · intro s t h
    have hsame : s.ofTenant owner d = t.ofTenant owner d := h.same
    refine congrArg Except.ok ?_
    change Store.ofTenant owner d _ = Store.ofTenant owner d _
    rw [ofTenant_publish, ofTenant_publish, hsame]
  · intro s s' e hs hok he
    cases hok
    change Store.ofTenant owner e _ = Store.ofTenant owner e s
    have hother : some (Json.str d) ≠ some (.str e) := fun heq => he (Json.str.inj (Option.some.inj heq)).symm
    rw [ofTenant_publish, hlookup, if_neg hother, List.append_nil]

theorem safe_ofExcept {α : Type} (result : Except PyError α) :
    (views owner).Safe d (fun a => result = .ok a) (Route.ofExcept result) := by
  refine .done ?_
  intro a ha
  exact ha

/-! ## Queries -/

/-- What was loaded is the tenant's. -/
structure Mine (owner : String → String) (d : String) (loaded : Loaded) : Prop where
  session : owner loaded.session.id = d
  workspaces : ∀ w ∈ loaded.workspaces, owner w.id = d

variable {s : Store}

theorem load_ofTenant (h : s.Owned owner) {session : SessionModel} (hsession : owner session.id = d) :
    (s.ofTenant owner d).load session = s.load session := by
  unfold Store.load Store.ofTenant
  have hbindings : (s.bindings.filter fun b => decide (owner b.1 = d)).filter (fun b => decide (b.1 = session.id)) =
      s.bindings.filter fun b => decide (b.1 = session.id) := by
    refine filter_filter_of_imp ?_
    intro b _ hb
    rw [of_decide_eq_true hb]
    exact decide_eq_true hsession
  simp only [hbindings, Loaded.mk.injEq, true_and]
  refine List.filterMap_congr ?_
  intro b hb
  obtain ⟨hmem, hb⟩ := List.mem_filter.mp hb
  refine find?_filter_of_imp ?_
  intro w hw hid
  have howner : owner b.2 = d := by
    rw [← h.bindings b hmem, of_decide_eq_true hb]
    exact hsession
  refine decide_eq_true ?_
  rw [← h.workspaces w hw, of_decide_eq_true hid]
  exact howner

theorem mine_load (h : s.Owned owner) {session : SessionModel} (hsession : owner session.id = d) :
    Mine owner d (s.load session) := by
  refine ⟨hsession, ?_⟩
  intro w hw
  obtain ⟨b, hb, hfound⟩ := List.mem_filterMap.mp hw
  obtain ⟨hmem, hb⟩ := List.mem_filter.mp hb
  have hid : w.id = b.2 := by simpa using List.find?_some hfound
  rw [hid, ← h.bindings b hmem, of_decide_eq_true hb]
  exact hsession

theorem session_owner (h : s.Owned owner) {sessionId : String} {session : SessionModel}
    (hfound : (s.sessions.find? fun r => decide (r.id = sessionId ∧ r.tenantId = d)) = some session) :
    owner session.id = d := by
  have hrow : session.id = sessionId ∧ session.tenantId = d := by simpa using List.find?_some hfound
  rw [h.sessions session (List.mem_of_find?_eq_some hfound)]
  exact hrow.2

theorem findSession_ofTenant (h : s.Owned owner) (sessionId : String) :
    (s.ofTenant owner d).findSession sessionId d = s.findSession sessionId d := by
  have hfind : (s.ofTenant owner d).sessions.find? (fun r => decide (r.id = sessionId ∧ r.tenantId = d)) =
      s.sessions.find? fun r => decide (r.id = sessionId ∧ r.tenantId = d) := by
    refine find?_filter_of_imp ?_
    intro r _ hr
    exact decide_eq_true (of_decide_eq_true hr).2
  unfold Store.findSession
  rw [hfind]
  cases hfound : s.sessions.find? fun r => decide (r.id = sessionId ∧ r.tenantId = d) with
  | none => rfl
  | some session => exact congrArg some (load_ofTenant h (session_owner h hfound))

theorem safe_findSession (sessionId : String) :
    (views owner).Safe d (fun found => ∀ loaded, found = some loaded → Mine owner d loaded)
      (Thread.query (fun s => s.findSession sessionId d) : Route (Option Loaded)) := by
  refine Safe.query (reads_of fun s hs => findSession_ofTenant hs sessionId) ?_
  intro s hs loaded hloaded
  obtain ⟨session, hfound, rfl⟩ := Option.map_eq_some_iff.mp hloaded
  exact mine_load hs (session_owner hs hfound)

theorem safe_getSessionOr404 (sessionId : String) :
    (views owner).Safe d (Mine owner d) (getSessionOr404 sessionId d) := by
  unfold getSessionOr404
  refine Safe.bind (safe_findSession sessionId) ?_
  intro found hfound
  cases found with
  | none => exact Safe.throw _
  | some loaded => exact Safe.pure (hfound loaded rfl)

theorem safe_refresh {sessionId : String} (hsession : owner sessionId = d) :
    (views owner).Safe d (Mine owner d) (refresh sessionId) := by
  have howner : ∀ {s : Store} {session : SessionModel}, (s.sessions.find? fun r => decide (r.id = sessionId)) =
      some session → owner session.id = d := by
    intro s session hfound
    have hid : session.id = sessionId := by simpa using List.find?_some hfound
    rw [hid]
    exact hsession
  unfold refresh
  refine Safe.bind (Q := fun found => ∀ loaded, found = some loaded → Mine owner d loaded)
    (Safe.query (reads_of ?_) ?_) ?_
  · intro s hs
    have hfind : (s.ofTenant owner d).sessions.find? (fun r => decide (r.id = sessionId)) =
        s.sessions.find? fun r => decide (r.id = sessionId) := by
      refine find?_filter_of_imp ?_
      intro r hr hid
      refine decide_eq_true ?_
      rw [← hs.sessions r hr, of_decide_eq_true hid]
      exact hsession
    rw [hfind]
    cases hfound : s.sessions.find? fun r => decide (r.id = sessionId) with
    | none => rfl
    | some session => exact congrArg some (load_ofTenant hs (howner hfound))
  · intro s hs loaded hloaded
    obtain ⟨session, hfound, rfl⟩ := Option.map_eq_some_iff.mp hloaded
    exact mine_load hs (howner hfound)
  · intro found hfound
    cases found with
    | none => exact Safe.throw _
    | some loaded => exact Safe.pure (hfound loaded rfl)

theorem messagesOf_ofTenant (s : Store) (sessionId : String) :
    (s.ofTenant owner d).messagesOf sessionId d = s.messagesOf sessionId d := by
  unfold Store.messagesOf Store.ofTenant
  refine congrArg _ (filter_filter_of_imp ?_)
  intro r _ hr
  exact decide_eq_true (of_decide_eq_true hr).2

theorem findMessage_ofTenant (s : Store) (messageId sessionId : String) :
    (s.ofTenant owner d).messages.find? (fun r => decide (r.id = messageId ∧ r.sessionId = sessionId ∧ r.tenantId = d)) =
      s.messages.find? fun r => decide (r.id = messageId ∧ r.sessionId = sessionId ∧ r.tenantId = d) := by
  refine find?_filter_of_imp ?_
  intro r _ hr
  exact decide_eq_true (of_decide_eq_true hr).2.2

theorem safe_findMessage (messageId sessionId : String) :
    (views owner).Safe d (fun found => ∀ r, found = some r → owner r.id = d)
      (Thread.query (fun s => s.messages.find? fun r =>
        decide (r.id = messageId ∧ r.sessionId = sessionId ∧ r.tenantId = d)) : Route (Option MessageModel)) := by
  refine Safe.query (reads_of fun s _ => findMessage_ofTenant s messageId sessionId) ?_
  intro s hs r hfound
  have hrow : r.id = messageId ∧ r.sessionId = sessionId ∧ r.tenantId = d := by simpa using List.find?_some hfound
  exact (hs.messages r (List.mem_of_find?_eq_some hfound)).trans hrow.2.2

theorem safe_prepareWorkspaces (m : Machine) (workspaces : List WorkspaceBinding) (fresh : Fresh) :
    (views owner).Safe d (fun _ => True) (prepareWorkspaces m d workspaces fresh) := by
  unfold prepareWorkspaces
  split_ifs
  · exact Safe.pure trivial
  · exact Safe.throw _

theorem safe_mountRepository (m : Machine) (ws : WorkspaceBinding) (context : Fields) (fresh : Fresh) :
    (views owner).Safe d (fun _ => True) (mountRepository m ws context fresh) := by
  unfold mountRepository
  split_ifs
  · refine Safe.bind (safe_ofExcept _) ?_
    intro token _
    cases fresh.mountError with
    | some e => exact Safe.throw _
    | none => exact Safe.pure trivial
  · exact Safe.pure trivial

/-- Rows to add, and workspaces to bind. -/
structure OurWorkspaces (owner : String → String) (d : String) (workspaces added : List WorkspaceModel) : Prop where
  bound : ∀ w ∈ workspaces, owner w.id = d
  added : ∀ w ∈ added, w.tenantId = d ∧ owner w.id = d

theorem safe_getOrCreateWorkspace (data : WorkspaceRow) {id : String} (hid : owner id = d) {added : List WorkspaceModel}
    (hadded : ∀ w ∈ added, w.tenantId = d ∧ owner w.id = d) :
    (views owner).Safe d (fun r => OurWorkspaces owner d [r.1] r.2) (getOrCreateWorkspace d data id added) := by
  unfold getOrCreateWorkspace
  refine Safe.bind (Q := fun found => ∀ w, found = some w → owner w.id = d) (Safe.query (reads_of ?_) ?_) ?_
  · intro s _
    have hfind : (s.ofTenant owner d).workspaces.find? (fun w => decide (w.tenantId = d ∧ w.slug = data.slug)) =
        s.workspaces.find? fun w => decide (w.tenantId = d ∧ w.slug = data.slug) := by
      refine find?_filter_of_imp ?_
      intro w _ hw
      exact decide_eq_true (of_decide_eq_true hw).1
    rw [List.find?_append, List.find?_append, hfind]
  · intro s hs w hfound
    have hrow : w.tenantId = d ∧ w.slug = data.slug := by simpa using List.find?_some hfound
    rcases List.mem_append.mp (List.mem_of_find?_eq_some hfound) with hw | hw
    · exact (hs.workspaces w hw).trans hrow.1
    · exact (hadded w hw).2
  · intro found hfound
    cases found with
    | some w => exact Safe.pure ⟨by simpa using hfound w rfl, hadded⟩
    | none =>
      refine Safe.pure ⟨by simpa [newWorkspace] using hid, ?_⟩
      simpa [or_imp, forall_and, newWorkspace, hid] using hadded

theorem safe_getOrCreateAll {id : ℕ → String} (hid : ∀ i, owner (id i) = d) (rows : List WorkspaceRow) (i : ℕ)
    {added : List WorkspaceModel} (hadded : ∀ w ∈ added, w.tenantId = d ∧ owner w.id = d) :
    (views owner).Safe d (fun r => OurWorkspaces owner d r.1 r.2) (getOrCreateAll d id i rows added) := by
  induction rows generalizing i added with
  | nil => exact Safe.pure ⟨by simp, hadded⟩
  | cons data rest ih =>
    unfold getOrCreateAll
    refine Safe.bind (safe_getOrCreateWorkspace data (hid i) hadded) ?_
    rintro ⟨w, added'⟩ hw
    refine Safe.bind (ih (i + 1) hw.added) ?_
    rintro ⟨later, added''⟩ hlater
    refine Safe.pure ⟨?_, hlater.added⟩
    intro w' hw'
    rcases List.mem_cons.mp hw' with rfl | hw'
    · exact hw.bound w' (List.mem_singleton_self w')
    · exact hlater.bound w' hw'

theorem newSession_ofTenant {session : SessionModel} {workspaces added : List WorkspaceModel}
    (htenant : session.tenantId = d) (hid : owner session.id = d) (h : OurWorkspaces owner d workspaces added) :
    ∀ w ∈ newSession session workspaces added, w.OfTenant owner d := by
  intro w hw
  unfold newSession at hw
  simp only [List.mem_append, List.mem_map, List.mem_singleton] at hw
  rcases hw with (⟨r, hr, rfl⟩ | rfl) | ⟨r, hr, rfl⟩
  · exact h.added r hr
  · exact ⟨htenant, hid⟩
  · exact ⟨hid, h.bound r hr⟩

end Statements

/-! ## Routes -/

section Routes
variable {owner : String → String} (m : Machine) (user : TokenPayload) {fresh : Fresh}
  (hid : ∀ i, owner (fresh.id i) = user.tenantId)
include hid

theorem safe_createSession (req : SessionCreateRequest) :
    (views owner).Safe user.tenantId (fun _ => True) (createSession m user req fresh) := by
  unfold createSession
  refine Safe.bind (safe_prepareWorkspaces m req.workspaces fresh) ?_
  intro rows _
  refine Safe.bind (safe_getOrCreateAll hid rows 1 (by simp)) ?_
  rintro ⟨workspaces, added⟩ hours
  refine Safe.bind (safe_commit (newSession_ofTenant rfl (hid 0) hours)) ?_
  intro _ _
  exact Safe.returns (safe_refresh (hid 0)) _

theorem safe_forkSession (sessionId messageId : String) :
    (views owner).Safe user.tenantId (fun _ => True) (forkSession m user sessionId messageId fresh) := by
  unfold forkSession
  refine Safe.bind (safe_getSessionOr404 sessionId) ?_
  intro old _
  split_ifs
  · exact Safe.throw_bind _ _
  refine Safe.bind (safe_prepareWorkspaces m [] fresh) ?_
  intro rows _
  refine Safe.bind (safe_getOrCreateAll hid rows 1 (by simp)) ?_
  rintro ⟨workspaces, added⟩ hours
  have hsession : ∀ w ∈ newSession ⟨fresh.id 0, user.tenantId, user.organizationId, user.userId,
      old.session.name ++ " (Fork)", old.session.mode, old.session.userRole, [], true, fresh.time 0, fresh.time 1⟩
      workspaces added, w.OfTenant owner user.tenantId :=
    newSession_ofTenant rfl (hid 0) hours
  refine Safe.bind (safe_findMessage messageId sessionId) ?_
  intro branch _
  cases branch with
  | none =>
    refine Safe.bind (safe_commit hsession) ?_
    intro _ _
    exact Safe.returns (safe_refresh (hid 0)) _
  | some branch =>
    refine Safe.bind (safe_query ?_) ?_
    · intro s _
      rw [messagesOf_ofTenant]
    · intro messages _
      refine Safe.bind (safe_commit ?_) ?_
      · intro w hw
        rcases List.mem_append.mp hw with hw | hw
        · exact hsession w hw
        · obtain ⟨i, hi, rfl⟩ := List.mem_mapIdx.mp hw
          exact ⟨rfl, hid (i + 2)⟩
      · intro _ _
        exact Safe.returns (safe_refresh (hid 0)) _

theorem safe_addWorkspace (sessionId : String) (ws : WorkspaceBinding) :
    (views owner).Safe user.tenantId (fun _ => True) (addWorkspace m user sessionId ws fresh) := by
  unfold addWorkspace
  refine Safe.bind (safe_getSessionOr404 sessionId) ?_
  intro loaded hmine
  refine Safe.bind (safe_prepareWorkspaces m [ws] fresh) ?_
  intro rows _
  refine Safe.bind (safe_getOrCreateAll hid rows 0 (by simp)) ?_
  rintro ⟨workspaces, added⟩ hours
  refine Safe.bind (safe_mountRepository m ws loaded.session.context fresh) ?_
  intro _ _
  refine Safe.bind (safe_commit ?_) ?_
  · intro w hw
    simp only [List.mem_append, List.mem_map, List.mem_singleton] at hw
    rcases hw with (⟨r, hr, rfl⟩ | ⟨r, hr, rfl⟩) | rfl
    · exact hours.added r hr
    · exact ⟨hmine.session, hours.bound r (List.mem_filter.mp hr).1⟩
    · exact hmine.session
  · intro _ _
    exact Safe.returns (safe_refresh hmine.session) _

theorem safe_sendChatMessage (req : ChatRequest) :
    (views owner).Safe user.tenantId (fun _ => True) (sendChatMessage user req fresh) := by
  unfold sendChatMessage
  split_ifs
  · exact Safe.throw_bind _ _
  refine Safe.bind (safe_findSession req.sessionId) ?_
  intro found hfound
  cases found with
  | none => exact Safe.throw _
  | some loaded =>
    refine Safe.bind (safe_commit ?_) ?_
    · intro w hw
      simp only [List.mem_cons, List.not_mem_nil, or_false] at hw
      rcases hw with rfl | rfl
      · exact (hfound loaded rfl).session
      · exact ⟨rfl, hid 0⟩
    · intro _ _
      exact Safe.returns (safe_publish "task_queue" rfl) _

theorem safe_dispatchTask (sessionId description : String) :
    (views owner).Safe user.tenantId (fun _ => True) (dispatchTask user sessionId description fresh) := by
  unfold dispatchTask
  refine Safe.bind (safe_findSession sessionId) ?_
  intro found hfound
  cases found with
  | none => exact Safe.throw _
  | some loaded =>
    refine Safe.bind (safe_commitOne ⟨rfl, hid 0⟩) ?_
    intro _ _
    exact Safe.returns (safe_publish "task_queue" rfl) _

theorem safe_persistMessage (message : MessageModel) :
    (views owner).Safe user.tenantId (fun _ => True) (persistMessage user.tenantId message fresh) := by
  unfold persistMessage
  refine Safe.returns (safe_commitOne ?_) _
  exact ⟨rfl, hid 0⟩

omit hid

theorem safe_listSessions : (views owner).Safe user.tenantId (fun _ => True) (listSessions m user) := by
  unfold listSessions
  refine Safe.returns (safe_query ?_) _
  intro s hs
  have hrows : (s.ofTenant owner user.tenantId).sessions.filter
      (fun r => decide (r.tenantId = user.tenantId ∧ r.isActive = true)) =
        s.sessions.filter fun r => decide (r.tenantId = user.tenantId ∧ r.isActive = true) := by
    refine filter_filter_of_imp ?_
    intro r _ hr
    exact decide_eq_true (of_decide_eq_true hr).1
  rw [hrows]
  refine List.map_congr_left ?_
  intro r hr
  obtain ⟨hmem, hr⟩ := List.mem_filter.mp ((List.mem_insertionSort _).mp hr)
  refine load_ofTenant hs ?_
  rw [hs.sessions r hmem]
  exact (of_decide_eq_true hr).1

theorem safe_getSession (sessionId : String) :
    (views owner).Safe user.tenantId (fun _ => True) (getSession m user sessionId) := by
  unfold getSession
  exact Safe.returns (safe_getSessionOr404 sessionId) _

theorem safe_renameSession (sessionId name : String) (fresh : Fresh) :
    (views owner).Safe user.tenantId (fun _ => True) (renameSession user sessionId name fresh) := by
  unfold renameSession
  refine Safe.bind (safe_getSessionOr404 sessionId) ?_
  intro loaded hmine
  refine Safe.returns (safe_commitOne ?_) _
  exact hmine.session

theorem safe_endSession (sessionId : String) :
    (views owner).Safe user.tenantId (fun _ => True) (endSession user sessionId) := by
  unfold endSession
  refine Safe.bind (safe_getSessionOr404 sessionId) ?_
  intro loaded hmine
  refine Safe.returns (safe_commitOne ?_) _
  exact hmine.session

theorem safe_removeWorkspace (sessionId slug : String) (fresh : Fresh) :
    (views owner).Safe user.tenantId (fun _ => True) (removeWorkspace m user sessionId slug fresh) := by
  unfold removeWorkspace
  refine Safe.bind (safe_getSessionOr404 sessionId) ?_
  intro loaded hmine
  dsimp only
  split_ifs
  · exact Safe.throw_bind _ _
  refine Safe.bind (safe_commit ?_) ?_
  · intro w hw
    simp only [List.mem_append, List.mem_map, List.mem_singleton] at hw
    rcases hw with ⟨r, _, rfl⟩ | rfl
    · exact hmine.session
    · exact hmine.session
  · intro _ _
    exact Safe.returns (safe_refresh hmine.session) _

theorem safe_listWorkspaces (sessionId : String) :
    (views owner).Safe user.tenantId (fun _ => True) (listWorkspaces user sessionId) := by
  unfold listWorkspaces
  exact Safe.returns (safe_getSessionOr404 sessionId) _

theorem safe_updateSessionConfig (sessionId : String) (req : SessionConfig.SessionConfigRequest) (fresh : Fresh) :
    (views owner).Safe user.tenantId (fun _ => True) (updateSessionConfig m user sessionId req fresh) := by
  unfold updateSessionConfig
  refine Safe.bind (safe_getSessionOr404 sessionId) ?_
  intro loaded hmine
  refine Safe.bind (safe_ofExcept _) ?_
  intro context _
  refine Safe.bind (safe_commitOne hmine.session) ?_
  intro _ _
  exact Safe.returns (safe_ofExcept _) _

theorem safe_getSessionConfig (sessionId : String) :
    (views owner).Safe user.tenantId (fun _ => True) (getSessionConfig m user sessionId) := by
  unfold getSessionConfig
  refine Safe.bind (safe_getSessionOr404 sessionId) ?_
  intro loaded _
  exact Safe.returns (safe_ofExcept _) _

theorem safe_getChatHistory (sessionId : String) (limit : ℤ) :
    (views owner).Safe user.tenantId (fun _ => True) (getChatHistory m user sessionId limit) := by
  unfold getChatHistory
  refine Safe.bind (safe_findSession sessionId) ?_
  intro found _
  cases found with
  | none => exact Safe.throw _
  | some loaded =>
    refine Safe.returns (safe_query ?_) _
    intro s _
    rw [messagesOf_ofTenant]

theorem safe_approveToolCall (sessionId messageId decision : String) :
    (views owner).Safe user.tenantId (fun _ => True) (approveToolCall user sessionId messageId decision) := by
  unfold approveToolCall
  refine Safe.bind (safe_findMessage messageId sessionId) ?_
  intro found hfound
  cases found with
  | none => exact Safe.throw _
  | some message =>
    have hmine : owner message.id = user.tenantId := hfound message rfl
    refine Safe.bind (safe_ofExcept _) ?_
    intro metadata _
    split_ifs
    · refine Safe.bind (safe_ofExcept _) ?_
      intro denied _
      refine Safe.returns (safe_commitOne ?_) _
      exact hmine
    · refine Safe.bind (safe_ofExcept _) ?_
      rintro ⟨name, args, metadata⟩ _
      refine Safe.bind (safe_ofExcept _) ?_
      intro approved _
      refine Safe.bind (safe_commitOne hmine) ?_
      intro _ _
      exact Safe.returns (safe_publish "execution_queue" rfl) _

theorem safe_listTasks : (views owner).Safe user.tenantId (fun _ => True) (listTasks m user) := by
  unfold listTasks
  refine Safe.returns (safe_query ?_) _
  intro s _
  rw [show (s.ofTenant owner user.tenantId).tasks.filter (fun r => decide (r.tenantId = user.tenantId)) =
    s.tasks.filter fun r => decide (r.tenantId = user.tenantId) from filter_filter_of_imp fun _ _ h => h]

theorem safe_taskBelongsToTenant (taskId : String) :
    (views owner).Safe user.tenantId (fun _ => True) (taskBelongsToTenant taskId user.tenantId) := by
  unfold taskBelongsToTenant
  refine Safe.returns (safe_query ?_) _
  intro s _
  unfold Store.ofTenant
  rw [List.any_filter]
  refine congrArg s.tasks.any (funext ?_)
  intro r
  by_cases htenant : r.tenantId = user.tenantId <;> simp [htenant]

end Routes

theorem safe_route {owner : String → String} (m : Machine) (user : TokenPayload) {fresh : Fresh}
    (hid : ∀ i, owner (fresh.id i) = user.tenantId) (request : Request) :
    (views owner).Safe user.tenantId (fun _ => True) (route m user fresh request) := by
  cases request with
  | createSession req => exact safe_createSession m user hid req
  | listSessions => exact safe_listSessions m user
  | getSession sessionId => exact safe_getSession m user sessionId
  | renameSession sessionId name => exact safe_renameSession user sessionId name fresh
  | endSession sessionId => exact safe_endSession user sessionId
  | forkSession sessionId messageId => exact safe_forkSession m user hid sessionId messageId
  | addWorkspace sessionId ws => exact safe_addWorkspace m user hid sessionId ws
  | removeWorkspace sessionId slug => exact safe_removeWorkspace m user sessionId slug fresh
  | listWorkspaces sessionId => exact safe_listWorkspaces user sessionId
  | updateSessionConfig sessionId req => exact safe_updateSessionConfig m user sessionId req fresh
  | getSessionConfig sessionId => exact safe_getSessionConfig m user sessionId
  | sendChatMessage req => exact safe_sendChatMessage user hid req
  | getChatHistory sessionId limit => exact safe_getChatHistory m user sessionId limit
  | approveToolCall sessionId messageId decision => exact safe_approveToolCall user sessionId messageId decision
  | dispatchTask sessionId description => exact safe_dispatchTask user hid sessionId description
  | listTasks => exact safe_listTasks m user
  | taskBelongsToTenant taskId => exact safe_taskBelongsToTenant user taskId
  | persistMessage message => exact safe_persistMessage user hid message

/-! ## Runs -/

/-- No identifier is drawn for two tenants. -/
def Drawn (ls : List (Concurrent.Label Key (Request × Fresh))) : Prop :=
  ∀ key request fresh key' request' fresh', .starts key (request, fresh) ∈ ls → .starts key' (request', fresh') ∈ ls →
    ∀ i j, fresh.id i = fresh'.id j → key.user.tenantId = key'.user.tenantId

theorem Drawn.exists_owner {ls : List (Concurrent.Label Key (Request × Fresh))} (h : Drawn ls) :
    ∃ owner : String → String, ∀ key request fresh, .starts key (request, fresh) ∈ ls →
      ∀ i, owner (fresh.id i) = key.user.tenantId := by
  classical
  have hchoose : ∀ id, ∃ tenantId, ∀ key request fresh, .starts key (request, fresh) ∈ ls →
      ∀ i, fresh.id i = id → tenantId = key.user.tenantId := by
    intro id
    by_cases hdrawn : ∃ key request fresh i, .starts key (request, fresh) ∈ ls ∧ fresh.id i = id
    · obtain ⟨key, request, fresh, i, hmem, rfl⟩ := hdrawn
      refine ⟨key.user.tenantId, ?_⟩
      intro key' request' fresh' hmem' j hsame
      exact h _ _ _ _ _ _ hmem hmem' i j hsame.symm
    · refine ⟨"", ?_⟩
      intro key request fresh hmem i hid
      exact absurd ⟨key, request, fresh, i, hmem, hid⟩ hdrawn
  choose owner howner using hchoose
  exact ⟨owner, fun key request fresh hmem i => howner _ key request fresh hmem i rfl⟩

def tenantOf (key : Key) : String := key.user.tenantId

/-- What the tables have of a tenant, and what was published for it. -/
structure Rows where
  sessions : List SessionModel
  workspaces : List WorkspaceModel
  bindings : List (String × String)
  tasks : List TaskModel
  messages : List MessageModel
  published : List Publication
deriving DecidableEq

/-- The rows of a tenant, with the bindings of its sessions. -/
def Store.rowsOf (tenantId : String) (s : Store) : Rows where
  sessions := s.sessions.filter fun r => decide (r.tenantId = tenantId)
  workspaces := s.workspaces.filter fun r => decide (r.tenantId = tenantId)
  bindings := s.bindings.filter fun b => s.sessions.any fun r => decide (r.id = b.1 ∧ r.tenantId = tenantId)
  tasks := s.tasks.filter fun r => decide (r.tenantId = tenantId)
  messages := s.messages.filter fun r => decide (r.tenantId = tenantId)
  published := s.published.filter fun p => decide (p.data.lookup "tenant_id" = some (.str tenantId))

/-- What the view of a tenant has are its rows. -/
theorem Store.Owned.rowsOf_ofTenant {owner : String → String} {s : Store} (h : s.Owned owner) (tenantId : String) :
    (s.ofTenant owner tenantId).rowsOf tenantId = s.rowsOf tenantId := by
  have hsession : ∀ b : String × String, ((s.sessions.filter fun r => decide (r.tenantId = tenantId)).any
      fun r => decide (r.id = b.1 ∧ r.tenantId = tenantId)) =
        s.sessions.any fun r => decide (r.id = b.1 ∧ r.tenantId = tenantId) := by
    intro b
    rw [List.any_filter]
    refine congrArg s.sessions.any (funext fun r => ?_)
    by_cases htenant : r.tenantId = tenantId <;> simp [htenant]
  -- the identifier of a session of the tenant was drawn for it
  have howner : ∀ b ∈ s.bindings, (s.sessions.any fun r => decide (r.id = b.1 ∧ r.tenantId = tenantId)) = true →
      decide (owner b.1 = tenantId) = true := by
    intro b _ hany
    obtain ⟨r, hr, hmine⟩ := List.any_eq_true.mp hany
    obtain ⟨hid, htenant⟩ := of_decide_eq_true hmine
    exact decide_eq_true (hid ▸ (h.sessions r hr).trans htenant)
  have hbindings := filter_filter_of_imp howner
  simp only [Store.rowsOf, Store.ofTenant, hsession]
  rw [hbindings]
  simp only [List.filter_filter, Bool.and_self]

/-- **However the statements of all requests are interleaved: the answers that a tenant gets, its rows and what is
published for it are those of the run in which only its own requests are made.** -/
theorem tenant_alone (m : Machine) {ls : List (Concurrent.Label Key (Request × Fresh))} (hdrawn : Drawn ls) {w : World}
    (hrun : exec (step m) (Concurrent.init Store.init) ls = some w) (tenantId : String) :
    ∃ v, exec (step m) (Concurrent.init Store.init) (Concurrent.only tenantOf tenantId ls) = some v ∧
      Concurrent.answers tenantOf tenantId v = Concurrent.answers tenantOf tenantId w ∧
      v.shared.rowsOf tenantId = w.shared.rowsOf tenantId := by
  obtain ⟨owner, howner⟩ := hdrawn.exists_owner
  have hgood : (views owner).good Store.init := by
    refine ⟨?_, ?_, ?_, ?_, ?_⟩ <;> simp [Store.init]
  have hstart : Concurrent.Kept tenantOf (views owner) (Concurrent.init Store.init : World) :=
    Concurrent.Kept.init hgood
  have hprogram : ∀ key request, .starts key request ∈ ls →
      (views owner).Confined (tenantOf key) (fun _ => True) (program m key request) := by
    rintro key ⟨request, fresh⟩ hmem
    exact Views.Confined.mono (safe_route m key.user (howner key request fresh hmem) request) fun _ _ => trivial
  obtain ⟨v, hv, hagree⟩ := Concurrent.exec_only hstart hstart (Concurrent.Agree.refl tenantId _) hprogram hrun
  refine ⟨v, hv, hagree.ended.symm, ?_⟩
  have hkept : Concurrent.Kept tenantOf (views owner) w := hstart.exec hprogram hrun
  have hkeptOnly : Concurrent.Kept tenantOf (views owner) v :=
    hstart.exec (fun key request hmem => hprogram key request (List.mem_of_mem_filter hmem)) hv
  have hsame : w.shared.ofTenant owner tenantId = v.shared.ofTenant owner tenantId := hagree.shared
  rw [← hkeptOnly.good.rowsOf_ofTenant, ← hkept.good.rowsOf_ofTenant, hsame]

/-! ## Two tenants at once -/

def server : Machine where
  toMachine := WorkspaceRoots.openMachine
  runtime := ⟨⟨fun _ data => "gAAAA" ++ data, fun data => some (String.ofList (data.toList.drop 5))⟩, fun _ => .ok []⟩
  limits := .unlimited
  isoformat := toString

def drawnBy (tenantId : String) : Fresh where
  id := fun i => if i = 0 then "s-" ++ tenantId else "w-" ++ tenantId
  hex := fun _ => "0123456789abcdef"
  time := Nat.cast
  entropy := fun i => i
  admitted := true
  made := true
  mountError := none

def alice : TokenPayload := ⟨⟨"acme", "alice", none⟩, "developer"⟩

def bob : TokenPayload := ⟨⟨"globex", "bob", none⟩, "developer"⟩

/-- Both create a session with a workspace of one name, turn by turn, and Alice asks for her sessions meanwhile. -/
def twoTenants : List (Concurrent.Label Key (Request × Fresh)) :=
  let web : Request := .createSession ⟨"Web", [⟨⟨"local", none, none, some "web"⟩, "main"⟩], "web"⟩
  [.starts ⟨alice, 0⟩ (web, drawnBy "acme"), .starts ⟨bob, 0⟩ (web, drawnBy "globex"),
    .resumes ⟨alice, 0⟩, .resumes ⟨bob, 0⟩, .resumes ⟨bob, 0⟩, .resumes ⟨alice, 0⟩, .resumes ⟨alice, 0⟩,
    .resumes ⟨alice, 0⟩, .resumes ⟨bob, 0⟩, .starts ⟨alice, 1⟩ (.listSessions, drawnBy "acme"), .resumes ⟨bob, 0⟩,
    .resumes ⟨alice, 1⟩, .resumes ⟨alice, 1⟩]

theorem isSome_twoTenants : (exec (step server) (Concurrent.init Store.init) twoTenants).isSome = true := by
  decide +kernel

def served : World := (exec (step server) (Concurrent.init Store.init) twoTenants).get isSome_twoTenants

theorem drawnBy_inj {a b : String} {i j : ℕ} (h : (drawnBy a).id i = (drawnBy b).id j) : a = b := by
  have hchars := congrArg String.toList h
  simp only [drawnBy] at hchars
  split at hchars <;> split at hchars
  · exact String.ext (by simpa using hchars)
  · simp at hchars
  · simp at hchars
  · exact String.ext (by simpa using hchars)

theorem drawn_twoTenants : Drawn twoTenants := by
  have hby : ∀ key request fresh, .starts key (request, fresh) ∈ twoTenants →
      fresh = drawnBy key.user.tenantId := by
    intro key request fresh hmem
    simp only [twoTenants, List.mem_cons, List.not_mem_nil, reduceCtorEq, Concurrent.Label.starts.injEq,
      Prod.mk.injEq, or_false, false_or] at hmem
    rcases hmem with ⟨rfl, -, rfl⟩ | ⟨rfl, -, rfl⟩ | ⟨rfl, -, rfl⟩ <;> rfl
  intro key request fresh key' request' fresh' hmem hmem' i j hid
  rw [hby _ _ _ hmem, hby _ _ _ hmem'] at hid
  exact drawnBy_inj hid

theorem alice_sees_her_session :
    served.shared.sessions.map SessionModel.id = ["s-globex", "s-acme"] ∧
      ∃ v, exec (step server) (Concurrent.init Store.init) (Concurrent.only tenantOf "acme" twoTenants) = some v ∧
        Concurrent.answers tenantOf "acme" v = Concurrent.answers tenantOf "acme" served ∧
        v.shared.rowsOf "acme" = served.shared.rowsOf "acme" := by
  have hrun : exec (step server) (Concurrent.init Store.init) twoTenants = some served :=
    (Option.some_get isSome_twoTenants).symm
  exact ⟨by decide +kernel, tenant_alone server drawn_twoTenants hrun "acme"⟩

end KernelRuntime.SessionRoutes
