import KernelRuntime.Resilience.ProtectedCalls

/-! # Recovery of the circuit breaker

An open breaker waits for its timeout, a breaker on trial for the result of its probes. A trial that may end before
the successes are enough leaves nobody to ask. -/

namespace KernelRuntime.ProtectedCalls
open Resilience Resilience.CircuitBreaker
set_option autoImplicit false

/-! ## Shipped configurations -/

def llmCircuitBreaker (ε : Type) : CircuitBreakerConfig ε :=
  { failureThreshold := 3, successThreshold := 2, timeout := 30, exceptionsToTrack := fun _ => true }

def sandboxCircuitBreaker (ε : Type) : CircuitBreakerConfig ε :=
  { failureThreshold := 5, successThreshold := 3, timeout := 60, exceptionsToTrack := fun _ => true }

def databaseCircuitBreaker (ε : Type) : CircuitBreakerConfig ε :=
  { failureThreshold := 10, successThreshold := 5, timeout := 120, exceptionsToTrack := fun _ => true }

section Recovery
variable {ε : Type} (c : CircuitBreakerConfig ε)

def Idle (s : State) : Prop := ∀ id, s.running.get? id = none

/-- At some later time `can_execute` returns True. -/
def Admits (s : State) : Prop := ∃ now, s.clock ≤ now ∧ (canExecute c s.breaker now).1 = true

/-- In every reachable state some future call may pass, and without any result if no call is running. -/
def NeverLockedOut (t0 : ℚ) : Prop :=
  ∀ is s, exec (step c) (State.init t0) is = some s →
    (Idle s → Admits c s) ∧ ∃ js s', exec (step c) s js = some s' ∧ Admits c s'

variable {c} {s s' : State}

/-! ## Why it recovers -/

/-- An open breaker knows when it failed last; a time of zero would count as none. -/
def Stamped (b : CircuitBreaker) : Prop := b.state = .opened → ∃ t ∈ b.lastFailureTime, 0 < t

theorem Stamped.call {b : CircuitBreaker} {now : ℚ} (h : Stamped b) (hnow : 0 < now) (m : Method ε) :
    Stamped (Resilience.call c b now m) := by
  intro hopened
  cases m with
  | canExecute =>
    cases hb : b.state with
    | closed =>
      rw [Resilience.call, canExecute_closed hb, hb] at hopened
      cases hopened
    | halfOpen =>
      rw [Resilience.call, canExecute_halfOpen hb, hb] at hopened
      cases hopened
    | opened =>
      rcases @canExecute_opened _ c _ now hb with ⟨_, _, hsame⟩ | ⟨_, _, _, hpass⟩
      · rw [Resilience.call, hsame]
        exact h hb
      · rw [Resilience.call, hpass] at hopened
        cases hopened
  | recordSuccess =>
    by_cases hb : b.state = .halfOpen
    · rcases recordSuccess_halfOpen (c := c) hb with ⟨_, hclosed, _⟩ | ⟨_, hstays, _⟩
      · cases hclosed.symm.trans hopened
      · cases hstays.symm.trans hopened
    · obtain ⟨hstate, _, htime⟩ := recordSuccess_of_ne (c := c) hb
      rw [Resilience.call, htime]
      exact h (hstate.symm.trans hopened)
  | recordFailure e =>
    by_cases htracked : c.exceptionsToTrack e
    · exact ⟨now, lastFailureTime_recordFailure htracked, hnow⟩
    · rw [Resilience.call, recordFailure_untracked (Bool.not_eq_true _ ▸ htracked)] at hopened ⊢
      exact h hopened

theorem Stamped.run {t0 : ℚ} (ht : 0 < t0) {is : List (Label ε)}
    (hrun : exec (step c) (State.init t0) is = some s) : 0 < s.clock ∧ Stamped s.breaker := by
  have hkeep : ∀ s i s', 0 < s.clock ∧ Stamped s.breaker → step c s i = some s' → 0 < s'.clock ∧ Stamped s'.breaker := by
    intro s i s' ⟨hclock, hstamped⟩ hstep
    obtain ⟨hnow, hbreaker⟩ := breaker_step hstep
    have hpos : 0 < i.now := hclock.trans_le (step_eq_some hstep).1
    rw [hnow, hbreaker]
    refine ⟨hpos, ?_⟩
    cases methodOf i with
    | none => exact hstamped
    | some m => exact hstamped.call hpos m
  have hnew : Stamped CircuitBreaker.new := by
    intro hopened
    cases hopened
  exact exec_invariant_all hkeep ⟨ht, hnew⟩ hrun

theorem Inv.run {t0 : ℚ} {is : List (Label ε)} (hrun : exec (ProtectedCalls.step c) (State.init t0) is = some s) :
    Inv c s :=
  exec_invariant_all (fun _ _ _ h hstep => Inv.step h hstep) (Inv.init t0) hrun

/-- No untracked failure opens the breaker. -/
theorem closed_of_untracked (h : ∀ e, c.exceptionsToTrack e = false) {t0 : ℚ} {is : List (Label ε)}
    (hrun : exec (step c) (State.init t0) is = some s) : s.breaker.state = .closed := by
  have hkeep : ∀ s i s', s.breaker.state = .closed → step c s i = some s' → s'.breaker.state = .closed := by
    intro s i s' hs hstep
    rw [(breaker_step hstep).2]
    cases i with
    | call id now => exact (congrArg (·.2.state) (canExecute_closed hs)).trans hs
    | returns id now => exact (recordSuccess_of_ne (by rw [hs]; nofun)).1.trans hs
    | raises id e now => exact (congrArg (·.state) (recordFailure_untracked (h e))).trans hs
    | cancelled id now => exact hs
  exact exec_invariant_all hkeep rfl hrun

theorem admits_closed (hs : s.breaker.state = .closed) : Admits c s :=
  ⟨s.clock, le_rfl, by rw [canExecute_closed hs]⟩

theorem admits_opened (hs : s.breaker.state = .opened) (hstamped : Stamped s.breaker) : Admits c s := by
  obtain ⟨t, ht, hpos⟩ := hstamped hs
  refine ⟨max s.clock (t + c.timeout), le_max_left _ _, ?_⟩
  have helapsed : max s.clock (t + c.timeout) - t ≥ c.timeout := by
    have := le_max_right s.clock (t + c.timeout)
    linarith
  unfold canExecute
  rw [hs, Option.mem_def.mp ht]
  simp only [if_neg hpos.ne', if_pos helapsed]

theorem admits_halfOpen (hs : s.breaker.state = .halfOpen) (h : (s.breaker.successCount : ℤ) < c.halfOpenMaxCalls) :
    Admits c s :=
  ⟨s.clock, le_rfl, by rw [canExecute_halfOpen hs]; exact decide_eq_true h⟩

theorem admits_of_run {t0 : ℚ} (ht : 0 < t0) (hsuccess : 1 ≤ c.successThreshold)
    (h : c.successThreshold ≤ c.halfOpenMaxCalls ∨ ∀ e, c.exceptionsToTrack e = false) {is : List (Label ε)}
    (hrun : exec (step c) (State.init t0) is = some s) : Admits c s := by
  rcases h with hle | hnone
  · cases hs : s.breaker.state with
    | closed => exact admits_closed hs
    | opened => exact admits_opened hs (Stamped.run ht hrun).2
    | halfOpen =>
      have hbelow := (Inv.run hrun).below hs
      exact admits_halfOpen hs (by omega)
  · exact admits_closed (closed_of_untracked hnone hrun)

/-! ## How it locks out -/

def Label.ends : Label ε → Option ℕ
  | .call _ _ => none
  | .returns id _ | .raises id _ _ | .cancelled id _ => some id

theorem exists_step_ends {i : Label ε} {id : ℕ} (hi : i.ends = some id) (hclock : s.clock ≤ i.now)
    {episode : Option ℕ} (hid : s.running.get? id = some episode) :
    ∃ s', step c s i = some s' ∧ s'.running = s.running.erase id := by
  rw [step_of_le hclock]
  cases i with
  | call => cases hi
  | returns id' now =>
    obtain rfl := Option.some.inj hi
    refine ⟨succeed c { s with clock := now } id' episode, by simp [stepAt, hid, Label.now], ?_⟩
    unfold succeed
    simp only
    split_ifs <;> rfl
  | raises id' e now =>
    obtain rfl := Option.some.inj hi
    refine ⟨fail c { s with clock := now } id' episode e now, by simp [stepAt, hid, Label.now], ?_⟩
    unfold fail abandon
    simp only
    split_ifs <;> rfl
  | cancelled id' now =>
    obtain rfl := Option.some.inj hi
    refine ⟨abandon { s with clock := now } id' episode, by simp [stepAt, hid, Label.now], ?_⟩
    unfold abandon
    simp only
    split_ifs <;> rfl

theorem exists_step_call {id : ℕ} {now : ℚ} (hclock : s.clock ≤ now) (hid : s.running.get? id = none)
    (hpass : (canExecute c s.breaker now).1 = true) :
    ∃ s' episode, step c s (.call id now) = some s' ∧ s'.running = s.running.set id episode := by
  have hstep : step c s (.call id now) = some (begin c { s with clock := now } id now) := by
    rw [step_of_le (show s.clock ≤ (Label.call id now : Label ε).now from hclock)]
    simp [stepAt, hid, Label.now]
  have hset : ∃ episode, (begin c { s with clock := now } id now).running = s.running.set id episode := by
    unfold begin admitCall
    simp only [hpass, if_true]
    split
    · exact ⟨_, rfl⟩
    · exact ⟨_, rfl⟩
    · exact ⟨_, rfl⟩
  obtain ⟨episode, hrunning⟩ := hset
  exact ⟨_, episode, hstep, hrunning⟩

/-- A call that passes an idle breaker and ends at once. -/
theorem exec_one_call {now : ℚ} (hclock : s.clock ≤ now) (hidle : Idle s)
    (hpass : (canExecute c s.breaker now).1 = true) {i : Label ε} {m : Method ε} (hi : i.ends = some 1)
    (hnow : i.now = now) (hm : methodOf i = some m) :
    ∃ s', exec (step c) s [.call 1 now, i] = some s' ∧ Idle s' ∧ s'.clock = now ∧
      s'.breaker = Resilience.call c (canExecute c s.breaker now).2 now m := by
  obtain ⟨s₁, episode, hcall, hrunning⟩ := exists_step_call hclock (hidle 1) hpass
  obtain ⟨hclock₁, hbreaker₁⟩ := breaker_step hcall
  obtain ⟨s₂, hend, herased⟩ := exists_step_ends (s := s₁) (c := c) hi (by rw [hclock₁, hnow]; rfl)
    (hrunning ▸ OrderedDict.get?_set_self _ _ _)
  obtain ⟨hclock₂, hbreaker₂⟩ := breaker_step hend
  refine ⟨s₂, ?_, fun id => ?_, hclock₂.trans hnow, ?_⟩
  · rw [exec_cons, hcall, Option.bind_some, exec_cons, hend, Option.bind_some, exec_nil]
  · rw [herased, hrunning, OrderedDict.get?_erase]
    split_ifs with hid
    · rfl
    · rw [OrderedDict.get?_set, if_neg hid]
      exact hidle id
  · rw [hbreaker₂, hm, hbreaker₁, hnow]
    rfl

/-- The failures that are missing to the threshold, one after the other. -/
theorem exists_opened {e : ε} (he : c.exceptionsToTrack e = true) (n : ℕ) (hidle : Idle s)
    (hs : s.breaker.state = .closed) (hn : c.failureThreshold ≤ s.breaker.failureCount + (n + 1 : ℕ)) :
    ∃ is s', exec (step c) s is = some s' ∧ Idle s' ∧ s'.breaker.state = .opened ∧
      s'.breaker.lastFailureTime = some s'.clock ∧ s'.clock = s.clock := by
  induction n generalizing s with
  | zero =>
    obtain ⟨s', hrun, hidle', hclock, hbreaker⟩ := exec_one_call (c := c) le_rfl hidle (by rw [canExecute_closed hs])
      (i := .raises 1 e s.clock) rfl rfl rfl
    rw [canExecute_closed hs] at hbreaker
    have htime : s'.breaker.lastFailureTime = some s'.clock := by
      rw [hbreaker, hclock]
      exact lastFailureTime_recordFailure he
    refine ⟨_, s', hrun, hidle', ?_, htime, hclock⟩
    rcases @recordFailure_closed _ c _ s.clock e hs he with ⟨_, hopened⟩ | ⟨hlow, _⟩
    · rw [hbreaker]
      exact hopened
    · omega
  | succ n ih =>
    obtain ⟨s₁, hrun, hidle₁, hclock, hbreaker⟩ := exec_one_call (c := c) le_rfl hidle (by rw [canExecute_closed hs])
      (i := .raises 1 e s.clock) rfl rfl rfl
    rw [canExecute_closed hs] at hbreaker
    rcases @recordFailure_closed _ c _ s.clock e hs he with ⟨_, hopened⟩ | ⟨_, hclosed, hcount⟩
    · refine ⟨_, s₁, hrun, hidle₁, ?_, ?_, hclock⟩
      · rw [hbreaker]
        exact hopened
      · rw [hbreaker, hclock]
        exact lastFailureTime_recordFailure he
    · have hcount₁ : s₁.breaker.failureCount = s.breaker.failureCount + 1 := by
        rw [hbreaker]
        exact hcount
      obtain ⟨is, s', hrun', hidle', hopened, htime, hsame⟩ := ih hidle₁ (by rw [hbreaker]; exact hclosed)
        (by rw [hcount₁]; push_cast at hn ⊢; omega)
      exact ⟨_, s', exec_trans hrun hrun', hidle', hopened, htime, hsame.trans hclock⟩

/-- A trial whose probes have all ended and were too few. -/
def Exhausted (c : CircuitBreakerConfig ε) (s : State) : Prop :=
  Idle s ∧ s.breaker.state = .halfOpen ∧ c.halfOpenMaxCalls ≤ s.breaker.successCount

/-- One probe more succeeds, until no further one is let in. -/
theorem exists_exhausted (hshort : c.halfOpenMaxCalls < c.successThreshold) (n : ℕ) (hidle : Idle s)
    (hs : s.breaker.state = .halfOpen) (hn : c.halfOpenMaxCalls ≤ s.breaker.successCount + (n : ℤ)) :
    ∃ is s', exec (step c) s is = some s' ∧ Exhausted c s' := by
  induction n generalizing s with
  | zero => exact ⟨[], s, rfl, hidle, hs, by simpa using hn⟩
  | succ n ih =>
    by_cases hfull : c.halfOpenMaxCalls ≤ s.breaker.successCount
    · exact ⟨[], s, rfl, hidle, hs, hfull⟩
    · have hpass : (canExecute c s.breaker s.clock).1 = true := by
        rw [canExecute_halfOpen hs]
        exact decide_eq_true (not_le.mp hfull)
      obtain ⟨s₁, hrun, hidle₁, _, hbreaker⟩ := exec_one_call (c := c) le_rfl hidle hpass
        (i := .returns 1 s.clock) rfl rfl rfl
      rw [canExecute_halfOpen hs] at hbreaker
      rcases recordSuccess_halfOpen (c := c) hs with ⟨hreached, _⟩ | ⟨_, hstays, hcount⟩
      · omega
      · have hcount₁ : s₁.breaker.successCount = s.breaker.successCount + 1 := by
          rw [hbreaker]
          exact hcount
        obtain ⟨is, s', hrun', hend⟩ := ih hidle₁ (by rw [hbreaker]; exact hstays)
          (by rw [hcount₁]; push_cast at hn ⊢; omega)
        exact ⟨_, s', exec_trans hrun hrun', hend⟩

/-- After the timeout one probe passes; it starts the trial, and succeeds. -/
theorem exists_exhausted_of_opened (hmax : 1 ≤ c.halfOpenMaxCalls) (hshort : c.halfOpenMaxCalls < c.successThreshold)
    (hidle : Idle s) (hs : s.breaker.state = .opened) (htime : s.breaker.lastFailureTime = some s.clock)
    (hpos : 0 < s.clock) : ∃ is s', exec (step c) s is = some s' ∧ Exhausted c s' := by
  obtain ⟨now, hclock, hpass⟩ := admits_opened (c := c) hs fun _ => ⟨_, htime, hpos⟩
  obtain ⟨s₁, hrun, hidle₁, _, hbreaker⟩ := exec_one_call (c := c) hclock hidle hpass
    (i := .returns 1 now) rfl rfl rfl
  rcases @canExecute_opened _ c _ now hs with ⟨hrejects, _⟩ | ⟨_, _, _, htrial⟩
  · rw [hrejects] at hpass
    cases hpass
  · rw [htrial] at hbreaker
    rcases recordSuccess_halfOpen (c := c) (b := { s.breaker with state := .halfOpen, successCount := 0 }) rfl with
      ⟨hreached, _⟩ | ⟨_, hstays, _⟩
    · simp only [Nat.cast_zero] at hreached
      omega
    · obtain ⟨is, s', hrun', hend⟩ := exists_exhausted hshort c.halfOpenMaxCalls.toNat hidle₁
        (by rw [hbreaker]; exact hstays) (by omega)
      exact ⟨_, s', exec_trans hrun hrun', hend⟩

theorem Exhausted.not_admits (h : Exhausted c s) : ¬ Admits c s := by
  rintro ⟨now, _, hpass⟩
  rw [canExecute_halfOpen h.2.1] at hpass
  exact absurd (of_decide_eq_true hpass) (not_lt.mpr h.2.2)

/-- **The breaker is never locked out exactly when the probes it lets in are enough to close it, or nothing can
open it.** -/
theorem neverLockedOut_iff (hfailure : 1 ≤ c.failureThreshold) (hsuccess : 1 ≤ c.successThreshold)
    (hmax : 1 ≤ c.halfOpenMaxCalls) {t0 : ℚ} (ht : 0 < t0) :
    NeverLockedOut c t0 ↔ c.successThreshold ≤ c.halfOpenMaxCalls ∨ ∀ e, c.exceptionsToTrack e = false := by
  constructor
  · intro h
    by_contra hbad
    obtain ⟨hshort, hsome⟩ := not_or.mp hbad
    obtain ⟨e, he⟩ := not_forall.mp hsome
    obtain ⟨is, s, hrun, hidle, hopened, htime, hclock⟩ :=
      exists_opened (c := c) (s := State.init t0) (Bool.not_eq_false _ ▸ he) c.failureThreshold.toNat (fun _ => rfl) rfl
        (by push_cast; omega)
    obtain ⟨js, s', hrun', hend⟩ := exists_exhausted_of_opened hmax (not_le.mp hshort) hidle hopened htime
      (by rw [hclock]; exact ht)
    exact hend.not_admits ((h _ s' (exec_trans hrun hrun')).1 hend.1)
  · intro h is s hrun
    have hadmits := admits_of_run ht hsuccess h hrun
    exact ⟨fun _ => hadmits, [], s, rfl, hadmits⟩

theorem neverLockedOut_shipped :
    NeverLockedOut (llmCircuitBreaker Unit) 1 ∧ NeverLockedOut (sandboxCircuitBreaker Unit) 1 :=
  ⟨(neverLockedOut_iff (by decide) (by decide) (by decide) (by decide)).mpr (Or.inl (by decide)),
    (neverLockedOut_iff (by decide) (by decide) (by decide) (by decide)).mpr (Or.inl (by decide))⟩

end Recovery

/-! ## The database breaker -/

/-- Ten failures, and after the timeout the three successes that are let in, two too few. -/
def outage : List (Label Unit) :=
  (List.replicate 10 [Label.call 1 1, .raises 1 () 1]).flatten ++
    (List.replicate 3 [Label.call 1 121, .returns 1 121]).flatten

theorem isSome_outage : (exec (step (databaseCircuitBreaker Unit)) (State.init 1) outage).isSome = true := by
  decide +kernel

theorem exhausted_outage : Exhausted (databaseCircuitBreaker Unit)
    ((exec (step (databaseCircuitBreaker Unit)) (State.init 1) outage).get isSome_outage) := by
  refine ⟨fun id => ?_, by decide +kernel, by decide +kernel⟩
  have hnone : ((exec (step (databaseCircuitBreaker Unit)) (State.init 1) outage).get isSome_outage).running.entries
      = [] := by decide +kernel
  rw [OrderedDict.get?, hnone]
  rfl

theorem database_locked_out : ¬ NeverLockedOut (databaseCircuitBreaker Unit) 1 := by
  intro h
  have hadmits := (h outage _ (Option.some_get isSome_outage).symm).1 exhausted_outage.1
  exact exhausted_outage.not_admits hadmits

end KernelRuntime.ProtectedCalls
