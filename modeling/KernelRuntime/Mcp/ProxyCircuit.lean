import KernelRuntime.Foundations.Execution
import KernelRuntime.Foundations.OrderedDict
import Mathlib.Algebra.Order.Ring.Rat
import Mathlib.Data.List.DropRight
import Mathlib.Tactic.Linarith

/-! # The circuit of an MCP proxy

`MCPProxyTool.execute` has one `await`, the request. What comes before it is one step and what comes after it another,
each with one reading of the clock. -/

namespace KernelRuntime.McpProxy
set_option autoImplicit false

inductive ToolStatus where
  | active
  | disabled
  | rateLimited
  | error
deriving DecidableEq

structure MCPToolMetrics where
  totalCalls : ℕ := 0
  failedCalls : ℕ := 0
  totalLatencyMs : ℚ := 0
  lastCalled : Option ℚ := none
deriving DecidableEq

def MCPToolMetrics.recordCall (m : MCPToolMetrics) (latencyMs : ℚ) (success : Bool) (now : ℚ) : MCPToolMetrics where
  totalCalls := m.totalCalls + 1
  totalLatencyMs := m.totalLatencyMs + latencyMs
  failedCalls := if success then m.failedCalls else m.failedCalls + 1
  lastCalled := some now

/-- An open circuit has a stamp. -/
structure Circuit where
  circuitOpen : Bool
  circuitOpenedAt : Option ℚ
  consecutiveFailures : ℕ
  stamped : circuitOpen = true → circuitOpenedAt.isSome = true

def circuitBreakThreshold : ℕ := 5

def circuitRecoveryTimeout : ℚ := 60

namespace Circuit

def closed : Circuit := ⟨false, none, 0, nofun⟩

def checkCircuitBreaker (c : Circuit) (now : ℚ) : Bool × Circuit :=
  if h : c.circuitOpen = true then
    if now - c.circuitOpenedAt.get (c.stamped h) > circuitRecoveryTimeout then
      (true, { c with circuitOpen := false, consecutiveFailures := 0, stamped := nofun })
    else (false, c)
  else (true, c)

/-- Whether the circuit trips, which the tool logs, and the circuit it leaves. -/
def tripCircuitBreaker (c : Circuit) (now : ℚ) : Bool × Circuit :=
  let failures := c.consecutiveFailures + 1
  if failures ≥ circuitBreakThreshold then (true, ⟨true, some now, failures, fun _ => rfl⟩)
  else (false, { c with consecutiveFailures := failures })

theorem consecutiveFailures_trip (c : Circuit) (now : ℚ) :
    (c.tripCircuitBreaker now).2.consecutiveFailures = c.consecutiveFailures + 1 := by
  unfold tripCircuitBreaker
  simp only
  split_ifs
  · rfl
  · rfl

theorem stamped_trip {c : Circuit} {now : ℚ} (h : (c.tripCircuitBreaker now).1 = true) :
    (c.tripCircuitBreaker now).2.circuitOpen = true ∧ (c.tripCircuitBreaker now).2.circuitOpenedAt = some now := by
  unfold tripCircuitBreaker at h ⊢
  simp only at h ⊢
  split_ifs at h ⊢
  exact ⟨rfl, rfl⟩

end Circuit

/-- How a request fails: a timeout, a status that is an error, or another exception. -/
inductive Failure where
  | timeout
  | status (code : ℕ)
  | other (text : String)

structure Reply where
  error : String
  tool : String
deriving DecidableEq

def Failure.reply (name : String) : Failure → Reply
  | .timeout => ⟨"Request timed out", name⟩
  | .status code => ⟨"HTTP " ++ toString code, name⟩
  | .other text => ⟨text, name⟩

/-- What the rate limiter and the check of the size say to a call, if the check does not raise. -/
inductive Admission where
  | rateLimited (waitTime : ℤ)
  | raises
  | tooLarge
  | sent
deriving DecidableEq

/-- `MCPProxyTool`, of its data those that `execute` changes. -/
structure MCPProxyTool where
  name : String
  status : ToolStatus
  metrics : MCPToolMetrics
  circuit : Circuit

def MCPProxyTool.new (name : String) : MCPProxyTool := ⟨name, .active, {}, .closed⟩

namespace MCPProxyTool

/-- `execute` up to the request: the reply to a call that goes no further, if it has one. -/
def admitCall (p : MCPProxyTool) (admission : Admission) (now : ℚ) : Option (Option Reply) × MCPProxyTool :=
  let (pass, circuit) := p.circuit.checkCircuitBreaker now
  let p := { p with circuit }
  if pass then
    match admission with
    | .rateLimited waitTime =>
      (some (some ⟨"Rate limited, retry after " ++ toString waitTime ++ "s", p.name⟩), { p with status := .rateLimited })
    | .raises => (some none, p)
    | .tooLarge => (some (some ⟨"Request payload too large", p.name⟩), p)
    | .sent => (none, p)
  else (some (some ⟨"Service temporarily unavailable (circuit open)", p.name⟩), p)

def succeed (p : MCPProxyTool) (startTime now : ℚ) : MCPProxyTool :=
  { p with
    metrics := p.metrics.recordCall ((now - startTime) * 1000) true now
    circuit := { p.circuit with consecutiveFailures := 0 }
    status := .active }

def fail (p : MCPProxyTool) (startTime now : ℚ) : MCPProxyTool :=
  { p with
    circuit := (p.circuit.tripCircuitBreaker now).2
    metrics := p.metrics.recordCall ((now - startTime) * 1000) false now }

end MCPProxyTool

/-! ## Overlapping calls -/

inductive Recorded where
  | success
  | failure
  | recovery
deriving DecidableEq

/-- `inFlight` has the requests with their start times, `recorded` what has been recorded, `tripped` the stamps that
were logged. -/
structure State where
  proxy : MCPProxyTool
  clock : ℚ
  inFlight : OrderedDict ℕ ℚ
  recorded : List Recorded
  tripped : List ℚ
  replies : List (ℕ × Reply)

def State.init (name : String) (t0 : ℚ) : State := ⟨.new name, t0, .empty, [], [], []⟩

inductive Label where
  | begins (id : ℕ) (admission : Admission) (now : ℚ)
  | succeeds (id : ℕ) (now : ℚ)
  | fails (id : ℕ) (failure : Failure) (now : ℚ)
  | cancelled (id : ℕ) (now : ℚ)

def Label.now : Label → ℚ
  | .begins _ _ now | .succeeds _ now | .fails _ _ now | .cancelled _ now => now

def begin (s : State) (id : ℕ) (admission : Admission) (now : ℚ) : State :=
  let (answer, proxy) := s.proxy.admitCall admission now
  { s with
    proxy
    inFlight := if answer.isNone then s.inFlight.set id now else s.inFlight
    recorded := s.recorded ++ if s.proxy.circuit.circuitOpen && !proxy.circuit.circuitOpen then [.recovery] else []
    replies := s.replies ++ (answer.join.map (id, ·)).toList }

def succeed (s : State) (id : ℕ) (startTime now : ℚ) : State :=
  { s with
    proxy := s.proxy.succeed startTime now
    inFlight := s.inFlight.erase id
    recorded := s.recorded ++ [.success] }

def fail (s : State) (id : ℕ) (failure : Failure) (startTime now : ℚ) : State :=
  { s with
    proxy := s.proxy.fail startTime now
    inFlight := s.inFlight.erase id
    recorded := s.recorded ++ [.failure]
    tripped := s.tripped ++ if (s.proxy.circuit.tripCircuitBreaker now).1 then [now] else []
    replies := s.replies ++ [(id, failure.reply s.proxy.name)] }

def stepAt (s : State) : Label → Option State
  | .begins id admission now => if (s.inFlight.get? id).isNone then some (begin s id admission now) else none
  | .succeeds id now => (s.inFlight.get? id).map fun startTime => succeed s id startTime now
  | .fails id failure now => (s.inFlight.get? id).map fun startTime => fail s id failure startTime now
  | .cancelled id _ => (s.inFlight.get? id).map fun _ => { s with inFlight := s.inFlight.erase id }

def step (s : State) (i : Label) : Option State :=
  if s.clock ≤ i.now then stepAt { s with clock := i.now } i else none

/-- The failures recorded since the last success or recovery. -/
def failuresSince (recorded : List Recorded) : ℕ := (recorded.rtakeWhile fun r => decide (r = .failure)).length

/-! ## The circuit -/

section Steps
variable {s s' : State} {c : Circuit} {now : ℚ}

/-- A check finds the circuit closed, finds it open for long enough, or refuses. -/
theorem check_cases (c : Circuit) (now : ℚ) :
    (c.circuitOpen = false ∧ c.checkCircuitBreaker now = (true, c)) ∨
      (c.circuitOpen = true ∧ (∃ t ∈ c.circuitOpenedAt, circuitRecoveryTimeout < now - t) ∧
        c.checkCircuitBreaker now =
          (true, { c with circuitOpen := false, consecutiveFailures := 0, stamped := nofun })) ∨
      (c.circuitOpen = true ∧ (∃ t ∈ c.circuitOpenedAt, now - t ≤ circuitRecoveryTimeout) ∧
        c.checkCircuitBreaker now = (false, c)) := by
  unfold Circuit.checkCircuitBreaker
  by_cases hopen : c.circuitOpen = true
  · have hstamp := Option.get_mem (c.stamped hopen)
    rw [dif_pos hopen]
    split_ifs with helapsed
    · exact Or.inr (Or.inl ⟨hopen, ⟨_, hstamp, helapsed⟩, rfl⟩)
    · exact Or.inr (Or.inr ⟨hopen, ⟨_, hstamp, not_lt.mp helapsed⟩, rfl⟩)
  · rw [dif_neg hopen]
    exact Or.inl ⟨Bool.not_eq_true _ ▸ hopen, rfl⟩

theorem circuit_admit (p : MCPProxyTool) (admission : Admission) (now : ℚ) :
    (p.admitCall admission now).2.circuit = (p.circuit.checkCircuitBreaker now).2 := by
  unfold MCPProxyTool.admitCall
  simp only
  split_ifs
  · cases admission <;> rfl
  · rfl

theorem metrics_admit (p : MCPProxyTool) (admission : Admission) (now : ℚ) :
    (p.admitCall admission now).2.metrics = p.metrics := by
  unfold MCPProxyTool.admitCall
  simp only
  split_ifs
  · cases admission <;> rfl
  · rfl

theorem step_eq_some {i : Label} (h : step s i = some s') :
    s.clock ≤ i.now ∧ stepAt { s with clock := i.now } i = some s' := by
  unfold step at h
  split_ifs at h with hclock
  exact ⟨hclock, h⟩

/-- What a step does to the circuit, the records and the metrics. -/
theorem step_cases {i : Label} (h : step s i = some s') :
    s'.clock = i.now ∧
      ((∃ id admission, i = .begins id admission i.now ∧ s'.tripped = s.tripped ∧
          s'.proxy.metrics = s.proxy.metrics ∧
          s'.proxy.circuit = (s.proxy.circuit.checkCircuitBreaker i.now).2 ∧
          s'.recorded = s.recorded ++
            if s.proxy.circuit.circuitOpen && !s'.proxy.circuit.circuitOpen then [.recovery] else []) ∨
        (∃ startTime, s'.tripped = s.tripped ∧ s'.recorded = s.recorded ++ [.success] ∧
          s'.proxy = s.proxy.succeed startTime i.now) ∨
        (∃ id failure startTime, i = .fails id failure i.now ∧ s'.recorded = s.recorded ++ [.failure] ∧
          s'.proxy = s.proxy.fail startTime i.now ∧
          s'.tripped = s.tripped ++ if (s.proxy.circuit.tripCircuitBreaker i.now).1 then [i.now] else []) ∨
        (s'.tripped = s.tripped ∧ s'.recorded = s.recorded ∧ s'.proxy = s.proxy)) := by
  obtain ⟨_, hstep⟩ := step_eq_some h
  cases i with
  | begins id admission now =>
    simp only [stepAt] at hstep
    split_ifs at hstep
    obtain rfl := Option.some.inj hstep
    exact ⟨rfl, Or.inl ⟨id, admission, rfl, rfl, metrics_admit _ _ _, circuit_admit _ _ _, rfl⟩⟩
  | succeeds id now =>
    obtain ⟨startTime, _, rfl⟩ := Option.map_eq_some_iff.mp hstep
    exact ⟨rfl, Or.inr (Or.inl ⟨startTime, rfl, rfl, rfl⟩)⟩
  | fails id failure now =>
    obtain ⟨startTime, _, rfl⟩ := Option.map_eq_some_iff.mp hstep
    exact ⟨rfl, Or.inr (Or.inr (Or.inl ⟨id, failure, startTime, rfl, rfl, rfl, rfl⟩))⟩
  | cancelled id now =>
    obtain ⟨startTime, _, rfl⟩ := Option.map_eq_some_iff.mp hstep
    exact ⟨rfl, Or.inr (Or.inr (Or.inr ⟨rfl, rfl, rfl⟩))⟩

/-! ## The invariant -/

theorem failuresSince_failure (recorded : List Recorded) :
    failuresSince (recorded ++ [.failure]) = failuresSince recorded + 1 := by
  unfold failuresSince
  rw [List.rtakeWhile_concat_pos _ _ _ (by decide), List.length_append, List.length_singleton]

theorem failuresSince_other {r : Recorded} (h : r ≠ .failure) (recorded : List Recorded) :
    failuresSince (recorded ++ [r]) = 0 := by
  unfold failuresSince
  rw [List.rtakeWhile_concat_neg _ _ _ (by simpa using h)]
  rfl

def results (recorded : List Recorded) : ℕ := recorded.countP fun r => decide (r ≠ .recovery)

def failures (recorded : List Recorded) : ℕ := recorded.countP fun r => decide (r = .failure)

/-- The circuit has tripped at `T`; it is still open, or has recovered more than a minute later. -/
def Tripped (T clock : ℚ) (c : Circuit) : Prop :=
  T + circuitRecoveryTimeout < clock ∨ c.circuitOpen = true ∧ ∃ t ∈ c.circuitOpenedAt, T ≤ t

theorem Tripped.mono {T clock clock' : ℚ} (h : Tripped T clock c) (hle : clock ≤ clock') : Tripped T clock' c :=
  h.imp_left fun hpassed => hpassed.trans_le hle

theorem Tripped.check {T clock : ℚ} (h : Tripped T clock c) (hnow : clock ≤ now) :
    Tripped T now (c.checkCircuitBreaker now).2 := by
  rcases h.mono hnow with hpassed | ⟨hopen, t, ht, hle⟩
  · exact Or.inl hpassed
  · rcases check_cases c now with ⟨hclosed, _⟩ | ⟨_, ⟨t', ht', helapsed⟩, hcheck⟩ | ⟨_, _, hcheck⟩
    · exact absurd (hopen.symm.trans hclosed) (by decide)
    · obtain rfl := Option.mem_unique ht ht'
      exact Or.inl (by linarith)
    · rw [hcheck]
      exact Or.inr ⟨hopen, t, ht, hle⟩

theorem Tripped.trip {T clock : ℚ} (h : Tripped T clock c) (hT : T ≤ clock) (hnow : clock ≤ now) :
    Tripped T now (c.tripCircuitBreaker now).2 := by
  unfold Circuit.tripCircuitBreaker
  simp only
  split_ifs
  · exact Or.inr ⟨rfl, now, rfl, hT.trans hnow⟩
  · exact h.mono hnow

theorem not_pass_of_tripped {T clock : ℚ} (h : Tripped T clock c) (hnow : clock ≤ now)
    (hpass : (c.checkCircuitBreaker now).1 = true) : T + circuitRecoveryTimeout < now := by
  rcases h with hpassed | ⟨hopen, t, ht, hle⟩
  · exact hpassed.trans_le hnow
  · rcases check_cases c now with ⟨hclosed, _⟩ | ⟨_, ⟨t', ht', helapsed⟩, _⟩ | ⟨_, _, hcheck⟩
    · exact absurd (hopen.symm.trans hclosed) (by decide)
    · obtain rfl := Option.mem_unique ht ht'
      linarith
    · rw [hcheck] at hpass
      cases hpass

structure Inv (s : State) : Prop where
  counter : s.proxy.circuit.consecutiveFailures = failuresSince s.recorded
  stamps : ∀ T ∈ s.tripped, T ≤ s.clock ∧ Tripped T s.clock s.proxy.circuit
  total : s.proxy.metrics.totalCalls = results s.recorded
  failed : s.proxy.metrics.failedCalls = failures s.recorded

theorem Inv.init (name : String) (t0 : ℚ) : Inv (State.init name t0) := ⟨rfl, nofun, rfl, rfl⟩

/-- A check starts the counter again exactly when it is a recovery. -/
theorem counter_check {circuit : Circuit} {recorded : List Recorded}
    (h : c.consecutiveFailures = failuresSince recorded) (hcircuit : circuit = (c.checkCircuitBreaker now).2) :
    circuit.consecutiveFailures =
      failuresSince (recorded ++ if c.circuitOpen && !circuit.circuitOpen then [.recovery] else []) := by
  rcases check_cases c now with ⟨hclosed, hcheck⟩ | ⟨hopen, _, hcheck⟩ | ⟨hopen, _, hcheck⟩
  · rw [hcircuit, hcheck, hclosed]
    simpa using h
  · rw [hcircuit, hcheck, hopen]
    exact (failuresSince_other (by decide) recorded).symm
  · rw [hcircuit, hcheck, hopen]
    simpa using h

theorem countP_recovery (p : Recorded → Bool) (hp : p .recovery = false) (b : Bool) (recorded : List Recorded) :
    (recorded ++ if b then [Recorded.recovery] else []).countP p = recorded.countP p := by
  rw [List.countP_append]
  cases b with
  | true => simp [hp]
  | false => rfl

theorem Inv.step {i : Label} (h : Inv s) (hstep : McpProxy.step s i = some s') : Inv s' := by
  obtain ⟨hclock, _⟩ := step_eq_some hstep
  obtain ⟨hnow, hcases⟩ := step_cases hstep
  rcases hcases with ⟨id, admission, _, htripped, hmetrics, hcircuit, hrecorded⟩ |
    ⟨startTime, htripped, hrecorded, hproxy⟩ | ⟨id, failure, startTime, _, hrecorded, hproxy, htripped⟩ |
    ⟨htripped, hrecorded, hproxy⟩
  · refine ⟨?_, fun T hT => ?_, ?_, ?_⟩
    · rw [hrecorded]
      exact counter_check h.counter hcircuit
    · rw [htripped] at hT
      obtain ⟨hpast, hkept⟩ := h.stamps T hT
      rw [hnow, hcircuit]
      exact ⟨hpast.trans hclock, hkept.check hclock⟩
    · rw [hmetrics, hrecorded, results, countP_recovery (fun r => decide (r ≠ .recovery)) rfl]
      exact h.total
    · rw [hmetrics, hrecorded, failures, countP_recovery (fun r => decide (r = .failure)) rfl]
      exact h.failed
  · refine ⟨?_, fun T hT => ?_, ?_, ?_⟩
    · rw [hproxy, hrecorded, failuresSince_other (by decide)]
      rfl
    · rw [htripped] at hT
      obtain ⟨hpast, hkept⟩ := h.stamps T hT
      rw [hnow, hproxy]
      exact ⟨hpast.trans hclock, hkept.mono hclock⟩
    · rw [hproxy, hrecorded, results, List.countP_append]
      exact congrArg (· + 1) h.total
    · rw [hproxy, hrecorded, failures, List.countP_append]
      exact h.failed
  · refine ⟨?_, fun T hT => ?_, ?_, ?_⟩
    · rw [hproxy, hrecorded, failuresSince_failure, ← h.counter]
      exact Circuit.consecutiveFailures_trip _ _
    · rw [hnow, hproxy]
      rw [htripped] at hT
      rcases List.mem_append.mp hT with hT | hT
      · obtain ⟨hpast, hkept⟩ := h.stamps T hT
        exact ⟨hpast.trans hclock, hkept.trip hpast hclock⟩
      · split_ifs at hT with htrips
        · obtain rfl := List.mem_singleton.mp hT
          obtain ⟨hopen, hstamp⟩ := Circuit.stamped_trip htrips
          exact ⟨le_rfl, Or.inr ⟨hopen, _, hstamp, le_rfl⟩⟩
        · cases hT
    · rw [hproxy, hrecorded, results, List.countP_append]
      exact congrArg (· + 1) h.total
    · rw [hproxy, hrecorded, failures, List.countP_append]
      exact congrArg (· + 1) h.failed
  · refine ⟨by rw [hproxy, hrecorded]; exact h.counter, fun T hT => ?_, by rw [hproxy, hrecorded]; exact h.total, by
      rw [hproxy, hrecorded]; exact h.failed⟩
    rw [htripped] at hT
    obtain ⟨hpast, hkept⟩ := h.stamps T hT
    rw [hnow, hproxy]
    exact ⟨hpast.trans hclock, hkept.mono hclock⟩

theorem Inv.run {name : String} {t0 : ℚ} {is : List Label}
    (hrun : exec McpProxy.step (State.init name t0) is = some s) : Inv s :=
  exec_invariant_all (fun _ _ _ h hstep => Inv.step h hstep) (Inv.init name t0) hrun

/-- A failure trips the circuit, or stamps it again, exactly when it is the fifth in a row or a later one. -/
theorem trips_iff (h : Inv s) {id : ℕ} {failure : Failure} (hstep : McpProxy.step s (.fails id failure now) = some s') :
    (s'.tripped = s.tripped ++ [now] ↔ circuitBreakThreshold ≤ failuresSince s'.recorded) ∧
      (circuitBreakThreshold ≤ failuresSince s'.recorded →
        s'.proxy.circuit.circuitOpen = true ∧ s'.proxy.circuit.circuitOpenedAt = some now) ∧
      (¬ circuitBreakThreshold ≤ failuresSince s'.recorded → s'.tripped = s.tripped ∧
        s'.proxy.circuit.circuitOpen = s.proxy.circuit.circuitOpen ∧
        s'.proxy.circuit.circuitOpenedAt = s.proxy.circuit.circuitOpenedAt) := by
  obtain ⟨_, hstep'⟩ := step_eq_some hstep
  obtain ⟨startTime, _, rfl⟩ := Option.map_eq_some_iff.mp hstep'
  have hcount : failuresSince (s.recorded ++ [.failure]) = s.proxy.circuit.consecutiveFailures + 1 := by
    rw [failuresSince_failure, h.counter]
  unfold fail MCPProxyTool.fail Circuit.tripCircuitBreaker
  simp only [hcount]
  by_cases hfive : circuitBreakThreshold ≤ s.proxy.circuit.consecutiveFailures + 1
  · simp [hfive]
  · simp [hfive]

end Steps

/-- **A tripped circuit stays shut for its minute, the fifth failure in a row trips it, and the metrics count the
results.** -/
theorem proxy_laws (name : String) (t0 : ℚ) (is : List Label) (s : State)
    (hrun : exec step (State.init name t0) is = some s) :
    (∀ T ∈ s.tripped, ∀ now, s.clock ≤ now → (s.proxy.circuit.checkCircuitBreaker now).1 = true →
        T + circuitRecoveryTimeout < now) ∧
      (∀ id failure now s', step s (.fails id failure now) = some s' →
        (s'.tripped = s.tripped ++ [now] ↔ circuitBreakThreshold ≤ failuresSince s'.recorded) ∧
          (circuitBreakThreshold ≤ failuresSince s'.recorded →
            s'.proxy.circuit.circuitOpen = true ∧ s'.proxy.circuit.circuitOpenedAt = some now) ∧
          (¬ circuitBreakThreshold ≤ failuresSince s'.recorded → s'.tripped = s.tripped ∧
            s'.proxy.circuit.circuitOpen = s.proxy.circuit.circuitOpen ∧
            s'.proxy.circuit.circuitOpenedAt = s.proxy.circuit.circuitOpenedAt)) ∧
      s.proxy.metrics.failedCalls ≤ s.proxy.metrics.totalCalls ∧
      s.proxy.metrics.totalCalls = results s.recorded ∧ s.proxy.metrics.failedCalls = failures s.recorded := by
  have hinv := Inv.run hrun
  refine ⟨fun T hT now hnow hpass => not_pass_of_tripped (hinv.stamps T hT).2 hnow hpass,
    fun id failure now s' hstep => trips_iff hinv hstep, ?_, hinv.total, hinv.failed⟩
  rw [hinv.total, hinv.failed]
  refine List.countP_mono_left fun r _ hr => ?_
  rw [of_decide_eq_true hr]
  rfl

/-- Five requests overlap and fail; a success among them would have started the count again. -/
def fiveFailures : List Label :=
  (List.range 5).map (fun id => .begins id .sent 1) ++ (List.range 5).map fun id => .fails id .timeout 31

theorem isSome_fiveFailures : (exec step (State.init "search" 1) fiveFailures).isSome = true := by decide +kernel

theorem proxy_laws_fiveFailures :
    (((exec step (State.init "search" 1) fiveFailures).get isSome_fiveFailures).proxy.circuit.checkCircuitBreaker 40).1
      = false := by
  rw [Bool.eq_false_iff]
  intro hadmits
  have hopened := (proxy_laws "search" 1 fiveFailures _ (Option.some_get isSome_fiveFailures).symm).1 31
    (by decide +kernel) 40 (by decide +kernel) hadmits
  exact absurd hopened (by decide +kernel)

end KernelRuntime.McpProxy
