import KernelRuntime.Foundations.Json
import KernelRuntime.Resilience.CircuitBreaker

/-! # The metrics of a breaker

What `get_metrics` reads besides the state of the breaker: a counter of calls and two times. -/

namespace KernelRuntime.Resilience
open CircuitBreaker
set_option autoImplicit false

structure CircuitMetrics where
  state : CircuitState
  failureCount : ℕ
  successCount : ℕ
  lastFailureTime : Option ℚ
  totalCalls : ℕ
  totalFailures : ℕ
  totalSuccesses : ℕ
  rejectionCount : ℕ
  openedAt : Option ℚ
  closedAt : Option ℚ
deriving DecidableEq

/-- `closedAt` is missing until `_close_circuit` assigns it: `__init__` only annotates the name. -/
structure MeteredBreaker where
  breaker : CircuitBreaker
  totalCalls : ℕ
  openedAt : Option ℚ
  closedAt : Option ℚ
deriving DecidableEq

namespace MeteredBreaker

def new : MeteredBreaker := ⟨CircuitBreaker.new, 0, none, none⟩

def getMetrics (m : MeteredBreaker) : Except PyError CircuitMetrics :=
  match m.closedAt with
  | none => .error ⟨.attributeError, "'CircuitBreaker' object has no attribute '_closed_at'"⟩
  | some closedAt => .ok
    { state := m.breaker.state
      failureCount := m.breaker.failureCount
      successCount := m.breaker.successCount
      lastFailureTime := m.breaker.lastFailureTime
      totalCalls := m.totalCalls
      totalFailures := m.breaker.totalFailures
      totalSuccesses := m.breaker.totalSuccesses
      rejectionCount := m.breaker.rejectionCount
      openedAt := m.openedAt
      closedAt := some closedAt }

section Methods
variable {ε : Type} (c : CircuitBreakerConfig ε)

/-- Nothing counts a call. -/
def canExecute (m : MeteredBreaker) (now : ℚ) : Bool × MeteredBreaker :=
  ((m.breaker.canExecute c now).1, { m with breaker := (m.breaker.canExecute c now).2 })

def recordSuccess (m : MeteredBreaker) (now : ℚ) : MeteredBreaker :=
  let recorded := { m with breaker := m.breaker.recordSuccess c }
  if m.breaker.state = .halfOpen ∧ (m.breaker.successCount : ℤ) + 1 ≥ c.successThreshold then
    { recorded with openedAt := none, closedAt := some now }
  else recorded

def recordFailure (m : MeteredBreaker) (exception : ε) (now : ℚ) : MeteredBreaker :=
  let recorded := { m with breaker := m.breaker.recordFailure c exception now }
  if c.exceptionsToTrack exception ∧ (m.breaker.state = .halfOpen ∨
      m.breaker.state = .closed ∧ (m.breaker.failureCount : ℤ) + 1 ≥ c.failureThreshold) then
    { recorded with openedAt := some now }
  else recorded

def call (m : MeteredBreaker) (i : ℚ × Method ε) : MeteredBreaker :=
  match i.2 with
  | .canExecute => (canExecute c m i.1).2
  | .recordSuccess => recordSuccess c m i.1
  | .recordFailure e => recordFailure c m e i.1

def step (m : MeteredBreaker) (i : ℚ × Method ε) : Option MeteredBreaker := some (call c m i)

/-! ## What the metrics should be -/

/-- `1` if the call is one of `can_execute` with this answer. -/
def answers (answer : Bool) (m : MeteredBreaker) (i : ℚ × Method ε) : ℕ :=
  match i.2 with
  | .canExecute => if (canExecute c m i.1).1 = answer then 1 else 0
  | _ => 0

def admitted (is : List (ℚ × Method ε)) : ℕ := tally (step c) (answers c true) new is

def refused (is : List (ℚ × Method ε)) : ℕ := tally (step c) (answers c false) new is

def failures (is : List (ℚ × Method ε)) : ℕ := is.countP fun i => i.2.isTrackedFailure c

def successes (is : List (ℚ × Method ε)) : ℕ := is.countP fun i => i.2.isSuccess

/-- `get_metrics` returns the numbers of the calls so far. -/
def MetricsRight (is : List (ℚ × Method ε)) (m : MeteredBreaker) : Prop :=
  ∃ metrics, getMetrics m = .ok metrics ∧ metrics.totalCalls = admitted c is ∧ metrics.rejectionCount = refused c is ∧
    metrics.totalFailures = failures c is ∧ metrics.totalSuccesses = successes is

/-! ## Runs -/

variable {c} {m m' : MeteredBreaker} {i : ℚ × Method ε} {is : List (ℚ × Method ε)}

/-- The breaker that is metered runs as without metrics. -/
@[simp] theorem call_breaker : (call c m i).breaker = Resilience.call c m.breaker i.1 i.2 := by
  obtain ⟨now, method⟩ := i
  cases method with
  | canExecute => rfl
  | recordSuccess =>
    simp only [call, recordSuccess, Resilience.call]
    split_ifs <;> rfl
  | recordFailure e =>
    simp only [call, recordFailure, Resilience.call]
    split_ifs <;> rfl

@[simp] theorem call_totalCalls : (call c m i).totalCalls = m.totalCalls := by
  obtain ⟨now, method⟩ := i
  cases method with
  | canExecute => rfl
  | recordSuccess =>
    simp only [call, recordSuccess]
    split_ifs <;> rfl
  | recordFailure e =>
    simp only [call, recordFailure]
    split_ifs <;> rfl

/-- The time of closing is assigned in the half-open state only. -/
theorem call_closedAt (h : m.breaker.state ≠ .halfOpen) : (call c m i).closedAt = m.closedAt := by
  obtain ⟨now, method⟩ := i
  cases method with
  | canExecute => rfl
  | recordSuccess =>
    simp only [call, recordSuccess]
    rw [if_neg fun hcloses => h hcloses.1]
  | recordFailure e =>
    simp only [call, recordFailure]
    split_ifs <;> rfl

/-- A breaker becomes half-open where a call is admitted. -/
theorem halfOpen_of_call (h : (call c m i).breaker.state = .halfOpen) :
    m.breaker.state = .halfOpen ∨ answers c true m i = 1 := by
  refine or_iff_not_imp_left.mpr fun hnot => ?_
  rw [call_breaker] at h
  obtain ⟨now, method⟩ := i
  cases method with
  | canExecute =>
    cases hs : m.breaker.state with
    | closed =>
      rw [Resilience.call, canExecute_closed hs, hs] at h
      cases h
    | opened =>
      rcases @canExecute_opened _ c _ now hs with ⟨_, hopened, _⟩ | ⟨_, _, _, hpass⟩
      · cases hopened.symm.trans h
      · simp only [answers, canExecute, hpass, if_pos]
    | halfOpen => exact absurd hs hnot
  | recordSuccess =>
    rw [Resilience.call, (recordSuccess_of_ne hnot).1] at h
    exact absurd h hnot
  | recordFailure e =>
    by_cases htracked : c.exceptionsToTrack e
    · cases hs : m.breaker.state with
      | closed =>
        rcases @recordFailure_closed ε c _ now e hs htracked with ⟨_, hstate⟩ | ⟨_, hstate, _⟩
        · cases hstate.symm.trans h
        · cases hstate.symm.trans h
      | opened => cases (recordFailure_opened hs).symm.trans h
      | halfOpen => exact absurd hs hnot
    · rw [Resilience.call, recordFailure_untracked (Bool.not_eq_true _ ▸ htracked)] at h
      exact absurd h hnot

/-- Nothing was counted, and a breaker that is half-open or was closed again admitted a call. -/
structure Inv (n : ℕ) (m : MeteredBreaker) : Prop where
  uncounted : m.totalCalls = 0
  halfOpen : m.breaker.state = .halfOpen → 0 < n
  closed : m.closedAt ≠ none → 0 < n

theorem Inv.call {n : ℕ} (h : Inv n m) : Inv (n + answers c true m i) (call c m i) where
  uncounted := by rw [call_totalCalls, h.uncounted]
  halfOpen := by
    intro hstate
    rcases halfOpen_of_call hstate with hbefore | hadmits
    · have hpos := h.halfOpen hbefore
      omega
    · omega
  closed := by
    intro hclosed
    by_cases hstate : m.breaker.state = .halfOpen
    · have hpos := h.halfOpen hstate
      omega
    · rw [call_closedAt hstate] at hclosed
      have hpos := h.closed hclosed
      omega

theorem inv_run (hrun : exec (step c) new is = some m) : Inv (admitted c is) m := by
  have hstart : Inv 0 new := ⟨rfl, nofun, fun h => absurd rfl h⟩
  have hkeep : ∀ n s (i : ℚ × Method ε) s', Inv n s → True → step c s i = some s' →
      Inv (n + answers c true s i) s' := by
    intro n s i s' h _ hs'
    obtain rfl := Option.some.inj hs'
    exact h.call
  have hinv := exec_tally hkeep hstart (Guarded.trivial _ _ _) hrun
  rw [Nat.zero_add] at hinv
  exact hinv

theorem call_totals : (call c m i).breaker.totalFailures =
      m.breaker.totalFailures + (if i.2.isTrackedFailure c then 1 else 0) ∧
    (call c m i).breaker.totalSuccesses = m.breaker.totalSuccesses + (if i.2.isSuccess then 1 else 0) := by
  rw [call_breaker]
  obtain ⟨now, method⟩ := i
  cases method with
  | canExecute =>
    simp only [Resilience.call, CircuitBreaker.canExecute, Method.isTrackedFailure, Method.isSuccess, Bool.false_eq_true,
      if_false, Nat.add_zero]
    split
    · exact ⟨rfl, rfl⟩
    · split
      · split_ifs <;> exact ⟨rfl, rfl⟩
      · exact ⟨rfl, rfl⟩
    · exact ⟨rfl, rfl⟩
  | recordSuccess =>
    simp only [Resilience.call, CircuitBreaker.recordSuccess, Method.isTrackedFailure, Method.isSuccess,
      Bool.false_eq_true, if_false, if_true]
    split_ifs <;> exact ⟨rfl, rfl⟩
  | recordFailure e =>
    by_cases htracked : (Method.recordFailure e).isTrackedFailure c = true
    · have htracks : c.exceptionsToTrack e = true := htracked
      rw [if_pos htracked]
      simp only [Resilience.call, CircuitBreaker.recordFailure, if_pos htracks, Method.isSuccess, Bool.false_eq_true,
        if_false]
      split
      · split_ifs <;> exact ⟨rfl, rfl⟩
      · exact ⟨rfl, rfl⟩
      · exact ⟨rfl, rfl⟩
    · rw [if_neg htracked, Resilience.call, recordFailure_untracked (Bool.not_eq_true _ ▸ htracked)]
      exact ⟨rfl, rfl⟩

/-- The failures and the successes are counted right. -/
theorem totals_right (hrun : exec (step c) m is = some m') :
    m'.breaker.totalFailures = m.breaker.totalFailures + failures c is ∧
      m'.breaker.totalSuccesses = m.breaker.totalSuccesses + successes is := by
  induction is generalizing m with
  | nil =>
    obtain rfl := Option.some.inj hrun
    exact ⟨rfl, rfl⟩
  | cons i is ih =>
    obtain ⟨hfailures, hsuccesses⟩ := ih (m := call c m i) hrun
    obtain ⟨hfailure, hsuccess⟩ := call_totals (c := c) (m := m) (i := i)
    unfold failures successes at *
    rw [List.countP_cons, List.countP_cons]
    omega

/-- **`get_metrics` never returns the right numbers: it raises until the circuit closes again, and then a call was
admitted that it does not count.** -/
theorem metrics_never_right (hrun : exec (step c) new is = some m) : ¬ MetricsRight c is m := by
  rintro ⟨metrics, hmetrics, hcalls, -⟩
  have hinv := inv_run hrun
  unfold getMetrics at hmetrics
  cases hclosed : m.closedAt with
  | none =>
    rw [hclosed] at hmetrics
    cases hmetrics
  | some closedAt =>
    rw [hclosed] at hmetrics
    obtain rfl := Except.ok.inj hmetrics
    have hpos := hinv.closed (by rw [hclosed]; exact nofun)
    have hzero := hinv.uncounted
    simp only at hcalls
    omega

end Methods
/-- A breaker that opened, let a call pass and closed again: `get_metrics` returns, with no call counted. -/
def closedAgain : List (ℚ × Method Unit) :=
  [(1, .canExecute), (5, .recordFailure ()), (20, .canExecute), (21, .recordSuccess), (21, .recordSuccess),
    (21, .recordSuccess)]

theorem closedAgain_not_right : ¬ MetricsRight strict closedAgain
    ⟨⟨.closed, 0, 0, some 5, 1, 3, 0⟩, 0, none, some 21⟩ :=
  metrics_never_right (by decide +kernel)

/-- A new breaker has no metrics. -/
theorem new_metrics_raise : ¬ ∀ (ε : Type) (c : CircuitBreakerConfig ε) (is : List (ℚ × Method ε)) (m : MeteredBreaker),
    exec (step c) new is = some m → MetricsRight c is m := by
  intro h
  obtain ⟨metrics, hmetrics, -⟩ := h Unit strict [] new rfl
  cases hmetrics

end MeteredBreaker
end KernelRuntime.Resilience
