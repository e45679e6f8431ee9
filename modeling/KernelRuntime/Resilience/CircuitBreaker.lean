import KernelRuntime.Foundations.Execution
import Mathlib.Algebra.Order.Ring.Rat
import Mathlib.Data.List.DropRight
import Mathlib.Tactic.Linarith

/-! # The circuit breaker

A critical section of `CircuitBreaker` has no `await`, so each of its methods is one step. Times are exact. -/

namespace KernelRuntime.Resilience
set_option autoImplicit false

inductive CircuitState where
  | closed
  | opened
  | halfOpen
deriving DecidableEq

/-- `exceptionsToTrack` answers `isinstance`. -/
structure CircuitBreakerConfig (ε : Type) where
  failureThreshold : ℤ := 5
  successThreshold : ℤ := 3
  timeout : ℚ := 60
  halfOpenMaxCalls : ℤ := 3
  exceptionsToTrack : ε → Bool

structure CircuitBreaker where
  state : CircuitState
  failureCount : ℕ
  successCount : ℕ
  lastFailureTime : Option ℚ
  totalFailures : ℕ
  totalSuccesses : ℕ
  rejectionCount : ℕ
deriving DecidableEq

namespace CircuitBreaker

def new : CircuitBreaker := ⟨.closed, 0, 0, none, 0, 0, 0⟩

def openCircuit (b : CircuitBreaker) : CircuitBreaker := { b with state := .opened, successCount := 0 }

def closeCircuit (b : CircuitBreaker) : CircuitBreaker :=
  { b with state := .closed, failureCount := 0, successCount := 0 }

section Methods
variable {ε : Type} (c : CircuitBreakerConfig ε)

/-- A failure time of zero is as good as none. -/
def canExecute (b : CircuitBreaker) (now : ℚ) : Bool × CircuitBreaker :=
  match b.state with
  | .closed => (true, b)
  | .opened =>
    match b.lastFailureTime with
    | some t =>
      if t = 0 then (false, b)
      else if now - t ≥ c.timeout then (true, { b with state := .halfOpen, successCount := 0 })
      else (false, { b with rejectionCount := b.rejectionCount + 1 })
    | none => (false, b)
  | .halfOpen => (decide ((b.successCount : ℤ) < c.halfOpenMaxCalls), b)

def recordSuccess (b : CircuitBreaker) : CircuitBreaker :=
  let b := { b with successCount := b.successCount + 1, totalSuccesses := b.totalSuccesses + 1 }
  if b.state = .halfOpen then
    if (b.successCount : ℤ) ≥ c.successThreshold then b.closeCircuit else b
  else { b with failureCount := 0 }

def recordFailure (b : CircuitBreaker) (exception : ε) (now : ℚ) : CircuitBreaker :=
  if c.exceptionsToTrack exception then
    let b := { b with
      failureCount := b.failureCount + 1
      totalFailures := b.totalFailures + 1
      lastFailureTime := some now }
    match b.state with
    | .closed => if (b.failureCount : ℤ) ≥ c.failureThreshold then b.openCircuit else b
    | .halfOpen => b.openCircuit
    | .opened => b
  else b

/-! ## What the methods do to the state -/

variable {c} {b : CircuitBreaker} {now : ℚ}

theorem canExecute_closed (h : b.state = .closed) : canExecute c b now = (true, b) := by
  unfold canExecute
  rw [h]

theorem canExecute_halfOpen (h : b.state = .halfOpen) :
    canExecute c b now = (decide ((b.successCount : ℤ) < c.halfOpenMaxCalls), b) := by
  unfold canExecute
  rw [h]

/-- An open breaker rejects, or it lets a first call pass when the timeout has elapsed. -/
theorem canExecute_opened (h : b.state = .opened) :
    ((canExecute c b now).1 = false ∧ (canExecute c b now).2.state = .opened ∧
        (canExecute c b now).2.lastFailureTime = b.lastFailureTime) ∨
      ∃ t ∈ b.lastFailureTime, c.timeout ≤ now - t ∧
        canExecute c b now = (true, { b with state := .halfOpen, successCount := 0 }) := by
  unfold canExecute
  rw [h]
  cases ht : b.lastFailureTime with
  | none => exact Or.inl ⟨rfl, h, ht⟩
  | some t =>
    simp only
    split_ifs with hzero helapsed
    · exact Or.inl ⟨rfl, h, ht⟩
    · exact Or.inr ⟨t, rfl, helapsed, rfl⟩
    · exact Or.inl ⟨rfl, rfl, rfl⟩

theorem recordSuccess_of_ne (h : b.state ≠ .halfOpen) :
    (recordSuccess c b).state = b.state ∧ (recordSuccess c b).failureCount = 0 ∧
      (recordSuccess c b).lastFailureTime = b.lastFailureTime := by
  unfold recordSuccess
  simp only [if_neg h, and_self]

theorem recordSuccess_halfOpen (h : b.state = .halfOpen) :
    (c.successThreshold ≤ b.successCount + 1 ∧ (recordSuccess c b).state = .closed ∧
        (recordSuccess c b).failureCount = 0) ∨
      ((b.successCount : ℤ) + 1 < c.successThreshold ∧ (recordSuccess c b).state = .halfOpen ∧
        (recordSuccess c b).successCount = b.successCount + 1) := by
  unfold recordSuccess
  simp only [if_pos h, Nat.cast_add, Nat.cast_one]
  split_ifs with hreached
  · exact Or.inl ⟨hreached, rfl, rfl⟩
  · exact Or.inr ⟨not_le.mp hreached, h, rfl⟩

theorem recordFailure_untracked {e : ε} (h : c.exceptionsToTrack e = false) : recordFailure c b e now = b := by
  unfold recordFailure
  rw [h]
  rfl

theorem lastFailureTime_recordFailure {e : ε} (h : c.exceptionsToTrack e = true) :
    (recordFailure c b e now).lastFailureTime = some now := by
  unfold recordFailure
  simp only [if_pos h]
  split
  · split_ifs
    · rfl
    · rfl
  · rfl
  · rfl

theorem recordFailure_opened {e : ε} (h : b.state = .opened) : (recordFailure c b e now).state = .opened := by
  unfold recordFailure
  split_ifs
  · simp only [h]
  · exact h

theorem recordFailure_halfOpen {e : ε} (h : b.state = .halfOpen) (htracked : c.exceptionsToTrack e = true) :
    (recordFailure c b e now).state = .opened := by
  unfold recordFailure
  simp only [if_pos htracked, h]
  rfl

theorem recordFailure_closed {e : ε} (h : b.state = .closed) (htracked : c.exceptionsToTrack e = true) :
    (c.failureThreshold ≤ b.failureCount + 1 ∧ (recordFailure c b e now).state = .opened) ∨
      ((b.failureCount : ℤ) + 1 < c.failureThreshold ∧ (recordFailure c b e now).state = .closed ∧
        (recordFailure c b e now).failureCount = b.failureCount + 1) := by
  unfold recordFailure
  simp only [if_pos htracked, h, Nat.cast_add, Nat.cast_one]
  split_ifs with hreached
  · exact Or.inl ⟨hreached, rfl⟩
  · exact Or.inr ⟨not_le.mp hreached, rfl, rfl⟩

end Methods
end CircuitBreaker

/-! ## Runs -/

open CircuitBreaker

inductive Method (ε : Type) where
  | canExecute
  | recordSuccess
  | recordFailure (exception : ε)

structure Timed where
  breaker : CircuitBreaker
  clock : ℚ
deriving DecidableEq

section Runs
variable {ε : Type} (c : CircuitBreakerConfig ε)

def call (b : CircuitBreaker) (now : ℚ) : Method ε → CircuitBreaker
  | .canExecute => (canExecute c b now).2
  | .recordSuccess => recordSuccess c b
  | .recordFailure e => recordFailure c b e now

/-- The clock does not go back. -/
def step (s : Timed) (i : ℚ × Method ε) : Option Timed :=
  if s.clock ≤ i.1 then some ⟨call c s.breaker i.1 i.2, i.1⟩ else none

def Method.isSuccess : Method ε → Bool
  | .recordSuccess => true
  | _ => false

def Method.isTrackedFailure : Method ε → Bool
  | .recordFailure e => c.exceptionsToTrack e
  | _ => false

/-- The tracked failures since the last success. A breaker closes at a success, so that they are also those since
it closed. -/
def failuresSince (is : List (ℚ × Method ε)) : ℕ :=
  (is.rtakeWhile fun i => !i.2.isSuccess).countP fun i => i.2.isTrackedFailure c

variable {c} {s s' : Timed} {i : ℚ × Method ε} {is : List (ℚ × Method ε)}

theorem step_eq_some (h : step c s i = some s') : s.clock ≤ i.1 ∧ s' = ⟨call c s.breaker i.1 i.2, i.1⟩ := by
  unfold step at h
  split_ifs at h with hclock
  exact ⟨hclock, (Option.some.inj h).symm⟩

theorem clock_le (h : exec (step c) s is = some s') : s.clock ≤ s'.clock := by
  have hkeep : ∀ t i t', s.clock ≤ t.clock → step c t i = some t' → s.clock ≤ t'.clock := by
    intro t i t' ht hi
    obtain ⟨hclock, rfl⟩ := step_eq_some hi
    exact ht.trans hclock
  exact exec_invariant_all hkeep le_rfl h

/-- A breaker closes only at a success. -/
theorem recordSuccess_of_closes (h : step c s i = some s') (hnot : s.breaker.state ≠ .closed)
    (hclosed : s'.breaker.state = .closed) : i.2 = .recordSuccess := by
  obtain ⟨_, rfl⟩ := step_eq_some h
  obtain ⟨now, method⟩ := i
  cases method with
  | recordSuccess => rfl
  | canExecute =>
    cases hs : s.breaker.state with
    | closed => exact absurd hs hnot
    | opened =>
      rcases @canExecute_opened _ c _ now hs with ⟨_, hopened, _⟩ | ⟨_, _, _, hpass⟩
      · exact nomatch hopened.symm.trans hclosed
      · rw [call, hpass] at hclosed
        cases hclosed
    | halfOpen =>
      rw [call, canExecute_halfOpen hs, hs] at hclosed
      cases hclosed
  | recordFailure e =>
    by_cases htracked : c.exceptionsToTrack e
    · cases hs : s.breaker.state with
      | closed => exact absurd hs hnot
      | opened => exact nomatch (recordFailure_opened hs).symm.trans hclosed
      | halfOpen => exact nomatch (recordFailure_halfOpen hs htracked).symm.trans hclosed
    · rw [call, recordFailure_untracked (Bool.not_eq_true _ ▸ htracked)] at hclosed
      exact absurd hclosed hnot

/-! ## Counting failures -/

theorem failuresSince_success {now : ℚ} : failuresSince c (is ++ [(now, .recordSuccess)]) = 0 := by
  unfold failuresSince
  rw [List.rtakeWhile_concat_neg _ _ _ (by exact Bool.false_ne_true)]
  rfl

theorem failuresSince_concat (h : i.2.isSuccess = false) :
    failuresSince c (is ++ [i]) = failuresSince c is + if i.2.isTrackedFailure c then 1 else 0 := by
  unfold failuresSince
  rw [List.rtakeWhile_concat_pos _ _ _ (by rw [h]; rfl), List.countP_append, List.countP_singleton]

structure Counts (c : CircuitBreakerConfig ε) (is : List (ℚ × Method ε)) (b : CircuitBreaker) : Prop where
  failures : b.failureCount = failuresSince c is
  below : (b.failureCount : ℤ) < c.failureThreshold

theorem Counts.step (hthreshold : 1 ≤ c.failureThreshold)
    (h : s.breaker.state = .closed → Counts c is s.breaker) (hstep : step c s i = some s')
    (hclosed : s'.breaker.state = .closed) : Counts c (is ++ [i]) s'.breaker := by
  have hcloses := recordSuccess_of_closes hstep
  obtain ⟨_, rfl⟩ := step_eq_some hstep
  obtain ⟨now, method⟩ := i
  cases method with
  | recordSuccess =>
    have hzero : (recordSuccess c s.breaker).failureCount = 0 := by
      by_cases hs : s.breaker.state = .halfOpen
      · rcases recordSuccess_halfOpen (c := c) hs with ⟨_, _, hzero⟩ | ⟨_, hstays, _⟩
        · exact hzero
        · exact nomatch hstays.symm.trans hclosed
      · exact (recordSuccess_of_ne hs).2.1
    refine ⟨hzero.trans failuresSince_success.symm, ?_⟩
    rw [call, hzero]
    exact hthreshold
  | canExecute =>
    by_cases hs : s.breaker.state = .closed
    · obtain ⟨hcount, hbelow⟩ := h hs
      rw [call, canExecute_closed hs]
      refine ⟨?_, hbelow⟩
      rw [failuresSince_concat rfl, hcount]
      rfl
    · exact nomatch hcloses hs hclosed
  | recordFailure e =>
    by_cases hs : s.breaker.state = .closed
    · obtain ⟨hcount, hbelow⟩ := h hs
      by_cases htracked : c.exceptionsToTrack e
      · rcases @recordFailure_closed _ c _ now e hs htracked with ⟨_, hopens⟩ | ⟨hlow, _, hmore⟩
        · exact nomatch hopens.symm.trans hclosed
        · refine ⟨?_, ?_⟩
          · rw [call, hmore, failuresSince_concat rfl, hcount, Method.isTrackedFailure, if_pos htracked]
          · rw [call, hmore, Nat.cast_add, Nat.cast_one]
            exact hlow
      · rw [call, recordFailure_untracked (Bool.not_eq_true _ ▸ htracked)]
        refine ⟨?_, hbelow⟩
        rw [failuresSince_concat rfl, hcount, Method.isTrackedFailure, if_neg htracked, Nat.add_zero]
    · exact nomatch hcloses hs hclosed

theorem Counts.run (hthreshold : 1 ≤ c.failureThreshold) {t0 : ℚ}
    (hrun : exec (Resilience.step c) ⟨new, t0⟩ is = some s) (hclosed : s.breaker.state = .closed) :
    Counts c is s.breaker := by
  induction is using List.reverseRecOn generalizing s with
  | nil =>
    obtain rfl := Option.some.inj hrun
    exact ⟨rfl, hthreshold⟩
  | append_singleton is i ih =>
    obtain ⟨s', hrun', hstep⟩ := (exec_concat_eq_some _).mp hrun
    exact Counts.step hthreshold (ih hrun') hstep hclosed

theorem Counts.opens_iff (h : Counts c is s.breaker) (hs : s.breaker.state = .closed)
    (hstep : Resilience.step c s i = some s') :
    s'.breaker.state = .opened ↔
      i.2.isTrackedFailure c ∧ (failuresSince c (is ++ [i]) : ℤ) = c.failureThreshold := by
  obtain ⟨_, rfl⟩ := step_eq_some hstep
  obtain ⟨now, method⟩ := i
  cases method with
  | canExecute =>
    rw [call, canExecute_closed hs, hs]
    exact ⟨nofun, fun htracked => nomatch htracked.1⟩
  | recordSuccess =>
    rw [call, (recordSuccess_of_ne (by rw [hs]; nofun)).1, hs]
    exact ⟨nofun, fun htracked => nomatch htracked.1⟩
  | recordFailure e =>
    by_cases htracked : c.exceptionsToTrack e
    · rw [failuresSince_concat rfl, ← h.failures, Method.isTrackedFailure, if_pos htracked, Nat.cast_add, Nat.cast_one]
      rcases @recordFailure_closed _ c _ now e hs htracked with ⟨hreached, hopens⟩ | ⟨hlow, hstays, _⟩
      · have hbelow := h.below
        exact ⟨fun _ => ⟨htracked, by omega⟩, fun _ => hopens⟩
      · rw [call, hstays]
        exact ⟨nofun, fun hthreshold => absurd hthreshold.2 hlow.ne⟩
    · rw [call, recordFailure_untracked (Bool.not_eq_true _ ▸ htracked), hs, Method.isTrackedFailure]
      exact ⟨nofun, fun hfailure => absurd hfailure.1 htracked⟩

/-! ## The open period -/

def OpenSince (t : ℚ) (b : CircuitBreaker) : Prop := b.state = .opened ∧ ∃ u ∈ b.lastFailureTime, t ≤ u

theorem OpenSince.rejects {t now : ℚ} {b : CircuitBreaker} (h : OpenSince t b) (hnow : now < t + c.timeout) :
    (canExecute c b now).1 = false ∧ OpenSince t (canExecute c b now).2 := by
  obtain ⟨hopened, u, hu, htu⟩ := h
  rcases @canExecute_opened _ c _ now hopened with ⟨hrejects, hstays, hsame⟩ | ⟨v, hv, helapsed, _⟩
  · exact ⟨hrejects, hstays, u, hsame ▸ hu, htu⟩
  · obtain rfl := Option.some.inj (hu.symm.trans hv)
    exact absurd helapsed (by linarith)

theorem OpenSince.step {t : ℚ} (h : OpenSince t s.breaker) (ht : t ≤ s.clock)
    (hstep : Resilience.step c s i = some s') (hearly : s'.clock < t + c.timeout) : OpenSince t s'.breaker := by
  obtain ⟨hclock, rfl⟩ := step_eq_some hstep
  obtain ⟨now, method⟩ := i
  cases method with
  | canExecute => exact (h.rejects hearly).2
  | recordSuccess =>
    have hne : s.breaker.state ≠ .halfOpen := by rw [h.1]; nofun
    obtain ⟨hstate, _, hsame⟩ := recordSuccess_of_ne (c := c) hne
    obtain ⟨u, hu, htu⟩ := h.2
    exact ⟨hstate.trans h.1, u, hsame ▸ hu, htu⟩
  | recordFailure e =>
    by_cases htracked : c.exceptionsToTrack e
    · exact ⟨recordFailure_opened h.1, now, lastFailureTime_recordFailure htracked, ht.trans hclock⟩
    · rw [call, recordFailure_untracked (Bool.not_eq_true _ ▸ htracked)]
      exact h

/-- No late result shortens the open period. -/
theorem OpenSince.run {t : ℚ} (h : OpenSince t s.breaker) (ht : t ≤ s.clock)
    (hrun : exec (Resilience.step c) s is = some s') (hearly : s'.clock < t + c.timeout) :
    OpenSince t s'.breaker := by
  induction is generalizing s with
  | nil => exact Option.some.inj hrun ▸ h
  | cons i is ih =>
    obtain ⟨s₁, hstep, hrun'⟩ := (exec_cons_eq_some _).mp hrun
    have hnext : s.clock ≤ s₁.clock := by
      obtain ⟨hclock, rfl⟩ := step_eq_some hstep
      exact hclock
    exact ih (h.step ht hstep ((clock_le hrun').trans_lt hearly)) (ht.trans hnext) hrun'

theorem OpenSince.of_failure {t : ℚ} {e : ε} (htracked : c.exceptionsToTrack e)
    (hstep : Resilience.step c s (t, .recordFailure e) = some s') (hopened : s'.breaker.state = .opened) :
    OpenSince t s'.breaker ∧ s'.clock = t := by
  obtain ⟨_, rfl⟩ := step_eq_some hstep
  exact ⟨⟨hopened, t, lastFailureTime_recordFailure htracked, le_rfl⟩, rfl⟩

end Runs

/-- **The law of the breaker: a closed one counts the failures since the last success and opens at the threshold,
and no call passes for `timeout` after a failure that leaves it open.** -/
theorem circuit_breaker_law {ε : Type} (c : CircuitBreakerConfig ε) (hthreshold : 1 ≤ c.failureThreshold) (t0 : ℚ)
    (is : List (ℚ × Method ε)) (s : Timed) (hrun : exec (step c) ⟨new, t0⟩ is = some s) :
    (s.breaker.state = .closed →
        s.breaker.failureCount = failuresSince c is ∧ (s.breaker.failureCount : ℤ) < c.failureThreshold ∧
          ∀ i s', step c s i = some s' → (s'.breaker.state = .opened ↔
            i.2.isTrackedFailure c ∧ (failuresSince c (is ++ [i]) : ℤ) = c.failureThreshold)) ∧
      ∀ t e s₁ js s₂ now, c.exceptionsToTrack e → step c s (t, .recordFailure e) = some s₁ →
        s₁.breaker.state = .opened → exec (step c) s₁ js = some s₂ → s₂.clock ≤ now → now < t + c.timeout →
          (canExecute c s₂.breaker now).1 = false := by
  refine ⟨fun hclosed => ?_, fun t e s₁ js s₂ now htracked hstep hopened hrun' hclock hnow => ?_⟩
  · have hcounts := Counts.run hthreshold hrun hclosed
    exact ⟨hcounts.failures, hcounts.below, fun i s' hstep => hcounts.opens_iff hclosed hstep⟩
  · obtain ⟨hsince, hclock₁⟩ := OpenSince.of_failure htracked hstep hopened
    exact ((hsince.run hclock₁.ge hrun' (hclock.trans_lt hnow)).rejects hnow).1

/-- One failure opens this breaker for ten seconds. -/
def strict : CircuitBreakerConfig Unit := { failureThreshold := 1, timeout := 10, exceptionsToTrack := fun _ => true }

/-- A failure at time 5, and a late success at time 6. -/
theorem strict_rejects : (canExecute strict ⟨.opened, 0, 1, some 5, 1, 1, 0⟩ 14).1 = false :=
  (circuit_breaker_law strict (by decide) 1 [] ⟨new, 1⟩ rfl).2 5 () ⟨⟨.opened, 1, 0, some 5, 1, 0, 0⟩, 5⟩
    [(6, .recordSuccess)] ⟨⟨.opened, 0, 1, some 5, 1, 1, 0⟩, 6⟩ 14 rfl (by decide +kernel) rfl (by decide +kernel)
    (by decide +kernel) (by decide +kernel)

end KernelRuntime.Resilience
