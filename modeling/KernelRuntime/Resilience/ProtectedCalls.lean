import KernelRuntime.Foundations.Counting
import KernelRuntime.Resilience.CircuitBreaker

/-! # Calls through the circuit breaker

`protected` asks `can_execute`, runs the function and records the result. Calls interleave at the `await` of the
function; a call that is cancelled records nothing. A HALF_OPEN episode begins with the call that leaves OPEN. -/

namespace KernelRuntime.ProtectedCalls
open Resilience Resilience.CircuitBreaker
set_option autoImplicit false

/-- `running` has the calls that are admitted, each with its HALF_OPEN episode. Of the last episode, `admitted` are
all calls and `succeeded` those that succeeded in it, `unrecorded` ended in it and recorded nothing; `late` are the
successes of other calls since it began. -/
structure State where
  breaker : CircuitBreaker
  clock : ℚ
  running : OrderedDict ℕ (Option ℕ)
  episode : ℕ
  admitted : ℕ
  succeeded : ℕ
  unrecorded : ℕ
  late : ℕ

def State.init (now : ℚ) : State := ⟨new, now, .empty, 0, 0, 0, 0, 0⟩

inductive Label (ε : Type) where
  | call (id : ℕ) (now : ℚ)
  | returns (id : ℕ) (now : ℚ)
  | raises (id : ℕ) (exception : ε) (now : ℚ)
  | cancelled (id : ℕ) (now : ℚ)

def Label.now {ε : Type} : Label ε → ℚ
  | .call _ now | .returns _ now | .raises _ _ now | .cancelled _ now => now

def State.InEpisode (s : State) (episode : Option ℕ) : Prop :=
  s.breaker.state = .halfOpen ∧ episode = some s.episode

instance (s : State) (episode : Option ℕ) : Decidable (s.InEpisode episode) := inferInstanceAs (Decidable (_ ∧ _))

section Calls
variable {ε : Type} (c : CircuitBreakerConfig ε)

/-- The call has passed `can_execute`, which leaves `b`. -/
def admitCall (s : State) (b : CircuitBreaker) (id : ℕ) : State :=
  match s.breaker.state with
  | .closed => { s with breaker := b, running := s.running.set id none }
  | .opened =>
    { s with
      breaker := b
      running := s.running.set id (some (s.episode + 1))
      episode := s.episode + 1
      admitted := 1
      succeeded := 0
      unrecorded := 0
      late := 0 }
  | .halfOpen =>
    { s with breaker := b, running := s.running.set id (some s.episode), admitted := s.admitted + 1 }

def begin (s : State) (id : ℕ) (now : ℚ) : State :=
  let (pass, b) := canExecute c s.breaker now
  if pass then admitCall s b id else { s with breaker := b }

def succeed (s : State) (id : ℕ) (episode : Option ℕ) : State :=
  let s' := { s with breaker := recordSuccess c s.breaker, running := s.running.erase id }
  if s.InEpisode episode then { s' with succeeded := s.succeeded + 1 } else { s' with late := s.late + 1 }

def abandon (s : State) (id : ℕ) (episode : Option ℕ) : State :=
  let s' := { s with running := s.running.erase id }
  if s.InEpisode episode then { s' with unrecorded := s.unrecorded + 1 } else s'

def fail (s : State) (id : ℕ) (episode : Option ℕ) (exception : ε) (now : ℚ) : State :=
  if c.exceptionsToTrack exception then
    { s with breaker := recordFailure c s.breaker exception now, running := s.running.erase id }
  else abandon s id episode

def stepAt (s : State) : Label ε → Option State
  | .call id now => if (s.running.get? id).isNone then some (begin c s id now) else none
  | .returns id _ => (s.running.get? id).map fun episode => succeed c s id episode
  | .raises id exception now => (s.running.get? id).map fun episode => fail c s id episode exception now
  | .cancelled id _ => (s.running.get? id).map fun episode => abandon s id episode

def step (s : State) (i : Label ε) : Option State :=
  if s.clock ≤ i.now then stepAt c { s with clock := i.now } i else none

/-! ## The breaker below -/

def methodOf : Label ε → Option (Method ε)
  | .call _ _ => some .canExecute
  | .returns _ _ => some .recordSuccess
  | .raises _ exception _ => some (.recordFailure exception)
  | .cancelled _ _ => none

def readings (is : List (Label ε)) : List (ℚ × Method ε) := is.filterMap fun i => (methodOf i).map (i.now, ·)

variable {c} {s s' : State}

@[simp] theorem breaker_admitCall (s : State) (b : CircuitBreaker) (id : ℕ) : (admitCall s b id).breaker = b := by
  unfold admitCall
  split <;> rfl

@[simp] theorem breaker_begin (s : State) (id : ℕ) (now : ℚ) :
    (begin c s id now).breaker = (canExecute c s.breaker now).2 := by
  unfold begin
  simp only
  split_ifs
  · exact breaker_admitCall _ _ _
  · rfl

@[simp] theorem breaker_succeed (s : State) (id : ℕ) (episode : Option ℕ) :
    (succeed c s id episode).breaker = recordSuccess c s.breaker := by
  unfold succeed
  simp only
  split_ifs <;> rfl

@[simp] theorem breaker_abandon (s : State) (id : ℕ) (episode : Option ℕ) :
    (abandon s id episode).breaker = s.breaker := by
  unfold abandon
  simp only
  split_ifs <;> rfl

@[simp] theorem breaker_fail (s : State) (id : ℕ) (episode : Option ℕ) (e : ε) (now : ℚ) :
    (fail c s id episode e now).breaker = recordFailure c s.breaker e now := by
  unfold fail
  split_ifs with htracked
  · rfl
  · rw [breaker_abandon, recordFailure_untracked (Bool.not_eq_true _ ▸ htracked)]

theorem step_eq_some {i : Label ε} (h : step c s i = some s') :
    s.clock ≤ i.now ∧ stepAt c { s with clock := i.now } i = some s' := by
  unfold step at h
  split_ifs at h with hclock
  exact ⟨hclock, h⟩

theorem step_of_le {i : Label ε} (h : s.clock ≤ i.now) : step c s i = stepAt c { s with clock := i.now } i :=
  if_pos h

@[simp] theorem clock_begin (s : State) (id : ℕ) (now : ℚ) : (begin c s id now).clock = s.clock := by
  unfold begin admitCall
  simp only
  split_ifs
  · split <;> rfl
  · rfl

@[simp] theorem clock_succeed (s : State) (id : ℕ) (episode : Option ℕ) :
    (succeed c s id episode).clock = s.clock := by
  unfold succeed
  simp only
  split_ifs <;> rfl

@[simp] theorem clock_abandon (s : State) (id : ℕ) (episode : Option ℕ) : (abandon s id episode).clock = s.clock := by
  unfold abandon
  simp only
  split_ifs <;> rfl

@[simp] theorem clock_fail (s : State) (id : ℕ) (episode : Option ℕ) (e : ε) (now : ℚ) :
    (fail c s id episode e now).clock = s.clock := by
  unfold fail
  split_ifs
  · rfl
  · exact clock_abandon s id episode

/-- A step makes the breaker's own call, if any, and moves the clock. -/
theorem breaker_step {i : Label ε} (h : step c s i = some s') :
    s'.clock = i.now ∧ s'.breaker = ((methodOf i).map (Resilience.call c s.breaker i.now)).getD s.breaker := by
  obtain ⟨_, hstep⟩ := step_eq_some h
  cases i with
  | call id now =>
    simp only [stepAt] at hstep
    split_ifs at hstep
    obtain rfl := Option.some.inj hstep
    exact ⟨clock_begin _ id now, breaker_begin _ id now⟩
  | returns id now =>
    obtain ⟨episode, _, rfl⟩ := Option.map_eq_some_iff.mp hstep
    exact ⟨clock_succeed _ id episode, breaker_succeed _ id episode⟩
  | raises id e now =>
    obtain ⟨episode, _, rfl⟩ := Option.map_eq_some_iff.mp hstep
    exact ⟨clock_fail _ id episode e now, breaker_fail _ id episode e now⟩
  | cancelled id now =>
    obtain ⟨episode, _, rfl⟩ := Option.map_eq_some_iff.mp hstep
    exact ⟨clock_abandon _ id episode, breaker_abandon _ id episode⟩

/-- **Every run of protected calls is a run of the breaker.** -/
theorem readings_run {is : List (Label ε)} (hrun : exec (step c) s is = some s') {t : Timed}
    (hbreaker : t.breaker = s.breaker) (hclock : t.clock ≤ s.clock) :
    ∃ t', exec (Resilience.step c) t (readings is) = some t' ∧ t'.breaker = s'.breaker ∧ t'.clock ≤ s'.clock := by
  induction is generalizing s t with
  | nil =>
    obtain rfl := Option.some.inj hrun
    exact ⟨t, rfl, hbreaker, hclock⟩
  | cons i is ih =>
    obtain ⟨s₁, hstep, hrun'⟩ := (exec_cons_eq_some _).mp hrun
    obtain ⟨hnow, hb⟩ := breaker_step hstep
    have hlater := (step_eq_some hstep).1
    cases hi : methodOf i with
    | none =>
      rw [hi] at hb
      have hskip : readings (i :: is) = readings is := by simp [readings, hi]
      rw [hskip]
      exact ih hrun' (hbreaker.trans hb.symm) (hclock.trans (hlater.trans hnow.ge))
    | some method =>
      rw [hi] at hb
      have hkeep : readings (i :: is) = (i.now, method) :: readings is := by simp [readings, hi]
      obtain ⟨t', hrun'', hend⟩ := ih hrun' (t := ⟨s₁.breaker, i.now⟩) rfl hnow.ge
      refine ⟨t', ?_, hend⟩
      rw [hkeep, exec_cons_eq_some]
      refine ⟨⟨s₁.breaker, i.now⟩, ?_, hrun''⟩
      unfold Resilience.step
      rw [if_pos (hclock.trans hlater), hb, hbreaker]
      rfl

/-! ## The accounts of an episode -/

def probes (running : OrderedDict ℕ (Option ℕ)) (episode : ℕ) : ℕ :=
  running.values.countP fun e => e = some episode

variable (c) in
structure Inv (s : State) : Prop where
  known : ∀ id k, s.running.get? id = some (some k) → k ≤ s.episode
  admitted : s.breaker.state = .halfOpen → s.admitted = probes s.running s.episode + s.unrecorded + s.succeeded
  successes : s.breaker.state = .halfOpen → s.breaker.successCount = s.succeeded + s.late
  below : s.breaker.state = .halfOpen →
    (s.breaker.successCount : ℤ) < c.successThreshold ∨ s.breaker.successCount = 0

theorem probes_set {running : OrderedDict ℕ (Option ℕ)} {id : ℕ} (hnew : running.get? id = none) (k : ℕ)
    (e : Option ℕ) : probes (running.set id e) k = probes running k + if e = some k then 1 else 0 := by
  unfold probes
  rw [countP_values_set_new _ hnew]
  simp only [decide_eq_true_eq]

theorem probes_erase_add {running : OrderedDict ℕ (Option ℕ)} {id : ℕ} {e : Option ℕ}
    (hid : running.get? id = some e) (k : ℕ) :
    probes (running.erase id) k + (if e = some k then 1 else 0) = probes running k := by
  unfold probes
  rw [← countP_values_erase_add _ hid]
  simp only [decide_eq_true_eq]

theorem probes_new {running : OrderedDict ℕ (Option ℕ)} {k : ℕ}
    (h : ∀ id j, running.get? id = some (some j) → j ≤ k) : probes running (k + 1) = 0 := by
  unfold probes
  rw [List.countP_eq_zero]
  intro e he hk
  obtain rfl : e = some (k + 1) := of_decide_eq_true hk
  obtain ⟨id, hid⟩ := (OrderedDict.mem_values_iff _ _).mp he
  have := h id (k + 1) hid
  omega

theorem Inv.init (now : ℚ) : Inv c (State.init now) := ⟨nofun, nofun, nofun, nofun⟩

theorem known_set {s : State} {id n : ℕ} {e : Option ℕ} (h : ∀ id k, s.running.get? id = some (some k) → k ≤ s.episode)
    (hle : s.episode ≤ n) (he : ∀ k ∈ e, k ≤ n) :
    ∀ id' k, (s.running.set id e).get? id' = some (some k) → k ≤ n := by
  intro id' k hk
  rw [OrderedDict.get?_set] at hk
  split_ifs at hk with hid
  · exact he k (Option.some.inj hk)
  · exact (h id' k hk).trans hle

theorem Inv.begin {id : ℕ} {now : ℚ} (h : Inv c s) (hnew : s.running.get? id = none) : Inv c (begin c s id now) := by
  unfold ProtectedCalls.begin
  cases hs : s.breaker.state with
  | closed =>
    rw [canExecute_closed hs]
    have hnot : s.breaker.state ≠ .halfOpen := by rw [hs]; nofun
    simp only [admitCall, hs, if_true]
    exact ⟨known_set h.known le_rfl nofun, (absurd · hnot), (absurd · hnot), (absurd · hnot)⟩
  | halfOpen =>
    rw [canExecute_halfOpen hs]
    simp only [admitCall, hs]
    split_ifs
    · refine ⟨known_set h.known le_rfl fun k hk => (Option.some.inj hk).ge, fun _ => ?_, h.successes, h.below⟩
      have hcount := h.admitted hs
      simp only [probes_set hnew, if_true]
      omega
    · exact ⟨h.known, h.admitted, h.successes, h.below⟩
  | opened =>
    rcases @canExecute_opened _ c _ now hs with ⟨hrejects, hstays, _⟩ | ⟨_, _, _, hpass⟩
    · have hnot : (canExecute c s.breaker now).2.state ≠ .halfOpen := by rw [hstays]; nofun
      simp only [hrejects, Bool.false_eq_true, if_false]
      exact ⟨h.known, (absurd · hnot), (absurd · hnot), (absurd · hnot)⟩
    · rw [hpass]
      simp only [admitCall, hs, if_true]
      refine ⟨known_set h.known (Nat.le_succ _) fun k hk => (Option.some.inj hk).ge, fun _ => ?_, fun _ => rfl,
        fun _ => Or.inr rfl⟩
      simp [probes_set hnew, probes_new h.known]

theorem Inv.succeed {id : ℕ} {episode : Option ℕ} (h : Inv c s) (hid : s.running.get? id = some episode) :
    Inv c (succeed c s id episode) := by
  have hknown : ∀ id' k, (s.running.erase id).get? id' = some (some k) → k ≤ s.episode :=
    fun id' k hk => h.known id' k (OrderedDict.get?_of_get?_erase hk)
  have hprobes := probes_erase_add hid s.episode
  by_cases hs : s.breaker.state = .halfOpen
  · have hadmitted := h.admitted hs
    have hsuccesses := h.successes hs
    rcases recordSuccess_halfOpen (c := c) hs with ⟨_, hcloses, _⟩ | ⟨hlow, _, hcount⟩
    · have hnot : (recordSuccess c s.breaker).state ≠ .halfOpen := by rw [hcloses]; nofun
      unfold ProtectedCalls.succeed
      simp only
      split_ifs
      · exact ⟨hknown, (absurd · hnot), (absurd · hnot), (absurd · hnot)⟩
      · exact ⟨hknown, (absurd · hnot), (absurd · hnot), (absurd · hnot)⟩
    · have hbelow : ((recordSuccess c s.breaker).successCount : ℤ) < c.successThreshold := by
        rw [hcount, Nat.cast_add, Nat.cast_one]
        exact hlow
      unfold ProtectedCalls.succeed
      simp only
      split_ifs with hprobe
      · rw [if_pos hprobe.2] at hprobes
        refine ⟨hknown, fun _ => ?_, fun _ => ?_, fun _ => Or.inl hbelow⟩
        · simp only
          omega
        · simp only [hcount]
          omega
      · rw [if_neg fun he => hprobe ⟨hs, he⟩] at hprobes
        refine ⟨hknown, fun _ => ?_, fun _ => ?_, fun _ => Or.inl hbelow⟩
        · simp only
          omega
        · simp only [hcount]
          omega
  · have hnot : (recordSuccess c s.breaker).state ≠ .halfOpen := by rwa [(recordSuccess_of_ne hs).1]
    unfold ProtectedCalls.succeed
    simp only
    rw [if_neg fun hprobe => hs hprobe.1]
    exact ⟨hknown, (absurd · hnot), (absurd · hnot), (absurd · hnot)⟩

theorem Inv.abandon {id : ℕ} {episode : Option ℕ} (h : Inv c s) (hid : s.running.get? id = some episode) :
    Inv c (abandon s id episode) := by
  have hknown : ∀ id' k, (s.running.erase id).get? id' = some (some k) → k ≤ s.episode :=
    fun id' k hk => h.known id' k (OrderedDict.get?_of_get?_erase hk)
  have hprobes := probes_erase_add hid s.episode
  unfold ProtectedCalls.abandon
  simp only
  split_ifs with hprobe
  · rw [if_pos hprobe.2] at hprobes
    refine ⟨hknown, fun hs => ?_, h.successes, h.below⟩
    have hadmitted := h.admitted hs
    simp only
    omega
  · refine ⟨hknown, fun hs => ?_, h.successes, h.below⟩
    rw [if_neg fun he => hprobe ⟨hs, he⟩] at hprobes
    have hadmitted := h.admitted hs
    simp only
    omega

theorem recordFailure_ne_halfOpen {b : CircuitBreaker} {e : ε} {now : ℚ} (htracked : c.exceptionsToTrack e = true) :
    (recordFailure c b e now).state ≠ .halfOpen := by
  cases hb : b.state with
  | opened => rw [recordFailure_opened hb]; nofun
  | halfOpen => rw [recordFailure_halfOpen hb htracked]; nofun
  | closed =>
    rcases @recordFailure_closed _ c _ now e hb htracked with ⟨_, hopens⟩ | ⟨_, hstays, _⟩
    · rw [hopens]; nofun
    · rw [hstays]; nofun

theorem Inv.fail {id : ℕ} {episode : Option ℕ} (h : Inv c s) (hid : s.running.get? id = some episode) (e : ε)
    (now : ℚ) : Inv c (fail c s id episode e now) := by
  unfold ProtectedCalls.fail
  split_ifs with htracked
  · have hnot := @recordFailure_ne_halfOpen _ c s.breaker e now htracked
    exact ⟨fun id' k hk => h.known id' k (OrderedDict.get?_of_get?_erase hk), (absurd · hnot), (absurd · hnot),
      (absurd · hnot)⟩
  · exact h.abandon hid

theorem Inv.clock (h : Inv c s) (now : ℚ) : Inv c { s with clock := now } :=
  ⟨h.known, h.admitted, h.successes, h.below⟩

theorem Inv.step {i : Label ε} (h : Inv c s) (hstep : ProtectedCalls.step c s i = some s') : Inv c s' := by
  obtain ⟨_, hstep'⟩ := step_eq_some hstep
  have hs := h.clock i.now
  cases i with
  | call id now =>
    simp only [stepAt] at hstep'
    split_ifs at hstep' with hnew
    obtain rfl := Option.some.inj hstep'
    exact hs.begin (Option.isNone_iff_eq_none.mp hnew)
  | returns id now =>
    obtain ⟨episode, hid, rfl⟩ := Option.map_eq_some_iff.mp hstep'
    exact hs.succeed hid
  | raises id e now =>
    obtain ⟨episode, hid, rfl⟩ := Option.map_eq_some_iff.mp hstep'
    exact hs.fail hid e now
  | cancelled id now =>
    obtain ⟨episode, hid, rfl⟩ := Option.map_eq_some_iff.mp hstep'
    exact hs.abandon hid

/-! ## How many calls an episode admits -/

variable (c) in
def WithinLimit (s : State) : Prop := s.breaker.state = .halfOpen → (s.admitted : ℤ) ≤ c.halfOpenMaxCalls

variable (c) in
/-- A call that finds the breaker HALF_OPEN, and fewer successes counted than the limit, finds also fewer calls of
the episode that run, have succeeded or have ended unrecorded. -/
def AdmissionOk (s : State) : Label ε → Prop
  | .call id now => s.clock ≤ now → s.running.get? id = none → s.breaker.state = .halfOpen →
      (s.breaker.successCount : ℤ) < c.halfOpenMaxCalls →
        ((probes s.running s.episode + s.unrecorded + s.succeeded : ℕ) : ℤ) < c.halfOpenMaxCalls
  | _ => True

theorem admitted_begin_halfOpen {id : ℕ} {now : ℚ} (hs : s.breaker.state = .halfOpen) :
    (begin c s id now).admitted =
      if (s.breaker.successCount : ℤ) < c.halfOpenMaxCalls then s.admitted + 1 else s.admitted := by
  unfold begin
  simp only [canExecute_halfOpen hs, decide_eq_true_eq]
  split_ifs
  · simp only [admitCall, hs]
  · rfl

theorem WithinLimit.begin (hmax : 1 ≤ c.halfOpenMaxCalls) {id : ℕ} {now : ℚ} (hinv : Inv c s)
    (h : WithinLimit c s) (hok : s.breaker.state = .halfOpen → (s.breaker.successCount : ℤ) < c.halfOpenMaxCalls →
      ((probes s.running s.episode + s.unrecorded + s.succeeded : ℕ) : ℤ) < c.halfOpenMaxCalls) :
    WithinLimit c (begin c s id now) := by
  intro hstate
  cases hs : s.breaker.state with
  | closed =>
    rw [breaker_begin, canExecute_closed hs, hs] at hstate
    cases hstate
  | halfOpen =>
    rw [admitted_begin_halfOpen hs]
    split_ifs with hpass
    · have hroom := hok hs hpass
      rw [← hinv.admitted hs] at hroom
      omega
    · exact h hs
  | opened =>
    rcases @canExecute_opened _ c _ now hs with ⟨_, hstays, _⟩ | ⟨_, _, _, hpass⟩
    · rw [breaker_begin, hstays] at hstate
      cases hstate
    · have hfirst : (ProtectedCalls.begin c s id now).admitted = 1 := by
        unfold ProtectedCalls.begin
        simp only [hpass, admitCall, hs, if_true]
      rw [hfirst]
      exact hmax

theorem WithinLimit.of_same (h : WithinLimit c s) (hadmitted : s'.admitted = s.admitted)
    (hstate : s'.breaker.state = .halfOpen → s.breaker.state = .halfOpen) : WithinLimit c s' := by
  intro hs'
  rw [hadmitted]
  exact h (hstate hs')

@[simp] theorem admitted_succeed (s : State) (id : ℕ) (episode : Option ℕ) :
    (succeed c s id episode).admitted = s.admitted := by
  unfold succeed
  simp only
  split_ifs <;> rfl

@[simp] theorem admitted_abandon (s : State) (id : ℕ) (episode : Option ℕ) :
    (abandon s id episode).admitted = s.admitted := by
  unfold abandon
  simp only
  split_ifs <;> rfl

@[simp] theorem admitted_fail (s : State) (id : ℕ) (episode : Option ℕ) (e : ε) (now : ℚ) :
    (fail c s id episode e now).admitted = s.admitted := by
  unfold fail
  split_ifs
  · rfl
  · exact admitted_abandon s id episode

theorem WithinLimit.step (hmax : 1 ≤ c.halfOpenMaxCalls) {i : Label ε} (hinv : Inv c s) (h : WithinLimit c s)
    (hok : AdmissionOk c s i) (hstep : ProtectedCalls.step c s i = some s') : WithinLimit c s' := by
  obtain ⟨hclock, hstep'⟩ := step_eq_some hstep
  cases i with
  | call id now =>
    simp only [stepAt] at hstep'
    split_ifs at hstep' with hnew
    obtain rfl := Option.some.inj hstep'
    exact WithinLimit.begin hmax (hinv.clock now) h (hok hclock (Option.isNone_iff_eq_none.mp hnew))
  | returns id now =>
    obtain ⟨episode, _, rfl⟩ := Option.map_eq_some_iff.mp hstep'
    refine h.of_same (admitted_succeed _ id episode) fun hstate => ?_
    rw [breaker_succeed] at hstate
    by_contra hs
    rw [(recordSuccess_of_ne hs).1] at hstate
    exact hs hstate
  | raises id e now =>
    obtain ⟨episode, _, rfl⟩ := Option.map_eq_some_iff.mp hstep'
    refine h.of_same (admitted_fail _ id episode e now) fun hstate => ?_
    rw [breaker_fail] at hstate
    by_cases htracked : c.exceptionsToTrack e
    · exact absurd hstate (recordFailure_ne_halfOpen htracked)
    · rwa [recordFailure_untracked (Bool.not_eq_true _ ▸ htracked)] at hstate
  | cancelled id now =>
    obtain ⟨episode, _, rfl⟩ := Option.map_eq_some_iff.mp hstep'
    refine h.of_same (admitted_abandon _ id episode) fun hstate => ?_
    rwa [breaker_abandon] at hstate

theorem not_withinLimit_of_admission {i : Label ε} (hinv : Inv c s) (hbad : ¬ AdmissionOk c s i) :
    ∃ s', ProtectedCalls.step c s i = some s' ∧ ¬ WithinLimit c s' := by
  cases i with
  | call id now =>
    simp only [AdmissionOk, Classical.not_imp] at hbad
    obtain ⟨hclock, hnew, hs, hpass, hfull⟩ := hbad
    refine ⟨begin c { s with clock := now } id now, ?_, fun hwithin => hfull ?_⟩
    · rw [step_of_le (show s.clock ≤ (Label.call id now).now from hclock)]
      simp [stepAt, hnew, Label.now]
    · have hstate : (begin c { s with clock := now } id now).breaker.state = .halfOpen := by
        rw [breaker_begin, canExecute_halfOpen hs]
        exact hs
      have hlimit := hwithin hstate
      rw [@admitted_begin_halfOpen _ c { s with clock := now } id now hs, if_pos hpass] at hlimit
      rw [← hinv.admitted hs]
      simp only at hlimit
      omega
  | returns id now => exact absurd trivial hbad
  | raises id e now => exact absurd trivial hbad
  | cancelled id now => exact absurd trivial hbad

/-! ## Which results end an episode -/

variable (c) in
/-- An episode is closed by `success_threshold` successes of its own calls, the last one just now, and reopened by
a tracked failure of one of them. -/
def EndedByProbes (s : State) (i : Label ε) (s' : State) : Prop :=
  s.breaker.state = .halfOpen →
    (s'.breaker.state = .closed → (∃ id now, i = .returns id now ∧ s.running.get? id = some (some s.episode)) ∧
      c.successThreshold ≤ s'.succeeded) ∧
    (s'.breaker.state = .opened → ∃ id e now, i = .raises id e now ∧ c.exceptionsToTrack e ∧
      s.running.get? id = some (some s.episode))

variable (c) in
/-- The success that closes the breaker is one of a call of the episode, and none of another call was counted; the
tracked failure that is recorded in HALF_OPEN is one of a call of the episode. -/
def ResultsOk (s : State) : Label ε → Prop
  | .returns id now => s.clock ≤ now → s.breaker.state = .halfOpen →
      c.successThreshold ≤ s.breaker.successCount + 1 →
        ∀ episode ∈ s.running.get? id, episode = some s.episode ∧ s.late = 0
  | .raises id e now => s.clock ≤ now → s.breaker.state = .halfOpen → c.exceptionsToTrack e →
      ∀ episode ∈ s.running.get? id, episode = some s.episode
  | _ => True

theorem succeeded_succeed {id : ℕ} {episode : Option ℕ} (hs : s.breaker.state = .halfOpen) :
    (succeed c s id episode).succeeded = if episode = some s.episode then s.succeeded + 1 else s.succeeded := by
  unfold succeed
  by_cases he : episode = some s.episode
  · simp only [State.InEpisode, hs, he, and_self, if_true]
  · simp only [State.InEpisode, hs, he, and_false, if_false]

theorem endedByProbes_call {id : ℕ} {now : ℚ} (hstep : ProtectedCalls.step c s (.call id now) = some s') :
    EndedByProbes c s (.call id now) s' := by
  intro hs
  obtain ⟨_, hb⟩ := breaker_step hstep
  have hsame : s'.breaker = s.breaker := hb.trans (congrArg Prod.snd (canExecute_halfOpen hs))
  rw [hsame, hs]
  exact ⟨nofun, nofun⟩

theorem endedByProbes_cancelled {id : ℕ} {now : ℚ} (hstep : ProtectedCalls.step c s (.cancelled id now) = some s') :
    EndedByProbes c s (.cancelled id now) s' := by
  intro hs
  obtain ⟨_, hb⟩ := breaker_step hstep
  have hsame : s'.breaker = s.breaker := hb
  rw [hsame, hs]
  exact ⟨nofun, nofun⟩

/-- A success that closes the breaker does so by the successes of the episode alone exactly when none was late. -/
theorem Inv.threshold_iff (hinv : Inv c s) (hs : s.breaker.state = .halfOpen)
    (hcloses : c.successThreshold ≤ s.breaker.successCount + 1) :
    c.successThreshold ≤ s.succeeded + 1 ↔ s.late = 0 := by
  have hsuccesses := hinv.successes hs
  have hbelow := hinv.below hs
  omega

theorem endedByProbes_returns_iff {id : ℕ} {now : ℚ} (hinv : Inv c s) :
    (∀ s', ProtectedCalls.step c s (.returns id now) = some s' → EndedByProbes c s (.returns id now) s') ↔
      ResultsOk c s (.returns id now) := by
  constructor
  · intro h hclock hs hcloses episode hid
    have hstep : ProtectedCalls.step c s (.returns id now) = some (succeed c { s with clock := now } id episode) := by
      rw [step_of_le (show s.clock ≤ (Label.returns id now : Label ε).now from hclock)]
      simp [stepAt, Option.mem_def.mp hid, Label.now]
    have hclosed : (succeed c { s with clock := now } id episode).breaker.state = .closed := by
      rw [breaker_succeed]
      rcases recordSuccess_halfOpen (c := c) hs with ⟨_, hclosed, _⟩ | ⟨hlow, _⟩
      · exact hclosed
      · exact absurd hcloses (not_le.mpr hlow)
    obtain ⟨⟨id', _, hi, hid'⟩, hthreshold⟩ := (h _ hstep hs).1 hclosed
    obtain ⟨rfl, _⟩ := Label.returns.inj hi
    obtain rfl := Option.some.inj (hid.symm.trans hid')
    refine ⟨rfl, (hinv.threshold_iff hs hcloses).mp ?_⟩
    rw [@succeeded_succeed _ c { s with clock := now } id _ hs, if_pos rfl] at hthreshold
    simpa using hthreshold
  · intro h s' hstep hs
    obtain ⟨hclock, hstep'⟩ := step_eq_some hstep
    obtain ⟨episode, hid, rfl⟩ := Option.map_eq_some_iff.mp hstep'
    rw [breaker_succeed]
    rcases recordSuccess_halfOpen (c := c) hs with ⟨hcloses, hclosed, _⟩ | ⟨_, hstays, _⟩
    · obtain ⟨rfl, hlate⟩ := h hclock hs hcloses episode hid
      refine ⟨fun _ => ⟨⟨id, now, rfl, hid⟩, ?_⟩, fun hopened => (by cases hclosed.symm.trans hopened)⟩
      change c.successThreshold ≤ ((succeed c { s with clock := now } id (some s.episode)).succeeded : ℤ)
      rw [@succeeded_succeed _ c { s with clock := now } id _ hs, if_pos rfl]
      simpa using (hinv.threshold_iff hs hcloses).mpr hlate
    · exact ⟨fun hclosed => (by cases hstays.symm.trans hclosed), fun hopened => (by cases hstays.symm.trans hopened)⟩

theorem endedByProbes_raises_iff {id : ℕ} {e : ε} {now : ℚ} :
    (∀ s', ProtectedCalls.step c s (.raises id e now) = some s' → EndedByProbes c s (.raises id e now) s') ↔
      ResultsOk c s (.raises id e now) := by
  constructor
  · intro h hclock hs htracked episode hid
    have hstep : ProtectedCalls.step c s (.raises id e now) = some (fail c { s with clock := now } id episode e now) := by
      rw [step_of_le (show s.clock ≤ (Label.raises id e now : Label ε).now from hclock)]
      simp [stepAt, Option.mem_def.mp hid, Label.now]
    have hopened : (fail c { s with clock := now } id episode e now).breaker.state = .opened := by
      rw [breaker_fail]
      exact recordFailure_halfOpen hs htracked
    obtain ⟨id', _, _, hi, _, hid'⟩ := (h _ hstep hs).2 hopened
    obtain ⟨rfl, _⟩ := Label.raises.inj hi
    exact Option.some.inj (hid.symm.trans hid')
  · intro h s' hstep hs
    obtain ⟨hclock, hstep'⟩ := step_eq_some hstep
    obtain ⟨episode, hid, rfl⟩ := Option.map_eq_some_iff.mp hstep'
    rw [breaker_fail]
    by_cases htracked : c.exceptionsToTrack e
    · have hopened : (recordFailure c s.breaker e now).state = .opened := recordFailure_halfOpen hs htracked
      obtain rfl := h hclock hs htracked episode hid
      exact ⟨fun hclosed => (by cases hopened.symm.trans hclosed), fun _ => ⟨id, e, now, rfl, htracked, hid⟩⟩
    · rw [recordFailure_untracked (Bool.not_eq_true _ ▸ htracked)]
      exact ⟨fun hclosed => (by cases hs.symm.trans hclosed), fun hopened => (by cases hs.symm.trans hopened)⟩

/-- **A step ends the episode lawfully exactly when its result is one of the episode's own.** -/
theorem endedByProbes_iff (hinv : Inv c s) (i : Label ε) :
    (∀ s', ProtectedCalls.step c s i = some s' → EndedByProbes c s i s') ↔ ResultsOk c s i := by
  cases i with
  | call id now => exact ⟨fun _ => trivial, fun _ _ hstep => endedByProbes_call hstep⟩
  | cancelled id now => exact ⟨fun _ => trivial, fun _ _ hstep => endedByProbes_cancelled hstep⟩
  | returns id now => exact endedByProbes_returns_iff hinv
  | raises id e now => exact endedByProbes_raises_iff

end Calls

/-- **In a run an episode admits at most `half_open_max_calls` calls throughout exactly when every call that passes
in HALF_OPEN finds room beside those of the episode that run or have ended.** -/
theorem withinLimit_iff_guarded {ε : Type} (c : CircuitBreakerConfig ε) (hmax : 1 ≤ c.halfOpenMaxCalls) (t0 : ℚ)
    (is : List (Label ε)) :
    (∀ js ks s, is = js ++ ks → exec (step c) (State.init t0) js = some s → WithinLimit c s) ↔
      Guarded (step c) (AdmissionOk c) (State.init t0) is :=
  always_iff_guarded (fun _ _ _ h hstep => Inv.step h hstep)
    (fun _ _ _ hinv h hok hstep => WithinLimit.step hmax hinv h hok hstep)
    (fun _ _ hinv _ hbad => not_withinLimit_of_admission hinv hbad) (Inv.init t0) (nofun : WithinLimit c (State.init t0))
    is

/-- **In a run every episode is ended by its own calls exactly when, in HALF_OPEN, no late success has been counted
when a success closes the breaker, and no late failure is recorded.** -/
theorem endedByProbes_iff_guarded {ε : Type} (c : CircuitBreakerConfig ε) (t0 : ℚ) (is : List (Label ε)) :
    (∀ js i ks s s', is = js ++ i :: ks → exec (step c) (State.init t0) js = some s → step c s i = some s' →
        EndedByProbes c s i s') ↔
      Guarded (step c) (ResultsOk c) (State.init t0) is :=
  every_step_iff_guarded (fun _ _ _ h _ hstep => Inv.step h hstep) (fun _ i hinv => endedByProbes_iff hinv i)
    (Inv.init t0) is

/-! ## Probes in flight, and calls from before -/

instance {ε : Type} (c : CircuitBreakerConfig ε) (s : State) : (i : Label ε) → Decidable (AdmissionOk c s i)
  | .call _ _ => inferInstanceAs (Decidable (_ → _ → _ → _ → _))
  | .returns _ _ => isTrue trivial
  | .raises _ _ _ => isTrue trivial
  | .cancelled _ _ => isTrue trivial

instance {ε : Type} (c : CircuitBreakerConfig ε) (s : State) : Decidable (WithinLimit c s) :=
  inferInstanceAs (Decidable (_ → _))

/-- One failure opens this breaker, and one probe at a time may close it. -/
def probing : CircuitBreakerConfig Unit :=
  { failureThreshold := 1, successThreshold := 1, timeout := 10, halfOpenMaxCalls := 1, exceptionsToTrack := fun _ => true }

def endOf (is : List (Label Unit)) : Option State := exec (step probing) (State.init 1) is

/-- A failure, and one probe after the timeout. -/
def oneProbe : List (Label Unit) := [.call 1 1, .raises 1 () 2, .call 2 20]

theorem endOf_oneProbe : (endOf oneProbe).isSome = true := by decide +kernel

theorem withinLimit_oneProbe : WithinLimit probing ((endOf oneProbe).get endOf_oneProbe) :=
  (withinLimit_iff_guarded probing (by decide) 1 oneProbe).mpr (by decide +kernel) oneProbe [] _
    (List.append_nil _).symm (Option.some_get endOf_oneProbe).symm

/-- A second call arrives while the probe runs. -/
def twoProbes : List (Label Unit) := oneProbe ++ [.call 3 20]

theorem endOf_twoProbes : (endOf twoProbes).isSome = true := by decide +kernel

theorem second_probe_admitted : ¬ ∀ (c : CircuitBreakerConfig Unit) (t0 : ℚ) (is : List (Label Unit)) (s : State),
    1 ≤ c.halfOpenMaxCalls → exec (step c) (State.init t0) is = some s → WithinLimit c s := by
  intro h
  have hwithin := h probing 1 twoProbes _ (by decide) (Option.some_get endOf_twoProbes).symm
  exact absurd hwithin (by decide +kernel)

/-- A call from before the breaker opened is still running when the probe begins. -/
def slowCall : List (Label Unit) := [.call 1 1, .call 2 1, .raises 1 () 2, .call 3 20]

theorem endOf_slowCall : (endOf slowCall).isSome = true := by decide +kernel

theorem endOf_slowCall_returns : (endOf (slowCall ++ [.returns 2 21])).isSome = true := by decide +kernel

theorem late_success_closes : ¬ ∀ (c : CircuitBreakerConfig Unit) (t0 : ℚ) (is : List (Label Unit)) (s s' : State)
    (i : Label Unit), exec (step c) (State.init t0) is = some s → step c s i = some s' → EndedByProbes c s i s' := by
  intro h
  obtain ⟨s, hrun, hstep⟩ := (exec_concat_eq_some _).mp (Option.some_get endOf_slowCall_returns).symm
  have hs : s = (endOf slowCall).get endOf_slowCall := (Option.get_of_eq_some _ hrun).symm
  have hended := h probing 1 slowCall s _ _ hrun hstep (by rw [hs]; decide +kernel)
  obtain ⟨⟨id, _, hi, hid⟩, _⟩ := hended.1 (by decide +kernel)
  obtain ⟨rfl, _⟩ := Label.returns.inj hi
  rw [hs] at hid
  exact absurd hid (by decide +kernel)

end KernelRuntime.ProtectedCalls
