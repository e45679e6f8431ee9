import KernelRuntime.Foundations.Counting
import KernelRuntime.Foundations.Execution
import KernelRuntime.Resilience.RateLimiter
import Mathlib.Data.List.Induction
import Mathlib.Tactic.Linarith

/-! # Calls of the Redis limiter that overlap

Each command of `check_rate_limit` is one step, and any number of calls are under way; a call keeps the reading it
took when it began. The server's time is its own. -/

namespace KernelRuntime.LimiterRaces
open RateLimiter
set_option autoImplicit false

/-- The command that comes next, with what `zcard` said. -/
inductive Stage where
  | trim
  | count
  | add (currentCount : ℕ)
  | expire (currentCount : ℕ)
  | oldest (currentCount : ℕ)
  | done (status : RateLimitStatus)
deriving DecidableEq

structure Call where
  key : String
  config : RateLimitConfig
  now : ℚ
  stage : Stage

structure State where
  redis : Redis
  calls : List Call

def State.init : State := ⟨Redis.new, []⟩

inductive Label where
  | checkRateLimit (key : String) (config : RateLimitConfig) (now : ℚ)
  | runs (id : ℕ)
  | elapses (seconds : ℚ)

section Steps
variable (str : ℚ → String)

def command (r : Redis) (call : Call) : Option (Redis × Stage) :=
  let limit := call.config.limit
  match call.stage with
  | .trim => some (r.zremrangebyscore call.key 0 (call.now - 60), .count)
  | .count =>
    let currentCount := (r.zset call.key).zcard
    some (r, if (currentCount : ℤ) < limit then .add currentCount else .oldest currentCount)
  | .add currentCount => some (r.zadd call.key (str call.now) call.now, .expire currentCount)
  | .expire currentCount => some (r.expire call.key 120, .oldest currentCount)
  | .oldest currentCount =>
    let resetAfter := match (r.zset call.key).lowest with
      | some oldest => 60 - (call.now - oldest)
      | none => 60
    some (r, .done (statusOf limit currentCount resetAfter))
  | .done _ => none

def step (s : State) : Label → Option State
  | .checkRateLimit key config now => some { s with calls := s.calls ++ [⟨key, config, now, .trim⟩] }
  | .runs id =>
    s.calls[id]?.bind fun call => (command str s.redis call).map fun (r, stage) =>
      ⟨r, s.calls.set id { call with stage }⟩
  | .elapses seconds => if 0 ≤ seconds then some { s with redis := s.redis.advance (s.redis.time + seconds) } else none

/-! ## One call alone -/

theorem step_last {r r' : Redis} {calls : List Call} {call : Call} {stage : Stage}
    (h : command str r call = some (r', stage)) :
    step str ⟨r, calls ++ [call]⟩ (.runs calls.length) = some ⟨r', calls ++ [{ call with stage }]⟩ := by
  simp [step, h]

/-- The commands of a call that nothing interrupts are `check_rate_limit`. -/
theorem exec_alone (r : Redis) (calls : List Call) (key : String) (config : RateLimitConfig) (now : ℚ) :
    ∃ n, exec (step str) ⟨r, calls⟩ (.checkRateLimit key config now :: List.replicate n (.runs calls.length)) =
      some ⟨(RedisRateLimiter.checkRateLimit str r key config now).2,
        calls ++ [⟨key, config, now, .done (RedisRateLimiter.checkRateLimit str r key config now).1⟩]⟩ := by
  have htrim : command str r ⟨key, config, now, .trim⟩ = some (r.zremrangebyscore key 0 (now - 60), .count) := rfl
  generalize hr₁ : r.zremrangebyscore key 0 (now - 60) = r₁ at htrim
  have hbegin : ∀ is, exec (step str) ⟨r, calls⟩ (.checkRateLimit key config now :: .runs calls.length :: is) =
      exec (step str) ⟨r₁, calls ++ [⟨key, config, now, .count⟩]⟩ is := by
    intro is
    rw [exec_cons, step, Option.bind_some, exec_cons, step_last str htrim, Option.bind_some]
  unfold RedisRateLimiter.checkRateLimit
  simp only [hr₁]
  by_cases hroom : ((r₁.zset key).zcard : ℤ) < config.limit
  · have hcount : command str r₁ ⟨key, config, now, .count⟩ = some (r₁, .add (r₁.zset key).zcard) := by
      simp only [command, if_pos hroom]
    refine ⟨5, ?_⟩
    simp only [List.replicate, hbegin, exec_cons, step_last str hcount, Option.bind_some, if_pos hroom]
    rw [step_last str rfl, Option.bind_some, step_last str rfl, Option.bind_some, step_last str rfl, Option.bind_some]
    rfl
  · have hcount : command str r₁ ⟨key, config, now, .count⟩ = some (r₁, .oldest (r₁.zset key).zcard) := by
      simp only [command, if_neg hroom]
    refine ⟨3, ?_⟩
    simp only [List.replicate, hbegin, exec_cons, step_last str hcount, Option.bind_some, if_neg hroom]
    rw [step_last str rfl, Option.bind_some]
    rfl

/-! ## Calls that are let through -/

/-- The count has let the call pass, whatever it still has to write. -/
def Call.granted (call : Call) : Bool :=
  match call.stage with
  | .trim | .count => false
  | .add n | .expire n | .oldest n => decide ((n : ℤ) < call.config.limit)
  | .done status => status.allowed

def Call.returned (call : Call) : Bool :=
  match call.stage with
  | .done status => status.allowed
  | _ => false

/-- The call is on the key `k`, with a reading in the minute up to `t`. -/
def Call.inWindow (k : String) (t : ℚ) (call : Call) : Bool :=
  decide (call.key = k) && decide (t - 60 < call.now) && decide (call.now ≤ t)

def returnedIn (k : String) (t : ℚ) (s : State) : ℕ := s.calls.countP fun call => call.returned && call.inWindow k t

def grantedIn (k : String) (t : ℚ) (s : State) : ℕ := s.calls.countP fun call => call.granted && call.inWindow k t

/-- The members of the calls on `k` that were let through at a reading less than a minute from `now`. -/
def near (k : String) (now : ℚ) (s : State) : List String :=
  (s.calls.filter fun call => call.granted && decide (call.key = k) && decide (now - 60 < call.now) &&
    decide (call.now - 60 < now)).map fun call => str call.now

/-- A call on `k` that is about to count, and finds room, finds an entry of its own in the set for every call on `k`
that was let through at a reading less than a minute from its own. -/
def EntryEach (k : String) (s : State) : Label → Prop
  | .runs id => ∀ call ∈ s.calls[id]?, call.stage = .count → call.key = k →
      ((s.redis.zset k).zcard : ℤ) < call.config.limit →
        (near str k call.now s).Nodup ∧ ∀ m ∈ near str k call.now s, ((s.redis.zset k).score? m).isSome
  | _ => True

/-- Calls on `k` are checked with this limit. -/
def Label.Limits (k : String) (limit : ℤ) : Label → Prop
  | .checkRateLimit key config _ => key = k → config.limit = limit
  | _ => True

variable {str} {s s' : State} {k : String} {limit : ℤ}

theorem returned_granted {call : Call} (h : call.returned = true) : call.granted = true := by
  unfold Call.returned at h
  unfold Call.granted
  split at h
  · rename_i hstage
    rw [hstage]
    exact h
  · cases h

theorem returnedIn_le (k : String) (t : ℚ) (s : State) : returnedIn k t s ≤ grantedIn k t s := by
  refine List.countP_mono_left fun call _ h => ?_
  obtain ⟨hreturned, hin⟩ := Bool.and_eq_true_iff.mp h
  exact Bool.and_eq_true_iff.mpr ⟨returned_granted hreturned, hin⟩

/-- Only the count decides. -/
theorem granted_command {r r' : Redis} {call : Call} {stage : Stage} (h : command str r call = some (r', stage)) :
    (call.stage ≠ .count ∧ Call.granted { call with stage } = call.granted) ∨
      (call.stage = .count ∧ call.granted = false ∧
        Call.granted { call with stage } = decide (((r.zset call.key).zcard : ℤ) < call.config.limit)) := by
  obtain ⟨key, config, now, old⟩ := call
  cases old with
  | trim =>
    obtain ⟨_, rfl⟩ := Prod.mk.inj (Option.some.inj h)
    exact Or.inl ⟨nofun, rfl⟩
  | count =>
    obtain ⟨_, rfl⟩ := Prod.mk.inj (Option.some.inj h)
    refine Or.inr ⟨rfl, rfl, ?_⟩
    by_cases hroom : ((r.zset key).zcard : ℤ) < config.limit
    · simp only [if_pos hroom, Call.granted]
    · simp only [if_neg hroom, Call.granted]
  | add n =>
    obtain ⟨_, rfl⟩ := Prod.mk.inj (Option.some.inj h)
    exact Or.inl ⟨nofun, rfl⟩
  | expire n =>
    obtain ⟨_, rfl⟩ := Prod.mk.inj (Option.some.inj h)
    exact Or.inl ⟨nofun, rfl⟩
  | oldest n =>
    obtain ⟨_, rfl⟩ := Prod.mk.inj (Option.some.inj h)
    exact Or.inl ⟨nofun, rfl⟩
  | done status => cases h

/-- The calls in a window around `now` are among those near it. -/
theorem grantedIn_le_near {call : Call} {t : ℚ} (hin : call.inWindow k t = true) :
    grantedIn k t s ≤ (near str k call.now s).length := by
  unfold grantedIn near
  rw [List.length_map, ← List.countP_eq_length_filter]
  refine List.countP_mono_left fun other _ h => ?_
  simp only [Call.inWindow, Bool.and_eq_true, decide_eq_true_eq] at hin h ⊢
  obtain ⟨hgranted, ⟨hkey, hafter⟩, hbefore⟩ := h
  exact ⟨⟨⟨hgranted, hkey⟩, by linarith [hin.2]⟩, by linarith [hin.1.2]⟩

variable (k limit) in
structure Inv (s : State) : Prop where
  limits : ∀ call ∈ s.calls, call.key = k → call.config.limit = limit
  bound : ∀ t, grantedIn k t s ≤ limit.toNat

theorem Inv.init : Inv k limit State.init := ⟨nofun, fun _ => Nat.zero_le _⟩

theorem Inv.runs {id : ℕ} (h : Inv k limit s) (hentries : EntryEach str k s (.runs id))
    (hstep : LimiterRaces.step str s (.runs id) = some s') : Inv k limit s' := by
  obtain ⟨call, hcall, hmap⟩ := Option.bind_eq_some_iff.mp hstep
  obtain ⟨⟨r, stage⟩, hcommand, rfl⟩ := Option.map_eq_some_iff.mp hmap
  have hmem : call ∈ s.calls := List.mem_of_getElem? hcall
  refine ⟨fun other hother hkey => ?_, fun t => ?_⟩
  · rcases List.mem_or_eq_of_mem_set hother with hother | rfl
    · exact h.limits other hother hkey
    · exact h.limits call hmem hkey
  · have hcount := countP_set_add (fun call => call.granted && call.inWindow k t) hcall { call with stage }
    have hsame : Call.inWindow k t { call with stage } = call.inWindow k t := rfl
    have hbound := h.bound t
    unfold grantedIn at hbound ⊢
    change (s.calls.set id { call with stage }).countP _ ≤ _
    rw [hsame] at hcount
    rcases granted_command hcommand with ⟨_, hkept⟩ | ⟨hat, hbefore, hafter⟩
    · rw [hkept] at hcount
      omega
    · rw [hbefore, hafter] at hcount
      by_cases hnew : (((s.redis.zset call.key).zcard : ℤ) < call.config.limit) ∧ call.inWindow k t = true
      · -- the set counted at least the calls near this one
        obtain ⟨hroom, hin⟩ := hnew
        have hkey : call.key = k := by
          simp only [Call.inWindow, Bool.and_eq_true, decide_eq_true_eq] at hin
          exact hin.1.1
        have hlimit := h.limits call hmem hkey
        have hroom' : ((s.redis.zset k).zcard : ℤ) < call.config.limit := hkey ▸ hroom
        obtain ⟨hnodup, hentry⟩ := hentries call hcall hat hkey hroom'
        have hnear : grantedIn k t s ≤ (near str k call.now s).length := grantedIn_le_near hin
        have hle := hnear.trans (SortedSet.length_le_zcard hnodup hentry)
        unfold grantedIn at hle
        simp only [hin, hroom, decide_true, Bool.and_true, if_true, Bool.false_eq_true, if_false] at hcount
        omega
      · have hnone : (decide (((s.redis.zset call.key).zcard : ℤ) < call.config.limit) && call.inWindow k t) = false := by
          rw [← Bool.not_eq_true, Bool.and_eq_true, decide_eq_true_eq]
          exact hnew
        rw [hnone, Bool.false_and] at hcount
        omega

theorem Inv.step {i : Label} (h : Inv k limit s) (hentries : EntryEach str k s i) (hlimits : i.Limits k limit)
    (hstep : LimiterRaces.step str s i = some s') : Inv k limit s' := by
  cases i with
  | runs id => exact h.runs hentries hstep
  | checkRateLimit key config now =>
    obtain rfl := Option.some.inj hstep
    refine ⟨fun call hcall hkey => ?_, fun t => ?_⟩
    · rcases List.mem_append.mp hcall with hcall | hcall
      · exact h.limits call hcall hkey
      · obtain rfl := List.mem_singleton.mp hcall
        exact hlimits hkey
    · unfold grantedIn
      rw [List.countP_append, List.countP_singleton]
      exact h.bound t
  | elapses seconds =>
    unfold LimiterRaces.step at hstep
    simp only at hstep
    split_ifs at hstep
    obtain rfl := Option.some.inj hstep
    exact ⟨h.limits, h.bound⟩

end Steps

/-- **In every run whose counts find an entry for each call let through nearby, no minute has more than `limit` calls
that were allowed.** -/
theorem returnedIn_le_limit (str : ℚ → String) (k : String) (limit : ℤ) (is : List Label)
    (hlimits : ∀ i ∈ is, i.Limits k limit) (hentries : Guarded (step str) (EntryEach str k) State.init is) (s : State)
    (hrun : exec (step str) State.init is = some s) (t : ℚ) : returnedIn k t s ≤ limit.toNat := by
  have hinv : Inv k limit s := by
    induction is using List.reverseRecOn generalizing s with
    | nil =>
      obtain rfl := Option.some.inj hrun
      exact Inv.init
    | append_singleton is i ih =>
      obtain ⟨s', hrun', hstep⟩ := (exec_concat_eq_some _).mp hrun
      have hs' := ih (fun j hj => hlimits j (List.mem_append_left _ hj)) hentries.of_append s' hrun'
      exact hs'.step (hentries.last hrun') (hlimits i (by simp)) hstep
  exact (returnedIn_le k t s).trans (hinv.bound t)

/-! ## One after the other, and both at once -/

instance (str : ℚ → String) (k : String) (s : State) : (i : Label) → Decidable (EntryEach str k s i)
  | .checkRateLimit _ _ _ => isTrue trivial
  | .runs _ => inferInstanceAs (Decidable (∀ _ ∈ _, _ → _ → _ → _ ∧ _))
  | .elapses _ => isTrue trivial

def printed (now : ℚ) : String := if now = 1 then "1.0" else "2.0"

def arrive (now : ℚ) : Label := .checkRateLimit "a" ⟨1⟩ now

/-- The second call begins when the first has returned, and is denied. -/
def inTurn : List Label :=
  [arrive 1, .runs 0, .runs 0, .runs 0, .runs 0, .runs 0, arrive 2, .runs 1, .runs 1, .runs 1]

theorem isSome_inTurn : (exec (step printed) State.init inTurn).isSome = true := by decide +kernel

theorem returnedIn_inTurn : returnedIn "a" 30 ((exec (step printed) State.init inTurn).get isSome_inTurn) ≤ 1 :=
  returnedIn_le_limit printed "a" 1 inTurn (by simp [inTurn, arrive, Label.Limits, RateLimitConfig.limit, int])
    (by decide +kernel) _ (Option.some_get _).symm 30

/-- Both calls count before one of them adds. -/
def bothAtOnce : List Label :=
  [arrive 1, arrive 2, .runs 0, .runs 1, .runs 0, .runs 1, .runs 0, .runs 0, .runs 0, .runs 1, .runs 1, .runs 1]

theorem isSome_bothAtOnce : (exec (step printed) State.init bothAtOnce).isSome = true := by decide +kernel

theorem overlapping_calls_exceed : ¬ ∀ (str : ℚ → String) (k : String) (limit : ℤ) (is : List Label) (s : State),
    (∀ i ∈ is, i.Limits k limit) → exec (step str) State.init is = some s → ∀ t, returnedIn k t s ≤ limit.toNat := by
  intro h
  have hbound := h printed "a" 1 bothAtOnce _ (by simp [bothAtOnce, arrive, Label.Limits, RateLimitConfig.limit, int])
    (Option.some_get isSome_bothAtOnce).symm 2
  exact absurd hbound (by decide +kernel)

end KernelRuntime.LimiterRaces
