import KernelRuntime.Resilience.SlidingWindow

/-! # The two limiters side by side

Calls one after the other, each answered by both limiters. The sorted set of Redis mirrors the list as long as no two
readings in it print alike; the server reads the same clock. -/

namespace KernelRuntime.LimiterAgreement
open RateLimiter RateLimiter.LocalRateLimiter
open SlidingWindow (Check trim_trim window_set)
set_option autoImplicit false

/-! ## A sorted set that mirrors a list of readings -/

section Mirrors
variable (str : ℚ → String)

/-- Every member is a reading of the list, and every reading after `since` has a member with its text. -/
structure Mirrors (since : ℚ) (z : SortedSet String ℚ) (w : List ℚ) : Prop where
  sound : ∀ m x, z.score? m = some x → x ∈ w ∧ str x = m
  complete : ∀ t ∈ w, since < t → ∃ x, z.score? (str t) = some x ∧ t ≤ x

variable {str} {since : ℚ} {z : SortedSet String ℚ} {w : List ℚ}

theorem Mirrors.mono {since' : ℚ} (h : Mirrors str since z w) (hle : since ≤ since') : Mirrors str since' z w :=
  ⟨h.sound, fun t ht hlater => h.complete t ht (hle.trans_lt hlater)⟩

theorem Mirrors.empty (h : ∀ t ∈ w, t ≤ since) : Mirrors str since .empty w :=
  ⟨nofun, fun t ht hlater => absurd hlater (not_lt.mpr (h t ht))⟩

theorem Mirrors.zremrangebyscore {now : ℚ} (h : Mirrors str (now - 60) z w) (hpos : ∀ t ∈ w, 0 < t) :
    Mirrors str (now - 60) (z.zremrangebyscore 0 (now - 60)) (trim now w) := by
  constructor
  · intro m x hx
    obtain ⟨hx, hkept⟩ := SortedSet.score?_zremrangebyscore.mp hx
    obtain ⟨hmem, hstr⟩ := h.sound m x hx
    refine ⟨List.mem_filter.mpr ⟨hmem, decide_eq_true ?_⟩, hstr⟩
    by_contra hold
    exact hkept ⟨(hpos x hmem).le, not_lt.mp hold⟩
  · intro t ht hlater
    obtain ⟨x, hx, hle⟩ := h.complete t (List.mem_filter.mp ht).1 hlater
    exact ⟨x, SortedSet.score?_zremrangebyscore.mpr ⟨hx, fun hold => by linarith [hold.2]⟩, hle⟩

theorem Mirrors.zadd {now : ℚ} (h : Mirrors str since z w) (hpast : ∀ t ∈ w, t ≤ now) :
    Mirrors str since (z.zadd (str now) now) (w ++ [now]) := by
  constructor
  · intro m x hx
    rw [SortedSet.score?_zadd] at hx
    split_ifs at hx with hm
    · obtain rfl := Option.some.inj hx
      exact ⟨by simp, hm.symm⟩
    · obtain ⟨hmem, hstr⟩ := h.sound m x hx
      exact ⟨List.mem_append_left _ hmem, hstr⟩
  · intro t ht hlater
    rw [SortedSet.score?_zadd]
    split_ifs with hm
    · refine ⟨now, rfl, ?_⟩
      rcases List.mem_append.mp ht with ht | ht
      · exact hpast t ht
      · exact (List.mem_singleton.mp ht).le
    · rcases List.mem_append.mp ht with ht | ht
      · exact h.complete t ht hlater
      · exact absurd (congrArg str (List.mem_singleton.mp ht)) hm

/-- It has as many members as the list has places exactly when no two readings print alike. -/
theorem Mirrors.zcard_eq_iff (h : Mirrors str since z w) (hfresh : ∀ t ∈ w, since < t) :
    z.zcard = w.length ↔ (w.map str).Nodup := by
  have hlength : (w.map str).length = w.length := List.length_map str
  rw [← hlength]
  refine SortedSet.zcard_eq_length_iff fun m => ?_
  rw [List.mem_map, Option.isSome_iff_exists]
  constructor
  · rintro ⟨t, ht, rfl⟩
    obtain ⟨x, hx, _⟩ := h.complete t ht (hfresh t ht)
    exact ⟨x, hx⟩
  · rintro ⟨x, hx⟩
    exact ⟨x, h.sound m x hx⟩

/-- The oldest reading has the lowest score. -/
theorem Mirrors.lowest_eq {t : ℚ} {rest : List ℚ} (h : Mirrors str since z (t :: rest)) (ht : since < t)
    (hsorted : (t :: rest).Pairwise (· ≤ ·)) (hnodup : ((t :: rest).map str).Nodup) : z.lowest = some t := by
  obtain ⟨x, hx, hle⟩ := h.complete t List.mem_cons_self ht
  obtain ⟨hmem, hstr⟩ := h.sound _ x hx
  have hxt : x = t := by
    rcases List.mem_cons.mp hmem with rfl | hrest
    · rfl
    · exact absurd (List.mem_map.mpr ⟨x, hrest, hstr⟩) (List.nodup_cons.mp hnodup).1
  rw [SortedSet.lowest_eq_some_iff]
  refine ⟨⟨str t, hxt ▸ hx⟩, fun m y hy => ?_⟩
  rcases List.mem_cons.mp (h.sound m y hy).1 with rfl | hrest
  · exact le_rfl
  · exact List.rel_of_pairwise_cons hsorted hrest

end Mirrors

/-! ## Runs -/

structure State where
  redis : Redis
  limiter : LocalRateLimiter
  clock : ℚ

def State.init : State := ⟨Redis.new, .empty, 0⟩

section Runs
variable (str : ℚ → String)

def redisAnswer (s : State) (c : Check) : RateLimitStatus :=
  (RedisRateLimiter.checkRateLimit str (s.redis.advance c.now) c.key c.config c.now).1

def localAnswer (s : State) (c : Check) : RateLimitStatus := (checkRateLimit s.limiter c.key c.config c.now).1

def step (s : State) (c : Check) : Option State :=
  if s.clock ≤ c.now ∧ 0 < c.now then
    some ⟨(RedisRateLimiter.checkRateLimit str (s.redis.advance c.now) c.key c.config c.now).2,
      (checkRateLimit s.limiter c.key c.config c.now).2, c.now⟩
  else none

def Agree (r l : RateLimitStatus) : Prop :=
  r.allowed = l.allowed ∧ r.remaining = l.remaining ∧ r.current = l.current ∧ r.limit = l.limit ∧
    (l.allowed = false → 0 < l.limit → r.resetAfter = l.resetAfter)

/-- Of the readings that are left in the window of the key no two print alike. -/
def Distinct (s : State) (c : Check) : Prop :=
  s.clock ≤ c.now → 0 < c.now → ((trim c.now (s.limiter.window c.key)).map str).Nodup

/-- The set that the call counts. -/
def counted (s : State) (c : Check) : SortedSet String ℚ :=
  ((s.redis.advance c.now).zset c.key).zremrangebyscore 0 (c.now - 60)

variable {str} {s s' : State} {c : Check}

theorem redisAnswer_eq (s : State) (c : Check) : ∃ resetAfter,
    redisAnswer str s c = statusOf c.config.limit (counted s c).zcard resetAfter ∧
      (¬ ((counted s c).zcard : ℤ) < c.config.limit → ∀ oldest ∈ (counted s c).lowest,
        resetAfter = 60 - (c.now - oldest)) := by
  have hcounted : ((s.redis.advance c.now).zremrangebyscore c.key 0 (c.now - 60)).zset c.key = counted s c :=
    (Redis.zset_zremrangebyscore _ _ _ _ _).trans (if_pos rfl)
  unfold redisAnswer RedisRateLimiter.checkRateLimit
  simp only [hcounted]
  refine ⟨_, rfl, fun hfull oldest holdest => ?_⟩
  rw [if_neg hfull, hcounted, Option.mem_def.mp holdest]

theorem localAnswer_eq (s : State) (c : Check) : ∃ resetAfter,
    localAnswer s c = statusOf c.config.limit (trim c.now (s.limiter.window c.key)).length resetAfter ∧
      (¬ ((trim c.now (s.limiter.window c.key)).length : ℤ) < c.config.limit →
        ∀ oldest ∈ (trim c.now (s.limiter.window c.key)).head?, resetAfter = 60 - (c.now - oldest)) := by
  unfold localAnswer checkRateLimit
  refine ⟨_, rfl, fun hfull oldest holdest => ?_⟩
  simp only [if_neg hfull, Option.mem_def.mp holdest, Option.getD_some]

theorem step_eq_some (h : step str s c = some s') : s.clock ≤ c.now ∧ 0 < c.now ∧ s'.clock = c.now := by
  unfold step at h
  split_ifs at h with hclock
  obtain rfl := Option.some.inj h
  exact ⟨hclock.1, hclock.2, rfl⟩

theorem window_step (h : step str s c = some s') (k : String) :
    s'.limiter.window k = if k = c.key then
      if ((trim c.now (s.limiter.window c.key)).length : ℤ) < c.config.limit then
        trim c.now (s.limiter.window c.key) ++ [c.now]
      else trim c.now (s.limiter.window c.key)
    else s.limiter.window k := by
  unfold step at h
  split_ifs at h
  obtain rfl := Option.some.inj h
  exact window_set _ _ _ _

theorem zset_step (h : step str s c = some s') (k : String) :
    s'.redis.zset k = if k = c.key then
      if ((counted s c).zcard : ℤ) < c.config.limit then (counted s c).zadd (str c.now) c.now else counted s c
    else (s.redis.advance c.now).zset k := by
  unfold step at h
  split_ifs at h
  obtain rfl := Option.some.inj h
  have hcounted : ((s.redis.advance c.now).zremrangebyscore c.key 0 (c.now - 60)).zset c.key = counted s c :=
    (Redis.zset_zremrangebyscore _ _ _ _ _).trans (if_pos rfl)
  unfold RedisRateLimiter.checkRateLimit
  simp only [hcounted]
  by_cases hroom : ((counted s c).zcard : ℤ) < c.config.limit
  · rw [if_pos hroom, if_pos hroom, Redis.zset_expire, Redis.zset_zadd, hcounted, Redis.zset_zremrangebyscore]
    split_ifs
    · rfl
    · rfl
  · rw [if_neg hroom, if_neg hroom, Redis.zset_zremrangebyscore]
    rfl

theorem deadline_step {k : String} {d : ℚ} (h : step str s c = some s') (hd : s'.redis.deadline k = some d) :
    s.redis.deadline k = some d ∧ (k = c.key → ¬ ((counted s c).zcard : ℤ) < c.config.limit) ∨
      k = c.key ∧ d = c.now + 120 := by
  unfold step at h
  split_ifs at h
  obtain rfl := Option.some.inj h
  have hcounted : ((s.redis.advance c.now).zremrangebyscore c.key 0 (c.now - 60)).zset c.key = counted s c :=
    (Redis.zset_zremrangebyscore _ _ _ _ _).trans (if_pos rfl)
  unfold RedisRateLimiter.checkRateLimit at hd
  simp only [hcounted] at hd
  by_cases hroom : ((counted s c).zcard : ℤ) < c.config.limit
  · rw [if_pos hroom, Redis.deadline_expire_zadd, Redis.time_zremrangebyscore] at hd
    split_ifs at hd with hk
    · exact Or.inr ⟨hk, (Option.some.inj hd).symm⟩
    · exact Or.inl ⟨Redis.deadline_of_advance (Redis.deadline_of_zremrangebyscore hd), fun hk' => absurd hk' hk⟩
  · rw [if_neg hroom] at hd
    exact Or.inl ⟨Redis.deadline_of_advance (Redis.deadline_of_zremrangebyscore hd), fun _ => hroom⟩

/-! ## The invariant -/

variable (str) in
structure Inv (s : State) : Prop where
  mirrors : ∀ k, Mirrors str (s.clock - 60) (s.redis.zset k) (s.limiter.window k)
  past : ∀ k, ∀ t ∈ s.limiter.window k, 0 < t ∧ t ≤ s.clock
  sorted : ∀ k, (s.limiter.window k).Pairwise (· ≤ ·)
  deadlines : ∀ k d, s.redis.deadline k = some d → ∀ t ∈ s.limiter.window k, t + 120 ≤ d

theorem Inv.init : Inv str State.init :=
  ⟨fun _ => ⟨nofun, nofun⟩, fun _ _ => nofun, fun _ => List.Pairwise.nil, fun _ _ _ _ => nofun⟩

/-- A key that expires had nothing left in its window. -/
theorem Inv.advance {now : ℚ} (h : Inv str s) (hnow : s.clock ≤ now) (k : String) :
    Mirrors str (now - 60) ((s.redis.advance now).zset k) (s.limiter.window k) := by
  rcases Redis.zset_advance s.redis now k with hsame | ⟨hempty, d, hd, hpassed⟩
  · rw [hsame]
    exact (h.mirrors k).mono (by linarith)
  · rw [hempty]
    exact .empty fun t ht => by linarith [h.deadlines k d hd t ht]

theorem Inv.counted (h : Inv str s) (hnow : s.clock ≤ c.now) :
    Mirrors str (c.now - 60) (counted s c) (trim c.now (s.limiter.window c.key)) :=
  (h.advance hnow c.key).zremrangebyscore fun t ht => (h.past c.key t ht).1

theorem Inv.zcard_eq_iff (h : Inv str s) (hnow : s.clock ≤ c.now) :
    (LimiterAgreement.counted s c).zcard = (trim c.now (s.limiter.window c.key)).length ↔
      ((trim c.now (s.limiter.window c.key)).map str).Nodup :=
  (h.counted hnow).zcard_eq_iff fun _ ht => of_decide_eq_true (List.mem_filter.mp ht).2

/-- **The answers agree exactly when the set has an entry for every reading in the window.** -/
theorem Inv.agree_iff (h : Inv str s) (hnow : s.clock ≤ c.now) :
    Agree (redisAnswer str s c) (localAnswer s c) ↔ ((trim c.now (s.limiter.window c.key)).map str).Nodup := by
  obtain ⟨resetR, hr, hresetR⟩ := @redisAnswer_eq str s c
  obtain ⟨resetL, hl, hresetL⟩ := localAnswer_eq s c
  rw [← h.zcard_eq_iff hnow, hr, hl]
  constructor
  · intro hagree
    exact hagree.2.2.1
  · intro hcount
    refine ⟨?_, ?_, hcount, rfl, fun hdenied hpos => ?_⟩
    · simp only [statusOf, hcount]
    · simp only [statusOf, hcount]
    · have hfull : ¬ ((trim c.now (s.limiter.window c.key)).length : ℤ) < c.config.limit := of_decide_eq_false hdenied
      have hpos : 0 < c.config.limit := hpos
      have hnodup := (h.zcard_eq_iff hnow).mp hcount
      have hmirrors := h.counted hnow
      have hsorted := (h.sorted c.key).filter fun t => decide (c.now - 60 < t)
      change (trim c.now (s.limiter.window c.key)).Pairwise _ at hsorted
      have hfresh : ∀ t ∈ trim c.now (s.limiter.window c.key), c.now - 60 < t :=
        fun t ht => of_decide_eq_true (List.mem_filter.mp ht).2
      cases hwindow : trim c.now (s.limiter.window c.key) with
      | nil =>
        rw [hwindow, List.length_nil] at hfull
        exact absurd hpos (by simpa using hfull)
      | cons t rest =>
        rw [hwindow] at hmirrors hsorted hnodup hresetL hfull hfresh
        have hlowest := hmirrors.lowest_eq (hfresh t List.mem_cons_self) hsorted hnodup
        have hfullR : ¬ ((LimiterAgreement.counted s c).zcard : ℤ) < c.config.limit := by rwa [hcount, hwindow]
        simp only [statusOf]
        rw [hresetR hfullR t hlowest, hresetL hfull t rfl]

theorem Inv.step (h : Inv str s) (hagree : Agree (redisAnswer str s c) (localAnswer s c))
    (hstep : LimiterAgreement.step str s c = some s') : Inv str s' := by
  obtain ⟨hclock, hpos, hnow⟩ := step_eq_some hstep
  have hcount := (h.zcard_eq_iff hclock).mpr ((h.agree_iff hclock).mp hagree)
  have hpast : ∀ k, ∀ t ∈ s.limiter.window k, 0 < t ∧ t ≤ c.now :=
    fun k t ht => ⟨(h.past k t ht).1, (h.past k t ht).2.trans hclock⟩
  have hmem : ∀ t ∈ trim c.now (s.limiter.window c.key), t ∈ s.limiter.window c.key :=
    fun t ht => (List.mem_filter.mp ht).1
  have hsorted : (trim c.now (s.limiter.window c.key)).Pairwise (· ≤ ·) := (h.sorted c.key).filter _
  refine ⟨fun k => ?_, fun k => ?_, fun k => ?_, fun k d hd => ?_⟩
  · rw [hnow, zset_step hstep, window_step hstep, hcount]
    split_ifs with hk hroom
    · exact (h.counted hclock).zadd fun t ht => (hpast c.key t (hmem t ht)).2
    · exact h.counted hclock
    · exact h.advance hclock k
  · rw [hnow, window_step hstep]
    split_ifs with hk hroom
    · intro t ht
      rcases List.mem_append.mp ht with ht | ht
      · exact hpast c.key t (hmem t ht)
      · obtain rfl := List.mem_singleton.mp ht
        exact ⟨hpos, le_rfl⟩
    · exact fun t ht => hpast c.key t (hmem t ht)
    · exact hpast k
  · rw [window_step hstep]
    split_ifs with hk hroom
    · exact List.pairwise_append.mpr ⟨hsorted, List.pairwise_singleton _ _, fun x hx y hy =>
        (hpast c.key x (hmem x hx)).2.trans (List.mem_singleton.mp hy).ge⟩
    · exact hsorted
    · exact h.sorted k
  · rw [window_step hstep]
    rcases deadline_step hstep hd with ⟨hbefore, hdenied⟩ | ⟨hk, rfl⟩
    · split_ifs with hk hroom
      · exact absurd (hcount ▸ hroom) (hdenied hk)
      · exact fun t ht => h.deadlines c.key d (hk ▸ hbefore) t (hmem t ht)
      · exact h.deadlines k d hbefore
    · rw [if_pos hk]
      split_ifs with hroom
      · intro t ht
        rcases List.mem_append.mp ht with ht | ht
        · linarith [(hpast c.key t (hmem t ht)).2]
        · linarith [List.mem_singleton.mp ht]
      · exact fun t ht => by linarith [(hpast c.key t (hmem t ht)).2]

end Runs

/-- **The limiters answer alike at every call exactly when no call finds two readings that print alike in the
window of its key.** -/
theorem limiters_agree_iff (str : ℚ → String) (is : List Check) :
    (∀ js c ks s s', is = js ++ c :: ks → exec (step str) State.init js = some s → step str s c = some s' →
        Agree (redisAnswer str s c) (localAnswer s c)) ↔
      Guarded (step str) (Distinct str) State.init is := by
  refine @every_step_iff_guarded _ _ (step str) (Distinct str) (Inv str)
    (fun s c _ => Agree (redisAnswer str s c) (localAnswer s c)) (fun s c s' h hagree hstep => Inv.step h hagree hstep)
    (fun s c h => ?_) State.init Inv.init is
  constructor
  · intro hgood hclock hpos
    exact (h.agree_iff hclock).mp (hgood _ (if_pos ⟨hclock, hpos⟩))
  · intro hdistinct s' hstep
    obtain ⟨hclock, hpos, _⟩ := step_eq_some hstep
    exact (h.agree_iff hclock).mpr (hdistinct hclock hpos)

/-! ## Equal readings -/

def atOnce : Check := ⟨"a", ⟨2⟩, 1⟩

theorem isSome_twice : (exec (step fun _ => "1.0") State.init [atOnce, atOnce]).isSome = true := by decide +kernel

/-- Redis has one member for two calls with one reading, and lets a third one pass. -/
theorem equal_readings_disagree : ¬ ∀ (str : ℚ → String) (is : List Check) (c : Check) (s s' : State),
    exec (step str) State.init is = some s → step str s c = some s' →
      Agree (redisAnswer str s c) (localAnswer s c) := by
  intro h
  have hstep := Option.some_get (x := step (fun _ => "1.0") ((exec (step fun _ => "1.0") State.init [atOnce, atOnce]).get
    isSome_twice) atOnce) (by decide +kernel)
  have hagree := h (fun _ => "1.0") [atOnce, atOnce] atOnce _ _ (Option.some_get isSome_twice).symm hstep.symm
  exact absurd hagree.1 (by decide +kernel)

end KernelRuntime.LimiterAgreement
