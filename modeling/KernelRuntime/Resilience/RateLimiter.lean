import KernelRuntime.Foundations.SortedSet
import Mathlib.Algebra.Order.Ring.Rat

/-! # The rate limiters

A sliding window of sixty seconds for each key: `RedisRateLimiter` keeps it in a sorted set of Redis, whose members
are the printed clock readings, `LocalRateLimiter` in a list. Clock readings are exact. -/

namespace KernelRuntime.RateLimiter
set_option autoImplicit false

structure RateLimitConfig where
  requestsPerMinute : ℚ := 100

structure RateLimitStatus where
  allowed : Bool
  remaining : ℤ
  resetAfter : ℚ
  retryAfter : Option ℚ
  limit : ℤ
  current : ℕ
deriving DecidableEq

/-- `int`, which cuts off the fraction. -/
def int (r : ℚ) : ℤ := r.num.tdiv r.den

def RateLimitConfig.limit (config : RateLimitConfig) : ℤ := int config.requestsPerMinute

def statusOf (limit : ℤ) (currentCount : ℕ) (resetAfter : ℚ) : RateLimitStatus :=
  let allowed := decide ((currentCount : ℤ) < limit)
  { allowed
    remaining := max 0 (limit - currentCount - 1)
    resetAfter := max 0 resetAfter
    retryAfter := if allowed then none else some 60
    limit
    current := currentCount }

/-! ## Redis -/

structure RedisKey where
  set : SortedSet String ℚ
  deadline : Option ℚ

/-- A key without members does not exist, and a key past its deadline no more. -/
structure Redis where
  time : ℚ
  keys : OrderedDict String RedisKey

namespace Redis

def new : Redis := ⟨0, .empty⟩

def RedisKey.alive (time : ℚ) (e : RedisKey) : Bool :=
  match e.deadline with
  | some deadline => decide (time < deadline)
  | none => true

def advance (r : Redis) (time : ℚ) : Redis := ⟨time, r.keys.filter (RedisKey.alive time)⟩

def zset (r : Redis) (key : String) : SortedSet String ℚ := ((r.keys.get? key).map RedisKey.set).getD .empty

def zremrangebyscore (r : Redis) (key : String) (lo hi : ℚ) : Redis :=
  match r.keys.get? key with
  | none => r
  | some e =>
    let set := e.set.zremrangebyscore lo hi
    if set.zcard = 0 then { r with keys := r.keys.erase key } else { r with keys := r.keys.set key { e with set } }

def zadd (r : Redis) (key member : String) (score : ℚ) : Redis :=
  { r with keys := r.keys.set key ⟨(r.zset key).zadd member score, (r.keys.get? key).bind RedisKey.deadline⟩ }

def expire (r : Redis) (key : String) (seconds : ℚ) : Redis :=
  match r.keys.get? key with
  | none => r
  | some e => { r with keys := r.keys.set key { e with deadline := some (r.time + seconds) } }

/-! ## What the commands do to a set -/

variable {r : Redis} {key k : String}

theorem zset_zremrangebyscore (r : Redis) (key : String) (lo hi : ℚ) (k : String) :
    (r.zremrangebyscore key lo hi).zset k = if k = key then (r.zset key).zremrangebyscore lo hi else r.zset k := by
  unfold zremrangebyscore
  cases h : r.keys.get? key with
  | none =>
    split_ifs with hk
    · rw [hk, zset, h]
      rfl
    · rfl
  | some e =>
    simp only
    split_ifs with hempty hk hk
    · have hnone := SortedSet.eq_empty_of_zcard hempty
      rw [hk, zset, zset, h, OrderedDict.get?_erase_self, Option.map_some, Option.getD_some, hnone]
      rfl
    · rw [zset, zset, OrderedDict.get?_erase, if_neg hk]
    · rw [hk, zset, zset, h, OrderedDict.get?_set_self]
      rfl
    · rw [zset, zset, OrderedDict.get?_set, if_neg hk]

theorem zset_zadd (r : Redis) (key member : String) (score : ℚ) (k : String) :
    (r.zadd key member score).zset k = if k = key then (r.zset key).zadd member score else r.zset k := by
  unfold zadd
  rw [zset, OrderedDict.get?_set]
  split_ifs
  · rfl
  · rfl

@[simp] theorem zset_expire (r : Redis) (key : String) (seconds : ℚ) (k : String) :
    (r.expire key seconds).zset k = r.zset k := by
  unfold expire
  cases h : r.keys.get? key with
  | none => rfl
  | some e =>
    rw [zset, zset, OrderedDict.get?_set]
    split_ifs with hk
    · rw [hk, h]
      rfl
    · rfl

/-! ## What they do to a deadline -/

def deadline (r : Redis) (k : String) : Option ℚ := (r.keys.get? k).bind RedisKey.deadline

/-- The set of a key is there, or its deadline has passed. -/
theorem zset_advance (r : Redis) (time : ℚ) (k : String) :
    (r.advance time).zset k = r.zset k ∨ (r.advance time).zset k = .empty ∧ ∃ d ∈ r.deadline k, d ≤ time := by
  unfold zset deadline advance
  rw [OrderedDict.get?_filter]
  cases h : r.keys.get? k with
  | none => exact Or.inl rfl
  | some e =>
    cases halive : RedisKey.alive time e with
    | true => exact Or.inl (by rw [Option.filter_some, if_pos halive])
    | false =>
      refine Or.inr ⟨by rw [Option.filter_some, halive]; rfl, ?_⟩
      unfold RedisKey.alive at halive
      split at halive
      · exact ⟨_, ‹_›, not_lt.mp (of_decide_eq_false halive)⟩
      · cases halive

theorem deadline_of_advance {time d : ℚ} (h : (r.advance time).deadline k = some d) : r.deadline k = some d := by
  unfold deadline advance at h
  obtain ⟨e, he, hd⟩ := Option.bind_eq_some_iff.mp h
  rw [OrderedDict.get?_filter, Option.filter_eq_some_iff] at he
  exact Option.bind_eq_some_iff.mpr ⟨e, he.1, hd⟩

theorem deadline_of_zremrangebyscore {lo hi d : ℚ} (h : (r.zremrangebyscore key lo hi).deadline k = some d) :
    r.deadline k = some d := by
  unfold zremrangebyscore at h
  cases he : r.keys.get? key with
  | none => rwa [he] at h
  | some e =>
    rw [he] at h
    obtain ⟨e', he', hd⟩ := Option.bind_eq_some_iff.mp h
    simp only at he'
    split_ifs at he'
    · exact Option.bind_eq_some_iff.mpr ⟨e', OrderedDict.get?_of_get?_erase he', hd⟩
    · rw [OrderedDict.get?_set] at he'
      split_ifs at he' with hk
      · obtain rfl := Option.some.inj he'
        exact Option.bind_eq_some_iff.mpr ⟨e, hk ▸ he, hd⟩
      · exact Option.bind_eq_some_iff.mpr ⟨e', he', hd⟩

theorem deadline_expire_zadd (r : Redis) (key member : String) (score seconds : ℚ) (k : String) :
    ((r.zadd key member score).expire key seconds).deadline k =
      if k = key then some (r.time + seconds) else r.deadline k := by
  unfold expire zadd deadline
  simp only [OrderedDict.get?_set_self, OrderedDict.get?_set]
  split_ifs
  · rfl
  · rfl

@[simp] theorem time_zremrangebyscore (r : Redis) (key : String) (lo hi : ℚ) :
    (r.zremrangebyscore key lo hi).time = r.time := by
  unfold zremrangebyscore
  split
  · rfl
  · simp only
    split_ifs <;> rfl

end Redis

/-! ## The limiters -/

namespace RedisRateLimiter
variable (str : ℚ → String)

/-- `str` prints a clock reading. -/
def checkRateLimit (redis : Redis) (key : String) (config : RateLimitConfig) (now : ℚ) : RateLimitStatus × Redis :=
  let windowStart := now - 60
  let redis := redis.zremrangebyscore key 0 windowStart
  let currentCount := (redis.zset key).zcard
  let limit := config.limit
  let redis := if (currentCount : ℤ) < limit then (redis.zadd key (str now) now).expire key 120 else redis
  let resetAfter := match (redis.zset key).lowest with
    | some oldest => 60 - (now - oldest)
    | none => 60
  (statusOf limit currentCount resetAfter, redis)

end RedisRateLimiter

abbrev LocalRateLimiter := OrderedDict String (List ℚ)

namespace LocalRateLimiter

def window (limiter : LocalRateLimiter) (key : String) : List ℚ := (limiter.get? key).getD []

/-- The entries that are still in the window. -/
def trim (now : ℚ) (window : List ℚ) : List ℚ := window.filter fun t => decide (now - 60 < t)

def checkRateLimit (limiter : LocalRateLimiter) (key : String) (config : RateLimitConfig) (now : ℚ) :
    RateLimitStatus × LocalRateLimiter :=
  let window := trim now (limiter.window key)
  let currentCount := window.length
  let limit := config.limit
  let window := if (currentCount : ℤ) < limit then window ++ [now] else window
  let oldest := window.head?.getD now
  let resetAfter := 60 - (now - oldest)
  (statusOf limit currentCount resetAfter, limiter.set key window)

end LocalRateLimiter
end KernelRuntime.RateLimiter
