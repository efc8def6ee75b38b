import McpControlPlane.RateLimiter
import McpControlPlane.Sequential

/-! # The limiter against the full history

Calls that do not overlap, on a Redis that answers every command. The sorted set and its key
forget what has left the window; the specification looks at every call that was ever allowed. -/
namespace SlidingWindow

open PyText Interleaving Sequential Binary64 RateLimiter

/-- Redis, and the uuids that were drawn so far. -/
structure World where
  redis : RedisState
  drawn : List ℕ

/-- The time is the number of seconds since the epoch. -/
def World.initial (clock : ℚ) : World := ⟨.initial clock, []⟩

def World.tick (w : World) (dt : ℚ) : World := { w with redis := w.redis.tick dt }

/-- Every command is answered without an error, and no uuid is drawn twice. -/
inductive Answers : World → (o : RateOp) → rates.Res o → World → Prop
  | redis {w : World} {o : RateOp} {x : rates.Res o} {s : RedisState}
      (h : rateAnswer w.redis o .plain = some (x, s)) : Answers w o x ⟨s, w.drawn⟩
  | uuid {w : World} {u : ℕ} (h : u ∉ w.drawn) : Answers w .uuid4 u ⟨w.redis, u :: w.drawn⟩

/-- A call of `check` with the time it was made at. -/
structure Call where
  agentId : Str
  limit : ℤ
  now : ℚ
  result : RateLimitResult

/-- The calls that were made so far, in their order. -/
inductive Run (windowSeconds : ℕ) : List Call → World → Prop
  | start (clock : ℚ) (hclock : 0 ≤ clock) : Run windowSeconds [] (.initial clock)
  | wait {calls : List Call} {w : World} (hrun : Run windowSeconds calls w) (dt : ℚ)
      (hdt : 0 ≤ dt) : Run windowSeconds calls (w.tick dt)
  | call {calls : List Call} {w w' : World} (hrun : Run windowSeconds calls w) (agentId : Str)
      (limit : ℤ) (result : RateLimitResult)
      (hend : Ends Answers (check windowSeconds agentId limit) w (.ok result) w') :
      Run windowSeconds (calls ++ [⟨agentId, limit, w.redis.clock, result⟩]) w'

/-! ## The specification -/

/-- The timestamps of the calls of the agent that were allowed. -/
def allowedStamps (agentId : Str) (calls : List Call) : List ℚ :=
  (calls.filter fun c => decide (c.agentId = agentId) && c.result.allowed).map Call.now

/-- Those of them in `(now - windowSeconds, now]`. -/
def windowStamps (windowSeconds : ℕ) (agentId : Str) (now : ℚ) (calls : List Call) : List ℚ :=
  (allowedStamps agentId calls).filter fun t => decide (now - windowSeconds < t ∧ t ≤ now)

/-- When the oldest call of the window leaves it. -/
def resetAt (windowSeconds : ℕ) (now : ℚ) (stamps : List ℚ) : ℚ :=
  stamps.min?.getD now + windowSeconds

/-- How long that is from `now`, in double precision. -/
def roundedStay (windowSeconds : ℕ) (now : ℚ) (stamps : List ℚ) : ℚ :=
  nearest (nearest (resetAt windowSeconds now stamps) - now)

def specResult (windowSeconds : ℕ) (limit : ℤ) (now : ℚ) (stamps : List ℚ) : RateLimitResult :=
  if stamps.length < limit then
    ⟨true, limit, limit - 1 - stamps.length, truncate (nearest (now + windowSeconds)), none⟩
  else
    ⟨false, limit, 0, truncate (nearest (resetAt windowSeconds now stamps)),
      some (max 1 (truncate (roundedStay windowSeconds now stamps)))⟩

/-! ## What one call does -/

theorem answers_redis {w w' : World} {o : RateOp} {x : rates.Res o} (h : Answers w o x w')
    (ho : o ≠ .uuid4) :
    rateAnswer w.redis o .plain = some (x, w'.redis) ∧ w'.drawn = w.drawn := by
  cases h with
  | redis h => exact ⟨h, rfl⟩
  | uuid h => exact absurd rfl ho

/-- The members that the purge leaves. -/
def kept (windowSeconds : ℕ) (w : World) (agentId : Str) : List (Member × ℚ) :=
  (w.redis.zset (rateKey agentId)).filter fun e =>
    ¬ (0 ≤ e.2 ∧ e.2 ≤ w.redis.clock - windowSeconds)

def purge (windowSeconds : ℕ) (w : World) (agentId : Str) : RedisState :=
  w.redis.setZset (rateKey agentId) (kept windowSeconds w agentId)

/-- A call that finds the quota used up. -/
def Rejects (windowSeconds : ℕ) (agentId : Str) (limit : ℤ) (w : World)
    (r : Except Empty RateLimitResult) (w' : World) : Prop :=
  let oldest := (first (kept windowSeconds w agentId)).getD w.redis.clock
  let resetAt := nearest (oldest + windowSeconds)
  limit ≤ (kept windowSeconds w agentId).length ∧
    r = .ok ⟨false, limit, 0, truncate resetAt,
      some (max 1 (truncate (nearest (resetAt - w.redis.clock))))⟩ ∧
    w' = ⟨purge windowSeconds w agentId, w.drawn⟩

/-- A call that uses one up. -/
def Admits (windowSeconds : ℕ) (agentId : Str) (limit : ℤ) (w : World)
    (r : Except Empty RateLimitResult) (w' : World) : Prop :=
  ∃ u, u ∉ w.drawn ∧ (kept windowSeconds w agentId).length < limit ∧
    r = .ok ⟨true, limit, max 0 (limit - (kept windowSeconds w agentId).length - 1),
      truncate (nearest (w.redis.clock + windowSeconds)), none⟩ ∧
    w' = ⟨(purge windowSeconds w agentId).zaddExpire (rateKey agentId) ⟨w.redis.clock, u⟩
      w.redis.clock windowSeconds, u :: w.drawn⟩

theorem zset_purge (windowSeconds : ℕ) (w : World) (agentId : Str) :
    (purge windowSeconds w agentId).zset (rateKey agentId) = kept windowSeconds w agentId := by
  simp [purge, RedisState.setZset]

theorem ends_check {windowSeconds : ℕ} {agentId : Str} {limit : ℤ} {w w' : World}
    {r : Except Empty RateLimitResult} :
    Ends Answers (check windowSeconds agentId limit) w r w' ↔
      Rejects windowSeconds agentId limit w r w' ∨ Admits windowSeconds agentId limit w r w' := by
  constructor
  · intro h
    obtain ⟨now, w₁, htime, h⟩ := ends_perform.mp h
    obtain ⟨s, d⟩ := w₁
    obtain ⟨heq, rfl : d = w.drawn⟩ := answers_redis htime (by simp)
    obtain ⟨rfl, rfl⟩ := Prod.mk.inj (Option.some.inj heq)
    obtain ⟨purged, w₂, hpurge, h⟩ := ends_perform.mp h
    obtain ⟨s, d⟩ := w₂
    obtain ⟨heq, rfl : d = w.drawn⟩ := answers_redis hpurge (by simp)
    obtain ⟨rfl, hs⟩ := Prod.mk.inj (Option.some.inj heq)
    change purge windowSeconds w agentId = s at hs
    subst hs
    obtain ⟨card, w₃, hcard, h⟩ := ends_perform.mp h
    obtain ⟨s, d⟩ := w₃
    obtain ⟨heq, rfl : d = w.drawn⟩ := answers_redis hcard (by simp)
    obtain ⟨rfl, rfl⟩ := Prod.mk.inj (Option.some.inj heq)
    simp only [zset_purge] at h
    by_cases hlimit : limit ≤ (kept windowSeconds w agentId).length
    · simp only [hlimit, if_true] at h
      obtain ⟨oldest, w₄, hfirst, h⟩ := ends_perform.mp h
      obtain ⟨s, d⟩ := w₄
      obtain ⟨heq, rfl : d = w.drawn⟩ := answers_redis hfirst (by simp)
      obtain ⟨rfl, rfl⟩ := Prod.mk.inj (Option.some.inj heq)
      obtain ⟨hr, hw⟩ := ends_ret.mp h
      simp only [zset_purge] at hr
      exact Or.inl ⟨hlimit, hr, hw⟩
    · simp only [hlimit, if_false] at h
      obtain ⟨u, w₄, huuid, h⟩ := ends_perform.mp h
      cases huuid with
      | redis hbad => cases hbad
      | uuid hu =>
        obtain ⟨added, w₅, hadd, h⟩ := ends_perform.mp h
        obtain ⟨s, d⟩ := w₅
        obtain ⟨heq, rfl⟩ := answers_redis hadd (by simp)
        obtain ⟨rfl, rfl⟩ := Prod.mk.inj (Option.some.inj heq)
        obtain ⟨hr, hw⟩ := ends_ret.mp h
        exact Or.inr ⟨u, hu, by omega, hr, hw⟩
  · intro h
    refine ends_perform.mpr ⟨_, _, .redis rfl, ?_⟩
    refine ends_perform.mpr ⟨_, _, .redis rfl, ?_⟩
    refine ends_perform.mpr ⟨_, _, .redis rfl, ?_⟩
    change Ends (S := rates) (α := RateLimitResult) Answers
      (if limit ≤ ((purge windowSeconds w agentId).zset (rateKey agentId)).length then _ else _)
      ⟨purge windowSeconds w agentId, w.drawn⟩ r w'
    rw [zset_purge]
    rcases h with ⟨hlimit, rfl, rfl⟩ | ⟨u, hu, hlimit, rfl, rfl⟩
    · simp only [hlimit, if_true]
      refine ends_perform.mpr ⟨_, _, .redis rfl, ?_⟩
      refine ends_ret.mpr ⟨?_, rfl⟩
      simp only [zset_purge]
    · simp only [show ¬ limit ≤ ((kept windowSeconds w agentId).length : ℤ) by omega, if_false]
      refine ends_perform.mpr ⟨_, _, .uuid hu, ?_⟩
      refine ends_perform.mpr ⟨_, _, .redis rfl, ends_ret.mpr ⟨?_, rfl⟩⟩
      rw [← zset_purge windowSeconds w agentId]
      rfl

/-! ## What the sorted sets remember -/

@[simp] theorem allowedStamps_nil (agentId : Str) : allowedStamps agentId [] = [] := rfl

theorem allowedStamps_append (agentId : Str) (calls calls' : List Call) :
    allowedStamps agentId (calls ++ calls') =
      allowedStamps agentId calls ++ allowedStamps agentId calls' := by
  simp [allowedStamps]

theorem allowedStamps_skip {agentId : Str} {c : Call}
    (h : ¬ (c.agentId = agentId ∧ c.result.allowed = true)) : allowedStamps agentId [c] = [] := by
  have hfalse : (decide (c.agentId = agentId) && c.result.allowed) = false := by
    simpa [imp_iff_not_or] using h
  simp [allowedStamps, hfalse]

theorem allowedStamps_single {c : Call} (h : c.result.allowed = true) :
    allowedStamps c.agentId [c] = [c.now] := by
  simp [allowedStamps, h]

theorem rateKey_inj {a b : Str} : rateKey a = rateKey b ↔ a = b := by
  simp [rateKey]

/-- The sorted set of an agent holds its allowed calls after a bound that no window of a later
call reaches below, and the key lives as long as they are in the window. -/
structure Remembers (windowSeconds : ℕ) (calls : List Call) (w : World) : Prop where
  epoch : 0 ≤ w.redis.clock
  past : ∀ a, ∀ t ∈ allowedStamps a calls, 0 ≤ t ∧ t ≤ w.redis.clock
  scores : ∀ a, ∃ b, b ≤ w.redis.clock - windowSeconds ∧
    (w.redis.zset (rateKey a)).map Prod.snd = (allowedStamps a calls).filter (fun t => decide (b < t))
  drawn : ∀ a, ∀ e ∈ w.redis.zset (rateKey a), e.1.uuid ∈ w.drawn
  deadline : ∀ a, ∀ d ∈ w.redis.deadline (rateKey a), ∀ t ∈ allowedStamps a calls,
    t + windowSeconds ≤ d

theorem remembers_initial (windowSeconds : ℕ) {clock : ℚ} (hclock : 0 ≤ clock) :
    Remembers windowSeconds [] (.initial clock) where
  epoch := hclock
  past a t ht := absurd ht List.not_mem_nil
  scores a := ⟨clock - windowSeconds, le_rfl, rfl⟩
  drawn a e he := absurd he List.not_mem_nil
  deadline a d hd := by cases hd

theorem remembers_tick {windowSeconds : ℕ} {calls : List Call} {w : World}
    (h : Remembers windowSeconds calls w) {dt : ℚ} (hdt : 0 ≤ dt) :
    Remembers windowSeconds calls (w.tick dt) where
  epoch := add_nonneg h.epoch hdt
  past a t ht := ⟨(h.past a t ht).1, le_trans (h.past a t ht).2 (le_add_of_nonneg_right hdt)⟩
  scores a := by
    change ∃ b, b ≤ w.redis.clock + dt - windowSeconds ∧
      (if ∃ d ∈ w.redis.deadline (rateKey a), d ≤ w.redis.clock + dt then []
        else w.redis.zset (rateKey a)).map Prod.snd = _
    split_ifs with hgone
    · -- the key vanishes with members that are all out of the window
      obtain ⟨d, hd, hpassed⟩ := hgone
      refine ⟨w.redis.clock + dt - windowSeconds, le_rfl, Eq.symm (List.filter_eq_nil_iff.mpr ?_)⟩
      intro t ht
      have := h.deadline a d hd t ht
      simp only [decide_eq_true_eq, not_lt]
      linarith
    · obtain ⟨b, hb, hscores⟩ := h.scores a
      exact ⟨b, by linarith, hscores⟩
  drawn a e he := by
    change e ∈ if ∃ d ∈ w.redis.deadline (rateKey a), d ≤ w.redis.clock + dt then []
      else w.redis.zset (rateKey a) at he
    split_ifs at he with hgone
    · exact absurd he List.not_mem_nil
    · exact h.drawn a e he
  deadline a d hd := by
    change d ∈ (if ∃ d ∈ w.redis.deadline (rateKey a), d ≤ w.redis.clock + dt then none
      else w.redis.deadline (rateKey a)) at hd
    split_ifs at hd with hgone
    · cases hd
    · exact h.deadline a d hd

/-- What the purge leaves are the calls of the window. -/
theorem kept_scores {windowSeconds : ℕ} {calls : List Call} {w : World}
    (h : Remembers windowSeconds calls w) (agentId : Str) :
    (kept windowSeconds w agentId).map Prod.snd =
      windowStamps windowSeconds agentId w.redis.clock calls := by
  obtain ⟨b, hb, hscores⟩ := h.scores agentId
  have hmap : (kept windowSeconds w agentId).map Prod.snd =
      ((w.redis.zset (rateKey agentId)).map Prod.snd).filter fun t =>
        decide (¬ (0 ≤ t ∧ t ≤ w.redis.clock - windowSeconds)) := by
    rw [List.filter_map]
    rfl
  rw [hmap, hscores, windowStamps, List.filter_filter]
  apply List.filter_congr
  intro t ht
  have hpast := h.past agentId t ht
  rw [← Bool.decide_and, decide_eq_decide]
  constructor
  · rintro ⟨hout, -⟩
    exact ⟨not_le.mp fun hle => hout ⟨hpast.1, hle⟩, hpast.2⟩
  · rintro ⟨hin, -⟩
    exact ⟨fun hout => absurd hout.2 (not_le.mpr hin), lt_of_le_of_lt hb hin⟩

theorem kept_length {windowSeconds : ℕ} {calls : List Call} {w : World}
    (h : Remembers windowSeconds calls w) (agentId : Str) :
    (kept windowSeconds w agentId).length =
      (windowStamps windowSeconds agentId w.redis.clock calls).length := by
  rw [← kept_scores h, List.length_map]

/-- The set that the purge leaves remembers as much. -/
theorem remembers_purge {windowSeconds : ℕ} {calls : List Call} {w : World}
    (h : Remembers windowSeconds calls w) (agentId : Str) :
    Remembers windowSeconds calls ⟨purge windowSeconds w agentId, w.drawn⟩ where
  epoch := h.epoch
  past := h.past
  scores a := by
    by_cases ha : a = agentId
    · subst ha
      refine ⟨w.redis.clock - windowSeconds, le_rfl, ?_⟩
      rw [zset_purge, kept_scores h, windowStamps]
      apply List.filter_congr
      intro t ht
      simp [(h.past a t ht).2]
    · simpa [purge, RedisState.setZset, Function.update_of_ne, rateKey_inj, ha] using h.scores a
  drawn a e he := by
    by_cases ha : a = agentId
    · subst ha
      rw [zset_purge] at he
      exact h.drawn a e (List.mem_filter.mp he).1
    · apply h.drawn a e
      simpa [purge, RedisState.setZset, Function.update_of_ne, rateKey_inj, ha] using he
  deadline := h.deadline

theorem remembers_reject {windowSeconds : ℕ} {calls : List Call} {w : World}
    (h : Remembers windowSeconds calls w) {c : Call} (hc : c.result.allowed = false) :
    Remembers windowSeconds (calls ++ [c]) w := by
  have hstamps : ∀ a, allowedStamps a (calls ++ [c]) = allowedStamps a calls := by
    intro a
    rw [allowedStamps_append, allowedStamps_skip (by simp [hc]), List.append_nil]
  constructor
  · exact h.epoch
  · simpa only [hstamps] using h.past
  · simpa only [hstamps] using h.scores
  · exact h.drawn
  · simpa only [hstamps] using h.deadline

theorem zaddExpire_clock (s : RedisState) (key : Str) (m : Member) (score : ℚ) (seconds : ℕ) :
    (s.zaddExpire key m score seconds).clock = s.clock := by
  rw [RedisState.zaddExpire]
  split_ifs <;> rfl

theorem zaddExpire_self (s : RedisState) (key : Str) (m : Member) (score : ℚ) (seconds : ℕ) :
    (s.zaddExpire key m score seconds).zset key =
        (if seconds = 0 then [] else zadd (s.zset key) m score) ∧
      (s.zaddExpire key m score seconds).deadline key =
        if seconds = 0 then none else some (s.clock + seconds) := by
  rw [RedisState.zaddExpire]
  split_ifs <;> simp [RedisState.setZset]

theorem zaddExpire_ne (s : RedisState) {key key' : Str} (h : key' ≠ key) (m : Member) (score : ℚ)
    (seconds : ℕ) :
    (s.zaddExpire key m score seconds).zset key' = s.zset key' ∧
      (s.zaddExpire key m score seconds).deadline key' = s.deadline key' := by
  rw [RedisState.zaddExpire]
  split_ifs <;> simp [RedisState.setZset, h]

/-- Under a uuid that was not drawn before, ZADD adds a member. -/
theorem zadd_fresh {w : World} {z : List (Member × ℚ)} {u : ℕ} (hu : u ∉ w.drawn)
    (hz : ∀ e ∈ z, e.1.uuid ∈ w.drawn) (now score : ℚ) :
    zadd z ⟨now, u⟩ score = z ++ [(⟨now, u⟩, score)] := by
  rw [zadd, List.filter_eq_self.mpr]
  intro e he
  rw [decide_eq_true_eq]
  intro heq
  apply hu
  simpa [heq] using hz e he

/-- An allowed call is entered as a new member, under a key that lives on for a window. -/
theorem remembers_admit {windowSeconds : ℕ} {calls : List Call} {w : World}
    (h : Remembers windowSeconds calls w) {c : Call} (hc : c.result.allowed = true)
    (hnow : c.now = w.redis.clock) {u : ℕ} (hu : u ∉ w.drawn)
    (hkept : (w.redis.zset (rateKey c.agentId)).map Prod.snd =
      windowStamps windowSeconds c.agentId c.now calls) :
    Remembers windowSeconds (calls ++ [c])
      ⟨w.redis.zaddExpire (rateKey c.agentId) ⟨c.now, u⟩ c.now windowSeconds, u :: w.drawn⟩ := by
  have hother : ∀ a, a ≠ c.agentId → allowedStamps a (calls ++ [c]) = allowedStamps a calls := by
    intro a ha
    rw [allowedStamps_append, allowedStamps_skip (fun hown => ha hown.1.symm), List.append_nil]
  have hown : allowedStamps c.agentId (calls ++ [c]) = allowedStamps c.agentId calls ++ [c.now] := by
    rw [allowedStamps_append, allowedStamps_single hc]
  have hpast : ∀ a, ∀ t ∈ allowedStamps a (calls ++ [c]), 0 ≤ t ∧ t ≤ w.redis.clock := by
    intro a t ht
    by_cases ha : a = c.agentId
    · subst ha
      rw [hown, List.mem_append, List.mem_singleton] at ht
      rcases ht with ht | rfl
      · exact h.past _ t ht
      · rw [hnow]
        exact ⟨h.epoch, le_rfl⟩
    · rw [hother a ha] at ht
      exact h.past a t ht
  have hself := zaddExpire_self w.redis (rateKey c.agentId) ⟨c.now, u⟩ c.now windowSeconds
  have hne : ∀ a, a ≠ c.agentId → _ := fun a ha =>
    zaddExpire_ne w.redis (fun heq : rateKey a = rateKey c.agentId => ha (rateKey_inj.mp heq))
      ⟨c.now, u⟩ c.now windowSeconds
  rw [zadd_fresh hu (h.drawn c.agentId)] at hself
  constructor
  · simpa only [zaddExpire_clock] using h.epoch
  · simpa only [zaddExpire_clock] using hpast
  · intro a
    simp only [zaddExpire_clock]
    by_cases ha : a = c.agentId
    · subst ha
      refine ⟨w.redis.clock - windowSeconds, le_rfl, ?_⟩
      rw [hself.1]
      by_cases hzero : windowSeconds = 0
      · -- with a window of no time EXPIRE deletes the key, and every call is out of it
        rw [if_pos hzero, List.map_nil, eq_comm, List.filter_eq_nil_iff]
        intro t ht
        simpa [hzero] using (hpast _ t ht).2
      · have hwindow : (0 : ℚ) < windowSeconds := by exact_mod_cast Nat.pos_of_ne_zero hzero
        rw [if_neg hzero, hown, List.map_append, hkept, windowStamps, List.filter_append]
        congr 1
        · apply List.filter_congr
          intro t ht
          simp [hnow, (h.past _ t ht).2]
        · simp [hnow, hwindow]
    · rw [(hne a ha).1, hother a ha]
      exact h.scores a
  · intro a e he
    by_cases ha : a = c.agentId
    · subst ha
      rw [hself.1] at he
      split_ifs at he with hzero
      · exact absurd he List.not_mem_nil
      · rcases List.mem_append.mp he with he | he
        · exact List.mem_cons_of_mem _ (h.drawn _ e he)
        · rw [List.mem_singleton.mp he]
          exact List.mem_cons_self
    · rw [(hne a ha).1] at he
      exact List.mem_cons_of_mem _ (h.drawn a e he)
  · intro a d hd t ht
    by_cases ha : a = c.agentId
    · subst ha
      rw [hself.2] at hd
      split_ifs at hd with hzero
      · cases hd
      · obtain rfl := Option.some.inj hd
        linarith [(hpast _ t ht).2]
    · rw [(hne a ha).2] at hd
      rw [hother a ha] at ht
      exact h.deadline a d hd t ht

/-! ## The refinement -/

/-- One check gives what the specification gives, and is remembered. -/
theorem remembers_check {windowSeconds : ℕ} {calls : List Call} {w w' : World}
    (h : Remembers windowSeconds calls w) {agentId : Str} {limit : ℤ}
    {r : Except Empty RateLimitResult}
    (hend : Ends Answers (check windowSeconds agentId limit) w r w') :
    r = .ok (specResult windowSeconds limit w.redis.clock
        (windowStamps windowSeconds agentId w.redis.clock calls)) ∧
      ∀ result, r = .ok result →
        Remembers windowSeconds (calls ++ [⟨agentId, limit, w.redis.clock, result⟩]) w' := by
  have hpurge := remembers_purge h agentId
  have hlength := kept_length h agentId
  rcases ends_check.mp hend with ⟨hlimit, rfl, rfl⟩ | ⟨u, hu, hlimit, rfl, rfl⟩
  · rw [hlength] at hlimit
    refine ⟨?_, fun result hr => ?_⟩
    · rw [specResult, if_neg (by omega), resetAt, ← kept_scores h agentId]
      rfl
    · obtain rfl := Except.ok.inj hr
      exact remembers_reject hpurge rfl
  · rw [hlength] at hlimit
    refine ⟨?_, fun result hr => ?_⟩
    · rw [specResult, if_pos hlimit, hlength]
      congr 2
      omega
    · obtain rfl := Except.ok.inj hr
      refine remembers_admit hpurge rfl rfl hu ?_
      rw [zset_purge, kept_scores h]

theorem run_remembers {windowSeconds : ℕ} {calls : List Call} {w : World}
    (hrun : Run windowSeconds calls w) : Remembers windowSeconds calls w := by
  induction hrun with
  | start clock hclock => exact remembers_initial windowSeconds hclock
  | wait hrun dt hdt ih => exact remembers_tick ih hdt
  | call hrun agentId limit result hend ih => exact (remembers_check ih hend).2 result rfl

/-- A call can always be made. -/
theorem check_ends (windowSeconds : ℕ) (agentId : Str) (limit : ℤ) (w : World) :
    ∃ result w', Ends Answers (check windowSeconds agentId limit) w (.ok result) w' := by
  by_cases hlimit : limit ≤ (kept windowSeconds w agentId).length
  · exact ⟨_, _, ends_check.mpr (Or.inl ⟨hlimit, rfl, rfl⟩)⟩
  · obtain ⟨u, hu⟩ := Infinite.exists_notMem_finset w.drawn.toFinset
    exact ⟨_, _, ends_check.mpr (Or.inr ⟨u, by simpa using hu, by omega, rfl, rfl⟩)⟩

/-- In every run each call is decided by the allowed calls of its agent in the window alone. -/
theorem check_is_sliding_window {windowSeconds : ℕ} {calls : List Call} {w : World}
    (hrun : Run windowSeconds calls w) (agentId : Str) (limit : ℤ) :
    (∃ result w', Ends Answers (check windowSeconds agentId limit) w (.ok result) w') ∧
    (∀ r w', Ends Answers (check windowSeconds agentId limit) w r w' → ∃ result, r = .ok result ∧
      (result.allowed = true ↔
        (windowStamps windowSeconds agentId w.redis.clock calls).length < limit) ∧
      (result.allowed = true → result.remaining =
        limit - 1 - (windowStamps windowSeconds agentId w.redis.clock calls).length) ∧
      (result.allowed = false → ∀ a now, windowStamps windowSeconds a now
          (calls ++ [⟨agentId, limit, w.redis.clock, result⟩]) =
        windowStamps windowSeconds a now calls)) ∧
    ∀ calls₂ w₂, Run windowSeconds calls₂ w₂ → w₂.redis.clock = w.redis.clock →
      allowedStamps agentId calls₂ = allowedStamps agentId calls →
      ∀ r w' r₂ w₂', Ends Answers (check windowSeconds agentId limit) w r w' →
        Ends Answers (check windowSeconds agentId limit) w₂ r₂ w₂' → r₂ = r := by
  have hmem := run_remembers hrun
  refine ⟨check_ends windowSeconds agentId limit w, ?_, ?_⟩
  · intro r w' hend
    refine ⟨_, (remembers_check hmem hend).1, ?_, ?_, ?_⟩
    · rw [specResult]
      split_ifs with hroom <;> simp [hroom]
    · rw [specResult]
      split_ifs with hroom <;> simp
    · intro hrejected a now
      rw [windowStamps, allowedStamps_append, allowedStamps_skip (fun hown => ?_), List.append_nil,
        windowStamps]
      rw [hown.2] at hrejected
      cases hrejected
  · intro calls₂ w₂ hrun₂ hclock hsame r w' r₂ w₂' hend hend₂
    rw [(remembers_check hmem hend).1, (remembers_check (run_remembers hrun₂) hend₂).1]
    simp only [windowStamps, hsame, hclock]

/-- One call at 100, and a minute later the window is empty again. -/
theorem check_is_sliding_window_after_one : ∃ calls w, Run 60 calls w ∧ calls.length = 1 ∧
    ∃ result w', Ends Answers (check 60 (lit "agent01") 1) w (.ok result) w' ∧
      result.allowed = true ∧ result.remaining = 0 := by
  obtain ⟨first, w, hfirst⟩ := check_ends 60 (lit "agent01") 1 (.initial 100)
  have hrun := Run.wait (Run.call (.start 100 (by norm_num)) _ _ first hfirst) 60 (by norm_num)
  have hclock : (w.tick 60).redis.clock = 160 := by
    rcases ends_check.mp hfirst with ⟨-, -, rfl⟩ | ⟨u, -, -, -, rfl⟩
    · change (100 : ℚ) + 60 = 160
      norm_num
    · change (RedisState.zaddExpire _ _ _ _ _).clock + 60 = (160 : ℚ)
      rw [zaddExpire_clock]
      change (100 : ℚ) + 60 = 160
      norm_num
  obtain ⟨⟨result, w', hend⟩, hspec, -⟩ := check_is_sliding_window hrun (lit "agent01") 1
  obtain ⟨result', hok, hallowed, hremaining, -⟩ := hspec _ _ hend
  obtain rfl := Except.ok.inj hok
  have hnone : windowStamps 60 (lit "agent01") (w.tick 60).redis.clock
      ([] ++ [⟨lit "agent01", 1, (World.initial 100).redis.clock, first⟩]) = [] := by
    rw [hclock, windowStamps, List.filter_eq_nil_iff]
    intro t ht
    obtain ⟨c, hc, rfl⟩ := List.mem_map.mp ht
    obtain rfl : c = _ := List.mem_singleton.mp (List.mem_filter.mp hc).1
    change ¬ decide ((160 : ℚ) - (60 : ℕ) < 100 ∧ (100 : ℚ) ≤ 160) = true
    norm_num
  rw [hnone] at hallowed hremaining
  have hyes := hallowed.mpr (by simp)
  exact ⟨_, _, hrun, rfl, result, w', hend, hyes, by simpa using hremaining hyes⟩

/-! ## Retry-After -/

/-- Each call of a run got what the specification gives for the calls before it. -/
theorem run_result {windowSeconds : ℕ} {calls : List Call} {w : World}
    (hrun : Run windowSeconds calls w) {pre post : List Call} {c : Call}
    (hsplit : calls = pre ++ c :: post) :
    c.result = specResult windowSeconds c.limit c.now
        (windowStamps windowSeconds c.agentId c.now pre) ∧
      ∃ w₁, Run windowSeconds pre w₁ ∧ w₁.redis.clock = c.now := by
  induction hrun generalizing post with
  | start clock hclock => cases pre <;> cases hsplit
  | wait hrun dt hdt ih => exact ih hsplit
  | @call calls w w' hrun agentId limit result hend ih =>
    rcases List.eq_nil_or_concat post with rfl | ⟨post', last, rfl⟩
    · obtain ⟨rfl, hlast⟩ := List.append_inj' hsplit rfl
      obtain rfl := List.singleton_injective hlast
      exact ⟨Except.ok.inj (remembers_check (run_remembers hrun) hend).1, w, hrun, rfl⟩
    · rw [List.concat_eq_append, ← List.cons_append, ← List.append_assoc] at hsplit
      exact ih (List.append_inj' hsplit rfl).1

/-- With one limit no window ever holds more allowed calls. -/
theorem windowStamps_length_le {windowSeconds : ℕ} {calls : List Call} {w : World} {agentId : Str}
    {limit : ℤ} (hlimit : 1 ≤ limit) (hrun : Run windowSeconds calls w)
    (hsame : ∀ c ∈ calls, c.agentId = agentId → c.limit = limit) {now : ℚ}
    (hnow : w.redis.clock ≤ now) :
    ((windowStamps windowSeconds agentId now calls).length : ℤ) ≤ limit := by
  induction hrun with
  | start clock hclock => simp [windowStamps]; omega
  | wait hrun dt hdt ih =>
    exact ih hsame (le_trans (le_add_of_nonneg_right hdt) hnow)
  | @call calls w w' hrun a l result hend ih =>
    have hclock : w'.redis.clock = w.redis.clock := by
      rcases ends_check.mp hend with ⟨-, -, rfl⟩ | ⟨u, -, -, -, rfl⟩
      · rfl
      · exact zaddExpire_clock _ _ _ _ _
    rw [hclock] at hnow
    have hih := ih (fun c hc => hsame c (List.mem_append_left _ hc)) hnow
    by_cases hown : a = agentId ∧ result.allowed = true
    · obtain ⟨rfl, hallowed⟩ := hown
      obtain rfl : l = limit := hsame ⟨a, l, w.redis.clock, result⟩ (by simp) rfl
      have hmem := run_remembers hrun
      have hroom : ((windowStamps windowSeconds a w.redis.clock calls).length : ℤ) < l := by
        have hspec := Except.ok.inj (remembers_check hmem hend).1
        by_contra hfull
        rw [hspec, specResult, if_neg hfull] at hallowed
        cases hallowed
      -- what is in the later window was in the window of this call, or is the call itself
      have hsub : (windowStamps windowSeconds a now calls).length ≤
          (windowStamps windowSeconds a w.redis.clock calls).length := by
        rw [windowStamps, windowStamps, ← List.countP_eq_length_filter,
          ← List.countP_eq_length_filter]
        apply List.countP_mono_left
        intro t ht hin
        rw [decide_eq_true_eq] at hin ⊢
        exact ⟨by linarith [hin.1], (hmem.past a t ht).2⟩
      have hlast : (windowStamps windowSeconds a now [⟨a, l, w.redis.clock, result⟩]).length ≤ 1 :=
        List.length_filter_le _ _ |>.trans (by
          rw [allowedStamps, List.length_map]
          exact List.length_filter_le _ _)
      have happend : windowStamps windowSeconds a now (calls ++ [⟨a, l, w.redis.clock, result⟩]) =
          windowStamps windowSeconds a now calls ++
            windowStamps windowSeconds a now [⟨a, l, w.redis.clock, result⟩] := by
        rw [windowStamps, allowedStamps_append, List.filter_append]
        rfl
      rw [happend, List.length_append]
      omega
    · rw [windowStamps, allowedStamps_append, allowedStamps_skip hown, List.append_nil]
      exact hih

/-- `x` is what remains, and `y` what was computed for it. -/
theorem le_retryAfter_iff {x y : ℚ} (hx : 0 < x) :
    x ≤ (max 1 (truncate y) : ℤ) ↔ x ≤ 1 ∨ ∃ n : ℤ, x ≤ n ∧ n ≤ y := by
  rw [Int.cast_max, le_max_iff, Int.cast_one]
  apply or_congr_right
  by_cases hy : 0 ≤ y
  · rw [truncate, if_pos hy]
    constructor
    · exact fun h => ⟨⌊y⌋, h, Int.floor_le y⟩
    · rintro ⟨n, hn, hle⟩
      exact hn.trans (by exact_mod_cast Int.le_floor.mpr hle)
  · -- rounded below zero, it is no bound for anything that remains
    rw [truncate, if_neg hy]
    constructor
    · intro h
      have hceil : (⌈y⌉ : ℚ) ≤ 0 := by exact_mod_cast Int.ceil_le.mpr (by simpa using (not_le.mp hy).le)
      linarith
    · rintro ⟨n, hn, hle⟩
      linarith

/-- How long after `now` the oldest allowed call of its window stays there. -/
def oldestStays (windowSeconds : ℕ) (agentId : Str) (now : ℚ) (calls : List Call) : ℚ :=
  resetAt windowSeconds now (windowStamps windowSeconds agentId now calls) - now

/-- After a rejection the window holds what is left of it, as long as nobody else is allowed. -/
theorem windowStamps_later {windowSeconds : ℕ} {calls others : List Call} {rejected : Call}
    {later : ℚ} (hpast : ∀ t ∈ allowedStamps rejected.agentId calls, t ≤ rejected.now)
    (hothers : ∀ c ∈ others, c.agentId ≠ rejected.agentId)
    (hrejected : rejected.result.allowed = false) (hle : rejected.now ≤ later) :
    windowStamps windowSeconds rejected.agentId later (calls ++ rejected :: others) =
      (windowStamps windowSeconds rejected.agentId rejected.now calls).filter
        fun t => decide (later - windowSeconds < t) := by
  have hnone : allowedStamps rejected.agentId (rejected :: others) = [] := by
    rw [allowedStamps, List.map_eq_nil_iff, List.filter_eq_nil_iff]
    intro c hc hown
    rw [Bool.and_eq_true, decide_eq_true_eq] at hown
    rcases List.mem_cons.mp hc with rfl | hc
    · rw [hrejected] at hown
      cases hown.2
    · exact hothers c hc hown.1
  rw [windowStamps, allowedStamps_append, hnone, List.append_nil, windowStamps, List.filter_filter]
  apply List.filter_congr
  intro t ht
  have hpast := hpast t ht
  rw [← Bool.decide_and, decide_eq_decide]
  constructor
  · rintro ⟨hgt, -⟩
    exact ⟨hgt, by linarith, hpast⟩
  · rintro ⟨hgt, -, -⟩
    exact ⟨hgt, by linarith⟩

/-- A check of a full window is allowed once one of its calls has left it. -/
theorem allowed_iff_expired {windowSeconds : ℕ} {history : List Call} {w : World} {agentId : Str}
    {limit : ℤ} {stamps : List ℚ} {cut : ℚ} (hrun : Run windowSeconds history w)
    (hlater : windowStamps windowSeconds agentId w.redis.clock history =
      stamps.filter fun t => decide (cut < t)) (hexact : (stamps.length : ℤ) = limit) :
    (∀ result w', Ends Answers (check windowSeconds agentId limit) w (.ok result) w' →
      result.allowed = true) ↔ ∃ t ∈ stamps, t ≤ cut := by
  have hspec : ∀ result w', Ends Answers (check windowSeconds agentId limit) w (.ok result) w' →
      (result.allowed = true ↔ ∃ t ∈ stamps, t ≤ cut) := by
    intro result w' hend
    rw [Except.ok.inj (remembers_check (run_remembers hrun) hend).1, hlater, specResult, ← hexact]
    have hfewer :=
      List.length_filter_lt_length_iff_exists (l := stamps) (p := fun t => decide (cut < t))
    simp only [decide_eq_true_eq, not_lt] at hfewer
    rw [← hfewer]
    split_ifs with hroom
    · simpa using hroom
    · simpa using hroom
  obtain ⟨result, w', hend⟩ := check_ends windowSeconds agentId limit w
  constructor
  · exact fun hall => (hspec _ _ hend).mp (hall _ _ hend)
  · exact fun hold result w' hend => (hspec result w' hend).mpr hold

/-- After `Retry-After` seconds the call is allowed exactly if the oldest call of the window had
at most a second to stay, or no longer than a whole number of seconds that double precision
counts. -/
theorem retryAfter_suffices_iff {windowSeconds : ℕ} {calls others : List Call} {rejected : Call}
    {w : World} {r : ℤ} (hrun : Run windowSeconds (calls ++ rejected :: others) w)
    (hlimit : 1 ≤ rejected.limit)
    (hsame : ∀ c ∈ calls, c.agentId = rejected.agentId → c.limit = rejected.limit)
    (hothers : ∀ c ∈ others, c.agentId ≠ rejected.agentId)
    (hrejected : rejected.result.allowed = false) (hr : rejected.result.retryAfter = some r)
    (hclock : w.redis.clock = rejected.now + r) :
    (∀ result w', Ends Answers (check windowSeconds rejected.agentId rejected.limit) w
        (.ok result) w' → result.allowed = true) ↔
      oldestStays windowSeconds rejected.agentId rejected.now calls ≤ 1 ∨
        ∃ n : ℤ, oldestStays windowSeconds rejected.agentId rejected.now calls ≤ n ∧
          n ≤ roundedStay windowSeconds rejected.now
            (windowStamps windowSeconds rejected.agentId rejected.now calls) := by
  obtain ⟨hresult, w₁, hrun₁, hclock₁⟩ := run_result hrun rfl
  have hmem₁ := run_remembers hrun₁
  set stamps := windowStamps windowSeconds rejected.agentId rejected.now calls with hstamps
  have hfull : ¬ ((stamps.length : ℤ) < rejected.limit) := by
    intro hroom
    rw [hresult, specResult, if_pos hroom] at hrejected
    cases hrejected
  have hexact : (stamps.length : ℤ) = rejected.limit := by
    have hle := windowStamps_length_le hlimit hrun₁ hsame hclock₁.le
    rw [← hstamps] at hle
    omega
  obtain ⟨oldest, holdest⟩ : ∃ m, stamps.min? = some m := by
    cases hmin : stamps.min? with
    | none =>
      rw [List.min?_eq_none_iff] at hmin
      simp only [hmin, List.length_nil, Nat.cast_zero] at hexact
      omega
    | some m => exact ⟨m, rfl⟩
  obtain ⟨hin, hleast⟩ := List.min?_eq_some_iff.mp holdest
  have hwindow : rejected.now - windowSeconds < oldest ∧ oldest ≤ rejected.now := by
    simpa using (List.mem_filter.mp hin).2
  have hstays : oldestStays windowSeconds rejected.agentId rejected.now calls =
      oldest + windowSeconds - rejected.now := by
    rw [oldestStays, resetAt, ← hstamps, holdest]
    rfl
  have hretry : r = max 1 (truncate (roundedStay windowSeconds rejected.now stamps)) := by
    rw [hresult, specResult, if_neg hfull] at hr
    exact (Option.some.inj hr).symm
  have hone : (1 : ℚ) ≤ r := by
    rw [hretry]
    exact_mod_cast le_max_left _ _
  have hpast : ∀ t ∈ allowedStamps rejected.agentId calls, t ≤ rejected.now := by
    intro t ht
    rw [← hclock₁]
    exact (hmem₁.past _ t ht).2
  have hlater : windowStamps windowSeconds rejected.agentId w.redis.clock
      (calls ++ rejected :: others) =
        stamps.filter fun t => decide (rejected.now + r - windowSeconds < t) := by
    rw [hclock]
    exact windowStamps_later hpast hothers hrejected (by linarith)
  have hallowed := allowed_iff_expired hrun hlater hexact
  rw [hallowed, hstays, ← le_retryAfter_iff (by linarith [hwindow.1]), ← hretry]
  constructor
  · rintro ⟨t, ht, hle⟩
    linarith [hleast t ht]
  · intro hle
    exact ⟨oldest, hin, by linarith⟩

theorem check_clock {windowSeconds : ℕ} {agentId : Str} {limit : ℤ} {w w' : World}
    {r : Except Empty RateLimitResult}
    (hend : Ends Answers (check windowSeconds agentId limit) w r w') :
    w'.redis.clock = w.redis.clock := by
  rcases ends_check.mp hend with ⟨-, -, rfl⟩ | ⟨u, -, -, -, rfl⟩
  · rfl
  · exact zaddExpire_clock _ _ _ _ _

theorem specResult_half_second : specResult 60 1 (5 / 8) [1 / 2] = ⟨false, 1, 0, 60, some 59⟩ := by
  have hreset : truncate (nearest (resetAt 60 (5 / 8) [1 / 2])) = 60 := by decide +kernel
  have hstay : truncate (roundedStay 60 (5 / 8) [1 / 2]) = 59 := by decide +kernel
  rw [specResult, if_neg (by simp), hreset, hstay]
  rfl

/-- A call at 0.5 and another one at 0.625, which is told to come back in 59 seconds. -/
theorem run_half_second : ∃ first w, first.allowed = true ∧
    Run 60 ([⟨lit "agent01", 1, 1 / 2, first⟩] ++
      [⟨lit "agent01", 1, 5 / 8, ⟨false, 1, 0, 60, some 59⟩⟩]) w ∧
    w.redis.clock = 5 / 8 + (59 : ℤ) := by
  obtain ⟨first, w, hfirst⟩ := check_ends 60 (lit "agent01") 1 (.initial (1 / 2))
  have hallowed : first = specResult 60 1 (1 / 2) [] :=
    Except.ok.inj (remembers_check (remembers_initial 60 (by norm_num)) hfirst).1
  have hrun := Run.wait (Run.call (.start (1 / 2) (by norm_num)) _ _ first hfirst) (1 / 8)
    (by norm_num)
  have hclock : (w.tick (1 / 8)).redis.clock = 5 / 8 := by
    change w.redis.clock + 1 / 8 = 5 / 8
    rw [check_clock hfirst]
    change (1 / 2 : ℚ) + 1 / 8 = 5 / 8
    norm_num
  obtain ⟨second, w', hsecond⟩ := check_ends 60 (lit "agent01") 1 (w.tick (1 / 8))
  have hstamps : windowStamps 60 (lit "agent01") (5 / 8)
      ([] ++ [⟨lit "agent01", 1, (World.initial (1 / 2)).redis.clock, first⟩]) = [1 / 2] := by
    rw [hallowed]
    decide +kernel
  have hrejected : second = ⟨false, 1, 0, 60, some 59⟩ := by
    have hspec := Except.ok.inj (remembers_check (run_remembers hrun) hsecond).1
    rw [hclock, hstamps, specResult_half_second] at hspec
    exact hspec
  have hrun' := Run.wait (Run.call hrun _ _ second hsecond) 59 (by norm_num)
  rw [hclock, hrejected] at hrun'
  refine ⟨first, _, by rw [hallowed]; rfl, hrun', ?_⟩
  change w'.redis.clock + 59 = 5 / 8 + (59 : ℤ)
  rw [check_clock hsecond, hclock]
  norm_num

theorem stamps_half_second {first : RateLimitResult} (hfirst : first.allowed = true) (now : ℚ) :
    windowStamps 60 (lit "agent01") now [⟨lit "agent01", 1, 1 / 2, first⟩] =
      [1 / 2].filter fun t => decide (now - (60 : ℕ) < t ∧ t ≤ now) := by
  simp [windowStamps, allowedStamps, hfirst]

theorem retryAfter_suffices_iff_half_second : ∃ first w, first.allowed = true ∧
    ((∀ result w', Ends Answers (check 60 (lit "agent01") 1) w (.ok result) w' →
        result.allowed = true) ↔
      oldestStays 60 (lit "agent01") (5 / 8) [⟨lit "agent01", 1, 1 / 2, first⟩] ≤ 1 ∨
        ∃ n : ℤ, oldestStays 60 (lit "agent01") (5 / 8) [⟨lit "agent01", 1, 1 / 2, first⟩] ≤ n ∧
          n ≤ roundedStay 60 (5 / 8)
            (windowStamps 60 (lit "agent01") (5 / 8) [⟨lit "agent01", 1, 1 / 2, first⟩])) := by
  obtain ⟨first, w, hfirst, hrun, hclock⟩ := run_half_second
  refine ⟨first, w, hfirst, retryAfter_suffices_iff hrun le_rfl ?_ ?_ rfl rfl hclock⟩
  · intro c hc _
    rw [List.mem_singleton.mp hc]
  · exact fun c hc => absurd hc List.not_mem_nil

/-- After 59 seconds the call at 0.5 is still in the window. -/
theorem retryAfter_too_early : ∃ first w, first.allowed = true ∧
    Run 60 ([⟨lit "agent01", 1, 1 / 2, first⟩] ++
      [⟨lit "agent01", 1, 5 / 8, ⟨false, 1, 0, 60, some 59⟩⟩]) w ∧
    w.redis.clock = 5 / 8 + (59 : ℤ) ∧
    ∃ result w', Ends Answers (check 60 (lit "agent01") 1) w (.ok result) w' ∧
      result.allowed = false := by
  obtain ⟨first, w, hfirst, hrun, hclock⟩ := run_half_second
  obtain ⟨result, w', hend⟩ := check_ends 60 (lit "agent01") 1 w
  refine ⟨first, w, hfirst, hrun, hclock, result, w', hend, ?_⟩
  have hspec := Except.ok.inj (remembers_check (run_remembers hrun) hend).1
  have hstamps : windowStamps 60 (lit "agent01") w.redis.clock ([⟨lit "agent01", 1, 1 / 2, first⟩] ++
      [⟨lit "agent01", 1, 5 / 8, ⟨false, 1, 0, 60, some 59⟩⟩]) = [1 / 2] := by
    have hskip : allowedStamps (lit "agent01")
        [⟨lit "agent01", 1, 5 / 8, ⟨false, 1, 0, 60, some 59⟩⟩] = [] := by
      rw [allowedStamps_skip (by simp)]
    rw [windowStamps, allowedStamps_append, hskip, List.append_nil]
    change windowStamps 60 (lit "agent01") w.redis.clock [⟨lit "agent01", 1, 1 / 2, first⟩] = _
    rw [stamps_half_second hfirst, hclock]
    norm_num
  rw [hspec, hstamps]
  rfl

end SlidingWindow
