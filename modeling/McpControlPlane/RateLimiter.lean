import McpControlPlane.Binary64
import McpControlPlane.Interleaving

/-! # The sliding-window rate limiter

`check` purges, counts, compares and inserts, one Redis command after the other. The sorted
set of an agent loses members to the purges of other checks and to the expiry of its key;
between a count and the insertion that follows it other checks may insert. -/
namespace RateLimiter

open PyText Interleaving Binary64

structure RateLimitResult where
  allowed : Bool
  limit : ℤ
  remaining : ℤ
  reset : ℤ
  retryAfter : Option ℤ := none

/-- `f"{now}:{uuid.uuid4().hex}"`. -/
structure Member where
  now : ℚ
  uuid : ℕ
  deriving DecidableEq

inductive RateOp where
  | time
  | zremrangebyscore (key : Str) (min max : ℚ)
  | zcard (key : Str)
  | zrangeFirst (key : Str)
  | uuid4
  | zaddExpire (key : Str) (member : Member) (score : ℚ) (seconds : ℕ)

/-- A Redis command is answered, or with `none` where the client raises a `RedisError`. -/
abbrev rates : Signature where
  Op := RateOp
  Res
    | .time => ℚ
    | .zremrangebyscore _ _ _ => Option Unit
    | .zcard _ => Option ℕ
    | .zrangeFirst _ => Option (Option ℚ)
    | .uuid4 => ℕ
    | .zaddExpire _ _ _ _ => Option Unit
  Exn := Empty
  fails _ := none

/-- `int(x)`. -/
def truncate (x : ℚ) : ℤ := if 0 ≤ x then ⌊x⌋ else ⌈x⌉

def rateKey (agentId : Str) : Str := lit "ratelimit:" ++ agentId

/-- Redis being unavailable lets the request through. -/
def failOpen (windowSeconds : ℕ) (limit : ℤ) (now : ℚ) : RateLimitResult :=
  ⟨true, limit, limit, truncate (nearest (now + windowSeconds)), none⟩

/-- Sums are rounded to double precision. `now - windowSeconds` is left exact: it is a double for
every clock from `windowSeconds` on, and below zero there is no score to purge. -/
def check (windowSeconds : ℕ) (agentId : Str) (limit : ℤ) : Prog rates RateLimitResult := do
  let key := rateKey agentId
  let now : ℚ ← perform (S := rates) .time
  let windowStart := now - windowSeconds
  let purged : Option Unit ← perform (S := rates) (.zremrangebyscore key 0 windowStart)
  match purged with
  | none => return failOpen windowSeconds limit now
  | some _ =>
    let card : Option ℕ ← perform (S := rates) (.zcard key)
    match card with
    | none => return failOpen windowSeconds limit now
    | some count =>
      if limit ≤ count then
        let oldest : Option (Option ℚ) ← perform (S := rates) (.zrangeFirst key)
        match oldest with
        | none => return failOpen windowSeconds limit now
        | some score =>
          let resetAt := nearest (score.getD now + windowSeconds)
          let retryAfter := max 1 (truncate (nearest (resetAt - now)))
          return ⟨false, limit, 0, truncate resetAt, some retryAfter⟩
      else
        let uuid : ℕ ← perform (S := rates) .uuid4
        let added : Option Unit ← perform (S := rates) (.zaddExpire key ⟨now, uuid⟩ now windowSeconds)
        match added with
        | none => return failOpen windowSeconds limit now
        | some _ =>
          let reset := truncate (nearest (now + windowSeconds))
          return ⟨true, limit, max 0 (limit - count - 1), reset, none⟩

/-! ## Redis -/

structure RedisState where
  clock : ℚ
  zset : Str → List (Member × ℚ)
  deadline : Str → Option ℚ

/-- No key is set. -/
def RedisState.initial (clock : ℚ) : RedisState := ⟨clock, fun _ => [], fun _ => none⟩

def RedisState.setZset (s : RedisState) (key : Str) (z : List (Member × ℚ)) : RedisState :=
  { s with zset := Function.update s.zset key z }

/-- ZADD of one member. -/
def zadd (z : List (Member × ℚ)) (member : Member) (score : ℚ) : List (Member × ℚ) :=
  z.filter (fun e => e.1 ≠ member) ++ [(member, score)]

/-- EXPIRE with zero seconds deletes the key. -/
def RedisState.zaddExpire (s : RedisState) (key : Str) (member : Member) (score : ℚ)
    (seconds : ℕ) : RedisState :=
  if seconds = 0 then { s.setZset key [] with deadline := Function.update s.deadline key none }
  else { s.setZset key (zadd (s.zset key) member score) with
    deadline := Function.update s.deadline key (some (s.clock + seconds)) }

/-- Time passes, and a key whose time is up vanishes. -/
def RedisState.tick (s : RedisState) (dt : ℚ) : RedisState :=
  let clock := s.clock + dt
  { clock
    zset := fun key => if ∃ d ∈ s.deadline key, d ≤ clock then [] else s.zset key
    deadline := fun key => if ∃ d ∈ s.deadline key, d ≤ clock then none else s.deadline key }

inductive RateOracle where
  | plain
  | uuid (u : ℕ)
  | error
  deriving DecidableEq

/-- The least score. -/
def first (z : List (Member × ℚ)) : Option ℚ := (z.map Prod.snd).min?

def rateAnswer (s : RedisState) : (o : RateOp) → RateOracle → Option (rates.Res o × RedisState)
  | .time, _ => some (s.clock, s)
  | .uuid4, .uuid u => some (u, s)
  | .uuid4, _ => none
  | .zremrangebyscore _ _ _, .error | .zcard _, .error | .zrangeFirst _, .error
  | .zaddExpire _ _ _ _, .error => some (none, s)
  | .zremrangebyscore key min max, _ =>
    some (some (), s.setZset key ((s.zset key).filter fun e => ¬ (min ≤ e.2 ∧ e.2 ≤ max)))
  | .zcard key, _ => some (some (s.zset key).length, s)
  | .zrangeFirst key, _ => some (some (first (s.zset key)), s)
  | .zaddExpire key member score seconds, _ => some (some (), s.zaddExpire key member score seconds)

/-- Every agent checks against its own limit, on one clock. -/
abbrev rateSystem (windowSeconds : ℕ) (limitOf : Str → ℤ) : System rates where
  Req := Str
  Resp := RateLimitResult
  State := RedisState
  Oracle := RateOracle
  Drift := ℚ
  handler agentId := check windowSeconds agentId (limitOf agentId)
  start s := ∃ clock, s = .initial clock
  answer s _ := rateAnswer s
  failure _ _ _ _ := none
  drift s dt := if 0 ≤ dt then some (s.tick dt) else none

variable {windowSeconds : ℕ} {limitOf : Str → ℤ}

/-! ## What one check does -/

def purgedAt (key : Str) (windowSeconds : ℕ) (now : ℚ) : Trace rates :=
  [⟨.zremrangebyscore key 0 (now - windowSeconds), some (some ())⟩, ⟨.time, some now⟩]

def countedAt (key : Str) (windowSeconds : ℕ) (now : ℚ) (count : ℕ) : Trace rates :=
  ⟨.zcard key, some (some count)⟩ :: purgedAt key windowSeconds now

def namedAt (key : Str) (windowSeconds : ℕ) (now : ℚ) (count uuid : ℕ) : Trace rates :=
  ⟨.uuid4, some uuid⟩ :: countedAt key windowSeconds now count

/-- A member is added under the time that was read, after a count below the limit. -/
def CheckOk (windowSeconds : ℕ) (limitOf : Str → ℤ) (agentId : Str) (tr : Trace rates) :
    RateOp → Prop
  | .zcard key => key = rateKey agentId ∧ ∃ now, tr = purgedAt key windowSeconds now
  | .zaddExpire key member score seconds => key = rateKey agentId ∧ seconds = windowSeconds ∧
      ∃ count uuid, member = ⟨score, uuid⟩ ∧ tr = namedAt key windowSeconds score count uuid ∧
        count < limitOf agentId
  | _ => True

/-- A command that was answered with an error. -/
def errorEntry : Entry rates → Prop
  | ⟨.zremrangebyscore _ _ _, some none⟩ | ⟨.zcard _, some none⟩
  | ⟨.zrangeFirst _, some none⟩ | ⟨.zaddExpire _ _ _ _, some none⟩ => True
  | _ => False

/-- The trace of an allowed call. -/
def addedAt (key : Str) (windowSeconds : ℕ) (now : ℚ) (count uuid : ℕ) : Trace rates :=
  ⟨.zaddExpire key ⟨now, uuid⟩ now windowSeconds, some (some ())⟩ ::
    namedAt key windowSeconds now count uuid

def CheckPost (windowSeconds : ℕ) (agentId : Str) :
    Except Empty RateLimitResult → Trace rates → Prop
  | .ok result, tr => result.allowed = true → (∃ e ∈ tr, errorEntry e) ∨
      ∃ now count uuid, tr = addedAt (rateKey agentId) windowSeconds now count uuid
  | .error _, _ => True

theorem check_sat (agentId : Str) :
    Sat (CheckOk windowSeconds limitOf agentId) (CheckPost windowSeconds agentId)
      (check windowSeconds agentId (limitOf agentId)) [] := by
  refine sat_perform.mpr ⟨trivial, fun now => ?_, nofun⟩
  refine sat_perform.mpr ⟨trivial, fun purged => ?_, nofun⟩
  cases purged with
  | none => exact fun _ => Or.inl ⟨_, List.mem_cons_self, trivial⟩
  | some _ =>
    refine sat_perform.mpr ⟨⟨rfl, now, rfl⟩, fun card => ?_, nofun⟩
    cases card with
    | none => exact fun _ => Or.inl ⟨_, List.mem_cons_self, trivial⟩
    | some count =>
      by_cases hlimit : limitOf agentId ≤ count
      · simp only [hlimit, if_true]
        refine sat_perform.mpr ⟨trivial, fun oldest => ?_, nofun⟩
        cases oldest with
        | none => exact fun _ => Or.inl ⟨_, List.mem_cons_self, trivial⟩
        | some score => exact nofun
      · simp only [hlimit, if_false]
        refine sat_perform.mpr ⟨trivial, fun uuid => ?_, nofun⟩
        refine sat_perform.mpr ⟨⟨rfl, rfl, count, uuid, rfl, rfl, by omega⟩, fun added => ?_, nofun⟩
        cases added with
        | none => exact fun _ => Or.inl ⟨_, List.mem_cons_self, trivial⟩
        | some _ => exact fun _ => Or.inr ⟨now, count, uuid, rfl⟩

/-! ## The quota -/

abbrev RatePool (windowSeconds : ℕ) (limitOf : Str → ℤ) := Pool (rateSystem windowSeconds limitOf)

abbrev RateEvent (windowSeconds : ℕ) (limitOf : Str → ℤ) := Event (rateSystem windowSeconds limitOf)

/-- A call that was allowed, under its timestamp. -/
def Allowed (p : RatePool windowSeconds limitOf) (agentId : Str) (t : ℕ) (now : ℚ) : Prop :=
  ∃ result, p.thread t = some (agentId, .ret result) ∧ result.allowed = true ∧
    ⟨.time, some now⟩ ∈ own t p.hist

/-- In every window at most `limit` calls of an agent were allowed. -/
def QuotaHolds (p : RatePool windowSeconds limitOf) : Prop :=
  ∀ (agentId : Str) (time : ℚ) (calls : Finset ℕ),
    (∀ t ∈ calls, ∃ now, Allowed p agentId t now ∧ time - windowSeconds < now ∧ now ≤ time) →
    (calls.card : ℤ) ≤ limitOf agentId

/-- The score of an insertion for the agent. -/
def insertion (agentId : Str) (e : RateEvent windowSeconds limitOf) : Option ℚ :=
  match e.entry.op with
  | .zaddExpire _ _ score _ => if e.req = agentId then some score else none
  | _ => none

/-- An insertion for the agent under a timestamp after `start`. -/
def insertsAfter (agentId : Str) (start : ℚ) (e : RateEvent windowSeconds limitOf) : Bool :=
  (insertion agentId e).any fun score => start < score

/-- How many insertions for the agent there are under timestamps after `start`. -/
def admitted (agentId : Str) (start : ℚ) (h : List (RateEvent windowSeconds limitOf)) : ℕ :=
  (h.filter (insertsAfter agentId start)).length

def countOf : Entry rates → Option ℕ
  | ⟨.zcard _, some (some n)⟩ => some n
  | _ => none

def timeOf : Entry rates → Option ℚ
  | ⟨.time, some now⟩ => some now
  | _ => none

/-- Whether `e` is the count of the check `t`. -/
def isCount (t : ℕ) (e : RateEvent windowSeconds limitOf) : Bool :=
  decide (e.tid = t) && (countOf e.entry).isSome

/-- What happened since the check `t` counted. -/
def sinceCount (t : ℕ) (h : List (RateEvent windowSeconds limitOf)) :
    List (RateEvent windowSeconds limitOf) := h.takeWhile fun e => !isCount t e

/-- The step meets no Redis error; a count covers every call of the agent that was admitted under
a timestamp in the window of the check, so that none was purged by a later check or lost by
expiry; and an insertion finds the limit not used up by the count of its check and the calls
admitted since. -/
def countsHold (p : RatePool windowSeconds limitOf) (m : Move (rateSystem windowSeconds limitOf)) :
    Bool :=
  match m with
  | .answer t c => decide (c ≠ .error) &&
      match p.thread t with
      | some (agentId, .call (.zcard key) _) =>
        ((own t p.hist).findSome? timeOf).all fun now =>
          decide (admitted agentId (now - windowSeconds) p.hist ≤ (p.shared.zset key).length)
      | some (agentId, .call (.zaddExpire _ _ score _) _) =>
        ((own t p.hist).findSome? countOf).all fun count : ℕ =>
          decide ((count : ℤ) + admitted agentId (score - windowSeconds) (sinceCount t p.hist) <
            limitOf agentId)
      | _ => true
  | _ => true

def CountsHold (p : RatePool windowSeconds limitOf)
    (m : Move (rateSystem windowSeconds limitOf)) : Prop := countsHold p m = true

instance (p : RatePool windowSeconds limitOf) (m : Move (rateSystem windowSeconds limitOf)) :
    Decidable (CountsHold p m) := inferInstanceAs (Decidable (_ = true))

/-! ### What the history says of counts and insertions -/

abbrev RatesObey (p : RatePool windowSeconds limitOf) : Prop :=
  Obeys (Y := rateSystem windowSeconds limitOf) (CheckOk windowSeconds limitOf)
    (CheckPost windowSeconds) p

theorem reachable_ratesObey {C : RatePool windowSeconds limitOf → Move _ → Prop}
    {p : RatePool windowSeconds limitOf} (hp : Reachable C p) : RatesObey p :=
  reachable_obeys (fun agentId => check_sat agentId) hp

/-- A count covers what was admitted in its window, and an insertion finds room. -/
def SoundEvent (h : List (RateEvent windowSeconds limitOf)) (e : RateEvent windowSeconds limitOf) :
    Prop :=
  ¬ errorEntry e.entry ∧
  (∀ count now, countOf e.entry = some count → (own e.tid h).findSome? timeOf = some now →
    admitted e.req (now - windowSeconds) h ≤ count) ∧
  ∀ score, insertion e.req e = some score →
    (admitted e.req (score - windowSeconds) h : ℤ) < limitOf e.req

theorem admitted_append (agentId : Str) (start : ℚ)
    (h₁ h₂ : List (RateEvent windowSeconds limitOf)) :
    admitted agentId start (h₁ ++ h₂) = admitted agentId start h₁ + admitted agentId start h₂ := by
  simp [admitted]

/-- The history at the count of a check that has read its uuid. -/
theorem split_at_count {p : RatePool windowSeconds limitOf} {t : ℕ} {key : Str} {now : ℚ}
    {count uuid : ℕ} (hown : own t p.hist = namedAt key windowSeconds now count uuid) :
    ∃ e h, p.hist = sinceCount t p.hist ++ e :: h ∧ e.tid = t ∧ countOf e.entry = some count ∧
      (own t h).findSome? timeOf = some now := by
  have hmem : (⟨.zcard key, some (some count)⟩ : Entry rates) ∈ own t p.hist := by
    rw [hown]
    simp [namedAt, countedAt]
  obtain ⟨v, hv, htid, hentry⟩ := mem_own.mp hmem
  have hcount : isCount t v = true := by
    rw [isCount, htid, hentry]
    simp [countOf]
  have hsplit := List.takeWhile_append_dropWhile (p := fun e => !isCount t e) (l := p.hist)
  cases hdrop : p.hist.dropWhile (fun e => !isCount t e) with
  | nil =>
    have hall := List.dropWhile_eq_nil_iff.mp hdrop v hv
    rw [hcount] at hall
    cases hall
  | cons e h =>
    have hhead : isCount t e = true := by
      have := List.head?_dropWhile_not (fun e => !isCount t e) p.hist
      rw [hdrop] at this
      simpa using this
    rw [hdrop] at hsplit
    simp only [isCount, Bool.and_eq_true, decide_eq_true_eq, Option.isSome_iff_exists] at hhead
    obtain ⟨rfl, n, hn⟩ := hhead
    -- the own trace has one count, with the purge and the time before it
    have htrace : own e.tid (sinceCount e.tid p.hist) ++ e.entry :: own e.tid h =
        namedAt key windowSeconds now count uuid := by
      have hcons : own e.tid (e :: h) = e.entry :: own e.tid h :=
        own_cons_self e.tid e.req e.entry h
      have heq := congrArg (own e.tid) hsplit
      rw [own_append, hcons, hown] at heq
      exact heq
    refine ⟨e, h, hsplit.symm, rfl, ?_⟩
    generalize own e.tid (sinceCount e.tid p.hist) = before at htrace
    generalize own e.tid h = rest at htrace
    rcases before with _ | ⟨e₁, _ | ⟨e₂, before⟩⟩
    · simp only [namedAt, List.nil_append, List.cons.injEq] at htrace
      rw [htrace.1] at hn
      cases hn
    · simp only [namedAt, countedAt, List.cons_append, List.nil_append, List.cons.injEq] at htrace
      obtain ⟨-, hentry', hrest⟩ := htrace
      rw [hentry', hrest]
      exact ⟨rfl, rfl⟩
    · exfalso
      simp only [namedAt, countedAt, purgedAt, List.cons_append, List.cons.injEq] at htrace
      have hlate : e.entry ∈ [(⟨.zremrangebyscore key 0 (now - windowSeconds), some (some ())⟩ :
          Entry rates), ⟨.time, some now⟩] := by
        rw [← htrace.2.2]
        simp
      rcases List.mem_cons.mp hlate with heq | heq
      · rw [heq] at hn
        cases hn
      · rw [List.mem_singleton.mp heq] at hn
        cases hn

theorem admitted_since {p : RatePool windowSeconds limitOf} (hlog : Log SoundEvent p.hist) {t : ℕ}
    {agentId key : Str} {now : ℚ} {count uuid : ℕ} {q : Prog rates RateLimitResult}
    (hp : RatesObey p) (ht : p.thread t = some (agentId, q))
    (hown : own t p.hist = namedAt key windowSeconds now count uuid) :
    admitted agentId (now - windowSeconds) p.hist ≤
      count + admitted agentId (now - windowSeconds) (sinceCount t p.hist) := by
  obtain ⟨e, h, hsplit, htid, hcount, htime⟩ := split_at_count hown
  have hreq : e.req = agentId := by
    obtain ⟨q', hq'⟩ := hp.owner e (by rw [hsplit]; simp)
    rw [htid, ht] at hq'
    exact (Prod.mk.inj (Option.some.inj hq')).1.symm
  have hsound : SoundEvent h e := by
    rw [hsplit] at hlog
    exact hlog.at
  have hle := hsound.2.1 count now hcount (by rw [htid]; exact htime)
  have hskip : insertsAfter agentId (now - windowSeconds) e = false := by
    obtain ⟨tid, req, op, res⟩ := e
    cases op with
    | zcard key => rfl
    | _ => cases res <;> cases hcount
  calc admitted agentId (now - windowSeconds) p.hist
      = admitted agentId (now - windowSeconds) (sinceCount t p.hist) +
          admitted agentId (now - windowSeconds) (e :: h) := by
        rw [← admitted_append, ← hsplit]
    _ = admitted agentId (now - windowSeconds) (sinceCount t p.hist) +
          admitted agentId (now - windowSeconds) h := by
        simp only [admitted, List.filter_cons, hskip, Bool.false_eq_true, if_false]
    _ ≤ count + admitted agentId (now - windowSeconds) (sinceCount t p.hist) := by
        rw [hreq] at hle
        omega

/-- One step that meets the condition adds a sound event. -/
theorem soundLog_step {p p' : RatePool windowSeconds limitOf}
    {m : Move (rateSystem windowSeconds limitOf)} (hp : RatesObey p) (hlog : Log SoundEvent p.hist)
    (hc : CountsHold p m) (hm : Step p m p') : Log SoundEvent p'.hist := by
  cases hm with
  | arrive t r ht => exact hlog
  | drift d s hs => exact hlog
  | fail t c r o k e s ht he hs => cases hs
  | answer t c agentId o k x s ht hs =>
    simp only [CountsHold, countsHold, ht, Bool.and_eq_true, decide_eq_true_eq] at hc
    obtain ⟨hplain, hc⟩ := hc
    refine ⟨⟨?_, ?_, ?_⟩, hlog⟩
    · intro herr
      cases o <;> cases c <;> cases hs <;> first | exact herr | exact hplain rfl
    · intro count now hcount htime
      cases o with
      | zcard key =>
        have hx : x = some (p.shared.zset key).length := by
          cases c <;> cases hs <;> first | rfl | exact absurd rfl hplain
        subst hx
        obtain rfl := Option.some.inj hcount
        simp only [htime, Option.all_some, decide_eq_true_eq] at hc
        exact hc
      | _ => cases hcount
    · intro score hins
      cases o with
      | zaddExpire key member score' seconds =>
        obtain rfl : score' = score := by simpa [insertion] using hins
        obtain ⟨-, -, count, uuid, -, hown, -⟩ := (hp.sat t agentId _ ht).1
        have hfound : (own t p.hist).findSome? countOf = some count := by
          rw [hown]
          rfl
        simp only [hfound, Option.all_some, decide_eq_true_eq] at hc
        have hle := admitted_since hlog hp ht hown
        change (admitted agentId (score' - windowSeconds) p.hist : ℤ) < limitOf agentId
        omega
      | _ => cases hins

theorem reachable_soundLog {p : RatePool windowSeconds limitOf} (hp : Reachable CountsHold p) :
    Log SoundEvent p.hist := by
  induction hp with
  | start s hs => trivial
  | step hp hc hm ih => exact soundLog_step (reachable_ratesObey hp) ih hc hm

/-- The insertions for the agent in the window that ends at `time`. -/
def windowEvents (agentId : Str) (time : ℚ) (h : List (RateEvent windowSeconds limitOf)) :
    List (RateEvent windowSeconds limitOf) :=
  h.filter fun e => (insertion agentId e).any fun score =>
    decide (time - windowSeconds < score ∧ score ≤ time)

/-- The last insertion of a window had all the others of it before itself. -/
theorem windowEvents_length (agentId : Str) (hlimit : 1 ≤ limitOf agentId) (time : ℚ)
    {h : List (RateEvent windowSeconds limitOf)} (hlog : Log SoundEvent h) :
    ((windowEvents agentId time h).length : ℤ) ≤ limitOf agentId := by
  induction h with
  | nil =>
    simp only [windowEvents, List.filter_nil, List.length_nil]
    omega
  | cons e h ih =>
    cases hins : insertion agentId e with
    | none =>
      simpa only [windowEvents, List.filter_cons, hins, Option.any_none, Bool.false_eq_true,
        if_false] using ih hlog.2
    | some score =>
      by_cases hin : time - windowSeconds < score ∧ score ≤ time
      · have hreq : e.req = agentId := by
          unfold insertion at hins
          split at hins
          · split_ifs at hins with heq
            exact heq
          · cases hins
        have hroom := hlog.1.2.2 score (by rw [hreq]; exact hins)
        have hsub : (windowEvents agentId time h).length ≤
            admitted agentId (score - windowSeconds) h := by
          apply List.Sublist.length_le
          apply List.monotone_filter_right
          intro v hv
          cases hv' : insertion agentId v with
          | none =>
            rw [hv'] at hv
            cases hv
          | some s =>
            simp only [hv', Option.any_some, decide_eq_true_eq] at hv
            simp only [insertsAfter, hv', Option.any_some, decide_eq_true_eq]
            linarith [hv.1, hin.2]
        rw [hreq] at hroom
        have hlen : (windowEvents agentId time (e :: h)).length =
            (windowEvents agentId time h).length + 1 := by
          simp [windowEvents, hins, hin]
        omega
      · simpa only [windowEvents, List.filter_cons, hins, Option.any_some, hin, decide_false,
          Bool.false_eq_true, if_false] using ih hlog.2

/-- An allowed call has an insertion under its timestamp. -/
theorem insertion_of_allowed {p : RatePool windowSeconds limitOf} (hp : RatesObey p)
    (hlog : Log SoundEvent p.hist) {agentId : Str} {t : ℕ} {now : ℚ} (h : Allowed p agentId t now) :
    ∃ e ∈ p.hist, e.tid = t ∧ insertion agentId e = some now := by
  obtain ⟨result, ht, hallowed, htime⟩ := h
  rcases hp.sat t agentId _ ht hallowed with ⟨e, he, herr⟩ | ⟨now', count, uuid, hown⟩
  · obtain ⟨v, hv, -, rfl⟩ := mem_own.mp he
    obtain ⟨h₁, h₂, -, hsound⟩ := hlog.mem hv
    exact absurd herr hsound.1
  · have hnow : now = now' := by
      rw [hown] at htime
      simpa [addedAt, namedAt, countedAt, purgedAt] using htime
    have hadd : (⟨.zaddExpire (rateKey agentId) ⟨now', uuid⟩ now' windowSeconds, some (some ())⟩ :
        Entry rates) ∈ own t p.hist := by
      rw [hown]
      simp [addedAt]
    obtain ⟨v, hv, htid, hentry⟩ := mem_own.mp hadd
    obtain ⟨q, hq⟩ := hp.owner v hv
    rw [htid, ht] at hq
    have hreq : v.req = agentId := (Prod.mk.inj (Option.some.inj hq)).1.symm
    refine ⟨v, hv, htid, ?_⟩
    rw [insertion, hentry, hnow]
    exact if_pos hreq

/-- As long as every count covers the calls that were admitted in its window and every insertion
finds room, the quota holds. -/
theorem quota_of_countsHold (hlimit : ∀ agentId, 1 ≤ limitOf agentId)
    {p : RatePool windowSeconds limitOf} (hp : Reachable CountsHold p) : QuotaHolds p := by
  intro agentId time calls hcalls
  have hlog := reachable_soundLog hp
  have hsub : calls ⊆ ((windowEvents agentId time p.hist).map Event.tid).toFinset := by
    intro t ht
    obtain ⟨now, hallowed, hwin⟩ := hcalls t ht
    obtain ⟨e, he, htid, hins⟩ := insertion_of_allowed (reachable_ratesObey hp) hlog hallowed
    rw [List.mem_toFinset, List.mem_map]
    refine ⟨e, List.mem_filter.mpr ⟨he, ?_⟩, htid⟩
    simp only [hins, Option.any_some, decide_eq_true_eq]
    exact hwin
  have hcard : calls.card ≤ (windowEvents agentId time p.hist).length := by
    calc calls.card ≤ ((windowEvents agentId time p.hist).map Event.tid).toFinset.card :=
          Finset.card_le_card hsub
      _ ≤ ((windowEvents agentId time p.hist).map Event.tid).length := List.toFinset_card_le _
      _ = (windowEvents agentId time p.hist).length := List.length_map _
  have hwindow := windowEvents_length agentId (hlimit agentId) time hlog
  omega

/-- The moves of one check up to its count. -/
def countMoves (t : ℕ) (agentId : String) : List (Move (rateSystem 60 fun _ => 1)) :=
  [.arrive t (lit agentId), .answer t .plain, .answer t .plain, .answer t .plain]

def insertMoves (t : ℕ) : List (Move (rateSystem 60 fun _ => 1)) :=
  [.answer t (.uuid t), .answer t .plain]

/-- Whether the call was allowed under the timestamp. -/
def allowedAt (p : RatePool windowSeconds limitOf) (agentId : Str) (now : ℚ) (t : ℕ) : Bool :=
  match p.thread t with
  | some (a, .ret result) => decide (a = agentId) && result.allowed &&
      decide ((own t p.hist).findSome? timeOf = some now)
  | _ => false

theorem allowed_of_allowedAt {p : RatePool windowSeconds limitOf} {agentId : Str} {now : ℚ} {t : ℕ}
    (h : allowedAt p agentId now t = true) : Allowed p agentId t now := by
  unfold allowedAt at h
  split at h
  · rename_i a result ht
    simp only [Bool.and_eq_true, decide_eq_true_eq] at h
    obtain ⟨⟨rfl, hallowed⟩, htime⟩ := h
    obtain ⟨e, he, hnow⟩ := List.exists_of_findSome?_eq_some htime
    refine ⟨result, ht, hallowed, ?_⟩
    obtain ⟨op, res⟩ := e
    cases op with
    | time =>
      cases res with
      | none => cases hnow
      | some x =>
        obtain rfl := Option.some.inj hnow
        exact he
    | _ => cases hnow
  · cases h

/-- Two checks by one agent, a minute apart. -/
theorem quota_two_checks : ∃ p : RatePool 60 (fun _ => 1),
    (allowedAt p (lit "agent01") 100 0 && allowedAt p (lit "agent01") 160 1) = true ∧
      QuotaHolds p := by
  have hrun : (runMoves CountsHold (Pool.empty (.initial 100)) (countMoves 0 "agent01" ++
      insertMoves 0 ++ [.drift 60] ++ countMoves 1 "agent01" ++ insertMoves 1)).map
        (fun p => allowedAt p (lit "agent01") 100 0 && allowedAt p (lit "agent01") 160 1) =
      some true := by decide +kernel
  obtain ⟨p, hp, hallowed⟩ := Option.map_eq_some_iff.mp hrun
  exact ⟨p, hallowed, quota_of_countsHold (fun _ => le_rfl)
    (reachable_of_runMoves (.start _ ⟨100, rfl⟩) hp)⟩

/-- No command is answered with an error. -/
def noError : Move (rateSystem windowSeconds limitOf) → Bool
  | .answer _ c => decide (c ≠ .error)
  | _ => true

/-- Two checks that both count before either inserts, against a limit of one. -/
theorem quota_exceeded_by_two_checks : ∃ p : RatePool 60 (fun _ => 1),
    Reachable (fun _ m => noError m = true) p ∧ ¬ QuotaHolds p := by
  have hrun : (runMoves (fun _ m => noError m = true) (Pool.empty (.initial 100))
      (countMoves 0 "agent01" ++ countMoves 1 "agent01" ++ insertMoves 0 ++ insertMoves 1)).map
        (fun p => [0, 1].all (allowedAt p (lit "agent01") 100)) = some true := by decide +kernel
  obtain ⟨p, hp, hallowed⟩ := Option.map_eq_some_iff.mp hrun
  refine ⟨p, reachable_of_runMoves (.start _ ⟨100, rfl⟩) hp, fun hquota => ?_⟩
  have hcard := hquota (lit "agent01") 100 {0, 1} fun t ht =>
    ⟨100, allowed_of_allowedAt (List.all_eq_true.mp hallowed t (by simpa using ht)), by norm_num, le_rfl⟩
  revert hcard
  decide

end RateLimiter
