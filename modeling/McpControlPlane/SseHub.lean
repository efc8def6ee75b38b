import McpControlPlane.JsonDict

/-! # The SSE hub

One dictionary maps an agent to the queues of its open subscriptions. An entry of the dictionary
is made by the first subscription of an agent and removed by the last one, and a publication puts
its event into every queue of the agent. -/
namespace SseHub

open PyText JsonDict

variable {ε : Type}

/-- What a missing key and a `remove` of a missing item raise. -/
inductive HubError where
  | key
  | value

/-- An `asyncio.Queue`. -/
structure Queue (ε : Type) where
  taken : List ε
  waiting : List ε

/-- All that was put into the queue. -/
def Queue.events (q : Queue ε) : List ε := q.taken ++ q.waiting

/-- The dictionary, and the queues that were made so far, by number. -/
structure Hub (ε : Type) where
  subscribers : List (Str × List ℕ)
  queue : ℕ → Queue ε
  made : ℕ

def Hub.empty : Hub ε := ⟨[], fun _ => ⟨[], []⟩, 0⟩

/-- `_subscribers.get(agent_id, [])`. -/
def Hub.queuesOf (s : Hub ε) (agentId : Str) : List ℕ := (dictGet agentId s.subscribers).getD []

/-- `del d[k]`. -/
def dictDel {α : Type} (k : Str) (kvs : List (Str × α)) : List (Str × α) :=
  kvs.filter fun kv => kv.1 ≠ k

/-- What `subscribe` does before it yields its queue. -/
def Hub.enter (s : Hub ε) (agentId : Str) : Hub ε where
  subscribers := dictSet agentId (s.queuesOf agentId ++ [s.made]) s.subscribers
  queue := Function.update s.queue s.made ⟨[], []⟩
  made := s.made + 1

/-- The `finally` clause of `subscribe`. -/
def Hub.exit (s : Hub ε) (agentId : Str) (queue : ℕ) : Except HubError (Hub ε) :=
  match dictGet agentId s.subscribers with
  | none => .error .key
  | some queues =>
    if queue ∈ queues then
      if (queues.erase queue).isEmpty then
        .ok { s with subscribers := dictDel agentId s.subscribers }
      else .ok { s with subscribers := dictSet agentId (queues.erase queue) s.subscribers }
    else .error .value

def Hub.put (s : Hub ε) (queue : ℕ) (event : ε) : Hub ε :=
  let q := s.queue queue
  { s with queue := Function.update s.queue queue ⟨q.taken, q.waiting ++ [event]⟩ }

/-- `put` does not suspend, so the list does not change while the loop runs over it. -/
def Hub.publish (s : Hub ε) (agentId : Str) (event : ε) : Hub ε :=
  (s.queuesOf agentId).foldl (fun s queue => s.put queue event) s

/-- `queue.get()` of the `sse` endpoint; an empty queue times out. -/
def Hub.take (s : Hub ε) (queue : ℕ) : Hub ε :=
  let q := s.queue queue
  match q.waiting with
  | [] => s
  | event :: waiting =>
    { s with queue := Function.update s.queue queue ⟨q.taken ++ [event], waiting⟩ }

/-! ## Histories -/

/-- A subscription is known by the agent and the queue that its context manager holds. -/
structure Subscription where
  agentId : Str
  queue : ℕ
  deriving DecidableEq

/-- How the body of an `async with` ends; the `finally` clause runs in both cases. -/
inductive Ending where
  | normal
  | exception

inductive HubOp (ε : Type) where
  | enter (agentId : Str)
  | exit (sub : Subscription) (ending : Ending)
  | publish (agentId : Str) (event : ε)
  | take (sub : Subscription)

def step (s : Hub ε) : HubOp ε → Except HubError (Hub ε)
  | .enter agentId => .ok (s.enter agentId)
  | .exit sub _ => s.exit sub.agentId sub.queue
  | .publish agentId event => .ok (s.publish agentId event)
  | .take sub => .ok (s.take sub.queue)

/-- The state after a history, the newest operation first. -/
def run : List (HubOp ε) → Except HubError (Hub ε)
  | [] => .ok .empty
  | op :: h => (run h).bind fun s => step s op

def entries : List (HubOp ε) → ℕ
  | [] => 0
  | .enter _ :: h => entries h + 1
  | _ :: h => entries h

def entered : List (HubOp ε) → Subscription → Bool
  | [], _ => false
  | .enter agentId :: h, sub => sub = ⟨agentId, entries h⟩ || entered h sub
  | _ :: h, sub => entered h sub

def exited : List (HubOp ε) → Subscription → Bool
  | [], _ => false
  | .exit sub' _ :: h, sub => sub' = sub || exited h sub
  | _ :: h, sub => exited h sub

/-- Entered and not yet exited. -/
def isOpen (h : List (HubOp ε)) (sub : Subscription) : Bool := entered h sub && !exited h sub

/-- The events published for the subscription's agent between its entry and its exit. -/
def published : List (HubOp ε) → Subscription → List ε
  | [], _ => []
  | .publish agentId event :: h, sub =>
    published h sub ++ if agentId = sub.agentId ∧ isOpen h sub = true then [event] else []
  | _ :: h, sub => published h sub

/-- A context manager is exited once, after its entry. -/
def Lawful : List (HubOp ε) → Prop
  | [] => True
  | .exit sub _ :: h => isOpen h sub = true ∧ Lawful h
  | _ :: h => Lawful h

/-! ## The invariant -/

/-- The dictionary and the queues are what the history says. -/
structure Exact (h : List (HubOp ε)) (s : Hub ε) : Prop where
  made : s.made = entries h
  keys_once : (keys s.subscribers).Nodup
  listed : ∀ agentId queues, dictGet agentId s.subscribers = some queues →
    queues ≠ [] ∧ queues.Pairwise (· < ·) ∧ ∀ q, q ∈ queues ↔ isOpen h ⟨agentId, q⟩ = true
  missing : ∀ agentId, dictGet agentId s.subscribers = none →
    ∀ q, isOpen h ⟨agentId, q⟩ = false
  delivered : ∀ sub, entered h sub = true → (s.queue sub.queue).events = published h sub

theorem entered_lt {h : List (HubOp ε)} {sub : Subscription} (he : entered h sub = true) :
    sub.queue < entries h := by
  induction h with
  | nil => cases he
  | cons op h ih =>
    cases op with
    | enter agentId =>
      simp only [entered, Bool.or_eq_true, decide_eq_true_eq] at he
      rcases he with rfl | he
      · exact Nat.lt_succ_self _
      · exact Nat.lt_succ_of_lt (ih he)
    | _ => exact ih he

/-- No queue belongs to two subscriptions. -/
theorem entered_unique {h : List (HubOp ε)} {sub sub' : Subscription} (he : entered h sub = true)
    (he' : entered h sub' = true) (hq : sub.queue = sub'.queue) : sub = sub' := by
  induction h with
  | nil => cases he
  | cons op h ih =>
    cases op with
    | enter agentId =>
      simp only [entered, Bool.or_eq_true, decide_eq_true_eq] at he he'
      rcases he with rfl | he
      · rcases he' with rfl | he'
        · rfl
        · exact absurd hq.symm (entered_lt he').ne
      · rcases he' with rfl | he'
        · exact absurd hq (entered_lt he).ne
        · exact ih he he'
    | _ => exact ih he he'

theorem entered_of_open {h : List (HubOp ε)} {sub : Subscription} (ho : isOpen h sub = true) :
    entered h sub = true := by
  simp only [isOpen, Bool.and_eq_true] at ho
  exact ho.1

theorem exited_entered {h : List (HubOp ε)} (hl : Lawful h) {sub : Subscription}
    (he : exited h sub = true) : entered h sub = true := by
  induction h with
  | nil => cases he
  | cons op h ih =>
    cases op with
    | enter agentId =>
      simp only [entered, Bool.or_eq_true]
      exact Or.inr (ih hl he)
    | exit sub' ending =>
      simp only [exited, Bool.or_eq_true, decide_eq_true_eq] at he
      rcases he with rfl | he
      · exact (entered_of_open hl.1 : entered h sub' = true)
      · exact ih hl.2 he
    | publish agentId event => exact ih hl he
    | take sub' => exact ih hl he

theorem isOpen_enter {h : List (HubOp ε)} (hl : Lawful h) (agentId : Str) (sub : Subscription) :
    isOpen (.enter agentId :: h) sub = true ↔ sub = ⟨agentId, entries h⟩ ∨ isOpen h sub = true := by
  have hnew : exited h ⟨agentId, entries h⟩ = false := by
    rw [← Bool.not_eq_true]
    exact fun he => absurd (entered_lt (exited_entered hl he)) (lt_irrefl _)
  simp only [isOpen, entered, exited, Bool.and_eq_true, Bool.or_eq_true, decide_eq_true_eq,
    Bool.not_eq_true']
  constructor
  · rintro ⟨rfl | he, hx⟩
    · exact Or.inl rfl
    · exact Or.inr ⟨he, hx⟩
  · rintro (rfl | ⟨he, hx⟩)
    · exact ⟨Or.inl rfl, hnew⟩
    · exact ⟨Or.inr he, hx⟩

theorem isOpen_exit {h : List (HubOp ε)} (sub' sub : Subscription) (ending : Ending) :
    isOpen (.exit sub' ending :: h) sub = true ↔ sub ≠ sub' ∧ isOpen h sub = true := by
  simp only [isOpen, entered, exited, Bool.and_eq_true, Bool.not_eq_true', Bool.or_eq_false_iff,
    decide_eq_false_iff_not]
  constructor
  · rintro ⟨he, hne, hx⟩
    exact ⟨fun heq => hne heq.symm, he, hx⟩
  · rintro ⟨hne, he, hx⟩
    exact ⟨he, fun heq => hne heq.symm, hx⟩

theorem Exact.mem_queuesOf {h : List (HubOp ε)} {s : Hub ε} (hs : Exact h s) (agentId : Str)
    (q : ℕ) : q ∈ s.queuesOf agentId ↔ isOpen h ⟨agentId, q⟩ = true := by
  unfold Hub.queuesOf
  cases hg : dictGet agentId s.subscribers with
  | none => simp [hs.missing agentId hg q]
  | some queues => exact (hs.listed agentId queues hg).2.2 q

theorem Exact.sorted {h : List (HubOp ε)} {s : Hub ε} (hs : Exact h s) (agentId : Str) :
    (s.queuesOf agentId).Pairwise (· < ·) := by
  unfold Hub.queuesOf
  cases hg : dictGet agentId s.subscribers with
  | none => exact .nil
  | some queues => exact (hs.listed agentId queues hg).2.1

theorem exact_empty : Exact ([] : List (HubOp ε)) .empty where
  made := rfl
  keys_once := .nil
  listed := nofun
  missing := fun _ _ _ => rfl
  delivered := nofun

/-- Nothing is published for a subscription that is yet to come. -/
theorem published_early {h : List (HubOp ε)} (agentId : Str) {n : ℕ} (hn : entries h ≤ n) :
    published h ⟨agentId, n⟩ = [] := by
  induction h with
  | nil => rfl
  | cons op h ih =>
    cases op with
    | enter agentId' => exact ih (Nat.le_of_succ_le hn)
    | exit sub ending => exact ih hn
    | take sub => exact ih hn
    | publish agentId' event =>
      have hno : isOpen h ⟨agentId, n⟩ = false := by
        rw [← Bool.not_eq_true]
        exact fun ho => absurd (entered_lt (entered_of_open ho)) (Nat.not_lt.mpr hn)
      rw [published, ih hn, hno]
      simp

theorem exact_enter {h : List (HubOp ε)} {s : Hub ε} (hl : Lawful h) (hs : Exact h s)
    (agentId : Str) : Exact (.enter agentId :: h) (s.enter agentId) := by
  have hopen := fun sub => isOpen_enter hl agentId sub
  constructor
  · rw [entries, ← hs.made]
    rfl
  · exact nodup_dictSet hs.keys_once
  · intro agentId' queues hq
    simp only [Hub.enter, dictGet_dictSet] at hq
    split_ifs at hq with heq
    · subst heq
      obtain rfl := Option.some.inj hq
      refine ⟨by simp, ?_, fun q => ?_⟩
      · rw [List.pairwise_append]
        refine ⟨hs.sorted agentId, List.pairwise_singleton _ _, fun q hq q' hq' => ?_⟩
        rw [List.mem_singleton.mp hq', hs.made]
        exact entered_lt (entered_of_open ((hs.mem_queuesOf agentId q).mp hq))
      · rw [List.mem_append, List.mem_singleton, hs.mem_queuesOf, hopen, hs.made,
          Subscription.mk.injEq]
        tauto
    · obtain ⟨hne, hsorted, hmem⟩ := hs.listed agentId' queues hq
      refine ⟨hne, hsorted, fun q => ?_⟩
      rw [hmem, hopen, Subscription.mk.injEq]
      exact ⟨Or.inr, fun h => h.resolve_left fun e => heq e.1.symm⟩
  · intro agentId' hnone q
    simp only [Hub.enter, dictGet_dictSet] at hnone
    split_ifs at hnone with heq
    rw [← Bool.not_eq_true, hopen, Subscription.mk.injEq, hs.missing agentId' hnone q]
    rintro (⟨hagent, -⟩ | ho)
    · exact heq hagent.symm
    · cases ho
  · intro sub he
    simp only [entered, Bool.or_eq_true, decide_eq_true_eq] at he
    rcases he with rfl | he
    · change _ = published h ⟨agentId, entries h⟩
      rw [published_early agentId le_rfl]
      simp [Hub.enter, hs.made, Queue.events]
    · have hne : sub.queue ≠ s.made := by
        rw [hs.made]
        exact (entered_lt he).ne
      change _ = published h sub
      rw [← hs.delivered sub he]
      simp [Hub.enter, Function.update_of_ne hne]

theorem dictGet_dictDel {α : Type} (k k' : Str) (kvs : List (Str × α)) :
    dictGet k (dictDel k' kvs) = if k = k' then none else dictGet k kvs := by
  induction kvs with
  | nil => simp [dictDel, dictGet]
  | cons kv kvs ih =>
    obtain ⟨k₀, x⟩ := kv
    by_cases h₀ : k₀ = k'
    · subst h₀
      have hdel : dictDel k₀ ((k₀, x) :: kvs) = dictDel k₀ kvs := by simp [dictDel]
      rw [hdel, ih]
      by_cases hk : k = k₀
      · simp [hk]
      · simp [hk, dictGet, Ne.symm hk]
    · have hdel : dictDel k' ((k₀, x) :: kvs) = (k₀, x) :: dictDel k' kvs := by simp [dictDel, h₀]
      rw [hdel, dictGet, dictGet, ih]
      by_cases hk : k₀ = k
      · subst hk
        simp [h₀]
      · simp [hk]

/-- The queues that are left when one subscription exits. -/
theorem Exact.rest {h : List (HubOp ε)} {s : Hub ε} (hs : Exact h s) {sub : Subscription}
    (ending : Ending) {queues : List ℕ} (hq : dictGet sub.agentId s.subscribers = some queues)
    (q : ℕ) : q ∈ queues.erase sub.queue ↔
      isOpen (.exit sub ending :: h) ⟨sub.agentId, q⟩ = true := by
  obtain ⟨-, hsorted, hmem⟩ := hs.listed sub.agentId queues hq
  have hnodup : queues.Nodup := hsorted.imp fun hlt => hlt.ne
  rw [hnodup.mem_erase_iff, isOpen_exit, hmem]
  refine and_congr_left fun _ => not_congr ⟨?_, ?_⟩
  · rintro rfl
    rfl
  · exact fun heq => congrArg Subscription.queue heq

/-- An open subscription exits without a `KeyError` or a `ValueError`. -/
theorem exact_exit {h : List (HubOp ε)} {s : Hub ε} (hs : Exact h s) {sub : Subscription}
    (ending : Ending) (ho : isOpen h sub = true) : ∃ s', s.exit sub.agentId sub.queue = .ok s' ∧
      Exact (.exit sub ending :: h) s' := by
  have hin := (hs.mem_queuesOf sub.agentId sub.queue).mpr ho
  unfold Hub.queuesOf at hin
  cases hq : dictGet sub.agentId s.subscribers with
  | none =>
    rw [hq] at hin
    cases hin
  | some queues =>
    rw [hq, Option.getD_some] at hin
    have hrest := hs.rest ending hq
    have hother : ∀ agentId, agentId ≠ sub.agentId → ∀ q,
        (isOpen (.exit sub ending :: h) ⟨agentId, q⟩ = true ↔ isOpen h ⟨agentId, q⟩ = true) := by
      intro agentId hne q
      rw [isOpen_exit]
      exact and_iff_right fun heq => hne (congrArg Subscription.agentId heq)
    by_cases hempty : (queues.erase sub.queue).isEmpty = true
    · refine ⟨{ s with subscribers := dictDel sub.agentId s.subscribers }, ?_, ?_⟩
      · simp only [Hub.exit, hq, if_pos hin, if_pos hempty]
      · refine ⟨hs.made, hs.keys_once.sublist ((List.filter_sublist).map _), ?_, ?_, hs.delivered⟩
        · intro agentId queues' hget
          rw [dictGet_dictDel] at hget
          split_ifs at hget with heq
          obtain ⟨hne, hsorted, hmem⟩ := hs.listed agentId queues' hget
          exact ⟨hne, hsorted, fun q => (hmem q).trans (hother agentId heq q).symm⟩
        · intro agentId hget q
          rw [dictGet_dictDel] at hget
          rw [← Bool.not_eq_true]
          by_cases heq : agentId = sub.agentId
          · subst heq
            rw [← hrest q, List.isEmpty_iff.mp hempty]
            exact List.not_mem_nil
          · rw [if_neg heq] at hget
            rw [hother agentId heq q, hs.missing agentId hget q]
            exact Bool.false_ne_true
    · refine ⟨{ s with subscribers := dictSet sub.agentId (queues.erase sub.queue) s.subscribers },
        ?_, ?_⟩
      · simp only [Hub.exit, hq, if_pos hin, if_neg hempty]
      · refine ⟨hs.made, nodup_dictSet hs.keys_once, ?_, ?_, hs.delivered⟩
        · intro agentId queues' hget
          rw [dictGet_dictSet] at hget
          split_ifs at hget with heq
          · subst heq
            obtain rfl := Option.some.inj hget
            obtain ⟨-, hsorted, -⟩ := hs.listed sub.agentId queues hq
            exact ⟨fun hnil => hempty (List.isEmpty_iff.mpr hnil),
              hsorted.sublist List.erase_sublist, hrest⟩
          · obtain ⟨hne, hsorted, hmem⟩ := hs.listed agentId queues' hget
            exact ⟨hne, hsorted, fun q => (hmem q).trans (hother agentId (Ne.symm heq) q).symm⟩
        · intro agentId hget q
          rw [dictGet_dictSet] at hget
          split_ifs at hget with heq
          rw [← Bool.not_eq_true, hother agentId (Ne.symm heq) q, hs.missing agentId hget q]
          exact Bool.false_ne_true

/-- The loop of `publish` over distinct queues. -/
theorem queue_putAll (event : ε) {queues : List ℕ} (hd : queues.Nodup) (s : Hub ε) (q : ℕ) :
    ((queues.foldl (fun s queue => s.put queue event) s).queue q).events =
      (s.queue q).events ++ if q ∈ queues then [event] else [] := by
  induction queues generalizing s with
  | nil => simp
  | cons q₀ queues ih =>
    obtain ⟨hnot, hd⟩ := List.nodup_cons.mp hd
    rw [List.foldl_cons, ih hd]
    by_cases hq : q = q₀
    · subst hq
      simp [Hub.put, Queue.events, hnot]
    · simp [Hub.put, hq]

theorem putAll_subscribers (event : ε) (queues : List ℕ) (s : Hub ε) :
    (queues.foldl (fun s queue => s.put queue event) s).subscribers = s.subscribers ∧
      (queues.foldl (fun s queue => s.put queue event) s).made = s.made := by
  induction queues generalizing s with
  | nil => exact ⟨rfl, rfl⟩
  | cons q queues ih => exact ih (s.put q event)

theorem exact_publish {h : List (HubOp ε)} {s : Hub ε} (hs : Exact h s) (agentId : Str)
    (event : ε) : Exact (.publish agentId event :: h) (s.publish agentId event) := by
  obtain ⟨hsubs, hmade⟩ := putAll_subscribers event (s.queuesOf agentId) s
  have hnodup : (s.queuesOf agentId).Nodup := (hs.sorted agentId).imp fun hlt => hlt.ne
  refine ⟨hmade.trans hs.made, ?_, ?_, ?_, ?_⟩
  · rw [Hub.publish, hsubs]
    exact hs.keys_once
  · intro agentId' queues hq
    rw [Hub.publish, hsubs] at hq
    exact hs.listed agentId' queues hq
  · intro agentId' hq
    rw [Hub.publish, hsubs] at hq
    exact hs.missing agentId' hq
  · intro sub he
    have he : entered h sub = true := he
    rw [Hub.publish, queue_putAll event hnodup, published, hs.delivered sub he]
    congr 1
    have hiff : sub.queue ∈ s.queuesOf agentId ↔
        agentId = sub.agentId ∧ isOpen h sub = true := by
      rw [hs.mem_queuesOf]
      constructor
      · intro ho
        -- the queue has one subscription only, the entered one
        have heq : ⟨agentId, sub.queue⟩ = sub := entered_unique (entered_of_open ho) he rfl
        exact ⟨congrArg Subscription.agentId heq, heq ▸ ho⟩
      · rintro ⟨rfl, ho⟩
        exact ho
    simp only [hiff]

theorem exact_take {h : List (HubOp ε)} {s : Hub ε} (hs : Exact h s) (sub : Subscription) :
    Exact (.take sub :: h) (s.take sub.queue) := by
  cases hw : (s.queue sub.queue).waiting with
  | nil =>
    have hsame : s.take sub.queue = s := by simp [Hub.take, hw]
    rw [hsame]
    exact ⟨hs.made, hs.keys_once, hs.listed, hs.missing, hs.delivered⟩
  | cons event waiting =>
    have hnext : s.take sub.queue = ⟨s.subscribers, Function.update s.queue sub.queue
        ⟨(s.queue sub.queue).taken ++ [event], waiting⟩, s.made⟩ := by simp [Hub.take, hw]
    rw [hnext]
    refine ⟨hs.made, hs.keys_once, hs.listed, hs.missing, fun sub' he => ?_⟩
    have he : entered h sub' = true := he
    change _ = published h sub'
    rw [← hs.delivered sub' he]
    by_cases hq : sub'.queue = sub.queue
    · simp [hq, Queue.events, hw]
    · simp [Function.update_of_ne hq]

/-- A history runs without an error into a hub that is as the history says. -/
theorem run_exact {h : List (HubOp ε)} (hl : Lawful h) : ∃ s, run h = .ok s ∧ Exact h s := by
  induction h with
  | nil => exact ⟨_, rfl, exact_empty⟩
  | cons op h ih =>
    cases op with
    | enter agentId =>
      have hl : Lawful h := hl
      obtain ⟨s, hrun, hs⟩ := ih hl
      exact ⟨s.enter agentId, by rw [run, hrun]; rfl, exact_enter hl hs agentId⟩
    | exit sub ending =>
      obtain ⟨s, hrun, hs⟩ := ih hl.2
      obtain ⟨s', hexit, hs'⟩ := exact_exit hs ending hl.1
      refine ⟨s', ?_, hs'⟩
      rw [run, hrun]
      exact hexit
    | publish agentId event =>
      obtain ⟨s, hrun, hs⟩ := ih hl
      exact ⟨s.publish agentId event, by rw [run, hrun]; rfl, exact_publish hs agentId event⟩
    | take sub =>
      obtain ⟨s, hrun, hs⟩ := ih hl
      exact ⟨s.take sub.queue, by rw [run, hrun]; rfl, exact_take hs sub⟩

/-- After any entries, exits, publications and reads, the dictionary lists exactly the open queues,
each queue was given the events of its agent in order, and no open subscription fails to exit. -/
theorem hub_delivers_exactly {h : List (HubOp ε)} (hl : Lawful h) :
    ∃ s, run h = .ok s ∧ Exact h s ∧
      ∀ sub, isOpen h sub = true → ∃ s', s.exit sub.agentId sub.queue = .ok s' := by
  obtain ⟨s, hrun, hs⟩ := run_exact hl
  refine ⟨s, hrun, hs, fun sub ho => ?_⟩
  obtain ⟨s', hexit, -⟩ := exact_exit hs .normal ho
  exact ⟨s', hexit⟩

/-- Two subscriptions of one agent; the first one has left when the second event comes. -/
def twoSubscriptions : List (HubOp ℕ) :=
  [.publish (lit "agent01") 2, .exit ⟨lit "agent01", 0⟩ .exception, .publish (lit "agent01") 1,
    .enter (lit "agent02"), .enter (lit "agent01"), .enter (lit "agent01")]

theorem hub_delivers_two : ∃ s, run twoSubscriptions = .ok s ∧
    dictGet (lit "agent01") s.subscribers = some [1] ∧ (s.queue 0).events = [1] ∧
      (s.queue 1).events = [1, 2] ∧ (s.queue 2).events = [] := by
  have hlawful : Lawful twoSubscriptions := ⟨by decide, trivial⟩
  obtain ⟨s, hrun, hs, -⟩ := hub_delivers_exactly hlawful
  have hlisted : (run twoSubscriptions).toOption.bind
      (fun s => dictGet (lit "agent01") s.subscribers) = some [1] := by decide
  rw [hrun] at hlisted
  exact ⟨s, hrun, hlisted, hs.delivered ⟨lit "agent01", 0⟩ (by decide),
    hs.delivered ⟨lit "agent01", 1⟩ (by decide), hs.delivered ⟨lit "agent02", 2⟩ (by decide)⟩

end SseHub
