import McpControlPlane.AuditLog
import McpControlPlane.Interleaving
import McpControlPlane.PolicyDecision

/-! # What the gateway asks of the world

Redis keeps texts under keys with a time to live; the audit log grows by rows; OPA evaluates
the shipped rules over some data document. Everything else (clocks, identifiers, tools and
their outcomes) answers as it likes. -/
namespace GatewayOps

open PyText Binary64 JsonText JsonDict PyJson UuidTime AuditLog ToolPolicy PolicyDecision
open Interleaving

/-! ## Redis strings -/

structure Slot where
  value : Str
  deadline : Option ℚ

/-- `born` remembers when the key was last set with a time to live of its own. -/
structure KeyStore where
  clock : ℚ
  slot : Str → Option Slot
  born : Str → Option ℚ

inductive Ttl where
  | ex (seconds : ℕ)
  | keepttl
  deriving DecidableEq

def KeyStore.empty (clock : ℚ) : KeyStore := ⟨clock, fun _ => none, fun _ => none⟩

def KeyStore.get (s : KeyStore) (key : Str) : Option Str := (s.slot key).map Slot.value

/-- `SET EX` starts a time to live. `SET KEEPTTL` keeps the one of an existing key, and creates a
key without one where there is none. -/
def KeyStore.set (s : KeyStore) (key value : Str) : Ttl → KeyStore
  | .ex seconds => { s with
      slot := Function.update s.slot key (some ⟨value, some (s.clock + seconds)⟩)
      born := Function.update s.born key (some s.clock) }
  | .keepttl => { s with
      slot := Function.update s.slot key (some ⟨value, (s.slot key).bind Slot.deadline⟩) }

def Slot.dead (e : Slot) (clock : ℚ) : Bool := e.deadline.any fun d => d ≤ clock

/-- Time passes, and a key whose time is up vanishes. -/
def KeyStore.tick (s : KeyStore) (dt : ℚ) : KeyStore :=
  { s with
    clock := s.clock + dt
    slot := fun key => (s.slot key).filter fun e => !e.dead (s.clock + dt) }

@[simp] theorem get_set_self (s : KeyStore) (key value : Str) (ttl : Ttl) :
    (s.set key value ttl).get key = some value := by
  cases ttl <;> simp [KeyStore.set, KeyStore.get]

theorem get_set_ne (s : KeyStore) {key key' : Str} (value : Str) (ttl : Ttl) (h : key' ≠ key) :
    (s.set key value ttl).get key' = s.get key' := by
  cases ttl <;> simp [KeyStore.set, KeyStore.get, h]

/-- Time only takes keys away. -/
theorem get_tick {s : KeyStore} {dt : ℚ} {key value : Str} (h : (s.tick dt).get key = some value) :
    s.get key = some value := by
  obtain ⟨e, he, rfl⟩ := Option.map_eq_some_iff.mp h
  simp only [KeyStore.tick, Option.filter_eq_some_iff] at he
  exact Option.map_eq_some_iff.mpr ⟨e, he.1, rfl⟩

/-! ## Operations -/

/-- `ExecutionOutcome`. -/
inductive Outcome where
  | success (result : Json)
  | executorError (errorType message : Str)
  | unhandledError (message : Str)

inductive GwOp where
  | time
  | durationMs
  | uuid4
  | redisGet (key : Str)
  | redisSet (key value : Str) (ttl : Ttl)
  | postOpa (i : OpaInput)
  | sendApprovalRequest (approvalId : Str)
  | recordToolCall (event : AuditEvent)
  | runTool (toolName : Str) (arguments : List (Str × Json))
  | publish (agentId : Str) (event : Json)

/-- An exception that leaves a handler. -/
inductive GwError where
  | attribute
  | type
  | value
  | key
  | overflow
  | recursion
  | redis
  | audit
  deriving DecidableEq

/-- A transport error of OPA is a reply, and a failing notification is only logged. -/
abbrev gateway : Signature where
  Op := GwOp
  Res
    | .time => Magnitude
    | .durationMs => ℤ
    | .uuid4 => Uuid
    | .redisGet _ => Option Str
    | .postOpa _ => OpaReply
    | .runTool _ _ => Outcome
    | _ => Unit
  Exn := GwError
  fails
    | .redisGet _ => some .redis
    | .redisSet _ _ _ => some .redis
    | .recordToolCall _ => some .audit
    | _ => none

/-! ## The shared state -/

/-- A committed audit row, with the request that wrote it. -/
structure LogRow where
  writer : ℕ
  event : AuditEvent

/-- `rows` has the latest row first. -/
structure GwState where
  store : KeyStore
  rows : List LogRow
  issued : List Uuid

def GwState.initial (clock : ℚ) : GwState := ⟨.empty clock, [], []⟩

inductive GwOracle where
  | plain
  | now (x : Magnitude)
  | duration (ms : ℤ)
  | uuid (u : Uuid)
  | package (others : List (Str × Json))
  | opaError (status : Option ℕ)
  | outcome (o : Outcome)
  | lost (applied : Bool)

/-- `insertable` says whether PostgreSQL takes the row of an event. -/
structure World where
  data : PolicyData
  insertable : AuditEvent → Bool

def gwAnswer (W : World) (s : GwState) (t : ℕ) :
    (o : GwOp) → GwOracle → Option (gateway.Res o × GwState)
  | .time, .now x => some (x, s)
  | .durationMs, .duration ms => some (ms, s)
  | .uuid4, .uuid u => if u ∈ s.issued then none else some (u, { s with issued := u :: s.issued })
  | .redisGet key, _ => some (s.store.get key, s)
  | .redisSet key value ttl, _ => some ((), { s with store := s.store.set key value ttl })
  | .postOpa i, .package others => some (.response 200 (some (packageDocument W.data i others)), s)
  | .postOpa _, .opaError none => some (.transportError, s)
  | .postOpa _, .opaError (some status) =>
    if success status then none else some (.response status none, s)
  | .sendApprovalRequest _, _ => some ((), s)
  | .recordToolCall event, _ =>
    if W.insertable event then some ((), { s with rows := ⟨t, event⟩ :: s.rows }) else none
  | .runTool _ _, .outcome o => some (o, s)
  | .publish _ _, _ => some ((), s)
  | _, _ => none

/-- A command or a COMMIT may have been applied before the connection was lost. An event that
cannot be inserted is refused. -/
def gwFailure (W : World) (s : GwState) (t : ℕ) : GwOp → GwOracle → Option GwState
  | .redisGet _, .lost _ => some s
  | .redisSet key value ttl, .lost applied =>
    some (if applied then { s with store := s.store.set key value ttl } else s)
  | .recordToolCall event, .lost applied =>
    if W.insertable event then
      some (if applied then { s with rows := ⟨t, event⟩ :: s.rows } else s)
    else none
  | .recordToolCall event, .plain => if W.insertable event then none else some s
  | _, _ => none

/-- The reply of OPA, if it is not an error, is the document of the rules. -/
def OpaAnswers (data : PolicyData) (i : OpaInput) (reply : OpaReply) : Prop :=
  (∃ others, reply = .response 200 (some (packageDocument data i others))) ∨
    reply = .transportError ∨ ∃ status, success status = false ∧ reply = .response status none

/-- What an answer tells and changes. -/
def Answered (W : World) (s : GwState) (t : ℕ) (s' : GwState) : (o : GwOp) → gateway.Res o → Prop
  | .redisGet key, x => x = s.store.get key ∧ s' = s
  | .redisSet key value ttl, _ => s' = { s with store := s.store.set key value ttl }
  | .uuid4, u => u ∉ s.issued ∧ s' = { s with issued := u :: s.issued }
  | .postOpa i, reply => OpaAnswers W.data i reply ∧ s' = s
  | .recordToolCall event, _ => W.insertable event = true ∧
      s' = { s with rows := ⟨t, event⟩ :: s.rows }
  | _, _ => s' = s

theorem answered_of_gwAnswer {W : World} {s s' : GwState} {t : ℕ} {o : GwOp} {c : GwOracle}
    {x : gateway.Res o} (h : gwAnswer W s t o c = some (x, s')) : Answered W s t s' o x := by
  cases o with
  | redisGet key =>
    simp only [gwAnswer, Option.some.injEq, Prod.mk.injEq] at h
    exact ⟨h.1.symm, h.2.symm⟩
  | redisSet key value ttl =>
    simp only [gwAnswer, Option.some.injEq, Prod.mk.injEq] at h
    exact h.2.symm
  | uuid4 =>
    cases c with
    | uuid u =>
      simp only [gwAnswer, Option.ite_none_left_eq_some, Option.some.injEq, Prod.mk.injEq] at h
      obtain ⟨hnew, rfl, rfl⟩ := h
      exact ⟨hnew, rfl⟩
    | _ => cases h
  | postOpa i =>
    cases c with
    | package others =>
      simp only [gwAnswer, Option.some.injEq, Prod.mk.injEq] at h
      exact ⟨Or.inl ⟨others, h.1.symm⟩, h.2.symm⟩
    | opaError status =>
      cases status with
      | none =>
        simp only [gwAnswer, Option.some.injEq, Prod.mk.injEq] at h
        exact ⟨Or.inr (Or.inl h.1.symm), h.2.symm⟩
      | some status =>
        simp only [gwAnswer, Option.ite_none_left_eq_some, Option.some.injEq, Prod.mk.injEq] at h
        obtain ⟨herror, hx, hs⟩ := h
        exact ⟨Or.inr (Or.inr ⟨status, by simpa using herror, hx.symm⟩), hs.symm⟩
    | _ => cases h
  | recordToolCall event =>
    simp only [gwAnswer, Option.ite_none_right_eq_some, Option.some.injEq, Prod.mk.injEq] at h
    exact ⟨h.1, h.2.2.symm⟩
  | _ =>
    cases c <;> simp only [gwAnswer, Option.some.injEq, Prod.mk.injEq, reduceCtorEq] at h
    all_goals exact h.2.symm

/-- A failing operation changes the state as if it was applied, or not at all. -/
theorem failed_of_gwFailure {W : World} {s s' : GwState} {t : ℕ} {o : GwOp} {c : GwOracle}
    (h : gwFailure W s t o c = some s') :
    s' = s ∧ ((∃ key, o = .redisGet key) ∨ c ≠ .lost true) ∨
      (∃ key value ttl, o = .redisSet key value ttl ∧ c = .lost true ∧
        s' = { s with store := s.store.set key value ttl }) ∨
      ∃ event, o = .recordToolCall event ∧ c = .lost true ∧ W.insertable event = true ∧
        s' = { s with rows := ⟨t, event⟩ :: s.rows } := by
  cases o with
  | redisGet key =>
    cases c <;> cases h
    exact Or.inl ⟨rfl, Or.inl ⟨key, rfl⟩⟩
  | redisSet key value ttl =>
    cases c with
    | lost applied =>
      obtain rfl := Option.some.inj h
      cases applied with
      | true => exact Or.inr (Or.inl ⟨key, value, ttl, rfl, rfl, rfl⟩)
      | false => exact Or.inl ⟨rfl, Or.inr (by simp)⟩
    | _ => cases h
  | recordToolCall event =>
    cases c with
    | lost applied =>
      simp only [gwFailure, Option.ite_none_right_eq_some, Option.some.injEq] at h
      obtain ⟨hin, rfl⟩ := h
      cases applied with
      | true => exact Or.inr (Or.inr ⟨event, rfl, rfl, hin, rfl⟩)
      | false => exact Or.inl ⟨rfl, Or.inr (by simp)⟩
    | plain =>
      simp only [gwFailure, Option.ite_none_left_eq_some, Option.some.injEq] at h
      exact Or.inl ⟨h.2.symm, Or.inr nofun⟩
    | _ => cases h
  | _ => cases h

/-- The system of some handlers; nothing but time happens outside of them. -/
abbrev gwSystem (W : World) (Req Resp : Type) (handler : Req → Prog gateway Resp) :
    System gateway where
  Req := Req
  Resp := Resp
  State := GwState
  Oracle := GwOracle
  Drift := ℚ
  handler := handler
  start s := ∃ clock, s = .initial clock
  answer := gwAnswer W
  failure := gwFailure W
  drift s dt := if 0 ≤ dt then some { s with store := s.store.tick dt } else none

end GatewayOps
