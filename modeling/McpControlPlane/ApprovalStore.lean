import McpControlPlane.GatewayOps

/-! # The approval store

A pending approval is a JSON text under its key with a time to live. Deciding reads it, looks at
its status and its deadline, and writes it back with the time to live that the key then has. -/
namespace ApprovalStore

open PyText Binary64 JsonText JsonDict PyJson UuidTime ToolPolicy GatewayOps Interleaving

def approvalTtlSeconds : ℕ := 15 * 60

structure Approval where
  id : Str
  agentId : Str
  role : Str
  toolName : Str
  arguments : List (Str × Json)
  reason : Str
  status : Str
  requestedAt : Float64
  expiresAt : Float64
  decidedBy : Option Str := none
  decidedAt : Option Float64 := none

def approvalKey (approvalId : Str) : Str := lit "approval:" ++ approvalId

def jsonOpt {α : Type} (f : α → Json) (x : Option α) : Json := (x.map f).getD .null

def jsonFloat (x : Float64) : Json := .num (.float x)

/-- `asdict(approval)`. -/
def Approval.json (a : Approval) : Json :=
  .obj [(lit "id", .str a.id), (lit "agent_id", .str a.agentId), (lit "role", .str a.role),
    (lit "tool_name", .str a.toolName), (lit "arguments", .obj a.arguments),
    (lit "reason", .str a.reason), (lit "status", .str a.status),
    (lit "requested_at", jsonFloat a.requestedAt), (lit "expires_at", jsonFloat a.expiresAt),
    (lit "decided_by", jsonOpt .str a.decidedBy),
    (lit "decided_at", jsonOpt jsonFloat a.decidedAt)]

def textField (d : List (Str × Json)) (k : String) : Option Str :=
  match dictGet (lit k) d with
  | some (.str s) => some s
  | _ => none

def floatField (d : List (Str × Json)) (k : String) : Option Float64 :=
  match dictGet (lit k) d with
  | some (.num (.float x)) => some x
  | _ => none

def dictField (d : List (Str × Json)) (k : String) : Option (List (Str × Json)) :=
  match dictGet (lit k) d with
  | some (.obj kvs) => some kvs
  | _ => none

def fieldNames : List String :=
  ["id", "agent_id", "role", "tool_name", "arguments", "reason", "status", "requested_at",
    "expires_at", "decided_by", "decided_at"]

/-- `Approval(**d)`: `none` is a `TypeError`. The store holds no other types of fields. -/
def approvalOf (d : List (Str × Json)) : Option Approval := do
  guard (∀ k ∈ keys d, k ∈ fieldNames.map lit)
  let id ← textField d "id"
  let agentId ← textField d "agent_id"
  let role ← textField d "role"
  let toolName ← textField d "tool_name"
  let arguments ← dictField d "arguments"
  let reason ← textField d "reason"
  let status ← textField d "status"
  let requestedAt ← floatField d "requested_at"
  let expiresAt ← floatField d "expires_at"
  return { id, agentId, role, toolName, arguments, reason, status, requestedAt, expiresAt,
           decidedBy := textField d "decided_by", decidedAt := floatField d "decided_at" }

/-- `Approval(**json.loads(raw))`. -/
def readApproval (raw : Str) : Except GwError Approval :=
  match loads raw with
  | .error _ => .error .value
  | .ok (.obj d) =>
    match approvalOf d with
    | none => .error .type
    | some a => .ok a
  | .ok _ => .error .type

/-- What a record is read back as. -/
def stored (a : Approval) : Approval where
  id := mergeSurrogates a.id
  agentId := mergeSurrogates a.agentId
  role := mergeSurrogates a.role
  toolName := mergeSurrogates a.toolName
  arguments := dictOf (dictifyMembers (mapMembers mergeSurrogates id a.arguments))
  reason := mergeSurrogates a.reason
  status := mergeSurrogates a.status
  requestedAt := a.requestedAt
  expiresAt := a.expiresAt
  decidedBy := a.decidedBy.map mergeSurrogates
  decidedAt := a.decidedAt

theorem map_approval_json (a : Approval) :
    dictify (a.json.map mergeSurrogates id) = (stored a).json := by
  obtain ⟨h₁, h₂, h₃, h₄, h₅, h₆, h₇, h₈, h₉, h₁₀, h₁₁⟩ : mergeSurrogates (lit "id") = lit "id" ∧
      mergeSurrogates (lit "agent_id") = lit "agent_id" ∧ mergeSurrogates (lit "role") = lit "role" ∧
      mergeSurrogates (lit "tool_name") = lit "tool_name" ∧
      mergeSurrogates (lit "arguments") = lit "arguments" ∧
      mergeSurrogates (lit "reason") = lit "reason" ∧
      mergeSurrogates (lit "status") = lit "status" ∧
      mergeSurrogates (lit "requested_at") = lit "requested_at" ∧
      mergeSurrogates (lit "expires_at") = lit "expires_at" ∧
      mergeSurrogates (lit "decided_by") = lit "decided_by" ∧
      mergeSurrogates (lit "decided_at") = lit "decided_at" := by decide +kernel
  rw [Approval.json]
  simp only [JsonTree.map, mapMembers, dictify, dictifyMembers, jsonFloat, id_eq, h₁, h₂, h₃, h₄,
    h₅, h₆, h₇, h₈, h₉, h₁₀, h₁₁]
  rw [dictOf_of_nodup (by simp only [keys, List.map_cons, List.map_nil]; decide +kernel)]
  cases hb : a.decidedBy <;> cases hat : a.decidedAt <;>
    simp [Approval.json, stored, jsonOpt, jsonFloat, hb, hat, JsonTree.map, dictify]

theorem approvalOf_json (a : Approval) : ∃ d, a.json = .obj d ∧ approvalOf d = some a := by
  refine ⟨_, rfl, ?_⟩
  obtain ⟨id, agentId, role, toolName, arguments, reason, status, requestedAt, expiresAt, decidedBy,
    decidedAt⟩ := a
  cases decidedBy <;> cases decidedAt <;> rfl

theorem readApproval_dumps (a : Approval) : readApproval (dumps a.json) = .ok (stored a) := by
  obtain ⟨d, hd, ha⟩ := approvalOf_json (stored a)
  rw [readApproval, loads_dumps, map_approval_json, hd]
  simp only [ha]

/-! ## Points in time -/

/-- `x + n` for a positive float. -/
def plusSeconds (x : Magnitude) (n : ℕ) : Float64 :=
  match roundMagnitude (x.units + n * 2 ^ scale) 1 with
  | some y => .finite false y
  | none => .inf false

/-- `x > y`. -/
def laterThan (x : Magnitude) : Float64 → Bool
  | .finite false y => y.units < x.units
  | .finite true y => 0 < x.units + y.units
  | .inf neg => neg
  | .nan => false

/-! ## The operations of the store -/

def pendingStatus : Str := lit "pending"

/-- Where `tooDeep` says so, `asdict` hits Python's recursion limit in the arguments. -/
def createPendingApproval (tooDeep : Json → Bool) (agentId role toolName : Str)
    (arguments : List (Str × Json)) (reason : Str) : Prog gateway Approval := do
  let now : Magnitude ← perform (S := gateway) .time
  let u : Uuid ← perform (S := gateway) .uuid4
  let approval : Approval := {
    id := u.text, agentId, role, toolName, arguments, reason, status := pendingStatus,
    requestedAt := .finite false now, expiresAt := plusSeconds now approvalTtlSeconds }
  if tooDeep (.obj arguments) then .raise .recursion
  else do
    perform (S := gateway)
      (.redisSet (approvalKey approval.id) (dumps approval.json) (.ex approvalTtlSeconds))
    return approval

def getApproval (approvalId : Str) : Prog gateway (Option Approval) := do
  let raw : Option Str ← perform (S := gateway) (.redisGet (approvalKey approvalId))
  match raw with
  | none => return none
  | some raw =>
    match readApproval raw with
    | .error e => .raise e
    | .ok approval => return some approval

inductive DecideOutcome where
  | decided
  | notFound
  | alreadyDecided
  deriving DecidableEq

def decidedStatus (decision : Str) : Str :=
  if decision = lit "approve" then lit "approved" else lit "denied"

def Approval.resolve (a : Approval) (decision decidedBy : Str) (decidedAt : Magnitude) : Approval :=
  { a with
    status := decidedStatus decision
    decidedBy := some decidedBy
    decidedAt := some (.finite false decidedAt) }

def decideApproval (approvalId decision decidedBy : Str) :
    Prog gateway (Option Approval × DecideOutcome) := do
  let found : Option Approval ← getApproval approvalId
  match found with
  | none => return (none, .notFound)
  | some approval =>
    if approval.status ≠ pendingStatus then return (some approval, .alreadyDecided)
    else
      let now : Magnitude ← perform (S := gateway) .time
      if laterThan now approval.expiresAt then return (some approval, .notFound)
      else
        let decidedAt : Magnitude ← perform (S := gateway) .time
        let resolved := approval.resolve decision decidedBy decidedAt
        perform (S := gateway)
          (.redisSet (approvalKey approvalId) (dumps resolved.json) .keepttl)
        return (some resolved, .decided)

/-! ## What the operations do -/

/-- The record that a request opens. -/
def openedApproval (agentId role toolName : Str) (arguments : List (Str × Json)) (reason : Str)
    (now : Magnitude) (u : Uuid) : Approval where
  id := u.text
  agentId := agentId
  role := role
  toolName := toolName
  arguments := arguments
  reason := reason
  status := pendingStatus
  requestedAt := .finite false now
  expiresAt := plusSeconds now approvalTtlSeconds

def namedTrace (now : Magnitude) (u : Uuid) (tr : Trace gateway) : Trace gateway :=
  ⟨.uuid4, some u⟩ :: ⟨.time, some now⟩ :: tr

def readTrace (approvalId raw : Str) (tr : Trace gateway) : Trace gateway :=
  ⟨.redisGet (approvalKey approvalId), some (some raw)⟩ :: tr

def checkedTrace (approvalId raw : Str) (now decidedAt : Magnitude) (tr : Trace gateway) :
    Trace gateway :=
  ⟨.time, some decidedAt⟩ :: ⟨.time, some now⟩ :: readTrace approvalId raw tr

section Specs

variable {ok : Trace gateway → GwOp → Prop} {tr : Trace gateway}

theorem createPendingApproval_sat {post : Except GwError Approval → Trace gateway → Prop}
    {tooDeep : Json → Bool} {agentId role toolName : Str} {arguments : List (Str × Json)}
    {reason : Str} (htime : ok tr .time) (huuid : ∀ now, ok (⟨.time, some now⟩ :: tr) .uuid4)
    (hdeep : tooDeep (.obj arguments) = true → ∀ now u, post (.error .recursion) (namedTrace now u tr))
    (hset : ∀ now u, ok (namedTrace now u tr) (.redisSet (approvalKey u.text)
      (dumps (openedApproval agentId role toolName arguments reason now u).json)
      (.ex approvalTtlSeconds)))
    (hdone : tooDeep (.obj arguments) = false → ∀ now u,
      post (.ok (openedApproval agentId role toolName arguments reason now u))
        (⟨.redisSet (approvalKey u.text)
          (dumps (openedApproval agentId role toolName arguments reason now u).json)
          (.ex approvalTtlSeconds), some ()⟩ :: namedTrace now u tr))
    (hfail : ∀ now u, post (.error .redis) (⟨.redisSet (approvalKey u.text)
        (dumps (openedApproval agentId role toolName arguments reason now u).json)
        (.ex approvalTtlSeconds), none⟩ :: namedTrace now u tr)) :
    Sat ok post (createPendingApproval tooDeep agentId role toolName arguments reason) tr := by
  refine sat_perform.mpr ⟨htime, fun now => ?_, nofun⟩
  refine sat_perform.mpr ⟨huuid now, fun u => ?_, nofun⟩
  by_cases hlimit : tooDeep (.obj arguments) = true
  · simp only [hlimit, if_true]
    exact hdeep hlimit now u
  · simp only [hlimit, if_false, Bool.false_eq_true]
    refine sat_perform.mpr ⟨hset now u, fun _ => hdone (by simpa using hlimit) now u, ?_⟩
    intro e he
    obtain rfl := Option.some.inj he
    exact hfail now u

theorem getApproval_sat {post : Except GwError (Option Approval) → Trace gateway → Prop}
    {approvalId : Str} (hget : ok tr (.redisGet (approvalKey approvalId)))
    (hnone : post (.ok none) (⟨.redisGet (approvalKey approvalId), some none⟩ :: tr))
    (hsome : ∀ raw a, readApproval raw = .ok a → post (.ok (some a)) (readTrace approvalId raw tr))
    (hraise : ∀ raw e, readApproval raw = .error e → post (.error e) (readTrace approvalId raw tr))
    (hfail : post (.error .redis) (⟨.redisGet (approvalKey approvalId), none⟩ :: tr)) :
    Sat ok post (getApproval approvalId) tr := by
  refine sat_perform.mpr ⟨hget, fun raw => ?_, ?_⟩
  · cases raw with
    | none => exact hnone
    | some raw =>
      cases hr : readApproval raw with
      | error e =>
        simp only [hr]
        exact hraise raw e hr
      | ok a =>
        simp only [hr]
        exact hsome raw a hr
  · intro e he
    obtain rfl := Option.some.inj he
    exact hfail

theorem decideApproval_sat
    {post : Except GwError (Option Approval × DecideOutcome) → Trace gateway → Prop}
    {approvalId decision decidedBy : Str} (hget : ok tr (.redisGet (approvalKey approvalId)))
    (hfail : post (.error .redis) (⟨.redisGet (approvalKey approvalId), none⟩ :: tr))
    (hunknown : post (.ok (none, .notFound))
      (⟨.redisGet (approvalKey approvalId), some none⟩ :: tr))
    (hraise : ∀ raw e, readApproval raw = .error e → post (.error e) (readTrace approvalId raw tr))
    (halready : ∀ raw a, readApproval raw = .ok a → a.status ≠ pendingStatus →
      post (.ok (some a, .alreadyDecided)) (readTrace approvalId raw tr))
    (hnow : ∀ raw, ok (readTrace approvalId raw tr) .time)
    (hexpired : ∀ raw a now, readApproval raw = .ok a →
      post (.ok (some a, .notFound)) (⟨.time, some now⟩ :: readTrace approvalId raw tr))
    (hagain : ∀ raw now, ok (⟨.time, some now⟩ :: readTrace approvalId raw tr) .time)
    (hset : ∀ raw a now decidedAt, readApproval raw = .ok a → a.status = pendingStatus →
      laterThan now a.expiresAt = false →
      ok (checkedTrace approvalId raw now decidedAt tr) (.redisSet (approvalKey approvalId)
          (dumps (a.resolve decision decidedBy decidedAt).json) .keepttl) ∧
      post (.ok (some (a.resolve decision decidedBy decidedAt), .decided))
        (⟨.redisSet (approvalKey approvalId) (dumps (a.resolve decision decidedBy decidedAt).json)
          .keepttl, some ()⟩ :: checkedTrace approvalId raw now decidedAt tr) ∧
      post (.error .redis)
        (⟨.redisSet (approvalKey approvalId) (dumps (a.resolve decision decidedBy decidedAt).json)
          .keepttl, none⟩ :: checkedTrace approvalId raw now decidedAt tr)) :
    Sat ok post (decideApproval approvalId decision decidedBy) tr := by
  refine sat_bind.mpr (getApproval_sat hget hunknown ?_ hraise hfail)
  intro raw a hr
  change Sat ok post _ _
  by_cases hstatus : a.status = pendingStatus
  · simp only [hstatus, ne_eq, not_true_eq_false, if_false]
    refine sat_perform.mpr ⟨hnow raw, fun now => ?_, nofun⟩
    cases hlate : laterThan now a.expiresAt with
    | true =>
      simp only [if_true]
      exact hexpired raw a now hr
    | false =>
      simp only [Bool.false_eq_true, if_false]
      refine sat_perform.mpr ⟨hagain raw now, fun decidedAt => ?_, nofun⟩
      obtain ⟨hop, hdone, hlost⟩ := hset raw a now decidedAt hr hstatus hlate
      refine sat_perform.mpr ⟨hop, fun _ => hdone, ?_⟩
      intro e he
      obtain rfl := Option.some.inj he
      exact hlost
  · simp only [ne_eq, hstatus, not_false_eq_true, if_true]
    exact halready raw a hr hstatus

end Specs

/-! ## Every record expires -/

/-- Each key has a deadline ahead, at most the time to live after it was set. -/
def ExpiresInTime (s : KeyStore) : Prop :=
  ∀ key e, s.slot key = some e → ∃ d b, e.deadline = some d ∧ s.born key = some b ∧
    d ≤ b + approvalTtlSeconds ∧ s.clock < d

theorem ExpiresInTime.set_ex {s : KeyStore} (h : ExpiresInTime s) (key value : Str) :
    ExpiresInTime (s.set key value (.ex approvalTtlSeconds)) := by
  intro key' e he
  by_cases hk : key' = key
  · subst hk
    simp only [KeyStore.set, Function.update_self, Option.some.injEq] at he
    subst he
    refine ⟨_, s.clock, rfl, by simp [KeyStore.set], le_rfl, ?_⟩
    simp [KeyStore.set, approvalTtlSeconds]
  · simp only [KeyStore.set, Function.update_of_ne hk] at he
    obtain ⟨d, b, hd, hb, hle, hlt⟩ := h key' e he
    exact ⟨d, b, hd, by simpa [KeyStore.set, hk] using hb, hle, hlt⟩

theorem ExpiresInTime.set_keepttl {s : KeyStore} (h : ExpiresInTime s) {key : Str}
    (halive : (s.slot key).isSome = true) (value : Str) :
    ExpiresInTime (s.set key value .keepttl) := by
  intro key' e he
  by_cases hk : key' = key
  · subst hk
    obtain ⟨old, hold⟩ := Option.isSome_iff_exists.mp halive
    simp only [KeyStore.set, Function.update_self, Option.some.injEq, hold, Option.bind_some] at he
    subst he
    exact h key' old hold
  · simp only [KeyStore.set, Function.update_of_ne hk] at he
    exact h key' e he

theorem ExpiresInTime.tick {s : KeyStore} (h : ExpiresInTime s) (dt : ℚ) :
    ExpiresInTime (s.tick dt) := by
  intro key e he
  simp only [KeyStore.tick, Option.filter_eq_some_iff, Bool.not_eq_true'] at he
  obtain ⟨hslot, hlive⟩ := he
  obtain ⟨d, b, hd, hb, hle, -⟩ := h key e hslot
  refine ⟨d, b, hd, hb, hle, ?_⟩
  rw [Slot.dead, hd, Option.any_some, decide_eq_false_iff_not, not_le] at hlive
  exact hlive

/-- A key that `SET KEEPTTL` creates never expires. -/
theorem not_expires_of_dead_key {s : KeyStore} {key : Str} (h : s.slot key = none) (value : Str) :
    ¬ ExpiresInTime (s.set key value .keepttl) := by
  intro hs
  obtain ⟨d, b, hd, -⟩ := hs key ⟨value, none⟩ (by simp [KeyStore.set, h])
  cases hd

inductive StoreReq where
  | create (agentId role toolName : Str) (arguments : List (Str × Json)) (reason : Str)
  | get (approvalId : Str)
  | decide (approvalId decision decidedBy : Str)

abbrev StoreResp := Option Approval × Option DecideOutcome

/-- For arguments that `asdict` gets through; others fail before anything is stored. -/
def storeHandler : StoreReq → Prog gateway StoreResp
  | .create agentId role toolName arguments reason => do
    let a ← createPendingApproval (fun _ => false) agentId role toolName arguments reason
    return (some a, none)
  | .get approvalId => do
    let a ← getApproval approvalId
    return (a, none)
  | .decide approvalId decision decidedBy => do
    let r ← decideApproval approvalId decision decidedBy
    return (r.1, some r.2)

variable {W : World}

/-- Any number of callers of the store, in one or several processes. -/
abbrev storeSystem (W : World) : System gateway := gwSystem W StoreReq StoreResp storeHandler

abbrev StorePool (W : World) := Pool (storeSystem W)

/-- What creates a record gives it the time to live of approvals. -/
def TtlOk (_ : StoreReq) (_ : Trace gateway) : GwOp → Prop
  | .redisSet _ _ (.ex seconds) => seconds = approvalTtlSeconds
  | _ => True

theorem storeHandler_sat (r : StoreReq) :
    Sat (TtlOk r) (fun _ _ => True) (storeHandler r) [] := by
  cases r with
  | create agentId role toolName arguments reason =>
    refine sat_bind.mpr ?_
    apply createPendingApproval_sat
    · trivial
    · exact fun _ => trivial
    · exact fun _ _ _ => trivial
    · exact fun _ _ => rfl
    · exact fun _ _ _ => trivial
    · exact fun _ _ => trivial
  | get approvalId =>
    refine sat_bind.mpr ?_
    apply getApproval_sat
    · trivial
    · trivial
    · exact fun _ _ _ => trivial
    · exact fun _ _ _ => trivial
    · trivial
  | decide approvalId decision decidedBy =>
    refine sat_bind.mpr ?_
    apply decideApproval_sat
    · trivial
    · trivial
    · trivial
    · exact fun _ _ _ => trivial
    · exact fun _ _ _ _ => trivial
    · exact fun _ => trivial
    · exact fun _ _ _ _ => trivial
    · exact fun _ _ => trivial
    · exact fun _ _ _ _ _ _ _ => ⟨trivial, trivial, trivial⟩

/-- The key that a move sets with `KEEPTTL`. -/
def keepttlKey (p : StorePool W) (m : Move (storeSystem W)) : Option Str :=
  match m with
  | .answer t _ | .fail t (.lost true) =>
    match p.pending t with
    | some (.redisSet key _ .keepttl) => some key
    | _ => none
  | _ => none

/-- A key that is set with `KEEPTTL` has not vanished since it was read. -/
def KeyAlive (p : StorePool W) (m : Move (storeSystem W)) : Prop :=
  ∀ key ∈ keepttlKey p m, (p.shared.store.slot key).isSome = true

instance (p : StorePool W) (m : Move (storeSystem W)) : Decidable (KeyAlive p m) :=
  inferInstanceAs (Decidable (∀ key ∈ keepttlKey p m, (p.shared.store.slot key).isSome = true))

/-- What a move does to the store. -/
inductive StoreChange (p : StorePool W) (m : Move (storeSystem W)) (s : KeyStore) : Prop
  | same (hk : keepttlKey p m = none) (hs : s = p.shared.store)
  | tick (dt : ℚ) (hk : keepttlKey p m = none) (hs : s = p.shared.store.tick dt)
  | opened (key value : Str) (hk : keepttlKey p m = none)
      (hs : s = p.shared.store.set key value (.ex approvalTtlSeconds))
  | kept (key value : Str) (hk : keepttlKey p m = some key)
      (hs : s = p.shared.store.set key value .keepttl)

theorem step_store {p p' : StorePool W} {m : Move (storeSystem W)}
    (hp : Obeys (Y := storeSystem W) TtlOk (fun _ _ _ => True) p) (hm : Step p m p') :
    StoreChange p m p'.shared.store := by
  cases hm with
  | arrive t r ht => exact .same rfl rfl
  | drift dt s hs =>
    simp only [Option.ite_none_right_eq_some, Option.some.injEq] at hs
    obtain ⟨-, rfl⟩ := hs
    exact .tick dt rfl rfl
  | answer t c r o k x s ht hs =>
    have hpend := pending_of_thread ht
    have hans := answered_of_gwAnswer hs
    have hother : (∀ key value ttl, o ≠ .redisSet key value ttl) →
        keepttlKey p (.answer t c) = none := by
      intro hne
      rw [keepttlKey, hpend]
      cases o <;> first | rfl | exact absurd rfl (hne _ _ _)
    cases o with
    | redisSet key value ttl =>
      have heq : s.store = p.shared.store.set key value ttl := by rw [hans]
      cases ttl with
      | ex seconds =>
        obtain rfl : seconds = approvalTtlSeconds := (hp.sat t r _ ht).1
        exact .opened key value (by rw [keepttlKey, hpend]) heq
      | keepttl => exact .kept key value (by rw [keepttlKey, hpend]) heq
    | redisGet key => exact .same (hother nofun) (by rw [hans.2]; rfl)
    | uuid4 => exact .same (hother nofun) (by rw [hans.2]; rfl)
    | postOpa i => exact .same (hother nofun) (by rw [hans.2]; rfl)
    | recordToolCall event => exact .same (hother nofun) (by rw [hans.2]; rfl)
    | _ => exact .same (hother nofun) (by rw [hans]; rfl)
  | fail t c r o k e s ht he hs =>
    have hpend := pending_of_thread ht
    rcases failed_of_gwFailure hs with ⟨rfl, hwhy⟩ | ⟨key, value, ttl, rfl, rfl, rfl⟩ |
        ⟨event, rfl, rfl, -, rfl⟩
    · refine .same ?_ rfl
      rcases hwhy with ⟨key, rfl⟩ | hne
      · cases c with
        | lost applied =>
          cases applied with
          | true => rw [keepttlKey, hpend]
          | false => rfl
        | _ => rfl
      · cases c with
        | lost applied =>
          cases applied with
          | true => exact absurd rfl hne
          | false => rfl
        | _ => rfl
    · cases ttl with
      | ex seconds =>
        obtain rfl : seconds = approvalTtlSeconds := (hp.sat t r _ ht).1
        exact .opened key value (by rw [keepttlKey, hpend]) rfl
      | keepttl => exact .kept key value (by rw [keepttlKey, hpend]) rfl
    · exact .same (by rw [keepttlKey, hpend]) rfl

theorem reachable_ttlOk {C : StorePool W → Move (storeSystem W) → Prop} {p : StorePool W}
    (hp : Reachable C p) : Obeys (Y := storeSystem W) TtlOk (fun _ _ _ => True) p :=
  reachable_obeys (fun r => storeHandler_sat r) hp

theorem expires_step {p p' : StorePool W} {m : Move (storeSystem W)}
    (hp : Obeys (Y := storeSystem W) TtlOk (fun _ _ _ => True) p)
    (h : ExpiresInTime p.shared.store) (hc : KeyAlive p m) (hm : Step p m p') :
    ExpiresInTime p'.shared.store := by
  cases step_store hp hm with
  | same hk hs =>
    rw [hs]
    exact h
  | tick dt hk hs =>
    rw [hs]
    exact h.tick dt
  | opened key value hk hs =>
    rw [hs]
    exact h.set_ex key value
  | kept key value hk hs =>
    rw [hs]
    exact h.set_keepttl (hc key hk) value

/-- As long as no decision writes to a key that vanished after it was read, every record expires
in time; the first one that does leaves a record that never expires. -/
theorem expires_iff_key_alive :
    (∀ p : StorePool W, Reachable KeyAlive p → ExpiresInTime p.shared.store) ∧
      ∀ (p p' : StorePool W) (m : Move (storeSystem W)), Reachable (fun _ _ => True) p →
        Step p m p' → ¬ KeyAlive p m → ¬ ExpiresInTime p'.shared.store := by
  constructor
  · intro p hp
    induction hp with
    | start s hs =>
      obtain ⟨clock, rfl⟩ := hs
      intro key e he
      cases he
    | step hp hc hm ih => exact expires_step (reachable_ttlOk hp) ih hc hm
  · intro p p' m hp hm hdead
    simp only [KeyAlive, not_forall] at hdead
    obtain ⟨key, hkey, hnone⟩ := hdead
    cases step_store (reachable_ttlOk hp) hm with
    | same hk hs => rw [hk] at hkey; cases hkey
    | tick dt hk hs => rw [hk] at hkey; cases hkey
    | opened key' value hk hs => rw [hk] at hkey; cases hkey
    | kept key' value hk hs =>
      rw [hk] at hkey
      obtain rfl := Option.some.inj hkey
      rw [hs]
      exact not_expires_of_dead_key (by simpa using hnone) value

/-- A world that takes every row. -/
def openWorld : World := ⟨shippedData, fun _ => true⟩

def restartArguments : List (Str × Json) :=
  [(lit "namespace", .str (lit "prod-payments")), (lit "deployment", .str (lit "api"))]

/-- An approval is opened and read by a callback. -/
def openedAndRead : List (Move (storeSystem openWorld)) :=
  [.arrive 0 (.create (lit "agent01") (lit "sre1") (lit "restart_deployment") restartArguments
      (lit "restart")), .answer 0 (.now zeroMagnitude), .answer 0 (.uuid 1), .answer 0 .plain,
    .arrive 1 (.decide (Uuid.text 1) (lit "approve") (lit "alice")), .answer 1 .plain,
    .answer 1 (.now zeroMagnitude), .answer 1 (.now zeroMagnitude)]

/-- A decision within the time to live. -/
theorem expires_after_decision : ∃ p : StorePool openWorld,
    (p.shared.store.slot (approvalKey (Uuid.text 1))).isSome = true ∧
      ExpiresInTime p.shared.store := by
  have hrun : (runMoves KeyAlive (Pool.empty (.initial 0))
      (openedAndRead ++ [.drift 899, .answer 1 .plain])).map
        (fun p => (p.shared.store.slot (approvalKey (Uuid.text 1))).isSome) = some true := by
    decide +kernel
  obtain ⟨p, hp, halive⟩ := Option.map_eq_some_iff.mp hrun
  exact ⟨p, halive, expires_iff_key_alive.1 p (reachable_of_runMoves (.start _ ⟨0, rfl⟩) hp)⟩

/-- The key expires while its approval is being decided. -/
theorem record_survives_forever : ∃ p : StorePool openWorld, Reachable (fun _ _ => True) p ∧
    (p.shared.store.slot (approvalKey (Uuid.text 1))).map Slot.deadline = some none := by
  have hrun : (runMoves (fun _ _ => True) (Pool.empty (GwState.initial 0))
      (openedAndRead ++ [.drift 900, .answer 1 .plain])).map
        (fun p => (p.shared.store.slot (approvalKey (Uuid.text 1))).map Slot.deadline) =
      some (some none) := by decide +kernel
  obtain ⟨p, hp, hforever⟩ := Option.map_eq_some_iff.mp hrun
  exact ⟨p, reachable_of_runMoves (.start _ ⟨0, rfl⟩) hp, hforever⟩

end ApprovalStore
