import McpControlPlane.Mediation
import McpControlPlane.RequestBody

/-! # Which bodies get a JSON-RPC response

`POST /mcp` from the bytes of the body to the bytes of the response: reading the body, the handler,
and the encoding of what it answers. A body is answered or ends in an exception, and one that
never reaches the policy has touched nothing. -/
namespace RpcErrors

open PyText Binary64 JsonText JsonDict PyJson UuidTime AuditLog ToolPolicy PolicyDecision
open GatewayOps ApprovalStore Gateway GatewaySpecs Interleaving RequestBody

/-! ## From bytes to bytes -/

/-- The encoding of a response, which refuses surrogates and NaN. -/
def send (G : Config) (resp : Response) : Prog gateway Response :=
  if G.limits.response < depth 0 resp.body then .raise .recursion
  else if encodable resp.body then return resp
  else .raise .value

/-- `request.json()` up to the text; where `tooDeep` says so, Python's recursion limit is hit by
the text, or by the request to OPA that is made from it. -/
def readBody (tooDeep : Str → Bool) (body : Bytes) : Option Str :=
  (decodeBody body).filter fun text => !tooDeep text

/-- The handler of a body. Neither a `UnicodeDecodeError` nor a `RecursionError` is a
`JSONDecodeError`. -/
def handleBody (G : Config) (tooDeep : Str → Bool) (agent : Agent) (body : Bytes) :
    Prog gateway Response :=
  match readBody tooDeep body with
  | none => .raise .value
  | some text => mcp G agent text >>= send G

/-- A body in UTF-8 that opens like an object is handled as its text. -/
theorem handleBody_utf8 {G : Config} {tooDeep : Str → Bool} {agent : Agent} {c d : CodePoint}
    {s : Str} {body : Bytes} (hc : 0 < c.val ∧ c.val < 0x80) (hd : 0 < d.val ∧ d.val < 0x80)
    (hbody : utf8Encode (c :: d :: s) = some body) (hdeep : tooDeep (c :: d :: s) = false) :
    handleBody G tooDeep agent body = mcp G agent (c :: d :: s) >>= send G := by
  have hread : readBody tooDeep body = some (c :: d :: s) := by
    rw [readBody, decodeBody_utf8 hc hd hbody]
    simp [hdeep]
  rw [handleBody, hread]

/-! ## What a run is judged by -/

/-- Redis answers, OPA evaluates its rules, PostgreSQL takes every row that it can hold, and the
clock is not at the end of the floats. -/
def Works (W : World) : Entry gateway → Prop
  | ⟨.redisSet _ _ _, res⟩ => res ≠ none
  | ⟨.recordToolCall event, res⟩ => res = none ↔ W.insertable event = false
  | ⟨.postOpa i, some reply⟩ => ∃ others, reply = .response 200 (some (packageDocument W.data i others))
  | ⟨.time, some now⟩ => finiteNum (.float (plusSeconds now approvalTtlSeconds)) = true
  | _ => True

/-- The value can be a part of a response: `json.dumps` gets through it and finds no NaN, and UTF-8
has its characters. -/
def sendable (G : Config) (v : Json) : Bool :=
  encodable v && decide (depth 0 v < G.limits.response)

/-- The value can be a part of a dict that is returned: `jsonable_encoder` gets through it, and what
that leaves of it can be sent. -/
def returnable (G : Config) (v : Json) : Bool :=
  decide (depth 1 (jsonableEncoder v) < G.limits.encoder) && sendable G (jsonableEncoder v)

/-- What the executor answers has a status and can be sent. -/
def Presentable (G : Config) : Outcome → Prop
  | .success result => returnable G result = true
  | .executorError errorType message => errorTypeStatus errorType ≠ none ∧ Scalar message = true
  | .unhandledError message => Scalar message = true

/-- The row can be inserted, the outcome presented, and `asdict` gets through the arguments of a call
that is held. -/
def Harmless (G : Config) (W : World) : Entry gateway → Prop
  | ⟨.recordToolCall event, _⟩ => W.insertable event = true
  | ⟨.runTool _ _, some outcome⟩ => Presentable G outcome
  | ⟨.postOpa i, some reply⟩ => ∀ decision, readReply i.toolName reply = some decision →
      decision.requireApproval = true → G.limits.created (.obj i.args) = false
  | _ => True

def isSuccess : Entry gateway → Bool
  | ⟨.runTool _ _, some (.success _)⟩ => true
  | _ => false

/-- The executor has succeeded. -/
def succeeded (tr : Trace gateway) : Bool := tr.any isSuccess

/-- The `id` can be sent back, in a dict or in a response. -/
def IdFits (G : Config) (dict : Bool) (rpcId : Json) : Prop :=
  if dict then returnable G rpcId = true else sendable G rpcId = true

/-- The handler has answered with a result or an error object. -/
def Speaks (r : Except GwError Response) : Prop :=
  ∃ resp id, r = .ok resp ∧ ((∃ result, resp.body = rpcResult id result) ∨
    ∃ code message data, resp.body = rpcError id code message data)

section Judge

variable {G : Config} {W : World} {rpcId : Json} {ctx : ToolCallContext}

/-- In a run whose services work, there is an answer iff the condition holds and nothing that the
run met spoils it. -/
def Decides (G : Config) (W : World) (fine : Bool → Prop) (r : Except GwError Response)
    (tr : Trace gateway) : Prop :=
  (∀ e ∈ tr, Works W e) → (Speaks r ↔ fine (succeeded tr) ∧ ∀ e ∈ tr, Harmless G W e)

abbrev Always (_ : Trace gateway) (_ : GwOp) : Prop := True

theorem not_speaks_error (e : GwError) : ¬ Speaks (.error e) := by
  rintro ⟨resp, id, h, -⟩
  cases h

/-- A `Char` is no surrogate. -/
@[simp] theorem scalar_lit (s : String) : Scalar (lit s) = true := by
  refine List.all_eq_true.mpr fun c hc => ?_
  obtain ⟨d, -, rfl⟩ := List.mem_map.mp hc
  have hvalid : d.toNat < 0xd800 ∨ 0xdfff < d.toNat ∧ d.toNat < 0x110000 := d.valid
  have hnot : ¬ (0xd800 ≤ (ch d).val ∧ (ch d).val ≤ 0xdfff) := by
    rintro ⟨h₁, h₂⟩
    change 0xd800 ≤ d.toNat at h₁
    change d.toNat ≤ 0xdfff at h₂
    omega
  simp only [CodePoint.isSurrogate, Bool.not_eq_true', Bool.and_eq_false_iff, decide_eq_false_iff_not]
  omega

@[simp] theorem encodable_rpcResult (id result : Json) :
    encodable (rpcResult id result) = (encodable id && encodable result) := by
  simp [rpcResult, encodable, encodableMembers]

@[simp] theorem encodable_intJson (z : ℤ) : encodable (intJson z) = true := by
  rw [intJson]
  split_ifs <;> rfl

@[simp] theorem encodable_rpcError (id : Json) (code : ℤ) (message : Str) (data : Option Json) :
    encodable (rpcError id code message data) =
      (encodable id && (Scalar message && data.all encodable)) := by
  cases data <;> simp [rpcError, encodable, encodableMembers]

theorem speaks_result {id result : Json} {status : ℕ} : Speaks (.ok ⟨status, rpcResult id result⟩) :=
  ⟨_, id, rfl, Or.inl ⟨result, rfl⟩⟩

theorem speaks_error {id : Json} {status : ℕ} {code : ℤ} {message : Str} {data : Option Json} :
    Speaks (.ok ⟨status, rpcError id code message data⟩) :=
  ⟨_, id, rfl, Or.inr ⟨code, message, data, rfl⟩⟩

@[simp] theorem depth_intJson (leaf : ℕ) (z : ℤ) : depth leaf (intJson z) = leaf := by
  rw [intJson]
  split_ifs <;> rfl

theorem jsonableEncoder_rpcResult (id result : Json) :
    jsonableEncoder (rpcResult id result) =
      rpcResult (jsonableEncoder id) (jsonableEncoder result) := by
  have hnone : ∀ k ∈ [lit "jsonrpc", lit "id", lit "result"], (lit "_sa").isPrefixOf k = false := by
    decide
  simp only [List.forall_mem_cons] at hnone
  simp [rpcResult, jsonableEncoder, jsonableMembers, hnone]

/-! ### What is sent -/

/-- `q` performs nothing; it is answered by `resp` where `P` holds, and ends in an exception
otherwise. -/
structure Sends (G : Config) (q : Prog gateway Response) (resp : Response) (P : Prop) : Prop where
  sent : P → q >>= send G = .ret resp
  spoilt : ¬ P → ∃ e, q >>= send G = .raise e

/-- Neither the depth nor a character of the body spoils the response. -/
theorem sends_ret (resp : Response) : Sends G (.ret resp) resp
    (depth 0 resp.body ≤ G.limits.response ∧ encodable resp.body = true) where
  sent h := by
    change send G resp = _
    rw [send, if_neg (by omega), if_pos h.2, pure_eq]
  spoilt h := by
    change ∃ e, send G resp = _
    rw [send]
    split_ifs with hdeep he
    · exact ⟨_, rfl⟩
    · exact absurd ⟨by omega, he⟩ h
    · exact ⟨_, rfl⟩

/-- An error is sent if its `id` can be, and its texts. -/
theorem sends_error {status : ℕ} {code : ℤ} {message : Str} {data : Option Json}
    (hdata : ∀ d ∈ data, depth 0 d ≤ 4) :
    Sends G (.ret ⟨status, rpcError rpcId code message data⟩) ⟨status, rpcError rpcId code message data⟩
      (sendable G rpcId = true ∧ Scalar message = true ∧ data.all encodable = true) := by
  have hroomy := G.limits.roomy.2
  have hiff : (depth 0 (rpcError rpcId code message data) ≤ G.limits.response ∧
      encodable (rpcError rpcId code message data) = true) ↔
        (sendable G rpcId = true ∧ Scalar message = true ∧ data.all encodable = true) := by
    have hdepth : depth 0 (rpcError rpcId code message data) ≤ G.limits.response ↔
        depth 0 rpcId < G.limits.response := by
      cases data with
      | none =>
        simp [rpcError, depth, depthMembers]
        omega
      | some d =>
        have hd := hdata d rfl
        simp [rpcError, depth, depthMembers]
        omega
    rw [hdepth, encodable_rpcError, sendable]
    simp only [Bool.and_eq_true, decide_eq_true_eq]
    tauto
  rw [← hiff]
  exact sends_ret _

/-- A shallow result is sent if the `id` can be, and the result. -/
theorem sends_result {status : ℕ} {result : Json} (hresult : depth 0 result ≤ 6) :
    Sends G (.ret ⟨status, rpcResult rpcId result⟩) ⟨status, rpcResult rpcId result⟩
      (sendable G rpcId = true ∧ encodable result = true) := by
  have hroomy := G.limits.roomy.2
  have hiff : (depth 0 (rpcResult rpcId result) ≤ G.limits.response ∧
      encodable (rpcResult rpcId result) = true) ↔
        (sendable G rpcId = true ∧ encodable result = true) := by
    have hdepth : depth 0 (rpcResult rpcId result) ≤ G.limits.response ↔
        depth 0 rpcId < G.limits.response := by
      simp [rpcResult, depth, depthMembers]
      omega
    rw [hdepth, encodable_rpcResult, sendable]
    simp only [Bool.and_eq_true, decide_eq_true_eq]
    tauto
  rw [← hiff]
  exact sends_ret _

/-- A result in a dict is sent if the `id` and the result can be returned. -/
theorem sends_returned (G : Config) (rpcId result : Json) :
    Sends G (returned G (rpcResult rpcId result))
      ⟨200, rpcResult (jsonableEncoder rpcId) (jsonableEncoder result)⟩
      (returnable G rpcId = true ∧ returnable G result = true) := by
  obtain ⟨hencoder, hresponse⟩ := G.limits.roomy
  rw [returned, jsonableEncoder_rpcResult]
  generalize hi : jsonableEncoder rpcId = id
  generalize hr : jsonableEncoder result = res
  have hwalk : depth 1 (rpcResult id res) ≤ G.limits.encoder ↔
      depth 1 id < G.limits.encoder ∧ depth 1 res < G.limits.encoder := by
    simp [rpcResult, depth, depthMembers]
    omega
  have hdumps : depth 0 (rpcResult id res) ≤ G.limits.response ↔
      depth 0 id < G.limits.response ∧ depth 0 res < G.limits.response := by
    simp [rpcResult, depth, depthMembers]
  have hsent : Sends G (.ret ⟨200, rpcResult id res⟩) ⟨200, rpcResult id res⟩
      (depth 0 (rpcResult id res) ≤ G.limits.response ∧ encodable (rpcResult id res) = true) :=
    sends_ret _
  rw [hdumps, encodable_rpcResult, Bool.and_eq_true] at hsent
  simp only [returnable, sendable, hi, hr, Bool.and_eq_true, decide_eq_true_eq]
  by_cases hdeep : G.limits.encoder < depth 1 (rpcResult id res)
  · rw [if_pos hdeep]
    refine ⟨fun h => ?_, fun _ => ⟨_, rfl⟩⟩
    have := hwalk.mpr ⟨h.1.1, h.2.1⟩
    omega
  · rw [if_neg hdeep]
    have hfits := hwalk.mp (by omega)
    constructor
    · exact fun h => hsent.sent ⟨⟨h.1.2.2, h.2.2.2⟩, h.1.2.1, h.2.2.1⟩
    · exact fun h => hsent.spoilt fun h' =>
        h ⟨⟨hfits.1, h'.2.1, h'.1.1⟩, hfits.2, h'.2.2, h'.1.2⟩

/-- What is sent speaks iff the condition holds. -/
theorem Sends.sat {fine : Bool → Prop} {q : Prog gateway Response} {resp : Response} {P : Prop}
    {tr : Trace gateway} (hq : Sends G q resp P) (hspeaks : Speaks (.ok resp))
    (h : (∀ e ∈ tr, Works W e) → (P ↔ fine (succeeded tr) ∧ ∀ e ∈ tr, Harmless G W e)) :
    Sat Always (Decides G W fine) (q >>= send G) tr := by
  by_cases hp : P
  · rw [hq.sent hp]
    exact fun hw => ⟨fun _ => (h hw).mp hp, fun _ => hspeaks⟩
  · obtain ⟨e, he⟩ := hq.spoilt hp
    rw [he]
    exact fun hw => ⟨fun hs => absurd hs (not_speaks_error _), fun hf => absurd ((h hw).mpr hf) hp⟩

/-- A property of all operations, over a trace that ends in the record of an event. -/
theorem forall_recorded {P : Entry gateway → Prop} {event : AuditEvent} {res : Option Unit} {ms : ℤ}
    {now : Magnitude} {tr : Trace gateway} :
    (∀ e ∈ (⟨.recordToolCall event, res⟩ : Entry gateway) :: timedTrace ms now tr, P e) ↔
      P ⟨.recordToolCall event, res⟩ ∧ P ⟨.time, some now⟩ ∧ P ⟨.durationMs, some ms⟩ ∧
        ∀ e ∈ tr, P e := by
  rw [timedTrace, List.forall_mem_cons, List.forall_mem_cons, List.forall_mem_cons]

/-- A property of all operations, over a trace in which an approval was opened and notified. -/
theorem forall_opened {P : Entry gateway → Prop} {key value approvalId : Str} {ttl : Ttl}
    {now : Magnitude} {u : Uuid} {sent set : Option Unit} {tr : Trace gateway} :
    (∀ e ∈ (⟨.sendApprovalRequest approvalId, sent⟩ : Entry gateway) ::
        ⟨.redisSet key value ttl, set⟩ :: namedTrace now u tr, P e) ↔
      P ⟨.sendApprovalRequest approvalId, sent⟩ ∧ P ⟨.redisSet key value ttl, set⟩ ∧
        P ⟨.uuid4, some u⟩ ∧ P ⟨.time, some now⟩ ∧ ∀ e ∈ tr, P e := by
  rw [namedTrace, List.forall_mem_cons, List.forall_mem_cons, List.forall_mem_cons,
    List.forall_mem_cons]

theorem works_recorded {event : AuditEvent} {res : Option Unit} {ms : ℤ} {now : Magnitude}
    {tr : Trace gateway} :
    (∀ e ∈ (⟨.recordToolCall event, res⟩ : Entry gateway) :: timedTrace ms now tr, Works W e) ↔
      (res = none ↔ W.insertable event = false) ∧
        finiteNum (.float (plusSeconds now approvalTtlSeconds)) = true ∧ ∀ e ∈ tr, Works W e := by
  rw [forall_recorded]
  constructor
  · rintro ⟨hevent, htime, _, htr⟩
    exact ⟨hevent, htime, htr⟩
  · rintro ⟨hevent, htime, htr⟩
    exact ⟨hevent, htime, trivial, htr⟩

theorem harmless_recorded {event : AuditEvent} {res : Option Unit} {ms : ℤ} {now : Magnitude}
    {tr : Trace gateway} :
    (∀ e ∈ (⟨.recordToolCall event, res⟩ : Entry gateway) :: timedTrace ms now tr, Harmless G W e) ↔
      W.insertable event = true ∧ ∀ e ∈ tr, Harmless G W e := by
  rw [forall_recorded]
  constructor
  · rintro ⟨hevent, _, _, htr⟩
    exact ⟨hevent, htr⟩
  · rintro ⟨hevent, htr⟩
    exact ⟨hevent, trivial, trivial, htr⟩

theorem succeeded_recorded (event : AuditEvent) (res : Option Unit) (ms : ℤ) (now : Magnitude)
    (tr : Trace gateway) :
    succeeded (⟨.recordToolCall event, res⟩ :: timedTrace ms now tr) = succeeded tr := rfl

/-- Records an event and sends a response. -/
theorem record_send_sat {fine : Bool → Prop} {call : Call} {decision : Str} {reason : Option Str}
    {result : Option Json} {approvalId : Option Str} {q : Prog gateway Response} {resp : Response}
    {P : Prop} {tr : Trace gateway} (hq : Sends G q resp P) (hspeaks : Speaks (.ok resp))
    (h : (∀ e ∈ tr, Works W e) → (P ↔ fine (succeeded tr) ∧ ∀ e ∈ tr, Harmless G W e)) :
    Sat Always (Decides G W fine)
      ((record call decision reason result approvalId >>= fun _ => q) >>= send G) tr := by
  refine sat_bind.mpr (sat_bind.mpr ?_)
  apply record_sat
  · trivial
  · exact fun _ => trivial
  · exact fun _ _ => trivial
  · intro ms now
    refine sat_bind.mp (hq.sat hspeaks fun hw => ?_)
    obtain ⟨hevent, -, hw⟩ := works_recorded.mp hw
    rw [h hw, succeeded_recorded, harmless_recorded]
    simp only [reduceCtorEq, false_iff, Bool.not_eq_false] at hevent
    simp [hevent]
  · intro ms now hw
    obtain ⟨hevent, -, hw⟩ := works_recorded.mp hw
    rw [harmless_recorded]
    have hevent : W.insertable _ = false := hevent.mp rfl
    exact ⟨fun hs => absurd hs (not_speaks_error _), fun hf => by simp [hevent] at hf⟩

theorem scalar_errorType {errorType : Str} {status : ℕ} (h : errorTypeStatus errorType = some status) :
    Scalar errorType = true := by
  obtain ⟨e, he, -⟩ := Option.map_eq_some_iff.mp h
  have hmem := List.mem_of_find?_eq_some he
  have heq : e.1 = errorType := by simpa using List.find?_some he
  subst heq
  simp only [List.mem_cons, List.not_mem_nil, or_false] at hmem
  rcases hmem with rfl | rfl | rfl | rfl | rfl <;> exact scalar_lit _

theorem encodable_executorErrorData (message errorType : Str) :
    encodable (executorErrorData message errorType) = (Scalar message && Scalar errorType) := by
  simp [executorErrorData, encodable, encodableMembers]

theorem depth_executorErrorData (message errorType : Str) :
    depth 0 (executorErrorData message errorType) ≤ 4 := by
  simp [executorErrorData, depth, depthMembers]

/-- The condition on the `id` of a call that is judged. -/
abbrev Answerable (G : Config) (rpcId : Json) (success : Bool) : Prop := IdFits G success rpcId

theorem executeDirectly_speaks {decision : Decision} {tr : Trace gateway}
    (hnone : succeeded tr = false) (htr : ∀ e ∈ tr, Harmless G W e) :
    Sat Always (Decides G W (Answerable G rpcId)) (executeDirectly G rpcId ctx decision >>= send G)
      tr := by
  refine sat_bind.mpr (sat_perform.mpr ⟨trivial, fun outcome => ?_, nofun⟩)
  have hran : (∀ e ∈ ranTrace ctx.toolName ctx.arguments outcome tr, Harmless G W e) ↔
      Presentable G outcome := by
    rw [ranTrace, List.forall_mem_cons]
    exact and_iff_left htr
  have hsuccess : succeeded (ranTrace ctx.toolName ctx.arguments outcome tr) =
      isSuccess ⟨.runTool ctx.toolName ctx.arguments, some outcome⟩ := by
    change (_ || succeeded tr) = _
    rw [hnone, Bool.or_false]
  cases outcome with
  | executorError errorType message =>
    cases hstatus : errorTypeStatus errorType with
    | none =>
      simp only [hstatus]
      refine fun hw => ⟨fun hs => absurd hs (not_speaks_error _), fun hf => ?_⟩
      exact absurd hstatus (hran.mp hf.2).1
    | some status =>
      simp only [hstatus]
      refine sat_bind.mp (record_send_sat (sends_error ?_) speaks_error fun hw => ?_)
      · rintro d ⟨⟩
        exact depth_executorErrorData _ _
      · change _ ↔ Answerable G rpcId (succeeded (ranTrace ctx.toolName ctx.arguments _ tr)) ∧
          ∀ e ∈ ranTrace ctx.toolName ctx.arguments _ tr, Harmless G W e
        rw [hran, hsuccess]
        simp [IdFits, isSuccess, encodable_executorErrorData, scalar_errorType hstatus,
          scalar_append, Presentable, hstatus]
  | unhandledError message =>
    refine sat_bind.mp (record_send_sat (sends_error ?_) speaks_error fun hw => ?_)
    · rintro d ⟨⟩
      exact depth_executorErrorData _ _
    · change _ ↔ Answerable G rpcId (succeeded (ranTrace ctx.toolName ctx.arguments _ tr)) ∧
        ∀ e ∈ ranTrace ctx.toolName ctx.arguments _ tr, Harmless G W e
      rw [hran, hsuccess]
      simp [IdFits, isSuccess, encodable_executorErrorData, Presentable]
  | success result =>
    refine sat_bind.mp (record_send_sat (sends_returned G _ _) speaks_result fun hw => ?_)
    change _ ↔ Answerable G rpcId (succeeded (ranTrace ctx.toolName ctx.arguments _ tr)) ∧
      ∀ e ∈ ranTrace ctx.toolName ctx.arguments _ tr, Harmless G W e
    rw [hran, hsuccess]
    simp [IdFits, isSuccess, Presentable]

theorem refuse_speaks {decision : Decision} {tr : Trace gateway} (hnone : succeeded tr = false)
    (hreason : Scalar decision.reason = true) (htr : ∀ e ∈ tr, Harmless G W e) :
    Sat Always (Decides G W (Answerable G rpcId)) (refuse rpcId ctx decision >>= send G) tr := by
  refine record_send_sat (sends_error ?_) speaks_error fun hw => ?_
  · rintro d ⟨⟩
    simp [depth, depthMembers]
  · rw [and_iff_left htr, hnone]
    simp [IdFits, encodable, encodableMembers, hreason]

theorem encodable_heldResult (a : Approval) :
    encodable (heldResult a) = (Scalar a.id && finiteNum (.float a.expiresAt)) := by
  cases hid : Scalar a.id <;> simp [heldResult, encodable, encodableItems, encodableMembers,
    jsonFloat, pollUrl, scalar_append, hid]

theorem depth_heldResult (a : Approval) : depth 0 (heldResult a) ≤ 6 := by
  simp [heldResult, depth, depthItems, depthMembers, jsonFloat]

theorem encodable_held {agentId role toolName : Str} {arguments : List (Str × Json)} {reason : Str}
    {now : Magnitude} (u : Uuid)
    (hclock : finiteNum (.float (plusSeconds now approvalTtlSeconds)) = true) :
    encodable (heldResult (openedApproval agentId role toolName arguments reason now u)) = true := by
  have hid : Scalar (openedApproval agentId role toolName arguments reason now u).id = true := by
    rw [openedApproval]
    exact uuid_text_scalar u
  have htime : finiteNum (.float
      (openedApproval agentId role toolName arguments reason now u).expiresAt) = true := by
    rw [openedApproval]
    exact hclock
  rw [encodable_heldResult, hid, htime, Bool.and_true]

/-- A call that is held is answered iff its `id` can be sent and its arguments copied. -/
theorem holdForApproval_speaks {decision : Decision} {tr : Trace gateway}
    (hnone : succeeded tr = false)
    (htr : (∀ e ∈ tr, Harmless G W e) ↔ G.limits.created (.obj ctx.arguments) = false) :
    Sat Always (Decides G W (Answerable G rpcId)) (holdForApproval G rpcId ctx decision >>= send G)
      tr := by
  refine sat_bind.mpr (sat_bind.mpr ?_)
  apply createPendingApproval_sat
  · trivial
  · exact fun _ => trivial
  · intro hdeep now u _
    refine ⟨fun hs => absurd hs (not_speaks_error _), fun hf => ?_⟩
    have hcopied := htr.mp fun e he => hf.2 e (List.mem_cons_of_mem _ (List.mem_cons_of_mem _ he))
    rw [hdeep] at hcopied
    cases hcopied
  · exact fun _ _ => trivial
  · intro hcopied now u
    change Sat Always _ _ _
    refine sat_perform.mpr ⟨trivial, fun _ => ?_, nofun⟩
    refine sat_bind.mp (record_send_sat (sends_result (depth_heldResult _)) speaks_result
      fun hw => ?_)
    obtain ⟨-, -, -, hclock, -⟩ := forall_opened.mp hw
    change _ ↔ Answerable G rpcId (succeeded tr) ∧ _
    rw [encodable_held u hclock, forall_opened, hnone]
    exact ⟨fun h => ⟨h.1, trivial, trivial, trivial, trivial, htr.mpr hcopied⟩, fun h => ⟨h.1, rfl⟩⟩
  · intro now u hw
    exact absurd rfl (hw _ List.mem_cons_self)

theorem scalar_reasonOf {toolName : Str} (hname : Scalar toolName = true)
    (allow requireApproval : Bool) : Scalar (reasonOf toolName allow requireApproval) = true := by
  rw [reasonOf]
  split_ifs
  · simp [scalar_append, hname]
  · exact scalar_lit _
  · exact scalar_lit _

theorem decisionOf_reason {toolName : Str} {json : Json} {decision : Decision}
    (hname : Scalar toolName = true) (h : decisionOf toolName json = some decision) :
    Scalar decision.reason = true := by
  unfold decisionOf at h
  split at h
  · split at h
    · obtain rfl := Option.some.inj h
      exact scalar_reasonOf hname _ _
    · cases h
  · cases h

theorem readReply_reason {toolName : Str} {reply : OpaReply} {decision : Decision}
    (hname : Scalar toolName = true) (h : readReply toolName reply = some decision) :
    Scalar decision.reason = true := by
  unfold readReply at h
  split at h
  · obtain rfl := Option.some.inj h
    exact scalar_lit _
  · split_ifs at h
    · split at h
      · obtain rfl := Option.some.inj h
        exact scalar_lit _
      · exact decisionOf_reason hname h
    · obtain rfl := Option.some.inj h
      exact scalar_lit _

/-- A call that reaches the policy is answered iff its `id` can be sent and the run is harmless. -/
theorem judge_speaks {i : OpaInput} (hi : ctx.toOpaInput = some i)
    (hname : Scalar ctx.toolName = true) :
    Sat Always (Decides G W (Answerable G rpcId)) (judge G rpcId ctx >>= send G) [] := by
  refine sat_bind.mpr (sat_bind.mpr ?_)
  rw [Gateway.evaluatePolicy, hi]
  by_cases he : encodable (opaRequest i) = true
  · simp only [he, if_true]
    refine sat_perform.mpr ⟨trivial, fun reply => ?_, fun _ hopen => by cases hopen⟩
    have hasked : i.toolName = ctx.toolName ∧ i.args = ctx.arguments := by
      obtain ⟨env, -, rfl⟩ := Option.map_eq_some_iff.mp hi
      exact ⟨rfl, rfl⟩
    cases hr : readReply ctx.toolName reply with
    | none =>
      intro hw
      obtain ⟨others, rfl⟩ := hw _ (List.mem_singleton.mpr rfl)
      have hread : readReply ctx.toolName (.response 200 (some (packageDocument W.data i others))) =
          decisionOf ctx.toolName (packageDocument W.data i others) := rfl
      rw [hread, decisionOf_packageDocument] at hr
      cases hr
    | some decision =>
      have htr : (∀ e ∈ [(⟨.postOpa i, some reply⟩ : Entry gateway)], Harmless G W e) ↔
          (decision.requireApproval = true → G.limits.created (.obj ctx.arguments) = false) := by
        rw [List.forall_mem_singleton]
        simp [Harmless, hasked.1, hasked.2, hr]
      change Sat Always _ (if decision.requireApproval then _ else _) _
      split_ifs with hheld hallow
      · exact sat_bind.mp (holdForApproval_speaks rfl (by simpa [hheld] using htr))
      · exact sat_bind.mp (executeDirectly_speaks rfl (htr.mpr fun h => absurd h hheld))
      · exact sat_bind.mp (refuse_speaks rfl (readReply_reason hname hr)
          (htr.mpr fun h => absurd h hheld))
  · simp only [he, if_false, Bool.false_eq_true]
    exact sat_bind.mp (refuse_speaks rfl (scalar_lit _) (List.forall_mem_nil _))

end Judge

/-! ## Bodies that are fit for an answer -/

def isContainer : Json → Bool
  | .arr _ => true
  | .obj _ => true
  | _ => false

/-- `body.get("params") or {}`. -/
def paramsOf (kvs : List (Str × Json)) : Json :=
  if truthy (get kvs "params") then get kvs "params" else .obj []

/-- The namespace is falsy or a text, a name that is no text can be looked up in a dict, and what
the refusal quotes can be sent. -/
def CallAcceptable (G : Config) (agent : Agent) (params : List (Str × Json)) : Prop :=
  match interceptToolCall params agent with
  | .error (.missingParam _ _) => True
  | .error (.noToolName name arguments) =>
    inferEnvironment arguments ≠ none ∧ isContainer name = false ∧ Scalar (G.str name) = true
  | .ok ctx =>
    inferEnvironment ctx.arguments ≠ none ∧ (ctx.toolName ∉ tools → Scalar ctx.toolName = true) ∧
      (ctx.toolName ∈ tools → ctx.toolName ∉ agent.allowedTools → Scalar agent.id = true)

/-- A `tools/call` has an object for its parameters, and an unknown method can be quoted. -/
def MethodAcceptable (G : Config) (agent : Agent) (kvs : List (Str × Json)) : Prop :=
  if ¬ truthy (get kvs "method") then True
  else if isText (get kvs "method") (lit "tools/list") then True
  else if isText (get kvs "method") (lit "tools/call") then
    ∃ params, paramsOf kvs = .obj params ∧ CallAcceptable G agent params
  else Scalar (G.str (get kvs "method")) = true

/-- The `id` is returned in a dict with the list of tools, or where the executor succeeds. -/
def TextAcceptable (G : Config) (agent : Agent) (text : Str) (success : Bool) : Prop :=
  match loads text with
  | .error .decode => True
  | .error .value => False
  | .ok (.obj kvs) =>
    IdFits G (isText (get kvs "method") (lit "tools/list") || success) (get kvs "id") ∧
      MethodAcceptable G agent kvs
  | .ok _ => True

/-- The bytes can be decoded and read, and the text is acceptable. -/
def Acceptable (G : Config) (tooDeep : Str → Bool) (agent : Agent) (body : Bytes) (success : Bool) :
    Prop :=
  ∃ text, readBody tooDeep body = some text ∧ TextAcceptable G agent text success

/-- The body is a call that is put before the policy. -/
def Reaches (tooDeep : Str → Bool) (agent : Agent) (body : Bytes) : Prop :=
  ∃ text kvs params ctx, readBody tooDeep body = some text ∧ loads text = .ok (.obj kvs) ∧
    isText (get kvs "method") (lit "tools/call") = true ∧ paramsOf kvs = .obj params ∧
    interceptToolCall params agent = .ok ctx ∧ inferEnvironment ctx.arguments ≠ none ∧
    ctx.toolName ∈ tools ∧ ctx.toolName ∈ agent.allowedTools

def refusalCodes : List ℤ := [-32700, -32600, -32601, -32602, -32003]

/-- The list of tools, or an error with a code for refused requests. -/
def Refusal (agent : Agent) (resp : Response) : Prop :=
  (∃ id, resp = ⟨200, toolsList agent id⟩) ∨
    ∃ id code message data, resp.body = rpcError id code message data ∧ code ∈ refusalCodes

/-- No operation was performed. -/
def Untouched (agent : Agent) (r : Except GwError Response) (tr : Trace gateway) : Prop :=
  tr = [] ∧ ∀ resp, r = .ok resp → Refusal agent resp

/-- The claim about one run: an answer, and nothing touched before the policy. -/
structure Answered (tooDeep : Str → Bool) (agent : Agent) (body : Bytes)
    (r : Except GwError Response) (tr : Trace gateway) : Prop where
  speaks : Speaks r
  untouched : ¬ Reaches tooDeep agent body → Untouched agent r tr

section Front

variable {W : World} {G : Config} {agent : Agent} {reaches : Prop} {fine : Bool → Prop}
variable {rpcId : Json}

def Settles (G : Config) (W : World) (agent : Agent) (reaches : Prop) (fine : Bool → Prop)
    (r : Except GwError Response) (tr : Trace gateway) : Prop :=
  Decides G W fine r tr ∧ (¬ reaches → Untouched agent r tr)

theorem raised (e : GwError) (h : ¬ fine false) : Settles G W agent reaches fine (.error e) [] :=
  ⟨fun _ => ⟨fun hs => absurd hs (not_speaks_error e), fun hf => absurd hf.1 h⟩,
    fun _ => ⟨rfl, nofun⟩⟩

theorem answered {q : Prog gateway Response} {resp : Response} {P : Prop} (hq : Sends G q resp P)
    (hspeaks : Speaks (.ok resp)) (hrefusal : Refusal agent resp) (h : P ↔ fine false) :
    Sat Always (Settles G W agent reaches fine) (q >>= send G) [] := by
  have hquiet : ∀ e ∈ ([] : Trace gateway), Harmless G W e := nofun
  by_cases hp : P
  · rw [hq.sent hp]
    refine ⟨fun _ => ⟨fun _ => ⟨h.mp hp, hquiet⟩, fun _ => hspeaks⟩, fun _ => ⟨rfl, ?_⟩⟩
    rintro resp' ⟨⟩
    exact hrefusal
  · obtain ⟨e, he⟩ := hq.spoilt hp
    rw [he]
    exact raised _ fun hf => hp (h.mpr hf)

/-- An error that the gateway itself reports. -/
theorem answered_error {id : Json} {status : ℕ} {code : ℤ} {message : Str} {data : Option Json}
    (hcode : code ∈ refusalCodes) (hdata : ∀ d ∈ data, depth 0 d ≤ 4)
    (h : (sendable G id = true ∧ Scalar message = true ∧ data.all encodable = true) ↔ fine false) :
    Sat Always (Settles G W agent reaches fine)
      (.ret ⟨status, rpcError id code message data⟩ >>= send G) [] :=
  answered (sends_error hdata) speaks_error (Or.inr ⟨id, code, message, data, rfl, hcode⟩) h

theorem sendable_null (G : Config) : sendable G .null = true := by
  have hroomy := G.limits.roomy.2
  rw [sendable, Bool.and_eq_true, decide_eq_true_eq]
  exact ⟨rfl, lt_of_lt_of_le (by decide) hroomy⟩

/-- An error for a body of the wrong shape, about no `id`. -/
theorem answered_shape {status : ℕ} {code : ℤ} {message : Str} (hcode : code ∈ refusalCodes)
    (hmessage : Scalar message = true) (h : fine false) :
    Sat Always (Settles G W agent reaches fine)
      (.ret ⟨status, rpcError .null code message none⟩ >>= send G) [] :=
  answered_error hcode nofun ⟨fun _ => h, fun _ => ⟨sendable_null G, hmessage, rfl⟩⟩

theorem interceptToolCall_missing {params : List (Str × Json)} {field message : Str}
    (h : interceptToolCall params agent = .error (.missingParam field message)) :
    Scalar field = true ∧ Scalar message = true := by
  unfold interceptToolCall at h
  simp only at h
  split at h
  · cases h
    exact ⟨scalar_lit _, scalar_lit _⟩
  · split at h
    all_goals
      cases h
      try exact ⟨scalar_lit _, scalar_lit _⟩

theorem answered_invalidParams {field error : Str}
    (h : (sendable G rpcId = true ∧ Scalar field = true ∧ Scalar error = true) ↔ fine false) :
    Sat Always (Settles G W agent reaches fine)
      (.ret (invalidParams rpcId field error) >>= send G) [] := by
  refine answered_error (by decide) ?_ ?_
  · rintro d ⟨⟩
    simp [depth, depthMembers]
  · rw [← h]
    simp [encodable, encodableMembers]

theorem answered_unknownTool {name : Str}
    (h : (sendable G rpcId = true ∧ Scalar name = true) ↔ fine false) :
    Sat Always (Settles G W agent reaches fine) (.ret (unknownTool rpcId name) >>= send G) [] :=
  answered_invalidParams (by simpa [scalar_append] using h)

theorem answered_forbidden {toolName : Str} (hname : Scalar toolName = true)
    (h : (sendable G rpcId = true ∧ Scalar agent.id = true) ↔ fine false) :
    Sat Always (Settles G W agent reaches fine)
      (.ret (forbidden rpcId agent toolName) >>= send G) [] := by
  refine answered_error (by decide) ?_ ?_
  · rintro d ⟨⟩
    simp [depth, depthMembers]
  · rw [← h]
    simp [encodable, encodableMembers, scalar_append, hname]

theorem scalar_tools {name : Str} (h : name ∈ tools) : Scalar name = true := by
  have hall : ∀ name ∈ tools, Scalar name = true := by decide
  exact hall name h

/-- A call is put before the policy only if it is acceptable. -/
theorem judged {ctx : ToolCallContext} {i : OpaInput} {acceptable : Prop}
    (hi : ctx.toOpaInput = some i) (htool : ctx.toolName ∈ tools) (hfine : acceptable)
    (hreaches : reaches) :
    Sat Always (Settles G W agent reaches fun success => IdFits G success rpcId ∧ acceptable)
      (judge G rpcId ctx >>= send G) [] := by
  have hspeaks : Sat Always (Decides G W (Answerable G rpcId)) (judge G rpcId ctx >>= send G) [] :=
    judge_speaks hi (scalar_tools htool)
  refine hspeaks.mono fun r tr h => ⟨fun hw => ?_, absurd hreaches⟩
  rw [h hw]
  exact ⟨fun hf => ⟨⟨hf.1, hfine⟩, hf.2⟩, fun hf => ⟨hf.1.1, hf.2⟩⟩

theorem toolsCall_settles {params : List (Str × Json)}
    (hreaches : ∀ ctx, interceptToolCall params agent = .ok ctx →
      inferEnvironment ctx.arguments ≠ none → ctx.toolName ∈ tools →
      ctx.toolName ∈ agent.allowedTools → reaches) :
    Sat Always (Settles G W agent reaches fun success =>
        IdFits G success rpcId ∧ CallAcceptable G agent params)
      (toolsCall G agent rpcId params >>= send G) [] := by
  unfold toolsCall
  cases hctx : interceptToolCall params agent with
  | error err =>
    cases err with
    | missingParam field message =>
      obtain ⟨hfield, hmessage⟩ := interceptToolCall_missing hctx
      refine answered_invalidParams ?_
      simp [IdFits, CallAcceptable, hctx, hfield, hmessage]
    | noToolName name arguments =>
      simp only
      cases henv : inferEnvironment arguments with
      | none =>
        have hnot : ¬ (IdFits G false rpcId ∧ CallAcceptable G agent params) := by
          simp [CallAcceptable, hctx, henv]
        exact raised _ hnot
      | some env =>
        have hnot : isContainer name = true →
            ¬ (IdFits G false rpcId ∧ CallAcceptable G agent params) := fun hname => by
          simp [CallAcceptable, hctx, hname]
        have hquoted : isContainer name = false →
            ((sendable G rpcId = true ∧ Scalar (G.str name) = true) ↔
              IdFits G false rpcId ∧ CallAcceptable G agent params) := fun hname => by
          simp [IdFits, CallAcceptable, hctx, henv, hname]
        cases name with
        | arr xs => exact raised _ (hnot rfl)
        | obj kvs => exact raised _ (hnot rfl)
        | null => exact answered_unknownTool (hquoted rfl)
        | bool b => exact answered_unknownTool (hquoted rfl)
        | num x => exact answered_unknownTool (hquoted rfl)
        | str s => exact answered_unknownTool (hquoted rfl)
  | ok ctx =>
    simp only
    cases henv : inferEnvironment ctx.arguments with
    | none =>
      have hnot : ¬ (IdFits G false rpcId ∧ CallAcceptable G agent params) := by
        simp [CallAcceptable, hctx, henv]
      exact raised _ hnot
    | some env =>
      have hsome : inferEnvironment ctx.arguments ≠ none := by simp [henv]
      simp only
      split_ifs with htool hagent
      · refine judged (by rw [ToolCallContext.toOpaInput, henv]; rfl) htool ?_
          (hreaches ctx hctx hsome htool hagent)
        simp [CallAcceptable, hctx, henv, htool, hagent]
      · refine answered_forbidden (scalar_tools htool) ?_
        simp [IdFits, CallAcceptable, hctx, henv, htool, hagent]
      · refine answered_unknownTool ?_
        simp [IdFits, CallAcceptable, hctx, henv, htool]

theorem encodable_names {names : List Str} (h : ∀ name ∈ names, Scalar name = true) :
    encodableItems (names.map fun name => .obj [(lit "name", .str name)]) = true := by
  induction names with
  | nil => rfl
  | cons name names ih =>
    rw [List.map_cons, encodableItems, ih fun n hn => h n (List.mem_cons_of_mem _ hn)]
    simp [encodable, encodableMembers, h name List.mem_cons_self]

/-- The names are nested two levels deep, and keep their key. -/
theorem jsonable_names (leaf : ℕ) (names : List Str) :
    jsonableItems (names.map fun name => .obj [(lit "name", .str name)]) =
        names.map (fun name => .obj [(lit "name", .str name)]) ∧
      depthItems leaf (names.map fun name => .obj [(lit "name", .str name)]) ≤ leaf + 1 := by
  induction names with
  | nil => exact ⟨rfl, Nat.zero_le _⟩
  | cons name names ih =>
    have hkey : (lit "_sa").isPrefixOf (lit "name") = false := by decide
    refine ⟨?_, ?_⟩
    · rw [List.map_cons, jsonableItems, ih.1]
      simp [jsonableEncoder, jsonableMembers, hkey]
    · rw [List.map_cons, depthItems]
      refine max_le ?_ ih.2
      simp [depth, depthMembers]

/-- The tools of an agent, as the result of `tools/list`. -/
def toolsResult (agent : Agent) : Json :=
  .obj [(lit "tools", .arr ((tools.filter fun name => agent.allowedTools.contains name).map
    fun name => .obj [(lit "name", .str name)]))]

theorem jsonableEncoder_toolsResult (agent : Agent) :
    jsonableEncoder (toolsResult agent) = toolsResult agent := by
  have hkey : (lit "_sa").isPrefixOf (lit "tools") = false := by decide
  simp only [toolsResult, jsonableEncoder, jsonableMembers, hkey, Bool.false_eq_true, if_false,
    (jsonable_names 0 _).1]

theorem returnable_toolsResult (G : Config) (agent : Agent) :
    returnable G (toolsResult agent) = true := by
  obtain ⟨hencoder, hresponse⟩ := G.limits.roomy
  have hnames : encodableItems ((tools.filter fun name => agent.allowedTools.contains name).map
      fun name => .obj [(lit "name", .str name)]) = true :=
    encodable_names fun name hname => scalar_tools (List.mem_filter.mp hname).1
  have hdepth : ∀ leaf, depth leaf (toolsResult agent) ≤ leaf + 3 := fun leaf => by
    have hle := (jsonable_names leaf (tools.filter fun name => agent.allowedTools.contains name)).2
    simp only [toolsResult, depth, depthMembers]
    omega
  have h₀ := hdepth 0
  have h₁ := hdepth 1
  rw [returnable, sendable, jsonableEncoder_toolsResult]
  simp only [Bool.and_eq_true, decide_eq_true_eq]
  refine ⟨by omega, ?_, by omega⟩
  simp only [toolsResult, encodable, encodableMembers, hnames, scalar_lit, Bool.and_true]

theorem answered_toolsList (h : returnable G rpcId = true ↔ fine false) :
    Sat Always (Settles G W agent reaches fine) (returned G (toolsList agent rpcId) >>= send G)
      [] := by
  refine answered (sends_returned G rpcId (toolsResult agent)) speaks_result (Or.inl ?_) ?_
  · exact ⟨jsonableEncoder rpcId, by rw [jsonableEncoder_toolsResult]; rfl⟩
  · rw [← h, and_iff_left (returnable_toolsResult G agent)]

theorem mcp_settles {text : Str}
    (hreaches : ∀ kvs params ctx, loads text = .ok (.obj kvs) →
      isText (get kvs "method") (lit "tools/call") = true → paramsOf kvs = .obj params →
      interceptToolCall params agent = .ok ctx → inferEnvironment ctx.arguments ≠ none →
      ctx.toolName ∈ tools → ctx.toolName ∈ agent.allowedTools → reaches) :
    Sat Always (Settles G W agent reaches (TextAcceptable G agent text))
      (mcp G agent text >>= send G) [] := by
  unfold mcp
  cases hl : loads text with
  | error e =>
    cases e with
    | decode =>
      have hfine : TextAcceptable G agent text false := by rw [TextAcceptable, hl]; trivial
      refine answered_shape ?_ ?_ hfine
      · decide
      · exact scalar_lit _
    | value =>
      have hnot : ¬ TextAcceptable G agent text false := by rw [TextAcceptable, hl]; exact id
      exact raised _ hnot
  | ok v =>
    cases v with
    | obj kvs =>
      have hfine : TextAcceptable G agent text = fun success =>
          IdFits G (isText (get kvs "method") (lit "tools/list") || success) (get kvs "id") ∧
            MethodAcceptable G agent kvs := by
        funext success
        rw [TextAcceptable, hl]
      rw [hfine]
      simp only
      by_cases hmethod : truthy (get kvs "method") = true
      · by_cases hlist : isText (get kvs "method") (lit "tools/list") = true
        · simp only [hmethod, hlist, not_true_eq_false, if_false, if_true]
          refine answered_toolsList ?_
          simp [IdFits, MethodAcceptable, hmethod, hlist]
        by_cases hcall : isText (get kvs "method") (lit "tools/call") = true
        · simp only [hmethod, hlist, hcall, not_true_eq_false, if_false, if_true,
            Bool.false_eq_true, Bool.false_or]
          have hnot : (∀ params, paramsOf kvs ≠ .obj params) →
              ¬ (IdFits G false (get kvs "id") ∧ MethodAcceptable G agent kvs) := fun hp => by
            simp [MethodAcceptable, hmethod, hlist, hcall, hp]
          rw [← paramsOf]
          cases hparams : paramsOf kvs with
          | obj params =>
            have hcallee : MethodAcceptable G agent kvs ↔ CallAcceptable G agent params := by
              simp [MethodAcceptable, hmethod, hlist, hcall, hparams]
            rw [hcallee]
            exact toolsCall_settles fun ctx => hreaches kvs params ctx hl hcall hparams
          | _ => exact raised _ (hnot (by simp [hparams]))
        · simp only [hmethod, hlist, hcall, not_true_eq_false, if_false, Bool.false_eq_true,
            Bool.false_or]
          refine answered_error (by decide) nofun ?_
          simp [IdFits, MethodAcceptable, hmethod, hlist, hcall, scalar_append]
      · have hlist : isText (get kvs "method") (lit "tools/list") = false := by
          cases hmethod' : get kvs "method" with
          | str s => simp [isText, hmethod', truthy] at hmethod ⊢; simp [hmethod, lit]
          | _ => rfl
        simp only [hmethod, hlist, not_false_eq_true, if_true, Bool.false_eq_true, Bool.false_or]
        refine answered_error (by decide) nofun ?_
        simp [IdFits, MethodAcceptable, hmethod]
    | _ =>
      have hfine : TextAcceptable G agent text false := by rw [TextAcceptable, hl]; trivial
      refine answered_shape ?_ ?_ hfine
      · decide
      · exact scalar_lit _

end Front

/-- A body gets its response iff it is acceptable and nothing that the run met spoils it: every
row can be inserted, every outcome presented. -/
theorem mcp_answers_iff (W : World) (G : Config) (tooDeep : Str → Bool) (agent : Agent)
    (body : Bytes) :
    Sat Always (fun r tr => (∀ e ∈ tr, Works W e) →
      (Answered tooDeep agent body r tr ↔
        Acceptable G tooDeep agent body (succeeded tr) ∧ ∀ e ∈ tr, Harmless G W e))
      (handleBody G tooDeep agent body) [] := by
  have hsettles : Sat Always (Settles G W agent (Reaches tooDeep agent body)
      (Acceptable G tooDeep agent body)) (handleBody G tooDeep agent body) [] := by
    rw [handleBody]
    cases hread : readBody tooDeep body with
    | none => exact raised _ fun ⟨text, htext, _⟩ => by simp [hread] at htext
    | some text =>
      have hfine : Acceptable G tooDeep agent body = TextAcceptable G agent text := by
        funext success
        simp [Acceptable, hread]
      rw [hfine]
      exact mcp_settles fun kvs params ctx hl hcall hparams hctx henv htool hagent =>
        ⟨text, kvs, params, ctx, hread, hl, hcall, hparams, hctx, henv, htool, hagent⟩
  refine hsettles.mono fun r tr h hw => ?_
  rw [← h.1 hw]
  exact ⟨fun ha => ha.speaks, fun hs => ⟨hs, h.2⟩⟩

/-- The byte `0xff` starts no UTF-8 character. -/
theorem undecodable_body_unanswered :
    ¬ Sat Always (fun r tr => (∀ e ∈ tr, Works openWorld e) →
        Answered (fun _ => false) Mediation.sre [0xff] r tr)
      (handleBody Mediation.demoConfig (fun _ => false) Mediation.sre [0xff]) [] := by
  have hread : readBody (fun _ => false) [0xff] = none := by decide
  rw [handleBody, hread]
  intro h
  exact not_speaks_error _ (h nofun).speaks

end RpcErrors
