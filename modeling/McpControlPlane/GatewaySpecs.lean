import McpControlPlane.Gateway

/-! # What one request does

Each operation of a handler by what the request did before: what it asks of the policy, what it
holds, what it runs, and what it writes to the audit log. -/
namespace GatewaySpecs

open PyText Binary64 JsonText JsonDict PyJson UuidTime AuditLog ToolPolicy PolicyDecision
open GatewayOps ApprovalStore SlackSignature Gateway Interleaving

/-! ## A call under judgement -/

/-- The body is a `tools/call` that the gateway puts before the policy as `i`. -/
structure Requested (agent : Agent) (body : Str) (i : OpaInput) : Prop where
  parsed : ∃ kvs params ctx, loads body = .ok (.obj kvs) ∧
    isText (get kvs "method") (lit "tools/call") = true ∧ get kvs "params" = .obj params ∧
    interceptToolCall params agent = .ok ctx ∧ ctx.toOpaInput = some i
  registered : i.toolName ∈ tools
  listed : i.toolName ∈ agent.allowedTools
  encodes : encodable (opaRequest i) = true

/-- A call with the reply of OPA and what it was taken for. -/
structure Judged (agent : Agent) (body : Str) where
  input : OpaInput
  reply : OpaReply
  decision : Decision
  requested : Requested agent body input
  reads : readReply input.toolName reply = some decision

def Judged.asked {agent : Agent} {body : Str} (J : Judged agent body) : Trace gateway :=
  [⟨.postOpa J.input, some J.reply⟩]

/-- The record that is opened for a call. -/
def Judged.opened {agent : Agent} {body : Str} (J : Judged agent body) (now : Magnitude)
    (u : Uuid) : Approval :=
  openedApproval J.input.agentId J.input.role J.input.toolName J.input.args J.decision.reason now u

/-! ## A decision about to be written -/

/-- What a decide request knows when it writes. -/
structure Ruling (G : Config) (approvalId : Str) (timestamp signature : Option Str)
    (body : Bytes) where
  payload : DecisionRequest
  raw : Str
  approval : Approval
  begun : Magnitude
  now : Magnitude
  decidedAt : Magnitude
  signed : Signed G.slack timestamp body signature
  valid : G.validate body = .ok payload
  verdict : payload.decision = lit "approve" ∨ payload.decision = lit "deny"
  read : readApproval raw = .ok approval
  pending : approval.status = pendingStatus
  inTime : laterThan now approval.expiresAt = false

namespace Ruling

variable {G : Config} {approvalId : Str} {timestamp signature : Option Str} {body : Bytes}

def resolved (R : Ruling G approvalId timestamp signature body) : Approval :=
  R.approval.resolve R.payload.decision R.payload.decidedBy R.decidedAt

def write (R : Ruling G approvalId timestamp signature body) : GwOp :=
  .redisSet (approvalKey approvalId) (dumps R.resolved.json) .keepttl

def before (R : Ruling G approvalId timestamp signature body) : Trace gateway :=
  checkedTrace approvalId R.raw R.now R.decidedAt [⟨.time, some R.begun⟩]

def after (R : Ruling G approvalId timestamp signature body) : Trace gateway :=
  ⟨.redisSet (approvalKey approvalId) (dumps R.resolved.json) .keepttl, some ()⟩ :: R.before

end Ruling

/-! ## The specification -/

/-- An event is about the tool that the request ran. -/
def AboutRun (tr : Trace gateway) (event : AuditEvent) : Prop :=
  ∀ name arguments outcome, (⟨.runTool name arguments, some outcome⟩ : Entry gateway) ∈ tr →
    event.toolName = name ∧ event.arguments = .obj arguments

def McpOk (agent : Agent) (body : Str) (tr : Trace gateway) : GwOp → Prop
  | .postOpa i => tr = [] ∧ Requested agent body i
  | .redisSet key value ttl => ∃ (J : Judged agent body) (now : Magnitude) (u : Uuid),
      tr = namedTrace now u J.asked ∧ J.decision.requireApproval = true ∧
      key = approvalKey u.text ∧ value = dumps (J.opened now u).json ∧ ttl = .ex approvalTtlSeconds
  | .runTool name arguments => ∃ J : Judged agent body, tr = J.asked ∧
      J.decision.requireApproval = false ∧ J.decision.allow = true ∧
      name = J.input.toolName ∧ arguments = J.input.args
  | .recordToolCall event =>
      (event.approvalId.isSome = true → event.decision = pendingLabel) ∧ AboutRun tr event
  | .redisGet _ => False
  | _ => True

def DecideOk (G : Config) (approvalId : Str) (timestamp signature : Option Str) (body : Bytes)
    (tr : Trace gateway) : GwOp → Prop
  | .redisGet key => key = approvalKey approvalId ∧ Signed G.slack timestamp body signature ∧
      ∃ now : Magnitude, tr = [⟨.time, some now⟩]
  | .redisSet key value ttl => ∃ R : Ruling G approvalId timestamp signature body,
      tr = R.before ∧ GwOp.redisSet key value ttl = R.write
  | .runTool name arguments => ∃ R : Ruling G approvalId timestamp signature body,
      tr = R.after ∧ R.payload.decision = lit "approve" ∧
      name = R.approval.toolName ∧ arguments = R.approval.arguments
  | .recordToolCall event => (∃ R : Ruling G approvalId timestamp signature body,
      R.after <:+ tr ∧ event.approvalId = some R.approval.id) ∧ AboutRun tr event
  | .postOpa _ | .uuid4 | .sendApprovalRequest _ => False
  | _ => True

def GwOk (G : Config) : GwReq → Trace gateway → GwOp → Prop
  | .mcp agent body => McpOk agent body
  | .decide approvalId timestamp signature body => DecideOk G approvalId timestamp signature body
  | .status _ => fun _ o => ∃ key, o = .redisGet key

/-- What a request ran is recorded, unless the record fails or the status of an error is
looked up in vain. -/
def Accounted (req : GwReq) (tr : Trace gateway) : Prop :=
  ∀ name arguments outcome, (⟨.runTool name arguments, some outcome⟩ : Entry gateway) ∈ tr →
    (∃ event, (⟨.recordToolCall event, some ()⟩ : Entry gateway) ∈ tr ∧ event.toolName = name ∧
      event.arguments = .obj arguments) ∨
    (∃ event before, tr = ⟨.recordToolCall event, none⟩ :: before) ∨
    ∃ agent body errorType message, req = .mcp agent body ∧
      outcome = .executorError errorType message ∧ errorTypeStatus errorType = none

def verdictStatus (decision : Str) : String :=
  if decision = lit "approve" then "approved" else "denied"

/-- A decide request that is answered with 200 has written its decision. -/
def Answers (G : Config) : GwReq → Except GwError Response → Trace gateway → Prop
  | .decide approvalId timestamp signature body, .ok resp, tr => resp.status = 200 →
      ∃ R : Ruling G approvalId timestamp signature body, R.after <:+ tr ∧
        resp = decided R.approval (verdictStatus R.payload.decision)
  | _, _, _ => True

def GwPost (G : Config) (req : GwReq) (res : Except GwError Response) (tr : Trace gateway) : Prop :=
  Accounted req tr ∧ Answers G req res tr

/-! ## Recording -/

def timedTrace (ms : ℤ) (now : Magnitude) (tr : Trace gateway) : Trace gateway :=
  ⟨.time, some now⟩ :: ⟨.durationMs, some ms⟩ :: tr

theorem record_sat {ok : Trace gateway → GwOp → Prop}
    {post : Except GwError Unit → Trace gateway → Prop}
    {tr : Trace gateway} {call : Call} {decision : Str} {reason : Option Str}
    {result : Option Json} {approvalId : Option Str} (hms : ok tr .durationMs)
    (htime : ∀ ms : ℤ, ok (⟨.durationMs, some ms⟩ :: tr) .time)
    (hrecord : ∀ ms now, ok (timedTrace ms now tr)
      (.recordToolCall (eventOf call decision reason result approvalId ms now)))
    (hdone : ∀ ms now, post (.ok ()) (⟨.recordToolCall
      (eventOf call decision reason result approvalId ms now), some ()⟩ :: timedTrace ms now tr))
    (hfail : ∀ ms now, post (.error .audit) (⟨.recordToolCall
      (eventOf call decision reason result approvalId ms now), none⟩ :: timedTrace ms now tr)) :
    Sat ok post (record call decision reason result approvalId) tr := by
  refine sat_perform.mpr ⟨hms, fun ms => ?_, nofun⟩
  refine sat_perform.mpr ⟨htime ms, fun now => ?_, nofun⟩
  refine sat_call.mpr ⟨hrecord ms now, fun _ => hdone ms now, ?_⟩
  intro e he
  obtain rfl := Option.some.inj he
  exact hfail ms now

/-- Nothing has run. -/
def Idle (tr : Trace gateway) : Prop :=
  ∀ name arguments outcome, (⟨.runTool name arguments, some outcome⟩ : Entry gateway) ∉ tr

/-- The last operation was to run a tool. -/
def ranTrace (toolName : Str) (arguments : List (Str × Json)) (outcome : Outcome)
    (tr : Trace gateway) : Trace gateway := ⟨.runTool toolName arguments, some outcome⟩ :: tr

theorem idle_nil : Idle [] := nofun

theorem Idle.cons {tr : Trace gateway} (h : Idle tr) {e : Entry gateway}
    (he : ∀ name arguments, e.op ≠ .runTool name arguments) : Idle (e :: tr) := by
  intro name arguments outcome hmem
  rcases List.mem_cons.mp hmem with heq | hmem
  · exact he name arguments (congrArg Entry.op heq).symm
  · exact h name arguments outcome hmem

theorem Idle.timed {tr : Trace gateway} (h : Idle tr) (ms : ℤ) (now : Magnitude) :
    Idle (timedTrace ms now tr) := (h.cons (e := ⟨.durationMs, some ms⟩) nofun).cons nofun

theorem Idle.accounted {tr : Trace gateway} (h : Idle tr) (req : GwReq) : Accounted req tr :=
  fun name arguments outcome hmem => absurd hmem (h name arguments outcome)

theorem Idle.aboutRun {tr : Trace gateway} (h : Idle tr) (event : AuditEvent) : AboutRun tr event :=
  fun name arguments outcome hmem => absurd hmem (h name arguments outcome)

/-- What a request has run after its only run. -/
theorem mem_ran {tr : Trace gateway} (h : Idle tr) {name toolName : Str}
    {arguments ran : List (Str × Json)} {outcome result : Outcome}
    (hmem : (⟨.runTool name arguments, some outcome⟩ : Entry gateway) ∈
      ranTrace toolName ran result tr) : name = toolName ∧ arguments = ran ∧ outcome = result := by
  rcases List.mem_cons.mp hmem with heq | hmem
  · simp only [Entry.mk.injEq, GwOp.runTool.injEq] at heq
    obtain ⟨⟨rfl, rfl⟩, hres⟩ := heq
    exact ⟨rfl, rfl, Option.some.inj (eq_of_heq hres)⟩
  · exact absurd hmem (h name arguments outcome)

theorem mem_timed {tr : Trace gateway} {ms : ℤ} {now : Magnitude} {name : Str}
    {arguments : List (Str × Json)} {outcome : Outcome}
    (hmem : (⟨.runTool name arguments, some outcome⟩ : Entry gateway) ∈ timedTrace ms now tr) :
    (⟨.runTool name arguments, some outcome⟩ : Entry gateway) ∈ tr := by
  simpa [timedTrace] using hmem

theorem aboutRun_timed {tr : Trace gateway} (call : Call) (h : Idle tr) {outcome : Outcome}
    {decision : Str} {reason : Option Str} {result : Option Json} {approvalId : Option Str}
    {ms : ℤ} {now : Magnitude} :
    AboutRun (timedTrace ms now (ranTrace call.toolName call.arguments outcome tr))
      (eventOf call decision reason result approvalId ms now) := by
  intro name arguments x hmem
  obtain ⟨rfl, rfl, -⟩ := mem_ran h (mem_timed hmem)
  exact ⟨rfl, rfl⟩

/-- Whatever follows the record of what ran. -/
theorem accounted_done {req : GwReq} {event : AuditEvent} {tr : Trace gateway}
    (rest : Trace gateway) (hevent : AboutRun tr event) (hrest : Idle rest) :
    Accounted req (rest ++ ⟨.recordToolCall event, some ()⟩ :: tr) := by
  intro name arguments outcome hmem
  rcases List.mem_append.mp hmem with hmem | hmem
  · exact absurd hmem (hrest name arguments outcome)
  · rcases List.mem_cons.mp hmem with heq | hmem
    · cases congrArg Entry.op heq
    · exact Or.inl ⟨event, by simp, hevent name arguments outcome hmem⟩

theorem accounted_failed {req : GwReq} {event : AuditEvent} {tr : Trace gateway} :
    Accounted req (⟨.recordToolCall event, none⟩ :: tr) :=
  fun _ _ _ _ => Or.inr (Or.inl ⟨event, tr, rfl⟩)

/-! ## `POST /mcp` -/

section Mcp

variable {G : Config} {agent : Agent} {body : Str} {rpcId : Json} {ctx : ToolCallContext}

theorem answers_mcp {res : Except GwError Response} {tr : Trace gateway} :
    Answers G (.mcp agent body) res tr := by
  cases res <;> trivial

/-- What performs nothing any more. -/
def Final (q : Prog gateway Response) : Prop := (∃ resp, q = .ret resp) ∨ ∃ e, q = .raise e

theorem final_ret (resp : Response) : Final (.ret resp) := Or.inl ⟨resp, rfl⟩

theorem final_returned (G : Config) (body : Json) : Final (returned G body) := by
  unfold returned
  split_ifs
  · exact Or.inr ⟨_, rfl⟩
  · exact Or.inl ⟨_, rfl⟩

/-- What `jsonable_encoder` leaves of an approval: all but the keys of its arguments that start with
`_sa`. -/
def shown (a : Approval) : Approval := { a with arguments := jsonableMembers a.arguments }

theorem jsonableEncoder_json (a : Approval) : jsonableEncoder a.json = (shown a).json := by
  have hkept : ∀ k ∈ [lit "id", lit "agent_id", lit "role", lit "tool_name", lit "arguments",
      lit "reason", lit "status", lit "requested_at", lit "expires_at", lit "decided_by",
      lit "decided_at"], (lit "_sa").isPrefixOf k = false := by decide
  simp only [List.forall_mem_cons] at hkept
  have hby : jsonableEncoder (jsonOpt .str a.decidedBy) = jsonOpt .str a.decidedBy := by
    cases a.decidedBy <;> rfl
  have hat : jsonableEncoder (jsonOpt jsonFloat a.decidedAt) = jsonOpt jsonFloat a.decidedAt := by
    cases a.decidedAt <;> rfl
  simp [Approval.json, shown, jsonableEncoder, jsonableMembers, hkept, hby, hat, jsonFloat]

/-- A walk over the approval hits the recursion limit. -/
def Unwalkable (G : Config) (a : Approval) : Prop :=
  G.limits.polled (.obj a.arguments) = true ∨ G.limits.encoder < depth 1 (shown a).json

theorem returnApproval_walked {G : Config} {a : Approval} (h : ¬ Unwalkable G a) :
    returnApproval G a = .ret ⟨200, (shown a).json⟩ := by
  rw [Unwalkable, not_or] at h
  rw [returnApproval, if_neg h.1, returned, jsonableEncoder_json, if_neg h.2, pure_eq]

theorem returnApproval_unwalkable {G : Config} {a : Approval} (h : Unwalkable G a) :
    returnApproval G a = .raise .recursion := by
  rw [returnApproval]
  split_ifs with hcopy
  · rfl
  · rw [returned, jsonableEncoder_json, if_pos (h.resolve_left hcopy)]

theorem final_returnApproval (G : Config) (a : Approval) : Final (returnApproval G a) := by
  by_cases h : Unwalkable G a
  · exact Or.inr ⟨_, returnApproval_unwalkable h⟩
  · exact Or.inl ⟨_, returnApproval_walked h⟩

theorem Final.sat {ok : Trace gateway → GwOp → Prop}
    {post : Except GwError Response → Trace gateway → Prop}
    {q : Prog gateway Response} {tr : Trace gateway} (hq : Final q) (hpost : ∀ r, post r tr) :
    Sat ok post q tr := by
  rcases hq with ⟨resp, rfl⟩ | ⟨e, rfl⟩
  · exact hpost _
  · exact hpost _

/-- A record of `POST /mcp` that names no approval, or is the one of a held call. -/
theorem record_mcp_sat {decision : Str} {reason : Option Str} {result : Option Json}
    {approvalId : Option Str} {tr : Trace gateway} {q : Prog gateway Response} (hq : Final q)
    (hlabel : approvalId.isSome = true → decision = pendingLabel)
    (habout : ∀ ms now, AboutRun (timedTrace ms now tr)
      (eventOf (callOf ctx) decision reason result approvalId ms now)) :
    Sat (McpOk agent body) (GwPost G (.mcp agent body))
      (record (callOf ctx) decision reason result approvalId >>= fun _ => q) tr := by
  refine sat_bind.mpr ?_
  apply record_sat
  · trivial
  · exact fun _ => trivial
  · exact fun ms now => ⟨hlabel, habout ms now⟩
  · exact fun ms now => hq.sat fun _ =>
      ⟨accounted_done [] (habout ms now) idle_nil, answers_mcp⟩
  · exact fun ms now => ⟨accounted_failed, answers_mcp⟩

theorem executeDirectly_sat {J : Judged agent body} (hname : J.input.toolName = ctx.toolName)
    (hargs : J.input.args = ctx.arguments) (hdirect : J.decision.requireApproval = false)
    (hallow : J.decision.allow = true) : Sat (McpOk agent body) (GwPost G (.mcp agent body))
      (executeDirectly G rpcId ctx J.decision) J.asked := by
  have hidle : Idle J.asked := idle_nil.cons nofun
  refine sat_perform.mpr ⟨⟨J, rfl, hdirect, hallow, hname.symm, hargs.symm⟩, fun outcome => ?_, nofun⟩
  have habout : ∀ decision reason result ms now, AboutRun
      (timedTrace ms now (ranTrace ctx.toolName ctx.arguments outcome J.asked))
      (eventOf (callOf ctx) decision reason result none ms now) :=
    fun _ _ _ _ _ => aboutRun_timed (callOf ctx) hidle
  cases outcome with
  | executorError errorType message =>
    cases hstatus : errorTypeStatus errorType with
    | none =>
      simp only [hstatus]
      refine ⟨?_, answers_mcp⟩
      intro name arguments outcome hmem
      obtain ⟨-, -, rfl⟩ := mem_ran hidle hmem
      exact Or.inr (Or.inr ⟨agent, body, errorType, message, rfl, rfl, hstatus⟩)
    | some status =>
      simp only [hstatus]
      exact record_mcp_sat (final_ret _) nofun (habout _ _ _)
  | unhandledError message => exact record_mcp_sat (final_ret _) nofun (habout _ _ _)
  | success result => exact record_mcp_sat (final_returned G _) nofun (habout _ _ _)

theorem holdForApproval_sat {J : Judged agent body} {i : OpaInput} (hi : ctx.toOpaInput = some i)
    (hinput : J.input = i) (hheld : J.decision.requireApproval = true) :
    Sat (McpOk agent body) (GwPost G (.mcp agent body))
      (holdForApproval G rpcId ctx J.decision) J.asked := by
  have hidle : Idle J.asked := idle_nil.cons nofun
  obtain ⟨env, -, rfl⟩ := Option.map_eq_some_iff.mp hi
  have hopened : ∀ now u, openedApproval ctx.agentId ctx.role ctx.toolName ctx.arguments
      J.decision.reason now u = J.opened now u := by
    intro now u
    rw [Judged.opened, hinput]
  refine sat_bind.mpr ?_
  have hset : ∀ now u x, Idle (⟨.redisSet (approvalKey u.text) (dumps (openedApproval ctx.agentId
      ctx.role ctx.toolName ctx.arguments J.decision.reason now u).json) (.ex approvalTtlSeconds), x⟩
        :: namedTrace now u J.asked) :=
    fun now u x => ((hidle.cons (e := ⟨.time, some now⟩) nofun).cons (e := ⟨.uuid4, some u⟩)
      nofun).cons nofun
  apply createPendingApproval_sat
  · trivial
  · exact fun _ => trivial
  · intro _ now u
    refine ⟨Idle.accounted ?_ _, answers_mcp⟩
    exact (hidle.cons (e := ⟨.time, some now⟩) nofun).cons (e := ⟨.uuid4, some u⟩) nofun
  · exact fun now u => ⟨J, now, u, rfl, hheld, rfl, by rw [hopened], rfl⟩
  · intro _ now u
    change Sat (McpOk agent body) (GwPost G (.mcp agent body)) _ _
    refine sat_perform.mpr ⟨trivial, fun _ => ?_, nofun⟩
    refine record_mcp_sat (final_ret _) (fun _ => rfl) fun ms now' => ?_
    exact (((hset now u (some ())).cons (e := ⟨.sendApprovalRequest u.text, some ()⟩) nofun).timed ms
      now').aboutRun _
  · exact fun now u => ⟨(hset now u none).accounted _, answers_mcp⟩

theorem judge_sat {i : OpaInput} (hi : ctx.toOpaInput = some i)
    (hreq : encodable (opaRequest i) = true → Requested agent body i) :
    Sat (McpOk agent body) (GwPost G (.mcp agent body)) (judge G rpcId ctx) [] := by
  have hrefuse : ∀ (decision : Decision) (tr : Trace gateway), Idle tr →
      Sat (McpOk agent body) (GwPost G (.mcp agent body)) (refuse rpcId ctx decision) tr :=
    fun decision tr hidle =>
      record_mcp_sat (final_ret _) nofun fun ms now => (hidle.timed ms now).aboutRun _
  refine sat_bind.mpr ?_
  rw [Gateway.evaluatePolicy, hi]
  by_cases he : encodable (opaRequest i) = true
  · simp only [he, if_true]
    refine sat_perform.mpr ⟨⟨rfl, hreq he⟩, fun reply => ?_, nofun⟩
    obtain ⟨env, henv, rfl⟩ := Option.map_eq_some_iff.mp hi
    cases hr : readReply ctx.toolName reply with
    | none =>
      exact ⟨(idle_nil.cons (e := ⟨.postOpa _, some reply⟩) nofun).accounted _, answers_mcp⟩
    | some decision =>
      let J : Judged agent body := ⟨_, reply, decision, hreq he, hr⟩
      change Sat _ _ (if decision.requireApproval then _ else _) J.asked
      by_cases hheld : decision.requireApproval = true
      · simp only [hheld, if_true]
        exact holdForApproval_sat (J := J) hi rfl hheld
      · simp only [hheld, if_false, Bool.false_eq_true]
        by_cases hallow : decision.allow = true
        · simp only [hallow, if_true]
          exact executeDirectly_sat (J := J) rfl rfl (by simpa using hheld) hallow
        · simp only [hallow, if_false, Bool.false_eq_true]
          exact hrefuse decision _ (idle_nil.cons nofun)
  · simp only [he, if_false, Bool.false_eq_true]
    exact hrefuse unavailable _ idle_nil

theorem quiet (x : Except GwError Response) : GwPost G (.mcp agent body) x [] :=
  ⟨idle_nil.accounted _, answers_mcp⟩

theorem toolsCall_sat {params kvs : List (Str × Json)} (hl : loads body = .ok (.obj kvs))
    (hmethod : isText (get kvs "method") (lit "tools/call") = true)
    (hparams : get kvs "params" = .obj params) : Sat (McpOk agent body) (GwPost G (.mcp agent body))
      (toolsCall G agent rpcId params) [] := by
  unfold toolsCall
  cases hctx : interceptToolCall params agent with
  | error err =>
    cases err with
    | missingParam field message => exact quiet _
    | noToolName name arguments =>
      simp only
      split <;> exact quiet _
  | ok ctx =>
    simp only
    cases henv : inferEnvironment ctx.arguments with
    | none => exact quiet _
    | some env =>
      simp only
      split_ifs with htool hagent
      · refine judge_sat (by rw [ToolCallContext.toOpaInput, henv]; rfl) fun he => ?_
        refine ⟨⟨kvs, params, ctx, hl, hmethod, hparams, hctx, ?_⟩, htool, hagent, he⟩
        rw [ToolCallContext.toOpaInput, henv]
        rfl
      · exact quiet _
      · exact quiet _

theorem mcp_sat : Sat (McpOk agent body) (GwPost G (.mcp agent body)) (mcp G agent body) [] := by
  unfold mcp
  cases hl : loads body with
  | error e => cases e <;> exact quiet _
  | ok v =>
    cases v with
    | obj kvs =>
      simp only
      by_cases hmethod : truthy (get kvs "method") = true
      · by_cases hlist : isText (get kvs "method") (lit "tools/list") = true
        · simp only [hmethod, hlist, not_true_eq_false, if_false, if_true]
          exact (final_returned G _).sat quiet
        by_cases hcall : isText (get kvs "method") (lit "tools/call") = true
        · simp only [hmethod, hlist, hcall, not_true_eq_false, if_false, if_true,
            Bool.false_eq_true]
          by_cases htrue : truthy (get kvs "params") = true
          · simp only [htrue, if_true]
            cases hparams : get kvs "params" with
            | obj params => exact toolsCall_sat hl hcall hparams
            | _ => exact quiet _
          · simp only [htrue, if_false, Bool.false_eq_true]
            exact quiet _
        · simp only [hmethod, hlist, hcall, not_true_eq_false, if_false, Bool.false_eq_true]
          exact quiet _
      · simp only [hmethod, not_false_eq_true, if_true, Bool.false_eq_true]
        exact quiet _
    | _ => exact quiet _

/-- The trace after the policy was asked, or could not be. -/
def AskedAfter (tr tr' : Trace gateway) : Prop :=
  tr' = tr ∨ ∃ i reply, tr' = ⟨.postOpa i, some reply⟩ :: tr

/-- What holds of the three ways on holds of the judgement. -/
theorem judge_rule {ok : Trace gateway → GwOp → Prop}
    {post : Except GwError Response → Trace gateway → Prop} {tr : Trace gateway}
    (hask : ∀ i, ok tr (.postOpa i)) (hraise : ∀ e tr', post (.error e) tr')
    (hhold : ∀ decision tr', AskedAfter tr tr' →
      Sat ok post (holdForApproval G rpcId ctx decision) tr')
    (hrun : ∀ decision tr', AskedAfter tr tr' →
      Sat ok post (executeDirectly G rpcId ctx decision) tr')
    (hrefuse : ∀ decision tr', AskedAfter tr tr' → Sat ok post (refuse rpcId ctx decision) tr') :
    Sat ok post (judge G rpcId ctx) tr := by
  have hdecide : ∀ (decision : Decision) (tr' : Trace gateway), AskedAfter tr tr' → Sat ok post
      (if decision.requireApproval then holdForApproval G rpcId ctx decision
        else if decision.allow then executeDirectly G rpcId ctx decision
        else refuse rpcId ctx decision) tr' := by
    intro decision tr' hasked
    by_cases hheld : decision.requireApproval = true
    · rw [if_pos hheld]
      exact hhold decision tr' hasked
    · rw [if_neg hheld]
      by_cases hallow : decision.allow = true
      · rw [if_pos hallow]
        exact hrun decision tr' hasked
      · rw [if_neg hallow]
        exact hrefuse decision tr' hasked
  refine sat_bind.mpr ?_
  unfold Gateway.evaluatePolicy
  cases ctx.toOpaInput with
  | none => exact hraise _ _
  | some i =>
    by_cases he : encodable (opaRequest i) = true
    · simp only [he, if_true]
      refine sat_perform.mpr ⟨hask i, fun reply => ?_, fun e he => by cases he⟩
      cases readReply ctx.toolName reply with
      | none => exact hraise _ _
      | some decision => exact hdecide decision _ (Or.inr ⟨i, reply, rfl⟩)
    · simp only [he, if_false, Bool.false_eq_true]
      exact hdecide _ _ (Or.inl rfl)

/-- Nothing happens before the policy is asked. -/
theorem toolsCall_cases (G : Config) (agent : Agent) (rpcId : Json) (params : List (Str × Json)) :
    (∃ resp, toolsCall G agent rpcId params = .ret resp) ∨
      (∃ e, toolsCall G agent rpcId params = .raise e) ∨
      ∃ ctx, toolsCall G agent rpcId params = judge G rpcId ctx := by
  unfold toolsCall
  cases interceptToolCall params agent with
  | error err =>
    cases err with
    | missingParam field message => exact Or.inl ⟨_, rfl⟩
    | noToolName name arguments =>
      simp only
      split
      · exact Or.inr (Or.inl ⟨_, rfl⟩)
      · exact Or.inr (Or.inl ⟨_, rfl⟩)
      · exact Or.inr (Or.inl ⟨_, rfl⟩)
      · exact Or.inl ⟨_, rfl⟩
  | ok ctx =>
    simp only
    cases inferEnvironment ctx.arguments with
    | none => exact Or.inr (Or.inl ⟨_, rfl⟩)
    | some env =>
      simp only
      split_ifs
      · exact Or.inr (Or.inr ⟨ctx, rfl⟩)
      · exact Or.inl ⟨_, rfl⟩
      · exact Or.inl ⟨_, rfl⟩

theorem mcp_cases (G : Config) (agent : Agent) (body : Str) :
    (∃ resp, mcp G agent body = .ret resp) ∨ (∃ e, mcp G agent body = .raise e) ∨
      ∃ rpcId ctx, mcp G agent body = judge G rpcId ctx := by
  unfold mcp
  cases loads body with
  | error e =>
    cases e with
    | decode => exact Or.inl ⟨_, rfl⟩
    | value => exact Or.inr (Or.inl ⟨_, rfl⟩)
  | ok v =>
    cases v with
    | obj kvs =>
      simp only
      by_cases hmethod : truthy (get kvs "method") = true
      · rw [if_neg (not_not_intro hmethod)]
        by_cases hlist : isText (get kvs "method") (lit "tools/list") = true
        · rw [if_pos hlist]
          rcases final_returned G (toolsList agent (get kvs "id")) with h | h
          · exact Or.inl h
          · exact Or.inr (Or.inl h)
        rw [if_neg hlist]
        by_cases hcall : isText (get kvs "method") (lit "tools/call") = true
        · rw [if_pos hcall]
          split
          · rename_i params _
            rcases toolsCall_cases G agent (get kvs "id") params with h | h | ⟨ctx, h⟩
            · exact Or.inl h
            · exact Or.inr (Or.inl h)
            · exact Or.inr (Or.inr ⟨_, ctx, h⟩)
          · exact Or.inr (Or.inl ⟨_, rfl⟩)
        · rw [if_neg hcall]
          exact Or.inl ⟨_, rfl⟩
      · rw [if_pos hmethod]
        exact Or.inl ⟨_, rfl⟩
    | _ => exact Or.inl ⟨_, rfl⟩

end Mcp

/-! ## `POST /admin/approvals/{id}/decide` -/

section Decide

variable {G : Config} {approvalId : Str} {timestamp signature : Option Str} {body : Bytes}

/-- The specification of one decide request. -/
abbrev DecideSat (G : Config) (approvalId : Str) (timestamp signature : Option Str) (body : Bytes)
    (q : Prog gateway Response) (tr : Trace gateway) : Prop :=
  Sat (DecideOk G approvalId timestamp signature body)
    (GwPost G (.decide approvalId timestamp signature body)) q tr

theorem Ruling.idle_after (R : Ruling G approvalId timestamp signature body) : Idle R.after := by
  have hread : Idle (readTrace approvalId R.raw [⟨.time, some R.begun⟩]) :=
    (idle_nil.cons (e := ⟨.time, some R.begun⟩) nofun).cons nofun
  exact ((hread.cons (e := ⟨.time, some R.now⟩) nofun).cons (e := ⟨.time, some R.decidedAt⟩)
    nofun).cons nofun

/-- A record of a decide request, after what it ran, before it publishes and answers. -/
theorem record_decide_sat {R : Ruling G approvalId timestamp signature body} {call : Call}
    {decision : Str} {reason : Option Str} {result : Option Json} {tr : Trace gateway}
    {agentId : Str} {event : Json} {resp : Response} (hsuffix : R.after <:+ tr)
    (habout : ∀ ms now, AboutRun (timedTrace ms now tr)
      (eventOf call decision reason result (some R.approval.id) ms now))
    (hresp : resp = decided R.approval (verdictStatus R.payload.decision)) :
    DecideSat G approvalId timestamp signature body
      (record call decision reason result (some R.approval.id) >>= fun _ =>
        perform (S := gateway) (.publish agentId event) >>= fun _ => .ret resp) tr := by
  have hlater : ∀ ms now, R.after <:+ timedTrace ms now tr := fun ms now =>
    (hsuffix.trans (List.suffix_cons _ _)).trans (List.suffix_cons _ _)
  refine sat_bind.mpr ?_
  apply record_sat
  · trivial
  · exact fun _ => trivial
  · exact fun ms now => ⟨⟨R, hlater ms now, rfl⟩, habout ms now⟩
  · intro ms now
    change DecideSat G approvalId timestamp signature body _ _
    refine sat_perform.mpr ⟨trivial, fun _ => ?_, nofun⟩
    refine ⟨accounted_done [⟨.publish agentId event, some ()⟩] (habout ms now)
      (idle_nil.cons nofun), fun _ => ⟨R, ?_, hresp⟩⟩
    exact ((hlater ms now).trans (List.suffix_cons _ _)).trans (List.suffix_cons _ _)
  · exact fun ms now => ⟨accounted_failed, trivial⟩

theorem reportDenial_sat {R : Ruling G approvalId timestamp signature body}
    (hdeny : R.payload.decision ≠ lit "approve") :
    DecideSat G approvalId timestamp signature body (reportDenial R.resolved R.payload) R.after := by
  refine record_decide_sat (R := R) (List.suffix_refl _) ?_ ?_
  · exact fun ms now => (R.idle_after.timed ms now).aboutRun _
  · rw [verdictStatus, if_neg hdeny]
    rfl

theorem resume_sat {R : Ruling G approvalId timestamp signature body}
    (happrove : R.payload.decision = lit "approve") :
    DecideSat G approvalId timestamp signature body (resume R.resolved R.payload) R.after := by
  refine sat_perform.mpr ⟨⟨R, rfl, happrove, rfl, rfl⟩, fun outcome => ?_, nofun⟩
  have hsuffix : R.after <:+ ranTrace R.approval.toolName R.approval.arguments outcome R.after :=
    List.suffix_cons _ _
  have habout : ∀ decision reason result ms now, AboutRun
      (timedTrace ms now (ranTrace R.approval.toolName R.approval.arguments outcome R.after))
      (eventOf (approvalCall R.resolved) decision reason result (some R.approval.id) ms now) :=
    fun _ _ _ _ _ => aboutRun_timed (approvalCall R.resolved) R.idle_after
  have hresp : decided R.resolved "approved" =
      decided R.approval (verdictStatus R.payload.decision) := by
    rw [verdictStatus, if_pos happrove]
    rfl
  cases outcome with
  | success result => exact record_decide_sat hsuffix (habout _ _ _) hresp
  | executorError errorType message => exact record_decide_sat hsuffix (habout _ _ _) hresp
  | unhandledError message => exact record_decide_sat hsuffix (habout _ _ _) hresp

/-- An answer of a decide request that did nothing. -/
theorem decide_refused {res : Except GwError Response} {tr : Trace gateway} (h : Idle tr)
    (hres : ∀ resp, res = .ok resp → resp.status ≠ 200) :
    GwPost G (.decide approvalId timestamp signature body) res tr := by
  refine ⟨h.accounted _, ?_⟩
  cases res with
  | error e => trivial
  | ok resp => exact fun h200 => absurd h200 (hres resp rfl)

theorem decide_raised {e : GwError} {tr : Trace gateway} (h : Idle tr) :
    GwPost G (.decide approvalId timestamp signature body) (.error e) tr := decide_refused h nofun

theorem decide_answered {status : ℕ} {json : Json} {tr : Trace gateway} (h : Idle tr)
    (hs : status ≠ 200) :
    GwPost G (.decide approvalId timestamp signature body) (.ok ⟨status, json⟩) tr :=
  decide_refused h fun resp hresp => by rw [← Except.ok.inj hresp]; exact hs

theorem decideApproval_sat : DecideSat G approvalId timestamp signature body
    (decideApproval G approvalId timestamp signature body) [] := by
  refine sat_bind.mpr ?_
  have hbegun : ∀ now : Magnitude, Idle [(⟨.time, some now⟩ : Entry gateway)] :=
    fun now => idle_nil.cons nofun
  apply verifySignature_sat
  · trivial
  · exact decide_answered idle_nil (by decide)
  · exact fun now => decide_answered (hbegun now) (by decide)
  · exact fun now e => decide_raised (hbegun now)
  intro now hsigned
  change DecideSat G approvalId timestamp signature body _ _
  simp only [not_true_eq_false, if_false]
  cases hvalid : G.validate body with
  | error exc => exact decide_answered (hbegun now) (by decide)
  | ok payload =>
    simp only
    by_cases hverdict : payload.decision = lit "approve" ∨ payload.decision = lit "deny"
    · rw [if_neg (by tauto)]
      refine sat_bind.mpr ?_
      have hread : ∀ raw, Idle (readTrace approvalId raw [⟨.time, some now⟩]) :=
        fun raw => (hbegun now).cons nofun
      have hunread : ∀ x, Idle (⟨.redisGet (approvalKey approvalId), x⟩ :: [⟨.time, some now⟩]) :=
        fun x => (hbegun now).cons nofun
      apply ApprovalStore.decideApproval_sat
      · exact ⟨rfl, hsigned, now, rfl⟩
      · exact decide_raised (hunread none)
      · exact decide_answered (hunread (some none)) (by decide)
      · exact fun raw e _ => decide_raised (hread raw)
      · exact fun raw a _ _ => decide_answered (hread raw) (by decide)
      · exact fun _ => trivial
      · exact fun raw a later _ => decide_answered ((hread raw).cons nofun) (by decide)
      · exact fun _ _ => trivial
      · intro raw a later decidedAt hraw hpending htime
        let R : Ruling G approvalId timestamp signature body :=
          ⟨payload, raw, a, now, later, decidedAt, hsigned, hvalid, hverdict, hraw, hpending, htime⟩
        refine ⟨⟨R, rfl, rfl⟩, ?_, ?_⟩
        · change DecideSat G approvalId timestamp signature body
            (if decidedStatus payload.decision = lit "denied" then reportDenial R.resolved R.payload
              else resume R.resolved R.payload) R.after
          by_cases happrove : payload.decision = lit "approve"
          · rw [if_neg (by rw [decidedStatus, if_pos happrove]; decide)]
            exact resume_sat happrove
          · rw [if_pos (by rw [decidedStatus, if_neg happrove])]
            exact reportDenial_sat happrove
        · exact decide_raised ((((hread raw).cons (e := ⟨.time, some later⟩) nofun).cons
            (e := ⟨.time, some decidedAt⟩) nofun).cons nofun)
    · rw [if_pos (by tauto)]
      exact decide_answered (hbegun now) (by decide)

end Decide

/-! ## The gateway -/

variable {G : Config} {W : World}

theorem handle_sat (req : GwReq) : Sat (GwOk G req) (GwPost G req) (handle G req) [] := by
  cases req with
  | mcp agent body => exact mcp_sat
  | decide approvalId timestamp signature body => exact decideApproval_sat
  | status approvalId =>
    refine sat_bind.mpr ?_
    have hread : ∀ x, Idle [(⟨.redisGet (approvalKey approvalId), x⟩ : Entry gateway)] :=
      fun x => idle_nil.cons nofun
    apply getApproval_sat
    · exact ⟨_, rfl⟩
    · exact ⟨(hread (some none)).accounted _, trivial⟩
    · exact fun raw a _ => (final_returnApproval G a).sat fun r =>
        ⟨(hread (some (some raw))).accounted _, by cases r <;> trivial⟩
    · exact fun raw e _ => ⟨(hread (some (some raw))).accounted _, trivial⟩
    · exact ⟨(hread none).accounted _, trivial⟩

/-- Every pool that a run reaches keeps to the specification of each of its requests. -/
abbrev Lawful (p : GatewayPool G W) : Prop := Obeys (Y := gatewaySystem G W) (GwOk G) (GwPost G) p

theorem reachable_lawful {C : GatewayPool G W → Move (gatewaySystem G W) → Prop}
    {p : GatewayPool G W} (hp : Reachable C p) : Lawful p := reachable_obeys handle_sat hp

end GatewaySpecs
