import McpControlPlane.BlastRadius
import McpControlPlane.ExecutorErrors
import McpControlPlane.RpcErrors

/-! # How a call is reported

A call that was put before the policy, and a decision on an approval, end in one audit event and one
answer or push. What became of the call is classified once here, and both handlers are compared
with it. -/
namespace CallReports

open PyText Binary64 JsonText JsonDict PyJson UuidTime AuditLog ToolPolicy PolicyDecision
open GatewayOps ApprovalStore SlackSignature Gateway GatewaySpecs Interleaving RpcErrors RequestBody

/-! ## The error types of executors -/

/-- What `k8s_client.run` catches. -/
inductive K8sFailure where
  | apiException (status : ℤ)
  | maxRetry (timedOut : Bool)

def permissionDenied : Str := lit "permission_denied"

def executorTimeout : Str := lit "executor_timeout"

def runError : K8sFailure → Str
  | .apiException status =>
    if status = 404 then ExecutorErrors.notFound
    else if status = 401 ∨ status = 403 then permissionDenied
    else ExecutorErrors.upstreamError
  | .maxRetry timedOut => if timedOut then executorTimeout else ExecutorErrors.upstreamError

/-- What `_send` catches, with the response that `raise_for_status` refuses. -/
inductive HttpFailure where
  | timeout
  | httpError
  | response (status : ℕ)

def sendError : HttpFailure → Str
  | .timeout => executorTimeout
  | .httpError => ExecutorErrors.upstreamError
  | .response status => if status = 404 then ExecutorErrors.notFound else ExecutorErrors.upstreamError

/-- The error types that the executors and their helpers raise. The last two are raised for a missing
kubeconfig and for a query that Prometheus reports as failed. -/
inductive Raised : Str → Prop where
  | executor {E : ExecutorErrors.Env} {tool : ExecutorErrors.Tool} {arguments : List (Str × Json)}
      {errorType : Str} {message : ExecutorErrors.Message}
      (h : ExecutorErrors.executor E tool arguments = .error (.executorError errorType message)) :
      Raised errorType
  | run (failure : K8sFailure) : Raised (runError failure)
  | send (failure : HttpFailure) : Raised (sendError failure)
  | loadConfig : Raised ExecutorErrors.upstreamError
  | prometheusQuery : Raised ExecutorErrors.upstreamError

section ErrorTypes

open ExecutorErrors

abbrev HasStatus (errorType : Str) : Prop := errorTypeStatus errorType ≠ none

theorem validationError_status : HasStatus validationError := by decide

theorem notFound_status : HasStatus notFound := by decide

theorem upstreamError_status : HasStatus upstreamError := by decide

theorem permissionDenied_status : HasStatus permissionDenied := by decide

theorem executorTimeout_status : HasStatus executorTimeout := by decide

theorem runError_status (failure : K8sFailure) : HasStatus (runError failure) := by
  cases failure with
  | apiException status =>
    rw [runError]
    split_ifs
    · exact notFound_status
    · exact permissionDenied_status
    · exact upstreamError_status
  | maxRetry timedOut =>
    cases timedOut with
    | true => exact executorTimeout_status
    | false => exact upstreamError_status

theorem sendError_status (failure : HttpFailure) : HasStatus (sendError failure) := by
  cases failure with
  | timeout => exact executorTimeout_status
  | httpError => exact upstreamError_status
  | response status =>
    rw [sendError]
    split_ifs
    · exact notFound_status
    · exact upstreamError_status

theorem reports_required {α : Type} {condition : Bool} {errorType : Str} {message : Message}
    {f : Unit → Exec α} (h : HasStatus errorType) (hf : ∀ u, Reports HasStatus (f u)) :
    Reports HasStatus (require condition errorType message >>= f) :=
  reports_bind (reports_require _ fun _ => h) fun u _ => hf u

theorem reports_checked {arguments : List (Str × Json)} {f : Str → Exec Request}
    (hf : ∀ r, Reports HasStatus (f r)) : Reports HasStatus (requireReason arguments >>= f) :=
  reports_reason arguments validationError_status hf

theorem reports_resourceFor (E : Env) (apiVersion kind : Json) :
    Reports HasStatus (resourceFor E apiVersion kind) := by
  rw [resourceFor]
  cases E.lookup apiVersion kind with
  | found namespaced =>
    intro t m h
    cases h
  | missing =>
    rintro t m ⟨⟩
    exact notFound_status
  | ambiguous detail =>
    rintro t m ⟨⟩
    exact validationError_status
  | other =>
    intro t m h
    cases h

theorem reports_path {jobName : Json} {f : Str → Exec Request} (hf : ∀ p, Reports HasStatus (f p)) :
    Reports HasStatus (jobPath jobName >>= f) :=
  reports_bind (reports_jobPath _) fun p _ => hf p

/-- Whatever the configuration. -/
theorem executor_status (E : Env) (tool : Tool) (arguments : List (Str × Json)) :
    Reports HasStatus (executor E tool arguments) := by
  have hvalid : HasStatus validationError := validationError_status
  have hup : HasStatus upstreamError := upstreamError_status
  cases tool with
  | listPods => exact reports_required hvalid fun _ => reports_pure _
  | getPodLogs => exact reports_required hvalid fun _ => reports_pure _
  | getDeploymentStatus => exact reports_required hvalid fun _ => reports_pure _
  | restartDeployment =>
    exact reports_required hvalid fun _ => reports_checked fun _ => reports_pure _
  | scaleDeployment =>
    exact reports_required hvalid fun _ => reports_required hvalid fun _ =>
      reports_checked fun _ => reports_pure _
  | execIntoPod =>
    exact reports_required hvalid fun _ => reports_required hvalid fun _ =>
      reports_checked fun _ => reports_pure _
  | applyK8sManifest =>
    exact reports_bind (reports_checkManifest arguments hvalid) fun _ _ =>
      reports_bind (reports_resourceFor E _ _) fun _ _ =>
      reports_required hvalid fun _ => reports_pure _
  | queryTerraformPlan =>
    exact reports_required hvalid fun _ => reports_required hup fun _ => reports_pure _
  | triggerJenkinsJob =>
    exact reports_required hvalid fun _ => reports_checked fun _ => reports_required hup fun _ =>
      reports_path fun _ => reports_pure _
  | getJenkinsJobStatus =>
    exact reports_required hvalid fun _ => reports_required hup fun _ =>
      reports_path fun _ => reports_pure _
  | readPrometheusMetrics =>
    refine reports_required hvalid fun _ => ?_
    split_ifs
    · exact reports_pure _
    · exact reports_pure _
  | openTicket => exact reports_pure _
  | readTicket =>
    refine reports_required hvalid fun _ => ?_
    split_ifs
    · exact reports_required hup fun _ => reports_pure _
    · exact reports_required hup fun _ => reports_pure _

/-- Every error type that can be raised is in `_ERROR_TYPE_STATUS`. -/
theorem raised_status {errorType : Str} (h : Raised errorType) : HasStatus errorType := by
  cases h with
  | executor h => exact executor_status _ _ _ _ _ h
  | run failure => exact runError_status failure
  | send failure => exact sendError_status failure
  | loadConfig => exact upstreamError_status
  | prometheusQuery => exact upstreamError_status

end ErrorTypes

/-! ## What became of a call -/

/-- Why no executor ran, or how it ended. -/
inductive Fate where
  | denied (reason : Str)
  | pending (approval : Approval)
  | approvalDenied (reason : Str)
  | executed (outcome : Outcome)

def deniedLabel : Str := lit "denied"

def approvalDeniedLabel : Str := lit "approval_denied"

/-- The one classification of outcomes. -/
def outcomeLabel : Outcome → Str
  | .success _ => lit "allowed"
  | .executorError errorType _ => if errorType = executorTimeout then executorTimeout else lit "error"
  | .unhandledError _ => lit "error"

namespace Fate

def label : Fate → Str
  | denied _ => deniedLabel
  | pending _ => pendingLabel
  | approvalDenied _ => approvalDeniedLabel
  | executed outcome => outcomeLabel outcome

def result : Fate → Option Json
  | executed (.success result) => some result
  | _ => none

/-- The executor runs once with the tool and the arguments of the call, or not at all. -/
def executions (call : Call) : Fate → List (Str × List (Str × Json) × Outcome)
  | executed outcome => [(call.toolName, call.arguments, outcome)]
  | _ => []

/-- Which approval an event of `/mcp` names. -/
def opened : Fate → Option Str
  | pending approval => some approval.id
  | _ => none

/-- The push about a resolved approval. -/
def push (a : Approval) : Fate → Option Json
  | approvalDenied reason => some (sseEvent a "denied" [(lit "reason", .str reason)])
  | executed (.success result) => some (sseEvent a "approved" [(lit "result", result)])
  | executed (.executorError _ message) => some (sseEvent a "error" [(lit "error", .str message)])
  | executed (.unhandledError message) => some (sseEvent a "error" [(lit "error", .str message)])
  | _ => none

/-- The response of `/mcp`: its status, and the member that it has. The dict of a success has what
`jsonable_encoder` leaves of the result. -/
def Answers (rpcId : Json) (resp : Response) : Fate → Prop
  | denied reason => resp.status = 403 ∧ ∃ message, resp.body = rpcError rpcId (-32603) message
      (some (.obj [(lit "reason", .str reason), (lit "policy_decision", .str (lit "deny"))]))
  | pending approval => resp.status = 202 ∧ resp.body = rpcResult rpcId (heldResult approval)
  | approvalDenied _ => False
  | executed (.success result) => resp.status = 200 ∧
      resp.body = rpcResult (jsonableEncoder rpcId) (jsonableEncoder result)
  | executed (.executorError errorType message) => errorTypeStatus errorType = some resp.status ∧
      ∃ text, resp.body = rpcError rpcId (-32603) text (some (executorErrorData message errorType))
  | executed (.unhandledError message) => resp.status = 500 ∧ ∃ text, resp.body =
      rpcError rpcId (-32603) text (some (executorErrorData message ExecutorErrors.upstreamError))

/-- What a decision of the policy leads to. -/
def Follows (decision : Decision) : Fate → Prop
  | denied reason => decision.requireApproval = false ∧ decision.allow = false ∧
      reason = decision.reason
  | pending _ => decision.requireApproval = true
  | approvalDenied _ => False
  | executed _ => decision.requireApproval = false ∧ decision.allow = true

/-- What a decision on an approval leads to. -/
def Resolves (payload : DecisionRequest) : Fate → Prop
  | approvalDenied reason => payload.decision = lit "deny" ∧ reason = denialReason payload
  | executed _ => payload.decision = lit "approve"
  | _ => False

/-- A label tells why the executor did not run. -/
def Told (fate : Fate) : Prop :=
  (fate.label = deniedLabel ↔ ∃ reason, fate = denied reason) ∧
  (fate.label = pendingLabel ↔ ∃ approval, fate = pending approval) ∧
  (fate.label = approvalDeniedLabel ↔ ∃ reason, fate = approvalDenied reason)

end Fate

theorem outcomeLabel_mem (outcome : Outcome) :
    outcomeLabel outcome ∈ [lit "allowed", executorTimeout, lit "error"] := by
  cases outcome with
  | success result => exact List.mem_cons_self
  | executorError errorType message =>
    rw [outcomeLabel]
    split_ifs
    · simp
    · simp
  | unhandledError message => simp [outcomeLabel]

theorem outcomeLabel_ne {outcome : Outcome} {label : Str}
    (h : label ∉ [lit "allowed", executorTimeout, lit "error"]) : outcomeLabel outcome ≠ label :=
  fun heq => h (heq ▸ outcomeLabel_mem outcome)

theorem told (fate : Fate) : fate.Told := by
  have hdenied : deniedLabel ≠ pendingLabel := by decide
  have hlater : deniedLabel ≠ approvalDeniedLabel := by decide
  have hheld : pendingLabel ≠ approvalDeniedLabel := by decide
  cases fate with
  | denied reason => simp [Fate.Told, Fate.label, hdenied, hlater]
  | pending approval => simp [Fate.Told, Fate.label, hdenied.symm, hheld]
  | approvalDenied reason => simp [Fate.Told, Fate.label, hlater.symm, hheld.symm]
  | executed outcome =>
    have h₁ : outcomeLabel outcome ≠ deniedLabel := outcomeLabel_ne (by decide)
    have h₂ : outcomeLabel outcome ≠ pendingLabel := outcomeLabel_ne (by decide)
    have h₃ : outcomeLabel outcome ≠ approvalDeniedLabel := outcomeLabel_ne (by decide)
    simp [Fate.Told, Fate.label, h₁, h₂, h₃]

/-! ## What a run has done -/

def recordOf : Entry gateway → Option AuditEvent
  | ⟨.recordToolCall event, some _⟩ => some event
  | _ => none

def runOf : Entry gateway → Option (Str × List (Str × Json) × Outcome)
  | ⟨.runTool name arguments, some outcome⟩ => some (name, arguments, outcome)
  | _ => none

def pushOf : Entry gateway → Option (Str × Json)
  | ⟨.publish agentId event, some _⟩ => some (agentId, event)
  | _ => none

def replyOf : Entry gateway → Option OpaReply
  | ⟨.postOpa _, some reply⟩ => some reply
  | _ => none

def recorded (tr : Trace gateway) : List AuditEvent := tr.filterMap recordOf

def executions (tr : Trace gateway) : List (Str × List (Str × Json) × Outcome) := tr.filterMap runOf

def published (tr : Trace gateway) : List (Str × Json) := tr.filterMap pushOf

def replies (tr : Trace gateway) : List OpaReply := tr.filterMap replyOf

/-- The decision that the policy has made; nothing is asked where the request cannot be encoded. -/
def Ruled (ctx : ToolCallContext) (tr : Trace gateway) (decision : Decision) : Prop :=
  (∃ reply, replies tr = [reply] ∧ readReply ctx.toolName reply = some decision) ∨
    replies tr = [] ∧ decision = unavailable

/-- One event about the call and its fate, and no execution but the one of its fate. -/
structure Audited (call : Call) (approvalId : Option Str) (fate : Fate) (tr : Trace gateway) :
    Prop where
  recorded : ∃ reason ms now,
    recorded tr = [eventOf call fate.label reason fate.result approvalId ms now]
  executed : executions tr = fate.executions call

/-- A call is reported by the audit log and by the response. -/
structure ReportedAs (rpcId : Json) (ctx : ToolCallContext) (fate : Fate)
    (r : Except GwError Response) (tr : Trace gateway) : Prop where
  follows : ∃ decision, Ruled ctx tr decision ∧ fate.Follows decision
  audited : Audited (callOf ctx) fate.opened fate tr
  answered : ∃ resp, r = .ok resp ∧ fate.Answers rpcId resp

def Reported (rpcId : Json) (ctx : ToolCallContext) (r : Except GwError Response)
    (tr : Trace gateway) : Prop := ∃ fate, ReportedAs rpcId ctx fate r tr

/-- A decision is reported by the audit log and by one push to the agent. -/
structure PushedAs (payload : DecisionRequest) (a : Approval) (fate : Fate) (tr : Trace gateway) :
    Prop where
  resolves : fate.Resolves payload
  audited : Audited (approvalCall a) (some a.id) fate tr
  pushed : ∃ event, fate.push a = some event ∧ published tr = [(a.agentId, event)]

def Pushed (payload : DecisionRequest) (a : Approval) (tr : Trace gateway) : Prop :=
  ∃ fate, PushedAs payload a fate tr

/-- Redis works, and PostgreSQL takes every row that it can hold; the policy makes a decision, the
clock is not at the end of the floats, and an `ExecutorError` is one that executors raise. -/
def Serves (W : World) : Entry gateway → Prop
  | ⟨.redisGet _, res⟩ => res ≠ none
  | ⟨.redisSet _ _ _, res⟩ => res ≠ none
  | ⟨.recordToolCall event, res⟩ => res = none ↔ W.insertable event = false
  | ⟨.postOpa i, some reply⟩ => readReply i.toolName reply ≠ none
  | ⟨.time, some now⟩ => finiteNum (.float (plusSeconds now approvalTtlSeconds)) = true
  | ⟨.runTool _ _, some (.executorError errorType _)⟩ => Raised errorType
  | _ => True

/-- PostgreSQL can hold the row. -/
def Storable (W : World) : Entry gateway → Prop
  | ⟨.recordToolCall event, _⟩ => W.insertable event = true
  | _ => True

/-- The text of an error and the result of a success can be put into a response, and `asdict` gets
through the arguments of a call that is held. -/
def Sendable (G : Config) : Entry gateway → Prop
  | ⟨.postOpa i, some reply⟩ => ∀ decision, readReply i.toolName reply = some decision →
      decision.requireApproval = true → G.limits.created (.obj i.args) = false
  | ⟨.runTool _ _, some (.success result)⟩ => returnable G result = true
  | ⟨.runTool _ _, some (.executorError _ message)⟩ => Scalar message = true
  | ⟨.runTool _ _, some (.unhandledError message)⟩ => Scalar message = true
  | _ => True

/-- Nothing that the run met keeps it from being reported. -/
def Fit (G : Config) (W : World) (e : Entry gateway) : Prop := Storable W e ∧ Sendable G e

/-! ## `POST /mcp` -/

section Calls

variable {G : Config} {W : World} {rpcId : Json} {ctx : ToolCallContext} {decision : Decision}

/-- In a run whose services work, the call is reported iff its `id` can be sent back and the run is
fit. -/
def Tells (G : Config) (W : World) (rpcId : Json) (ctx : ToolCallContext)
    (r : Except GwError Response) (tr : Trace gateway) : Prop :=
  (∀ e ∈ tr, Serves W e) →
    (Reported rpcId ctx r tr ↔ IdFits G (succeeded tr) rpcId ∧ ∀ e ∈ tr, Fit G W e)

theorem not_reported_error (e : GwError) (tr : Trace gateway) :
    ¬ Reported rpcId ctx (.error e) tr := by
  rintro ⟨fate, -, -, resp, h, -⟩
  cases h

theorem serves_recorded {event : AuditEvent} {res : Option Unit} {ms : ℤ} {now : Magnitude}
    {tr : Trace gateway}
    (h : ∀ e ∈ (⟨.recordToolCall event, res⟩ : Entry gateway) :: timedTrace ms now tr, Serves W e) :
    (res = none ↔ W.insertable event = false) ∧ ∀ e ∈ tr, Serves W e := by
  obtain ⟨hevent, -, -, htr⟩ := forall_recorded.mp h
  exact ⟨hevent, htr⟩

theorem fit_recorded {event : AuditEvent} {res : Option Unit} {ms : ℤ} {now : Magnitude}
    {tr : Trace gateway} :
    (∀ e ∈ (⟨.recordToolCall event, res⟩ : Entry gateway) :: timedTrace ms now tr, Fit G W e) ↔
      W.insertable event = true ∧ ∀ e ∈ tr, Fit G W e := by
  rw [forall_recorded]
  constructor
  · rintro ⟨hevent, _, _, htr⟩
    exact ⟨hevent.1, htr⟩
  · rintro ⟨hevent, htr⟩
    exact ⟨⟨hevent, trivial⟩, ⟨trivial, trivial⟩, ⟨trivial, trivial⟩, htr⟩

/-- Records an event and sends a response: the call is reported iff the response can be sent and the
row be stored. -/
theorem record_send_tells {label : Str} {reason : Option Str} {result : Option Json}
    {approvalId : Option Str} {q : Prog gateway Response} {resp : Response} {P : Prop}
    {tr : Trace gateway} (hq : Sends G q resp P)
    (hsent : (∀ e ∈ tr, Serves W e) →
      (P ↔ IdFits G (succeeded tr) rpcId ∧ ∀ e ∈ tr, Fit G W e))
    (hreported : ∀ ms now, Reported rpcId ctx (.ok resp) (⟨.recordToolCall
      (eventOf (callOf ctx) label reason result approvalId ms now), some ()⟩ ::
        timedTrace ms now tr)) :
    Sat Always (Tells G W rpcId ctx)
      ((record (callOf ctx) label reason result approvalId >>= fun _ => q) >>= send G) tr := by
  refine sat_bind.mpr (sat_bind.mpr ?_)
  apply record_sat
  · trivial
  · exact fun _ => trivial
  · exact fun _ _ => trivial
  · intro ms now
    have hiff : (∀ e ∈ (⟨.recordToolCall (eventOf (callOf ctx) label reason result approvalId ms
        now), some ()⟩ : Entry gateway) :: timedTrace ms now tr, Serves W e) →
        (P ↔ IdFits G (succeeded tr) rpcId ∧
          ∀ e ∈ (⟨.recordToolCall (eventOf (callOf ctx) label reason result approvalId ms now),
            some ()⟩ : Entry gateway) :: timedTrace ms now tr, Fit G W e) := by
      intro hw
      obtain ⟨hevent, hw⟩ := serves_recorded hw
      simp only [reduceCtorEq, false_iff, Bool.not_eq_false] at hevent
      rw [hsent hw, fit_recorded, and_iff_right hevent]
    refine sat_bind.mp ?_
    by_cases hp : P
    · rw [hq.sent hp]
      exact fun hw => ⟨fun _ => (hiff hw).mp hp, fun _ => hreported ms now⟩
    · obtain ⟨e, he⟩ := hq.spoilt hp
      rw [he]
      exact fun hw => ⟨fun h => absurd h (not_reported_error _ _),
        fun h => absurd ((hiff hw).mpr h) hp⟩
  · intro ms now hw
    obtain ⟨hevent, -⟩ := serves_recorded hw
    rw [fit_recorded, hevent.mp rfl]
    exact ⟨fun h => absurd h (not_reported_error _ _), fun h => absurd h.2.1 Bool.false_ne_true⟩

/-- What the policy was asked, before anything else happened. -/
structure Asked (G : Config) (W : World) (ctx : ToolCallContext) (decision : Decision)
    (tr : Trace gateway) : Prop where
  ruled : Ruled ctx tr decision
  unrecorded : recorded tr = []
  idle : executions tr = []
  failed : succeeded tr = false
  fit : (∀ e ∈ tr, Fit G W e) ↔
    (decision.requireApproval = true → G.limits.created (.obj ctx.arguments) = false)

theorem Asked.direct {tr : Trace gateway} (h : Asked G W ctx decision tr)
    (hheld : decision.requireApproval = false) : ∀ e ∈ tr, Fit G W e :=
  h.fit.mpr fun htrue => absurd (hheld.symm.trans htrue) Bool.false_ne_true

/-- Recording adds nothing to what was asked and run. -/
theorem audited_recorded {fate : Fate} {approvalId : Option Str} {reason : Option Str} {ms : ℤ}
    {now : Magnitude} {tr : Trace gateway} (hrecorded : recorded tr = [])
    (hran : executions tr = fate.executions (callOf ctx)) :
    Audited (callOf ctx) approvalId fate (⟨.recordToolCall
      (eventOf (callOf ctx) fate.label reason fate.result approvalId ms now), some ()⟩ ::
        timedTrace ms now tr) where
  recorded := by
    refine ⟨reason, ms, now, ?_⟩
    change _ :: recorded tr = _
    rw [hrecorded]
  executed := hran

theorem refuse_tells {tr : Trace gateway} (hasked : Asked G W ctx decision tr)
    (hheld : decision.requireApproval = false) (hallow : decision.allow = false)
    (hreason : Scalar decision.reason = true) :
    Sat Always (Tells G W rpcId ctx) (refuse rpcId ctx decision >>= send G) tr := by
  refine record_send_tells (sends_error ?_) (fun _ => ?_) ?_
  · rintro d ⟨⟩
    simp [depth, depthMembers]
  · rw [and_iff_left (hasked.direct hheld), hasked.failed]
    simp [IdFits, encodable, encodableMembers, hreason]
  · intro ms now
    refine ⟨.denied decision.reason, ⟨decision, hasked.ruled, hheld, hallow, rfl⟩,
      audited_recorded hasked.unrecorded hasked.idle, _, rfl, rfl, _, rfl⟩

theorem executeDirectly_tells {tr : Trace gateway} (hasked : Asked G W ctx decision tr)
    (hheld : decision.requireApproval = false) (hallow : decision.allow = true) :
    Sat Always (Tells G W rpcId ctx) (executeDirectly G rpcId ctx decision >>= send G) tr := by
  refine sat_bind.mpr (sat_perform.mpr ⟨trivial, fun outcome => ?_, fun _ he => by cases he⟩)
  have hfit : (∀ e ∈ ranTrace ctx.toolName ctx.arguments outcome tr, Fit G W e) ↔
      Sendable G ⟨.runTool ctx.toolName ctx.arguments, some outcome⟩ := by
    rw [ranTrace, List.forall_mem_cons]
    exact ⟨fun h => h.1.2, fun h => ⟨⟨trivial, h⟩, hasked.direct hheld⟩⟩
  have hsuccess : succeeded (ranTrace ctx.toolName ctx.arguments outcome tr) =
      isSuccess ⟨.runTool ctx.toolName ctx.arguments, some outcome⟩ := by
    change (_ || succeeded tr) = _
    rw [hasked.failed, Bool.or_false]
  have hran : executions (ranTrace ctx.toolName ctx.arguments outcome tr) =
      (Fate.executed outcome).executions (callOf ctx) := by
    change _ :: executions tr = _
    rw [hasked.idle]
    rfl
  have hfollows : ∃ d, Ruled ctx (ranTrace ctx.toolName ctx.arguments outcome tr) d ∧
      (Fate.executed outcome).Follows d := ⟨decision, hasked.ruled, hheld, hallow⟩
  cases outcome with
  | executorError errorType message =>
    cases hstatus : errorTypeStatus errorType with
    | none =>
      simp only [hstatus]
      intro hw
      have hraised : Raised errorType := hw _ List.mem_cons_self
      exact absurd hstatus (raised_status hraised)
    | some status =>
      simp only [hstatus]
      refine sat_bind.mp (record_send_tells (sends_error ?_) (fun _ => ?_) fun ms now => ?_)
      · rintro d ⟨⟩
        exact depth_executorErrorData _ _
      · change _ ↔ IdFits G (succeeded (ranTrace ctx.toolName ctx.arguments _ tr)) rpcId ∧
          ∀ e ∈ ranTrace ctx.toolName ctx.arguments _ tr, Fit G W e
        rw [hfit, hsuccess]
        simp [IdFits, isSuccess, encodable_executorErrorData, scalar_errorType hstatus,
          scalar_append, Sendable]
      · exact ⟨.executed (.executorError errorType message), hfollows,
          audited_recorded hasked.unrecorded hran, _, rfl, hstatus, _, rfl⟩
  | unhandledError message =>
    refine sat_bind.mp (record_send_tells (sends_error ?_) (fun _ => ?_) fun ms now => ?_)
    · rintro d ⟨⟩
      exact depth_executorErrorData _ _
    · change _ ↔ IdFits G (succeeded (ranTrace ctx.toolName ctx.arguments _ tr)) rpcId ∧
        ∀ e ∈ ranTrace ctx.toolName ctx.arguments _ tr, Fit G W e
      rw [hfit, hsuccess]
      simp [IdFits, isSuccess, encodable_executorErrorData, Sendable]
    · exact ⟨.executed (.unhandledError message), hfollows,
        audited_recorded hasked.unrecorded hran, _, rfl, rfl, _, rfl⟩
  | success result =>
    refine sat_bind.mp (record_send_tells (sends_returned G _ _) (fun _ => ?_) fun ms now => ?_)
    · change _ ↔ IdFits G (succeeded (ranTrace ctx.toolName ctx.arguments _ tr)) rpcId ∧
        ∀ e ∈ ranTrace ctx.toolName ctx.arguments _ tr, Fit G W e
      rw [hfit, hsuccess]
      simp [IdFits, isSuccess, Sendable]
    · exact ⟨.executed (.success result), hfollows,
        audited_recorded hasked.unrecorded hran, _, rfl, rfl, rfl⟩

theorem holdForApproval_tells {tr : Trace gateway} (hasked : Asked G W ctx decision tr)
    (hheld : decision.requireApproval = true) :
    Sat Always (Tells G W rpcId ctx) (holdForApproval G rpcId ctx decision >>= send G) tr := by
  have hcopied : (∀ e ∈ tr, Fit G W e) ↔ G.limits.created (.obj ctx.arguments) = false := by
    rw [hasked.fit, forall_prop_of_true hheld]
  refine sat_bind.mpr (sat_bind.mpr ?_)
  apply createPendingApproval_sat
  · trivial
  · exact fun _ => trivial
  · -- `asdict` hits the recursion limit: nothing is stored, recorded or answered
    intro hdeep now u _
    refine ⟨fun h => absurd h (not_reported_error _ _), fun hf => ?_⟩
    have hnot := hcopied.mp fun e he =>
      hf.2 e (List.mem_cons_of_mem _ (List.mem_cons_of_mem _ he))
    rw [hdeep] at hnot
    cases hnot
  · exact fun _ _ => trivial
  · intro hwalked now u
    change Sat Always _ _ _
    refine sat_perform.mpr ⟨trivial, fun _ => ?_, fun _ he => by cases he⟩
    refine sat_bind.mp (record_send_tells (sends_result (depth_heldResult _)) (fun hw => ?_)
      fun ms later => ?_)
    · obtain ⟨-, -, -, hclock, -⟩ := forall_opened.mp hw
      have hplain : ∀ e : Entry gateway, Storable W e → Sendable G e → Fit G W e :=
        fun _ => And.intro
      change _ ↔ IdFits G (succeeded tr) rpcId ∧ _
      rw [encodable_held u hclock, forall_opened, hasked.failed]
      exact ⟨fun h => ⟨h.1, hplain _ trivial trivial, hplain _ trivial trivial,
        hplain _ trivial trivial, hplain _ trivial trivial, hcopied.mpr hwalked⟩,
        fun h => ⟨h.1, rfl⟩⟩
    · exact ⟨.pending (openedApproval ctx.agentId ctx.role ctx.toolName ctx.arguments
          decision.reason now u), ⟨decision, hasked.ruled, hheld⟩,
        audited_recorded hasked.unrecorded hasked.idle, _, rfl, rfl, rfl⟩
  · intro now u hw
    exact absurd rfl (hw _ List.mem_cons_self)

/-- A call that reaches the policy is reported iff its `id` can be sent back and the run is fit. -/
theorem judge_tells {i : OpaInput} (hi : ctx.toOpaInput = some i)
    (hname : Scalar ctx.toolName = true) :
    Sat Always (Tells G W rpcId ctx) (judge G rpcId ctx >>= send G) [] := by
  refine sat_bind.mpr (sat_bind.mpr ?_)
  rw [Gateway.evaluatePolicy, hi]
  by_cases he : encodable (opaRequest i) = true
  · simp only [he, if_true]
    refine sat_perform.mpr ⟨trivial, fun reply => ?_, fun _ he => by cases he⟩
    obtain ⟨hi', hargs⟩ : i.toolName = ctx.toolName ∧ i.args = ctx.arguments := by
      obtain ⟨env, -, rfl⟩ := Option.map_eq_some_iff.mp hi
      exact ⟨rfl, rfl⟩
    cases hr : readReply ctx.toolName reply with
    | none =>
      intro hw
      have hread : readReply i.toolName reply ≠ none := hw _ List.mem_cons_self
      exact absurd hr (hi' ▸ hread)
    | some decision =>
      have hasked : Asked G W ctx decision [(⟨.postOpa i, some reply⟩ : Entry gateway)] := by
        refine ⟨Or.inl ⟨reply, rfl, hr⟩, rfl, rfl, rfl, ?_⟩
        rw [List.forall_mem_singleton]
        simp [Fit, Storable, Sendable, hi', hargs, hr]
      change Sat Always _ (if decision.requireApproval then _ else _) _
      split_ifs with hheld hallow
      · exact sat_bind.mp (holdForApproval_tells hasked hheld)
      · exact sat_bind.mp (executeDirectly_tells hasked (by simpa using hheld) hallow)
      · exact sat_bind.mp (refuse_tells hasked (by simpa using hheld) (by simpa using hallow)
          (readReply_reason hname hr))
  · simp only [he, if_false, Bool.false_eq_true]
    have hasked : Asked G W ctx unavailable [] :=
      ⟨Or.inr ⟨rfl, rfl⟩, rfl, rfl, rfl, by simp [unavailable]⟩
    exact sat_bind.mp (refuse_tells hasked rfl rfl (scalar_lit _))

end Calls

/-! ## From the body of a call -/

/-- The body is a call that is put before the policy. -/
structure Judges (tooDeep : Str → Bool) (agent : Agent) (body : Bytes) (rpcId : Json)
    (ctx : ToolCallContext) : Prop where
  read : ∃ text kvs params, readBody tooDeep body = some text ∧ loads text = .ok (.obj kvs) ∧
    isText (get kvs "method") (lit "tools/call") = true ∧ paramsOf kvs = .obj params ∧
    interceptToolCall params agent = .ok ctx ∧ rpcId = get kvs "id"
  environment : inferEnvironment ctx.arguments ≠ none
  registered : ctx.toolName ∈ tools
  listed : ctx.toolName ∈ agent.allowedTools

theorem toolsCall_judges {G : Config} {agent : Agent} {rpcId : Json} {params : List (Str × Json)}
    {ctx : ToolCallContext} (hctx : interceptToolCall params agent = .ok ctx)
    (henv : inferEnvironment ctx.arguments ≠ none) (htool : ctx.toolName ∈ tools)
    (hagent : ctx.toolName ∈ agent.allowedTools) :
    toolsCall G agent rpcId params = judge G rpcId ctx := by
  obtain ⟨env, henv⟩ := Option.ne_none_iff_exists'.mp henv
  rw [toolsCall, hctx]
  simp only [henv]
  rw [if_neg (not_not_intro htool), if_neg (not_not_intro hagent)]

theorem handleBody_judges {G : Config} {tooDeep : Str → Bool} {agent : Agent} {body : Bytes}
    {rpcId : Json} {ctx : ToolCallContext} (h : Judges tooDeep agent body rpcId ctx) :
    handleBody G tooDeep agent body = judge G rpcId ctx >>= send G := by
  obtain ⟨text, kvs, params, hread, hl, hcall, hparams, hctx, rfl⟩ := h.read
  have hmethod : get kvs "method" = .str (lit "tools/call") := BlastRadius.eq_of_isText hcall
  have htruthy : truthy (get kvs "method") = true := by rw [hmethod]; decide
  have hlist : isText (get kvs "method") (lit "tools/list") = false := by rw [hmethod]; decide
  rw [handleBody, hread]
  simp only [mcp, hl, htruthy, hlist, hcall, not_true_eq_false, if_false, if_true,
    Bool.false_eq_true]
  rw [← paramsOf, hparams]
  exact congrArg (· >>= send G)
    (toolsCall_judges hctx h.environment h.registered h.listed)

theorem sat_of_forall {post : Except GwError Response → Trace gateway → Prop}
    (h : ∀ r tr, post r tr) (q : Prog gateway Response) (tr : Trace gateway) :
    Sat Always post q tr := by
  induction q generalizing tr with
  | ret a => exact h _ _
  | raise e => exact h _ _
  | call o k ih => exact ⟨trivial, fun x => ih x _, fun e _ => h _ _⟩

/-- A body puts one call at most before the policy. -/
theorem Judges.unique {tooDeep : Str → Bool} {agent : Agent} {body : Bytes} {rpcId rpcId' : Json}
    {ctx ctx' : ToolCallContext} (h : Judges tooDeep agent body rpcId ctx)
    (h' : Judges tooDeep agent body rpcId' ctx') : rpcId' = rpcId ∧ ctx' = ctx := by
  obtain ⟨text, kvs, params, hread, hl, -, hparams, hctx, rfl⟩ := h.read
  obtain ⟨text', kvs', params', hread', hl', -, hparams', hctx', rfl⟩ := h'.read
  obtain rfl : text' = text := Option.some.inj (hread'.symm.trans hread)
  obtain rfl : kvs' = kvs := by simpa using hl'.symm.trans hl
  obtain rfl : params' = params := by simpa using hparams'.symm.trans hparams
  exact ⟨rfl, Except.ok.inj (hctx'.symm.trans hctx)⟩

theorem handleBody_tells (W : World) (G : Config) (tooDeep : Str → Bool) (agent : Agent)
    (body : Bytes) :
    Sat Always (fun r tr => ∀ rpcId ctx, Judges tooDeep agent body rpcId ctx →
      Tells G W rpcId ctx r tr)
      (handleBody G tooDeep agent body) [] := by
  by_cases h : ∃ rpcId ctx, Judges tooDeep agent body rpcId ctx
  · obtain ⟨rpcId, ctx, hjudges⟩ := h
    obtain ⟨env, henv⟩ := Option.ne_none_iff_exists'.mp hjudges.environment
    have htells : Sat Always (Tells G W rpcId ctx) (judge G rpcId ctx >>= send G) [] :=
      judge_tells (by rw [ToolCallContext.toOpaInput, henv]; rfl) (scalar_tools hjudges.registered)
    rw [handleBody_judges hjudges]
    apply htells.mono
    intro r tr htell rpcId' ctx' hjudges'
    obtain ⟨rfl, rfl⟩ := hjudges.unique hjudges'
    exact htell
  · apply sat_of_forall
    intro r tr rpcId ctx hjudges
    exact absurd ⟨rpcId, ctx, hjudges⟩ h

/-! ## `POST /admin/approvals/{id}/decide` -/

section Decide

variable {W : World} {G : Config} {approvalId : Str} {timestamp signature : Option Str}
variable {body : Bytes}

/-- A decision was written. -/
def Decided (tr : Trace gateway) : Prop :=
  ∃ key value ttl, (⟨.redisSet key value ttl, some ()⟩ : Entry gateway) ∈ tr

/-- A decide request writes nothing, or goes on from the decision that it has written. -/
theorem decideApproval_cases {post : Except GwError Response → Trace gateway → Prop}
    (hquiet : ∀ r tr, ¬ Decided tr → post r tr)
    (hruled : ∀ R : Ruling G approvalId timestamp signature body,
      Sat Always post (answerDecision R.payload (some R.resolved, .decided)) R.after) :
    Sat Always post (Gateway.decideApproval G approvalId timestamp signature body) [] := by
  have hnil : ¬ Decided [] := by simp [Decided]
  refine sat_bind.mpr ?_
  apply verifySignature_sat
  · trivial
  · exact hquiet _ _ hnil
  · exact fun now => hquiet _ _ (by simp [Decided])
  · exact fun now e => hquiet _ _ (by simp [Decided])
  intro now hsigned
  change Sat Always _ _ _
  simp only [not_true_eq_false, if_false]
  cases hvalid : G.validate body with
  | error exc => exact hquiet _ _ (by simp [Decided])
  | ok payload =>
    simp only
    by_cases hverdict : payload.decision = lit "approve" ∨ payload.decision = lit "deny"
    · rw [if_neg (by tauto)]
      refine sat_bind.mpr ?_
      apply ApprovalStore.decideApproval_sat
      · trivial
      · exact hquiet _ _ (by simp [Decided])
      · exact hquiet _ _ (by simp [Decided])
      · exact fun raw e _ => hquiet _ _ (by simp [Decided, readTrace])
      · exact fun raw a _ _ => hquiet _ _ (by simp [Decided, readTrace])
      · exact fun _ => trivial
      · exact fun raw a later _ => hquiet _ _ (by simp [Decided, readTrace])
      · exact fun _ _ => trivial
      · intro raw a later decidedAt hraw hpending htime
        let R : Ruling G approvalId timestamp signature body :=
          ⟨payload, raw, a, now, later, decidedAt, hsigned, hvalid, hverdict, hraw, hpending, htime⟩
        exact ⟨trivial, hruled R, hquiet _ _ (by simp [Decided, checkedTrace, readTrace])⟩
    · rw [if_pos (by tauto)]
      exact hquiet _ _ (by simp [Decided])

/-- The decision of `R` is reported iff the row can be stored. -/
def Tracked (W : World) (R : Ruling G approvalId timestamp signature body)
    (_ : Except GwError Response) (tr : Trace gateway) : Prop :=
  R.after <:+ tr ∧ ((∀ e ∈ tr, Serves W e) →
    (Pushed R.payload R.approval tr ↔ ∀ e ∈ tr, Storable W e))

theorem storable_recorded {event : AuditEvent} {res : Option Unit} {ms : ℤ} {now : Magnitude}
    {tr : Trace gateway} :
    (∀ e ∈ (⟨.recordToolCall event, res⟩ : Entry gateway) :: timedTrace ms now tr, Storable W e) ↔
      W.insertable event = true ∧ ∀ e ∈ tr, Storable W e := by
  rw [forall_recorded]
  constructor
  · rintro ⟨hevent, _, _, htr⟩
    exact ⟨hevent, htr⟩
  · rintro ⟨hevent, htr⟩
    exact ⟨hevent, trivial, trivial, htr⟩

/-- Records an event about a decision and pushes another. -/
theorem record_push_tracked {R : Ruling G approvalId timestamp signature body} (fate : Fate)
    {reason : Option Str} {event : Json} {resp : Response} {tr : Trace gateway}
    (hsuffix : R.after <:+ tr) (hresolves : fate.Resolves R.payload)
    (hpush : fate.push R.approval = some event) (hrecorded : recorded tr = [])
    (hran : executions tr = fate.executions (approvalCall R.approval))
    (hpublished : published tr = []) (hstorable : ∀ e ∈ tr, Storable W e) :
    Sat Always (Tracked W R)
      (record (approvalCall R.approval) fate.label reason fate.result (some R.approval.id) >>= fun _ =>
        perform (S := gateway) (.publish R.approval.agentId event) >>= fun _ => .ret resp) tr := by
  have hlater : ∀ ms now, R.after <:+ timedTrace ms now tr := fun ms now =>
    (hsuffix.trans (List.suffix_cons _ _)).trans (List.suffix_cons _ _)
  refine sat_bind.mpr ?_
  apply record_sat
  · trivial
  · exact fun _ => trivial
  · exact fun _ _ => trivial
  · intro ms now
    change Sat Always (Tracked W R) _ _
    refine sat_perform.mpr ⟨trivial, fun _ => ?_, fun _ he => by cases he⟩
    refine ⟨((hlater ms now).trans (List.suffix_cons _ _)).trans (List.suffix_cons _ _), fun hw => ?_⟩
    obtain ⟨hevent, -⟩ := serves_recorded (List.forall_mem_cons.mp hw).2
    simp only [reduceCtorEq, false_iff, Bool.not_eq_false] at hevent
    refine ⟨fun _ => ?_, fun _ => ⟨fate, hresolves, ?_, ?_⟩⟩
    · rw [List.forall_mem_cons, storable_recorded]
      exact ⟨trivial, hevent, hstorable⟩
    · refine ⟨⟨reason, ms, now, ?_⟩, hran⟩
      change _ :: recorded tr = _
      rw [hrecorded]
    · refine ⟨event, hpush, ?_⟩
      change _ :: published tr = _
      rw [hpublished]
  · intro ms now
    refine ⟨(hlater ms now).trans (List.suffix_cons _ _), fun hw => ?_⟩
    obtain ⟨hevent, -⟩ := serves_recorded hw
    rw [storable_recorded, hevent.mp rfl]
    refine ⟨?_, fun h => absurd h.1 Bool.false_ne_true⟩
    rintro ⟨fate', -, ⟨⟨reason', ms', now', hone⟩, -⟩, -⟩
    change recorded tr = _ at hone
    rw [hrecorded] at hone
    cases hone

theorem after_storable (R : Ruling G approvalId timestamp signature body) :
    ∀ e ∈ R.after, Storable W e := by
  simp [Ruling.after, Ruling.before, checkedTrace, readTrace, Storable]

theorem resume_tracked {R : Ruling G approvalId timestamp signature body}
    (happrove : R.payload.decision = lit "approve") :
    Sat Always (Tracked W R) (resume R.resolved R.payload) R.after := by
  refine sat_perform.mpr ⟨trivial, fun outcome => ?_, fun _ he => by cases he⟩
  have hsuffix : R.after <:+ ranTrace R.approval.toolName R.approval.arguments outcome R.after :=
    List.suffix_cons _ _
  have hstorable : ∀ e ∈ ranTrace R.approval.toolName R.approval.arguments outcome R.after,
      Storable W e := by
    rw [ranTrace, List.forall_mem_cons]
    exact ⟨trivial, after_storable R⟩
  cases outcome with
  | success result =>
    exact record_push_tracked (.executed (.success result)) hsuffix happrove rfl rfl rfl rfl
      hstorable
  | executorError errorType message =>
    exact record_push_tracked (.executed (.executorError errorType message)) hsuffix
      happrove rfl rfl rfl rfl hstorable
  | unhandledError message =>
    exact record_push_tracked (.executed (.unhandledError message)) hsuffix happrove rfl rfl
      rfl rfl hstorable

theorem reportDenial_tracked {R : Ruling G approvalId timestamp signature body}
    (hdeny : R.payload.decision = lit "deny") :
    Sat Always (Tracked W R) (reportDenial R.resolved R.payload) R.after :=
  record_push_tracked (.approvalDenied (denialReason R.payload)) (List.suffix_refl _)
    ⟨hdeny, rfl⟩ rfl rfl rfl rfl (after_storable R)

theorem decided_tracked (R : Ruling G approvalId timestamp signature body) :
    Sat Always (Tracked W R) (answerDecision R.payload (some R.resolved, .decided)) R.after := by
  change Sat Always (Tracked W R) (if decidedStatus R.payload.decision = lit "denied" then _ else _) _
  by_cases happrove : R.payload.decision = lit "approve"
  · rw [if_neg (by rw [decidedStatus, if_pos happrove]; decide)]
    exact resume_tracked happrove
  · rw [if_pos (by rw [decidedStatus, if_neg happrove])]
    exact reportDenial_tracked (R.verdict.resolve_left happrove)

theorem decideApproval_tracked (W : World) :
    Sat Always (fun r tr => Decided tr →
      ∃ R : Ruling G approvalId timestamp signature body, Tracked W R r tr)
      (Gateway.decideApproval G approvalId timestamp signature body) [] := by
  apply decideApproval_cases
  · exact fun r tr hnot hdecided => absurd hdecided hnot
  · intro R
    exact (decided_tracked R).mono fun r tr h _ => ⟨R, h⟩

end Decide

/-! ## Both handlers -/

/-- A call that reaches the policy is reported by one audit event and the response iff its `id` can
be sent back, its row stored, its outcome put into a response and, if it is held, its arguments
copied; a decision on an approval by one audit event and one push iff its row can be stored. -/
theorem reported_consistently_iff (W : World) (G : Config) :
    (∀ fate : Fate, fate.Told) ∧
    (∀ tooDeep agent body, Sat Always (fun r tr => ∀ rpcId ctx,
      Judges tooDeep agent body rpcId ctx → (∀ e ∈ tr, Serves W e) →
      (Reported rpcId ctx r tr ↔ IdFits G (succeeded tr) rpcId ∧ ∀ e ∈ tr, Fit G W e))
      (handleBody G tooDeep agent body) []) ∧
    ∀ approvalId timestamp signature body, Sat Always (fun _ tr => Decided tr →
      ∃ R : Ruling G approvalId timestamp signature body, R.after <:+ tr ∧
        ((∀ e ∈ tr, Serves W e) →
          (Pushed R.payload R.approval tr ↔ ∀ e ∈ tr, Storable W e)))
      (Gateway.decideApproval G approvalId timestamp signature body) [] :=
  ⟨told, handleBody_tells W G, fun _ _ _ _ => decideApproval_tracked W⟩

/-- Python reads `NaN`, and the encoding of a response refuses it. -/
def nanBody : Bytes :=
  Mediation.asciiBytes (lit ("\x7b\"id\": NaN, \"method\": \"tools/call\", \"params\": \x7b\"name\": " ++
    "\"list_pods\", \"arguments\": \x7b\"namespace\": \"dev\"\x7d\x7d\x7d"))

/-- The call that a body puts before the policy, with its `id`. -/
def judgedCall (tooDeep : Str → Bool) (agent : Agent) (body : Bytes) :
    Option (Json × ToolCallContext) :=
  (readBody tooDeep body).bind fun text =>
    match loads text with
    | .ok (.obj kvs) =>
      match paramsOf kvs with
      | .obj params =>
        match interceptToolCall params agent with
        | .ok ctx =>
          if isText (get kvs "method") (lit "tools/call") = true ∧
              (inferEnvironment ctx.arguments).isSome = true ∧ ctx.toolName ∈ tools ∧
              ctx.toolName ∈ agent.allowedTools then some (get kvs "id", ctx)
          else none
        | .error _ => none
      | _ => none
    | _ => none

theorem judges_of_judgedCall {tooDeep : Str → Bool} {agent : Agent} {body : Bytes} {rpcId : Json}
    {ctx : ToolCallContext} (h : judgedCall tooDeep agent body = some (rpcId, ctx)) :
    Judges tooDeep agent body rpcId ctx := by
  obtain ⟨text, hread, h⟩ := Option.bind_eq_some_iff.mp h
  split at h
  · rename_i kvs hl
    split at h
    · rename_i params hparams
      split at h
      · rename_i ctx' hctx
        split_ifs at h with hcall
        obtain ⟨rfl, rfl⟩ := Prod.mk.inj (Option.some.inj h)
        obtain ⟨hmethod, henv, htool, hagent⟩ := hcall
        exact ⟨⟨text, kvs, params, hread, hl, hmethod, hparams, hctx, rfl⟩,
          Option.isSome_iff_ne_none.mp henv, htool, hagent⟩
      · cases h
    · cases h
  · cases h

/-- A refused call is not reported if its `id` cannot be encoded. -/
theorem unencodable_refusal {G : Config} {rpcId : Json} {ctx : ToolCallContext} {decision : Decision}
    {tr : Trace gateway} (hid : encodable rpcId = false) (htr : ∀ e ∈ tr, Serves openWorld e) :
    ¬ Sat Always (fun r tr => (∀ e ∈ tr, Serves openWorld e) → Reported rpcId ctx r tr)
      (refuse rpcId ctx decision >>= send G) tr := by
  intro h
  -- the run that records the event, and then has nothing that it could send
  have hrun : Sat Always (fun r tr => (∀ e ∈ tr, Serves openWorld e) → Reported rpcId ctx r tr)
      (send G ⟨403, rpcError rpcId (-32603) (lit "Tool call denied by policy") (some (.obj
        [(lit "reason", .str decision.reason), (lit "policy_decision", .str (lit "deny"))]))⟩)
      (⟨.recordToolCall (eventOf (callOf ctx) (lit "denied") (some decision.reason) none none 0
        zeroMagnitude), some ()⟩ :: timedTrace 0 zeroMagnitude tr) :=
    ((h.2.1 (0 : ℤ)).2.1 zeroMagnitude).2.1 ()
  obtain ⟨e, he⟩ : ∃ e, send G ⟨403, rpcError rpcId (-32603) (lit "Tool call denied by policy")
      (some (.obj [(lit "reason", .str decision.reason),
        (lit "policy_decision", .str (lit "deny"))]))⟩ = .raise e := by
    refine (sends_error (G := G) ?_).spoilt fun h => ?_
    · rintro d ⟨⟩
      simp [depth, depthMembers]
    · simp [sendable, hid] at h
  rw [he] at hrun
  refine not_reported_error _ _ (hrun ?_)
  rw [forall_recorded]
  exact ⟨by simp [Serves, openWorld], by simp only [Serves]; decide +kernel, trivial, htr⟩

theorem unencodable_unreported {G : Config} {rpcId : Json} {ctx : ToolCallContext} {i : OpaInput}
    (hi : ctx.toOpaInput = some i) (hid : encodable rpcId = false) :
    ¬ Sat Always (fun r tr => (∀ e ∈ tr, Serves openWorld e) → Reported rpcId ctx r tr)
      (judge G rpcId ctx >>= send G) [] := by
  intro h
  have h := sat_bind.mp (sat_bind.mp h)
  rw [Gateway.evaluatePolicy, hi] at h
  by_cases he : encodable (opaRequest i) = true
  · simp only [he, if_true] at h
    have hserves : ∀ e ∈ [(⟨.postOpa i, some .transportError⟩ : Entry gateway)],
        Serves openWorld e := by
      intro e he
      obtain rfl := List.mem_singleton.mp he
      simp [Serves, readReply]
    exact unencodable_refusal hid hserves (sat_bind.mpr (h.2.1 .transportError))
  · simp only [he, if_false, Bool.false_eq_true] at h
    exact unencodable_refusal hid (List.forall_mem_nil _) (sat_bind.mpr h)

theorem unencodable_body {G : Config} {tooDeep : Str → Bool} {agent : Agent} {body : Bytes}
    {rpcId : Json} {ctx : ToolCallContext} (hjudges : Judges tooDeep agent body rpcId ctx)
    (hid : encodable rpcId = false) : ¬ Sat Always (fun r tr => ∀ rpcId ctx,
      Judges tooDeep agent body rpcId ctx → (∀ e ∈ tr, Serves openWorld e) →
      Reported rpcId ctx r tr) (handleBody G tooDeep agent body) [] := by
  intro h
  obtain ⟨env, henv⟩ := Option.ne_none_iff_exists'.mp hjudges.environment
  rw [handleBody_judges hjudges] at h
  exact unencodable_unreported (by rw [ToolCallContext.toOpaInput, henv]; rfl) hid
    (h.mono fun r tr hpost => hpost rpcId ctx hjudges)

/-- The `id` is not a number: the call is judged and recorded, and no response can be sent. -/
theorem nan_id_unreported : ¬ Sat Always (fun r tr => ∀ rpcId ctx,
      Judges (fun _ => false) Mediation.sre nanBody rpcId ctx →
      (∀ e ∈ tr, Serves openWorld e) → Reported rpcId ctx r tr)
    (handleBody Mediation.demoConfig (fun _ => false) Mediation.sre nanBody) [] := by
  have hcall : (judgedCall (fun _ => false) Mediation.sre nanBody).any
      (fun call => !encodable call.1) = true := by decide +kernel
  obtain ⟨call, hcall, hid⟩ := (Option.any_eq_true _ _).mp hcall
  exact unencodable_body (judges_of_judgedCall hcall) (by simpa using hid)

end CallReports
