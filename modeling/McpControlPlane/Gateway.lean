import McpControlPlane.ApprovalStore
import McpControlPlane.SlackSignature

/-! # The gateway's handlers

`POST /mcp` with `tools/call` asks the policy and then refuses, holds or executes the call;
`POST /admin/approvals/{id}/decide` checks the signature, resolves the approval and resumes the
call. Both write the audit log after the fact. -/
namespace Gateway

open PyText Binary64 JsonText JsonDict PyJson UuidTime AuditLog ToolPolicy PolicyDecision
open GatewayOps ApprovalStore SlackSignature Interleaving

structure Response where
  status : ℕ
  body : Json

/-- `ApprovalDecisionRequest`. -/
structure DecisionRequest where
  decision : Str
  decidedBy : Str
  note : Option Str

/-- Where Python's recursion limit ends a walk over what a request brought. `asdict` of an approval
that is created or polled hits it in its arguments. `jsonable_encoder` and the `json.dumps` of a
response nest calls up to a bound, which the gateway's own texts stay below. -/
structure Limits where
  created : Json → Bool
  polled : Json → Bool
  encoder : ℕ
  response : ℕ
  roomy : 8 ≤ encoder ∧ 8 ≤ response

/-- With a limit of 1000 for the frames of Python and 10000 for the calls of C. -/
def Limits.typical : Limits where
  created v := 900 < depth 1 v
  polled v := 900 < depth 1 v
  encoder := 900
  response := 9900
  roomy := by decide

/-- `validate` is `ApprovalDecisionRequest.model_validate_json`, `str` Python's conversion to text. -/
structure Config where
  slack : Slack
  validate : Bytes → Except Str DecisionRequest
  str : Json → Str
  limits : Limits := .typical

def rpcResult (rpcId result : Json) : Json :=
  .obj [(lit "jsonrpc", .str (lit "2.0")), (lit "id", rpcId), (lit "result", result)]

def rpcError (rpcId : Json) (code : ℤ) (message : Str) (data : Option Json) : Json :=
  .obj [(lit "jsonrpc", .str (lit "2.0")), (lit "id", rpcId),
    (lit "error", .obj ([(lit "code", intJson code), (lit "message", .str message)] ++
      (data.map fun d => (lit "data", d)).toList))]

def errorBody (message : Str) : Json := .obj [(lit "error", .str message)]

/-- FastAPI encodes a dict that a handler returns. -/
def returned (G : Config) (body : Json) : Prog gateway Response :=
  if G.limits.encoder < depth 1 (jsonableEncoder body) then .raise .recursion
  else return ⟨200, jsonableEncoder body⟩

/-- The names in `TOOLS`. -/
def tools : List Str :=
  [lit "list_pods", lit "get_pod_logs", lit "get_deployment_status", lit "restart_deployment",
    lit "scale_deployment", lit "exec_into_pod", lit "apply_k8s_manifest",
    lit "query_terraform_plan", lit "trigger_jenkins_job", lit "get_jenkins_job_status",
    lit "read_prometheus_metrics", lit "open_ticket", lit "read_ticket"]

/-- `_ERROR_TYPE_STATUS`. -/
def errorTypeStatus (errorType : Str) : Option ℕ :=
  ([(lit "validation_error", 400), (lit "not_found", 404), (lit "permission_denied", 403),
    (lit "executor_timeout", 504), (lit "upstream_error", 502)].find? fun e =>
      e.1 = errorType).map Prod.snd

def timeoutLabel (errorType : Str) : Str :=
  if errorType = lit "executor_timeout" then lit "executor_timeout" else lit "error"

/-! ## `evaluate_policy` -/

def evaluatePolicy (ctx : ToolCallContext) : Prog gateway Decision :=
  match ctx.toOpaInput with
  | none => .raise .attribute
  | some i =>
    if encodable (opaRequest i) then do
      let reply : OpaReply ← perform (S := gateway) (.postOpa i)
      match readReply ctx.toolName reply with
      | none => .raise .attribute
      | some decision => return decision
    else return unavailable

/-! ## `record_tool_call` -/

/-- Whose call an event is about. -/
structure Call where
  agentId : Str
  role : Str
  toolName : Str
  arguments : List (Str × Json)

def eventOf (call : Call) (decision : Str) (reason : Option Str) (result : Option Json)
    (approvalId : Option Str) (ms : ℤ) (now : Magnitude) : AuditEvent where
  agentId := call.agentId
  role := call.role
  toolName := call.toolName
  arguments := .obj call.arguments
  decision := decision
  reason := reason
  result := result
  approvalId := approvalId
  durationMs := some ms
  timestamp := .finite false now

def record (call : Call) (decision : Str) (reason : Option Str) (result : Option Json)
    (approvalId : Option Str) : Prog gateway Unit := do
  let ms : ℤ ← perform (S := gateway) .durationMs
  let now : Magnitude ← perform (S := gateway) .time
  perform (S := gateway) (.recordToolCall (eventOf call decision reason result approvalId ms now))

def callOf (ctx : ToolCallContext) : Call := ⟨ctx.agentId, ctx.role, ctx.toolName, ctx.arguments⟩

def pendingLabel : Str := lit "pending_approval"

/-! ## `POST /mcp` -/

def pollUrl (approvalId : Str) : Str := lit "/admin/approvals/" ++ approvalId ++ lit "/status"

def heldResult (approval : Approval) : Json :=
  .obj [(lit "content", .arr [.obj [(lit "type", .str (lit "text")),
      (lit "text", .str (lit "This action requires human approval. " ++
        lit "Approval request sent to Slack. Approval ID: " ++ approval.id))]]),
    (lit "isError", .bool false),
    (lit "_meta", .obj [(lit "approval_id", .str approval.id),
      (lit "approval_status", .str (lit "pending")),
      (lit "expires_at", jsonFloat approval.expiresAt),
      (lit "poll_url", .str (pollUrl approval.id))])]

def holdForApproval (G : Config) (rpcId : Json) (ctx : ToolCallContext) (decision : Decision) :
    Prog gateway Response := do
  let approval ← createPendingApproval G.limits.created ctx.agentId ctx.role ctx.toolName
    ctx.arguments decision.reason
  perform (S := gateway) (.sendApprovalRequest approval.id)
  record (callOf ctx) pendingLabel (some decision.reason) none (some approval.id)
  return ⟨202, rpcResult rpcId (heldResult approval)⟩

def refuse (rpcId : Json) (ctx : ToolCallContext) (decision : Decision) :
    Prog gateway Response := do
  record (callOf ctx) (lit "denied") (some decision.reason) none none
  return ⟨403, rpcError rpcId (-32603) (lit "Tool call denied by policy")
    (some (.obj [(lit "reason", .str decision.reason), (lit "policy_decision", .str (lit "deny"))]))⟩

def executorErrorData (message errorType : Str) : Json :=
  .obj [(lit "reason", .str message), (lit "error_type", .str errorType),
    (lit "policy_decision", .str (lit "allow"))]

/-- A status is looked up before the event is recorded. -/
def executeDirectly (G : Config) (rpcId : Json) (ctx : ToolCallContext) (decision : Decision) :
    Prog gateway Response := do
  let outcome : Outcome ← perform (S := gateway) (.runTool ctx.toolName ctx.arguments)
  match outcome with
  | .executorError errorType message =>
    match errorTypeStatus errorType with
    | none => .raise .key
    | some status => do
      record (callOf ctx) (timeoutLabel errorType) (some message) none none
      return ⟨status, rpcError rpcId (-32603) (lit "Executor error: " ++ message)
        (some (executorErrorData message errorType))⟩
  | .unhandledError message => do
    record (callOf ctx) (lit "error") (some message) none none
    return ⟨500, rpcError rpcId (-32603) (lit "Executor error")
      (some (executorErrorData message (lit "upstream_error")))⟩
  | .success result => do
    record (callOf ctx) (lit "allowed") (some decision.reason) (some result) none
    returned G (rpcResult rpcId result)

def invalidParams (rpcId : Json) (field error : Str) : Response :=
  ⟨400, rpcError rpcId (-32602) (lit "Invalid params")
    (some (.obj [(lit "field", .str field), (lit "error", .str error)]))⟩

def unknownTool (rpcId : Json) (name : Str) : Response :=
  invalidParams rpcId (lit "name") (lit "unknown tool '" ++ name ++ lit "'")

def forbidden (rpcId : Json) (agent : Agent) (toolName : Str) : Response :=
  ⟨403, rpcError rpcId (-32003) (lit "Forbidden") (some (.obj [(lit "field", .str (lit "name")),
    (lit "error", .str (lit "agent '" ++ agent.id ++ lit "' is not allowed to call '" ++ toolName ++
      lit "'")), (lit "policy_decision", .str (lit "forbidden"))]))⟩

/-- A call that the interceptor, the tool table and the agent's list let through. -/
def judge (G : Config) (rpcId : Json) (ctx : ToolCallContext) : Prog gateway Response := do
  let decision ← evaluatePolicy ctx
  if decision.requireApproval then holdForApproval G rpcId ctx decision
  else if decision.allow then executeDirectly G rpcId ctx decision
  else refuse rpcId ctx decision

/-- The environment is read for the span before the name is looked up. -/
def toolsCall (G : Config) (agent : Agent) (rpcId : Json) (params : List (Str × Json)) :
    Prog gateway Response :=
  match interceptToolCall params agent with
  | .error (.missingParam field message) => return invalidParams rpcId field message
  | .error (.noToolName name arguments) =>
    match inferEnvironment arguments, name with
    | none, _ => .raise .attribute
    | some _, .arr _ => .raise .type
    | some _, .obj _ => .raise .type
    | some _, name => return unknownTool rpcId (G.str name)
  | .ok ctx =>
    match inferEnvironment ctx.arguments with
    | none => .raise .attribute
    | some _ =>
      if ctx.toolName ∉ tools then return unknownTool rpcId ctx.toolName
      else if ctx.toolName ∉ agent.allowedTools then return forbidden rpcId agent ctx.toolName
      else judge G rpcId ctx

def toolsList (agent : Agent) (rpcId : Json) : Json :=
  rpcResult rpcId (.obj [(lit "tools", .arr ((tools.filter fun name =>
    agent.allowedTools.contains name).map fun name => .obj [(lit "name", .str name)]))])

def mcp (G : Config) (agent : Agent) (body : Str) : Prog gateway Response :=
  match loads body with
  | .error .decode => return ⟨400, rpcError .null (-32700) (lit "Parse error") none⟩
  | .error .value => .raise .value
  | .ok (.obj body) =>
    let rpcId := get body "id"
    let method := get body "method"
    let params := if truthy (get body "params") then get body "params" else .obj []
    if ¬ truthy method then
      return ⟨400, rpcError rpcId (-32600) (lit "Invalid Request: missing method") none⟩
    else if isText method (lit "tools/list") then returned G (toolsList agent rpcId)
    else if isText method (lit "tools/call") then
      match params with
      | .obj params => toolsCall G agent rpcId params
      | _ => .raise .attribute
    else return ⟨404, rpcError rpcId (-32601) (lit "Method not found: " ++ G.str method) none⟩
  | .ok _ => return ⟨400, rpcError .null (-32600) (lit "Invalid Request") none⟩

/-! ## `POST /admin/approvals/{id}/decide` -/

def approvalCall (a : Approval) : Call := ⟨a.agentId, a.role, a.toolName, a.arguments⟩

def sseEvent (a : Approval) (status : String) (more : List (Str × Json)) : Json :=
  .obj ([(lit "approval_id", .str a.id), (lit "tool_name", .str a.toolName),
    (lit "status", .str (lit status))] ++ more)

def decided (a : Approval) (status : String) : Response :=
  ⟨200, .obj [(lit "approval_id", .str a.id), (lit "status", .str (lit status))]⟩

def denialReason (payload : DecisionRequest) : Str :=
  lit "denied by " ++ payload.decidedBy ++
    if missing payload.note then [] else lit ": " ++ payload.note.getD []

def reportDenial (a : Approval) (payload : DecisionRequest) : Prog gateway Response := do
  let reason := denialReason payload
  record (approvalCall a) (lit "approval_denied") (some reason) none (some a.id)
  perform (S := gateway) (.publish a.agentId (sseEvent a "denied" [(lit "reason", .str reason)]))
  return decided a "denied"

def resume (a : Approval) (payload : DecisionRequest) : Prog gateway Response := do
  let outcome : Outcome ← perform (S := gateway) (.runTool a.toolName a.arguments)
  match outcome with
  | .success result => do
    record (approvalCall a) (lit "allowed") (some (lit "approved by " ++ payload.decidedBy))
      (some result) (some a.id)
    perform (S := gateway) (.publish a.agentId (sseEvent a "approved" [(lit "result", result)]))
    return decided a "approved"
  | .executorError errorType message => do
    record (approvalCall a) (timeoutLabel errorType) (some message) none (some a.id)
    perform (S := gateway) (.publish a.agentId (sseEvent a "error" [(lit "error", .str message)]))
    return decided a "approved"
  | .unhandledError message => do
    record (approvalCall a) (lit "error") (some message) none (some a.id)
    perform (S := gateway) (.publish a.agentId (sseEvent a "error" [(lit "error", .str message)]))
    return decided a "approved"

/-- What follows a decision of the store. -/
def answerDecision (payload : DecisionRequest) :
    Option Approval × DecideOutcome → Prog gateway Response
  | (some a, .alreadyDecided) => return ⟨409, .obj [
      (lit "error", .str (lit "approval already decided")), (lit "status", .str a.status)]⟩
  | (some a, .decided) =>
    if a.status = lit "denied" then reportDenial a payload else resume a payload
  | (_, .notFound) => return ⟨410, errorBody (lit "approval not found or expired")⟩
  | (none, _) => .raise .attribute

def decideApproval (G : Config) (approvalId : Str) (timestamp signature : Option Str)
    (body : Bytes) : Prog gateway Response := do
  let valid ← verifySignature G.slack timestamp body signature
  if ¬ valid then return ⟨401, errorBody (lit "invalid or missing Slack signature")⟩
  else
    match G.validate body with
    | .error exc => return ⟨400, errorBody (lit "invalid request body: " ++ exc)⟩
    | .ok payload =>
      if payload.decision ≠ lit "approve" ∧ payload.decision ≠ lit "deny" then
        return ⟨400, errorBody (lit "decision must be 'approve' or 'deny'")⟩
      else do
        let result ← ApprovalStore.decideApproval approvalId payload.decision payload.decidedBy
        answerDecision payload result

/-- `return asdict(approval)`. -/
def returnApproval (G : Config) (a : Approval) : Prog gateway Response :=
  if G.limits.polled (.obj a.arguments) then .raise .recursion else returned G a.json

def approvalStatus (G : Config) (approvalId : Str) : Prog gateway Response := do
  let found ← getApproval approvalId
  match found with
  | none => return ⟨410, errorBody (lit "approval not found or expired")⟩
  | some a => returnApproval G a

/-! ## The system -/

inductive GwReq where
  | mcp (agent : Agent) (body : Str)
  | decide (approvalId : Str) (timestamp signature : Option Str) (body : Bytes)
  | status (approvalId : Str)

def handle (G : Config) : GwReq → Prog gateway Response
  | .mcp agent body => mcp G agent body
  | .decide approvalId timestamp signature body =>
    decideApproval G approvalId timestamp signature body
  | .status approvalId => approvalStatus G approvalId

/-- Any number of requests, in one or several processes. -/
abbrev gatewaySystem (G : Config) (W : World) : System gateway := gwSystem W GwReq Response (handle G)

abbrev GatewayPool (G : Config) (W : World) := Pool (gatewaySystem G W)

end Gateway
