import McpControlPlane.RateLimiter
import McpControlPlane.RpcErrors
import McpControlPlane.Stacking

/-! # The handlers behind their middleware

A request passes `log_requests`, `authenticate` and `rate_limit` before the endpoint that the router
picks. The middlewares look at `request.url.path`, which Starlette puts together with the Host
header, so nothing says that it is the path that was routed. -/
namespace Server

open PyText JsonText JsonDict PyJson ToolPolicy GatewayOps Gateway RateLimiter RpcErrors Interleaving

/-- `Agent_data`; `agent.id` is its text. -/
structure AgentData where
  agent : Agent
  rateLimitRpm : ℤ

def defaultRateLimitRpm : ℤ := 60

/-- `API_KEYS`. -/
def registry : List (Str × AgentData) :=
  [(lit "test_key", {
    agent := {
      id := lit "agent01"
      role := lit "sre1"
      allowedTools := [lit "get_pod_logs", lit "list_pods", lit "get_deployment_status",
        lit "restart_deployment", lit "scale_deployment", lit "read_prometheus_metrics",
        lit "exec_into_pod", lit "apply_k8s_manifest"] }
    rateLimitRpm := defaultRateLimitRpm })]

structure HttpResponse where
  status : ℕ
  body : Json
  headers : List (Str × Str)

/-- The endpoint. `other` is one that does none of the operations below. -/
inductive Route where
  | mcp (body : Bytes)
  | decide (approvalId : Str) (timestamp signature : Option Str) (body : Bytes)
  | status (approvalId : Str)
  | sse
  | other (response : HttpResponse)

structure HttpRequest where
  path : Str
  apiKey : Option Str
  route : Route

/-- `tooDeep` is the text that Python's recursion limit does not let `request.json()` read. -/
structure Deployment where
  config : Config
  tooDeep : Str → Bool
  apiKeys : Str → Option AgentData

/-! ## Operations -/

inductive HttpOp where
  | rateLimitHit (agentId : Str)
  | logged (path : Str) (status : ℕ)

abbrev http : Signature where
  Op := HttpOp
  Res _ := Unit
  Exn := GwError
  fails _ := none

abbrev edge : Signature := rates.sum http

abbrev server : Signature := edge.sum gateway

def note (o : HttpOp) : Prog server Unit := (perform (S := http) o).inr.inl

def onRates (tr : Trace rates) : Trace server := (tr.map Entry.inl).map Entry.inl

def noted (o : HttpOp) : Entry server := ⟨.inl (.inr o), some ()⟩

/-! ## `authenticate` -/

def publicPaths : List Str := [lit "/health/live", lit "/health/ready"]

def publicPathPrefixes : List Str := [lit "/admin/approvals/", lit "/admin/audit"]

def isPublic (path : Str) : Bool :=
  publicPaths.contains path || publicPathPrefixes.any fun start => start.isPrefixOf path

def unauthorized : HttpResponse :=
  ⟨401, rpcError .null (-32001) (lit "Missing or invalid API key") none, []⟩

/-- `callNext` takes `request.state.agent`. -/
def authenticate (D : Deployment) (req : HttpRequest)
    (callNext : Option AgentData → Prog server HttpResponse) : Prog server HttpResponse :=
  if isPublic req.path then callNext none
  else
    match req.apiKey.bind D.apiKeys with
    | none => return unauthorized
    | some agent => callNext (some agent)

/-! ## `rate_limit` -/

def rateLimitWindowSeconds : ℕ := 60

def mcpPath : Str := lit "/mcp"

/-- `str` of an integer. -/
def intText (z : ℤ) : Str := minusText (z < 0) ++ natText z.natAbs

def retryText (retryAfter : Option ℤ) : Str := (retryAfter.map intText).getD (lit "None")

def tooManyRequests (result : RateLimitResult) : HttpResponse where
  status := 429
  body := rpcError .null (-32029) (lit "Rate limit exceeded")
    (some (.obj [(lit "limit", intJson result.limit),
      (lit "retry_after", (result.retryAfter.map intJson).getD .null)]))
  headers := [(lit "X-RateLimit-Limit", intText result.limit), (lit "X-RateLimit-Remaining", lit "0"),
    (lit "X-RateLimit-Reset", intText result.reset),
    (lit "Retry-After", retryText result.retryAfter)]

def rateHeaders (result : RateLimitResult) : List (Str × Str) :=
  [(lit "X-RateLimit-Limit", intText result.limit),
    (lit "X-RateLimit-Remaining", intText result.remaining),
    (lit "X-RateLimit-Reset", intText result.reset)]

def HttpResponse.withHeaders (response : HttpResponse) (headers : List (Str × Str)) : HttpResponse :=
  { response with headers := response.headers ++ headers }

def rateLimit (req : HttpRequest) (agent : Option AgentData)
    (callNext : Prog server HttpResponse) : Prog server HttpResponse :=
  if req.path ≠ mcpPath then callNext
  else
    match agent with
    | none => .raise (.inl (.inr .attribute))
    | some a => do
      let result : RateLimitResult ←
        (check rateLimitWindowSeconds a.agent.id a.rateLimitRpm).inl.inl
      if result.allowed then do
        let response ← callNext
        return response.withHeaders (rateHeaders result)
      else do
        note (.rateLimitHit a.agent.id)
        return tooManyRequests result

/-! ## `log_requests` -/

def logRequests (req : HttpRequest) (callNext : Prog server HttpResponse) :
    Prog server HttpResponse := do
  let response ← callNext
  note (.logged req.path response.status)
  return response

/-! ## The endpoints -/

/-- A `Response` as it is sent. -/
def answer (G : Config) (response : Response) : Prog server HttpResponse := do
  let sent : Response ← (send G response).inr
  return ⟨sent.status, sent.body, []⟩

/-- `mcp` where `request.state.agent` was not set. -/
def mcpWithoutAgent (body : Str) : Prog gateway Response :=
  match loads body with
  | .error .decode => return ⟨400, rpcError .null (-32700) (lit "Parse error") none⟩
  | .error .value => .raise .value
  | .ok (.obj body) =>
    if ¬ truthy (get body "method") then
      return ⟨400, rpcError (get body "id") (-32600) (lit "Invalid Request: missing method") none⟩
    else .raise .attribute
  | .ok _ => return ⟨400, rpcError .null (-32600) (lit "Invalid Request") none⟩

def mcpEndpoint (D : Deployment) (agent : Option AgentData) (body : Bytes) :
    Prog server HttpResponse :=
  match readBody D.tooDeep body with
  | none => .raise (.inr .value)
  | some text =>
    match agent with
    | none => (mcpWithoutAgent text).inr >>= answer D.config
    | some a => (mcp D.config a.agent text).inr >>= answer D.config

def sse : Option AgentData → Prog server HttpResponse
  | none => .raise (.inl (.inr .attribute))
  | some _ => return ⟨200, .null, []⟩

def endpoint (D : Deployment) (agent : Option AgentData) : Route → Prog server HttpResponse
  | .mcp body => mcpEndpoint D agent body
  | .decide approvalId timestamp signature body =>
    (decideApproval D.config approvalId timestamp signature body).inr >>= answer D.config
  | .status approvalId => (approvalStatus D.config approvalId).inr >>= answer D.config
  | .sse => sse agent
  | .other response => return response

def serve (D : Deployment) (req : HttpRequest) : Prog server HttpResponse :=
  logRequests req (authenticate D req fun agent => rateLimit req agent (endpoint D agent req.route))

/-! ## The system -/

structure ServerState where
  limits : RedisState
  gateway : GwState

def serverAnswer (W : World) (s : ServerState) (t : ℕ) :
    (o : server.Op) → RateOracle ⊕ GwOracle → Option (server.Res o × ServerState)
  | .inl (.inl o), .inl c => (rateAnswer s.limits o c).map fun (x, limits) => (x, { s with limits })
  | .inl (.inr _), _ => some ((), s)
  | .inr o, .inr c => (gwAnswer W s.gateway t o c).map fun (x, gateway) => (x, { s with gateway })
  | _, _ => none

def serverFailure (W : World) (s : ServerState) (t : ℕ) :
    server.Op → RateOracle ⊕ GwOracle → Option ServerState
  | .inr o, .inr c => (gwFailure W s.gateway t o c).map fun gateway => { s with gateway }
  | _, _ => none

abbrev serverSystem (D : Deployment) (W : World) : System server where
  Req := HttpRequest
  Resp := HttpResponse
  State := ServerState
  Oracle := RateOracle ⊕ GwOracle
  Drift := ℚ
  handler := serve D
  start s := ∃ clock, s = ⟨.initial clock, .initial clock⟩
  answer := serverAnswer W
  failure := serverFailure W
  drift s dt := if 0 ≤ dt then
      some ⟨s.limits.tick dt, { s.gateway with store := s.gateway.store.tick dt }⟩
    else none

abbrev ServerPool (D : Deployment) (W : World) := Pool (serverSystem D W)

abbrev ServerHistory (D : Deployment) (W : World) := List (Event (serverSystem D W))

/-! ## The gateway inside -/

/-- What `authenticate` lets through: `request.state.agent`, unset on public paths. -/
def identity (D : Deployment) (req : HttpRequest) : Option (Option AgentData) :=
  if isPublic req.path then some none else (req.apiKey.bind D.apiKeys).map some

def entersAs (D : Deployment) (agent : Option AgentData) : Route → Option GwReq
  | .mcp body => agent.bind fun a => (readBody D.tooDeep body).map fun text => .mcp a.agent text
  | .decide approvalId timestamp signature body =>
    some (.decide approvalId timestamp signature body)
  | .status approvalId => some (.status approvalId)
  | .sse | .other _ => none

/-- The request of the gateway that a request runs if the limiter admits it. -/
def enters (D : Deployment) (req : HttpRequest) : Option GwReq :=
  (identity D req).bind fun agent => entersAs D agent req.route

section Inside

variable {D : Deployment} {W : World}

/-- A response is sent as it is, or not at all. -/
theorem send_cases (G : Config) (response : Response) :
    send G response = .ret response ∨ ∃ e, send G response = .raise e := by
  rw [send]
  split_ifs
  · exact Or.inr ⟨_, rfl⟩
  · exact Or.inl rfl
  · exact Or.inr ⟨_, rfl⟩

theorem outer_answer (G : Config) (response : Response) : Outer (answer G response) := by
  rw [answer]
  rcases send_cases G response with h | ⟨e, h⟩
  · rw [h]
    exact .ret _
  · rw [h]
    exact .raise _

theorem outer_mcpWithoutAgent (G : Config) (body : Str) :
    Outer ((mcpWithoutAgent body).inr >>= answer G) := by
  rw [mcpWithoutAgent]
  split
  · exact outer_answer _ _
  · exact .raise _
  · split_ifs
    · exact .raise _
    · exact outer_answer _ _
  · exact outer_answer _ _

theorem before_endpoint (agent : Option AgentData) (route : Route) :
    Before ((entersAs D agent route).map (handle D.config)) (endpoint D agent route) := by
  cases route with
  | mcp body =>
    rw [endpoint, mcpEndpoint, entersAs]
    cases hread : readBody D.tooDeep body with
    | none => exact .outer _ (.raise _)
    | some text =>
      cases agent with
      | none => exact .outer _ (outer_mcpWithoutAgent _ text)
      | some a => exact .enter _ _ rfl (inside_inr _ (outer_answer _))
  | decide approvalId timestamp signature body =>
    exact .enter _ _ rfl (inside_inr _ (outer_answer _))
  | status approvalId => exact .enter _ _ rfl (inside_inr _ (outer_answer _))
  | sse =>
    cases agent with
    | none => exact .outer _ (.raise _)
    | some a => exact .outer _ (.ret _)
  | other response => exact .outer _ (.ret _)

theorem before_rateLimit {req : HttpRequest} {agent : Option AgentData}
    {q : Option (Prog gateway Response)} {p : Prog server HttpResponse} (hp : Before q p) :
    Before q (rateLimit req agent p) := by
  unfold rateLimit
  by_cases hpath : req.path ≠ mcpPath
  · rw [if_pos hpath]
    exact hp
  · rw [if_neg hpath]
    cases agent with
    | none => exact .outer _ (.raise _)
    | some a =>
      apply before_inl
      intro result
      by_cases hallowed : result.allowed = true
      · simp only [hallowed, if_true]
        exact hp.bind fun _ => .ret _
      · simp only [hallowed, if_false, Bool.false_eq_true]
        exact .outer _ (.call _ _ fun _ => .ret _)

/-- A request runs no request of the gateway but the one that it enters. -/
theorem before_serve (req : HttpRequest) :
    Before ((enters D req).map (handle D.config)) (serve D req) := by
  rw [serve, logRequests]
  refine Before.bind ?_ fun _ => .call _ _ fun _ => .ret _
  rw [authenticate, enters, identity]
  by_cases hpublic : isPublic req.path = true
  · simp only [hpublic, if_true]
    exact before_rateLimit (before_endpoint none req.route)
  · simp only [hpublic, if_false, Bool.false_eq_true]
    cases hkey : req.apiKey.bind D.apiKeys with
    | none => exact .outer _ (.ret _)
    | some agent => exact before_rateLimit (before_endpoint (some agent) req.route)

/-- The gateway of a server. -/
def gatewayOf (D : Deployment) (W : World) :
    Stacked (serverSystem D W) (gatewaySystem D.config W) where
  inner := ServerState.gateway
  enters := enters D
  handler := before_serve
  start s hs := by
    obtain ⟨clock, rfl⟩ := hs
    exact ⟨clock, rfl⟩
  answer_inl s t o c x s' h := by
    cases o with
    | inl o =>
      cases c with
      | inl c =>
        obtain ⟨y, -, hy⟩ := Option.map_eq_some_iff.mp h
        obtain ⟨-, rfl⟩ := Prod.mk.inj hy
        rfl
      | inr c => cases h
    | inr o =>
      obtain ⟨-, rfl⟩ := Prod.mk.inj (Option.some.inj h)
      rfl
  answer_inr s t o c x s' h := by
    cases c with
    | inl c => cases h
    | inr c =>
      obtain ⟨⟨y, g⟩, hy, heq⟩ := Option.map_eq_some_iff.mp h
      obtain ⟨rfl, rfl⟩ := Prod.mk.inj heq
      exact ⟨c, hy⟩
  failure_inl s t o c s' h := by
    cases o <;> cases c <;> cases h
  failure_inr s t o c s' h := by
    cases c with
    | inl c => cases h
    | inr c =>
      obtain ⟨g, hg, rfl⟩ := Option.map_eq_some_iff.mp h
      exact ⟨c, hg⟩
  drift s d s' h := by
    obtain ⟨hd, hs⟩ := Option.ite_none_right_eq_some.mp h
    obtain rfl := Option.some.inj hs
    exact Or.inr ⟨d, if_pos hd⟩

end Inside

end Server
