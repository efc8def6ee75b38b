import McpControlPlane.Server

/-! # Nobody gets past the middleware

What the limiter answered, what a request was answered and what was logged of it, for every request
of every run; and what the theorems about the gateway say of the whole server. -/
namespace ServerRuns

open PyText JsonText JsonDict PyJson ToolPolicy PolicyDecision GatewayOps Gateway GatewaySpecs
open Mediation ApprovalStore RateLimiter RpcErrors Server Interleaving

variable {D : Deployment} {W : World}

/-! ## The verdict of the limiter -/

/-- A result, by the operations of the check that gave it. -/
structure Verdict (windowSeconds : ℕ) (agentId : Str) (limit : ℤ) (result : RateLimitResult)
    (tr : Trace rates) : Prop where
  ownLimit : result.limit = limit
  remaining : 0 ≤ limit → 0 ≤ result.remaining ∧ result.remaining ≤ limit
  allowed : result.allowed = true → (∃ e ∈ tr, errorEntry e) ∨ ∃ (now : ℚ) (count uuid : ℕ),
    tr = addedAt (rateKey agentId) windowSeconds now count uuid ∧ (count : ℤ) < limit
  refused : result.allowed = false → (∃ count : ℕ, limit ≤ count ∧
    (⟨.zcard (rateKey agentId), some (some count)⟩ : Entry rates) ∈ tr) ∧
    ∃ seconds : ℤ, result.retryAfter = some seconds ∧ 1 ≤ seconds

def CheckResult (windowSeconds : ℕ) (agentId : Str) (limit : ℤ) :
    Except Empty RateLimitResult → Trace rates → Prop
  | .ok result, tr => Verdict windowSeconds agentId limit result tr
  | .error _, _ => False

section Check

variable {windowSeconds : ℕ} {agentId : Str} {limit : ℤ} {now : ℚ} {count : ℕ} {tr : Trace rates}

theorem failOpen_verdict {e : Entry rates} (he : errorEntry e) :
    Verdict windowSeconds agentId limit (failOpen windowSeconds limit now) (e :: tr) where
  ownLimit := rfl
  remaining h := ⟨h, le_refl limit⟩
  allowed _ := Or.inl ⟨e, List.mem_cons_self, he⟩
  refused h := by cases h

theorem refused_verdict {reset seconds : ℤ} {e : Entry rates} (hlimit : limit ≤ count) :
    Verdict windowSeconds agentId limit ⟨false, limit, 0, reset, some (max 1 seconds)⟩
      (e :: ⟨.zcard (rateKey agentId), some (some count)⟩ :: tr) where
  ownLimit := rfl
  remaining h := ⟨le_refl 0, h⟩
  allowed h := by cases h
  refused _ := ⟨⟨count, hlimit, List.mem_cons_of_mem _ List.mem_cons_self⟩, _, rfl,
    le_max_left _ _⟩

theorem admitted_verdict {reset : ℤ} {uuid : ℕ} (hlimit : (count : ℤ) < limit) :
    Verdict windowSeconds agentId limit ⟨true, limit, max 0 (limit - count - 1), reset, none⟩
      (addedAt (rateKey agentId) windowSeconds now count uuid) where
  ownLimit := rfl
  remaining h := by
    have hcount : 0 ≤ (count : ℤ) := Int.natCast_nonneg count
    constructor
    · exact le_max_left _ _
    · apply max_le h
      omega
  allowed _ := Or.inr ⟨now, count, uuid, rfl, hlimit⟩
  refused h := by cases h

theorem check_verdict (windowSeconds : ℕ) (agentId : Str) (limit : ℤ) :
    Sat (fun _ _ => True) (CheckResult windowSeconds agentId limit)
      (check windowSeconds agentId limit) [] := by
  refine sat_perform.mpr ⟨trivial, fun now => ?_, fun e he => by cases he⟩
  refine sat_perform.mpr ⟨trivial, fun purged => ?_, fun e he => by cases he⟩
  cases purged with
  | none =>
    apply failOpen_verdict
    trivial
  | some _ =>
    refine sat_perform.mpr ⟨trivial, fun card => ?_, fun e he => by cases he⟩
    cases card with
    | none =>
      apply failOpen_verdict
      trivial
    | some count =>
      by_cases hlimit : limit ≤ count
      · simp only [hlimit, if_true]
        refine sat_perform.mpr ⟨trivial, fun oldest => ?_, fun e he => by cases he⟩
        cases oldest with
        | none =>
          apply failOpen_verdict
          trivial
        | some score => exact refused_verdict hlimit
      · simp only [hlimit, if_false]
        refine sat_perform.mpr ⟨trivial, fun uuid => ?_, fun e he => by cases he⟩
        refine sat_perform.mpr ⟨trivial, fun added => ?_, fun e he => by cases he⟩
        cases added with
        | none =>
          apply failOpen_verdict
          trivial
        | some _ => exact admitted_verdict (by omega)

end Check

/-! ## The specification of one request -/

/-- The limiter let the agent through. -/
def Admitted (a : AgentData) (tr : Trace server) : Prop :=
  ∃ result checked, Verdict rateLimitWindowSeconds a.agent.id a.rateLimitRpm result checked ∧
    result.allowed = true ∧ onRates checked <:+ tr

def isLogged (e : Entry server) : Prop := ∃ path status, e.op = .inl (.inr (.logged path status))

/-- Nothing was logged yet. -/
def Unlogged (tr : Trace server) : Prop := ∀ e ∈ tr, ¬ isLogged e

def ServeOk (D : Deployment) (req : HttpRequest) (tr : Trace server) : server.Op → Prop
  | .inr _ => ∃ agent, identity D req = some agent ∧
      (req.path = mcpPath → ∃ a, agent = some a ∧ Admitted a tr)
  | _ => True

/-- What a request is answered, by what it did before. -/
structure Answers (D : Deployment) (req : HttpRequest) (response : HttpResponse)
    (tr : Trace server) : Prop where
  unknown : identity D req = none → response = unauthorized ∧ tr = []
  limited : req.path = mcpPath → ∀ a, identity D req = some (some a) → ∃ result checked,
    Verdict rateLimitWindowSeconds a.agent.id a.rateLimitRpm result checked ∧
    (result.allowed = false ∧ response = tooManyRequests result ∧
        tr = noted (.rateLimitHit a.agent.id) :: onRates checked ∨
      result.allowed = true ∧ onRates checked <:+ tr ∧
        ∃ inner : HttpResponse, response = inner.withHeaders (rateHeaders result))

def Handled (D : Deployment) (req : HttpRequest) :
    Except (edge.Exn ⊕ GwError) HttpResponse → Trace server → Prop
  | .ok response, tr => Unlogged tr ∧ Answers D req response tr
  | .error _, tr => Unlogged tr

def ServePost (D : Deployment) (req : HttpRequest) :
    Except (edge.Exn ⊕ GwError) HttpResponse → Trace server → Prop
  | .ok response, tr => ∃ tr', tr = noted (.logged req.path response.status) :: tr' ∧
      Unlogged tr' ∧ Answers D req response tr'
  | .error _, tr => Unlogged tr

/-- What follows an endpoint: it leaves the trace before it alone and logs nothing. -/
def Quiet (before : Trace server) :
    Except (edge.Exn ⊕ GwError) HttpResponse → Trace server → Prop :=
  fun _ tr => before <:+ tr ∧ Unlogged tr

theorem unlogged_nil : Unlogged [] := by
  intro e he
  cases he

theorem unlogged_inr {before : Trace server} (h : Unlogged before) (tr : Trace gateway) :
    Unlogged (tr.map Entry.inr ++ before) := by
  intro e he
  rcases List.mem_append.mp he with he | he
  · obtain ⟨e', -, rfl⟩ := List.mem_map.mp he
    rintro ⟨path, status, hop⟩
    cases hop
  · exact h e he

theorem unlogged_onRates (tr : Trace rates) : Unlogged (onRates tr) := by
  intro e he
  obtain ⟨e', he', rfl⟩ := List.mem_map.mp he
  obtain ⟨e'', -, rfl⟩ := List.mem_map.mp he'
  rintro ⟨path, status, hop⟩
  cases hop

section Endpoint

variable {req : HttpRequest} {before : Trace server}

theorem answer_quiet {ok : Trace server → server.Op → Prop} {tr : Trace server}
    (response : Response) (h : before <:+ tr ∧ Unlogged tr) :
    Sat ok (Quiet before) (answer D.config response) tr := by
  rw [answer]
  rcases send_cases D.config response with hsent | ⟨e, hsent⟩
  · rw [hsent]
    exact h
  · rw [hsent]
    exact h

/-- A handler of the gateway, started where its operations are allowed. -/
theorem inner_quiet (hok : ∀ tr o, ServeOk D req (tr ++ before) (.inr o)) (hb : Unlogged before)
    (q : Prog gateway Response) :
    Sat (ServeOk D req) (Quiet before) (q.inr >>= answer D.config) before := by
  apply sat_bind.mpr
  apply sat_inr.mpr
  apply sat_always
  · intro tr o
    exact hok _ _
  · intro r tr
    have hquiet : before <:+ tr.map Entry.inr ++ before ∧ Unlogged (tr.map Entry.inr ++ before) :=
      ⟨List.suffix_append _ _, unlogged_inr hb tr⟩
    cases r with
    | ok response => exact answer_quiet response hquiet
    | error e => exact hquiet

theorem endpoint_quiet (hok : ∀ tr o, ServeOk D req (tr ++ before) (.inr o))
    (hb : Unlogged before) (agent : Option AgentData) (route : Route) :
    Sat (ServeOk D req) (Quiet before) (endpoint D agent route) before := by
  have hself : before <:+ before := List.suffix_rfl
  cases route with
  | mcp body =>
    rw [endpoint, mcpEndpoint]
    cases readBody D.tooDeep body with
    | none => exact ⟨hself, hb⟩
    | some text =>
      cases agent with
      | none => exact inner_quiet hok hb _
      | some a => exact inner_quiet hok hb _
  | decide approvalId timestamp signature body => exact inner_quiet hok hb _
  | status approvalId => exact inner_quiet hok hb _
  | sse =>
    cases agent with
    | none => exact ⟨hself, hb⟩
    | some a => exact ⟨hself, hb⟩
  | other response => exact ⟨hself, hb⟩

end Endpoint

/-- A program of the limiter, at the start of a request. -/
theorem rates_sat {α : Type} {ok : Trace server → server.Op → Prop}
    {post : Except (edge.Exn ⊕ GwError) α → Trace server → Prop} {p : Prog rates α}
    {Q : Except Empty α → Trace rates → Prop} (hp : Sat (fun _ _ => True) Q p [])
    (hok : ∀ tr o, ok tr (.inl (.inl o)))
    (hpost : ∀ a tr, Q (.ok a) tr → post (.ok a) (onRates tr)) :
    Sat (S := server) ok post p.inl.inl [] := by
  apply sat_inl.mpr
  apply sat_inl.mpr
  apply hp.imp
  · intro tr o _
    exact hok _ _
  · intro r tr hr
    cases r with
    | error e => cases e
    | ok a =>
      simp only [List.append_nil]
      exact hpost a tr hr

theorem identity_known {req : HttpRequest} {a : AgentData}
    (h : identity D req = some (some a)) :
    isPublic req.path = false ∧ ∃ key, req.apiKey = some key ∧ D.apiKeys key = some a := by
  rw [identity] at h
  by_cases hpublic : isPublic req.path = true
  · rw [if_pos hpublic] at h
    cases Option.some.inj h
  · rw [if_neg hpublic] at h
    obtain ⟨a', ha', heq⟩ := Option.map_eq_some_iff.mp h
    obtain rfl := Option.some.inj heq
    exact ⟨by simpa using hpublic, Option.bind_eq_some_iff.mp ha'⟩

/-- The limiter and what follows it, for a caller that `authenticate` let through. -/
theorem rateLimit_handled {req : HttpRequest} {agent : Option AgentData}
    (hid : identity D req = some agent) :
    Sat (ServeOk D req) (Handled D req) (rateLimit req agent (endpoint D agent req.route)) [] := by
  have hknown : identity D req ≠ none := by
    rw [hid]
    intro h
    cases h
  unfold rateLimit
  by_cases hpath : req.path ≠ mcpPath
  · rw [if_pos hpath]
    have hok : ∀ tr o, ServeOk D req (tr ++ []) (.inr o) :=
      fun tr o => ⟨agent, hid, fun h => absurd h hpath⟩
    apply (endpoint_quiet hok unlogged_nil agent req.route).mono
    intro r tr hquiet
    cases r with
    | error e => exact hquiet.2
    | ok response => exact ⟨hquiet.2, fun h => absurd h hknown, fun h => absurd h hpath⟩
  · rw [if_neg hpath]
    rw [ne_eq, not_not] at hpath
    cases agent with
    | none =>
      exact unlogged_nil
    | some a =>
      apply sat_bind.mpr
      apply (rates_sat (check_verdict _ _ _) fun _ _ => trivial)
      intro result checked hverdict
      by_cases hallowed : result.allowed = true
      · simp only [Then, hallowed, if_true]
        apply sat_bind.mpr
        have hok : ∀ tr o, ServeOk D req (tr ++ onRates checked) (.inr o) := fun tr o =>
          ⟨some a, hid, fun _ => ⟨a, rfl, result, checked, hverdict, hallowed,
            List.suffix_append _ _⟩⟩
        apply (endpoint_quiet hok (unlogged_onRates checked) (some a) req.route).mono
        intro r tr hquiet
        cases r with
        | error e => exact hquiet.2
        | ok response =>
          refine ⟨hquiet.2, fun h => absurd h hknown, fun _ a' ha' => ?_⟩
          obtain rfl : a = a' := Option.some.inj (Option.some.inj (hid.symm.trans ha'))
          exact ⟨result, checked, hverdict, Or.inr ⟨hallowed, hquiet.1, response, rfl⟩⟩
      · simp only [Then, hallowed, if_false, Bool.false_eq_true]
        refine ⟨trivial, fun _ => ?_, fun e he => by cases he⟩
        refine ⟨?_, fun h => absurd h hknown, fun _ a' ha' => ?_⟩
        · intro e he
          rcases List.mem_cons.mp he with rfl | he
          · rintro ⟨path, status, hop⟩
            cases hop
          · exact unlogged_onRates checked e he
        · obtain rfl : a = a' := Option.some.inj (Option.some.inj (hid.symm.trans ha'))
          exact ⟨result, checked, hverdict,
            Or.inl ⟨by simpa using hallowed, rfl, rfl⟩⟩

theorem serve_sat (req : HttpRequest) :
    Sat (ServeOk D req) (ServePost D req) (serve D req) [] := by
  rw [serve, logRequests]
  apply sat_bind.mpr
  have hhandled : Sat (ServeOk D req) (Handled D req)
      (authenticate D req fun agent => rateLimit req agent (endpoint D agent req.route)) [] := by
    rw [authenticate]
    by_cases hpublic : isPublic req.path = true
    · rw [if_pos hpublic]
      apply rateLimit_handled
      rw [identity, if_pos hpublic]
    · rw [if_neg hpublic]
      cases hkey : req.apiKey.bind D.apiKeys with
      | none =>
        have hid : identity D req = none := by rw [identity, if_neg hpublic, hkey, Option.map_none]
        refine ⟨unlogged_nil, fun _ => ⟨rfl, rfl⟩, fun _ a ha => ?_⟩
        rw [hid] at ha
        cases ha
      | some agent =>
        apply rateLimit_handled
        rw [identity, if_neg hpublic, hkey, Option.map_some]
  apply hhandled.mono
  intro r tr h
  cases r with
  | error e => exact h
  | ok response => exact ⟨trivial, fun _ => ⟨tr, rfl, h⟩, fun e he => by cases he⟩

/-! ## Every run -/

/-- Every pool that a run reaches keeps to the specification of each of its requests. -/
theorem reachable_served {C : ServerPool D W → Move (serverSystem D W) → Prop}
    {p : ServerPool D W} (hp : Reachable C p) :
    Obeys (Y := serverSystem D W) (ServeOk D) (ServePost D) p := reachable_obeys serve_sat hp

/-- Which request of the gateway is entered, and as whom. -/
def Entitled (D : Deployment) (req : HttpRequest) : GwReq → Prop
  | .mcp agent text => isPublic req.path = false ∧ (∃ key a, req.apiKey = some key ∧
      D.apiKeys key = some a ∧ identity D req = some (some a) ∧ a.agent = agent) ∧
      ∃ body, req.route = .mcp body ∧ readBody D.tooDeep body = some text
  | .decide approvalId timestamp signature body =>
      req.route = .decide approvalId timestamp signature body
  | .status approvalId => req.route = .status approvalId

theorem entitled_of_enters {req : HttpRequest} {r : GwReq} (h : enters D req = some r) :
    Entitled D req r := by
  obtain ⟨agent, hid, hroute⟩ := Option.bind_eq_some_iff.mp h
  cases hr : req.route with
  | mcp body =>
    rw [hr] at hroute
    obtain ⟨a, rfl, htext⟩ := Option.bind_eq_some_iff.mp hroute
    obtain ⟨text, hread, rfl⟩ := Option.map_eq_some_iff.mp htext
    obtain ⟨hpublic, key, hkey, ha⟩ := identity_known hid
    exact ⟨hpublic, ⟨key, a, hkey, ha, hid, rfl⟩, body, hr, hread⟩
  | decide approvalId timestamp signature body =>
    rw [hr] at hroute
    obtain rfl := Option.some.inj hroute
    exact hr
  | status approvalId =>
    rw [hr] at hroute
    obtain rfl := Option.some.inj hroute
    exact hr
  | sse =>
    rw [hr] at hroute
    cases hroute
  | other response =>
    rw [hr] at hroute
    cases hroute

/-- The gateway's part of a history. -/
def gatewayHistory (h : ServerHistory D W) : History D.config W := h.filterMap (gatewayOf D W).event

/-! ### A run to look at -/

def demoDeployment : Deployment where
  config := demoConfig
  tooDeep _ := false
  apiKeys key := dictGet key registry

abbrev DemoServer := ServerPool demoDeployment openWorld

def listPodsRequest : HttpRequest :=
  ⟨mcpPath, some (lit "test_key"),
    .mcp (asciiBytes (callBody "list_pods" "\x7b\"namespace\": \"dev-payments\"\x7d"))⟩

/-- The call comes in, is admitted and runs. -/
def demoCall : List (Move (serverSystem demoDeployment openWorld)) :=
  [.arrive 0 listPodsRequest, .answer 0 (.inl .plain), .answer 0 (.inl .plain),
    .answer 0 (.inl .plain), .answer 0 (.inl (.uuid 7)), .answer 0 (.inl .plain),
    .answer 0 (.inr (.package [])), .answer 0 (.inr (.outcome (.success .null)))]

/-- It is recorded, answered and logged. -/
def demoAnswer : List (Move (serverSystem demoDeployment openWorld)) :=
  [.answer 0 (.inr (.duration 5)), .answer 0 (.inr (.now Binary64.zeroMagnitude)),
    .answer 0 (.inr .plain), .answer 0 (.inl .plain)]

def demoServer (ms : List (Move (serverSystem demoDeployment openWorld))) : Option DemoServer :=
  runMoves (fun _ _ => True) (Pool.empty ⟨.initial 0, .initial 0⟩) ms

theorem reachable_demoServer {ms : List (Move (serverSystem demoDeployment openWorld))}
    {p : DemoServer} (h : demoServer ms = some p) : Reachable (fun _ _ => True) p :=
  reachable_of_runMoves (.start _ ⟨0, rfl⟩) h

/-- The tool that ran last. -/
def ranOnServer (p : DemoServer) : Option (Str × List (Str × Json)) :=
  match p.hist with
  | ⟨_, _, ⟨.inr (.runTool name arguments), _⟩⟩ :: _ => some (name, arguments)
  | _ => none

theorem ranOnServer_some {p : DemoServer} {name : Str} {arguments : List (Str × Json)}
    (h : ranOnServer p = some (name, arguments)) :
    ∃ e h₂, p.hist = [] ++ e :: h₂ ∧ e.entry.op = .inr (.runTool name arguments) := by
  unfold ranOnServer at h
  split at h
  · rename_i t r name' arguments' x h₂ hh
    simp only [Option.some.injEq, Prod.mk.injEq] at h
    obtain ⟨rfl, rfl⟩ := h
    exact ⟨_, h₂, hh, rfl⟩
  · cases h

/-- The answer of the first request. -/
def answeredOnServer (p : DemoServer) : Option (HttpRequest × HttpResponse) :=
  match p.thread 0 with
  | some (req, .ret response) => some (req, response)
  | _ => none

theorem answeredOnServer_some {p : DemoServer} {req : HttpRequest} {response : HttpResponse}
    (h : answeredOnServer p = some (req, response)) : p.thread 0 = some (req, .ret response) := by
  unfold answeredOnServer at h
  split at h
  · rename_i req' response' ht
    simp only [Option.some.injEq, Prod.mk.injEq] at h
    obtain ⟨rfl, rfl⟩ := h
    exact ht
  · cases h

/-! ### The theorems -/

/-- A run of the server is a run of the gateway, whose requests are those that the middleware let
through: a `tools/call` only under the agent of a registered key. -/
theorem server_runs_the_gateway (p : ServerPool D W) (hp : Reachable (fun _ _ => True) p) :
    ∃ q : GatewayPool D.config W, Reachable (fun _ _ => True) q ∧
      q.shared = p.shared.gateway ∧ q.hist = gatewayHistory p.hist ∧
      ∀ e ∈ p.hist, ∀ o, e.entry.op = .inr o → ∃ r, enters D e.req = some r ∧ Entitled D e.req r := by
  obtain ⟨q, hq, hcarries⟩ := Stacked.reachable_carries (gatewayOf D W) hp
  refine ⟨q, hq, hcarries.shared, hcarries.hist, fun e he o ho => ?_⟩
  obtain ⟨r, hr⟩ := Option.isSome_iff_exists.mp (hcarries.entered e he o ho)
  exact ⟨r, hr, entitled_of_enters hr⟩

theorem demo_runs_the_gateway : ∃ p : DemoServer, ranOnServer p ≠ none ∧
    ∃ q : GatewayPool demoConfig openWorld, Reachable (fun _ _ => True) q ∧
      q.shared = p.shared.gateway ∧ q.hist = gatewayHistory p.hist ∧
      ∀ e ∈ p.hist, ∀ o, e.entry.op = .inr o →
        ∃ r, enters demoDeployment e.req = some r ∧ Entitled demoDeployment e.req r := by
  have hrun : ((demoServer demoCall).bind ranOnServer).isSome = true := by decide +kernel
  obtain ⟨ran, hlast⟩ := Option.isSome_iff_exists.mp hrun
  obtain ⟨p, hp, hran⟩ := Option.bind_eq_some_iff.mp hlast
  refine ⟨p, ?_, server_runs_the_gateway p (reachable_demoServer hp)⟩
  rw [hran]
  exact Option.some_ne_none ran

/-- The call was authorised in the gateway: for an agent with a key that lists the tool, which the
limiter let through where it was asked, or for an approval. -/
def Answerable (D : Deployment) (h : History D.config W) (tr : Trace server) (t : ℕ)
    (req : HttpRequest) (name : Str) (arguments : List (Str × Json)) (i : OpaInput) : Prop :=
  (∃ text key a, Entitled D req (.mcp a.agent text) ∧ req.apiKey = some key ∧
    D.apiKeys key = some a ∧ name ∈ a.agent.allowedTools ∧
    (req.path = mcpPath → Admitted a tr) ∧ Authorised h t name arguments i (.mcp a.agent text)) ∨
  ∃ approvalId timestamp signature body, req.route = .decide approvalId timestamp signature body ∧
    Authorised h t name arguments i (.decide approvalId timestamp signature body)

/-- An operation of the gateway in a history, and the one of the gateway's own history. -/
theorem gatewayHistory_split {p : ServerPool D W} {q : GatewayPool D.config W}
    (hcarries : (gatewayOf D W).Carries p q) {h₁ h₂ : ServerHistory D W}
    {e : Event (serverSystem D W)} (hsplit : p.hist = h₁ ++ e :: h₂) {o : GwOp}
    (ho : e.entry.op = .inr o) :
    ∃ e' : Event (gatewaySystem D.config W), q.hist = gatewayHistory h₁ ++ e' :: gatewayHistory h₂ ∧
      e'.tid = e.tid ∧ e'.entry.op = o ∧ enters D e.req = some e'.req := by
  have hmem : e ∈ p.hist := by
    rw [hsplit]
    exact List.mem_append_right _ List.mem_cons_self
  obtain ⟨r, hr⟩ := Option.isSome_iff_exists.mp (hcarries.entered e hmem o ho)
  obtain ⟨t, req, ⟨op, res⟩⟩ := e
  obtain rfl : op = .inr o := ho
  have hevent : (gatewayOf D W).event ⟨t, req, ⟨.inr o, res⟩⟩ = some ⟨t, r, ⟨o, res⟩⟩ :=
    congrArg (Option.map _) hr
  refine ⟨⟨t, r, ⟨o, res⟩⟩, ?_, rfl, rfl, hr⟩
  rw [hcarries.hist, hsplit, List.filterMap_append, List.filterMap_cons, hevent]
  rfl

/-- No tool runs on this server but under a registered key whose agent may call it, with the
limiter's leave, or for an approved call; and the policy allows it. -/
theorem executions_pass_the_middleware (p : ServerPool D W) (hp : Reachable (fun _ _ => True) p)
    (h₁ h₂ : ServerHistory D W) (e : Event (serverSystem D W)) (hsplit : p.hist = h₁ ++ e :: h₂)
    (name : Str) (arguments : List (Str × Json)) (hrun : e.entry.op = .inr (.runTool name arguments)) :
    ∃ i, allow W.data i = true ∧
      Answerable D (gatewayHistory h₂) (own e.tid h₂) e.tid e.req name arguments i := by
  have hlog := (reachable_served hp).log
  rw [hsplit] at hlog
  have hok := hlog.at
  rw [hrun] at hok
  obtain ⟨agent, hid, hadmitted⟩ := hok
  obtain ⟨q, hq, hcarries⟩ := Stacked.reachable_carries (gatewayOf D W) hp
  obtain ⟨e', hq', htid, hop, henters⟩ := gatewayHistory_split hcarries hsplit hrun
  obtain ⟨i, hi⟩ := mediated (reachable_lawful hq) (reachable_backed hq) hq' hop
  rw [htid] at hi
  refine ⟨i, hi.built.2, ?_⟩
  have hentitled := entitled_of_enters henters
  cases hr : e'.req with
  | mcp agent' text =>
    rw [hr] at hi hentitled
    have hsame := hentitled
    obtain ⟨-, ⟨key, a, hkey, ha, hid', rfl⟩, -⟩ := hsame
    have hauthorised := hi
    obtain ⟨hreq, hbuilt, -⟩ := hauthorised
    have hname : i.toolName = name := (built_fields hbuilt).2.2.1
    refine Or.inl ⟨text, key, a, hentitled, hkey, ha, hname ▸ hreq.listed, fun hpath => ?_, hi⟩
    obtain ⟨a', ha', htr⟩ := hadmitted hpath
    rw [ha'] at hid
    obtain rfl : a = a' := Option.some.inj (Option.some.inj (hid'.symm.trans hid))
    exact htr
  | decide approvalId timestamp signature body =>
    rw [hr] at hi hentitled
    exact Or.inr ⟨approvalId, timestamp, signature, body, hentitled, hi⟩
  | status approvalId =>
    rw [hr] at hi
    cases hi

theorem list_pods_passes_the_middleware : ∃ (h₂ : ServerHistory demoDeployment openWorld)
    (t : ℕ) (req : HttpRequest) (name : Str) (arguments : List (Str × Json)) (i : OpaInput),
    allow openWorld.data i = true ∧
      Answerable demoDeployment (gatewayHistory h₂) (own t h₂) t req name arguments i := by
  have hrun : ((demoServer demoCall).bind ranOnServer).isSome = true := by decide +kernel
  obtain ⟨⟨name, arguments⟩, hlast⟩ := Option.isSome_iff_exists.mp hrun
  obtain ⟨p, hp, hran⟩ := Option.bind_eq_some_iff.mp hlast
  obtain ⟨e, h₂, hsplit, hop⟩ := ranOnServer_some hran
  obtain ⟨i, hi⟩ := executions_pass_the_middleware p (reachable_demoServer hp) [] h₂ e hsplit
    name arguments hop
  exact ⟨h₂, e.tid, e.req, name, arguments, i, hi⟩

/-- Every answer is logged once, as the last operation of its request and with the status that is
sent. Without a registered key a request does nothing else; one that the limiter refused has
done nothing but ask it, and the headers of one that it admitted are those of its check. -/
theorem answers_are_logged (p : ServerPool D W) (hp : Reachable (fun _ _ => True) p) (t : ℕ)
    (req : HttpRequest) (response : HttpResponse) (ht : p.thread t = some (req, .ret response)) :
    ∃ tr, own t p.hist = noted (.logged req.path response.status) :: tr ∧ Unlogged tr ∧
      Answers D req response tr := (reachable_served hp).sat t req _ ht

theorem list_pods_is_logged : ∃ (p : DemoServer) (req : HttpRequest) (response : HttpResponse)
    (tr : Trace server),
    own 0 p.hist = noted (.logged req.path response.status) :: tr ∧ Unlogged tr ∧
      Answers demoDeployment req response tr := by
  have hrun : ((demoServer (demoCall ++ demoAnswer)).bind answeredOnServer).isSome = true := by
    decide +kernel
  obtain ⟨⟨req, response⟩, hlast⟩ := Option.isSome_iff_exists.mp hrun
  obtain ⟨p, hp, hanswer⟩ := Option.bind_eq_some_iff.mp hlast
  obtain ⟨tr, htr⟩ := answers_are_logged p (reachable_demoServer hp) 0 req response
    (answeredOnServer_some hanswer)
  exact ⟨p, req, response, tr, htr⟩

end ServerRuns
