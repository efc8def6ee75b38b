import McpControlPlane.ToolPolicy

/-! # The policy decision point

`evaluate_policy` asks OPA over HTTP. A request that cannot be encoded, a transport error, a
status other than 2xx and a body that is no JSON all deny; what is left is a JSON value, and
its shape decides whether the decision fails closed. -/
namespace PolicyDecision

open PyText JsonText JsonDict PyJson ToolPolicy

/-- `json` is `none` for a body that is no JSON. -/
inductive OpaReply where
  | transportError
  | response (status : ℕ) (json : Option Json)

structure Decision where
  allow : Bool
  requireApproval : Bool
  reason : Str
  deriving DecidableEq

def unavailable : Decision := ⟨false, false, lit "policy engine unavailable"⟩

def success (status : ℕ) : Bool := 200 ≤ status && status < 300

def opaRequest (i : OpaInput) : Json := .obj [(lit "input", i.document)]

def reasonOf (toolName : Str) (allow requireApproval : Bool) : Str :=
  if requireApproval then
    lit "'" ++ toolName ++ lit "' is a destructive action in prod and requires approval"
  else if allow then lit "allowed by OPA policy"
  else lit "denied by OPA policy"

/-- `bool(result.get(k, False))`. -/
def flag (result : List (Str × Json)) (k : String) : Bool :=
  truthy ((dictGet (lit k) result).getD (.bool false))

/-- `none` is an `AttributeError`: only a `dict` has `get`. -/
def decisionOf (toolName : Str) (json : Json) : Option Decision :=
  match json with
  | .obj kvs =>
    match (dictGet (lit "result") kvs).getD (.obj []) with
    | .obj result =>
      let allow := flag result "allow"
      let requireApproval := flag result "require_approval"
      some ⟨allow, requireApproval, reasonOf toolName allow requireApproval⟩
    | _ => none
  | _ => none

/-- What the reply is taken for; the `except` clause catches `httpx.HTTPError` and `ValueError`. -/
def readReply (toolName : Str) : OpaReply → Option Decision
  | .transportError => some unavailable
  | .response status json =>
    if success status then
      match json with
      | none => some unavailable
      | some v => decisionOf toolName v
    else some unavailable

/-- `none` is an `AttributeError` that leaves the function. The environment is read before the
`try`; a request that the client cannot encode raises a `ValueError` inside of it. -/
def evaluatePolicy (ctx : ToolCallContext) (reply : OpaReply) : Option Decision :=
  match ctx.toOpaInput with
  | none => none
  | some i => if encodable (opaRequest i) then readReply ctx.toolName reply else some unavailable

/-! ## What a reply of the right shape decides -/

/-- The document of the package: rules without a default are missing where they do not hold. -/
def packageDocument (data : PolicyData) (i : OpaInput) (others : List (Str × Json)) : Json :=
  .obj [(lit "result", .obj ((lit "allow", .bool (allow data i)) ::
    (lit "require_approval", .bool (requireApproval data i)) :: others))]

theorem decisionOf_packageDocument (data : PolicyData) (i : OpaInput) (toolName : Str)
    (others : List (Str × Json)) : decisionOf toolName (packageDocument data i others) =
      some ⟨allow data i, requireApproval data i,
        reasonOf toolName (allow data i) (requireApproval data i)⟩ := by
  have hne : lit "allow" ≠ lit "require_approval" := by decide
  simp only [decisionOf, packageDocument, dictGet, if_true, Option.getD_some, flag, truthy, hne,
    if_false]

/-! ## Failing closed -/

/-- The reply is a 2xx object whose result is an object with `true` at `k`. -/
def Grants (reply : OpaReply) (k : String) : Prop :=
  ∃ status kvs result, reply = .response status (some (.obj kvs)) ∧ success status = true ∧
    dictGet (lit "result") kvs = some (.obj result) ∧ dictGet (lit k) result = some (.bool true)

/-- A decision is returned, and it lets the call proceed only where the reply says so. -/
def FailsClosed (ctx : ToolCallContext) (reply : OpaReply) : Prop :=
  ∃ d, evaluatePolicy ctx reply = some d ∧ (d.allow = true → Grants reply "allow") ∧
    (d.requireApproval = true → Grants reply "require_approval")

/-- Not truthy, unless it is `true`. -/
def Plain (v : Json) : Prop :=
  match v with
  | .bool _ => True
  | v => truthy v = false

/-- The fields that are read are plain. -/
def PlainResult : Json → Prop
  | .obj result => ∀ k, k = "allow" ∨ k = "require_approval" → ∀ v,
      dictGet (lit k) result = some v → Plain v
  | _ => False

def WellShaped : Json → Prop
  | .obj kvs => PlainResult ((dictGet (lit "result") kvs).getD (.obj []))
  | _ => False

/-- Every reply but a 2xx one with JSON; of these, the ones of the shape that OPA documents. -/
def ReplyOk : OpaReply → Prop
  | .response status (some v) => success status = true → WellShaped v
  | _ => True

theorem truthy_of_plain {v : Json} (h : Plain v) (ht : truthy v = true) : v = .bool true := by
  cases v with
  | bool b =>
    cases b with
    | true => rfl
    | false => cases ht
  | _ => exact absurd ht (by simp only [Plain] at h; simp [h])

theorem plain_of_truthy {v : Json} (h : truthy v = true → v = .bool true) : Plain v := by
  cases v with
  | bool b => trivial
  | _ =>
    simp only [Plain]
    by_contra ht
    exact nomatch h (by simpa using ht)

theorem flag_of_plain {result : List (Str × Json)} {k : String}
    (hp : ∀ v, dictGet (lit k) result = some v → Plain v) (hf : flag result k = true) :
    dictGet (lit k) result = some (.bool true) := by
  rw [flag] at hf
  cases hg : dictGet (lit k) result with
  | none =>
    rw [hg] at hf
    cases hf
  | some v =>
    rw [hg] at hf
    rw [truthy_of_plain (hp v hg) hf]

theorem plain_of_flag {result : List (Str × Json)} {k : String}
    (hf : flag result k = true → dictGet (lit k) result = some (.bool true)) :
    ∀ v, dictGet (lit k) result = some v → Plain v := by
  intro v hv
  apply plain_of_truthy
  intro ht
  have hflag : flag result k = true := by
    rw [flag, hv]
    exact ht
  have heq := hf hflag
  rw [hv] at heq
  exact Option.some.inj heq

theorem not_grants_unavailable {reply : OpaReply} : ∃ d, some unavailable = some d ∧
    (d.allow = true → Grants reply "allow") ∧
    (d.requireApproval = true → Grants reply "require_approval") :=
  ⟨unavailable, rfl, nofun, nofun⟩

theorem grants_response {status : ℕ} {kvs : List (Str × Json)} {k : String}
    (hs : success status = true) : Grants (.response status (some (.obj kvs))) k ↔
      ∃ result, dictGet (lit "result") kvs = some (.obj result) ∧
        dictGet (lit k) result = some (.bool true) := by
  constructor
  · rintro ⟨status', kvs', result, heq, -, hres, hk⟩
    simp only [OpaReply.response.injEq, Option.some.injEq, JsonTree.obj.injEq] at heq
    obtain ⟨-, rfl⟩ := heq
    exact ⟨result, hres, hk⟩
  · rintro ⟨result, hres, hk⟩
    exact ⟨status, kvs, result, rfl, hs, hres, hk⟩

/-- The decision made of a 2xx reply with a JSON value. -/
theorem decisionOf_failsClosed {toolName : Str} {status : ℕ} {v : Json}
    (hs : success status = true) : (∃ d, decisionOf toolName v = some d ∧
      (d.allow = true → Grants (.response status (some v)) "allow") ∧
      (d.requireApproval = true → Grants (.response status (some v)) "require_approval")) ↔
    WellShaped v := by
  cases v with
  | obj kvs =>
    rw [grants_response hs, grants_response hs]
    cases hres : dictGet (lit "result") kvs with
    | none =>
      simp only [decisionOf, WellShaped, hres, Option.getD_none]
      constructor
      · rintro -
        simp [PlainResult, dictGet]
      · exact fun _ => ⟨_, rfl, fun h => absurd h Bool.false_ne_true,
          fun h => absurd h Bool.false_ne_true⟩
    | some r =>
      cases r with
      | obj result =>
        simp only [decisionOf, WellShaped, hres, Option.getD_some, Option.some.injEq,
          JsonTree.obj.injEq, exists_eq_left', PlainResult]
        constructor
        · rintro ⟨hallow, happroval⟩ k hk
          rcases hk with rfl | rfl
          · exact plain_of_flag hallow
          · exact plain_of_flag happroval
        · intro h
          exact ⟨flag_of_plain (h "allow" (Or.inl rfl)),
            flag_of_plain (h "require_approval" (Or.inr rfl))⟩
      | _ => simp [decisionOf, WellShaped, hres, PlainResult]
  | _ => simp [decisionOf, WellShaped]

/-- `evaluate_policy` fails closed exactly when the environment of the call can be read and,
where the request reaches OPA, the reply is an error or has plain fields. -/
theorem fails_closed_iff (ctx : ToolCallContext) (reply : OpaReply) :
    FailsClosed ctx reply ↔ ∃ i, ctx.toOpaInput = some i ∧
      (encodable (opaRequest i) = true → ReplyOk reply) := by
  unfold FailsClosed evaluatePolicy
  cases hi : ctx.toOpaInput with
  | none => simp
  | some i =>
    simp only [Option.some.injEq, exists_eq_left']
    by_cases he : encodable (opaRequest i) = true
    · simp only [he, if_true, true_imp_iff]
      cases reply with
      | transportError => exact iff_of_true not_grants_unavailable trivial
      | response status json =>
        cases json with
        | none =>
          simp only [readReply, ite_self]
          exact iff_of_true not_grants_unavailable trivial
        | some v =>
          by_cases hs : success status = true
          · simp only [readReply, hs, if_true, ReplyOk, true_imp_iff]
            exact decisionOf_failsClosed hs
          · simp only [readReply, hs, if_false, ReplyOk, false_imp_iff, iff_true,
              Bool.false_eq_true]
            exact not_grants_unavailable
    · simp only [he, if_false, false_imp_iff, iff_true, Bool.false_eq_true]
      exact not_grants_unavailable

def listPods (ns : Json) : ToolCallContext where
  toolName := lit "list_pods"
  arguments := [(lit "namespace", ns)]
  agentId := lit "agent01"
  role := lit "readonly"

/-- `{"result": null}` raises, and `{"result": {"allow": "false"}}` lets the call proceed. -/
theorem malformed_results_open :
    ¬ FailsClosed (listPods (.str (lit "dev")))
        (.response 200 (some (.obj [(lit "result", .null)]))) ∧
      ¬ FailsClosed (listPods (.str (lit "dev"))) (.response 200
        (some (.obj [(lit "result", .obj [(lit "allow", .str (lit "false"))])]))) := by
  constructor
  · rintro ⟨d, hd, -⟩
    have hnone : evaluatePolicy (listPods (.str (lit "dev")))
        (.response 200 (some (.obj [(lit "result", .null)]))) = none := by decide +kernel
    rw [hnone] at hd
    cases hd
  · intro h
    obtain ⟨i, hi, hok⟩ := (fails_closed_iff _ _).mp h
    obtain rfl := Option.some.inj hi
    have hshaped := hok (by decide +kernel) (by decide)
    have hplain : truthy (.str (lit "false")) = false := hshaped "allow" (Or.inl rfl) _ rfl
    revert hplain
    decide +kernel

end PolicyDecision
