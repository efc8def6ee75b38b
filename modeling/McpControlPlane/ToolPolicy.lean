import McpControlPlane.PyJson

/-! # What a tool call is judged by

The interceptor makes one context of a `tools/call`, the context makes the input document of
the policy, and the Rego rules decide on that document. The environment is no argument: it is
read off the namespace. -/
namespace ToolPolicy

open PyText JsonText JsonDict PyJson

/-! ## The interceptor -/

structure Agent where
  id : Str
  role : Str
  allowedTools : List Str

structure ToolCallContext where
  toolName : Str
  arguments : List (Str × Json)
  agentId : Str
  role : Str

/-- `d.get(k)`: `None` where the key is missing. -/
def get (d : List (Str × Json)) (k : String) : Json := (dictGet (lit k) d).getD .null

def environmentPrefixes : List Str := [lit "prod", lit "staging", lit "dev"]

def unknownEnvironment : Str := lit "unknown"

/-- The environment of a namespace that is a text. -/
def environmentOf (ns : Str) : Str :=
  (environmentPrefixes.find? fun env => env.isPrefixOf ns).getD unknownEnvironment

/-- `none` is an `AttributeError`: of the truthy values only a `str` has `startswith`. -/
def inferEnvironment (arguments : List (Str × Json)) : Option Str :=
  let ns := get arguments "namespace"
  if truthy ns then
    match ns with
    | .str s => some (environmentOf s)
    | _ => none
  else some unknownEnvironment

/-- The input document of the policy. -/
structure OpaInput where
  agentId : Str
  role : Str
  toolName : Str
  args : List (Str × Json)
  ns : Json
  environment : Str

def OpaInput.document (i : OpaInput) : Json :=
  .obj [(lit "agent", .obj [(lit "id", .str i.agentId), (lit "role", .str i.role)]),
    (lit "tool", .obj [(lit "name", .str i.toolName), (lit "args", .obj i.args)]),
    (lit "resource", .obj [(lit "namespace", i.ns)]),
    (lit "environment", .str i.environment)]

def ToolCallContext.toOpaInput (ctx : ToolCallContext) : Option OpaInput :=
  (inferEnvironment ctx.arguments).map fun environment => {
    agentId := ctx.agentId, role := ctx.role, toolName := ctx.toolName, args := ctx.arguments,
    ns := get ctx.arguments "namespace", environment }

inductive ParamError where
  | missingParam (fieldName message : Str)
  /-- A name that is no text is none of a tool either. -/
  | noToolName (name : Json) (arguments : List (Str × Json))

def interceptToolCall (params : List (Str × Json)) (agent : Agent) :
    Except ParamError ToolCallContext :=
  let toolName := get params "name"
  if ¬ truthy toolName then
    .error (.missingParam (lit "name") (lit "missing required field 'name'"))
  else
    match toolName, (dictGet (lit "arguments") params).getD (.obj []) with
    | .str name, .null => .ok ⟨name, [], agent.id, agent.role⟩
    | .str name, .obj arguments => .ok ⟨name, arguments, agent.id, agent.role⟩
    | _, .null => .error (.noToolName toolName [])
    | _, .obj arguments => .error (.noToolName toolName arguments)
    | _, _ => .error (.missingParam (lit "arguments") (lit "'arguments' must be an object"))

theorem inferEnvironment_str {arguments : List (Str × Json)} {ns : Str}
    (h : get arguments "namespace" = .str ns) (hns : ns ≠ []) :
    inferEnvironment arguments = some (environmentOf ns) := by
  simp [inferEnvironment, h, truthy, hns]

/-- The interceptor passes the agent's identity and its arguments on as they are. -/
theorem interceptToolCall_ok {params : List (Str × Json)} {agent : Agent} {ctx : ToolCallContext}
    (h : interceptToolCall params agent = .ok ctx) :
    ctx.agentId = agent.id ∧ ctx.role = agent.role ∧ get params "name" = .str ctx.toolName ∧
      ((dictGet (lit "arguments") params).getD (.obj []) = .obj ctx.arguments ∨
        (dictGet (lit "arguments") params).getD (.obj []) = .null ∧ ctx.arguments = []) := by
  unfold interceptToolCall at h
  by_cases ht : truthy (get params "name") = true
  · simp only [ht, not_true_eq_false, if_false] at h
    split at h
    · rename_i name hname hargs
      obtain rfl := Except.ok.inj h
      exact ⟨rfl, rfl, hname, Or.inr ⟨hargs, rfl⟩⟩
    · rename_i name arguments hname hargs
      obtain rfl := Except.ok.inj h
      exact ⟨rfl, rfl, hname, Or.inl hargs⟩
    all_goals cases h
  · simp [ht] at h

/-! ## `policies/authz.rego` -/

structure RoleConfig where
  allowedTools : List Str
  allowedEnvironments : List Str
  allowedNamespaces : List Str

structure PolicyData where
  roles : List (Str × RoleConfig)
  destructiveTools : List Str
  alwaysRequireApprovalTools : List Str
  kubeSystemBlockedTools : List Str

def kubeSystem : Str := lit "kube-system"

/-- `v in xs` for a list of texts. -/
def isIn (v : Json) (xs : List Str) : Bool :=
  match v with
  | .str s => xs.contains s
  | _ => false

def isNull : Json → Bool
  | .null => true
  | _ => false

def isText (v : Json) (s : Str) : Bool :=
  match v with
  | .str t => t = s
  | _ => false

def toolAllowed (cfg : RoleConfig) (i : OpaInput) : Bool := cfg.allowedTools.contains i.toolName

def environmentAllowed (cfg : RoleConfig) (i : OpaInput) : Bool :=
  i.environment = unknownEnvironment || cfg.allowedEnvironments.contains i.environment

def namespaceAllowed (cfg : RoleConfig) (i : OpaInput) : Bool :=
  isNull i.ns || cfg.allowedNamespaces.contains (lit "*") || isIn i.ns cfg.allowedNamespaces

def kubeSystemBlocked (data : PolicyData) (i : OpaInput) : Bool :=
  data.kubeSystemBlockedTools.contains i.toolName && isText i.ns kubeSystem

/-- An unknown role has no `role_config`, so no rule body with it holds. -/
def allow (data : PolicyData) (i : OpaInput) : Bool :=
  match dictGet i.role data.roles with
  | none => false
  | some cfg => toolAllowed cfg i && environmentAllowed cfg i && namespaceAllowed cfg i &&
      !kubeSystemBlocked data i

def requireApproval (data : PolicyData) (i : OpaInput) : Bool :=
  allow data i && data.destructiveTools.contains i.toolName && i.environment = lit "prod" ||
    allow data i && data.alwaysRequireApprovalTools.contains i.toolName

theorem allow_of_requireApproval {data : PolicyData} {i : OpaInput}
    (h : requireApproval data i = true) : allow data i = true := by
  simp only [requireApproval, Bool.or_eq_true, Bool.and_eq_true] at h
  rcases h with h | h
  · exact h.1.1
  · exact h.1

theorem allow_iff {data : PolicyData} {i : OpaInput} {cfg : RoleConfig}
    (hrole : dictGet i.role data.roles = some cfg) : allow data i = true ↔
      i.toolName ∈ cfg.allowedTools ∧
      (i.environment = unknownEnvironment ∨ i.environment ∈ cfg.allowedEnvironments) ∧
      namespaceAllowed cfg i = true ∧ kubeSystemBlocked data i = false := by
  simp only [allow, hrole, toolAllowed, environmentAllowed, Bool.and_eq_true, Bool.or_eq_true,
    Bool.not_eq_true', decide_eq_true_eq, List.contains_iff_mem, and_assoc]

/-- `policies/data.json`. -/
def shippedData : PolicyData where
  roles := [
    (lit "sre1", {
      allowedTools := [lit "get_pod_logs", lit "list_pods", lit "get_deployment_status",
        lit "restart_deployment", lit "scale_deployment", lit "read_prometheus_metrics",
        lit "exec_into_pod", lit "apply_k8s_manifest"]
      allowedEnvironments := [lit "dev", lit "staging", lit "prod"]
      allowedNamespaces := [lit "*"] }),
    (lit "readonly", {
      allowedTools := [lit "get_pod_logs", lit "list_pods", lit "get_deployment_status",
        lit "query_terraform_plan", lit "get_jenkins_job_status", lit "read_prometheus_metrics",
        lit "read_ticket"]
      allowedEnvironments := [lit "dev", lit "staging", lit "prod"]
      allowedNamespaces := [lit "*"] }),
    (lit "deploy-bot", {
      allowedTools := [lit "restart_deployment", lit "scale_deployment", lit "trigger_jenkins_job",
        lit "get_jenkins_job_status", lit "query_terraform_plan"]
      allowedEnvironments := [lit "dev", lit "staging"]
      allowedNamespaces := [lit "*"] })]
  destructiveTools := [lit "restart_deployment", lit "scale_deployment", lit "trigger_jenkins_job"]
  alwaysRequireApprovalTools := [lit "exec_into_pod", lit "apply_k8s_manifest"]
  kubeSystemBlockedTools := [lit "restart_deployment", lit "exec_into_pod",
    lit "apply_k8s_manifest"]

/-! ## Environment confinement -/

/-- The namespace follows the naming convention. -/
def KnownPrefix (ns : Str) : Prop := ∃ env ∈ environmentPrefixes, env <+: ns

theorem environmentOf_mem {ns : Str} (h : KnownPrefix ns) :
    environmentOf ns ∈ environmentPrefixes := by
  obtain ⟨env, henv, hpre⟩ := h
  have hsome : (environmentPrefixes.find? fun e => e.isPrefixOf ns).isSome = true := by
    rw [List.find?_isSome]
    exact ⟨env, henv, List.isPrefixOf_iff_prefix.mpr hpre⟩
  obtain ⟨e, he⟩ := Option.isSome_iff_exists.mp hsome
  rw [environmentOf, he]
  exact List.mem_of_find?_eq_some he

theorem environmentOf_unknown {ns : Str} (h : ¬ KnownPrefix ns) :
    environmentOf ns = unknownEnvironment := by
  have hnone : (environmentPrefixes.find? fun e => e.isPrefixOf ns) = none := by
    apply List.find?_eq_none.mpr
    intro env henv hpre
    exact h ⟨env, henv, List.isPrefixOf_iff_prefix.mp hpre⟩
  rw [environmentOf, hnone]
  rfl

theorem unknown_not_prefix : unknownEnvironment ∉ environmentPrefixes := by decide +kernel

/-- A guess is "unknown" exactly for the namespaces outside of the convention. -/
theorem environmentOf_eq_unknown_iff {ns : Str} :
    environmentOf ns = unknownEnvironment ↔ ¬ KnownPrefix ns := by
  constructor
  · intro h hk
    have hmem := environmentOf_mem hk
    rw [h] at hmem
    exact unknown_not_prefix hmem
  · exact environmentOf_unknown

/-- What the rules allow runs in an environment of the role. -/
def Confined (data : PolicyData) (cfg : RoleConfig) (ctx : ToolCallContext) : Prop :=
  ∀ i, ctx.toOpaInput = some i → allow data i = true → i.environment ∈ cfg.allowedEnvironments

/-- The rules that do not look at the environment let the call through. -/
def OtherwiseAllowed (data : PolicyData) (cfg : RoleConfig) (toolName ns : Str) : Prop :=
  toolName ∈ cfg.allowedTools ∧ (lit "*" ∈ cfg.allowedNamespaces ∨ ns ∈ cfg.allowedNamespaces) ∧
    ¬ (toolName ∈ data.kubeSystemBlockedTools ∧ ns = kubeSystem)

theorem allow_str_iff {data : PolicyData} {i : OpaInput} {cfg : RoleConfig} {ns : Str}
    (hrole : dictGet i.role data.roles = some cfg) (hns : i.ns = .str ns) :
    allow data i = true ↔ OtherwiseAllowed data cfg i.toolName ns ∧
      (i.environment = unknownEnvironment ∨ i.environment ∈ cfg.allowedEnvironments) := by
  have hnamespace : namespaceAllowed cfg i = true ↔
      lit "*" ∈ cfg.allowedNamespaces ∨ ns ∈ cfg.allowedNamespaces := by
    simp only [namespaceAllowed, hns, isNull, isIn, Bool.false_or, Bool.or_eq_true,
      List.contains_iff_mem]
  have hblocked : kubeSystemBlocked data i = false ↔
      ¬ (i.toolName ∈ data.kubeSystemBlockedTools ∧ ns = kubeSystem) := by
    rw [← Bool.not_eq_true]
    simp only [kubeSystemBlocked, hns, isText, Bool.and_eq_true, List.contains_iff_mem,
      decide_eq_true_eq]
  rw [allow_iff hrole, hnamespace, hblocked, OtherwiseAllowed]
  constructor
  · rintro ⟨h₁, h₂, h₃, h₄⟩
    exact ⟨⟨h₁, h₃, h₄⟩, h₂⟩
  · rintro ⟨⟨h₁, h₃, h₄⟩, h₂⟩
    exact ⟨h₁, h₂, h₃, h₄⟩

/-- A namespaced call is confined to the role's environments unless its namespace is outside of
the naming convention and nothing else stops it. -/
theorem confined_iff {data : PolicyData} {cfg : RoleConfig} {ctx : ToolCallContext} {ns : Str}
    (hrole : dictGet ctx.role data.roles = some cfg)
    (harg : get ctx.arguments "namespace" = .str ns) (hns : ns ≠ []) :
    Confined data cfg ctx ↔ KnownPrefix ns ∨ unknownEnvironment ∈ cfg.allowedEnvironments ∨
      ¬ OtherwiseAllowed data cfg ctx.toolName ns := by
  have henv := inferEnvironment_str harg hns
  constructor
  · intro h
    by_cases hk : KnownPrefix ns
    · exact Or.inl hk
    refine Or.inr ?_
    by_cases ho : OtherwiseAllowed data cfg ctx.toolName ns
    · have hunknown := environmentOf_unknown hk
      rw [hunknown] at henv
      refine Or.inl ?_
      apply h ⟨ctx.agentId, ctx.role, ctx.toolName, ctx.arguments, .str ns, unknownEnvironment⟩
      · rw [ToolCallContext.toOpaInput, henv, harg]
        rfl
      · exact (allow_str_iff hrole rfl).mpr ⟨ho, Or.inl rfl⟩
    · exact Or.inr ho
  · intro h i hi hallow
    rw [ToolCallContext.toOpaInput, henv, Option.map_some, Option.some.injEq] at hi
    subst hi
    obtain ⟨ho, hlisted⟩ := (allow_str_iff hrole harg).mp hallow
    rcases hlisted with hunknown | hmem
    · rcases h with hk | hmem | hno
      · exact absurd hk (environmentOf_eq_unknown_iff.mp hunknown)
      · exact hunknown ▸ hmem
      · exact absurd ho hno
    · exact hmem

def restartIn (ns : String) (role : String) : ToolCallContext where
  toolName := lit "restart_deployment"
  arguments := [(lit "namespace", .str (lit ns)), (lit "deployment", .str (lit "api")),
    (lit "reason", .str (lit "memory leak since noon"))]
  agentId := lit "agent01"
  role := lit role

/-- A restart in `dev-payments` by the deploy bot. -/
theorem confined_dev_payments :
    Confined shippedData ⟨[lit "restart_deployment", lit "scale_deployment",
      lit "trigger_jenkins_job", lit "get_jenkins_job_status", lit "query_terraform_plan"],
      [lit "dev", lit "staging"], [lit "*"]⟩ (restartIn "dev-payments" "deploy-bot") := by
  have harg : get (restartIn "dev-payments" "deploy-bot").arguments "namespace" =
      .str (lit "dev-payments") := rfl
  have hknown : KnownPrefix (lit "dev-payments") := ⟨lit "dev", by decide, by decide⟩
  exact (confined_iff rfl harg (by decide)).mpr (Or.inl hknown)

/-- The deploy bot is listed for dev and staging; the rules let it restart in `payments-prod`. -/
theorem deploy_bot_not_confined : ∃ cfg, dictGet (lit "deploy-bot") shippedData.roles = some cfg ∧
    cfg.allowedEnvironments = [lit "dev", lit "staging"] ∧
    ¬ Confined shippedData cfg (restartIn "payments-prod" "deploy-bot") := by
  refine ⟨_, rfl, rfl, fun h => ?_⟩
  have hmem := h _ rfl (by decide +kernel)
  revert hmem
  decide +kernel

end ToolPolicy
