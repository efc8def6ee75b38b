import McpControlPlane.Gateway

/-! # Tighter policy data

The Rego rules over arbitrary documents. Entries added to the three lists of tools turn rules on
that only ever refuse a call or hold it back, so no call gets further than before. -/
namespace PolicyOrder

open PyText JsonText JsonDict PyJson PolicyDecision

/-! ## The rules, on any documents -/

/-- `v.k`, undefined where `v` is no object or has no such key. -/
def member (k : Str) : Json → Option Json
  | .obj kvs => dictGet k kvs
  | _ => none

def field (k : String) (v : Json) : Option Json := member (lit k) v

/-- `v[w]`. -/
def index : Json → Json → Option Json
  | .obj kvs, .str k => dictGet k kvs
  | .arr xs, .num (.int n) => if 0 ≤ n.val then xs[n.val.toNat]? else none
  | _, _ => none

/-- The equality of documents is OPA's. -/
structure Rego where
  same : Json → Json → Bool

/-- The body of a rule: an undefined expression fails as `false` does. -/
def holds (body : Option Bool) : Bool := body.getD false

variable (R : Rego)

/-- `v in xs`; the members of an object are its values. -/
def Rego.isIn (v : Json) : Json → Bool
  | .arr xs => xs.any fun x => R.same v x
  | .obj kvs => kvs.any fun kv => R.same v kv.2
  | _ => false

def roleConfig (data input : Json) : Option Json := do
  let roles ← field "roles" data
  let agent ← field "agent" input
  let role ← field "role" agent
  index roles role

def toolName (input : Json) : Option Json := field "tool" input >>= field "name"

def resourceNamespace (input : Json) : Option Json := field "resource" input >>= field "namespace"

def toolAllowed (data input : Json) : Bool :=
  holds do
    let name ← toolName input
    let tools ← roleConfig data input >>= field "allowed_tools"
    return R.isIn name tools

def environmentIs (input : Json) (environment : String) : Bool :=
  holds do return R.same (← field "environment" input) (.str (lit environment))

def environmentAllowed (data input : Json) : Bool :=
  environmentIs R input "unknown" ||
    holds do
      let environment ← field "environment" input
      let environments ← roleConfig data input >>= field "allowed_environments"
      return R.isIn environment environments

def namespaceAllowed (data input : Json) : Bool :=
  (holds do return R.same (← resourceNamespace input) .null) ||
    (holds do
      let namespaces ← roleConfig data input >>= field "allowed_namespaces"
      return R.isIn (.str (lit "*")) namespaces) ||
    holds do
      let ns ← resourceNamespace input
      let namespaces ← roleConfig data input >>= field "allowed_namespaces"
      return R.isIn ns namespaces

/-- `input.tool.name in data.<list>`. -/
def listed (list : String) (data input : Json) : Bool :=
  holds do return R.isIn (← toolName input) (← field list data)

def kubeSystemBlocked (data input : Json) : Bool :=
  listed R "kube_system_blocked_tools" data input &&
    holds do return R.same (← resourceNamespace input) (.str (lit "kube-system"))

def allow (data input : Json) : Bool :=
  toolAllowed R data input && environmentAllowed R data input && namespaceAllowed R data input &&
    !kubeSystemBlocked R data input

def requireApproval (data input : Json) : Bool :=
  allow R data input && listed R "destructive_tools" data input && environmentIs R input "prod" ||
    allow R data input && listed R "always_require_approval_tools" data input

/-! ## What the gateway makes of a decision -/

inductive CallOutcome where
  | denied
  | held
  | executed
  deriving DecidableEq

def CallOutcome.rank : CallOutcome → ℕ
  | .denied => 0
  | .held => 1
  | .executed => 2

instance : Preorder CallOutcome := Preorder.lift CallOutcome.rank

/-- `require_approval` is tested first. -/
def outcomeOf (decision : Decision) : CallOutcome :=
  if decision.requireApproval then .held else if decision.allow then .executed else .denied

/-- What the handler of `tools/call` does for an outcome. -/
theorem judge_outcome (G : Gateway.Config) (rpcId : Json) (ctx : ToolPolicy.ToolCallContext) :
    Gateway.judge G rpcId ctx = Gateway.evaluatePolicy ctx >>= fun decision =>
      match outcomeOf decision with
      | .held => Gateway.holdForApproval G rpcId ctx decision
      | .executed => Gateway.executeDirectly G rpcId ctx decision
      | .denied => Gateway.refuse rpcId ctx decision := by
  unfold Gateway.judge
  congr 1
  funext decision
  unfold outcomeOf
  split_ifs <;> rfl

/-- The reply for a pair of documents; `others` are the other rules that hold. -/
def reply (data input : Json) (others : List (Str × Json)) : OpaReply :=
  .response 200 (some (.obj [(lit "result", .obj ((lit "allow", .bool (allow R data input)) ::
    (lit "require_approval", .bool (requireApproval R data input)) :: others))]))

/-- The outcome of a call of the tool, `none` where the reply cannot be read. -/
def outcome (tool : Str) (data input : Json) (others : List (Str × Json)) : Option CallOutcome :=
  (readReply tool (reply R data input others)).map outcomeOf

/-- The value of a list with extra entries; a list that was missing has none. -/
def Extra (before after : Option Json) : Prop :=
  before = after ∨ ∃ ys, after = some (.arr ys) ∧
    (before = none ∨ ∃ xs, before = some (.arr xs) ∧ ∀ x ∈ xs, x ∈ ys)

def tightenedLists : List Str :=
  [lit "kube_system_blocked_tools", lit "always_require_approval_tools", lit "destructive_tools"]

/-- The second document differs from the first one in extra entries of the three lists only. -/
structure Tighter (data data' : Json) : Prop where
  lists : ∀ k ∈ tightenedLists, Extra (member k data) (member k data')
  others : ∀ k, k ∉ tightenedLists → member k data = member k data'

section Order

variable {R} {data data' : Json}

theorem listed_extra (h : Tighter data data') {list : String} (hlist : lit list ∈ tightenedLists)
    (input : Json) (hin : listed R list data input = true) : listed R list data' input = true := by
  rcases h.lists _ hlist with heq | ⟨ys, hafter, hbefore⟩
  · unfold listed field at hin ⊢
    rw [← heq]
    exact hin
  · rcases hbefore with hnone | ⟨xs, hxs, hsub⟩
    · exfalso
      cases hname : toolName input <;> simp [listed, holds, field, hnone, hname] at hin
    · cases hname : toolName input with
      | none => simp [listed, holds, hname] at hin
      | some name =>
        simp only [listed, holds, field, hname, hxs, hafter, Option.bind_eq_bind, Option.bind_some,
          Option.pure_def, Option.getD_some, Rego.isIn, List.any_eq_true] at hin ⊢
        obtain ⟨x, hx, hsame⟩ := hin
        exact ⟨x, hsub x hx, hsame⟩

theorem roleConfig_same (h : Tighter data data') (input : Json) :
    roleConfig data input = roleConfig data' input := by
  unfold roleConfig field
  rw [h.others (lit "roles") (by decide)]

/-- What is allowed under the tighter document was allowed before. -/
theorem allow_tighter (h : Tighter data data') {input : Json}
    (hallow : allow R data' input = true) : allow R data input = true := by
  simp only [allow, toolAllowed, environmentAllowed, namespaceAllowed, ← roleConfig_same h input,
    Bool.and_eq_true, Bool.not_eq_true'] at hallow ⊢
  obtain ⟨hroles, hblocked⟩ := hallow
  refine ⟨hroles, ?_⟩
  rw [← Bool.not_eq_true] at hblocked ⊢
  intro hb
  apply hblocked
  simp only [kubeSystemBlocked, Bool.and_eq_true] at hb ⊢
  exact ⟨listed_extra h (by decide) input hb.1, hb.2⟩

theorem allow_of_requireApproval {input : Json} (h : requireApproval R data input = true) :
    allow R data input = true := by
  simp only [requireApproval, Bool.or_eq_true, Bool.and_eq_true] at h
  rcases h with h | h
  · exact h.1.1
  · exact h.1

/-- A call that was held and is still allowed is still held. -/
theorem requireApproval_tighter (h : Tighter data data') {input : Json}
    (hallow : allow R data' input = true) (hheld : requireApproval R data input = true) :
    requireApproval R data' input = true := by
  simp only [requireApproval, hallow, Bool.true_and, Bool.or_eq_true, Bool.and_eq_true] at hheld ⊢
  rcases hheld with ⟨⟨-, hlisted⟩, hprod⟩ | ⟨-, hlisted⟩
  · exact Or.inl ⟨listed_extra h (by decide) input hlisted, hprod⟩
  · exact Or.inr (listed_extra h (by decide) input hlisted)

theorem outcome_eq (tool : Str) (input : Json) (others : List (Str × Json)) :
    outcome R tool data input others = some (if requireApproval R data input then .held
      else if allow R data input then .executed else .denied) := by
  have hne : lit "allow" ≠ lit "require_approval" := by decide
  simp only [outcome, reply, readReply, success, decisionOf, flag, dictGet, hne, if_true, if_false,
    Option.getD_some, truthy]
  rfl

/-- Extra entries in the lists never let a call get further, and what needs approval is allowed. -/
theorem tightening_never_loosens (h : Tighter data data') (tool : Str) (input : Json)
    (others others' : List (Str × Json)) :
    (∃ o o', outcome R tool data input others = some o ∧
      outcome R tool data' input others' = some o' ∧ o' ≤ o) ∧
    ∀ data input, requireApproval R data input = true → allow R data input = true := by
  refine ⟨⟨_, _, outcome_eq tool input others, outcome_eq tool input others', ?_⟩,
    fun data input => allow_of_requireApproval⟩
  by_cases hallow : allow R data' input = true
  · by_cases hheld : requireApproval R data input = true
    · rw [if_pos (requireApproval_tighter h hallow hheld), if_pos hheld]
    · rw [if_neg hheld, if_pos (allow_tighter h hallow)]
      split_ifs
      · exact Nat.le_succ 1
      · exact le_refl _
  · have hnot : ¬ requireApproval R data' input = true :=
      fun hreq => hallow (allow_of_requireApproval hreq)
    rw [if_neg hnot, if_neg hallow]
    exact Nat.zero_le _

end Order

/-! ## The documents of the shipped schema -/

section Documents

open ToolPolicy (PolicyData RoleConfig OpaInput isNull isText)

def names (xs : List Str) : Json := .arr (xs.map .str)

def roleDocument (cfg : RoleConfig) : Json :=
  .obj [(lit "allowed_tools", names cfg.allowedTools),
    (lit "allowed_environments", names cfg.allowedEnvironments),
    (lit "allowed_namespaces", names cfg.allowedNamespaces)]

def dataDocument (data : PolicyData) : Json :=
  .obj [(lit "roles", .obj (data.roles.map fun role => (role.1, roleDocument role.2))),
    (lit "destructive_tools", names data.destructiveTools),
    (lit "always_require_approval_tools", names data.alwaysRequireApprovalTools),
    (lit "kube_system_blocked_tools", names data.kubeSystemBlockedTools)]

/-- What OPA's equality says of texts and of `null`. -/
structure Rego.Plain (R : Rego) : Prop where
  text : ∀ v s, R.same v (.str s) = isText v s
  null : ∀ v, R.same v .null = isNull v

variable {R}

theorem isIn_names (hR : R.Plain) (v : Json) (xs : List Str) :
    R.isIn v (names xs) = ToolPolicy.isIn v xs := by
  rw [names, Rego.isIn, List.any_map]
  cases v with
  | str s =>
    rw [ToolPolicy.isIn, Bool.eq_iff_iff, List.any_eq_true, List.contains_iff_mem]
    simp [Function.comp, hR.text, isText]
  | _ => simp [Function.comp, hR.text, isText, ToolPolicy.isIn]

theorem index_roles (data : PolicyData) (role : Str) :
    index (.obj (data.roles.map fun r => (r.1, roleDocument r.2))) (.str role) =
      (dictGet role data.roles).map roleDocument := by
  rw [index]
  induction data.roles with
  | nil => rfl
  | cons r roles ih =>
    rw [List.map_cons, dictGet, dictGet, ih]
    split_ifs <;> rfl

/-- On the documents that the gateway and the repository make, the rules are those of the typed
data. -/
theorem allow_documents (hR : R.Plain) (data : PolicyData) (i : OpaInput) :
    allow R (dataDocument data) i.document = ToolPolicy.allow data i := by
  have hrole : roleConfig (dataDocument data) i.document =
      (dictGet i.role data.roles).map roleDocument := index_roles data i.role
  have hname : toolName i.document = some (.str i.toolName) := rfl
  have hns : resourceNamespace i.document = some i.ns := rfl
  have henv : field "environment" i.document = some (.str i.environment) := rfl
  have hblocked : field "kube_system_blocked_tools" (dataDocument data) =
      some (names data.kubeSystemBlockedTools) := rfl
  unfold allow ToolPolicy.allow
  cases hget : dictGet i.role data.roles with
  | none => simp [toolAllowed, hrole, hget, hname, holds]
  | some cfg =>
    have htools : field "allowed_tools" (roleDocument cfg) = some (names cfg.allowedTools) := rfl
    have henvs : field "allowed_environments" (roleDocument cfg) =
        some (names cfg.allowedEnvironments) := rfl
    have hspaces : field "allowed_namespaces" (roleDocument cfg) =
        some (names cfg.allowedNamespaces) := rfl
    simp only [toolAllowed, environmentAllowed, environmentIs, namespaceAllowed, kubeSystemBlocked,
      listed, holds, hrole, hget, hname, hns, henv, hblocked, htools, henvs, hspaces,
      Option.bind_eq_bind, Option.bind_some, Option.map_some, Option.pure_def, Option.getD_some,
      isIn_names hR, hR.text, hR.null, ToolPolicy.toolAllowed, ToolPolicy.environmentAllowed,
      ToolPolicy.namespaceAllowed, ToolPolicy.kubeSystemBlocked, ToolPolicy.isIn, isText,
      ToolPolicy.unknownEnvironment, ToolPolicy.kubeSystem]
    rfl

end Documents

/-- Equality of texts, and of `null`. -/
def textEquality : Rego where
  same v w := match w with
    | .str s => ToolPolicy.isText v s
    | .null => ToolPolicy.isNull v
    | _ => false

/-- The shipped data with one more tool that is blocked in `kube-system`. -/
def stricterData : ToolPolicy.PolicyData :=
  { ToolPolicy.shippedData with
    kubeSystemBlockedTools := lit "scale_deployment" ::
      ToolPolicy.shippedData.kubeSystemBlockedTools }

/-- A call that scales a deployment of `kube-system`. -/
def scaleKubeSystem : ToolPolicy.OpaInput where
  agentId := lit "agent01"
  role := lit "sre1"
  toolName := lit "scale_deployment"
  args := [(lit "namespace", .str (lit "kube-system"))]
  ns := .str (lit "kube-system")
  environment := lit "unknown"

theorem tightening_blocks_scaling :
    (∃ o o', outcome textEquality (lit "scale_deployment") (dataDocument ToolPolicy.shippedData)
      scaleKubeSystem.document [] = some o ∧
      outcome textEquality (lit "scale_deployment") (dataDocument stricterData)
        scaleKubeSystem.document [] = some o' ∧ o' ≤ o) ∧
    ∀ data input, requireApproval textEquality data input = true →
      allow textEquality data input = true := by
  refine tightening_never_loosens ⟨?_, ?_⟩ _ _ _ _
  · intro k hk
    simp only [tightenedLists, List.mem_cons, List.not_mem_nil, or_false] at hk
    rcases hk with rfl | rfl | rfl
    · refine Or.inr ⟨_, rfl, Or.inr ⟨_, rfl, fun x hx => ?_⟩⟩
      exact List.mem_cons_of_mem _ hx
    · exact Or.inl rfl
    · exact Or.inl rfl
  · intro k hk
    simp only [tightenedLists, List.mem_cons, List.not_mem_nil, or_false, not_or] at hk
    simp only [member, dataDocument, dictGet, stricterData, Ne.symm hk.1, if_false]

end PolicyOrder
