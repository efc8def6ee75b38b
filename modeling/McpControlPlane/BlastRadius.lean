import McpControlPlane.Mediation

/-! # What runs without a human

A destructive call skips the approval unless its namespace begins with `prod`, and a namespace
outside of the naming convention belongs to no environment. `kube-system` is such a namespace, and
`scale_deployment` is not on its block list. -/
namespace BlastRadius

open PyText Binary64 JsonText JsonDict PyJson UuidTime AuditLog ToolPolicy PolicyDecision
open GatewayOps ApprovalStore SlackSignature Gateway GatewaySpecs Executors Mediation Interleaving

variable {G : Config} {W : World}

/-! ## Direct execution -/

/-- In some run `POST /mcp` itself executes the call that `i` stands for. -/
def RunsDirectly (G : Config) (W : World) (agent : Agent) (body : Str) (i : OpaInput) : Prop :=
  ∃ p : GatewayPool G W, Reachable (fun _ _ => True) p ∧ ∃ e ∈ p.hist, e.req = .mcp agent body ∧
    ∃ name arguments, e.entry.op = .runTool name arguments ∧ Built agent name arguments i

theorem built_unique {agent : Agent} {name : Str} {arguments : List (Str × Json)}
    {i j : OpaInput} (hi : Built agent name arguments i) (hj : Built agent name arguments j) :
    i = j := Option.some.inj (hi.symm.trans hj)

theorem rules_of_runsDirectly {agent : Agent} {body : Str} {i : OpaInput}
    (h : RunsDirectly G W agent body i) :
    Requested agent body i ∧ allow W.data i = true ∧ requireApproval W.data i = false := by
  obtain ⟨p, hp, e, he, hreq, name, arguments, hop, hbuilt⟩ := h
  obtain ⟨h₁, h₂, hsplit⟩ := List.append_of_mem he
  obtain ⟨j, hj⟩ := mediated (reachable_lawful hp) (reachable_backed hp) hsplit hop
  rw [hreq] at hj
  obtain ⟨hrequested, hbuilt', -, hallow, happroval⟩ := hj
  obtain rfl := built_unique hbuilt hbuilt'
  exact ⟨hrequested, hallow, happroval⟩

theorem eq_of_isText {v : Json} {s : Str} (h : isText v s = true) : v = .str s := by
  cases v with
  | str t => rw [of_decide_eq_true h]
  | _ => cases h

/-- A call that reaches the policy is judged. -/
theorem mcp_of_requested {agent : Agent} {body : Str} {i : OpaInput} (h : Requested agent body i) :
    ∃ rpcId ctx, mcp G agent body = judge G rpcId ctx ∧ ctx.toOpaInput = some i := by
  obtain ⟨kvs, params, ctx, hl, hmethod, hparams, hctx, hi⟩ := h.parsed
  refine ⟨ToolPolicy.get kvs "id", ctx, ?_, hi⟩
  have hcall := eq_of_isText hmethod
  have htrue : truthy (.str (lit "tools/call") : Json) = true := by decide
  have hlist : isText (.str (lit "tools/call")) (lit "tools/list") = false := by decide
  have hself : isText (.str (lit "tools/call")) (lit "tools/call") = true := by decide
  obtain ⟨env, henv, rfl⟩ := Option.map_eq_some_iff.mp hi
  have hparam : truthy (.obj params : Json) = true := by
    cases params with
    | nil =>
      rw [interceptToolCall, if_pos (by decide)] at hctx
      cases hctx
    | cons kv params => rfl
  have hname : ctx.toolName ∈ tools := h.registered
  have hagent : ctx.toolName ∈ agent.allowedTools := h.listed
  simp only [mcp, hl, hcall, htrue, hlist, hself, hparams, hparam, not_true_eq_false, if_false,
    if_true, Bool.false_eq_true]
  simp only [toolsCall, hctx, henv, hname, hagent, not_true_eq_false, if_false]

/-- Where the rules allow a call without an approval, it is executed directly. -/
theorem runs_directly {agent : Agent} {body : Str} {i : OpaInput} (h : Requested agent body i)
    (hallow : allow W.data i = true) (hdirect : requireApproval W.data i = false) :
    RunsDirectly G W agent body i := by
  obtain ⟨rpcId, ctx, hmcp, hi⟩ := mcp_of_requested (G := G) h
  have hbuilt := requested_built h
  have hjudge : ∃ k, mcp G agent body = .call (.postOpa i) k ∧ ∃ k',
      k (.response 200 (some (packageDocument W.data i []))) =
        .call (.runTool i.toolName i.args) k' := by
    obtain ⟨env, -, rfl⟩ := Option.map_eq_some_iff.mp hi
    have hreply := decisionOf_packageDocument W.data
      ⟨ctx.agentId, ctx.role, ctx.toolName, ctx.arguments, ToolPolicy.get ctx.arguments "namespace",
        env⟩ ctx.toolName []
    have hdecision : ∀ json d, decisionOf ctx.toolName json = some d →
        readReply ctx.toolName (.response 200 (some json)) = some d := fun _ _ h => h
    rw [hmcp, judge, Gateway.evaluatePolicy, hi]
    simp only [h.encodes, if_true]
    refine ⟨_, rfl, ?_⟩
    simp only [Prog.bind, hdecision _ _ hreply, hallow, hdirect, pure_eq, Bool.false_eq_true,
      if_false, if_true]
    exact ⟨_, rfl⟩
  obtain ⟨k, hk, k', hk'⟩ := hjudge
  let p₀ : GatewayPool G W := Pool.empty (Y := gatewaySystem G W) (GwState.initial 0)
  let p₁ : GatewayPool G W := p₀.setThread 0 (.mcp agent body) (.call (.postOpa i) k)
  have h₁ : Reachable (fun _ _ => True) p₁ := by
    have hstep := Step.arrive (p := p₀) 0 (.mcp agent body) rfl
    have hhandle : (gatewaySystem G W).handler (.mcp agent body) = .call (.postOpa i) k := hk
    rw [hhandle] at hstep
    exact .step (.start _ ⟨0, rfl⟩) trivial hstep
  let p₂ : GatewayPool G W := p₁.after 0 (.mcp agent body) ⟨.postOpa i,
    some (.response 200 (some (packageDocument W.data i [])))⟩ p₁.shared
    (.call (.runTool i.toolName i.args) k')
  have h₂ : Reachable (fun _ _ => True) p₂ := by
    have hstep := Step.answer (p := p₁) 0 (.package []) (.mcp agent body) (.postOpa i) k
      (.response 200 (some (packageDocument W.data i []))) p₁.shared rfl rfl
    rw [hk'] at hstep
    exact .step h₁ trivial hstep
  have hlast := Step.answer (p := p₂) 0 (.outcome (.success .null)) (.mcp agent body)
    (.runTool i.toolName i.args) k' (.success .null) p₂.shared rfl rfl
  exact ⟨_, .step h₂ trivial hlast, _, List.mem_cons_self, rfl, i.toolName, i.args, rfl, hbuilt⟩

/-! ## Destructive calls -/

/-- A destructive call that is executed directly is known to be in dev or staging. -/
def SmallBlastRadius (G : Config) (W : World) (agent : Agent) (body : Str) : Prop :=
  ∀ i, RunsDirectly G W agent body i → i.toolName ∈ W.data.destructiveTools →
    i.environment = lit "dev" ∨ i.environment = lit "staging"

theorem environment_cases {agent : Agent} {name : Str} {arguments : List (Str × Json)}
    {i : OpaInput} (h : Built agent name arguments i) :
    i.environment ∈ environmentPrefixes ∨ i.environment = unknownEnvironment := by
  have henv := (built_fields h).2.2.2.2.2
  unfold inferEnvironment at henv
  by_cases ht : truthy (ToolPolicy.get arguments "namespace") = true
  · simp only [ht, if_true] at henv
    split at henv
    · rename_i s hs
      rw [← Option.some.inj henv]
      by_cases hk : KnownPrefix s
      · exact Or.inl (environmentOf_mem hk)
      · exact Or.inr (environmentOf_unknown hk)
    · cases henv
  · simp only [ht, Bool.false_eq_true, if_false, Option.some.injEq] at henv
    exact Or.inr henv.symm

theorem requireApproval_false_iff {data : PolicyData} {i : OpaInput} (hallow : allow data i = true) :
    requireApproval data i = false ↔
      ¬ (i.toolName ∈ data.destructiveTools ∧ i.environment = lit "prod") ∧
        i.toolName ∉ data.alwaysRequireApprovalTools := by
  rw [← Bool.not_eq_true, requireApproval]
  simp only [hallow, Bool.true_and, Bool.or_eq_true, Bool.and_eq_true, List.contains_iff_mem,
    decide_eq_true_eq, not_or]

/-- What runs directly is known to be in dev or staging exactly if no destructive call gets past
the rules with an unknown environment: no namespace, or one without a known prefix. -/
theorem small_blast_radius_iff (agent : Agent) (body : Str) : SmallBlastRadius G W agent body ↔
    ∀ i, Requested agent body i → i.toolName ∈ W.data.destructiveTools → allow W.data i = true →
      i.toolName ∉ W.data.alwaysRequireApprovalTools → i.environment ≠ unknownEnvironment := by
  constructor
  · intro h i hreq hdestructive hallow halways hunknown
    have hdirect : requireApproval W.data i = false := by
      refine (requireApproval_false_iff hallow).mpr ⟨fun hprod => ?_, halways⟩
      rw [hunknown] at hprod
      exact absurd hprod.2 (by decide)
    have hsmall := h i (runs_directly hreq hallow hdirect) hdestructive
    rw [hunknown] at hsmall
    revert hsmall
    decide
  · intro h i hruns hdestructive
    obtain ⟨hreq, hallow, hdirect⟩ := rules_of_runsDirectly hruns
    obtain ⟨hprod, halways⟩ := (requireApproval_false_iff hallow).mp hdirect
    rcases environment_cases (requested_built hreq) with hknown | hunknown
    · simp only [environmentPrefixes, List.mem_cons, List.not_mem_nil, or_false] at hknown
      rcases hknown with henv | henv | henv
      · exact absurd ⟨hdestructive, henv⟩ hprod
      · exact Or.inr henv
      · exact Or.inl henv
    · exact absurd hunknown (h i hreq hdestructive hallow halways)

def deployBot : Agent := ⟨lit "deploybot", lit "deploy-bot", tools⟩

def deployBody : Str :=
  callBody "trigger_jenkins_job" ("\x7b\"job_name\": \"deploy-prod\", " ++
    "\"reason\": \"scheduled release\"\x7d")

/-- A Jenkins job has no namespace, so nothing is known of its environment. -/
theorem jenkins_job_runs_directly : ¬ SmallBlastRadius demoConfig openWorld deployBot deployBody := by
  intro h
  have hinput : (requestOf deployBot deployBody).map (fun i =>
      (decide (i.toolName ∈ shippedData.destructiveTools), i.environment, allow shippedData i,
        requireApproval shippedData i)) = some (true, unknownEnvironment, true, false) := by
    decide +kernel
  obtain ⟨i, hi, hfields⟩ := Option.map_eq_some_iff.mp hinput
  simp only [Prod.mk.injEq, decide_eq_true_eq] at hfields
  obtain ⟨hdestructive, hunknown, hallow, hdirect⟩ := hfields
  have hsmall := h i (runs_directly (requested_of_requestOf hi) hallow hdirect) hdestructive
  rw [hunknown] at hsmall
  revert hsmall
  decide

/-! ## `kube-system` -/

/-- The gateway with the shipped data. -/
abbrev shippedWorld (insertable : AuditEvent → Bool) : World := ⟨shippedData, insertable⟩

/-- The body asks for replicas in `kube-system`, and the rules allow it. -/
def scalesKubeSystem (C : Cluster) : GwReq → Bool
  | .mcp agent body => (requestOf agent body).any fun i => allow shippedData i &&
      i.toolName = lit "scale_deployment" && isText i.ns kubeSystem &&
      (k8sCall C i.toolName i.args).isSome
  | _ => false

/-- No such request arrives. -/
def ScalesElsewhere (C : Cluster) {insertable : AuditEvent → Bool}
    (_ : GatewayPool G (shippedWorld insertable)) :
    Move (gatewaySystem G (shippedWorld insertable)) → Prop
  | .arrive _ r => scalesKubeSystem C r = false
  | _ => True

instance (C : Cluster) {insertable : AuditEvent → Bool} (p : GatewayPool G (shippedWorld insertable))
    (m : Move (gatewaySystem G (shippedWorld insertable))) : Decidable (ScalesElsewhere C p m) :=
  match m with
  | .arrive _ r => inferInstanceAs (Decidable (scalesKubeSystem C r = false))
  | .drift _ | .answer _ _ | .fail _ _ => isTrue trivial

theorem scalesKubeSystem_mcp {C : Cluster} {agent : Agent} {body : Str} {i : OpaInput}
    (h : Requested agent body i) (hallow : allow shippedData i = true)
    (htool : i.toolName = lit "scale_deployment") (hns : i.ns = .str kubeSystem)
    (hcall : (k8sCall C i.toolName i.args).isSome = true) :
    scalesKubeSystem C (.mcp agent body) = true := by
  rw [scalesKubeSystem, requestOf_of_requested h, Option.any_some]
  simp only [hallow, hns, isText, hcall, decide_true, Bool.and_true, Bool.true_and,
    decide_eq_true_eq]
  exact htool

/-- The block list of the shipped data leaves one mutating tool out. -/
theorem mutates_kubeSystem {i : OpaInput} (hallow : allow shippedData i = true)
    (htool : i.toolName ∈ mutatingTools) (hns : i.ns = .str kubeSystem) :
    i.toolName = lit "scale_deployment" := by
  have hfree : kubeSystemBlocked shippedData i = false := by
    unfold allow at hallow
    split at hallow
    · cases hallow
    · simp only [Bool.and_eq_true, Bool.not_eq_true'] at hallow
      exact hallow.2
  have hlisted : i.toolName ∉ shippedData.kubeSystemBlockedTools := by
    intro hmem
    simp only [kubeSystemBlocked, hns, isText, decide_true, Bool.and_true] at hfree
    rw [List.contains_iff_mem.mpr hmem] at hfree
    cases hfree
  have hleft : ∀ name ∈ mutatingTools, name ∉ shippedData.kubeSystemBlockedTools →
      name = lit "scale_deployment" := by decide +kernel
  exact hleft _ htool hlisted

/-- In a run without such requests no mutating request to Kubernetes targets `kube-system`. -/
theorem kube_system_unmutated (C : Cluster) (insertable : AuditEvent → Bool)
    (p : GatewayPool G (shippedWorld insertable)) (hp : Reachable (ScalesElsewhere C) p)
    (e : Event (gatewaySystem G (shippedWorld insertable))) (he : e ∈ p.hist) (name : Str)
    (arguments : List (Str × Json)) (hrun : e.entry.op = .runTool name arguments) (call : K8sCall)
    (hcall : k8sCall C name arguments = some call) (hm : call.verb.mutates = true) :
    call.ns ≠ kubeSystem := by
  intro hkube
  have hlawful := reachable_lawful hp
  obtain ⟨h₁, h₂, hsplit⟩ := List.append_of_mem he
  obtain ⟨i, hi⟩ := mediated hlawful (reachable_backed hp) hsplit hrun
  obtain ⟨⟨agent, -, hbuilt⟩, hallow⟩ := hi.built
  obtain ⟨-, -, rfl, rfl, hns, -⟩ := built_fields hbuilt
  have hnsKube : i.ns = .str kubeSystem := by rw [hns, (k8sCall_namespace hcall).1, hkube]
  have htool := mutates_kubeSystem hallow (mutates_toolName hcall hm) hnsKube
  -- the request that was put before the policy, wherever the call runs
  have hrequest : ∃ f ∈ p.hist, scalesKubeSystem C f.req = true := by
    cases hreq : e.req with
    | mcp agent body =>
      rw [hreq] at hi
      refine ⟨e, he, ?_⟩
      rw [hreq]
      exact scalesKubeSystem_mcp hi.1 hallow htool hnsKube (by rw [hcall]; rfl)
    | decide approvalId timestamp signature body =>
      rw [hreq] at hi
      obtain ⟨R, -, -, ⟨f, hf, agent', body', hfreq, -, hrequested, -⟩, -, -⟩ := hi
      refine ⟨f, hsplit ▸ List.mem_append_right _ (List.mem_cons_of_mem _ hf), ?_⟩
      rw [hfreq]
      exact scalesKubeSystem_mcp hrequested hallow htool hnsKube (by rw [hcall]; rfl)
    | status approvalId =>
      rw [hreq] at hi
      cases hi
  obtain ⟨f, hf, hscales⟩ := hrequest
  obtain ⟨q, hq⟩ := hlawful.owner f hf
  have harrived : ∀ (p : GatewayPool G (shippedWorld insertable)) (t : ℕ) (r : GwReq),
      ScalesElsewhere C p (.arrive t r) → scalesKubeSystem C r = false := fun _ _ _ h => h
  rw [reachable_arrived harrived hp hq] at hscales
  cases hscales

def devBody : Str :=
  callBody "restart_deployment" ("\x7b\"namespace\": \"dev-payments\", \"deployment\": \"api\", " ++
    "\"reason\": \"memory leak since noon\"\x7d")

/-- A restart in `dev-payments`. -/
theorem dev_restart_spares_kube_system : ∃ call : K8sCall, call.verb.mutates = true ∧
    call.ns = lit "dev-payments" ∧ call.ns ≠ kubeSystem := by
  have hrun : (((runMoves (ScalesElsewhere demoCluster)
      (Pool.empty (Y := gatewaySystem demoConfig (shippedWorld fun _ => true)) (GwState.initial 0))
      [.arrive 0 (.mcp deployBot devBody), .answer 0 (.package []),
        .answer 0 (.outcome (.success .null))]).bind ranLast).bind fun ran =>
        k8sCall demoCluster ran.1 ran.2).map (fun call => (call.verb.mutates, call.ns)) =
      some (true, lit "dev-payments") := by decide +kernel
  obtain ⟨call, hcall, hfields⟩ := Option.map_eq_some_iff.mp hrun
  obtain ⟨⟨name, arguments⟩, hlast, hcall⟩ := Option.bind_eq_some_iff.mp hcall
  obtain ⟨p, hp, hran⟩ := Option.bind_eq_some_iff.mp hlast
  obtain ⟨e, h₂, hsplit, hop⟩ := ranLast_some hran
  obtain ⟨hmutates, hns⟩ := Prod.mk.inj hfields
  have he : e ∈ p.hist := by
    rw [hsplit]
    exact List.mem_cons_self
  exact ⟨call, hmutates, hns, kube_system_unmutated demoCluster (fun _ => true) p
    (reachable_of_runMoves (.start _ ⟨0, rfl⟩) hp) e he name arguments hop call hcall hmutates⟩

def scaleBody : Str :=
  callBody "scale_deployment" ("\x7b\"namespace\": \"kube-system\", \"deployment\": \"coredns\", " ++
    "\"replicas\": 0, \"reason\": \"memory leak since noon\"\x7d")

/-- The deploy bot scales the DNS of the cluster to nothing, without an approval. -/
theorem kube_system_mutated : ∃ (p : DemoPool) (e : Event (gatewaySystem demoConfig openWorld))
    (name : Str) (arguments : List (Str × Json)) (call : K8sCall),
    Reachable (fun _ _ => True) p ∧ e ∈ p.hist ∧ e.entry.op = .runTool name arguments ∧
      k8sCall demoCluster name arguments = some call ∧ call.verb.mutates = true ∧
      call.ns = kubeSystem := by
  have hrun : (((demo [.arrive 0 (.mcp deployBot scaleBody), .answer 0 (.package []),
      .answer 0 (.outcome (.success .null))]).bind ranLast).bind fun ran =>
        k8sCall demoCluster ran.1 ran.2).map (fun call => (call.verb.mutates, call.ns)) =
      some (true, kubeSystem) := by decide +kernel
  obtain ⟨call, hcall, hfields⟩ := Option.map_eq_some_iff.mp hrun
  obtain ⟨⟨name, arguments⟩, hlast, hcall⟩ := Option.bind_eq_some_iff.mp hcall
  obtain ⟨p, hp, hran⟩ := Option.bind_eq_some_iff.mp hlast
  obtain ⟨e, h₂, hsplit, hop⟩ := ranLast_some hran
  obtain ⟨hmutates, hns⟩ := Prod.mk.inj hfields
  refine ⟨p, e, name, arguments, call, reachable_demo hp, ?_, hop, hcall, hmutates, hns⟩
  rw [hsplit]
  exact List.mem_cons_self

end BlastRadius
