import McpControlPlane.Executors
import McpControlPlane.GatewaySpecs

/-! # Who authorised an execution

Every tool that runs was put before the policy with exactly its name and arguments: by the request
that runs it, or by the one that opened the approval. What the rules say of that input therefore
holds of everything that the executors do. -/
namespace Mediation

open PyText Binary64 JsonText JsonDict PyJson UuidTime AuditLog ToolPolicy PolicyDecision
open GatewayOps ApprovalStore SlackSignature Gateway GatewaySpecs Executors Interleaving

variable {G : Config} {W : World}

/-- The history of a run, its last event first. -/
abbrev History (G : Config) (W : World) := List (Event (gatewaySystem G W))

/-! ## What the world tells -/

/-- What an answer tells of the history before it. -/
structure Told (h : History G W) (e : Event (gatewaySystem G W)) : Prop where
  opa : ∀ i reply, e.entry = ⟨.postOpa i, some reply⟩ → OpaAnswers W.data i reply
  stored : ∀ key raw, e.entry = ⟨.redisGet key, some (some raw)⟩ →
    ∃ f ∈ h, ∃ ttl, f.entry.op = .redisSet key raw ttl
  uuid : ∀ u, e.entry = ⟨.uuid4, some u⟩ → ∀ f ∈ h, f.entry ≠ ⟨.uuid4, some u⟩

/-- What the history tells of the state. -/
structure Backed (p : GatewayPool G W) : Prop where
  told : Log Told p.hist
  stored : ∀ key raw, p.shared.store.get key = some raw →
    ∃ f ∈ p.hist, ∃ ttl, f.entry.op = .redisSet key raw ttl
  issued : ∀ f ∈ p.hist, ∀ u, f.entry = ⟨.uuid4, some u⟩ → u ∈ p.shared.issued

theorem backed_start {s : GwState} (hs : ∃ clock, s = .initial clock) :
    Backed (Pool.empty (Y := gatewaySystem G W) s) := by
  obtain ⟨clock, rfl⟩ := hs
  refine ⟨trivial, ?_, fun f hf => absurd hf List.not_mem_nil⟩
  intro key raw hget
  cases hget

/-- An operation that leaves the store and the issued identifiers as they are. -/
theorem Backed.plain {p : GatewayPool G W} (hp : Backed p) {t : ℕ} {r : GwReq}
    {e : Entry gateway} {s : GwState} {q : Prog gateway Response}
    (htold : Told p.hist ⟨t, r, e⟩) (hstore : s.store = p.shared.store)
    (hissued : s.issued = p.shared.issued) (hnew : ∀ u, e ≠ ⟨.uuid4, some u⟩) :
    Backed (p.after t r e s q) := by
  refine ⟨⟨htold, hp.told⟩, ?_, ?_⟩
  · intro key raw hget
    simp only [Pool.after, hstore] at hget
    obtain ⟨f, hf, hset⟩ := hp.stored key raw hget
    exact ⟨f, List.mem_cons_of_mem _ hf, hset⟩
  · intro f hf u hu
    simp only [Pool.after, hissued]
    rcases List.mem_cons.mp hf with rfl | hf
    · exact absurd hu (hnew u)
    · exact hp.issued f hf u hu

/-- An operation that sets a key, whether it was answered or not. -/
theorem Backed.set {p : GatewayPool G W} (hp : Backed p) {t : ℕ} {r : GwReq} {key value : Str}
    {ttl : Ttl} {x : Option Unit} {q : Prog gateway Response} :
    Backed (p.after t r ⟨.redisSet key value ttl, x⟩
      { p.shared with store := p.shared.store.set key value ttl } q) := by
  refine ⟨⟨⟨nofun, nofun, nofun⟩, hp.told⟩, ?_, ?_⟩
  · intro key' raw hget
    by_cases hk : key' = key
    · subst hk
      simp only [Pool.after, get_set_self, Option.some.injEq] at hget
      subst hget
      exact ⟨_, List.mem_cons_self, ttl, rfl⟩
    · simp only [Pool.after, get_set_ne _ _ _ hk] at hget
      obtain ⟨f, hf, hset⟩ := hp.stored key' raw hget
      exact ⟨f, List.mem_cons_of_mem _ hf, hset⟩
  · intro f hf u hu
    rcases List.mem_cons.mp hf with rfl | hf
    · cases hu
    · exact hp.issued f hf u hu

theorem Backed.answer {p : GatewayPool G W} (hp : Backed p) {t : ℕ} {r : GwReq} {o : GwOp}
    {x : gateway.Res o} {s : GwState} {q : Prog gateway Response}
    (h : Answered W p.shared t s o x) : Backed (p.after t r ⟨o, some x⟩ s q) := by
  cases o with
  | redisGet key =>
    obtain ⟨hx, rfl⟩ := h
    refine hp.plain ⟨nofun, ?_, nofun⟩ rfl rfl nofun
    intro key' raw heq
    simp only [Entry.mk.injEq, GwOp.redisGet.injEq] at heq
    obtain ⟨rfl, hres⟩ := heq
    obtain rfl := Option.some.inj (eq_of_heq hres)
    exact hp.stored key raw hx.symm
  | redisSet key value ttl =>
    have hs : s = { p.shared with store := p.shared.store.set key value ttl } := h
    rw [hs]
    exact hp.set
  | uuid4 =>
    obtain ⟨hnew, rfl⟩ := h
    refine ⟨⟨⟨?_, ?_, ?_⟩, hp.told⟩, ?_, ?_⟩
    · intro i reply heq
      cases congrArg Entry.op heq
    · intro key raw heq
      cases congrArg Entry.op heq
    · intro u hu f hf heq
      simp only [Entry.mk.injEq, heq_eq_eq, true_and, Option.some.injEq] at hu
      subst hu
      exact hnew (hp.issued f hf _ heq)
    · intro key raw hget
      obtain ⟨f, hf, hset⟩ := hp.stored key raw hget
      exact ⟨f, List.mem_cons_of_mem _ hf, hset⟩
    · intro f hf u hu
      rcases List.mem_cons.mp hf with rfl | hf
      · simp only [Entry.mk.injEq, heq_eq_eq, true_and, Option.some.injEq] at hu
        subst hu
        exact List.mem_cons_self
      · exact List.mem_cons_of_mem _ (hp.issued f hf u hu)
  | postOpa i =>
    obtain ⟨hopa, rfl⟩ := h
    refine hp.plain ⟨?_, nofun, nofun⟩ rfl rfl nofun
    intro i' reply heq
    simp only [Entry.mk.injEq, GwOp.postOpa.injEq] at heq
    obtain ⟨rfl, hres⟩ := heq
    obtain rfl := Option.some.inj (eq_of_heq hres)
    exact hopa
  | recordToolCall event =>
    obtain ⟨-, rfl⟩ := h
    exact hp.plain ⟨nofun, nofun, nofun⟩ rfl rfl nofun
  | _ =>
    have hs : s = p.shared := h
    rw [hs]
    exact hp.plain ⟨nofun, nofun, nofun⟩ rfl rfl nofun

theorem Backed.step {p p' : GatewayPool G W} {m : Move (gatewaySystem G W)} (hp : Backed p)
    (hm : Step p m p') : Backed p' := by
  cases hm with
  | arrive t r ht => exact ⟨hp.told, hp.stored, hp.issued⟩
  | drift dt s hs =>
    simp only [Option.ite_none_right_eq_some, Option.some.injEq] at hs
    obtain ⟨-, rfl⟩ := hs
    exact ⟨hp.told, fun key raw hget => hp.stored key raw (get_tick hget), hp.issued⟩
  | answer t c r o k x s ht hs => exact hp.answer (answered_of_gwAnswer hs)
  | fail t c r o k e s ht he hs =>
    rcases failed_of_gwFailure hs with ⟨rfl, -⟩ | ⟨key, value, ttl, rfl, -, rfl⟩ |
        ⟨event, rfl, -, -, rfl⟩
    · refine hp.plain ⟨?_, ?_, ?_⟩ rfl rfl ?_
      · intro i reply heq
        obtain ⟨rfl, hres⟩ := Entry.mk.inj heq
        cases eq_of_heq hres
      · intro key raw heq
        obtain ⟨rfl, hres⟩ := Entry.mk.inj heq
        cases eq_of_heq hres
      · intro u heq
        obtain ⟨rfl, hres⟩ := Entry.mk.inj heq
        cases eq_of_heq hres
      · intro u heq
        obtain ⟨rfl, hres⟩ := Entry.mk.inj heq
        cases eq_of_heq hres
    · exact hp.set
    · exact hp.plain ⟨nofun, nofun, nofun⟩ rfl rfl nofun

theorem reachable_backed {C : GatewayPool G W → Move (gatewaySystem G W) → Prop}
    {p : GatewayPool G W} (hp : Reachable C p) : Backed p := by
  induction hp with
  | start s hs => exact backed_start hs
  | step _ _ hm ih => exact ih.step hm

/-! ## The input of a call -/

/-- The input document is the one of the agent, the name and the arguments. -/
def Built (agent : Agent) (name : Str) (arguments : List (Str × Json)) (i : OpaInput) : Prop :=
  (⟨name, arguments, agent.id, agent.role⟩ : ToolCallContext).toOpaInput = some i

theorem requested_built {agent : Agent} {body : Str} {i : OpaInput} (h : Requested agent body i) :
    Built agent i.toolName i.args i := by
  obtain ⟨kvs, params, ctx, -, -, -, hctx, hi⟩ := h.parsed
  obtain ⟨hagent, hrole, -, -⟩ := interceptToolCall_ok hctx
  obtain ⟨env, -, rfl⟩ := Option.map_eq_some_iff.mp hi
  rw [Built, ← hagent, ← hrole]
  exact hi

theorem built_fields {agent : Agent} {name : Str} {arguments : List (Str × Json)} {i : OpaInput}
    (h : Built agent name arguments i) : i.agentId = agent.id ∧ i.role = agent.role ∧
      i.toolName = name ∧ i.args = arguments ∧ i.ns = get arguments "namespace" ∧
      inferEnvironment arguments = some i.environment := by
  obtain ⟨env, henv, rfl⟩ := Option.map_eq_some_iff.mp h
  exact ⟨rfl, rfl, rfl, rfl, rfl, henv⟩

theorem distinct_dictGet {kvs : List (Str × Json)} {k : Str} {v : Json} (h : Distinct (.obj kvs))
    (hk : dictGet k kvs = some v) : Distinct v :=
  (distinctMembers_iff kvs).mp h.2 _ (dictGet_mem hk)

theorem requested_distinct {agent : Agent} {body : Str} {i : OpaInput}
    (h : Requested agent body i) : Distinct (.obj i.args : Json) := by
  obtain ⟨kvs, params, ctx, hl, -, hparams, hctx, hi⟩ := h.parsed
  obtain ⟨env, -, rfl⟩ := Option.map_eq_some_iff.mp hi
  have hget : ∀ {d : List (Str × Json)} {k : String} {d' : List (Str × Json)},
      get d k = .obj d' → dictGet (lit k) d = some (.obj d') := by
    intro d k d' hd
    cases hg : dictGet (lit k) d with
    | none => simp [ToolPolicy.get, hg] at hd
    | some v =>
      simp only [ToolPolicy.get, hg, Option.getD_some] at hd
      rw [hd]
  have hdistinct := distinct_dictGet (loads_distinct hl) (hget hparams)
  obtain ⟨-, -, -, hargs | ⟨-, hargs⟩⟩ := interceptToolCall_ok hctx
  · cases hg : dictGet (lit "arguments") params with
    | none =>
      rw [hg] at hargs
      have hempty : [] = ctx.arguments := JsonTree.obj.inj hargs
      simp only [← hempty, Distinct, DistinctMembers, keys, List.map_nil, List.nodup_nil, and_self]
    | some v =>
      rw [hg] at hargs
      obtain rfl : v = .obj ctx.arguments := hargs
      exact distinct_dictGet hdistinct hg
  · simp only [hargs, Distinct, DistinctMembers, keys, List.map_nil, List.nodup_nil, and_self]

/-- A call that could be put before the policy is stored as it is. -/
theorem stored_opened {agent : Agent} {body : Str} (J : Judged agent body) (now : Magnitude)
    (u : Uuid) : stored (J.opened now u) =
      { J.opened now u with reason := mergeSurrogates J.decision.reason } := by
  have henc := J.requested.encodes
  simp only [opaRequest, OpaInput.document, encodable, encodableMembers, Bool.and_eq_true,
    Bool.and_true] at henc
  obtain ⟨-, ⟨-, ⟨-, hagent⟩, -, hrole⟩, ⟨-, ⟨-, hname⟩, -, hargs⟩, -⟩ := henc
  have hstatus : mergeSurrogates pendingStatus = pendingStatus := by decide +kernel
  have hmap := map_of_scalarStrs (v := .obj J.input.args) (encodableMembers_scalarStrs _ hargs)
  have hdict := dictify_of_distinct (.obj J.input.args) (requested_distinct J.requested)
  simp only [JsonTree.map, JsonTree.obj.injEq] at hmap
  simp only [dictify, JsonTree.obj.injEq] at hdict
  simp only [stored, Judged.opened, openedApproval, mergeSurrogates_of_scalar hagent,
    mergeSurrogates_of_scalar hrole, mergeSurrogates_of_scalar hname, hstatus, hmap, hdict,
    mergeSurrogates_of_scalar (uuid_text_scalar u), Option.map_none]

/-- The input that a body puts before the policy. -/
def requestOf (agent : Agent) (body : Str) : Option OpaInput :=
  match loads body with
  | .ok (.obj kvs) =>
    if isText (ToolPolicy.get kvs "method") (lit "tools/call") then
      match ToolPolicy.get kvs "params" with
      | .obj params =>
        match interceptToolCall params agent with
        | .ok ctx => ctx.toOpaInput.filter fun i => tools.contains i.toolName &&
            agent.allowedTools.contains i.toolName && encodable (opaRequest i)
        | .error _ => none
      | _ => none
    else none
  | _ => none

theorem requested_of_requestOf {agent : Agent} {body : Str} {i : OpaInput}
    (h : requestOf agent body = some i) : Requested agent body i := by
  unfold requestOf at h
  split at h
  · rename_i kvs hl
    split_ifs at h with hmethod
    split at h
    · rename_i params hparams
      split at h
      · rename_i ctx hctx
        obtain ⟨hi, hrest⟩ := Option.filter_eq_some_iff.mp h
        simp only [Bool.and_eq_true, List.contains_iff_mem] at hrest
        exact ⟨⟨kvs, params, ctx, hl, hmethod, hparams, hctx, hi⟩, hrest.1.1, hrest.1.2, hrest.2⟩
      · cases h
    · cases h
  · cases h

theorem requestOf_of_requested {agent : Agent} {body : Str} {i : OpaInput}
    (h : Requested agent body i) : requestOf agent body = some i := by
  obtain ⟨kvs, params, ctx, hl, hmethod, hparams, hctx, hi⟩ := h.parsed
  simp only [requestOf, hl, hmethod, if_true, hparams, hctx, hi, Option.filter_eq_some_iff,
    Bool.and_eq_true, List.contains_iff_mem, true_and]
  exact ⟨⟨h.registered, h.listed⟩, h.encodes⟩

/-! ## What the policy said -/

/-- What the handler takes the reply of OPA for is what the rules say. -/
theorem reads_rules {data : PolicyData} {i : OpaInput} {name : Str} {reply : OpaReply}
    {d : Decision} (ha : OpaAnswers data i reply) (hr : readReply name reply = some d) :
    d = unavailable ∨ d.allow = allow data i ∧ d.requireApproval = requireApproval data i := by
  rcases ha with ⟨others, rfl⟩ | rfl | ⟨status, hs, rfl⟩
  · have hd : decisionOf name (packageDocument data i others) = some d := hr
    rw [decisionOf_packageDocument] at hd
    obtain rfl := Option.some.inj hd
    exact Or.inr ⟨rfl, rfl⟩
  · exact Or.inl (Option.some.inj hr).symm
  · simp only [readReply, hs, Bool.false_eq_true, if_false] at hr
    exact Or.inl (Option.some.inj hr).symm

/-- The request has put `i` before the policy and was answered. -/
def Asked (h : History G W) (t : ℕ) (i : OpaInput) : Prop :=
  ∃ reply, (⟨.postOpa i, some reply⟩ : Entry gateway) ∈ own t h

theorem judged_rules {h : History G W} {t : ℕ} {agent : Agent} {body : Str}
    {J : Judged agent body} (hl : Log Told h)
    (hmem : (⟨.postOpa J.input, some J.reply⟩ : Entry gateway) ∈ own t h) :
    J.decision = unavailable ∨ J.decision.allow = allow W.data J.input ∧
      J.decision.requireApproval = requireApproval W.data J.input := by
  obtain ⟨v, hv, -, hentry⟩ := mem_own.mp hmem
  obtain ⟨h₁, h₂, -, htold⟩ := hl.mem hv
  exact reads_rules (htold.opa _ _ hentry) J.reads

/-! ## Where a pending record comes from -/

/-- The record under `key` was opened by a `tools/call` that the rules allow with an approval. -/
def OpenedBy (h : History G W) (key raw : Str) (a : Approval) (i : OpaInput) : Prop :=
  ∃ f ∈ h, ∃ agent body, f.req = .mcp agent body ∧
    f.entry.op = .redisSet key raw (.ex approvalTtlSeconds) ∧ Requested agent body i ∧
    Asked h f.tid i ∧ allow W.data i = true ∧ requireApproval W.data i = true ∧
    key = approvalKey a.id ∧ a.agentId = i.agentId ∧ a.role = i.role ∧
    a.toolName = i.toolName ∧ a.arguments = i.args

theorem decidedStatus_ne_pending (decision : Str) :
    mergeSurrogates (decidedStatus decision) ≠ pendingStatus := by
  rw [decidedStatus]
  split_ifs <;> decide +kernel

theorem asked_of_named {agent : Agent} {body : Str} {J : Judged agent body} {now : Magnitude}
    {u : Uuid} :
    (⟨.postOpa J.input, some J.reply⟩ : Entry gateway) ∈ namedTrace now u J.asked := by
  simp [namedTrace, Judged.asked]

/-- A record that reads as pending was opened by a call that needed the approval. -/
theorem pending_opened {h : History G W} {f : Event (gatewaySystem G W)} {key raw : Str} {ttl : Ttl}
    {a : Approval} (hok : Log (fun h e => GwOk G e.req (own e.tid h) e.entry.op) h)
    (htold : Log Told h) (hf : f ∈ h) (hset : f.entry.op = .redisSet key raw ttl)
    (hread : readApproval raw = .ok a) (hpending : a.status = pendingStatus) :
    ∃ i, OpenedBy h key raw a i := by
  obtain ⟨h₁, h₂, rfl, hop⟩ := hok.mem hf
  rw [hset] at hop
  cases hreq : f.req with
  | mcp agent body =>
    rw [hreq] at hop
    obtain ⟨J, now, u, htr, hheld, rfl, rfl, rfl⟩ := hop
    have hasked : (⟨.postOpa J.input, some J.reply⟩ : Entry gateway) ∈ own f.tid h₂ := by
      rw [htr]
      exact asked_of_named
    rw [readApproval_dumps, stored_opened] at hread
    obtain rfl := Except.ok.inj hread
    have hasked' := own_append_mem (h₁ ++ [f]) hasked
    rw [List.append_assoc, List.singleton_append] at hasked'
    rcases judged_rules htold hasked' with hd | ⟨-, hrules⟩
    · rw [hd] at hheld
      cases hheld
    · have happroval : requireApproval W.data J.input = true := hrules ▸ hheld
      exact ⟨J.input, f, hf, agent, body, hreq, hset, J.requested, ⟨J.reply, hasked'⟩,
        allow_of_requireApproval happroval, happroval, rfl, rfl, rfl, rfl, rfl⟩
  | decide approvalId timestamp signature body =>
    rw [hreq] at hop
    obtain ⟨R, -, hw⟩ := hop
    simp only [Ruling.write, GwOp.redisSet.injEq] at hw
    obtain ⟨-, rfl, -⟩ := hw
    rw [readApproval_dumps] at hread
    obtain rfl := Except.ok.inj hread
    exact absurd hpending (decidedStatus_ne_pending _)
  | status approvalId =>
    rw [hreq] at hop
    obtain ⟨key', hk⟩ := hop
    cases hk

/-! ## Complete mediation -/

/-- What the policy said of `i` lets the request run the tool, after the history `h`. -/
def Authorised (h : History G W) (t : ℕ) (name : Str) (arguments : List (Str × Json))
    (i : OpaInput) : GwReq → Prop
  | .mcp agent body => Requested agent body i ∧ Built agent name arguments i ∧ Asked h t i ∧
      allow W.data i = true ∧ requireApproval W.data i = false
  | .decide approvalId timestamp signature body =>
      ∃ R : Ruling G approvalId timestamp signature body, R.payload.decision = lit "approve" ∧
        R.before <:+ own t h ∧ OpenedBy h (approvalKey approvalId) R.raw R.approval i ∧
        name = i.toolName ∧ arguments = i.args
  | .status _ => False

/-- The input that authorises a call is built from its name and its arguments. -/
theorem Authorised.built {h : History G W} {t : ℕ} {name : Str} {arguments : List (Str × Json)}
    {i : OpaInput} {r : GwReq} (ha : Authorised h t name arguments i r) :
    (∃ agent, i.toolName ∈ agent.allowedTools ∧ Built agent name arguments i) ∧
      allow W.data i = true := by
  cases r with
  | mcp agent body =>
    obtain ⟨hreq, hbuilt, -, hallow, -⟩ := ha
    exact ⟨⟨agent, hreq.listed, hbuilt⟩, hallow⟩
  | decide approvalId timestamp signature body =>
    obtain ⟨R, -, -, ⟨f, -, agent, body', -, -, hreq, -, hallow, -⟩, rfl, rfl⟩ := ha
    exact ⟨⟨agent, hreq.listed, requested_built hreq⟩, hallow⟩
  | status approvalId => cases ha

/-- The record of a ruling was stored before it was read. -/
theorem ruling_opened {approvalId : Str} {timestamp signature : Option Str} {body : Bytes}
    {R : Ruling G approvalId timestamp signature body} {t : ℕ} {h : History G W}
    (hok : Log (fun h e => GwOk G e.req (own e.tid h) e.entry.op) h) (htold : Log Told h)
    (htr : R.before <:+ own t h) :
    ∃ i, OpenedBy h (approvalKey approvalId) R.raw R.approval i := by
  have hmem : (⟨.redisGet (approvalKey approvalId), some (some R.raw)⟩ : Entry gateway) ∈ own t h :=
    htr.subset (by simp [Ruling.before, checkedTrace, readTrace])
  obtain ⟨v, hv, -, hentry⟩ := mem_own.mp hmem
  obtain ⟨h₁, h₂, rfl, htells⟩ := htold.mem hv
  obtain ⟨f, hf, ttl, hset⟩ := htells.stored _ _ hentry
  exact pending_opened hok htold (List.mem_append_right _ (List.mem_cons_of_mem _ hf)) hset R.read
    R.pending

/-- Whatever runs has been authorised: directly by the rules, or by the rules and a decision. -/
theorem mediated {p : GatewayPool G W} (hp : Lawful p) (hb : Backed p) {h₁ h₂ : History G W}
    {e : Event (gatewaySystem G W)} (hsplit : p.hist = h₁ ++ e :: h₂) {name : Str}
    {arguments : List (Str × Json)} (hrun : e.entry.op = .runTool name arguments) :
    ∃ i, Authorised h₂ e.tid name arguments i e.req := by
  have hlog := hp.log
  have htold := hb.told
  rw [hsplit] at hlog htold
  have hop := hlog.at
  have hok := (Log.of_append hlog).2
  have htold' := (Log.of_append htold).2
  rw [hrun] at hop
  cases hreq : e.req with
  | mcp agent body =>
    rw [hreq] at hop
    obtain ⟨J, htr, hheld, hallow, rfl, rfl⟩ := hop
    have hasked : (⟨.postOpa J.input, some J.reply⟩ : Entry gateway) ∈ own e.tid h₂ := by
      rw [htr]
      exact List.mem_cons_self
    rcases judged_rules htold' hasked with hd | ⟨hallows, hrules⟩
    · rw [hd] at hallow
      cases hallow
    · exact ⟨J.input, J.requested, requested_built J.requested, ⟨J.reply, hasked⟩,
        hallows ▸ hallow, hrules ▸ hheld⟩
  | decide approvalId timestamp signature body =>
    rw [hreq] at hop
    obtain ⟨R, htr, happrove, rfl, rfl⟩ := hop
    have hsuffix : R.before <:+ own e.tid h₂ := by
      rw [htr]
      exact List.suffix_cons _ _
    obtain ⟨i, hopened⟩ := ruling_opened hok htold' hsuffix
    have hsame := hopened
    obtain ⟨f, -, agent, body', -, -, -, -, -, -, -, -, -, hname, hargs⟩ := hsame
    exact ⟨i, R, happrove, hsuffix, hopened, hname, hargs⟩
  | status approvalId =>
    rw [hreq] at hop
    obtain ⟨key, hk⟩ := hop
    cases hk

/-! ## Runs to look at -/

/-- The tool that ran last. -/
def ranLast (p : GatewayPool G W) : Option (Str × List (Str × Json)) :=
  match p.hist with
  | ⟨_, _, ⟨.runTool name arguments, _⟩⟩ :: _ => some (name, arguments)
  | _ => none

theorem ranLast_some {p : GatewayPool G W} {name : Str} {arguments : List (Str × Json)}
    (h : ranLast p = some (name, arguments)) :
    ∃ e h₂, p.hist = [] ++ e :: h₂ ∧ e.entry.op = .runTool name arguments := by
  unfold ranLast at h
  split at h
  · rename_i t r name' arguments' x h₂ hh
    simp only [Option.some.injEq, Prod.mk.injEq] at h
    obtain ⟨rfl, rfl⟩ := h
    exact ⟨_, h₂, hh, rfl⟩
  · cases h

def callBody (name arguments : String) : Str :=
  lit "\x7b\"jsonrpc\": \"2.0\", \"id\": 1, \"method\": \"tools/call\", \"params\": \x7b\"name\": \"" ++
    lit name ++ lit "\", \"arguments\": " ++ lit arguments ++ lit "\x7d\x7d"

def asciiBytes (s : Str) : Bytes := s.map fun c => UInt8.ofNat c.val

def approveBody : Bytes :=
  asciiBytes (lit "\x7b\"decision\": \"approve\", \"decided_by\": \"alice\"\x7d")

def denyBody : Bytes :=
  asciiBytes (lit "\x7b\"decision\": \"deny\", \"decided_by\": \"bob\"\x7d")

/-- A gateway that knows two bodies, with one tag for all of them. -/
def demoConfig : Config where
  slack := ⟨some fun _ => List.replicate 64 (ch '0')⟩
  validate body := if body = approveBody then .ok ⟨lit "approve", lit "alice", none⟩
    else if body = denyBody then .ok ⟨lit "deny", lit "bob", none⟩
    else .error (lit "Invalid JSON")
  str _ := lit "None"

def demoSignature : Str := lit "v0=" ++ List.replicate 64 (ch '0')

def demoDecide (approvalId : Str) (body : Bytes) : GwReq :=
  .decide approvalId (some (lit "0")) (some demoSignature) body

def sre : Agent := ⟨lit "agent01", lit "sre1", tools⟩

abbrev DemoMove := Move (gatewaySystem demoConfig openWorld)

abbrev DemoPool := GatewayPool demoConfig openWorld

def restartBody : Str :=
  callBody "restart_deployment" ("\x7b\"namespace\": \"prod-payments\", \"deployment\": \"api\", " ++
    "\"reason\": \"memory leak since noon\"\x7d")

/-- A restart in prod is held under the identifier `u`: until the record is stored. -/
def demoOpen (t : ℕ) (u : Uuid) : List DemoMove :=
  [.arrive t (.mcp sre restartBody), .answer t (.package []), .answer t (.now zeroMagnitude),
    .answer t (.uuid u), .answer t .plain]

/-- The rest of the opening request: the notification and the audit row. -/
def demoHeld (t : ℕ) : List DemoMove :=
  [.answer t .plain, .answer t (.duration 5), .answer t (.now zeroMagnitude), .answer t .plain]

/-- A callback reads the record. -/
def demoRead (t : ℕ) (approvalId : Str) (body : Bytes) : List DemoMove :=
  [.arrive t (demoDecide approvalId body), .answer t (.now zeroMagnitude), .answer t .plain,
    .answer t (.now zeroMagnitude), .answer t (.now zeroMagnitude)]

/-- It writes the decision and runs the tool. -/
def demoRun (t : ℕ) : List DemoMove := [.answer t .plain, .answer t (.outcome (.success .null))]

def demo (ms : List DemoMove) : Option DemoPool :=
  runMoves (fun _ _ => True) (Pool.empty (GwState.initial 0)) ms

theorem reachable_demo {ms : List DemoMove} {p : DemoPool} (h : demo ms = some p) :
    Reachable (fun _ _ => True) p := reachable_of_runMoves (.start _ ⟨0, rfl⟩) h

/-! ## Complete mediation of every run -/

/-- No executor runs but for a call that the rules allow without an approval, or for the pending
record of a call that they allow with one, approved in time under a valid signature. -/
theorem complete_mediation (p : GatewayPool G W) (hp : Reachable (fun _ _ => True) p)
    (h₁ h₂ : History G W) (e : Event (gatewaySystem G W)) (hsplit : p.hist = h₁ ++ e :: h₂)
    (name : Str) (arguments : List (Str × Json)) (hrun : e.entry.op = .runTool name arguments) :
    ∃ i, Authorised h₂ e.tid name arguments i e.req ∧ allow W.data i = true := by
  obtain ⟨i, hi⟩ := mediated (reachable_lawful hp) (reachable_backed hp) hsplit hrun
  exact ⟨i, hi, hi.built.2⟩

/-- A restart in prod, approved. -/
theorem approved_restart_mediated : ∃ (p : DemoPool) (e : Event (gatewaySystem demoConfig openWorld))
    (h₂ : History demoConfig openWorld) (name : Str) (arguments : List (Str × Json)),
    p.hist = [] ++ e :: h₂ ∧ e.entry.op = .runTool name arguments ∧
      ∃ i, Authorised h₂ e.tid name arguments i e.req ∧ allow openWorld.data i = true := by
  have hrun : ((demo (demoOpen 0 1 ++ demoHeld 0 ++ demoRead 1 (Uuid.text 1) approveBody ++
      demoRun 1)).bind ranLast).isSome = true := by decide +kernel
  obtain ⟨⟨name, arguments⟩, hlast⟩ := Option.isSome_iff_exists.mp hrun
  obtain ⟨p, hp, hran⟩ := Option.bind_eq_some_iff.mp hlast
  obtain ⟨e, h₂, hsplit, hop⟩ := ranLast_some hran
  exact ⟨p, e, h₂, name, arguments, hsplit, hop, complete_mediation p
    (reachable_demo hp) [] h₂ e hsplit name arguments hop⟩

/-! ## The namespace that the policy checked -/

/-- A request to Kubernetes goes to the namespace of the authorised input; one of the role's
namespaces, if the role is not free to choose. -/
def ChecksNamespace (data : PolicyData) (i : OpaInput) (arguments : List (Str × Json))
    (call : K8sCall) : Prop :=
  i.ns = .str call.ns ∧ (call.verb = .serverSideApply → AppliesManifest arguments call) ∧
    ∀ cfg, dictGet i.role data.roles = some cfg → lit "*" ∉ cfg.allowedNamespaces →
      call.ns ∈ cfg.allowedNamespaces

theorem checks_namespace {data : PolicyData} {C : Cluster} {agent : Agent} {name : Str}
    {arguments : List (Str × Json)} {i : OpaInput} {call : K8sCall}
    (hbuilt : Built agent name arguments i) (hallow : allow data i = true)
    (hcall : k8sCall C name arguments = some call) : ChecksNamespace data i arguments call := by
  have hns : i.ns = .str call.ns :=
    (built_fields hbuilt).2.2.2.2.1.trans (k8sCall_namespace hcall).1
  refine ⟨hns, applies_manifest hcall, fun cfg hrole hstar => ?_⟩
  obtain ⟨⟨-, hlisted, -⟩, -⟩ := (allow_str_iff hrole hns).mp hallow
  exact hlisted.resolve_left hstar

/-- Every request of an executor to Kubernetes names the namespace of the input that authorised
the call, whether it was executed directly or through an approval. -/
theorem checked_namespace_is_acted_on (C : Cluster) (p : GatewayPool G W)
    (hp : Reachable (fun _ _ => True) p) (h₁ h₂ : History G W) (e : Event (gatewaySystem G W))
    (hsplit : p.hist = h₁ ++ e :: h₂) (name : Str) (arguments : List (Str × Json))
    (hrun : e.entry.op = .runTool name arguments) (call : K8sCall)
    (hcall : k8sCall C name arguments = some call) :
    ∃ i, Authorised h₂ e.tid name arguments i e.req ∧ ChecksNamespace W.data i arguments call := by
  obtain ⟨i, hi⟩ := mediated (reachable_lawful hp) (reachable_backed hp) hsplit hrun
  obtain ⟨⟨agent, -, hbuilt⟩, hallow⟩ := hi.built
  exact ⟨i, hi, checks_namespace hbuilt hallow hcall⟩

/-- A cluster that knows every type of resource. -/
def demoCluster : Cluster := ⟨fun _ _ => some true, lit "2026-11-19T00:00:00+00:00"⟩

/-- The restart in prod is a patch in the namespace that was checked. -/
theorem restart_acts_where_checked : ∃ (h₂ : History demoConfig openWorld) (t : ℕ) (r : GwReq)
    (name : Str) (arguments : List (Str × Json)) (call : K8sCall),
    k8sCall demoCluster name arguments = some call ∧
      ∃ i, Authorised h₂ t name arguments i r ∧
        ChecksNamespace openWorld.data i arguments call := by
  have hrun : (((demo (demoOpen 0 1 ++ demoHeld 0 ++ demoRead 1 (Uuid.text 1) approveBody ++
      demoRun 1)).bind ranLast).bind fun ran => k8sCall demoCluster ran.1 ran.2).isSome = true := by
    decide +kernel
  obtain ⟨call, hcall⟩ := Option.isSome_iff_exists.mp hrun
  obtain ⟨⟨name, arguments⟩, hlast, hcall⟩ := Option.bind_eq_some_iff.mp hcall
  obtain ⟨p, hp, hran⟩ := Option.bind_eq_some_iff.mp hlast
  obtain ⟨e, h₂, hsplit, hop⟩ := ranLast_some hran
  exact ⟨h₂, e.tid, e.req, name, arguments, call, hcall, checked_namespace_is_acted_on demoCluster p
    (reachable_demo hp) [] h₂ e hsplit name arguments hop call hcall⟩

end Mediation
