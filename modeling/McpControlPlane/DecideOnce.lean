import McpControlPlane.ApprovalRaces

/-! # One decision for each approval

Two decide requests may both find an approval pending and both write. Where every decision is
written before another one reads, one of them is the only one, and the tool runs at most once. -/
namespace DecideOnce

open PyText Binary64 JsonText JsonDict PyJson UuidTime AuditLog ToolPolicy PolicyDecision
open GatewayOps ApprovalStore SlackSignature Gateway GatewaySpecs Mediation ApprovalRaces
open Interleaving

variable {G : Config} {W : World}

/-! ## Decisions in the history -/

/-- The key of a decision that was written. -/
def decidedKey (e : Event (gatewaySystem G W)) : Option Str :=
  match e.entry with
  | ⟨.redisSet key _ .keepttl, some ()⟩ => some key
  | _ => none

theorem decidedKey_some {e : Event (gatewaySystem G W)} {key : Str} (h : decidedKey e = some key) :
    ∃ value, e.entry = ⟨.redisSet key value .keepttl, some ()⟩ := by
  unfold decidedKey at h
  split at h
  · rename_i key' value heq
    obtain rfl := Option.some.inj h
    exact ⟨value, heq⟩
  · cases h

theorem decidedKey_of_entry {e : Event (gatewaySystem G W)} {key value : Str}
    (h : e.entry = ⟨.redisSet key value .keepttl, some ()⟩) : decidedKey e = some key := by
  rw [decidedKey, h]

def isRead (key : Str) (e : Event (gatewaySystem G W)) : Bool :=
  match e.entry.op with
  | .redisGet key' => key' = key
  | _ => false

/-- No decision was written under the key since the request `t` read it. -/
def freshRead (t : ℕ) (key : Str) : History G W → Bool
  | [] => true
  | e :: h =>
    if decidedKey e = some key then false
    else if e.tid = t ∧ isRead key e = true then true
    else freshRead t key h

theorem freshRead_split {t : ℕ} {key : Str} {h : History G W} (hfresh : freshRead t key h = true)
    {g : Event (gatewaySystem G W)} (hg : g ∈ h) (htid : g.tid = t) (hread : isRead key g = true) :
    ∃ h₁ g' h₂, h = h₁ ++ g' :: h₂ ∧ g'.tid = t ∧ isRead key g' = true ∧
      ∀ f ∈ h₁, decidedKey f ≠ some key := by
  induction h with
  | nil => cases hg
  | cons v h ih =>
    rw [freshRead] at hfresh
    split_ifs at hfresh with hdecided hown
    · exact ⟨[], v, h, rfl, hown.1, hown.2, fun f hf => absurd hf List.not_mem_nil⟩
    · rcases List.mem_cons.mp hg with rfl | hg
      · exact absurd ⟨htid, hread⟩ hown
      · obtain ⟨h₁, g', h₂, rfl, hrest⟩ := ih hfresh hg
        refine ⟨v :: h₁, g', h₂, rfl, hrest.1, hrest.2.1, ?_⟩
        intro f hf
        rcases List.mem_cons.mp hf with rfl | hf
        · exact hdecided
        · exact hrest.2.2 f hf

/-- The request that is about to have its decision written, and the key. -/
def writing (p : GatewayPool G W) : Move (gatewaySystem G W) → Option (ℕ × Str)
  | .answer t _ =>
    match p.pending t with
    | some (.redisSet key _ .keepttl) => some (t, key)
    | _ => none
  | _ => none

/-- A decision is written only if none was since its request read the record. -/
def Unraced (p : GatewayPool G W) (m : Move (gatewaySystem G W)) : Prop :=
  ∀ x ∈ writing p m, freshRead x.1 x.2 p.hist = true

instance (p : GatewayPool G W) (m : Move (gatewaySystem G W)) : Decidable (Unraced p m) :=
  inferInstanceAs (Decidable (∀ x ∈ writing p m, freshRead x.1 x.2 p.hist = true))

/-! ## A record is opened once, before anything else is stored under its key -/

theorem approvalKey_injective {u v : Uuid} (h : approvalKey u.text = approvalKey v.text) : u = v :=
  uuid_text_injective (List.append_cancel_left h)

/-- The key that an opening request sets is named after its own uuid. -/
theorem named_set {h : History G W} {f : Event (gatewaySystem G W)} {key raw : Str} {ttl : Ttl}
    {agent : Agent} {body : Str}
    (hok : Log (fun h e => GwOk G e.req (own e.tid h) e.entry.op) h) (hf : f ∈ h)
    (hreq : f.req = .mcp agent body) (hset : f.entry.op = .redisSet key raw ttl) :
    ∃ u : Uuid, key = approvalKey u.text ∧ ∃ g ∈ h, g.tid = f.tid ∧ g.entry = ⟨.uuid4, some u⟩ := by
  obtain ⟨h₁, h₂, rfl, hop⟩ := hok.mem hf
  rw [hset, hreq] at hop
  obtain ⟨J, now, u, htr, -, rfl, -, -⟩ := hop
  have hmem : (⟨.uuid4, some u⟩ : Entry gateway) ∈ own f.tid h₂ := by
    rw [htr]
    exact List.mem_cons_self
  obtain ⟨g, hg, htid, hentry⟩ := mem_own.mp hmem
  exact ⟨u, rfl, g, List.mem_append_right _ (List.mem_cons_of_mem _ hg), htid, hentry⟩

/-- Whatever is stored under a key, an opening request has set it. -/
theorem set_opened {h : History G W} {f : Event (gatewaySystem G W)} {key raw : Str} {ttl : Ttl}
    (hok : Log (fun h e => GwOk G e.req (own e.tid h) e.entry.op) h) (htold : Log Told h)
    (hf : f ∈ h) (hset : f.entry.op = .redisSet key raw ttl) :
    ∃ f' ∈ h, ∃ agent body raw' ttl', f'.req = .mcp agent body ∧
      f'.entry.op = .redisSet key raw' ttl' := by
  cases hreq : f.req with
  | mcp agent body => exact ⟨f, hf, agent, body, raw, ttl, hreq, hset⟩
  | decide approvalId timestamp signature body =>
    obtain ⟨h₁, h₂, rfl, hop⟩ := hok.mem hf
    rw [hset, hreq] at hop
    obtain ⟨R, htr, hw⟩ := hop
    simp only [Ruling.write, GwOp.redisSet.injEq] at hw
    obtain ⟨rfl, -, -⟩ := hw
    obtain ⟨i, f', hf', agent, body', hreq', hop', -⟩ := ruling_opened (R := R) (t := f.tid)
      (Log.of_append hok).2 (Log.of_append htold).2 (by rw [htr])
    exact ⟨f', List.mem_append_right _ (List.mem_cons_of_mem _ hf'), agent, body', _, _, hreq', hop'⟩
  | status approvalId =>
    obtain ⟨h₁, h₂, rfl, hop⟩ := hok.mem hf
    rw [hset, hreq] at hop
    obtain ⟨key', hk⟩ := hop
    cases hk

theorem uuid_unique {h : History G W} (htold : Log Told h) {u : Uuid}
    {g g' : Event (gatewaySystem G W)} (hg : g ∈ h) (hg' : g' ∈ h)
    (he : g.entry = ⟨.uuid4, some u⟩) (he' : g'.entry = ⟨.uuid4, some u⟩) : g = g' :=
  log_unique (Q := fun e : Event (gatewaySystem G W) => e.entry = ⟨.uuid4, some u⟩)
    (log_imp (fun _ _ ht hq f hf => ht.uuid u hq f hf) htold) hg hg' he he'

/-- An opening request is the first to set its key. -/
theorem opening_first {p : GatewayPool G W} (hp : Lawful p) (hb : Backed p) {t : ℕ} {agent : Agent}
    {body : Str} {key value : Str} {ttl : Ttl} {k : Unit → Prog gateway Response}
    (ht : p.thread t = some (.mcp agent body, .call (.redisSet key value ttl) k))
    {f : Event (gatewaySystem G W)} (hf : f ∈ p.hist) {raw : Str} {ttl' : Ttl} :
    f.entry.op ≠ .redisSet key raw ttl' := by
  intro hset
  obtain ⟨J, now, u, htr, -, rfl, -, -⟩ := (hp.sat t _ _ ht).1
  obtain ⟨f', hf', agent', body', raw', ttl'', hreq', hop'⟩ := set_opened hp.log hb.told hf hset
  obtain ⟨u', hkey, g, hg, htid, hentry⟩ := named_set hp.log hf' hreq' hop'
  obtain rfl := approvalKey_injective hkey
  have hmem : (⟨.uuid4, some u⟩ : Entry gateway) ∈ own t p.hist := by
    rw [htr]
    exact List.mem_cons_self
  obtain ⟨g', hg', htid', hentry'⟩ := mem_own.mp hmem
  obtain rfl := uuid_unique hb.told hg hg' hentry hentry'
  have hown : f'.entry ∈ own t p.hist := mem_own.mpr ⟨f', hf', htid.symm.trans htid', rfl⟩
  rw [htr] at hown
  simp only [namedTrace, Judged.asked, List.mem_cons, List.not_mem_nil, or_false] at hown
  rcases hown with h | h | h <;> rw [h] at hop' <;> cases hop'

/-! ## A decided approval is no longer pending -/

/-- A record under a key that was decided does not read as pending. -/
def Settled (p : GatewayPool G W) : Prop :=
  ∀ e ∈ p.hist, ∀ key, decidedKey e = some key → ∀ raw a, p.shared.store.get key = some raw →
    readApproval raw = .ok a → a.status ≠ pendingStatus

/-- A record that read as pending was not decided. -/
def PendingRead (h : History G W) (e : Event (gatewaySystem G W)) : Prop :=
  ∀ key raw a, e.entry = ⟨.redisGet key, some (some raw)⟩ → readApproval raw = .ok a →
    a.status = pendingStatus → ∀ f ∈ h, decidedKey f ≠ some key

theorem settled_step {p p' : GatewayPool G W} {m : Move (gatewaySystem G W)} (hp : Lawful p)
    (hb : Backed p) (h : Settled p) (hm : Step p m p') : Settled p' := by
  intro e he key hkey raw a hget hread
  cases moved_of_step hm with
  | outside hhist hrows hstore => exact h e (hhist ▸ he) key hkey raw a (hstore _ _ hget) hread
  | did t r e' k ht hhist hmove hgets hstore hrows =>
    rw [hhist] at he
    rcases hstore with ⟨hstore, hno⟩ | ⟨key', value, ttl, hop, hstore⟩
    · rw [hstore] at hget
      rcases List.mem_cons.mp he with rfl | he
      · obtain ⟨value, hentry⟩ := decidedKey_some hkey
        exact absurd hentry (hno _ _ _)
      · exact h e he key hkey raw a hget hread
    · rw [hstore] at hget
      obtain ⟨o, x⟩ := e'
      obtain rfl : o = .redisSet key' value ttl := hop
      by_cases hsame : key = key'
      · subst hsame
        rw [get_set_self, Option.some.injEq] at hget
        subst hget
        have hok := (hp.sat t r _ ht).1
        cases r with
        | mcp agent body =>
          rcases List.mem_cons.mp he with rfl | he
          · obtain ⟨value', hentry⟩ := decidedKey_some hkey
            obtain ⟨J, now, u, -, -, -, -, rfl⟩ := hok
            cases congrArg Entry.op hentry
          · obtain ⟨value', hentry⟩ := decidedKey_some hkey
            exact absurd (congrArg Entry.op hentry) (opening_first hp hb ht he)
        | decide approvalId timestamp signature body =>
          obtain ⟨R, -, hw⟩ := hok
          simp only [Ruling.write, GwOp.redisSet.injEq] at hw
          obtain ⟨-, rfl, -⟩ := hw
          rw [readApproval_dumps] at hread
          obtain rfl := Except.ok.inj hread
          exact decidedStatus_ne_pending _
        | status approvalId =>
          obtain ⟨key', hk⟩ := hok
          cases hk
      · rw [get_set_ne _ _ _ hsame] at hget
        rcases List.mem_cons.mp he with rfl | he
        · obtain ⟨value', hentry⟩ := decidedKey_some hkey
          have hop' := congrArg Entry.op hentry
          simp only [GwOp.redisSet.injEq] at hop'
          exact absurd hop'.1.symm hsame
        · exact h e he key hkey raw a hget hread

theorem pendingRead_step {p p' : GatewayPool G W} {m : Move (gatewaySystem G W)} (hs : Settled p)
    (h : Log PendingRead p.hist) (hm : Step p m p') : Log PendingRead p'.hist := by
  cases moved_of_step hm with
  | outside hhist hrows hstore => exact hhist ▸ h
  | did t r e k ht hhist hmove hgets hstore hrows =>
    rw [hhist]
    refine ⟨?_, h⟩
    intro key raw a hentry hread hpending f hf hdecided
    exact hs f hf key hdecided raw a (hgets key _ hentry).symm hread hpending

theorem reachable_settled {C : GatewayPool G W → Move (gatewaySystem G W) → Prop}
    {p : GatewayPool G W} (hp : Reachable C p) : Settled p ∧ Log PendingRead p.hist := by
  induction hp with
  | start s hs => exact ⟨fun e he => absurd he List.not_mem_nil, trivial⟩
  | step hp _ hm ih =>
    exact ⟨settled_step (reachable_lawful hp) (reachable_backed hp) ih.1 hm,
      pendingRead_step ih.1 ih.2 hm⟩

/-! ## One decision -/

/-- No decision before was written under the key. -/
def FirstDecision (h : History G W) (e : Event (gatewaySystem G W)) : Prop :=
  ∀ key, decidedKey e = some key → ∀ f ∈ h, decidedKey f ≠ some key

theorem firstDecision_step {p p' : GatewayPool G W} {m : Move (gatewaySystem G W)} (hp : Lawful p)
    (hreads : Log PendingRead p.hist) (h : Log FirstDecision p.hist) (hc : Unraced p m)
    (hm : Step p m p') : Log FirstDecision p'.hist := by
  cases moved_of_step hm with
  | outside hhist hrows hstore => exact hhist ▸ h
  | did t r e k ht hhist hmove hgets hstore hrows =>
    rw [hhist]
    refine ⟨?_, h⟩
    intro key hkey f hf hdecided
    obtain ⟨value, hentry⟩ := decidedKey_some hkey
    obtain rfl : e = ⟨.redisSet key value .keepttl, some ()⟩ := hentry
    have hok := (hp.sat t r _ ht).1
    cases r with
    | mcp agent body =>
      obtain ⟨J, now, u, -, -, -, -, httl⟩ := hok
      cases httl
    | decide approvalId timestamp signature body =>
      obtain ⟨R, htr, hw⟩ := hok
      simp only [Ruling.write, GwOp.redisSet.injEq] at hw
      obtain ⟨rfl, -, -⟩ := hw
      have hfresh : freshRead t (approvalKey approvalId) p.hist = true := by
        rcases hmove with ⟨c, rfl, -⟩ | ⟨c, -, hnone⟩
        · apply hc (t, approvalKey approvalId)
          rw [writing, pending_of_thread ht]
          rfl
        · cases hnone
      have hmem : (⟨.redisGet (approvalKey approvalId), some (some R.raw)⟩ : Entry gateway) ∈
          own t p.hist := by
        rw [htr]
        simp [Ruling.before, checkedTrace, readTrace]
      obtain ⟨g, hg, htid, hgentry⟩ := mem_own.mp hmem
      have hgread : isRead (approvalKey approvalId) g = true := by
        rw [isRead, hgentry]
        exact decide_eq_true rfl
      obtain ⟨h₁, g', h₂, hsplit, htid', hread', hbetween⟩ :=
        freshRead_split hfresh hg htid hgread
      -- the only read of this request is the one of its ruling
      have hentry' : g'.entry = ⟨.redisGet (approvalKey approvalId), some (some R.raw)⟩ := by
        have hown : g'.entry ∈ own t p.hist := by
          refine mem_own.mpr ⟨g', ?_, htid', rfl⟩
          rw [hsplit]
          simp
        rw [htr] at hown
        simp only [Ruling.before, checkedTrace, readTrace, List.mem_cons, List.not_mem_nil,
          or_false] at hown
        rw [isRead] at hread'
        rcases hown with h | h | h | h
        · rw [h] at hread'
          cases hread'
        · rw [h] at hread'
          cases hread'
        · exact h
        · rw [h] at hread'
          cases hread'
      rw [hsplit] at hreads hf
      rcases List.mem_append.mp hf with hf | hf
      · exact hbetween f hf hdecided
      · rcases List.mem_cons.mp hf with rfl | hf
        · rw [decidedKey, hentry'] at hdecided
          cases hdecided
        · exact hreads.at _ _ _ hentry' R.read R.pending f hf hdecided
    | status approvalId =>
      obtain ⟨key', hk⟩ := hok
      cases hk

theorem reachable_firstDecision {p : GatewayPool G W} (hp : Reachable Unraced p) :
    Log FirstDecision p.hist := by
  induction hp with
  | start s hs => trivial
  | step hp hc hm ih =>
    exact firstDecision_step (reachable_lawful hp) (reachable_settled hp).2 ih hc hm

/-! ## One execution -/

/-- A decide request on the approval runs a tool. -/
def RunsFor (approvalId : Str) (e : Event (gatewaySystem G W)) : Prop :=
  ∃ timestamp signature body name arguments, e.req = .decide approvalId timestamp signature body ∧
    e.entry.op = .runTool name arguments

/-- What a decide request that runs a tool did before. -/
theorem runsFor_ruling {h : History G W} {e : Event (gatewaySystem G W)}
    (hok : GwOk G e.req (own e.tid h) e.entry.op) {approvalId : Str} (hruns : RunsFor approvalId e) :
    ∃ timestamp signature body, e.req = .decide approvalId timestamp signature body ∧
      ∃ R : Ruling G approvalId timestamp signature body, own e.tid h = R.after ∧
        R.payload.decision = lit "approve" := by
  obtain ⟨timestamp, signature, body, name, arguments, hreq, hop⟩ := hruns
  rw [hop, hreq] at hok
  obtain ⟨R, htr, happrove, -, -⟩ := hok
  exact ⟨timestamp, signature, body, hreq, R, htr, happrove⟩

/-- The decision of a ruling is in the history. -/
theorem decided_of_after {h : History G W} {t : ℕ} {approvalId : Str}
    {timestamp signature : Option Str} {body : Bytes}
    {R : Ruling G approvalId timestamp signature body} (htr : R.after <:+ own t h) :
    ∃ f ∈ h, f.tid = t ∧ decidedKey f = some (approvalKey approvalId) := by
  obtain ⟨f, hf, htid, hentry⟩ := mem_own.mp (htr.subset List.mem_cons_self)
  exact ⟨f, hf, htid, decidedKey_of_entry hentry⟩

/-- The decisions and the executions of an approval. -/
structure DecidedOnce (p : GatewayPool G W) (approvalId : Str) : Prop where
  decided : ∀ e ∈ p.hist, ∀ f ∈ p.hist, decidedKey e = some (approvalKey approvalId) →
    decidedKey f = some (approvalKey approvalId) → e.tid = f.tid
  executed : ∀ h₁ e h₂, p.hist = h₁ ++ e :: h₂ → RunsFor approvalId e →
    ∀ f ∈ h₂, ¬ RunsFor approvalId f
  denied : ∀ t timestamp signature body a, p.thread t =
      some (.decide approvalId timestamp signature body, .ret (Gateway.decided a "denied")) →
    ∀ e ∈ p.hist, ¬ RunsFor approvalId e

theorem verdict_of_denied {a b : Approval} {decision : Str}
    (h : Gateway.decided a "denied" = Gateway.decided b (verdictStatus decision)) :
    decision ≠ lit "approve" := by
  intro happrove
  rw [verdictStatus, if_pos happrove] at h
  simp only [Gateway.decided, Response.mk.injEq, JsonTree.obj.injEq, List.cons.injEq,
    Prod.mk.injEq, JsonTree.str.injEq, true_and, and_true] at h
  exact absurd h.2 (by decide)

theorem decidedOnce_of_first {p : GatewayPool G W} (hp : Lawful p)
    (hfirst : Log FirstDecision p.hist) (approvalId : Str) : DecidedOnce p approvalId := by
  have honce : ∀ e ∈ p.hist, ∀ f ∈ p.hist, decidedKey e = some (approvalKey approvalId) →
      decidedKey f = some (approvalKey approvalId) → e.tid = f.tid := by
    intro e he f hf hke hkf
    have hlog := log_imp (Q := fun h e => decidedKey e = some (approvalKey approvalId) →
      ∀ f ∈ h, ¬ decidedKey f = some (approvalKey approvalId)) (fun _ _ h hk => h _ hk) hfirst
    rw [log_unique hlog he hf hke hkf]
  -- every execution belongs to the request whose decision was written
  have hsame : ∀ {h₁ h₂ : History G W} {e : Event (gatewaySystem G W)}, p.hist = h₁ ++ e :: h₂ →
      RunsFor approvalId e → ∀ f ∈ p.hist, decidedKey f = some (approvalKey approvalId) →
        f.tid = e.tid := by
    intro h₁ h₂ e hsplit hruns f hf hkf
    have hlog := hp.log
    rw [hsplit] at hlog
    obtain ⟨timestamp, signature, body, -, R, htr, -⟩ := runsFor_ruling hlog.at hruns
    obtain ⟨g, hg, htid, hkg⟩ := decided_of_after (R := R) (h := h₂) (by rw [htr])
    rw [← htid]
    exact honce f hf g (hsplit ▸ List.mem_append_right _ (List.mem_cons_of_mem _ hg)) hkf hkg
  refine ⟨honce, ?_, ?_⟩
  · intro h₁ e h₂ hsplit hruns f hf hrunsf
    have hlog := hp.log
    rw [hsplit] at hlog
    obtain ⟨timestamp, signature, body, -, R, htr, -⟩ := runsFor_ruling hlog.at hruns
    obtain ⟨g, hg, htid, hkg⟩ := decided_of_after (R := R) (h := h₂) (by rw [htr])
    obtain ⟨l₁, l₂, rfl⟩ := List.append_of_mem hf
    have hsplit' : p.hist = (h₁ ++ e :: l₁) ++ f :: l₂ := by rw [hsplit]; simp
    have hftid : g.tid = f.tid := hsame hsplit' hrunsf g
      (hsplit ▸ List.mem_append_right _ (List.mem_cons_of_mem _ hg)) hkg
    obtain ⟨-, -, -, name, arguments, -, hop⟩ := hrunsf
    have hown : f.entry ∈ own e.tid (l₁ ++ f :: l₂) :=
      mem_own.mpr ⟨f, by simp, hftid.symm.trans htid, rfl⟩
    rw [htr] at hown
    simp only [Ruling.after, Ruling.before, checkedTrace, readTrace, List.mem_cons,
      List.not_mem_nil, or_false] at hown
    rcases hown with h | h | h | h | h <;> rw [h] at hop <;> cases hop
  · intro t timestamp signature body a ht e he hruns
    obtain ⟨R, hsuffix, hresp⟩ := (hp.sat t _ _ ht).2 rfl
    have hdeny := verdict_of_denied hresp
    obtain ⟨f, hf, htid, hkf⟩ := decided_of_after hsuffix
    obtain ⟨h₁, h₂, hsplit⟩ := List.append_of_mem he
    have hetid := hsame hsplit hruns f hf hkf
    have hlog := hp.log
    rw [hsplit] at hlog
    obtain ⟨timestamp', signature', body', hreq, R', -, happrove⟩ := runsFor_ruling hlog.at hruns
    obtain ⟨q, hq⟩ := hp.owner e he
    rw [← hetid, htid, ht, hreq] at hq
    obtain ⟨-, -, -, rfl⟩ := GwReq.decide.inj (Prod.mk.inj (Option.some.inj hq)).1
    have hpayload : R.payload = R'.payload := Except.ok.inj (R.valid.symm.trans R'.valid)
    rw [hpayload] at hdeny
    exact hdeny happrove

/-- As long as no decision is written between the read and the write of another, an approval is
decided once, its tool runs at most once, and not at all after an answer `denied`. -/
theorem decided_once (p : GatewayPool G W) (hp : Reachable Unraced p) (approvalId : Str) :
    DecidedOnce p approvalId :=
  decidedOnce_of_first (reachable_lawful hp) (reachable_firstDecision hp) approvalId

/-- The requests that ran a tool for the approval. -/
def runners (p : DemoPool) : List ℕ :=
  p.hist.filterMap fun e =>
    match e.entry.op with
    | .runTool _ _ => some e.tid
    | _ => none

/-- A second callback comes after the first one. -/
theorem second_callback_too_late : ∃ p : DemoPool, runners p = [1] ∧
    DecidedOnce p (Uuid.text 1) := by
  have hrun : (runMoves Unraced (Pool.empty (Y := gatewaySystem demoConfig openWorld)
      (GwState.initial 0)) (demoOpen 0 1 ++ demoRead 1 (Uuid.text 1) approveBody ++ demoRun 1 ++
      [.arrive 2 (demoDecide (Uuid.text 1) approveBody), .answer 2 (.now zeroMagnitude),
        .answer 2 .plain])).map runners = some [1] := by decide +kernel
  obtain ⟨p, hp, hrunners⟩ := Option.map_eq_some_iff.mp hrun
  exact ⟨p, hrunners, decided_once p (reachable_of_runMoves (.start _ ⟨0, rfl⟩) hp) _⟩

/-- Two callbacks read the pending record before either writes: the tool runs twice. -/
theorem two_callbacks_execute : ∃ p : DemoPool, Reachable (fun _ _ => True) p ∧
    ¬ DecidedOnce p (Uuid.text 1) := by
  have hrun : (demo (demoOpen 0 1 ++ demoRead 1 (Uuid.text 1) approveBody ++
      demoRead 2 (Uuid.text 1) approveBody ++ [.answer 1 .plain, .answer 2 .plain])).map
      (fun p => p.hist.filterMap fun e => (decidedKey e).map fun key => (e.tid, key)) =
      some [(2, approvalKey (Uuid.text 1)), (1, approvalKey (Uuid.text 1))] := by decide +kernel
  obtain ⟨p, hp, hdecisions⟩ := Option.map_eq_some_iff.mp hrun
  have hreach := reachable_demo hp
  refine ⟨p, hreach, fun honce => ?_⟩
  have hfind : ∀ t, (t, approvalKey (Uuid.text 1)) ∈
      (p.hist.filterMap fun e => (decidedKey e).map fun key => (e.tid, key)) →
      ∃ e ∈ p.hist, e.tid = t ∧ decidedKey e = some (approvalKey (Uuid.text 1)) := by
    intro t hmem
    obtain ⟨e, he, hkey⟩ := List.mem_filterMap.mp hmem
    obtain ⟨key, hk, hpair⟩ := Option.map_eq_some_iff.mp hkey
    obtain ⟨htid, rfl⟩ := Prod.mk.inj hpair
    exact ⟨e, he, htid, hk⟩
  rw [hdecisions] at hfind
  obtain ⟨e, he, htid, hke⟩ := hfind 2 (by simp)
  obtain ⟨f, hf, htid', hkf⟩ := hfind 1 (by simp)
  have heq := honce.decided e he f hf hke hkf
  rw [htid, htid'] at heq
  cases heq

end DecideOnce
