import McpControlPlane.DecideOnce
import McpControlPlane.Stacking

/-! # What an approval says

A record is stored by the request that opens it, and by decide requests that found it pending.
Whoever reads it finds what was asked for, with a verdict only if a signed callback gave one. Once
it was seen decided it is not seen pending again. -/
namespace ApprovalRecords

open PyText Binary64 JsonText JsonDict PyJson UuidTime AuditLog ToolPolicy PolicyDecision
open GatewayOps ApprovalStore SlackSignature Gateway GatewaySpecs Mediation ApprovalRaces DecideOnce
open Interleaving

variable {G : Config} {W : World}

/-! ## Records -/

/-- The same but for the verdict. -/
def SameRequest (a b : Approval) : Prop :=
  b = { a with status := b.status, decidedBy := b.decidedBy, decidedAt := b.decidedAt }

theorem sameRequest_resolve (a : Approval) (decision decidedBy : Str) (decidedAt : Magnitude) :
    SameRequest a (a.resolve decision decidedBy decidedAt) := rfl

theorem SameRequest.trans_left {o a b : Approval} (ha : SameRequest o a) (hb : SameRequest o b) :
    SameRequest a b := by
  unfold SameRequest at ha hb ⊢
  rw [ha, hb]

theorem stored_resolved (a : Approval) (decision decidedBy : Str) (decidedAt : Magnitude) :
    stored (a.resolve decision decidedBy decidedAt) =
      (stored a).resolve decision (mergeSurrogates decidedBy) decidedAt := by
  have hstatus : mergeSurrogates (decidedStatus decision) = decidedStatus decision := by
    rw [decidedStatus]
    split_ifs <;> decide +kernel
  simp only [stored, Approval.resolve, hstatus, Option.map_some]

/-- The record of a held call is stored as it was read. -/
theorem stored_again {agent : Agent} {body : Str} (J : Judged agent body) (now : Magnitude)
    (u : Uuid) : stored (stored (J.opened now u)) = stored (J.opened now u) := by
  have h := stored_opened J now u
  have hreason : mergeSurrogates (mergeSurrogates J.decision.reason) =
      mergeSurrogates J.decision.reason := mergeSurrogates_idem _
  rw [h]
  simp only [stored, Approval.mk.injEq, true_and, and_true] at h ⊢
  obtain ⟨hid, hagent, hrole, hname, hargs, -, hrest⟩ := h
  exact ⟨hid, hagent, hrole, hname, hargs, hreason, hrest⟩

theorem read_before {approvalId : Str} {timestamp signature : Option Str} {body : Bytes}
    (R : Ruling G approvalId timestamp signature body) :
    (⟨.redisGet (approvalKey approvalId), some (some R.raw)⟩ : Entry gateway) ∈ R.before := by
  simp [Ruling.before, checkedTrace, readTrace]

/-! ## Who sets a key -/

/-- An opening request sets the key. -/
def OpensKey (key : Str) (e : Event (gatewaySystem G W)) : Prop :=
  ∃ agent body raw ttl, e.req = .mcp agent body ∧ e.entry.op = .redisSet key raw ttl

/-- A value was stored by a request that held a call, or by one that decided on it. -/
inductive Stores (h : History G W) (f : Event (gatewaySystem G W)) (key raw : Str) : Prop
  | opened (agent : Agent) (body : Str) (hreq : f.req = .mcp agent body) (J : Judged agent body)
      (now : Magnitude) (u : Uuid) (hkey : key = approvalKey u.text)
      (hraw : raw = dumps (J.opened now u).json)
  | resolved (approvalId : Str) (timestamp signature : Option Str) (body : Bytes)
      (hreq : f.req = .decide approvalId timestamp signature body)
      (R : Ruling G approvalId timestamp signature body) (hop : f.entry.op = R.write)
      (hkey : key = approvalKey approvalId) (hraw : raw = dumps R.resolved.json)
      (hbefore : R.before <:+ own f.tid h)

theorem stores_of_set {h : History G W} {f : Event (gatewaySystem G W)} {key raw : Str} {ttl : Ttl}
    (hok : GwOk G f.req (own f.tid h) f.entry.op) (hset : f.entry.op = .redisSet key raw ttl) :
    Stores h f key raw := by
  cases hreq : f.req with
  | mcp agent body =>
    rw [hset, hreq] at hok
    obtain ⟨J, now, u, -, -, hkey, hraw, -⟩ := hok
    exact .opened agent body hreq J now u hkey hraw
  | decide approvalId timestamp signature body =>
    rw [hset, hreq] at hok
    obtain ⟨R, htr, hw⟩ := hok
    have hparts := hw
    simp only [Ruling.write, GwOp.redisSet.injEq] at hparts
    obtain ⟨hkey, hraw, -⟩ := hparts
    exact .resolved approvalId timestamp signature body hreq R (hset.trans hw) hkey hraw
      (htr ▸ List.suffix_refl _)
  | status approvalId =>
    rw [hset, hreq] at hok
    obtain ⟨key', hk⟩ := hok
    cases hk

/-- No key is opened twice. -/
theorem opensKey_first {h : History G W} {e : Event (gatewaySystem G W)} {key : Str}
    (hop : GwOk G e.req (own e.tid h) e.entry.op)
    (hok : Log (fun h e => GwOk G e.req (own e.tid h) e.entry.op) h) (htold : Log Told h)
    (hopens : OpensKey key e) : ∀ f ∈ h, ¬ OpensKey key f := by
  rintro f hf ⟨agent', body', raw', ttl', hreq', hset'⟩
  obtain ⟨agent, body, raw, ttl, hreq, hset⟩ := hopens
  rw [hset, hreq] at hop
  obtain ⟨J, now, u, htr, -, rfl, -, -⟩ := hop
  obtain ⟨u', hkey, g, hg, htid, hentry⟩ := named_set hok hf hreq' hset'
  obtain rfl := approvalKey_injective hkey
  have hmem : (⟨.uuid4, some u⟩ : Entry gateway) ∈ own e.tid h := by
    rw [htr]
    exact List.mem_cons_self
  obtain ⟨g', hg', htid', hentry'⟩ := mem_own.mp hmem
  obtain rfl := uuid_unique htold hg hg' hentry hentry'
  have hown : f.entry ∈ own e.tid h := mem_own.mpr ⟨f, hf, htid.symm.trans htid', rfl⟩
  rw [htr] at hown
  simp only [namedTrace, Judged.asked, List.mem_cons, List.not_mem_nil, or_false] at hown
  rcases hown with hx | hx | hx <;> rw [hx] at hset' <;> cases hset'

theorem opensKey_log {h : History G W} {key : Str}
    (hok : Log (fun h e => GwOk G e.req (own e.tid h) e.entry.op) h) (htold : Log Told h) :
    Log (fun h e => OpensKey key e → ∀ f ∈ h, ¬ OpensKey key f) h := by
  induction h with
  | nil => trivial
  | cons e h ih => exact ⟨opensKey_first hok.1 hok.2 htold.2, ih hok.2 htold.2⟩

/-! ## The record that was opened -/

/-- The approval was opened with the record `o`, for a call that needed it. -/
def Opened (h : History G W) (approvalId : Str) (o : Approval) : Prop :=
  ∃ raw i, OpenedBy h (approvalKey approvalId) raw o i ∧ readApproval raw = .ok o ∧
    o.status = pendingStatus

theorem Opened.mono {h : History G W} {approvalId : Str} {o : Approval}
    (ho : Opened h approvalId o) (h₁ : History G W) : Opened (h₁ ++ h) approvalId o := by
  obtain ⟨raw, i, ⟨f, hf, agent, body, hreq, hset, hrequested, ⟨reply, hasked⟩, hrest⟩, hread⟩ := ho
  exact ⟨raw, i, ⟨f, List.mem_append_right _ hf, agent, body, hreq, hset, hrequested,
    ⟨reply, own_append_mem h₁ hasked⟩, hrest⟩, hread⟩

theorem Opened.id {h : History G W} {approvalId : Str} {o : Approval}
    (ho : Opened h approvalId o) : o.id = approvalId := by
  obtain ⟨raw, i, ⟨f, -, agent, body, -, -, -, -, -, -, hkey, -⟩, -⟩ := ho
  exact (List.append_cancel_left hkey).symm

theorem opened_unique {h : History G W}
    (hok : Log (fun h e => GwOk G e.req (own e.tid h) e.entry.op) h) (htold : Log Told h)
    {approvalId : Str} {o o' : Approval} (ho : Opened h approvalId o)
    (ho' : Opened h approvalId o') : o = o' := by
  obtain ⟨raw, i, ⟨f, hf, agent, body, hreq, hset, -⟩, hread, -⟩ := ho
  obtain ⟨raw', i', ⟨f', hf', agent', body', hreq', hset', -⟩, hread', -⟩ := ho'
  obtain rfl : f = f' := log_unique (opensKey_log hok htold) hf hf'
    ⟨agent, body, raw, _, hreq, hset⟩ ⟨agent', body', raw', _, hreq', hset'⟩
  rw [hset, GwOp.redisSet.injEq] at hset'
  obtain ⟨-, rfl, -⟩ := hset'
  exact Except.ok.inj (hread.symm.trans hread')

/-- A pending record is opened, and stored as it was read. -/
theorem pending_record {h : History G W}
    (hok : Log (fun h e => GwOk G e.req (own e.tid h) e.entry.op) h) (htold : Log Told h)
    {f : Event (gatewaySystem G W)} (hf : f ∈ h) {approvalId raw : Str} {ttl : Ttl}
    (hset : f.entry.op = .redisSet (approvalKey approvalId) raw ttl) {a : Approval}
    (hread : readApproval raw = .ok a) (hpending : a.status = pendingStatus) :
    Opened h approvalId a ∧ stored a = a := by
  obtain ⟨i, hopened⟩ := pending_opened hok htold hf hset hread hpending
  refine ⟨⟨raw, i, hopened, hread, hpending⟩, ?_⟩
  obtain ⟨h₁, h₂, rfl, hop⟩ := hok.mem hf
  cases stores_of_set hop hset with
  | opened agent body hreq J now u hkey hraw =>
    rw [hraw, readApproval_dumps] at hread
    obtain rfl := Except.ok.inj hread
    exact stored_again J now u
  | resolved approvalId' timestamp signature body hreq R hop hkey hraw hbefore =>
    rw [hraw, readApproval_dumps] at hread
    obtain rfl := Except.ok.inj hread
    exact absurd hpending (decidedStatus_ne_pending _)

/-- The record that a ruling has read was pending, hence opened. -/
theorem ruling_found {h : History G W}
    (hok : Log (fun h e => GwOk G e.req (own e.tid h) e.entry.op) h) (htold : Log Told h)
    {approvalId : Str} {timestamp signature : Option Str} {body : Bytes}
    {R : Ruling G approvalId timestamp signature body} {t : ℕ}
    (hread : (⟨.redisGet (approvalKey approvalId), some (some R.raw)⟩ : Entry gateway) ∈ own t h) :
    Opened h approvalId R.approval ∧ stored R.approval = R.approval := by
  obtain ⟨v, hv, -, hentry⟩ := mem_own.mp hread
  obtain ⟨h₁, h₂, hsplit, htells⟩ := htold.mem hv
  obtain ⟨g, hg, ttl, hset⟩ := htells.stored _ _ hentry
  have hg' : g ∈ h := hsplit ▸ List.mem_append_right _ (List.mem_cons_of_mem _ hg)
  exact pending_record hok htold hg' hset R.read R.pending

/-! ## What a reader finds -/

/-- The event reads the record `a` of the approval. -/
def Reads (approvalId : Str) (e : Event (gatewaySystem G W)) (a : Approval) : Prop :=
  ∃ raw, e.entry = ⟨.redisGet (approvalKey approvalId), some (some raw)⟩ ∧ readApproval raw = .ok a

/-- The record that was opened as `o`, after the history: as it was, before any decision, or
with the verdict of a decide request on this approval. -/
inductive Recorded (h : History G W) (approvalId : Str) (o : Approval) : Approval → Prop
  | pending (hno : ∀ f ∈ h, decidedKey f ≠ some (approvalKey approvalId)) :
      Recorded h approvalId o o
  | decided (f : Event (gatewaySystem G W)) (hf : f ∈ h) (timestamp signature : Option Str)
      (body : Bytes) (hreq : f.req = .decide approvalId timestamp signature body)
      (R : Ruling G approvalId timestamp signature body) (hwrite : f.entry.op = R.write)
      (hfound : R.approval = o) : Recorded h approvalId o
        (o.resolve R.payload.decision (mergeSurrogates R.payload.decidedBy) R.decidedAt)

theorem Recorded.same {h : History G W} {approvalId : Str} {o a : Approval}
    (ha : Recorded h approvalId o a) : SameRequest o a := by
  cases ha with
  | pending hno => rfl
  | decided f hf timestamp signature body hreq R hwrite hfound => exact sameRequest_resolve _ _ _ _

/-- What is read under the key of an approval. -/
theorem read_recorded {h : History G W} {e : Event (gatewaySystem G W)}
    (hok : Log (fun h e => GwOk G e.req (own e.tid h) e.entry.op) h) (htold : Log Told h)
    (htells : Told h e) (hundecided : PendingRead h e) {approvalId raw : Str}
    (hget : e.entry = ⟨.redisGet (approvalKey approvalId), some (some raw)⟩) :
    ∃ o a, readApproval raw = .ok a ∧ Opened h approvalId o ∧ Recorded h approvalId o a := by
  obtain ⟨f, hf, ttl, hset⟩ := htells.stored _ _ hget
  obtain ⟨h₁, h₂, hsplit, hop⟩ := hok.mem hf
  cases stores_of_set hop hset with
  | opened agent body hreq J now u hkey hraw =>
    have hread : readApproval raw = .ok (stored (J.opened now u)) := by
      rw [hraw, readApproval_dumps]
    have hpending : (stored (J.opened now u)).status = pendingStatus := by
      rw [stored_opened]
      rfl
    exact ⟨_, _, hread, (pending_record hok htold hf hset hread hpending).1,
      .pending (hundecided _ _ _ hget hread hpending)⟩
  | resolved approvalId' timestamp signature body hreq R hwrite hkey hraw hbefore =>
    obtain rfl := List.append_cancel_left hkey
    have hmem : (⟨.redisGet (approvalKey approvalId), some (some R.raw)⟩ : Entry gateway) ∈
        own f.tid (h₁ ++ [f] ++ h₂) := own_append_mem _ (hbefore.subset (read_before R))
    have hfound := ruling_found (R := R) (t := f.tid) hok htold (by simpa [hsplit] using hmem)
    have hread : readApproval raw = .ok (R.approval.resolve R.payload.decision
        (mergeSurrogates R.payload.decidedBy) R.decidedAt) := by
      rw [hraw, readApproval_dumps, Ruling.resolved, stored_resolved, hfound.2]
    exact ⟨_, _, hread, hfound.1,
      .decided f hf timestamp signature body hreq R hwrite rfl⟩

/-! ## Seen decided -/

/-- Where a decided record was read, none that reads as pending is stored. -/
def StaysDecided (p : GatewayPool G W) : Prop :=
  ∀ e ∈ p.hist, ∀ approvalId b, Reads approvalId e b → b.status ≠ pendingStatus →
    ∀ raw a, p.shared.store.get (approvalKey approvalId) = some raw → readApproval raw = .ok a →
      a.status ≠ pendingStatus

/-- Whatever was read before a pending record was pending too. -/
def PendingBefore (h : History G W) (e : Event (gatewaySystem G W)) : Prop :=
  ∀ approvalId a, Reads approvalId e a → a.status = pendingStatus →
    ∀ f ∈ h, ∀ b, Reads approvalId f b → b.status = pendingStatus

theorem staysDecided_step {p p' : GatewayPool G W} {m : Move (gatewaySystem G W)} (hp : Lawful p)
    (hb : Backed p) (h : StaysDecided p) (hm : Step p m p') : StaysDecided p' := by
  intro e he approvalId b hreads hdecided raw a hget hread
  obtain ⟨raw', hentry, hread'⟩ := hreads
  cases moved_of_step hm with
  | outside hhist hrows hstore =>
    exact h e (hhist ▸ he) approvalId b ⟨raw', hentry, hread'⟩ hdecided raw a (hstore _ _ hget) hread
  | did t r e' k ht hhist hmove hgets hstore hrows =>
    rw [hhist] at he
    have hold : p.shared.store.get (approvalKey approvalId) = some raw →
        a.status ≠ pendingStatus := by
      intro hget'
      rcases List.mem_cons.mp he with rfl | he
      · have hsame := (hgets _ _ hentry).trans hget'
        obtain rfl := Option.some.inj hsame
        obtain rfl := Except.ok.inj (hread'.symm.trans hread)
        exact hdecided
      · exact h e he approvalId b ⟨raw', hentry, hread'⟩ hdecided raw a hget' hread
    rcases hstore with ⟨hstore, -⟩ | ⟨key, value, ttl, hop, hstore⟩
    · exact hold (hstore ▸ hget)
    · rw [hstore] at hget
      by_cases hsame : approvalKey approvalId = key
      · subst hsame
        rw [get_set_self, Option.some.injEq] at hget
        subst hget
        -- a key that was read is not opened any more, so the write is a decision
        have hok := (hp.sat t r _ ht).1
        have hstores : Stores p.hist ⟨t, r, e'⟩ (approvalKey approvalId) value :=
          stores_of_set hok hop
        cases hstores with
        | opened agent body hreq J now u hkey hraw =>
          rcases List.mem_cons.mp he with rfl | he
          · have hget' : e'.op = .redisGet (approvalKey approvalId) := congrArg Entry.op hentry
            rw [hop] at hget'
            cases hget'
          · obtain ⟨h₁, h₂, hsplit, htells⟩ := hb.told.mem he
            obtain ⟨g, hg, ttl', hset⟩ := htells.stored _ _ hentry
            have hg' : g ∈ p.hist := hsplit ▸ List.mem_append_right _ (List.mem_cons_of_mem _ hg)
            obtain ⟨o, x⟩ := e'
            obtain rfl : o = .redisSet (approvalKey approvalId) value ttl := hop
            obtain rfl : r = .mcp agent body := hreq
            exact absurd hset (opening_first hp hb ht hg')
        | resolved approvalId' timestamp signature body hreq R hwrite hkey hraw hbefore =>
          rw [hraw, readApproval_dumps] at hread
          obtain rfl := Except.ok.inj hread
          exact decidedStatus_ne_pending _
      · rw [get_set_ne _ _ _ hsame] at hget
        exact hold hget

theorem pendingBefore_step {p p' : GatewayPool G W} {m : Move (gatewaySystem G W)}
    (hs : StaysDecided p) (h : Log PendingBefore p.hist) (hm : Step p m p') :
    Log PendingBefore p'.hist := by
  cases moved_of_step hm with
  | outside hhist hrows hstore => exact hhist ▸ h
  | did t r e k ht hhist hmove hgets hstore hrows =>
    rw [hhist]
    refine ⟨?_, h⟩
    rintro approvalId a ⟨raw, hentry, hread⟩ hpending f hf b hreads
    by_contra hdecided
    exact hs f hf approvalId b hreads hdecided raw a (hgets _ _ hentry).symm hread hpending

theorem reachable_staysDecided {C : GatewayPool G W → Move (gatewaySystem G W) → Prop}
    {p : GatewayPool G W} (hp : Reachable C p) : StaysDecided p ∧ Log PendingBefore p.hist := by
  induction hp with
  | start s hs => exact ⟨fun e he => absurd he List.not_mem_nil, trivial⟩
  | step hp _ hm ih =>
    exact ⟨staysDecided_step (reachable_lawful hp) (reachable_backed hp) ih.1 hm,
      pendingBefore_step ih.1 ih.2 hm⟩

theorem reads_recorded {C : GatewayPool G W → Move (gatewaySystem G W) → Prop}
    {p : GatewayPool G W} (hp : Reachable C p) {h₁ h₂ : History G W}
    {e : Event (gatewaySystem G W)} (hsplit : p.hist = h₁ ++ e :: h₂) {approvalId raw : Str}
    (hget : e.entry = ⟨.redisGet (approvalKey approvalId), some (some raw)⟩) :
    ∃ o a, readApproval raw = .ok a ∧ Opened h₂ approvalId o ∧ Recorded h₂ approvalId o a := by
  have hok := (reachable_lawful hp).log
  have htold := (reachable_backed hp).told
  have hpending := (reachable_settled hp).2
  rw [hsplit] at hok htold hpending
  exact read_recorded (Log.of_append hok).2 (Log.of_append htold).2 htold.at hpending.at hget

/-! ## What a poll is answered -/

def gone : Response := ⟨410, errorBody (lit "approval not found or expired")⟩

/-- A record is told, less what `jsonable_encoder` drops, or is nested too deep for it. -/
def PollAnswers (G : Config) (a : Approval) (r : Except GwError Response) : Prop :=
  (¬ Unwalkable G a ∧ r = .ok ⟨200, (shown a).json⟩) ∨ Unwalkable G a ∧ r = .error .recursion

/-- The answer to a poll follows from what it has read. -/
def PollPost (G : Config) (approvalId : Str) (r : Except GwError Response) (tr : Trace gateway) :
    Prop :=
  r = .error .redis ∨ r = .ok gone ∨
    ∃ raw, (⟨.redisGet (approvalKey approvalId), some (some raw)⟩ : Entry gateway) ∈ tr ∧
      ((∃ a, readApproval raw = .ok a ∧ PollAnswers G a r) ∨
        ∃ e, readApproval raw = .error e ∧ r = .error e)

def Polled (G : Config) : GwReq → Except GwError Response → Trace gateway → Prop
  | .status approvalId, r, tr => PollPost G approvalId r tr
  | _, _, _ => True

theorem returnApproval_answers {a : Approval} {tr : Trace gateway}
    {post : Except GwError Response → Trace gateway → Prop} (h : ∀ r, PollAnswers G a r → post r tr) :
    Sat (fun _ _ => True) post (returnApproval G a) tr := by
  by_cases hdeep : Unwalkable G a
  · rw [returnApproval_unwalkable hdeep]
    exact h _ (Or.inr ⟨hdeep, rfl⟩)
  · rw [returnApproval_walked hdeep]
    exact h _ (Or.inl ⟨hdeep, rfl⟩)

theorem polled_sat (req : GwReq) :
    Sat (fun _ _ => True) (Polled G req) (handle G req) [] := by
  cases req with
  | mcp agent body => exact sat_always (fun _ _ => trivial) (fun _ _ => trivial) _ _
  | decide approvalId timestamp signature body =>
    exact sat_always (fun _ _ => trivial) (fun _ _ => trivial) _ _
  | status approvalId =>
    refine sat_bind.mpr ?_
    apply getApproval_sat
    · trivial
    · exact Or.inr (Or.inl rfl)
    · exact fun raw a hread => returnApproval_answers fun r hr =>
        Or.inr (Or.inr ⟨raw, List.mem_cons_self, Or.inl ⟨a, hread, hr⟩⟩)
    · exact fun raw e hread => Or.inr (Or.inr ⟨raw, List.mem_cons_self, Or.inr ⟨e, hread, rfl⟩⟩)
    · exact Or.inl rfl

/-- The end of a poll of the approval. -/
def ended (p : GatewayPool G W) (t : ℕ) (approvalId : Str) : Option (Except GwError Response) :=
  match p.thread t with
  | some (.status approvalId', .ret resp) =>
    if approvalId' = approvalId then some (.ok resp) else none
  | some (.status approvalId', .raise e) =>
    if approvalId' = approvalId then some (.error e) else none
  | _ => none

theorem ended_post {C : GatewayPool G W → Move (gatewaySystem G W) → Prop} {p : GatewayPool G W}
    (hp : Reachable C p) {t : ℕ} {approvalId : Str} {r : Except GwError Response}
    (h : ended p t approvalId = some r) : PollPost G approvalId r (own t p.hist) := by
  have hobeys : Obeys (Y := gatewaySystem G W) (fun _ _ _ => True) (Polled G) p :=
    reachable_obeys polled_sat hp
  unfold ended at h
  split at h
  · rename_i approvalId' resp ht
    split_ifs at h with hid
    subst hid
    obtain rfl := Option.some.inj h
    exact hobeys.sat t _ _ ht
  · rename_i approvalId' e ht
    split_ifs at h with hid
    subst hid
    obtain rfl := Option.some.inj h
    exact hobeys.sat t _ _ ht
  · cases h

/-- A poll tells what a call with an approval asked for, and no verdict but that of a callback with
a valid signature for this approval that found it pending and in time. It fails with Redis, or where
the arguments are nested too deep. -/
theorem polls_tell_the_record (p : GatewayPool G W) (hp : Reachable (fun _ _ => True) p) (t : ℕ)
    (approvalId : Str) (r : Except GwError Response) (hended : ended p t approvalId = some r) :
    r = .error .redis ∨ r = .ok gone ∨ ∃ o a h₁ e h₂, p.hist = h₁ ++ e :: h₂ ∧ e.tid = t ∧
      Reads approvalId e a ∧ PollAnswers G a r ∧ o.id = approvalId ∧
      Opened h₂ approvalId o ∧ Recorded h₂ approvalId o a := by
  rcases ended_post hp hended with hr | hr | ⟨raw, hmem, hr⟩
  · exact Or.inl hr
  · exact Or.inr (Or.inl hr)
  · obtain ⟨e, he, htid, hentry⟩ := mem_own.mp hmem
    obtain ⟨h₁, h₂, hsplit⟩ := List.append_of_mem he
    obtain ⟨o, a, hread, hopened, hrecorded⟩ := reads_recorded hp hsplit hentry
    rcases hr with ⟨a', hread', htold⟩ | ⟨e', hread', -⟩
    · obtain rfl := Except.ok.inj (hread.symm.trans hread')
      exact Or.inr (Or.inr ⟨o, a, h₁, e, h₂, hsplit, htid, ⟨raw, hentry, hread⟩, htold, hopened.id,
        hopened, hrecorded⟩)
    · rw [hread] at hread'
      cases hread'

def demoPoll (t : ℕ) (approvalId : Str) : List DemoMove :=
  [.arrive t (.status approvalId), .answer t .plain]

/-- Opened, approved, run, and polled. -/
def demoPolled : Option DemoPool :=
  demo (demoOpen 0 1 ++ demoHeld 0 ++ demoRead 1 (Uuid.text 1) approveBody ++ demoRun 1 ++
    demoPoll 2 (Uuid.text 1))

def okStatus : Except GwError Response → Option ℕ
  | .ok resp => some resp.status
  | .error _ => none

theorem approved_restart_polled : ∃ (p : DemoPool) (o a : Approval) (h : History demoConfig openWorld),
    ended p 2 (Uuid.text 1) = some (.ok ⟨200, (shown a).json⟩) ∧ Opened h (Uuid.text 1) o ∧
      Recorded h (Uuid.text 1) o a := by
  have hrun : (demoPolled.bind fun p => (ended p 2 (Uuid.text 1)).bind okStatus) = some 200 := by
    decide +kernel
  obtain ⟨p, hp, hpolled⟩ := Option.bind_eq_some_iff.mp hrun
  obtain ⟨r, hended, hok⟩ := Option.bind_eq_some_iff.mp hpolled
  rcases polls_tell_the_record p (reachable_demo hp) 2 (Uuid.text 1) r hended with rfl | rfl |
    ⟨o, a, h₁, e, h₂, -, -, -, ⟨-, rfl⟩ | ⟨-, rfl⟩, -, hopened, hrecorded⟩
  · cases hok
  · cases hok
  rotate_left
  · cases hok
  · exact ⟨p, o, a, h₂, hended, hopened, hrecorded⟩

/-! ## What two readers find -/

/-- Whoever reads an approval later, by a poll or a callback, finds the same request; once it was
seen decided, or a decision on it was stored, it does not read as pending again. -/
theorem approvals_stay_decided (p : GatewayPool G W) (hp : Reachable (fun _ _ => True) p)
    (h₁ h₂ : History G W) (e : Event (gatewaySystem G W)) (hsplit : p.hist = h₁ ++ e :: h₂)
    (approvalId : Str) (a : Approval) (hreads : Reads approvalId e a) :
    (∀ f ∈ h₂, ∀ b, Reads approvalId f b →
      SameRequest b a ∧ (b.status ≠ pendingStatus → a.status ≠ pendingStatus)) ∧
    ∀ f ∈ h₂, decidedKey f = some (approvalKey approvalId) → a.status ≠ pendingStatus := by
  obtain ⟨raw, hget, hread⟩ := hreads
  obtain ⟨o, a', hfound, hopened, hrecorded⟩ := reads_recorded hp hsplit hget
  obtain rfl := Except.ok.inj (hfound.symm.trans hread)
  have hok := (reachable_lawful hp).log
  have htold := (reachable_backed hp).told
  have hdecided := (reachable_settled hp).2
  have hbefore := (reachable_staysDecided hp).2
  rw [hsplit] at hok htold hdecided hbefore
  constructor
  · rintro f hf b ⟨raw', hget', hread'⟩
    refine ⟨?_, fun hb hpending => hb (hbefore.at approvalId _ ⟨raw, hget, hread⟩ hpending f hf b
      ⟨raw', hget', hread'⟩)⟩
    obtain ⟨h₃, h₄, rfl⟩ := List.append_of_mem hf
    have hsplit' : p.hist = (h₁ ++ e :: h₃) ++ f :: h₄ := by simp [hsplit]
    obtain ⟨o', b', hfound', hopened', hrecorded'⟩ := reads_recorded hp hsplit' hget'
    obtain rfl := Except.ok.inj (hfound'.symm.trans hread')
    have hlater : Opened (h₃ ++ f :: h₄) approvalId o' := by
      have hmono := hopened'.mono (h₃ ++ [f])
      rwa [List.append_assoc, List.singleton_append] at hmono
    obtain rfl := opened_unique (Log.of_append hok).2 (Log.of_append htold).2 hopened hlater
    exact hrecorded'.same.trans_left hrecorded.same
  · intro f hf hkey hpending
    exact hdecided.at _ _ _ hget hread hpending f hf hkey

/-- The value that was read last, and its key. -/
def readLast (p : GatewayPool G W) : Option (Str × Str) :=
  match p.hist with
  | ⟨_, _, ⟨.redisGet key, some (some raw)⟩⟩ :: _ => some (key, raw)
  | _ => none

theorem readLast_some {p : GatewayPool G W} {key raw : Str} (h : readLast p = some (key, raw)) :
    ∃ e h₂, p.hist = [] ++ e :: h₂ ∧ e.entry = ⟨.redisGet key, some (some raw)⟩ := by
  unfold readLast at h
  split at h
  · rename_i t r key' raw' h₂ hh
    simp only [Option.some.injEq, Prod.mk.injEq] at h
    obtain ⟨rfl, rfl⟩ := h
    exact ⟨_, h₂, hh, rfl⟩
  · cases h

/-- An event before the last one has decided on the key. -/
def decidedBefore (p : GatewayPool G W) (key : Str) : Bool :=
  p.hist.tail.any fun f => decidedKey f = some key

theorem approved_restart_stays_decided : ∃ (p : DemoPool) (a : Approval)
    (e : Event (gatewaySystem demoConfig openWorld)), e ∈ p.hist ∧ Reads (Uuid.text 1) e a ∧
      a.status ≠ pendingStatus := by
  have hrun : (demoPolled.bind fun p => (readLast p).map fun x =>
      (decide (x.1 = approvalKey (Uuid.text 1)), decidedBefore p x.1)) = some (true, true) := by
    decide +kernel
  obtain ⟨p, hp, hlast⟩ := Option.bind_eq_some_iff.mp hrun
  obtain ⟨⟨key, raw⟩, hread, hpair⟩ := Option.map_eq_some_iff.mp hlast
  obtain ⟨hkey, hbefore⟩ := Prod.mk.inj hpair
  obtain rfl := of_decide_eq_true hkey
  obtain ⟨e, h₂, hsplit, hget⟩ := readLast_some hread
  obtain ⟨o, a, hok, -, -⟩ := reads_recorded (reachable_demo hp) hsplit hget
  have hreads : Reads (Uuid.text 1) e a := ⟨raw, hget, hok⟩
  have hdecided : ∃ f ∈ h₂, decidedKey f = some (approvalKey (Uuid.text 1)) := by
    simpa [decidedBefore, hsplit] using hbefore
  obtain ⟨f, hf, hkey⟩ := hdecided
  refine ⟨p, a, e, ?_, hreads, ?_⟩
  · rw [hsplit]
    exact List.mem_cons_self
  · exact (approvals_stay_decided p (reachable_demo hp) [] h₂ e hsplit (Uuid.text 1) a hreads).2
      f hf hkey

end ApprovalRecords
