import McpControlPlane.Mediation

/-! # Decisions that race

A decision is a read, a check and a write. What another decision, the audit row of the opening
request or a signature for another approval may do in between is a condition on the run. -/
namespace ApprovalRaces

open PyText Binary64 JsonText JsonDict PyJson UuidTime AuditLog ToolPolicy PolicyDecision
open GatewayOps ApprovalStore SlackSignature Gateway GatewaySpecs Mediation Interleaving

variable {G : Config} {W : World}

/-! ## What a step does to the store and to the log -/

def StoreAfter (s s' : GwState) (e : Entry gateway) : Prop :=
  (s'.store = s.store ∧ ∀ key value ttl, e ≠ ⟨.redisSet key value ttl, some ()⟩) ∨
    ∃ key value ttl, e.op = .redisSet key value ttl ∧ s'.store = s.store.set key value ttl

def RowsAfter (s s' : GwState) (t : ℕ) (e : Entry gateway) : Prop :=
  (s'.rows = s.rows ∧ ∀ event, e ≠ ⟨.recordToolCall event, some ()⟩) ∨
    ∃ event, e.op = .recordToolCall event ∧ s'.rows = ⟨t, event⟩ :: s.rows

inductive Moved (p : GatewayPool G W) (m : Move (gatewaySystem G W)) (p' : GatewayPool G W) : Prop
  | outside (hhist : p'.hist = p.hist) (hrows : p'.shared.rows = p.shared.rows)
      (hstore : ∀ key raw, p'.shared.store.get key = some raw → p.shared.store.get key = some raw)
  | did (t : ℕ) (r : GwReq) (e : Entry gateway) (k : gateway.Res e.op → Prog gateway Response)
      (ht : p.thread t = some (r, .call e.op k)) (hhist : p'.hist = ⟨t, r, e⟩ :: p.hist)
      (hmove : (∃ c, m = .answer t c ∧ e.res ≠ none) ∨ ∃ c, m = .fail t c ∧ e.res = none)
      (hget : ∀ key x, e = ⟨.redisGet key, some x⟩ → x = p.shared.store.get key)
      (hstore : StoreAfter p.shared p'.shared e) (hrows : RowsAfter p.shared p'.shared t e)

theorem moved_of_step {p p' : GatewayPool G W} {m : Move (gatewaySystem G W)} (hm : Step p m p') :
    Moved p m p' := by
  cases hm with
  | arrive t r ht => exact .outside rfl rfl fun _ _ h => h
  | drift dt s hs =>
    simp only [Option.ite_none_right_eq_some, Option.some.injEq] at hs
    obtain ⟨-, rfl⟩ := hs
    exact .outside rfl rfl fun _ _ h => get_tick h
  | answer t c r o k x s ht hs =>
    have hans := answered_of_gwAnswer hs
    have hmove : (∃ c', Move.answer (Y := gatewaySystem G W) t c = .answer t c' ∧ some x ≠ none) ∨
        ∃ c', Move.answer (Y := gatewaySystem G W) t c = .fail t c' ∧ some x = none :=
      Or.inl ⟨c, rfl, nofun⟩
    have hquiet : ∀ s' : GwState, s'.store = p.shared.store → s'.rows = p.shared.rows →
        (∀ key value ttl, o ≠ .redisSet key value ttl) → (∀ event, o ≠ .recordToolCall event) →
        StoreAfter p.shared s' ⟨o, some x⟩ ∧ RowsAfter p.shared s' t ⟨o, some x⟩ := by
      intro s' hstore hrows hset hrecord
      exact ⟨Or.inl ⟨hstore, fun _ _ _ heq => hset _ _ _ (congrArg Entry.op heq)⟩,
        Or.inl ⟨hrows, fun _ heq => hrecord _ (congrArg Entry.op heq)⟩⟩
    have hother : (∀ key, o ≠ .redisGet key) → ∀ key (y : Option Str),
        (⟨o, some x⟩ : Entry gateway) = ⟨.redisGet key, some y⟩ → y = p.shared.store.get key :=
      fun hne key y heq => absurd (congrArg Entry.op heq) (hne key)
    cases o with
    | redisSet key value ttl =>
      have hs' : s = { p.shared with store := p.shared.store.set key value ttl } := hans
      subst hs'
      exact .did t r ⟨_, some x⟩ k ht rfl hmove (hother nofun) (Or.inr ⟨key, value, ttl, rfl, rfl⟩)
        (Or.inl ⟨rfl, nofun⟩)
    | recordToolCall event =>
      obtain ⟨-, rfl⟩ := hans
      exact .did t r ⟨_, some x⟩ k ht rfl hmove (hother nofun) (Or.inl ⟨rfl, nofun⟩)
        (Or.inr ⟨event, rfl, rfl⟩)
    | redisGet key =>
      obtain ⟨hx, rfl⟩ := hans
      obtain ⟨hstore, hrows⟩ := hquiet p.shared rfl rfl nofun nofun
      refine .did t r ⟨_, some x⟩ k ht rfl hmove ?_ hstore hrows
      intro key' y heq
      simp only [Entry.mk.injEq, GwOp.redisGet.injEq] at heq
      obtain ⟨rfl, hres⟩ := heq
      rw [← Option.some.inj (eq_of_heq hres)]
      exact hx
    | uuid4 =>
      obtain ⟨-, rfl⟩ := hans
      obtain ⟨hstore, hrows⟩ := hquiet { p.shared with issued := x :: p.shared.issued } rfl
        rfl nofun nofun
      exact .did t r ⟨_, some x⟩ k ht rfl hmove (hother nofun) hstore hrows
    | postOpa i =>
      obtain ⟨-, rfl⟩ := hans
      obtain ⟨hstore, hrows⟩ := hquiet p.shared rfl rfl nofun nofun
      exact .did t r ⟨_, some x⟩ k ht rfl hmove (hother nofun) hstore hrows
    | _ =>
      have hs' : s = p.shared := hans
      subst hs'
      obtain ⟨hstore, hrows⟩ := hquiet p.shared rfl rfl nofun nofun
      exact .did t r ⟨_, some x⟩ k ht rfl hmove (hother nofun) hstore hrows
  | fail t c r o k e s ht he hs =>
    have hmove : (∃ c', Move.fail (Y := gatewaySystem G W) t c = .answer t c' ∧
        (none : Option (gateway.Res o)) ≠ none) ∨
        ∃ c', Move.fail (Y := gatewaySystem G W) t c = .fail t c' ∧
          (none : Option (gateway.Res o)) = none := Or.inr ⟨c, rfl, rfl⟩
    have hentry : ∀ {o' : GwOp} {y : gateway.Res o'}, (⟨o, none⟩ : Entry gateway) ≠ ⟨o', some y⟩ := by
      intro o' y heq
      obtain ⟨rfl, hres⟩ := Entry.mk.inj heq
      cases eq_of_heq hres
    have hget : ∀ key (y : Option Str), (⟨o, none⟩ : Entry gateway) = ⟨.redisGet key, some y⟩ →
        y = p.shared.store.get key := fun key y heq => absurd heq hentry
    rcases failed_of_gwFailure hs with ⟨rfl, -⟩ | ⟨key, value, ttl, rfl, -, rfl⟩ |
        ⟨event, rfl, -, -, rfl⟩
    · exact .did t r ⟨o, none⟩ k ht rfl hmove hget (Or.inl ⟨rfl, fun _ _ _ => hentry⟩)
        (Or.inl ⟨rfl, fun _ => hentry⟩)
    · exact .did t r ⟨_, none⟩ k ht rfl hmove hget (Or.inr ⟨key, value, ttl, rfl, rfl⟩)
        (Or.inl ⟨rfl, fun _ => hentry⟩)
    · exact .did t r ⟨_, none⟩ k ht rfl hmove hget (Or.inl ⟨rfl, fun _ _ _ => hentry⟩)
        (Or.inr ⟨event, rfl, rfl⟩)

/-! ## The record that a decision is about to read -/

/-- A decide request, about to be answered with a pending record. -/
def reading (p : GatewayPool G W) : Move (gatewaySystem G W) → Option (GwReq × Approval)
  | .answer t _ =>
    match p.thread t with
    | some (.decide approvalId timestamp signature body, .call (.redisGet key) _) =>
      match p.shared.store.get key with
      | none => none
      | some raw =>
        match readApproval raw with
        | .error _ => none
        | .ok a => if a.status = pendingStatus then
            some (.decide approvalId timestamp signature body, a) else none
    | _ => none
  | _ => none

theorem reading_eq {p : GatewayPool G W} {t : ℕ} {c : GwOracle} {approvalId : Str}
    {timestamp signature : Option Str} {body : Bytes} {key raw : Str} {a : Approval}
    {k : Option Str → Prog gateway Response}
    (ht : p.thread t = some (.decide approvalId timestamp signature body, .call (.redisGet key) k))
    (hstore : p.shared.store.get key = some raw) (hread : readApproval raw = .ok a)
    (hpending : a.status = pendingStatus) :
    reading p (.answer t c) = some (.decide approvalId timestamp signature body, a) := by
  simp only [reading, ht, hstore, hread, hpending, if_true]

/-- A fact about the state when a decide request read a pending record. -/
def ReadWhen (P : GwReq → Approval → Prop) (p : GatewayPool G W) : Prop :=
  ∀ e ∈ p.hist, ∀ key raw a, e.entry = ⟨.redisGet key, some (some raw)⟩ →
    readApproval raw = .ok a → a.status = pendingStatus →
    (∃ approvalId timestamp signature body, e.req = .decide approvalId timestamp signature body) →
    P e.req a

theorem readWhen_step {P P' : GwReq → Approval → Prop} {p p' : GatewayPool G W}
    {m : Move (gatewaySystem G W)} (h : ReadWhen P p) (hm : Step p m p')
    (hkeep : ∀ r a, P r a → P' r a) (hnew : ∀ x ∈ reading p m, P' x.1 x.2) : ReadWhen P' p' := by
  intro e he key raw a hentry hread hpending hdecide
  cases moved_of_step hm with
  | outside hhist hrows hstore =>
    rw [hhist] at he
    exact hkeep _ _ (h e he key raw a hentry hread hpending hdecide)
  | did t r e' k ht hhist hmove hget hstore hrows =>
    rw [hhist] at he
    rcases List.mem_cons.mp he with rfl | he
    · obtain ⟨approvalId, timestamp, signature, body, rfl⟩ := hdecide
      obtain ⟨o, x⟩ := e'
      obtain ⟨rfl, hres⟩ := Entry.mk.inj hentry
      obtain rfl := eq_of_heq hres
      rcases hmove with ⟨c, rfl, -⟩ | ⟨c, -, hnone⟩
      · exact hnew _ (reading_eq ht (hget key _ rfl).symm hread hpending)
      · cases hnone
    · exact hkeep _ _ (h e he key raw a hentry hread hpending hdecide)

/-- The read of a ruling is in the history. -/
theorem ReadWhen.ruling {P : GwReq → Approval → Prop} {p : GatewayPool G W} (h : ReadWhen P p)
    (hp : Lawful p) {t : ℕ} {approvalId : Str} {timestamp signature : Option Str} {body : Bytes}
    {q : Prog gateway Response}
    (ht : p.thread t = some (.decide approvalId timestamp signature body, q))
    {R : Ruling G approvalId timestamp signature body} (htr : R.before <:+ own t p.hist) :
    P (.decide approvalId timestamp signature body) R.approval := by
  have hmem : (⟨.redisGet (approvalKey approvalId), some (some R.raw)⟩ : Entry gateway) ∈
      own t p.hist := htr.subset (by simp [Ruling.before, checkedTrace, readTrace])
  obtain ⟨v, hv, rfl, hentry⟩ := mem_own.mp hmem
  obtain ⟨q', hq'⟩ := hp.owner v hv
  rw [ht] at hq'
  have hreq : GwReq.decide approvalId timestamp signature body = v.req :=
    (Prod.mk.inj (Option.some.inj hq')).1
  rw [hreq]
  exact h v hv _ _ _ hentry R.read R.pending ⟨approvalId, timestamp, signature, body, hreq.symm⟩

/-! ## The order of the approval's history -/

/-- A row of the opening of the approval. -/
def pendingRow (rows : List LogRow) (approvalId : Str) : Bool :=
  rows.any fun row => row.event.approvalId = some approvalId && row.event.decision = pendingLabel

/-- Every other row of an approval comes after one of its opening; the latest row is first. -/
def InOrder : List LogRow → Prop
  | [] => True
  | row :: rows => (∀ approvalId, row.event.approvalId = some approvalId →
      row.event.decision ≠ pendingLabel → pendingRow rows approvalId = true) ∧ InOrder rows

/-- A pending record that a decision reads has its row in the log already. -/
def OpenedFirst (p : GatewayPool G W) (m : Move (gatewaySystem G W)) : Prop :=
  ∀ x ∈ reading p m, pendingRow p.shared.rows x.2.id = true

instance (p : GatewayPool G W) (m : Move (gatewaySystem G W)) : Decidable (OpenedFirst p m) :=
  inferInstanceAs (Decidable (∀ x ∈ reading p m, pendingRow p.shared.rows x.2.id = true))

theorem pendingRow_cons {rows : List LogRow} {approvalId : Str} (row : LogRow)
    (h : pendingRow rows approvalId = true) : pendingRow (row :: rows) approvalId = true := by
  rw [pendingRow, List.any_cons, Bool.or_eq_true]
  exact Or.inr h

theorem pendingRow_step {p p' : GatewayPool G W} {m : Move (gatewaySystem G W)} (hm : Step p m p')
    {approvalId : Str} (h : pendingRow p.shared.rows approvalId = true) :
    pendingRow p'.shared.rows approvalId = true := by
  cases moved_of_step hm with
  | outside hhist hrows hstore => exact hrows ▸ h
  | did t r e k ht hhist hmove hget hstore hrows =>
    rcases hrows with ⟨hrows, -⟩ | ⟨event, -, hrows⟩
    · exact hrows ▸ h
    · rw [hrows]
      exact pendingRow_cons _ h

theorem inOrder_step {p p' : GatewayPool G W} {m : Move (gatewaySystem G W)} (hp : Lawful p)
    (h : InOrder p.shared.rows)
    (hread : ReadWhen (fun _ a => pendingRow p.shared.rows a.id = true) p) (hm : Step p m p') :
    InOrder p'.shared.rows := by
  cases moved_of_step hm with
  | outside hhist hrows hstore => exact hrows ▸ h
  | did t r e k ht hhist hmove hget hstore hrows =>
    rcases hrows with ⟨hrows, -⟩ | ⟨event, hop, hrows⟩
    · exact hrows ▸ h
    · rw [hrows]
      refine ⟨fun approvalId hid hlabel => ?_, h⟩
      have hok := (hp.sat t r _ ht).1
      rw [hop] at hok
      cases r with
      | mcp agent body => exact absurd (hok.1 (by rw [hid]; rfl)) hlabel
      | decide approvalId' timestamp signature body =>
        obtain ⟨⟨R, hsuffix, hR⟩, -⟩ := hok
        have hsame : R.approval.id = approvalId := Option.some.inj (hR.symm.trans hid)
        rw [← hsame]
        exact hread.ruling hp ht ((List.suffix_cons _ _).trans hsuffix)
      | status approvalId' =>
        obtain ⟨key, hk⟩ := hok
        cases hk

/-- As long as no decision reads a record whose opening is not in the audit log yet, the history
of every approval is in order. -/
theorem history_in_order (p : GatewayPool G W) (hp : Reachable OpenedFirst p) :
    InOrder p.shared.rows := by
  have hboth : InOrder p.shared.rows ∧
      ReadWhen (fun _ a => pendingRow p.shared.rows a.id = true) p := by
    induction hp with
    | start s hs =>
      obtain ⟨clock, rfl⟩ := hs
      exact ⟨trivial, fun e he => absurd he List.not_mem_nil⟩
    | step hp hc hm ih =>
      refine ⟨inOrder_step (reachable_lawful hp) ih.1 ih.2 hm, ?_⟩
      exact readWhen_step ih.2 hm (fun _ _ h => pendingRow_step hm h)
        fun x hx => pendingRow_step hm (hc x hx)
  exact hboth.1

def demoRows (p : DemoPool) : List (Option Str × Str) :=
  p.shared.rows.map fun row => (row.event.approvalId, row.event.decision)

def demoRecord (t : ℕ) : List DemoMove :=
  [.answer t (.duration 5), .answer t (.now zeroMagnitude), .answer t .plain]

/-- A restart that is approved after it was recorded as pending. -/
theorem approved_history_in_order : ∃ p : DemoPool,
    demoRows p = [(some (Uuid.text 1), lit "allowed"), (some (Uuid.text 1), pendingLabel)] ∧
      InOrder p.shared.rows := by
  have hrun : (runMoves OpenedFirst (Pool.empty (Y := gatewaySystem demoConfig openWorld)
      (GwState.initial 0)) (demoOpen 0 1 ++ demoHeld 0 ++
      demoRead 1 (Uuid.text 1) approveBody ++ demoRun 1 ++ demoRecord 1)).map demoRows =
      some [(some (Uuid.text 1), lit "allowed"), (some (Uuid.text 1), pendingLabel)] := by
    decide +kernel
  obtain ⟨p, hp, hrows⟩ := Option.map_eq_some_iff.mp hrun
  exact ⟨p, hrows, history_in_order p (reachable_of_runMoves (.start _ ⟨0, rfl⟩) hp)⟩

/-- The approval is decided, executed and recorded before its opening is recorded. -/
theorem decision_before_opening : ∃ p : DemoPool, Reachable (fun _ _ => True) p ∧
    ¬ InOrder p.shared.rows := by
  have hrun : (demo (demoOpen 0 1 ++ demoRead 1 (Uuid.text 1) approveBody ++ demoRun 1 ++
      demoRecord 1)).map demoRows = some [(some (Uuid.text 1), lit "allowed")] := by decide +kernel
  obtain ⟨p, hp, hrows⟩ := Option.map_eq_some_iff.mp hrun
  refine ⟨p, reachable_demo hp, fun hin => ?_⟩
  obtain ⟨row, hrow, hfields⟩ := List.map_eq_singleton_iff.mp hrows
  obtain ⟨hid, hdecision⟩ := Prod.mk.inj hfields
  rw [hrow] at hin
  have hpending := hin.1 _ hid (by rw [hdecision]; decide)
  cases hpending

end ApprovalRaces
