import McpControlPlane.AuditChain
import McpControlPlane.AuditedRuns
import McpControlPlane.Expansion

/-! # The gateway on the audit chain

For the gateway `record_tool_call` is one operation that appends a row. It runs as the statements
of a transaction, between those of the other writers; the gateway over the statements simulates
the one over the operation, and the rows it commits are the log, each chained on the one before. -/
namespace ChainedGateway

open PyText Binary64 PyJson UuidTime AuditLog ToolPolicy GatewayOps ApprovalStore SlackSignature
open PyInt Gateway GatewaySpecs AuditWriters AuditChain Mediation Interleaving

variable {G : Config} {W : World} {J : Jsonb} {sha256 : Digest}

/-! ## The gateway over SQL statements -/

def recordOp (J : Jsonb) (sha256 : Digest) : Expansion gateway (auditSystem J sha256)
  | .recordToolCall event => some (event, fun u => u)
  | _ => none

structure ChainState (J : Jsonb) where
  store : KeyStore
  issued : List Uuid
  db : DbState J

inductive ChainOracle where
  | gateway (c : GwOracle)
  | db (c : DbOracle)

/-- What the operations of the gateway see; its log is in the database. -/
def ChainState.outer (s : ChainState J) : GwState := ⟨s.store, [], s.issued⟩

def ChainState.withOuter (s : ChainState J) (g : GwState) : ChainState J :=
  { s with store := g.store, issued := g.issued }

def chainAnswer (W : World) (s : ChainState J) (t : ℕ) :
    (o : GwOp ⊕ DbOp) → ChainOracle → Option ((gateway.sum (db J)).Res o × ChainState J)
  | .inl o, .gateway c => (gwAnswer W s.outer t o c).map fun y => (y.1, s.withOuter y.2)
  | .inr o, .db c => (dbAnswer s.db t o c).map fun y => (y.1, { s with db := y.2 })
  | _, _ => none

def chainFailure (W : World) (s : ChainState J) (t : ℕ) :
    GwOp ⊕ DbOp → ChainOracle → Option (ChainState J)
  | .inl o, .gateway c => (gwFailure W s.outer t o c).map s.withOuter
  | .inr o, .db c => (dbFailure s.db t o c).map fun d => { s with db := d }
  | _, _ => none

def chainDrift (s : ChainState J) (dt : ℚ) : Option (ChainState J) :=
  if 0 ≤ dt then some { s with store := s.store.tick dt } else none

theorem chainDrift_some {s s' : ChainState J} {dt : ℚ} (h : chainDrift s dt = some s') :
    0 ≤ dt ∧ s' = { s with store := s.store.tick dt } := by
  simp only [chainDrift, Option.ite_none_right_eq_some, Option.some.injEq] at h
  exact ⟨h.1, h.2.symm⟩

def chainedGateway (G : Config) (W : World) (J : Jsonb) (sha256 : Digest) :
    Implementation (gatewaySystem G W) (auditSystem J sha256) where
  expansion := recordOp J sha256
  State := ChainState J
  Oracle := ChainOracle
  Drift := ℚ
  start s := ∃ clock, s = ⟨.empty clock, [], .initial⟩
  answer := chainAnswer W
  failure := chainFailure W
  drift := chainDrift

abbrev ChainedSystem (G : Config) (W : World) (J : Jsonb) (sha256 : Digest) :=
  (chainedGateway G W J sha256).system

abbrev ChainedPool (G : Config) (W : World) (J : Jsonb) (sha256 : Digest) :=
  Pool (ChainedSystem G W J sha256)

/-! ## The log and the table -/

/-- The INSERT of the row, hashed over the row `last`, is the one of the event. -/
def ChainsOn (sha256 : Digest) (event : AuditEvent) (last : Option (Row J)) (row : Row J) : Prop :=
  ∃ u x i, InsertOn sha256 event last u x i ∧ i.row J row.seq = some row

/-- The table is the log: row by row the same writer and event, each row chained on the next. -/
def RowsOf (sha256 : Digest) : List LogRow → List (Written J) → Prop
  | [], [] => True
  | l :: ls, w :: ws =>
    (l.writer = w.writer ∧ ChainsOn sha256 l.event (before ws) w.row) ∧ RowsOf sha256 ls ws
  | _, _ => False

structure Related (sha256 : Digest) (s : ChainState J) (g : GwState) : Prop where
  store : g.store = s.store
  issued : g.issued = s.issued
  rows : RowsOf sha256 g.rows s.db.rows

/-- An event of which the database takes a row is one that the gateway takes for insertable. -/
def Admits (W : World) (J : Jsonb) (sha256 : Digest) : Prop :=
  ∀ (event : AuditEvent) (last : Option (Row J)) (row : Row J), ChainsOn sha256 event last row →
    W.insertable event = true

theorem rowsOf_mem {ls : List LogRow} {ws : List (Written J)} (h : RowsOf sha256 ls ws)
    {l : LogRow} (hl : l ∈ ls) : ∃ ws₁ w ws₂, ws = ws₁ ++ w :: ws₂ ∧ w.writer = l.writer ∧
      ChainsOn sha256 l.event (before ws₂) w.row := by
  induction ls generalizing ws with
  | nil => cases hl
  | cons l' ls ih =>
    cases ws with
    | nil => cases h
    | cons w ws =>
      obtain ⟨⟨hwriter, hchains⟩, hrest⟩ := h
      rcases List.mem_cons.mp hl with rfl | hl
      · exact ⟨[], w, ws, rfl, hwriter.symm, hchains⟩
      · obtain ⟨ws₁, v, ws₂, rfl, hv⟩ := ih hrest hl
        exact ⟨w :: ws₁, v, ws₂, rfl, hv⟩

/-! ## One record for each request -/

section Uses

abbrev Records (J : Jsonb) (sha256 : Digest) {α : Type} (n : Bool) (q : Prog gateway α) : Prop :=
  Uses (recordOp J sha256) n q

theorem records_record (call : Call) (decision : Str) (reason : Option Str) (result : Option Json)
    (approvalId : Option Str) :
    Records J sha256 true (record call decision reason result approvalId) := by
  refine uses_perform rfl fun ms => uses_perform rfl fun now => .enter _ _ ?_ fun _ => .ret _ _
  intro hnone
  cases hnone

theorem records_final {q : Prog gateway Response} (hq : Final q) (last : Bool) :
    Records J sha256 last q := by
  rcases hq with ⟨resp, rfl⟩ | ⟨e, rfl⟩
  · exact .ret _ _
  · exact .raise _ _

theorem records_createPendingApproval (tooDeep : Json → Bool) (agentId role toolName : Str)
    (arguments : List (Str × Json)) (reason : Str) : Records J sha256 false
      (createPendingApproval tooDeep agentId role toolName arguments reason) := by
  refine uses_perform rfl fun _ => uses_perform rfl fun _ => ?_
  simp only
  split_ifs
  · exact .raise _ _
  · exact uses_perform rfl fun _ => .ret _ _

theorem records_getApproval (approvalId : Str) :
    Records J sha256 false (getApproval approvalId) := by
  refine uses_perform rfl fun raw => ?_
  cases raw with
  | none => exact .ret _ _
  | some raw =>
    cases hread : readApproval raw with
    | error e =>
      simp only [hread]
      exact .raise _ _
    | ok a =>
      simp only [hread]
      exact .ret _ _

theorem records_evaluatePolicy (ctx : ToolCallContext) :
    Records J sha256 false (Gateway.evaluatePolicy ctx) := by
  unfold Gateway.evaluatePolicy
  cases ctx.toOpaInput with
  | none => exact .raise _ _
  | some i =>
    simp only
    split_ifs
    · refine uses_perform rfl fun reply => ?_
      cases PolicyDecision.readReply ctx.toolName reply with
      | none => exact .raise _ _
      | some decision => exact .ret _ _
    · exact .ret _ _

theorem records_executeDirectly (rpcId : Json) (ctx : ToolCallContext)
    (decision : PolicyDecision.Decision) :
    Records J sha256 true (executeDirectly G rpcId ctx decision) := by
  refine uses_perform rfl fun outcome => ?_
  cases outcome with
  | executorError errorType message =>
    cases hstatus : errorTypeStatus errorType with
    | none =>
      simp only [hstatus]
      exact .raise _ _
    | some status =>
      simp only [hstatus]
      exact (records_record _ _ _ _ _).bind_last fun _ => .ret _ _
  | unhandledError message => exact (records_record _ _ _ _ _).bind_last fun _ => .ret _ _
  | success result =>
    exact (records_record _ _ _ _ _).bind_last fun _ => records_final (final_returned G _) _

theorem records_judge (rpcId : Json) (ctx : ToolCallContext) :
    Records J sha256 true (judge G rpcId ctx) := by
  refine (records_evaluatePolicy ctx).bind_first fun decision => ?_
  by_cases hheld : decision.requireApproval = true
  · rw [if_pos hheld]
    refine (records_createPendingApproval _ _ _ _ _ _).bind_first fun approval => ?_
    exact uses_perform rfl fun _ => (records_record _ _ _ _ _).bind_last fun _ => .ret _ _
  · rw [if_neg hheld]
    by_cases hallow : decision.allow = true
    · rw [if_pos hallow]
      exact records_executeDirectly rpcId ctx decision
    · rw [if_neg hallow]
      exact (records_record _ _ _ _ _).bind_last fun _ => .ret _ _

theorem records_mcp (agent : Agent) (body : Str) : Records J sha256 true (mcp G agent body) := by
  rcases mcp_cases G agent body with ⟨resp, h⟩ | ⟨e, h⟩ | ⟨rpcId, ctx, h⟩
  · rw [h]
    exact .ret _ _
  · rw [h]
    exact .raise _ _
  · rw [h]
    exact records_judge rpcId ctx

theorem records_verifySignature (S : Slack) (timestamp : Option Str) (body : Bytes)
    (signature : Option Str) :
    Records J sha256 false (verifySignature S timestamp body signature) := by
  unfold verifySignature
  cases S.mac with
  | none => exact .ret _ _
  | some mac =>
    simp only
    split_ifs
    · exact .ret _ _
    · cases readInt (timestamp.getD []) with
      | none => exact .ret _ _
      | some requestTs =>
        refine uses_perform rfl fun now => ?_
        cases stale now requestTs with
        | none => exact .raise _ _
        | some late =>
          cases late with
          | true => exact .ret _ _
          | false =>
            simp only
            split
            · exact .raise _ _
            · exact .ret _ _

theorem records_storeDecide (approvalId decision decidedBy : Str) :
    Records J sha256 false (ApprovalStore.decideApproval approvalId decision decidedBy) := by
  refine (records_getApproval approvalId).bind_first fun found => ?_
  cases found with
  | none => exact .ret _ _
  | some a =>
    simp only
    split_ifs
    · exact .ret _ _
    · refine uses_perform rfl fun now => ?_
      split_ifs
      · exact .ret _ _
      · exact uses_perform rfl fun _ => uses_perform rfl fun _ => .ret _ _

theorem records_answerDecision (payload : DecisionRequest)
    (result : Option Approval × DecideOutcome) :
    Records J sha256 true (answerDecision payload result) := by
  have hpush : ∀ (a : Approval) (decision : Str) (reason : Option Str) (result : Option Json)
      (agentId : Str) (event : Json) (resp : Response), Records J sha256 true
        (record (approvalCall a) decision reason result (some a.id) >>= fun _ =>
          perform (S := gateway) (.publish agentId event) >>= fun _ => .ret resp) :=
    fun _ _ _ _ _ _ _ => (records_record _ _ _ _ _).bind_last fun _ =>
      uses_perform rfl fun _ => .ret _ _
  obtain ⟨found, outcome⟩ := result
  cases found with
  | none =>
    cases outcome with
    | notFound => exact .ret _ _
    | _ => exact .raise _ _
  | some a =>
    cases outcome with
    | notFound => exact .ret _ _
    | alreadyDecided => exact .ret _ _
    | decided =>
      change Records J sha256 _ (if a.status = lit "denied" then _ else _)
      by_cases hdenied : a.status = lit "denied"
      · rw [if_pos hdenied]
        exact hpush _ _ _ _ _ _ _
      · rw [if_neg hdenied]
        refine uses_perform rfl fun outcome => ?_
        cases outcome with
        | success result => exact hpush _ _ _ _ _ _ _
        | executorError errorType message => exact hpush _ _ _ _ _ _ _
        | unhandledError message => exact hpush _ _ _ _ _ _ _

theorem records_handle (req : GwReq) : Records J sha256 true (handle G req) := by
  cases req with
  | mcp agent body => exact records_mcp agent body
  | decide approvalId timestamp signature body =>
    refine (records_verifySignature _ _ _ _).bind_first fun valid => ?_
    by_cases hvalid : valid = true
    · rw [if_neg (not_not_intro hvalid)]
      cases G.validate body with
      | error exc => exact .ret _ _
      | ok payload =>
        simp only
        split_ifs
        · exact .ret _ _
        · exact (records_storeDecide _ _ _).bind_first fun result =>
            records_answerDecision payload result
    · rw [if_pos hvalid]
      exact .ret _ _
  | status approvalId =>
    refine (records_getApproval approvalId).true.bind_last fun found => ?_
    cases found with
    | none => exact .ret _ _
    | some a => exact records_final (final_returnApproval G a) _

end Uses

/-! ## The operations that are kept -/

/-- The operation does not look at the log. -/
theorem gwAnswer_rows {o : GwOp} (ho : recordOp J sha256 o = none) (W : World) (s : GwState) (t : ℕ)
    (c : GwOracle) {x : gateway.Res o} {g : GwState}
    (h : gwAnswer W { s with rows := [] } t o c = some (x, g)) :
    gwAnswer W s t o c = some (x, { g with rows := s.rows }) := by
  cases o with
  | recordToolCall event => cases ho
  | uuid4 =>
    cases c with
    | uuid u =>
      simp only [gwAnswer, Option.ite_none_left_eq_some, Option.some.injEq, Prod.mk.injEq] at h ⊢
      obtain ⟨hnew, rfl, rfl⟩ := h
      exact ⟨hnew, rfl, rfl⟩
    | _ => cases h
  | postOpa i =>
    cases c with
    | package others =>
      simp only [gwAnswer, Option.some.injEq, Prod.mk.injEq] at h ⊢
      obtain ⟨hx, rfl⟩ := h
      exact ⟨hx, rfl⟩
    | opaError status =>
      cases status with
      | none =>
        simp only [gwAnswer, Option.some.injEq, Prod.mk.injEq] at h ⊢
        obtain ⟨hx, rfl⟩ := h
        exact ⟨hx, rfl⟩
      | some status =>
        simp only [gwAnswer, Option.ite_none_left_eq_some, Option.some.injEq, Prod.mk.injEq] at h ⊢
        obtain ⟨herror, hx, rfl⟩ := h
        exact ⟨herror, hx, rfl⟩
    | _ => cases h
  | _ =>
    cases c <;> simp only [gwAnswer, Option.some.injEq, Prod.mk.injEq, reduceCtorEq] at h ⊢
    all_goals
      obtain ⟨hx, rfl⟩ := h
      exact ⟨hx, rfl⟩

theorem gwFailure_rows {o : GwOp} (ho : recordOp J sha256 o = none) (W : World) (s : GwState) (t : ℕ)
    (c : GwOracle) {g : GwState} (h : gwFailure W { s with rows := [] } t o c = some g) :
    gwFailure W s t o c = some { g with rows := s.rows } := by
  cases o with
  | recordToolCall event => cases ho
  | redisGet key =>
    cases c <;> cases h
    rfl
  | redisSet key value ttl =>
    cases c with
    | lost applied =>
      obtain rfl := Option.some.inj h
      cases applied <;> rfl
    | _ => cases h
  | _ => cases h

theorem outer_eq {s : ChainState J} {g : GwState} (h : Related sha256 s g) :
    { g with rows := [] } = s.outer := by
  obtain ⟨store, rows, issued⟩ := g
  obtain ⟨rfl, rfl, -⟩ := h
  rfl

/-! ## The end of a record -/

/-- An exception of a record is not raised after its COMMIT was answered. -/
def Undone : Except DbError Unit → Trace (db J) → Prop
  | .ok _, _ => True
  | .error _, tr => ∀ before, tr ≠ ⟨.commit, some ()⟩ :: before

theorem undone_of_ne {e : DbError} {o : Entry (db J)} {tr : Trace (db J)}
    (ho : o ≠ ⟨.commit, some ()⟩) : Undone (.error e) (o :: tr) :=
  fun _ heq => ho (List.cons.inj heq).1

theorem recordToolCall_undone (event : AuditEvent) :
    Sat (fun _ _ => True) Undone (recordToolCall J sha256 event) [] := by
  refine sat_perform.mpr ⟨True.intro, fun u => ?_, fun e he => by cases he⟩
  cases hc : UuidTime.fromTimestamp event.timestamp with
  | none => exact undone_of_ne (by simp)
  | some createdAt =>
    refine sat_perform.mpr ⟨True.intro, fun x => ?_, fun e he => by cases he⟩
    refine sat_perform.mpr ⟨True.intro, fun _ => ?_, fun e _ => undone_of_ne (by simp)⟩
    refine sat_perform.mpr ⟨True.intro, fun _ => ?_, fun e _ => undone_of_ne (by simp)⟩
    refine sat_perform.mpr ⟨True.intro, fun last => ?_, fun e _ => undone_of_ne (by simp)⟩
    cases hh : eventHash sha256 event u createdAt (prevHashOf last) with
    | none =>
      exact sat_perform.mpr ⟨True.intro, fun _ => undone_of_ne (by simp), fun e he => by cases he⟩
    | some hash =>
      refine sat_perform.mpr ⟨True.intro, fun _ => ?_, fun e _ => undone_of_ne (by simp)⟩
      exact ⟨True.intro, fun _ => True.intro, fun e _ => undone_of_ne (by simp)⟩

theorem reachable_undone {C : AuditPool J sha256 → Move (auditSystem J sha256) → Prop}
    {q : AuditPool J sha256} (hq : Reachable C q) :
    Obeys (Y := auditSystem J sha256) (fun _ _ _ => True) (fun _ => Undone) q :=
  reachable_obeys recordToolCall_undone hq

/-- What a COMMIT of the request adds to the table. -/
theorem committed_rows {q : AuditPool J sha256} (hq : Reachable (fun _ _ => True) q) {t : ℕ}
    {event : AuditEvent} {k : Unit → Prog (db J) Unit}
    (ht : q.thread t = some (event, .call .commit k)) :
    ∃ row, (q.shared.committed t).rows = ⟨t, row⟩ :: q.shared.rows ∧
      ChainsOn sha256 event (before q.shared.rows) row := by
  have hinv := reachable_writersInv hq
  obtain ⟨u, x, last, i, hown, hinsert⟩ := ((reachable_writersObey hq).sat t event _ ht).1
  obtain ⟨row, hpending, hrow⟩ := hinv.pending t u x last i hown
  obtain rfl := hinv.read t u x last (Or.inr ⟨i, hown⟩)
  refine ⟨row, ?_, u, x, i, hinsert, hrow⟩
  simp [DbState.committed, DbState.visible, hpending]

/-! ## The gateway over statements is the gateway over the operation -/

theorem related_committed {s : ChainState J} {g : GwState} (h : Related sha256 s g) {t : ℕ}
    {event : AuditEvent} {d : DbState J} {row : Row J} (hrows : d.rows = ⟨t, row⟩ :: s.db.rows)
    (hchains : ChainsOn sha256 event (before s.db.rows) row) :
    Related sha256 { s with db := d } { g with rows := ⟨t, event⟩ :: g.rows } := by
  refine ⟨h.store, h.issued, ?_⟩
  change RowsOf sha256 _ d.rows
  rw [hrows]
  exact ⟨⟨rfl, hchains⟩, h.rows⟩

theorem related_same {s : ChainState J} {g : GwState} (h : Related sha256 s g) {d : DbState J}
    (hrows : d.rows = s.db.rows) : Related sha256 { s with db := d } g :=
  ⟨h.store, h.issued, hrows ▸ h.rows⟩

/-- A record that fails without a row. -/
theorem failure_unrecorded (W : World) (g : GwState) (t : ℕ) (event : AuditEvent) :
    ∃ c, gwFailure W g t (.recordToolCall event) c = some g := by
  by_cases hin : W.insertable event = true
  · exact ⟨.lost false, by simp [gwFailure, hin]⟩
  · exact ⟨.plain, by simp [gwFailure, hin]⟩

theorem recordOp_some {o : GwOp} {z : AuditEvent} {f : Unit → gateway.Res o}
    (h : recordOp J sha256 o = some (z, f)) : o = .recordToolCall z := by
  cases o with
  | recordToolCall event =>
    obtain rfl := (Prod.mk.inj (Option.some.inj h)).1
    rfl
  | _ => cases h

theorem chainedGateway_correct (hW : Admits W J sha256) :
    (chainedGateway G W J sha256).Correct ChainState.db (Related sha256) where
  once := records_handle
  calls event := ⟨.uuid4, _, rfl⟩
  start := by
    rintro s ⟨clock, rfl⟩
    exact ⟨rfl, GwState.initial clock, ⟨clock, rfl⟩, rfl, rfl, True.intro⟩
  drift := by
    intro s g dt s' hrelated hs
    obtain ⟨hdt, rfl⟩ := chainDrift_some hs
    refine ⟨rfl, dt, { g with store := g.store.tick dt }, ?_, ?_⟩
    · exact if_pos hdt
    · exact ⟨congrArg (KeyStore.tick · dt) hrelated.store, hrelated.issued, hrelated.rows⟩
  answer_kept := by
    intro s g t o c x s' ho hrelated hs
    cases c with
    | db c => cases hs
    | gateway c =>
      obtain ⟨⟨y, g'⟩, hanswer, heq⟩ := Option.map_eq_some_iff.mp hs
      obtain ⟨rfl, rfl⟩ := Prod.mk.inj heq
      rw [← outer_eq hrelated] at hanswer
      exact ⟨rfl, c, _, gwAnswer_rows ho W g t c hanswer, rfl, rfl, hrelated.rows⟩
  failure_kept := by
    intro s g t o c s' ho hrelated hs
    cases c with
    | db c => cases hs
    | gateway c =>
      obtain ⟨g', hfailure, rfl⟩ := Option.map_eq_some_iff.mp hs
      rw [← outer_eq hrelated] at hfailure
      exact ⟨rfl, c, _, gwFailure_rows ho W g t c hfailure, rfl, rfl, hrelated.rows⟩
  answer_inner := by
    intro q s g t o event f o' k c x s' hq hshared ht ho hrelated hs
    obtain rfl := recordOp_some ho
    obtain rfl : f = fun u => u := (Prod.mk.inj (Option.some.inj ho)).2.symm
    cases c with
    | gateway c => cases hs
    | db c =>
      obtain ⟨⟨y, d⟩, hanswer, heq⟩ := Option.map_eq_some_iff.mp hs
      obtain ⟨rfl, rfl⟩ := Prod.mk.inj heq
      refine ⟨⟨c, hanswer⟩, ?_⟩
      have hsat := (reachable_writersObey hq).sat t event _ ht
      have hnext := hsat.2.1 y
      have hundone := ((reachable_undone hq).sat t event _ ht).2.1 y
      rcases dbAnswer_rows hanswer with ⟨hne, hrows⟩ | ⟨rfl, rfl⟩
      · cases hk : k y with
        | call o'' k' => exact related_same hrelated hrows
        | ret u =>
          rw [hk] at hnext
          obtain ⟨u', x', last, i, hown, -⟩ := hnext
          exact absurd (congrArg Entry.op (List.cons.inj hown).1) hne
        | raise e =>
          obtain ⟨c', hc'⟩ := failure_unrecorded W g t event
          exact ⟨.audit, c', g, rfl, hc', related_same hrelated hrows⟩
      · obtain ⟨row, hrows, hchains⟩ := committed_rows hq ht
        rw [hshared] at hrows hchains
        cases hk : k y with
        | call o'' k' =>
          rw [hk] at hnext
          exact absurd hnext.1 not_ok_after_commit
        | ret u =>
          refine ⟨.plain, _, ?_, related_committed hrelated hrows hchains⟩
          exact if_pos (hW event _ row hchains)
        | raise e =>
          rw [hk] at hundone
          exact absurd rfl (hundone _)
  failure_inner := by
    intro q s g t o event f o' k c s' e hq hshared ht ho hrelated he hs
    obtain rfl := recordOp_some ho
    cases c with
    | gateway c => cases hs
    | db c =>
      obtain ⟨d, hfailure, rfl⟩ := Option.map_eq_some_iff.mp hs
      refine ⟨⟨c, hfailure⟩, ?_⟩
      rcases dbFailure_rows hfailure with ⟨-, hrows⟩ | ⟨rfl, rfl, rfl⟩
      · obtain ⟨c', hc'⟩ := failure_unrecorded W g t event
        exact ⟨.audit, c', g, rfl, hc', related_same hrelated hrows⟩
      · obtain ⟨row, hrows, hchains⟩ := committed_rows hq ht
        rw [hshared] at hrows hchains
        refine ⟨.audit, .lost true, _, rfl, ?_, related_committed hrelated hrows hchains⟩
        exact if_pos (hW event _ row hchains)

/-! ## Errors that are answered -/

/-- Every error that a request ran into has a status. -/
def Known (tr : Trace gateway) : Prop :=
  ∀ name arguments errorType message,
    (⟨.runTool name arguments, some (.executorError errorType message)⟩ : Entry gateway) ∈ tr →
      errorTypeStatus errorType ≠ none

def KnownAnswer (x : Except GwError Response) (tr : Trace gateway) : Prop :=
  ∀ resp, x = .ok resp → Known tr

section Known

variable {tr : Trace gateway}

theorem Known.cons (h : Known tr) {e : Entry gateway}
    (he : ∀ name arguments, e.op ≠ .runTool name arguments) : Known (e :: tr) := by
  intro name arguments errorType message hmem
  rcases List.mem_cons.mp hmem with heq | hmem
  · exact absurd (congrArg Entry.op heq).symm (he name arguments)
  · exact h name arguments errorType message hmem

theorem Known.ran (h : Known tr) {toolName : Str} {ran : List (Str × Json)} {outcome : Outcome}
    (houtcome : ∀ errorType message, outcome = .executorError errorType message →
      errorTypeStatus errorType ≠ none) : Known (ranTrace toolName ran outcome tr) := by
  intro name arguments errorType message hmem
  rcases List.mem_cons.mp hmem with heq | hmem
  · simp only [Entry.mk.injEq, GwOp.runTool.injEq] at heq
    obtain ⟨⟨rfl, rfl⟩, hres⟩ := heq
    exact houtcome errorType message (Option.some.inj (eq_of_heq hres)).symm
  · exact h name arguments errorType message hmem

theorem record_known (h : Known tr) {call : Call} {decision : Str} {reason : Option Str}
    {result : Option Json} {approvalId : Option Str} {q : Prog gateway Response} (hq : Final q) :
    Sat (fun _ _ => True) KnownAnswer
      (record call decision reason result approvalId >>= fun _ => q) tr := by
  refine sat_bind.mpr ?_
  apply record_sat
  · trivial
  · exact fun _ => trivial
  · exact fun _ _ => trivial
  · intro ms now
    refine hq.sat fun r resp' _ => ?_
    refine ((h.cons ?_).cons ?_).cons ?_
    all_goals
      intro name arguments he
      cases he
  · intro ms now resp' he
    cases he

theorem executeDirectly_known (h : Known tr) (rpcId : Json) (ctx : ToolCallContext)
    (decision : PolicyDecision.Decision) :
    Sat (fun _ _ => True) KnownAnswer (executeDirectly G rpcId ctx decision) tr := by
  refine sat_perform.mpr ⟨True.intro, fun outcome => ?_, fun e he => by cases he⟩
  cases outcome with
  | executorError errorType message =>
    cases hstatus : errorTypeStatus errorType with
    | none =>
      simp only [hstatus]
      intro resp he
      cases he
    | some status =>
      simp only [hstatus]
      apply record_known ?_ (final_ret _)
      apply h.ran
      intro errorType' message' heq
      obtain ⟨rfl, -⟩ := Outcome.executorError.inj heq
      rw [hstatus]
      exact Option.some_ne_none status
  | unhandledError message =>
    apply record_known ?_ (final_ret _)
    apply h.ran
    intro errorType' message' heq
    cases heq
  | success result =>
    apply record_known ?_ (final_returned G _)
    apply h.ran
    intro errorType' message' heq
    cases heq

theorem holdForApproval_known (h : Known tr) (rpcId : Json) (ctx : ToolCallContext)
    (decision : PolicyDecision.Decision) :
    Sat (fun _ _ => True) KnownAnswer (holdForApproval G rpcId ctx decision) tr := by
  refine sat_bind.mpr ?_
  apply createPendingApproval_sat
  · trivial
  · exact fun _ => trivial
  · intro _ now u resp he
    cases he
  · exact fun _ _ => trivial
  · intro _ now u
    refine sat_perform.mpr ⟨True.intro, fun _ => record_known ?_ (final_ret _), fun e he => by cases he⟩
    refine (((h.cons ?_).cons ?_).cons ?_).cons ?_
    all_goals
      intro name arguments he
      cases he
  · intro now u resp he
    cases he

theorem Known.asked (h : Known tr) {tr' : Trace gateway} (hasked : AskedAfter tr tr') :
    Known tr' := by
  rcases hasked with rfl | ⟨i, reply, rfl⟩
  · exact h
  · apply h.cons
    intro name arguments he
    cases he

theorem judge_known (h : Known tr) (rpcId : Json) (ctx : ToolCallContext) :
    Sat (fun _ _ => True) KnownAnswer (judge G rpcId ctx) tr := by
  apply judge_rule
  · exact fun _ => trivial
  · intro e tr' resp he
    cases he
  · exact fun decision _ hasked => holdForApproval_known (h.asked hasked) rpcId ctx decision
  · exact fun decision _ hasked => executeDirectly_known (h.asked hasked) rpcId ctx decision
  · exact fun _ _ hasked => record_known (h.asked hasked) (final_ret _)

theorem handle_known (req : GwReq) : Sat (fun _ _ => True)
    (fun x tr => (∃ agent body, req = .mcp agent body) → KnownAnswer x tr) (handle G req) [] := by
  have hnil : Known [] := fun _ _ _ _ hmem => absurd hmem List.not_mem_nil
  cases req with
  | mcp agent body =>
    change Sat _ _ (mcp G agent body) []
    rcases mcp_cases G agent body with ⟨resp, h⟩ | ⟨e, h⟩ | ⟨rpcId, ctx, h⟩
    · rw [h]
      exact fun _ _ _ => hnil
    · rw [h]
      intro _ resp he
      cases he
    · rw [h]
      exact (judge_known hnil rpcId ctx).mono fun x tr hx _ => hx
  | decide approvalId timestamp signature body =>
    apply sat_always (fun _ _ => True.intro)
    rintro x tr ⟨agent, body', h⟩
    cases h
  | status approvalId =>
    apply sat_always (fun _ _ => True.intro)
    rintro x tr ⟨agent, body, h⟩
    cases h

theorem reachable_known {C : GatewayPool G W → Move (gatewaySystem G W) → Prop}
    {a : GatewayPool G W} (ha : Reachable C a) {t : ℕ} {agent : Agent} {body : Str}
    {resp : Response} (ht : a.thread t = some (.mcp agent body, .ret resp)) :
    Known (own t a.hist) :=
  have hobeys : Obeys (fun _ _ _ => True)
      (fun req x tr => (∃ agent body, req = GwReq.mcp agent body) → KnownAnswer x tr) a :=
    reachable_obeys handle_known ha
  hobeys.sat t _ _ ht ⟨agent, body, rfl⟩ resp rfl

end Known

/-! ## Runs of the gateway -/

/-- The gateway over the operation that a state of the one over statements stands for: the same
requests answered in the same way after the same operations, and its log is in the table. -/
structure Shows (p : ChainedPool G W J sha256) (a : GatewayPool G W) : Prop where
  related : Related sha256 p.shared a.shared
  events : p.hist.filterMap (keptEvent (I := chainedGateway G W J sha256)) =
    a.hist.filter fun e => (recordOp J sha256 e.entry.op).isNone
  returned : ∀ t r resp, p.thread t = some (r, .ret resp) ↔ a.thread t = some (r, .ret resp)
  raised : ∀ t r, (∃ e, p.thread t = some (r, .raise e)) ↔ ∃ e, a.thread t = some (r, .raise e)

/-- The statements of the records may interleave as they like: what the gateway does and answers
is what it would with each record as one step, and the log is one chain. -/
theorem gateway_runs_on_the_chain (hW : Admits W J sha256) {p : ChainedPool G W J sha256}
    (hp : Reachable (fun _ _ => True) p) :
    ∃ a : GatewayPool G W, Reachable (fun _ _ => True) a ∧ Shows p a := by
  have hI := chainedGateway_correct (G := G) hW
  obtain ⟨a, q, h⟩ := reachable_simulates hI hp
  exact ⟨a, h.above, h.related, h.hist, fun t r resp => h.ret_iff hI, fun t r => h.raise_iff hI⟩

abbrev DemoChain := ChainedPool demoConfig openWorld exactJsonb sampleDigest

abbrev ChainMove := Move (ChainedSystem demoConfig openWorld exactJsonb sampleDigest)

/-- A direct call, until its row is to be written. -/
def demoCall (t : ℕ) : List ChainMove :=
  [.arrive t (.mcp sre (callBody "list_pods" "\x7b\"namespace\": \"dev-payments\"\x7d")),
    .answer t (.gateway (.package [])), .answer t (.gateway (.outcome (.success .null))),
    .answer t (.gateway (.duration 5)), .answer t (.gateway (.now zeroMagnitude))]

/-- The row is inserted. -/
def demoInsert (t : ℕ) (u : Uuid) : List ChainMove :=
  [.answer t (.db (.uuid u)), .answer t (.db (.trace none)), .answer t (.db .plain),
    .answer t (.db .plain), .answer t (.db .plain), .answer t (.db .plain)]

def demoCommit (t : ℕ) : ChainMove := .answer t (.db .plain)

def demoChain (ms : List ChainMove) : Option DemoChain :=
  runMoves (fun _ _ => True) (Pool.empty ⟨.empty 0, [], .initial⟩) ms

theorem reachable_demoChain {ms : List ChainMove} {p : DemoChain} (h : demoChain ms = some p) :
    Reachable (fun _ _ => True) p := reachable_of_runMoves (.start _ ⟨0, rfl⟩) h

theorem openWorld_admits : Admits openWorld exactJsonb sampleDigest := fun _ _ _ _ => rfl

/-- A second call goes on between the INSERT and the COMMIT of the first. -/
theorem two_calls_on_the_chain : ∃ p : DemoChain, p.shared.db.rows.length = 2 ∧
    ∃ a : GatewayPool demoConfig openWorld, Reachable (fun _ _ => True) a ∧ Shows p a := by
  have hrun : (demoChain (demoCall 0 ++ demoInsert 0 1 ++ demoCall 1 ++ [demoCommit 0] ++
      demoInsert 1 2 ++ [demoCommit 1])).map (fun p => p.shared.db.rows.length) = some 2 := by
    decide +kernel
  obtain ⟨p, hp, hlen⟩ := Option.map_eq_some_iff.mp hrun
  exact ⟨p, hlen, gateway_runs_on_the_chain openWorld_admits (reachable_demoChain hp)⟩

theorem reachable_rowsKept {C : GatewayPool G W → Move (gatewaySystem G W) → Prop}
    {a : GatewayPool G W} (ha : Reachable C a) : AuditedRuns.RowsKept a := by
  induction ha with
  | start s hs => exact fun e he => absurd he List.not_mem_nil
  | step _ _ hm ih => exact AuditedRuns.rowsKept_step ih hm

/-- The events of a request that returned were answered. -/
theorem reachable_unfailed {C : GatewayPool G W → Move (gatewaySystem G W) → Prop}
    {a : GatewayPool G W} (ha : Reachable C a) {t : ℕ} {r : GwReq} {resp : Response}
    (ht : a.thread t = some (r, .ret resp)) : ∀ e ∈ own t a.hist, e.res ≠ none :=
  have hobeys : Obeys (fun _ _ _ => True) (fun _ x tr => ∀ y, x = .ok y → ∀ e ∈ tr, e.res ≠ none) a :=
    reachable_obeys (fun r => sat_unfailed (handle G r) fun _ he => absurd he List.not_mem_nil) ha
  hobeys.sat t r _ ht resp rfl

/-- What a request ran before it was answered is in a row of its own, hashed over the row
before. -/
theorem answered_executions_are_chained (hW : Admits W J sha256)
    {p : ChainedPool G W J sha256} (hp : Reachable (fun _ _ => True) p) {t : ℕ} {r : GwReq}
    {resp : Response} (ht : p.thread t = some (r, .ret resp)) {name : Str}
    {arguments : List (Str × Json)} {outcome : Outcome}
    (hran : (⟨.inl (.runTool name arguments), some outcome⟩ : Entry (gateway.sum (db J))) ∈
      own t p.hist) :
    ∃ ws₁ w ws₂ event, p.shared.db.rows = ws₁ ++ w :: ws₂ ∧ w.writer = t ∧
      event.toolName = name ∧ event.arguments = .obj arguments ∧
      ChainsOn sha256 event (before ws₂) w.row := by
  have hI := chainedGateway_correct (G := G) hW
  obtain ⟨a, q, h⟩ := reachable_simulates hI hp
  have hat := (h.ret_iff hI).mp ht
  have hrun : (⟨.runTool name arguments, some outcome⟩ : Entry gateway) ∈ own t a.hist := by
    obtain ⟨e, he, rfl, hentry⟩ := mem_own.mp hran
    have hkept : keptEvent (I := chainedGateway G W J sha256) e =
        some ⟨e.tid, e.req, ⟨.runTool name arguments, some outcome⟩⟩ := by
      obtain ⟨t, r, entry⟩ := e
      obtain rfl : entry = ⟨.inl (.runTool name arguments), some outcome⟩ := hentry
      rfl
    exact mem_own.mpr ⟨_, h.kept_mem he hkept, rfl, rfl⟩
  have hunfailed := reachable_unfailed h.above hat
  rcases AuditedRuns.post_of_finished (reachable_lawful h.above) hat rfl name arguments outcome hrun
    with ⟨event, hmem, hname, harguments⟩ | ⟨event, before, htr⟩ |
      ⟨agent, body, errorType, message, rfl, rfl, hnone⟩
  · obtain ⟨e, he, htid, hentry⟩ := mem_own.mp hmem
    have hrow := reachable_rowsKept h.above e he event hentry
    rw [htid] at hrow
    obtain ⟨ws₁, w, ws₂, hrows, hwriter, hchains⟩ := rowsOf_mem h.related.rows hrow
    exact ⟨ws₁, w, ws₂, event, hrows, hwriter, hname, harguments, hchains⟩
  · rw [htr] at hunfailed
    exact absurd rfl (hunfailed _ List.mem_cons_self)
  · exact absurd hnone (reachable_known h.above hat name arguments errorType message hrun)

def returned : Prog (gateway.sum (db exactJsonb)) Response → Bool
  | .ret _ => true
  | _ => false

theorem returned_ret {b : Prog (gateway.sum (db exactJsonb)) Response} (h : returned b = true) :
    ∃ resp, b = .ret resp := by
  cases b with
  | ret resp => exact ⟨resp, rfl⟩
  | _ => cases h

def succeeded : Entry (gateway.sum (db exactJsonb)) → Bool
  | ⟨.inl (.runTool _ _), some (.success _)⟩ => true
  | _ => false

theorem succeeded_some {e : Entry (gateway.sum (db exactJsonb))} (h : succeeded e = true) :
    ∃ name arguments result, e = ⟨.inl (.runTool name arguments), some (.success result)⟩ := by
  unfold succeeded at h
  split at h
  · exact ⟨_, _, _, rfl⟩
  · cases h

/-- The row of the second call is hashed over the one of the first. -/
theorem second_call_chained : ∃ (p : DemoChain) (name : Str) (arguments : List (Str × Json))
    (ws₁ : List (Written exactJsonb)) (w : Written exactJsonb) (ws₂ : List (Written exactJsonb))
    (event : AuditEvent), p.shared.db.rows = ws₁ ++ w :: ws₂ ∧ w.writer = 1 ∧
      event.toolName = name ∧ event.arguments = .obj arguments ∧
      ChainsOn sampleDigest event (before ws₂) w.row := by
  have hrun : (demoChain (demoCall 0 ++ demoInsert 0 1 ++ demoCall 1 ++ [demoCommit 0] ++
      demoInsert 1 2 ++ [demoCommit 1])).map (fun p => ((p.thread 1).map fun x => returned x.2,
        (own 1 p.hist).any succeeded)) = some (some true, true) := by
    decide +kernel
  obtain ⟨p, hp, haccount⟩ := Option.map_eq_some_iff.mp hrun
  obtain ⟨hthread, hran⟩ := Prod.mk.inj haccount
  obtain ⟨⟨r, b⟩, ht, hreturned⟩ := Option.map_eq_some_iff.mp hthread
  obtain ⟨resp, rfl⟩ := returned_ret hreturned
  obtain ⟨e, he, hsucceeded⟩ := List.any_eq_true.mp hran
  obtain ⟨name, arguments, result, rfl⟩ := succeeded_some hsucceeded
  exact ⟨p, name, arguments, answered_executions_are_chained openWorld_admits
    (reachable_demoChain hp) ht he⟩

end ChainedGateway
