import McpControlPlane.GatewaySpecs
import McpControlPlane.SignatureCheck

/-! # One deadline on two clocks

`GET status` goes by the time to live of the key, which starts after the record was built; the
decision also goes by the `expires_at` of the record. -/
namespace ApprovalExpiry

open PyText Binary64 JsonText PyJson GatewayOps ApprovalStore SlackSignature Gateway GatewaySpecs
open SequentialGateway Interleaving Sequential

variable {G : Config} {W : World} {s : GwState} {now : Magnitude} {approvalId : Str}

/-- The pending record has passed its deadline, and its key is still there. -/
def Lapsed (s : GwState) (now : Magnitude) (approvalId : Str) : Prop :=
  ∃ raw a, s.store.get (approvalKey approvalId) = some raw ∧ readApproval raw = .ok a ∧
    a.status = pendingStatus ∧ laterThan now a.expiresAt = true

/-- `GET /admin/approvals/{id}/status` answers 410. -/
def StatusGone (G : Config) (W : World) (s : GwState) (now : Magnitude) (approvalId : Str) : Prop :=
  ∃ answer s', Ends (AtInstant W now) (approvalStatus G approvalId) s (.ok ⟨410, answer⟩) s'

/-- `POST /admin/approvals/{id}/decide` answers 410. -/
def DecideGone (G : Config) (W : World) (s : GwState) (now : Magnitude) (approvalId : Str)
    (timestamp signature : Option Str) (body : Bytes) : Prop :=
  ∃ answer s', Ends (AtInstant W now)
    (Gateway.decideApproval G approvalId timestamp signature body) s (.ok ⟨410, answer⟩) s'

/-- A poll that finds a record and answers shows it. -/
theorem ends_returnApproval {a : Approval} {t s' : GwState} {r : Except GwError Response}
    {resp : Response} (h : Ends (AtInstant W now) (returnApproval G a) t r s') (hr : r = .ok resp) :
    r = .ok ⟨200, (shown a).json⟩ := by
  by_cases hdeep : Unwalkable G a
  · rw [returnApproval_unwalkable hdeep, hr] at h
    cases h
  · rw [returnApproval_walked hdeep] at h
    exact (ends_ret.mp h).1

theorem statusGone_iff :
    StatusGone G W s now approvalId ↔ s.store.get (approvalKey approvalId) = none := by
  constructor
  · rintro ⟨answer, s', h⟩
    rcases ends_bind.mp h with ⟨found, t, hget, hrest⟩ | ⟨e, -, he⟩
    · obtain ⟨hfound, rfl⟩ := ends_getApproval.mp hget
      cases hraw : t.store.get (approvalKey approvalId) with
      | none => rfl
      | some raw =>
        rw [hraw] at hfound
        cases hread : readApproval raw with
        | error e =>
          simp only [readSlot, hread, Except.map, reduceCtorEq] at hfound
        | ok a =>
          simp only [readSlot, hread, Except.map, Except.ok.injEq] at hfound
          subst hfound
          have hstatus : 410 = 200 :=
            congrArg Response.status (Except.ok.inj (ends_returnApproval hrest rfl))
          omega
    · cases he
  · intro hnone
    refine ⟨_, s, ends_bind.mpr (Or.inl ⟨none, s, ?_, .ret _ _⟩)⟩
    refine ends_getApproval.mpr ⟨?_, rfl⟩
    rw [hnone, readSlot]

/-- The audit row changes nothing about the answer. -/
theorem record_answers {call : Call} {decision : Str} {reason : Option Str} {result : Option Json}
    {id : Option Str} {post : Except GwError Response → Prop} {f : Unit → Prog gateway Response}
    {tr : Trace gateway} (hf : ∀ tr, Sat (fun _ _ => True) (fun r _ => post r) (f ()) tr)
    (hfail : post (.error .audit)) :
    Sat (fun _ _ => True) (fun r _ => post r) (record call decision reason result id >>= f) tr := by
  refine sat_perform.mpr ⟨trivial, fun ms => ?_, nofun⟩
  refine sat_perform.mpr ⟨trivial, fun at' => ?_, nofun⟩
  refine sat_perform.mpr ⟨trivial, fun _ => hf _, ?_⟩
  intro e he
  obtain rfl := Option.some.inj he
  exact hfail

def NotGone : Except GwError Response → Prop
  | .ok response => response.status ≠ 410
  | .error _ => True

theorem publish_answers {agentId : Str} {event : Json} {response : Response} {tr : Trace gateway}
    (h : response.status ≠ 410) :
    Sat (fun _ _ => True) (fun r _ => NotGone r)
      (perform (S := gateway) (.publish agentId event) >>= fun _ => Prog.ret response) tr :=
  sat_perform.mpr ⟨trivial, fun _ => h, nofun⟩

theorem reportDenial_notGone (a : Approval) (payload : DecisionRequest) :
    Sat (fun _ _ => True) (fun r _ => NotGone r) (reportDenial a payload) [] :=
  record_answers (fun _ => publish_answers (by simp [decided])) trivial

theorem resume_notGone (a : Approval) (payload : DecisionRequest) :
    Sat (fun _ _ => True) (fun r _ => NotGone r) (resume a payload) [] := by
  refine sat_perform.mpr ⟨trivial, fun outcome => ?_, nofun⟩
  cases outcome with
  | success result => exact record_answers (fun _ => publish_answers (by simp [decided])) trivial
  | executorError errorType message =>
    exact record_answers (fun _ => publish_answers (by simp [decided])) trivial
  | unhandledError message =>
    exact record_answers (fun _ => publish_answers (by simp [decided])) trivial

/-- What is signed, well formed and in time. -/
structure SignedDecision (G : Config) (now : Magnitude) (timestamp signature : Option Str)
    (body : Bytes) where
  payload : DecisionRequest
  signed : verdictAt G.slack now timestamp body signature = .ok true
  validated : G.validate body = .ok payload
  known : payload.decision = lit "approve" ∨ payload.decision = lit "deny"

variable {timestamp signature : Option Str} {body : Bytes}

/-- What follows the check of a valid signature. -/
theorem ends_knownDecision (R : SignedDecision G now timestamp signature body)
    {t : GwState} {r : Except GwError Response} {s' : GwState} :
    Ends (AtInstant W now)
      (if ¬ (true = true) then pure ⟨401, errorBody (lit "invalid or missing Slack signature")⟩
      else match G.validate body with
        | .error exc => pure ⟨400, errorBody (lit "invalid request body: " ++ exc)⟩
        | .ok payload =>
          if payload.decision ≠ lit "approve" ∧ payload.decision ≠ lit "deny" then
            pure ⟨400, errorBody (lit "decision must be 'approve' or 'deny'")⟩
          else ApprovalStore.decideApproval approvalId payload.decision payload.decidedBy >>=
            answerDecision payload) t r s' ↔
      Ends (AtInstant W now)
        (ApprovalStore.decideApproval approvalId R.payload.decision R.payload.decidedBy >>=
          answerDecision R.payload) t r s' := by
  have hknown : ¬ (R.payload.decision ≠ lit "approve" ∧ R.payload.decision ≠ lit "deny") := by
    rintro ⟨happrove, hdeny⟩
    exact R.known.elim happrove hdeny
  simp only [not_true_eq_false, if_false, R.validated, hknown]

/-- Such a request is answered by what the store decides. -/
theorem ends_signedDecision (R : SignedDecision G now timestamp signature body)
    {r : Except GwError Response} {s' : GwState} :
    Ends (AtInstant W now) (Gateway.decideApproval G approvalId timestamp signature body) s r s' ↔
      Ends (AtInstant W now)
        (ApprovalStore.decideApproval approvalId R.payload.decision R.payload.decidedBy >>=
          answerDecision R.payload) s r s' := by
  unfold Gateway.decideApproval
  rw [ends_bind]
  constructor
  · rintro (⟨valid, t, hverify, h⟩ | ⟨e, hverify, -⟩)
    · obtain ⟨hvalid, rfl⟩ := ends_verifySignature.mp hverify
      rw [R.signed] at hvalid
      obtain rfl := Except.ok.inj hvalid
      exact (ends_knownDecision R).mp h
    · have hvalid := (ends_verifySignature.mp hverify).1
      rw [R.signed] at hvalid
      cases hvalid
  · intro h
    exact Or.inl ⟨true, s, ends_verifySignature.mpr ⟨R.signed.symm, rfl⟩, (ends_knownDecision R).mpr h⟩

theorem decideGone_iff (R : SignedDecision G now timestamp signature body) :
    DecideGone G W s now approvalId timestamp signature body ↔
      s.store.get (approvalKey approvalId) = none ∨ Lapsed s now approvalId := by
  constructor
  · rintro ⟨answer, s', h⟩
    rcases ends_bind.mp ((ends_signedDecision R).mp h) with ⟨result, t, hdecide, hanswer⟩ | ⟨e, -, he⟩
    · have hends := ends_decideApproval.mp hdecide
      unfold DecideEnds at hends
      cases hraw : s.store.get (approvalKey approvalId) with
      | none => exact Or.inl rfl
      | some raw =>
        simp only [hraw] at hends
        cases hread : readApproval raw with
        | error e =>
          simp only [hread, reduceCtorEq, false_and] at hends
        | ok a =>
          simp only [hread] at hends
          split_ifs at hends with hstatus
          · -- already decided
            obtain rfl := Except.ok.inj hends.1
            have hconflict : 410 = 409 :=
              congrArg Response.status (Except.ok.inj (ends_ret.mp hanswer).1)
            omega
          · obtain ⟨at', rfl, hends⟩ := hends
            split_ifs at hends with hlate
            · exact Or.inr ⟨raw, a, hraw, hread, not_not.mp hstatus, hlate⟩
            · obtain ⟨decidedAt, -, hresult, -⟩ := hends
              obtain rfl := Except.ok.inj hresult
              rw [answerDecision] at hanswer
              split_ifs at hanswer
              · obtain ⟨-, hpost⟩ := ends_of_sat (reportDenial_notGone _ _) hanswer
                exact absurd rfl hpost
              · obtain ⟨-, hpost⟩ := ends_of_sat (resume_notGone _ _) hanswer
                exact absurd rfl hpost
    · cases he
  · intro h
    have hdecide : ∃ found, Ends (AtInstant W now) (ApprovalStore.decideApproval approvalId
        R.payload.decision R.payload.decidedBy) s (.ok (found, .notFound)) s := by
      rcases h with hnone | ⟨raw, a, hraw, hread, hstatus, hlate⟩
      · refine ⟨none, ends_decideApproval.mpr ?_⟩
        unfold DecideEnds
        simp only [hnone, and_self]
      · refine ⟨some a, ends_decideApproval.mpr ?_⟩
        unfold DecideEnds
        simp only [hraw, hread, hstatus, ne_eq, not_true_eq_false, if_false]
        exact ⟨now, rfl, by simp only [hlate, if_true, and_self]⟩
    obtain ⟨found, hfound⟩ := hdecide
    refine ⟨errorBody (lit "approval not found or expired"), s, (ends_signedDecision R).mpr
      (ends_bind.mpr (Or.inl ⟨_, s, hfound, ?_⟩))⟩
    cases found <;> exact .ret _ _

/-- Both endpoints answer 410 together, and what `status` reports as pending can be decided. -/
def ExpiryAgrees (G : Config) (W : World) (s : GwState) (now : Magnitude) (approvalId : Str)
    (timestamp signature : Option Str) (body : Bytes) (payload : DecisionRequest) : Prop :=
  (StatusGone G W s now approvalId ↔ DecideGone G W s now approvalId timestamp signature body) ∧
  ∀ (a : Approval) s₁,
    Ends (AtInstant W now) (approvalStatus G approvalId) s (.ok ⟨200, a.json⟩) s₁ →
    a.status = pendingStatus → ∃ resolved s', Ends (AtInstant W now)
      (ApprovalStore.decideApproval approvalId payload.decision payload.decidedBy) s
      (.ok (some resolved, .decided)) s'

theorem approval_json_injective {a b : Approval} (h : a.json = b.json) : a = b := by
  obtain ⟨d, hd, ha⟩ := approvalOf_json a
  obtain ⟨d', hd', hb⟩ := approvalOf_json b
  rw [h, hd'] at hd
  obtain rfl := JsonTree.obj.inj hd
  exact Option.some.inj (ha.symm.trans hb)

theorem disagrees_of_lapsed (R : SignedDecision G now timestamp signature body)
    (h : Lapsed s now approvalId) :
    ¬ ExpiryAgrees G W s now approvalId timestamp signature body R.payload := by
  rintro ⟨hgone, -⟩
  have hnone := statusGone_iff.mp (hgone.mpr ((decideGone_iff R).mpr (Or.inr h)))
  obtain ⟨raw, a, hraw, -⟩ := h
  rw [hraw] at hnone
  cases hnone

/-- Apart from a record that lapsed under a key that is still there, the two agree. -/
theorem expiry_agrees_iff (R : SignedDecision G now timestamp signature body) :
    ExpiryAgrees G W s now approvalId timestamp signature body R.payload ↔
      ¬ Lapsed s now approvalId := by
  refine ⟨fun hagree hlapsed => disagrees_of_lapsed R hlapsed hagree, fun hlive => ⟨?_, ?_⟩⟩
  · rw [statusGone_iff, decideGone_iff R]
    exact ⟨Or.inl, fun h => h.resolve_right hlive⟩
  · intro a s₁ hstatus hpending
    rcases ends_bind.mp hstatus with ⟨found, t, hget, hrest⟩ | ⟨e, -, he⟩
    · obtain ⟨hfound, rfl⟩ := ends_getApproval.mp hget
      cases found with
      | none =>
        have hgone : 200 = 410 := congrArg Response.status (Except.ok.inj (ends_ret.mp hrest).1)
        omega
      | some a' =>
        have hjson : a.json = (shown a').json :=
          congrArg Response.body (Except.ok.inj (ends_returnApproval hrest rfl))
        have hpending : a'.status = pendingStatus := by
          rwa [approval_json_injective hjson] at hpending
        cases hraw : t.store.get (approvalKey approvalId) with
        | none =>
          rw [hraw] at hfound
          cases hfound
        | some raw =>
          rw [hraw] at hfound
          cases hread : readApproval raw with
          | error e => simp only [readSlot, hread, Except.map, reduceCtorEq] at hfound
          | ok b =>
            simp only [readSlot, hread, Except.map, Except.ok.injEq, Option.some.injEq] at hfound
            subst hfound
            have hearly : laterThan now a'.expiresAt = false := by
              cases hlate : laterThan now a'.expiresAt with
              | false => rfl
              | true => exact absurd ⟨raw, a', hraw, hread, hpending, hlate⟩ hlive
            refine ⟨a'.resolve R.payload.decision R.payload.decidedBy now, writeBack t approvalId
              (a'.resolve R.payload.decision R.payload.decidedBy now), ends_decideApproval.mpr ?_⟩
            unfold DecideEnds
            simp only [hraw, hread, hpending, ne_eq, not_true_eq_false, if_false]
            refine ⟨now, rfl, ?_⟩
            simp only [hearly, Bool.false_eq_true, if_false]
            exact ⟨now, rfl, rfl, rfl⟩
    · cases he

/-! ### Between the two deadlines -/

def approvalBody : Bytes :=
  (lit "\x7b\"decision\": \"approve\", \"decided_by\": \"alice\"\x7d").map fun c => UInt8.ofNat c.val

def bodySignature : Str := lit "148ac0ad108e1136b85428af2e8284b41dd961868d9fa566a002cfbc42d79771"

/-- The body at the time 900 under `test-signing-secret`. -/
def signedConfig : Config where
  slack := ⟨some fun _ => bodySignature⟩
  validate body := if body = approvalBody then .ok ⟨lit "approve", lit "alice", none⟩
    else .error (lit "Invalid JSON")
  str _ := lit "None"

/-- 900.25 seconds. -/
def late : Magnitude := (decimalMagnitude 90025 (-2)).getD zeroMagnitude

theorem signedAt_late : verdictAt signedConfig.slack late (some (lit "900")) approvalBody
    (some (lit "v0=" ++ bodySignature)) = .ok true := by
  refine SignatureCheck.verdict_of_vouched ?_ ⟨_, lit "900", 900, _, rfl, rfl, by decide +kernel,
    by decide +kernel, SignatureCheck.signedBytes_eq (by decide +kernel) _, rfl⟩
  intro mac hmac b
  obtain rfl := Option.some.inj hmac
  change bodySignature.all ascii = true
  decide +kernel

def lateDecision : SignedDecision signedConfig late (some (lit "900"))
    (some (lit "v0=" ++ bodySignature)) approvalBody where
  payload := ⟨lit "approve", lit "alice", none⟩
  signed := signedAt_late
  validated := rfl
  known := Or.inl rfl

/-- An approval is stored half a second after its record was built, and read 899.75 seconds later. -/
def openedLate : List (Move (storeSystem openWorld)) :=
  [.arrive 0 (.create (lit "agent01") (lit "sre1") (lit "restart_deployment") restartArguments
      (lit "restart")), .answer 0 (.now zeroMagnitude), .answer 0 (.uuid 1), .drift (1 / 2),
    .answer 0 .plain, .drift (3599 / 4)]

/-- Whether the pending record of a key has passed its deadline. -/
def lapsed (s : GwState) (now : Magnitude) (approvalId : Str) : Bool :=
  match s.store.get (approvalKey approvalId) with
  | none => false
  | some raw =>
    match readApproval raw with
    | .error _ => false
    | .ok a => decide (a.status = pendingStatus) && laterThan now a.expiresAt

theorem lapsed_iff : lapsed s now approvalId = true ↔ Lapsed s now approvalId := by
  unfold lapsed Lapsed
  constructor
  · intro h
    split at h
    · cases h
    · rename_i raw hraw
      split at h
      · cases h
      · rename_i a hread
        rw [Bool.and_eq_true, decide_eq_true_eq] at h
        exact ⟨raw, a, hraw, hread, h.1, h.2⟩
  · rintro ⟨raw, a, hraw, hread, hpending, hlate⟩
    simp only [hraw, hread, hpending, hlate, decide_true, Bool.and_self]

/-- One second past the epoch. -/
def second : Magnitude := (decimalMagnitude 1 0).getD zeroMagnitude

/-- An approval is built and stored after a second, and read 899.25 seconds later. -/
def openedInTime : List (Move (storeSystem openWorld)) :=
  [.drift 1, .arrive 0 (.create (lit "agent01") (lit "sre1") (lit "restart_deployment")
      restartArguments (lit "restart")), .answer 0 (.now second), .answer 0 (.uuid 1),
    .answer 0 .plain, .drift (3597 / 4)]

/-- The status of the record that a poll finds. -/
def statusOf (s : GwState) (approvalId : Str) : Option Str :=
  (s.store.get (approvalKey approvalId)).bind fun raw =>
    (readApproval raw).toOption.map Approval.status

/-- A pending approval with three quarters of a second to go. -/
theorem expiry_agrees_in_time : ∃ p : StorePool openWorld, Reachable (fun _ _ => True) p ∧
    statusOf p.shared (UuidTime.Uuid.text 1) = some pendingStatus ∧
    ExpiryAgrees signedConfig openWorld p.shared late (UuidTime.Uuid.text 1) (some (lit "900"))
      (some (lit "v0=" ++ bodySignature)) approvalBody lateDecision.payload := by
  have hrun : (runMoves (fun _ _ => True) (Pool.empty (GwState.initial 0)) openedInTime).map
      (fun p => (statusOf p.shared (UuidTime.Uuid.text 1),
        lapsed p.shared late (UuidTime.Uuid.text 1))) = some (some pendingStatus, false) := by
    decide +kernel
  obtain ⟨p, hp, hpair⟩ := Option.map_eq_some_iff.mp hrun
  obtain ⟨hpending, hlapsed⟩ := Prod.mk.inj hpair
  refine ⟨p, reachable_of_runMoves (.start _ ⟨0, rfl⟩) hp, hpending, ?_⟩
  refine (expiry_agrees_iff lateDecision).mpr fun hlate => ?_
  rw [lapsed_iff.mpr hlate] at hlapsed
  cases hlapsed

/-- `status` reports it as pending, and the decision answers 410. -/
theorem expiry_disagrees : ∃ p : StorePool openWorld, Reachable (fun _ _ => True) p ∧
    ¬ ExpiryAgrees signedConfig openWorld p.shared late (UuidTime.Uuid.text 1) (some (lit "900"))
      (some (lit "v0=" ++ bodySignature)) approvalBody lateDecision.payload := by
  have hrun : (runMoves (fun _ _ => True) (Pool.empty (GwState.initial 0)) openedLate).map
      (fun p => lapsed p.shared late (UuidTime.Uuid.text 1)) = some true := by decide +kernel
  obtain ⟨p, hp, hlapsed⟩ := Option.map_eq_some_iff.mp hrun
  exact ⟨p, reachable_of_runMoves (.start _ ⟨0, rfl⟩) hp,
    disagrees_of_lapsed lateDecision (lapsed_iff.mp hlapsed)⟩

end ApprovalExpiry
