import McpControlPlane.Gateway
import McpControlPlane.Sequential

/-! # The gateway while everything works

Requests one after the other, with Redis, OPA and PostgreSQL answering. -/
namespace SequentialGateway

open PyText Binary64 JsonText PyJson GatewayOps ApprovalStore SlackSignature Gateway
open Interleaving Sequential

/-- Operations succeed; `times` are the times that the clock can show. -/
def Answers (W : World) (times : Magnitude → Prop) (s : GwState) :
    (o : GwOp) → gateway.Res o → GwState → Prop
  | .time, now, s' => times now ∧ s' = s
  | o, x, s' => ∃ t c, gwAnswer W s t o c = some (x, s')

/-- Everything happens at one instant. -/
abbrev AtInstant (W : World) (now : Magnitude) := Answers W (· = now)

variable {W : World} {times : Magnitude → Prop} {s s' : GwState}

theorem answers_anytime (s : GwState) (o : GwOp) (x : gateway.Res o) (s' : GwState)
    (h : Answers W times s o x s') : Answers W (fun _ => True) s o x s' := by
  cases o with
  | time => exact ⟨trivial, h.2⟩
  | _ => exact h

theorem answers_redisGet {key : Str} {x : Option Str} :
    Answers W times s (.redisGet key) x s' ↔ x = s.store.get key ∧ s' = s := by
  constructor
  · rintro ⟨t, c, h⟩
    exact answered_of_gwAnswer h
  · rintro ⟨rfl, rfl⟩
    exact ⟨0, .plain, rfl⟩

theorem answers_redisSet {key value : Str} {ttl : Ttl} {x : Unit} :
    Answers W times s (.redisSet key value ttl) x s' ↔
      s' = { s with store := s.store.set key value ttl } := by
  constructor
  · rintro ⟨t, c, h⟩
    exact answered_of_gwAnswer h
  · rintro rfl
    exact ⟨0, .plain, rfl⟩

theorem answers_uuid4 {u : UuidTime.Uuid} :
    Answers W times s .uuid4 u s' ↔ u ∉ s.issued ∧ s' = { s with issued := u :: s.issued } := by
  constructor
  · rintro ⟨t, c, h⟩
    exact answered_of_gwAnswer h
  · rintro ⟨hu, rfl⟩
    exact ⟨0, .uuid u, by simp [gwAnswer, hu]⟩

/-! ## The signature check -/

theorem ends_time {α : Type} {f : Magnitude → Prog gateway α} {r : Except GwError α} :
    Ends (Answers W times) (perform (S := gateway) .time >>= f) s r s' ↔
      ∃ now, times now ∧ Ends (Answers W times) (f now) s r s' := by
  rw [ends_perform]
  constructor
  · rintro ⟨now, t, ⟨hnow, rfl⟩, h⟩
    exact ⟨now, hnow, h⟩
  · rintro ⟨now, hnow, h⟩
    exact ⟨now, s, ⟨hnow, rfl⟩, h⟩

/-- What the check comes to once the age of the timestamp is known. -/
def ageVerdict (old : Option Bool) (valid : Except GwError Bool) : Except GwError Bool :=
  match old with
  | none => .error .overflow
  | some true => .ok false
  | some false => valid

/-- What the check of a signature comes to at an instant. -/
def verdictAt (S : Slack) (now : Magnitude) (timestamp : Option Str) (body : Bytes)
    (signature : Option Str) : Except GwError Bool :=
  match S.mac with
  | none => .ok false
  | some mac =>
    if missing timestamp || missing signature then .ok false
    else
      match PyInt.readInt (timestamp.getD []) with
      | none => .ok false
      | some requestTs => ageVerdict (stale now requestTs)
          (signatureMatches mac (timestamp.getD []) body (signature.getD []))

theorem ends_verifySignature {S : Slack} {now : Magnitude} {timestamp signature : Option Str}
    {body : Bytes} {r : Except GwError Bool} :
    Ends (AtInstant W now) (verifySignature S timestamp body signature) s r s' ↔
      r = verdictAt S now timestamp body signature ∧ s' = s := by
  unfold verifySignature verdictAt
  cases S.mac with
  | none => exact ends_ret
  | some mac =>
    by_cases hmissing : (missing timestamp || missing signature) = true
    · simp only [hmissing, if_true]
      exact ends_ret
    · simp only [hmissing, Bool.false_eq_true, if_false]
      cases PyInt.readInt (timestamp.getD []) with
      | none => exact ends_ret
      | some requestTs =>
        refine ends_time.trans ?_
        rw [exists_eq_left]
        change Ends (S := gateway) (α := Bool) _ _ s r s' ↔ r = ageVerdict (stale now requestTs)
          (signatureMatches mac (timestamp.getD []) body (signature.getD [])) ∧ s' = s
        generalize stale now requestTs = old
        cases old with
        | none => exact ends_raise
        | some old =>
          cases old with
          | true => exact ends_ret
          | false =>
            generalize signatureMatches mac (timestamp.getD []) body (signature.getD []) = valid
            cases valid with
            | error e => exact ends_raise
            | ok valid => exact ends_ret

/-! ## The approval store -/

/-- What `get_approval` makes of the text under a key. -/
def readSlot : Option Str → Except GwError (Option Approval)
  | none => .ok none
  | some raw => (readApproval raw).map some

theorem ends_getApproval {approvalId : Str} {r : Except GwError (Option Approval)} :
    Ends (Answers W times) (getApproval approvalId) s r s' ↔
      r = readSlot (s.store.get (approvalKey approvalId)) ∧ s' = s := by
  unfold getApproval
  rw [ends_perform]
  constructor
  · rintro ⟨raw, t, hget, h⟩
    obtain ⟨rfl, rfl⟩ := answers_redisGet.mp hget
    cases hraw : t.store.get (approvalKey approvalId) with
    | none =>
      rw [hraw] at h
      exact ends_ret.mp h
    | some raw =>
      rw [hraw] at h
      simp only [readSlot] at h ⊢
      cases hread : readApproval raw with
      | error e =>
        rw [hread] at h
        exact ends_raise.mp h
      | ok a =>
        rw [hread] at h
        exact ends_ret.mp h
  · rintro ⟨rfl, rfl⟩
    refine ⟨_, s', answers_redisGet.mpr ⟨rfl, rfl⟩, ?_⟩
    cases s'.store.get (approvalKey approvalId) with
    | none => exact .ret _ _
    | some raw =>
      simp only [readSlot]
      cases readApproval raw with
      | error e => exact .raise _ _
      | ok a => exact .ret _ _

theorem ends_createPendingApproval {agentId role toolName reason : Str}
    {arguments : List (Str × Json)} {r : Except GwError Approval} :
    Ends (Answers W times) (createPendingApproval (fun _ => false) agentId role toolName arguments
        reason) s r s' ↔
      ∃ now u, times now ∧ u ∉ s.issued ∧
        r = .ok (openedApproval agentId role toolName arguments reason now u) ∧
        s' = ⟨s.store.set (approvalKey u.text)
          (dumps (openedApproval agentId role toolName arguments reason now u).json)
          (.ex approvalTtlSeconds), s.rows, u :: s.issued⟩ := by
  constructor
  · intro h
    obtain ⟨now, hnow, h⟩ := ends_time.mp h
    obtain ⟨u, t, huuid, h⟩ := ends_perform.mp h
    obtain ⟨hu, rfl⟩ := answers_uuid4.mp huuid
    simp only [Bool.false_eq_true, if_false] at h
    obtain ⟨x, t, hset, h⟩ := ends_perform.mp h
    obtain rfl := answers_redisSet.mp hset
    obtain ⟨rfl, rfl⟩ := ends_ret.mp h
    exact ⟨now, u, hnow, hu, rfl, rfl⟩
  · rintro ⟨now, u, hnow, hu, rfl, rfl⟩
    refine ends_time.mpr ⟨now, hnow, ?_⟩
    refine ends_perform.mpr ⟨u, _, answers_uuid4.mpr ⟨hu, rfl⟩, ?_⟩
    simp only [Bool.false_eq_true, if_false]
    exact ends_perform.mpr ⟨(), _, answers_redisSet.mpr rfl, .ret _ _⟩

/-- The record written back under the time to live that its key has. -/
def writeBack (s : GwState) (approvalId : Str) (a : Approval) : GwState :=
  { s with store := s.store.set (approvalKey approvalId) (dumps a.json) .keepttl }

/-- How a decision ends: the key, the status and the deadline are looked at in this order. -/
def DecideEnds (times : Magnitude → Prop) (s : GwState) (approvalId decision decidedBy : Str)
    (r : Except GwError (Option Approval × DecideOutcome)) (s' : GwState) : Prop :=
  match s.store.get (approvalKey approvalId) with
  | none => r = .ok (none, .notFound) ∧ s' = s
  | some raw =>
    match readApproval raw with
    | .error e => r = .error e ∧ s' = s
    | .ok a =>
      if a.status ≠ pendingStatus then r = .ok (some a, .alreadyDecided) ∧ s' = s
      else ∃ now, times now ∧
        if laterThan now a.expiresAt then r = .ok (some a, .notFound) ∧ s' = s
        else ∃ decidedAt, times decidedAt ∧
          r = .ok (some (a.resolve decision decidedBy decidedAt), .decided) ∧
          s' = writeBack s approvalId (a.resolve decision decidedBy decidedAt)

theorem ends_redisSet {α : Type} {key value : Str} {ttl : Ttl} {f : Unit → Prog gateway α}
    {r : Except GwError α} :
    Ends (Answers W times) (perform (S := gateway) (.redisSet key value ttl) >>= f) s r s' ↔
      Ends (Answers W times) (f ()) { s with store := s.store.set key value ttl } r s' := by
  rw [ends_perform]
  constructor
  · rintro ⟨x, t, hset, h⟩
    obtain rfl := answers_redisSet.mp hset
    exact h
  · exact fun h => ⟨(), _, answers_redisSet.mpr rfl, h⟩

theorem ends_decideApproval {approvalId decision decidedBy : Str}
    {r : Except GwError (Option Approval × DecideOutcome)} :
    Ends (Answers W times) (ApprovalStore.decideApproval approvalId decision decidedBy) s r s' ↔
      DecideEnds times s approvalId decision decidedBy r s' := by
  unfold ApprovalStore.decideApproval DecideEnds
  rw [ends_bind]
  simp only [ends_getApproval]
  cases hraw : s.store.get (approvalKey approvalId) with
  | none =>
    simp only [readSlot, Except.ok.injEq, reduceCtorEq, false_and, exists_false, or_false]
    constructor
    · rintro ⟨a, t, ⟨rfl, rfl⟩, h⟩
      exact ends_ret.mp h
    · exact fun h => ⟨none, s, ⟨rfl, rfl⟩, ends_ret.mpr h⟩
  | some raw =>
    cases hread : readApproval raw with
    | error e =>
      simp only [readSlot, hread, Except.map, reduceCtorEq, false_and, exists_false, false_or,
        Except.error.injEq]
      constructor
      · rintro ⟨e', ⟨rfl, rfl⟩, rfl⟩
        exact ⟨rfl, rfl⟩
      · rintro ⟨rfl, rfl⟩
        exact ⟨e, ⟨rfl, rfl⟩, rfl⟩
    | ok a =>
      simp only [readSlot, hread, Except.map, Except.ok.injEq, reduceCtorEq, false_and, exists_false,
        or_false]
      constructor
      · rintro ⟨a', t, ⟨rfl, rfl⟩, h⟩
        simp only at h
        split_ifs at h ⊢ with hstatus
        · exact ends_ret.mp h
        · obtain ⟨now, hnow, h⟩ := ends_time.mp h
          refine ⟨now, hnow, ?_⟩
          split_ifs at h ⊢ with hlate
          · exact ends_ret.mp h
          · obtain ⟨decidedAt, hat, h⟩ := ends_time.mp h
            have hset := ends_redisSet.mp h
            obtain ⟨hr, hs⟩ := ends_ret.mp hset
            exact ⟨decidedAt, hat, hr, hs⟩
      · intro h
        refine ⟨some a, s, ⟨rfl, rfl⟩, ?_⟩
        simp only
        split_ifs at h ⊢ with hstatus
        · exact ends_ret.mpr h
        · obtain ⟨now, hnow, h⟩ := h
          refine ends_time.mpr ⟨now, hnow, ?_⟩
          split_ifs at h ⊢ with hlate
          · exact ends_ret.mpr h
          · obtain ⟨decidedAt, hat, hr, hs⟩ := h
            exact ends_time.mpr ⟨decidedAt, hat, ends_redisSet.mpr (ends_ret.mpr ⟨hr, hs⟩)⟩

end SequentialGateway
