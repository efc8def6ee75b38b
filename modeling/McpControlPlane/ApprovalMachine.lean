import McpControlPlane.SequentialGateway

/-! # The approval store as one-shot decision machines

What the store is for: each approval has a ticket that takes one decision until its time is up.
The store keeps the tickets as JSON texts under keys with a time to live. -/
namespace ApprovalMachine

open PyText Binary64 JsonText JsonDict PyJson UuidTime GatewayOps ApprovalStore SequentialGateway
open Interleaving Sequential

/-! ## The machine -/

/-- An approval as it was opened, and as it was decided first. -/
structure Ticket where
  opened : Approval
  decision : Option Approval
  deadline : ℚ
  pending : opened.status = pendingStatus
  readable : stored opened = opened
  resolved : ∀ a ∈ decision, a.status ≠ pendingStatus ∧ stored a = a ∧
    ∃ choice decidedBy decidedAt, a = opened.resolve choice decidedBy decidedAt

/-- The record as it is now. -/
def Ticket.record (t : Ticket) : Approval := t.decision.getD t.opened

structure Machine where
  clock : ℚ
  ticket : Str → Option Ticket

/-- The ticket whose time is not up. -/
def Machine.live (m : Machine) (id : Str) : Option Ticket :=
  (m.ticket id).filter fun t => decide (m.clock < t.deadline)

def Machine.put (m : Machine) (id : Str) (t : Ticket) : Machine :=
  { m with ticket := Function.update m.ticket id (some t) }

/-- One operation on the machine; `times` are the times that the clock of the caller can show. -/
inductive Machine.Step (times : Magnitude → Prop) (m : Machine) :
    StoreReq → StoreResp → Machine → Prop
  | create {agentId role toolName : Str} {arguments : List (Str × Json)} {reason : Str}
      (now : Magnitude) (hnow : times now) (u : Uuid) (hu : m.ticket u.text = none) (t : Ticket)
      (hopened : t.opened = openedApproval agentId role toolName arguments reason now u)
      (hdecision : t.decision = none) (hdeadline : t.deadline = m.clock + approvalTtlSeconds) :
      Step times m (.create agentId role toolName arguments reason) (some t.opened, none)
        (m.put u.text t)
  | get (id : Str) : Step times m (.get id) ((m.live id).map Ticket.record, none) m
  | unknown {id choice decidedBy : Str} (h : m.live id = none) :
      Step times m (.decide id choice decidedBy) (none, some .notFound) m
  | again {id choice decidedBy : Str} {t : Ticket} {a : Approval} (ht : m.live id = some t)
      (ha : t.decision = some a) :
      Step times m (.decide id choice decidedBy) (some a, some .alreadyDecided) m
  | late {id choice decidedBy : Str} {t : Ticket} (ht : m.live id = some t)
      (ha : t.decision = none) (now : Magnitude) (hnow : times now)
      (hlate : laterThan now t.opened.expiresAt = true) :
      Step times m (.decide id choice decidedBy) (some t.opened, some .notFound) m
  | first {id choice decidedBy : Str} {t t' : Ticket} (ht : m.live id = some t)
      (ha : t.decision = none) (now : Magnitude) (hnow : times now)
      (hearly : laterThan now t.opened.expiresAt = false) (decidedAt : Magnitude)
      (hat : times decidedAt) (hopened : t'.opened = t.opened)
      (hdecision : t'.decision = some (t.opened.resolve choice decidedBy decidedAt))
      (hdeadline : t'.deadline = t.deadline) :
      Step times m (.decide id choice decidedBy)
        (some (t.opened.resolve choice decidedBy decidedAt), some .decided) (m.put id t')

def Machine.wait (m : Machine) (dt : ℚ) : Machine := { m with clock := m.clock + dt }

/-! ## The store refines the machine -/

/-- The slots of the store are the tickets whose time is not up. -/
structure Refines (s : GwState) (m : Machine) : Prop where
  clock : s.store.clock = m.clock
  slots : ∀ id, s.store.slot (approvalKey id) =
    (m.live id).map fun t => ⟨dumps t.record.json, some t.deadline⟩
  issued : ∀ id t, m.ticket id = some t → ∃ u ∈ s.issued, id = u.text

theorem approvalKey_inj {a b : Str} : approvalKey a = approvalKey b ↔ a = b := by
  simp [approvalKey]

theorem Ticket.record_readable (t : Ticket) : stored t.record = t.record := by
  rw [Ticket.record]
  cases h : t.decision with
  | none => exact t.readable
  | some a => exact (t.resolved a h).2.1

theorem Ticket.record_status (t : Ticket) : t.record.status = pendingStatus ↔ t.decision = none := by
  rw [Ticket.record]
  cases h : t.decision with
  | none => exact iff_of_true t.pending rfl
  | some a => exact iff_of_false (t.resolved a h).1 (by simp)

@[simp] theorem ticket_put_self (m : Machine) (id : Str) (t : Ticket) :
    (m.put id t).ticket id = some t := by simp [Machine.put]

theorem ticket_put_ne (m : Machine) {id id' : Str} (t : Ticket) (h : id' ≠ id) :
    (m.put id t).ticket id' = m.ticket id' := by simp [Machine.put, h]

theorem live_put_self (m : Machine) (id : Str) (t : Ticket) :
    (m.put id t).live id = if m.clock < t.deadline then some t else none := by
  by_cases h : m.clock < t.deadline <;> simp [Machine.live, Machine.put, Option.filter, h]

theorem live_put_ne (m : Machine) {id id' : Str} (t : Ticket) (h : id' ≠ id) :
    (m.put id t).live id' = m.live id' := by
  change (Function.update m.ticket id (some t) id').filter _ = _
  rw [Function.update_of_ne h]
  rfl

theorem live_some {m : Machine} {id : Str} {t : Ticket} (h : m.live id = some t) :
    m.ticket id = some t ∧ m.clock < t.deadline := by
  simpa [Machine.live, Option.filter_eq_some_iff] using h

section Refinement

variable {W : World} {times : Magnitude → Prop} {s s' : GwState} {m : Machine}

/-- What the store reads under the key of an approval. -/
theorem Refines.get (h : Refines s m) (id : Str) :
    s.store.get (approvalKey id) = (m.live id).map fun t => dumps t.record.json := by
  rw [KeyStore.get, h.slots, Option.map_map]
  rfl

theorem refines_initial (clock : ℚ) : Refines (.initial clock) ⟨clock, fun _ => none⟩ where
  clock := rfl
  slots _ := rfl
  issued id t ht := by cases ht

theorem refines_wait (h : Refines s m) {dt : ℚ} (hdt : 0 ≤ dt) :
    Refines { s with store := s.store.tick dt } (m.wait dt) where
  clock := congrArg (· + dt) h.clock
  slots id := by
    have hslot : (s.store.tick dt).slot (approvalKey id) =
        (s.store.slot (approvalKey id)).filter fun e => !e.dead (s.store.clock + dt) := rfl
    rw [hslot, h.slots, h.clock]
    simp only [Machine.live, Machine.wait]
    cases hticket : m.ticket id with
    | none => rfl
    | some t =>
      by_cases hlive : m.clock + dt < t.deadline
      · have hnow : m.clock < t.deadline := by linarith
        simp [Option.filter, hlive, hnow, Slot.dead]
      · by_cases hnow : m.clock < t.deadline
        · simp [Option.filter, hlive, hnow, Slot.dead, not_lt.mp hlive]
        · simp [Option.filter, hlive, hnow]
  issued := h.issued

/-- The record is written under a key, and the ticket put in its place. -/
theorem refines_put (h : Refines s m) {id : Str} {t : Ticket} {value : Str} {ttl : Ttl}
    {issued : List Uuid} (hlive : m.clock < t.deadline)
    (hslot : (s.store.set (approvalKey id) value ttl).slot (approvalKey id) =
      some ⟨dumps t.record.json, some t.deadline⟩)
    (hissued : s.issued ⊆ issued) (hid : ∃ u ∈ issued, id = u.text) (rows : List LogRow) :
    Refines ⟨s.store.set (approvalKey id) value ttl, rows, issued⟩ (m.put id t) where
  clock := by
    cases ttl <;> exact h.clock
  slots id' := by
    by_cases hne : id' = id
    · subst hne
      rw [hslot, live_put_self, if_pos hlive]
      rfl
    · have hkey : (s.store.set (approvalKey id) value ttl).slot (approvalKey id') =
          s.store.slot (approvalKey id') := by
        cases ttl <;> simp [KeyStore.set, approvalKey_inj, hne]
      rw [live_put_ne m t hne, ← h.slots, ← hkey]
  issued id' t' ht' := by
    by_cases hne : id' = id
    · subst hne
      exact hid
    · rw [ticket_put_ne m t hne] at ht'
      obtain ⟨u, hu, hid'⟩ := h.issued id' t' ht'
      exact ⟨u, hissued hu, hid'⟩

/-- No key twice, and no halves of a surrogate pair next to each other. `json.loads` can give such
halves; `create` is only called with what httpx has encoded in UTF-8 for OPA, which refuses them. -/
def ReqOk : StoreReq → Prop
  | .create agentId role toolName arguments reason =>
    (∀ text ∈ [agentId, role, toolName, reason], mergeSurrogates text = text) ∧
      dictOf (dictifyMembers (mapMembers mergeSurrogates id arguments)) = arguments
  | .get _ => True
  | .decide _ _ decidedBy => mergeSurrogates decidedBy = decidedBy

theorem opened_readable {agentId role toolName reason : Str} {arguments : List (Str × Json)}
    (h : ReqOk (.create agentId role toolName arguments reason)) (now : Magnitude) (u : Uuid) :
    stored (openedApproval agentId role toolName arguments reason now u) =
      openedApproval agentId role toolName arguments reason now u := by
  obtain ⟨htexts, hargs⟩ := h
  have hpending : mergeSurrogates pendingStatus = pendingStatus := by decide +kernel
  simp only [stored, openedApproval, mergeSurrogates_of_scalar (uuid_text_scalar u), hpending,
    htexts agentId (by simp), htexts role (by simp), htexts toolName (by simp),
    htexts reason (by simp), hargs, Option.map_none]

theorem decidedStatus_spec (choice : Str) :
    decidedStatus choice ≠ pendingStatus ∧
      mergeSurrogates (decidedStatus choice) = decidedStatus choice := by
  rw [decidedStatus]
  split_ifs <;> decide +kernel

theorem stored_resolve (a : Approval) (choice : Str) {decidedBy : Str} (decidedAt : Magnitude)
    (hby : mergeSurrogates decidedBy = decidedBy) :
    stored (a.resolve choice decidedBy decidedAt) = (stored a).resolve choice decidedBy decidedAt := by
  simp only [stored, Approval.resolve, (decidedStatus_spec choice).2, hby, Option.map_some]

/-- The ticket of a decision. -/
def Ticket.decide (t : Ticket) (choice decidedBy : Str) (decidedAt : Magnitude)
    (hby : mergeSurrogates decidedBy = decidedBy) : Ticket where
  opened := t.opened
  decision := some (t.opened.resolve choice decidedBy decidedAt)
  deadline := t.deadline
  pending := t.pending
  readable := t.readable
  resolved := by
    intro a ha
    obtain rfl := Option.some.inj ha
    refine ⟨(decidedStatus_spec choice).1, ?_, choice, decidedBy, decidedAt, rfl⟩
    rw [stored_resolve _ _ _ hby, t.readable]

theorem Ticket.read (t : Ticket) : readApproval (dumps t.record.json) = .ok t.record := by
  rw [readApproval_dumps, t.record_readable]

/-- Each end of an operation on the store is one of the machine. -/
theorem refines_step (h : Refines s m) {req : StoreReq} (hok : ReqOk req)
    {r : Except GwError StoreResp} (hend : Ends (Answers W times) (storeHandler req) s r s') :
    ∃ resp m', r = .ok resp ∧ m.Step times req resp m' ∧ Refines s' m' := by
  cases req with
  | create agentId role toolName arguments reason =>
    rcases ends_bind.mp hend with ⟨a, t, hcreate, hrest⟩ | ⟨e, hcreate, -⟩
    · obtain ⟨now, u, hnow, hu, ha, rfl⟩ := ends_createPendingApproval.mp hcreate
      obtain rfl := Except.ok.inj ha
      obtain ⟨rfl, rfl⟩ := ends_ret.mp hrest
      have hfresh : m.ticket u.text = none := by
        by_contra hsome
        obtain ⟨t, ht⟩ := Option.ne_none_iff_exists'.mp hsome
        obtain ⟨v, hv, htext⟩ := h.issued _ t ht
        exact hu (uuid_text_injective htext ▸ hv)
      let ticket : Ticket := {
        opened := openedApproval agentId role toolName arguments reason now u
        decision := none
        deadline := m.clock + approvalTtlSeconds
        pending := rfl
        readable := opened_readable hok now u
        resolved := fun a ha => by cases ha }
      refine ⟨_, m.put u.text ticket, rfl, .create now hnow u hfresh ticket rfl rfl rfl, ?_⟩
      refine refines_put h (t := ticket) ?_ ?_ (List.subset_cons_self _ _)
        ⟨u, List.mem_cons_self, rfl⟩ _
      · change m.clock < m.clock + approvalTtlSeconds
        norm_num [approvalTtlSeconds]
      · simp [KeyStore.set, ticket, Ticket.record, h.clock]
    · obtain ⟨now, u, -, -, he, -⟩ := ends_createPendingApproval.mp hcreate
      cases he
  | get id =>
    have hread : readSlot (s.store.get (approvalKey id)) = .ok ((m.live id).map Ticket.record) := by
      rw [h.get]
      cases m.live id with
      | none => rfl
      | some t => simp only [Option.map_some, readSlot, t.read, Except.map]
    rcases ends_bind.mp hend with ⟨found, t, hget, hrest⟩ | ⟨e, hget, -⟩
    · obtain ⟨hfound, rfl⟩ := ends_getApproval.mp hget
      rw [hread] at hfound
      obtain rfl := Except.ok.inj hfound
      obtain ⟨rfl, rfl⟩ := ends_ret.mp hrest
      exact ⟨_, m, rfl, .get id, h⟩
    · have he := (ends_getApproval.mp hget).1
      rw [hread] at he
      cases he
  | decide id choice decidedBy =>
    have hends : ∀ {r t}, Ends (Answers W times)
        (ApprovalStore.decideApproval id choice decidedBy) s r t → ∃ found outcome m',
          r = .ok (found, outcome) ∧ m.Step times (.decide id choice decidedBy)
            (found, some outcome) m' ∧ Refines t m' := by
      intro r t hdecide
      have hcases := ends_decideApproval.mp hdecide
      unfold DecideEnds at hcases
      rw [h.get] at hcases
      cases hlive : m.live id with
      | none =>
        rw [hlive] at hcases
        obtain ⟨rfl, rfl⟩ := hcases
        exact ⟨_, _, m, rfl, .unknown hlive, h⟩
      | some ticket =>
        simp only [hlive, Option.map_some, ticket.read, ne_eq, ticket.record_status] at hcases
        obtain ⟨hticket, hdeadline⟩ := live_some hlive
        cases hdecision : ticket.decision with
        | some a =>
          rw [hdecision, if_pos (by simp)] at hcases
          obtain ⟨rfl, rfl⟩ := hcases
          have hrecord : ticket.record = a := by rw [Ticket.record, hdecision, Option.getD_some]
          rw [hrecord]
          exact ⟨_, _, m, rfl, .again hlive hdecision, h⟩
        | none =>
          rw [hdecision, if_neg (by simp)] at hcases
          have hrecord : ticket.record = ticket.opened := by
            rw [Ticket.record, hdecision, Option.getD_none]
          rw [hrecord] at hcases
          obtain ⟨now, hnow, hcases⟩ := hcases
          split_ifs at hcases with hlate
          · obtain ⟨rfl, rfl⟩ := hcases
            exact ⟨_, _, m, rfl, .late hlive hdecision now hnow hlate, h⟩
          · obtain ⟨decidedAt, hat, rfl, rfl⟩ := hcases
            refine ⟨_, _, m.put id (ticket.decide choice decidedBy decidedAt hok), rfl,
              .first hlive hdecision now hnow (Bool.eq_false_iff.mpr hlate) decidedAt hat rfl rfl rfl,
              ?_⟩
            refine refines_put h (t := ticket.decide choice decidedBy decidedAt hok) hdeadline ?_
              (List.Subset.refl _) (h.issued id ticket hticket) _
            simp only [KeyStore.set, Function.update_self, h.slots, hlive, Option.map_some,
              Option.bind_some]
            rfl
    rcases ends_bind.mp hend with ⟨result, t, hdecide, hrest⟩ | ⟨e, hdecide, -⟩
    · obtain ⟨found, outcome, m', hresult, hstep, hrefines⟩ := hends hdecide
      obtain rfl := Except.ok.inj hresult
      obtain ⟨rfl, rfl⟩ := ends_ret.mp hrest
      exact ⟨_, m', rfl, hstep, hrefines⟩
    · obtain ⟨found, outcome, m', hresult, -⟩ := hends hdecide
      cases hresult

/-- Only a first decision changes the store. -/
theorem decide_unchanged {id choice decidedBy : Str} {found : Option Approval}
    {outcome : DecideOutcome} (houtcome : outcome ≠ .decided)
    (hend : Ends (Answers W times) (storeHandler (.decide id choice decidedBy)) s
      (.ok (found, some outcome)) s') : s' = s := by
  rcases ends_bind.mp hend with ⟨result, t, hdecide, hrest⟩ | ⟨e, -, he⟩
  · obtain ⟨hresult, rfl⟩ := ends_ret.mp hrest
    have hcases := ends_decideApproval.mp hdecide
    unfold DecideEnds at hcases
    split at hcases
    · exact hcases.2
    · split at hcases
      · cases hcases.1
      · split_ifs at hcases with hstatus
        · exact hcases.2
        · obtain ⟨now, -, hcases⟩ := hcases
          split_ifs at hcases with hlate
          · exact hcases.2
          · obtain ⟨decidedAt, -, hdecided, -⟩ := hcases
            rw [Except.ok.inj hdecided] at hresult
            exact absurd (Option.some.inj (Prod.mk.inj (Except.ok.inj hresult)).2) houtcome
  · cases he

/-- A decision takes no time of the store. -/
theorem decide_clock {id choice decidedBy : Str} {r : Except GwError StoreResp}
    (hend : Ends (Answers W times) (storeHandler (.decide id choice decidedBy)) s r s') :
    s'.store.clock = s.store.clock := by
  obtain ⟨result, hcases⟩ : ∃ result, DecideEnds times s id choice decidedBy result s' := by
    rcases ends_bind.mp hend with ⟨result, t, hdecide, hrest⟩ | ⟨e, hdecide, -⟩
    · obtain ⟨-, rfl⟩ := ends_ret.mp hrest
      exact ⟨_, ends_decideApproval.mp hdecide⟩
    · exact ⟨_, ends_decideApproval.mp hdecide⟩
  unfold DecideEnds at hcases
  split at hcases
  · rw [hcases.2]
  · split at hcases
    · rw [hcases.2]
    · split_ifs at hcases
      · rw [hcases.2]
      · obtain ⟨now, -, hcases⟩ := hcases
        split_ifs at hcases
        · rw [hcases.2]
        · obtain ⟨decidedAt, -, -, rfl⟩ := hcases
          rfl

/-- A decision always comes to an end. -/
theorem decide_ends (hclock : ∃ x, times x) (h : Refines s m) (id choice decidedBy : Str) :
    ∃ r s', Ends (Answers W times) (storeHandler (.decide id choice decidedBy)) s r s' := by
  obtain ⟨now, hnow⟩ := hclock
  have hdecide : ∃ result t, Ends (Answers W times)
      (ApprovalStore.decideApproval id choice decidedBy) s (.ok result) t := by
    simp only [ends_decideApproval]
    unfold DecideEnds
    rw [h.get]
    cases m.live id with
    | none => exact ⟨_, _, rfl, rfl⟩
    | some t =>
      simp only [Option.map_some, t.read]
      split_ifs with hstatus
      · exact ⟨_, _, rfl, rfl⟩
      · by_cases hlate : laterThan now t.record.expiresAt = true
        · exact ⟨_, _, now, hnow, by rw [if_pos hlate]; exact ⟨rfl, rfl⟩⟩
        · exact ⟨_, _, now, hnow, by rw [if_neg hlate]; exact ⟨now, hnow, rfl, rfl⟩⟩
  obtain ⟨result, t, hend⟩ := hdecide
  exact ⟨_, t, ends_bind.mpr (Or.inl ⟨result, t, hend, .ret _ _⟩)⟩

end Refinement

/-! ## Runs -/

/-- An operation that is done, with the clock of the store. -/
structure Done where
  req : StoreReq
  resp : StoreResp
  clock : ℚ

/-- Operations one after the other, the latest first, with time passing between them. -/
inductive Run (W : World) : List Done → GwState → Prop
  | start (clock : ℚ) : Run W [] (.initial clock)
  | wait {h : List Done} {s : GwState} (hrun : Run W h s) (dt : ℚ) (hdt : 0 ≤ dt) :
      Run W h { s with store := s.store.tick dt }
  | call {h : List Done} {s s' : GwState} (hrun : Run W h s) {req : StoreReq} (hok : ReqOk req)
      {resp : StoreResp}
      (hend : Ends (Answers W fun _ => True) (storeHandler req) s (.ok resp) s') :
      Run W (⟨req, resp, s.store.clock⟩ :: h) s'

/-- The same operations on the machine. -/
inductive Plays : List Done → Machine → Prop
  | start (clock : ℚ) : Plays [] ⟨clock, fun _ => none⟩
  | wait {h : List Done} {m : Machine} (hplay : Plays h m) (dt : ℚ) : Plays h (m.wait dt)
  | call {h : List Done} {m m' : Machine} (hplay : Plays h m) {req : StoreReq} {resp : StoreResp}
      (hstep : m.Step (fun _ => True) req resp m') : Plays (⟨req, resp, m.clock⟩ :: h) m'

theorem run_refines {W : World} {h : List Done} {s : GwState} (hrun : Run W h s) :
    ∃ m, Plays h m ∧ Refines s m := by
  induction hrun with
  | start clock => exact ⟨_, .start clock, refines_initial clock⟩
  | wait hrun dt hdt ih =>
    obtain ⟨m, hplay, hrefines⟩ := ih
    exact ⟨_, .wait hplay dt, refines_wait hrefines hdt⟩
  | call hrun hok hend ih =>
    obtain ⟨m, hplay, hrefines⟩ := ih
    obtain ⟨resp, m', hresp, hstep, hrefines'⟩ := refines_step hrefines hok hend
    obtain rfl := Except.ok.inj hresp
    rw [hrefines.clock]
    exact ⟨m', .call hplay hstep, hrefines'⟩

/-- The operation opened the approval. -/
def Done.Opens (d : Done) (id : Str) (a : Approval) (clock : ℚ) : Prop :=
  (∃ agentId role toolName arguments reason,
    d.req = .create agentId role toolName arguments reason) ∧
  d.resp = (some a, none) ∧ a.id = id ∧ d.clock = clock

/-- The operation decided the approval. -/
def Done.Decides (d : Done) (id : Str) (a : Approval) : Prop :=
  (∃ choice decidedBy, d.req = .decide id choice decidedBy) ∧ d.resp = (some a, some .decided)

def OpenedAt (h : List Done) (id : Str) (a : Approval) (clock : ℚ) : Prop :=
  ∃ d ∈ h, d.Opens id a clock

def DecidedAs (h : List Done) (id : Str) (a : Approval) : Prop := ∃ d ∈ h, d.Decides id a

theorem openedAt_cons {d : Done} {h : List Done} {id : Str} {a : Approval} {clock : ℚ} :
    OpenedAt (d :: h) id a clock ↔ d.Opens id a clock ∨ OpenedAt h id a clock := by
  simp [OpenedAt]

theorem decidedAs_cons {d : Done} {h : List Done} {id : Str} {a : Approval} :
    DecidedAs (d :: h) id a ↔ d.Decides id a ∨ DecidedAs h id a := by
  simp [DecidedAs]

/-- The tickets are what the history says. -/
def Recalls (h : List Done) (id : Str) : Option Ticket → Prop
  | none => (∀ a clock, ¬ OpenedAt h id a clock) ∧ ∀ a, ¬ DecidedAs h id a
  | some t => (∀ a clock, OpenedAt h id a clock ↔
      a = t.opened ∧ clock + approvalTtlSeconds = t.deadline) ∧
    ∀ a, DecidedAs h id a ↔ t.decision = some a

/-- An operation that neither opens nor decides the approval. -/
theorem Recalls.skip {h : List Done} {id : Str} {d : Done} {t : Option Ticket}
    (hr : Recalls h id t) (hopens : ∀ a clock, ¬ d.Opens id a clock)
    (hdecides : ∀ a, ¬ d.Decides id a) : Recalls (d :: h) id t := by
  cases t with
  | none =>
    exact ⟨fun a clock ho => (openedAt_cons.mp ho).elim (hopens a clock) (hr.1 a clock),
      fun a hd => (decidedAs_cons.mp hd).elim (hdecides a) (hr.2 a)⟩
  | some t =>
    constructor
    · intro a clock
      rw [openedAt_cons, or_iff_right (hopens a clock)]
      exact hr.1 a clock
    · intro a
      rw [decidedAs_cons, or_iff_right (hdecides a)]
      exact hr.2 a

theorem plays_recalls {h : List Done} {m : Machine} (hplay : Plays h m) :
    ∀ id, Recalls h id (m.ticket id) := by
  induction hplay with
  | start clock => exact fun id => ⟨by simp [OpenedAt], by simp [DecidedAs]⟩
  | wait hplay dt ih => exact ih
  | @call h m m' hplay req resp hstep ih =>
    intro id
    cases hstep with
    | @create agentId role toolName arguments reason now hnow u hu t hopened hdecision hdeadline =>
      have hnew : t.opened.id = u.text := by rw [hopened, openedApproval]
      by_cases hid : id = u.text
      · rw [hid]
        have hnone := ih u.text
        rw [hu] at hnone
        rw [ticket_put_self]
        constructor
        · intro a clock
          rw [openedAt_cons, or_iff_left (hnone.1 a clock)]
          constructor
          · rintro ⟨-, hresp, -, hclock⟩
            refine ⟨(Option.some.inj (Prod.mk.inj hresp).1).symm, ?_⟩
            rw [hdeadline, ← hclock]
          · rintro ⟨rfl, hclock⟩
            refine ⟨⟨_, _, _, _, _, rfl⟩, rfl, hnew, ?_⟩
            change m.clock = clock
            linarith
        · intro a
          rw [decidedAs_cons, or_iff_left (hnone.2 a), hdecision]
          simp [Done.Decides]
      · rw [ticket_put_ne m _ hid]
        refine (ih id).skip ?_ (by simp [Done.Decides])
        rintro a clock ⟨-, hresp, haid, -⟩
        rw [← Option.some.inj (Prod.mk.inj hresp).1, hnew] at haid
        exact hid haid.symm
    | get id' => exact (ih id).skip (by simp [Done.Opens]) (by simp [Done.Decides])
    | unknown hnone => exact (ih id).skip (by simp [Done.Opens]) (by simp [Done.Decides])
    | again ht ha => exact (ih id).skip (by simp [Done.Opens]) (by simp [Done.Decides])
    | late ht ha now hnow hlate => exact (ih id).skip (by simp [Done.Opens]) (by simp [Done.Decides])
    | @first id' choice decidedBy t t' ht ha now hnow hearly decidedAt hat hopened hdecision hdeadline =>
      by_cases hid : id = id'
      · subst hid
        have hold := ih id
        rw [(live_some ht).1] at hold
        rw [ticket_put_self]
        constructor
        · intro a clock
          rw [openedAt_cons, or_iff_right (by simp [Done.Opens]), hopened, hdeadline]
          exact hold.1 a clock
        · intro a
          have hnone : ¬ DecidedAs h id a := by
            rw [hold.2 a, ha]
            simp
          rw [decidedAs_cons, or_iff_left hnone, hdecision]
          simp [Done.Decides]
      · rw [ticket_put_ne m _ hid]
        refine (ih id).skip (by simp [Done.Opens]) ?_
        rintro a ⟨⟨choice', decidedBy', hreq⟩, -⟩
        exact hid (StoreReq.decide.inj hreq).1.symm

/-! ## One decision for each approval -/

section Decisions

variable {times : Magnitude → Prop} {m m' : Machine} {id choice decidedBy : Str} {resp : StoreResp}

theorem step_dead (hstep : m.Step times (.decide id choice decidedBy) resp m')
    (hlive : m.live id = none) : resp = (none, some .notFound) := by
  cases hstep with
  | unknown h => rfl
  | again ht ha => rw [hlive] at ht; cases ht
  | late ht ha now hnow hlate => rw [hlive] at ht; cases ht
  | first ht ha now hnow hearly decidedAt hat hopened hdecision hdeadline =>
    rw [hlive] at ht
    cases ht

theorem step_decided {t : Ticket} {d : Approval}
    (hstep : m.Step times (.decide id choice decidedBy) resp m') (hlive : m.live id = some t)
    (hd : t.decision = some d) : resp = (some d, some .alreadyDecided) := by
  cases hstep with
  | unknown h => rw [hlive] at h; cases h
  | again ht ha =>
    obtain rfl := Option.some.inj (hlive.symm.trans ht)
    rw [Option.some.inj (hd.symm.trans ha)]
  | late ht ha now hnow hlate =>
    obtain rfl := Option.some.inj (hlive.symm.trans ht)
    rw [hd] at ha
    cases ha
  | first ht ha now hnow hearly decidedAt hat hopened hdecision hdeadline =>
    obtain rfl := Option.some.inj (hlive.symm.trans ht)
    rw [hd] at ha
    cases ha

/-- A pending approval is decided by a decision in time, and only by one. -/
theorem step_pending {t : Ticket} (hstep : m.Step times (.decide id choice decidedBy) resp m')
    (hlive : m.live id = some t) (hd : t.decision = none) :
    ((∀ x, times x → laterThan x t.opened.expiresAt = true) →
      resp = (some t.opened, some .notFound)) ∧
    ((∀ x, times x → laterThan x t.opened.expiresAt = false) → ∃ decidedAt, times decidedAt ∧
      resp = (some (t.opened.resolve choice decidedBy decidedAt), some .decided)) := by
  cases hstep with
  | unknown h => rw [hlive] at h; cases h
  | again ht ha =>
    obtain rfl := Option.some.inj (hlive.symm.trans ht)
    rw [hd] at ha
    cases ha
  | late ht ha now hnow hlate =>
    obtain rfl := Option.some.inj (hlive.symm.trans ht)
    refine ⟨fun _ => rfl, fun hall => ?_⟩
    rw [hall now hnow] at hlate
    cases hlate
  | first ht ha now hnow hearly decidedAt hat hopened hdecision hdeadline =>
    obtain rfl := Option.some.inj (hlive.symm.trans ht)
    refine ⟨fun hall => ?_, fun _ => ⟨decidedAt, hat, rfl⟩⟩
    rw [hall now hnow] at hearly
    cases hearly

/-- The approval that an operation is about, or that it opens. -/
def Concerns (id : Str) (resp : StoreResp) : StoreReq → Prop
  | .create _ _ _ _ _ => ∃ a, resp.1 = some a ∧ a.id = id
  | .get _ => False
  | .decide id' _ _ => id' = id

theorem step_frame {req : StoreReq} (hstep : m.Step times req resp m')
    (hother : ¬ Concerns id resp req) : m'.live id = m.live id := by
  cases hstep with
  | create now hnow u hu t hopened hdecision hdeadline =>
    apply live_put_ne
    intro heq
    exact hother ⟨t.opened, rfl, by rw [hopened, openedApproval, heq]⟩
  | first ht ha now hnow hearly decidedAt hat hopened hdecision hdeadline =>
    apply live_put_ne
    rintro rfl
    exact hother rfl
  | _ => rfl

end Decisions

theorem live_of_opened {h : List Done} {m : Machine} (hplay : Plays h m) {id : Str} {a : Approval}
    {clock : ℚ} (ho : OpenedAt h id a clock) : ∃ t : Ticket, t.opened = a ∧
      m.live id = (if m.clock < clock + approvalTtlSeconds then some t else none) ∧
      ∀ d, DecidedAs h id d ↔ t.decision = some d := by
  have hrecalls := plays_recalls hplay id
  cases hticket : m.ticket id with
  | none =>
    rw [hticket] at hrecalls
    exact absurd ho (hrecalls.1 a clock)
  | some t =>
    rw [hticket] at hrecalls
    obtain ⟨rfl, hdeadline⟩ := (hrecalls.1 a clock).mp ho
    refine ⟨t, rfl, ?_, hrecalls.2⟩
    rw [Machine.live, hticket, hdeadline]
    by_cases hlive : m.clock < t.deadline <;> simp [Option.filter, hlive]

theorem live_of_unopened {h : List Done} {m : Machine} (hplay : Plays h m) {id : Str}
    (hnone : ∀ a clock, ¬ OpenedAt h id a clock) : m.live id = none := by
  have hrecalls := plays_recalls hplay id
  cases hticket : m.ticket id with
  | none => rw [Machine.live, hticket, Option.filter_none]
  | some t =>
    rw [hticket] at hrecalls
    refine absurd ((hrecalls.1 t.opened (t.deadline - approvalTtlSeconds)).mpr ⟨rfl, ?_⟩) (hnone _ _)
    ring

/-- What a decision comes to after the history `h`. -/
structure OneShot (h : List Done) (times : Magnitude → Prop) (s : GwState)
    (id choice decidedBy : Str) (r : Except GwError StoreResp) (s' : GwState) : Prop where
  unknown : (∀ a clock, ¬ OpenedAt h id a clock) → r = .ok (none, some .notFound) ∧ s' = s
  elapsed : ∀ a clock, OpenedAt h id a clock → clock + approvalTtlSeconds ≤ s.store.clock →
    r = .ok (none, some .notFound) ∧ s' = s
  again : ∀ a clock d, OpenedAt h id a clock → s.store.clock < clock + approvalTtlSeconds →
    DecidedAs h id d → r = .ok (some d, some .alreadyDecided) ∧ s' = s
  late : ∀ a clock, OpenedAt h id a clock → s.store.clock < clock + approvalTtlSeconds →
    (∀ d, ¬ DecidedAs h id d) → (∀ x, times x → laterThan x a.expiresAt = true) →
    r = .ok (some a, some .notFound) ∧ s' = s
  first : ∀ a clock, OpenedAt h id a clock → s.store.clock < clock + approvalTtlSeconds →
    (∀ d, ¬ DecidedAs h id d) → (∀ x, times x → laterThan x a.expiresAt = false) →
    ∃ decidedAt, times decidedAt ∧
      r = .ok (some (a.resolve choice decidedBy decidedAt), some .decided)

theorem decide_oneShot {W : World} {h : List Done} {s s' : GwState} {m : Machine}
    (hplay : Plays h m) (hrefines : Refines s m) {times : Magnitude → Prop}
    {id choice decidedBy : Str} (hby : mergeSurrogates decidedBy = decidedBy)
    {r : Except GwError StoreResp}
    (hend : Ends (Answers W times) (storeHandler (.decide id choice decidedBy)) s r s') :
    OneShot h times s id choice decidedBy r s' := by
  have hok : ReqOk (.decide id choice decidedBy) := hby
  obtain ⟨resp, m', rfl, hstep, -⟩ := refines_step hrefines hok hend
  have hsame : ∀ found outcome, outcome ≠ .decided → resp = (found, some outcome) →
      (.ok resp : Except GwError StoreResp) = .ok (found, some outcome) ∧ s' = s := by
    rintro found outcome houtcome rfl
    exact ⟨rfl, decide_unchanged houtcome hend⟩
  have hclock := hrefines.clock
  constructor
  · intro hnone
    exact hsame _ _ (by simp) (step_dead hstep (live_of_unopened hplay hnone))
  · intro a clock ho hgone
    obtain ⟨t, -, hlive, -⟩ := live_of_opened hplay ho
    rw [if_neg (by rw [← hclock]; exact not_lt.mpr hgone)] at hlive
    exact hsame _ _ (by simp) (step_dead hstep hlive)
  · intro a clock d ho halive hd
    obtain ⟨t, -, hlive, hdecided⟩ := live_of_opened hplay ho
    rw [if_pos (by rwa [← hclock])] at hlive
    exact hsame _ _ (by simp) (step_decided hstep hlive ((hdecided d).mp hd))
  · intro a clock ho halive hnone hlate
    obtain ⟨t, rfl, hlive, hdecided⟩ := live_of_opened hplay ho
    rw [if_pos (by rwa [← hclock])] at hlive
    have hpending : t.decision = none := by
      cases hd : t.decision with
      | none => rfl
      | some d => exact absurd ((hdecided d).mpr hd) (hnone d)
    exact hsame _ _ (by simp) ((step_pending hstep hlive hpending).1 hlate)
  · intro a clock ho halive hnone hearly
    obtain ⟨t, rfl, hlive, hdecided⟩ := live_of_opened hplay ho
    rw [if_pos (by rwa [← hclock])] at hlive
    have hpending : t.decision = none := by
      cases hd : t.decision with
      | none => rfl
      | some d => exact absurd ((hdecided d).mpr hd) (hnone d)
    obtain ⟨decidedAt, hat, rfl⟩ := (step_pending hstep hlive hpending).2 hearly
    exact ⟨decidedAt, hat, rfl⟩

/-- The records of the history: one opening and one decision for each approval, which changes
nothing but the status and who decided when. -/
structure Records (h : List Done) : Prop where
  opened : ∀ id a b c d, OpenedAt h id a c → OpenedAt h id b d → a = b ∧ c = d
  decided : ∀ id a b, DecidedAs h id a → DecidedAs h id b → a = b
  resolved : ∀ id d, DecidedAs h id d → ∃ a clock choice decidedBy decidedAt,
    OpenedAt h id a clock ∧ d = a.resolve choice decidedBy decidedAt

theorem plays_records {h : List Done} {m : Machine} (hplay : Plays h m) : Records h := by
  constructor
  · intro id a b c d ha hb
    have hrecalls := plays_recalls hplay id
    cases hticket : m.ticket id with
    | none =>
      rw [hticket] at hrecalls
      exact absurd ha (hrecalls.1 a c)
    | some t =>
      rw [hticket] at hrecalls
      obtain ⟨rfl, hc⟩ := (hrecalls.1 a c).mp ha
      obtain ⟨rfl, hd⟩ := (hrecalls.1 b d).mp hb
      exact ⟨rfl, by linarith⟩
  · intro id a b ha hb
    have hrecalls := plays_recalls hplay id
    cases hticket : m.ticket id with
    | none =>
      rw [hticket] at hrecalls
      exact absurd ha (hrecalls.2 a)
    | some t =>
      rw [hticket] at hrecalls
      exact Option.some.inj (((hrecalls.2 a).mp ha).symm.trans ((hrecalls.2 b).mp hb))
  · intro id d hd
    have hrecalls := plays_recalls hplay id
    cases hticket : m.ticket id with
    | none =>
      rw [hticket] at hrecalls
      exact absurd hd (hrecalls.2 d)
    | some t =>
      rw [hticket] at hrecalls
      obtain ⟨-, -, choice, decidedBy, decidedAt, rfl⟩ := t.resolved d ((hrecalls.2 d).mp hd)
      refine ⟨t.opened, t.deadline - approvalTtlSeconds, choice, decidedBy, decidedAt, ?_, rfl⟩
      exact (hrecalls.1 _ _).mpr ⟨rfl, by ring⟩

/-- What `get_approval` gives after the history `h`. -/
structure Reads (h : List Done) (s : GwState) (id : Str) (r : Except GwError StoreResp) : Prop where
  unknown : (∀ a clock, ¬ OpenedAt h id a clock) → r = .ok (none, none)
  elapsed : ∀ a clock, OpenedAt h id a clock → clock + approvalTtlSeconds ≤ s.store.clock →
    r = .ok (none, none)
  decided : ∀ a clock d, OpenedAt h id a clock → s.store.clock < clock + approvalTtlSeconds →
    DecidedAs h id d → r = .ok (some d, none)
  pending : ∀ a clock, OpenedAt h id a clock → s.store.clock < clock + approvalTtlSeconds →
    (∀ d, ¬ DecidedAs h id d) → r = .ok (some a, none)

theorem get_reads {W : World} {h : List Done} {s s' : GwState} {m : Machine} (hplay : Plays h m)
    (hrefines : Refines s m) {times : Magnitude → Prop} {id : Str} {r : Except GwError StoreResp}
    (hend : Ends (Answers W times) (storeHandler (.get id)) s r s') : Reads h s id r := by
  have hok : ReqOk (.get id) := trivial
  obtain ⟨resp, m', rfl, hstep, -⟩ := refines_step hrefines hok hend
  obtain rfl : resp = ((m.live id).map Ticket.record, none) := by
    cases hstep
    rfl
  have hclock := hrefines.clock
  constructor
  · intro hnone
    rw [live_of_unopened hplay hnone, Option.map_none]
  · intro a clock ho hgone
    obtain ⟨t, -, hlive, -⟩ := live_of_opened hplay ho
    rw [hlive, if_neg (by rw [← hclock]; exact not_lt.mpr hgone), Option.map_none]
  · intro a clock d ho halive hd
    obtain ⟨t, -, hlive, hdecided⟩ := live_of_opened hplay ho
    rw [hlive, if_pos (by rwa [← hclock]), Option.map_some, Ticket.record, (hdecided d).mp hd,
      Option.getD_some]
  · intro a clock ho halive hnone
    obtain ⟨t, rfl, hlive, hdecided⟩ := live_of_opened hplay ho
    have hpending : t.decision = none := by
      cases hd : t.decision with
      | none => rfl
      | some d => exact absurd ((hdecided d).mpr hd) (hnone d)
    rw [hlive, if_pos (by rwa [← hclock]), Option.map_some, Ticket.record, hpending,
      Option.getD_none]

/-- After every run of the store each approval is decided once and for all in its time, reads as
its one record, and is left alone by the operations on the others. -/
theorem store_is_one_shot {W : World} {h : List Done} {s : GwState} (hrun : Run W h s) :
    Records h ∧
    (∀ times id choice decidedBy, mergeSurrogates decidedBy = decidedBy →
      ((∃ x, times x) → ∃ r s',
        Ends (Answers W times) (storeHandler (.decide id choice decidedBy)) s r s') ∧
      ∀ r s', Ends (Answers W times) (storeHandler (.decide id choice decidedBy)) s r s' →
        OneShot h times s id choice decidedBy r s') ∧
    (∀ times id r s', Ends (Answers W times) (storeHandler (.get id)) s r s' → Reads h s id r) ∧
    ∀ times req r s', ReqOk req → Ends (Answers W times) (storeHandler req) s r s' →
      ∃ resp, r = .ok resp ∧ ∀ id, ¬ Concerns id resp req →
        s'.store.slot (approvalKey id) = s.store.slot (approvalKey id) := by
  obtain ⟨m, hplay, hrefines⟩ := run_refines hrun
  refine ⟨plays_records hplay, ?_, ?_, ?_⟩
  · intro times id choice decidedBy hby
    exact ⟨fun hclock => decide_ends hclock hrefines id choice decidedBy,
      fun r s' hend => decide_oneShot hplay hrefines hby hend⟩
  · exact fun times id r s' hend => get_reads hplay hrefines hend
  · intro times req r s' hok hend
    obtain ⟨resp, m', hresp, hstep, hrefines'⟩ := refines_step hrefines hok hend
    refine ⟨resp, hresp, fun id hother => ?_⟩
    rw [hrefines'.slots, hrefines.slots, step_frame hstep hother]

/-- A restart is held. -/
def restartRequest : StoreReq :=
  .create (lit "agent01") (lit "sre1") (lit "restart_deployment") restartArguments (lit "restart")

def restartApproval : Approval :=
  openedApproval (lit "agent01") (lit "sre1") (lit "restart_deployment") restartArguments
    (lit "restart") zeroMagnitude 1

/-- It is opened and decided at once, and the decision that comes second finds the first one. -/
theorem store_is_one_shot_twice : ∃ h s a, Run openWorld h s ∧ h.length = 2 ∧
    DecidedAs h (Uuid.text 1) a ∧ a.arguments = restartArguments ∧ ∃ r,
      Ends (Answers openWorld fun _ => True)
        (storeHandler (.decide (Uuid.text 1) (lit "deny") (lit "bob"))) s r s ∧
      r = .ok (some a, some .alreadyDecided) := by
  have hok : ReqOk restartRequest := by
    refine ⟨fun text htext => ?_, rfl⟩
    simp only [List.mem_cons, List.not_mem_nil, or_false] at htext
    rcases htext with rfl | rfl | rfl | rfl <;> decide +kernel
  obtain ⟨s, hcreate, hclock⟩ : ∃ s, Ends (Answers openWorld fun _ => True)
      (storeHandler restartRequest) (.initial 0) (.ok (some restartApproval, none)) s ∧
        s.store.clock = 0 :=
    ⟨_, ends_bind.mpr (Or.inl ⟨_, _, ends_createPendingApproval.mpr
      ⟨zeroMagnitude, 1, trivial, List.not_mem_nil, rfl, rfl⟩, .ret _ _⟩), rfl⟩
  have hopening := Run.call (.start 0) hok hcreate
  have hopened : OpenedAt [⟨restartRequest, (some restartApproval, none), 0⟩] (Uuid.text 1)
      restartApproval 0 := ⟨_, List.mem_cons_self, ⟨_, _, _, _, _, rfl⟩, rfl, rfl, rfl⟩
  have halive : s.store.clock < 0 + (approvalTtlSeconds : ℚ) := by
    rw [hclock]
    norm_num [approvalTtlSeconds]
  -- the first decision
  have hfirst := (store_is_one_shot hopening).2.1 (· = zeroMagnitude) (Uuid.text 1) (lit "approve")
    (lit "alice") (by decide +kernel)
  obtain ⟨r, s', hend⟩ := hfirst.1 ⟨zeroMagnitude, rfl⟩
  obtain ⟨decidedAt, -, rfl⟩ := (hfirst.2 r s' hend).first restartApproval 0 hopened halive
    (by
      rintro d ⟨done, hdone, ⟨choice, decidedBy, hreq⟩, -⟩
      rw [List.mem_singleton.mp hdone] at hreq
      cases hreq)
    (by
      rintro x rfl
      decide +kernel)
  have hby : ReqOk (.decide (Uuid.text 1) (lit "approve") (lit "alice")) := by
    change mergeSurrogates (lit "alice") = lit "alice"
    decide +kernel
  have hdeciding := Run.call hopening hby (hend.mono answers_anytime)
  -- the second one
  have hsecond := (store_is_one_shot hdeciding).2.1 (fun _ => True) (Uuid.text 1) (lit "deny")
    (lit "bob") (by decide +kernel)
  obtain ⟨r, s'', hend'⟩ := hsecond.1 ⟨zeroMagnitude, trivial⟩
  have hdecided : DecidedAs [⟨.decide (Uuid.text 1) (lit "approve") (lit "alice"),
      (some (restartApproval.resolve (lit "approve") (lit "alice") decidedAt), some .decided),
      s.store.clock⟩, ⟨restartRequest, (some restartApproval, none), 0⟩] (Uuid.text 1)
      (restartApproval.resolve (lit "approve") (lit "alice") decidedAt) :=
    decidedAs_cons.mpr (Or.inl ⟨⟨_, _, rfl⟩, rfl⟩)
  have halive' : s'.store.clock < 0 + (approvalTtlSeconds : ℚ) := by
    rw [decide_clock hend]
    exact halive
  obtain ⟨rfl, rfl⟩ := (hsecond.2 r s'' hend').again restartApproval 0 _
    (openedAt_cons.mpr (Or.inr hopened)) halive' hdecided
  exact ⟨_, _, _, hdeciding, rfl, hdecided, rfl, _, hend', rfl⟩

end ApprovalMachine
