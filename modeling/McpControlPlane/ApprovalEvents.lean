import McpControlPlane.ApprovalRecords
import McpControlPlane.CallReports
import McpControlPlane.SseHub

/-! # What an agent is pushed

`decide` puts an event into the hub once its audit row is committed, under the agent that the record
names; the `sse` endpoint turns what it takes from its queue into frames. The frames of a stream
hence tell of approvals that the agent of the stream has asked for, each once and in order. -/
namespace ApprovalEvents

open PyText Binary64 JsonText JsonDict PyJson UuidTime AuditLog ToolPolicy
open GatewayOps ApprovalStore SlackSignature Gateway GatewaySpecs Mediation ApprovalRaces
open ApprovalRecords Interleaving SseHub
open CallReports (pushOf)

variable {G : Config} {W : World}

/-! ## Who publishes -/

/-- A decide request pushes an event about its approval right after its row was committed, which it
recorded after it had stored the decision. -/
def Announces {approvalId : Str} {timestamp signature : Option Str} {body : Bytes}
    (R : Ruling G approvalId timestamp signature body) (tr : Trace gateway) (agentId : Str)
    (event : Json) : Prop :=
  agentId = R.approval.agentId ∧ (∃ status more, event = sseEvent R.approval status more) ∧
    ∃ row before, tr = ⟨.recordToolCall row, some ()⟩ :: before ∧ R.after <:+ before ∧
      row.approvalId = some R.approval.id

def PushOk (G : Config) : GwReq → Trace gateway → GwOp → Prop
  | .decide approvalId timestamp signature body, tr, .publish agentId event =>
      ∃ R : Ruling G approvalId timestamp signature body, Announces R tr agentId event
  | _, _, .publish _ _ => False
  | _, _, _ => True

/-- An operation that publishes nothing. -/
def Mute (o : GwOp) : Prop := ∀ agentId event, o ≠ .publish agentId event

theorem pushOk_mute {req : GwReq} {tr : Trace gateway} {o : GwOp} (ho : Mute o) :
    PushOk G req tr o := by
  cases o with
  | publish agentId event => exact absurd rfl (ho agentId event)
  | _ => cases req <;> trivial

/-- A specification that asks nothing of operations that publish nothing. -/
def Lenient (ok : Trace gateway → GwOp → Prop) : Prop := ∀ tr o, Mute o → ok tr o

theorem lenient_pushOk (req : GwReq) : Lenient (PushOk G req) := fun _ _ ho => pushOk_mute ho

section Silent

variable {ok : Trace gateway → GwOp → Prop} {tr : Trace gateway}

/-- Nothing is asked of the end. -/
abbrev Silent (ok : Trace gateway → GwOp → Prop) (q : Prog gateway Response) (tr : Trace gateway) :
    Prop := Sat ok (fun _ _ => True) q tr

theorem record_silent (hok : Lenient ok) {call : Call} {decision : Str} {reason : Option Str}
    {result : Option Json} {approvalId : Option Str} {q : Prog gateway Response} (hq : Final q) :
    Silent ok (record call decision reason result approvalId >>= fun _ => q) tr := by
  refine sat_bind.mpr ?_
  apply record_sat
  · exact hok _ _ (fun _ _ he => by cases he)
  · exact fun _ => hok _ _ (fun _ _ he => by cases he)
  · exact fun _ _ => hok _ _ (fun _ _ he => by cases he)
  · exact fun _ _ => hq.sat fun _ => trivial
  · exact fun _ _ => trivial

theorem executeDirectly_silent (hok : Lenient ok) (rpcId : Json) (ctx : ToolCallContext)
    (decision : PolicyDecision.Decision) : Silent ok (executeDirectly G rpcId ctx decision) tr := by
  refine sat_perform.mpr ⟨hok _ _ ?_, fun outcome => ?_, fun _ _ => True.intro⟩
  · intro agentId event he
    cases he
  cases outcome with
  | executorError errorType message =>
    cases hstatus : errorTypeStatus errorType with
    | none =>
      simp only [hstatus]
      exact True.intro
    | some status =>
      simp only [hstatus]
      exact record_silent hok (final_ret _)
  | unhandledError message => exact record_silent hok (final_ret _)
  | success result => exact record_silent hok (final_returned G _)

theorem holdForApproval_silent (hok : Lenient ok) (rpcId : Json) (ctx : ToolCallContext)
    (decision : PolicyDecision.Decision) : Silent ok (holdForApproval G rpcId ctx decision) tr := by
  refine sat_bind.mpr ?_
  apply createPendingApproval_sat
  · exact hok _ _ (fun _ _ he => by cases he)
  · exact fun _ => hok _ _ (fun _ _ he => by cases he)
  · exact fun _ _ _ => trivial
  · exact fun _ _ => hok _ _ (fun _ _ he => by cases he)
  · intro _ now u
    change Silent ok _ _
    refine sat_perform.mpr ⟨hok _ _ ?_, fun _ => record_silent hok (final_ret _), fun _ _ => True.intro⟩
    intro agentId event he
    cases he
  · exact fun _ _ => trivial

theorem judge_silent (hok : Lenient ok) (rpcId : Json) (ctx : ToolCallContext) :
    Silent ok (judge G rpcId ctx) tr := by
  apply judge_rule
  · intro i
    apply hok
    intro agentId event he
    cases he
  · exact fun _ _ => trivial
  · exact fun decision _ _ => holdForApproval_silent hok rpcId ctx decision
  · exact fun decision _ _ => executeDirectly_silent hok rpcId ctx decision
  · exact fun _ _ _ => record_silent hok (final_ret _)

theorem mcp_silent (hok : Lenient ok) (agent : Agent) (body : Str) :
    Silent ok (mcp G agent body) tr := by
  rcases mcp_cases G agent body with ⟨resp, h⟩ | ⟨e, h⟩ | ⟨rpcId, ctx, h⟩
  · rw [h]
    exact True.intro
  · rw [h]
    exact True.intro
  · rw [h]
    exact judge_silent hok rpcId ctx

end Silent

section Decide

variable {approvalId : Str} {timestamp signature : Option Str} {body : Bytes}

theorem record_announces {R : Ruling G approvalId timestamp signature body} {call : Call}
    {decision : Str} {reason : Option Str} {result : Option Json} {tr : Trace gateway}
    {status : String} {more : List (Str × Json)} {resp : Response} (hsuffix : R.after <:+ tr) :
    Silent (PushOk G (.decide approvalId timestamp signature body))
      (record call decision reason result (some R.approval.id) >>= fun _ =>
        perform (S := gateway) (.publish R.approval.agentId (sseEvent R.approval status more)) >>=
          fun _ => .ret resp) tr := by
  refine sat_bind.mpr ?_
  apply record_sat
  · trivial
  · exact fun _ => trivial
  · exact fun _ _ => trivial
  · intro ms now
    change Silent _ _ _
    refine sat_perform.mpr ⟨⟨R, rfl, ⟨status, more, rfl⟩, _, _, rfl, ?_, rfl⟩,
      fun _ => trivial, fun _ _ => trivial⟩
    exact (hsuffix.trans (List.suffix_cons _ _)).trans (List.suffix_cons _ _)
  · exact fun _ _ => trivial

theorem answerDecision_announces (R : Ruling G approvalId timestamp signature body) :
    Silent (PushOk G (.decide approvalId timestamp signature body))
      (answerDecision R.payload (some R.resolved, .decided)) R.after := by
  change Silent _ (if decidedStatus R.payload.decision = lit "denied" then _ else _) _
  by_cases hdenied : decidedStatus R.payload.decision = lit "denied"
  · rw [if_pos hdenied]
    exact record_announces (R := R) (List.suffix_refl _)
  · rw [if_neg hdenied]
    refine sat_perform.mpr ⟨trivial, fun outcome => ?_, fun _ _ => trivial⟩
    have hsuffix : R.after <:+ ranTrace R.approval.toolName R.approval.arguments outcome R.after :=
      List.suffix_cons _ _
    cases outcome with
    | success result => exact record_announces (R := R) hsuffix
    | executorError errorType message => exact record_announces (R := R) hsuffix
    | unhandledError message => exact record_announces (R := R) hsuffix

theorem decideApproval_announces : Silent (PushOk G (.decide approvalId timestamp signature body))
    (Gateway.decideApproval G approvalId timestamp signature body) [] := by
  refine sat_bind.mpr ?_
  apply verifySignature_sat
  · trivial
  · trivial
  · exact fun _ => trivial
  · exact fun _ _ => trivial
  intro now hsigned
  change Silent _ _ _
  simp only [not_true_eq_false, if_false]
  cases hvalid : G.validate body with
  | error exc => trivial
  | ok payload =>
    simp only
    by_cases hverdict : payload.decision = lit "approve" ∨ payload.decision = lit "deny"
    · rw [if_neg (by tauto)]
      refine sat_bind.mpr ?_
      apply ApprovalStore.decideApproval_sat
      · trivial
      · trivial
      · trivial
      · exact fun _ _ _ => trivial
      · exact fun _ _ _ _ => trivial
      · exact fun _ => trivial
      · exact fun _ _ _ _ => trivial
      · exact fun _ _ => trivial
      · intro raw a later decidedAt hraw hpending htime
        let R : Ruling G approvalId timestamp signature body :=
          ⟨payload, raw, a, now, later, decidedAt, hsigned, hvalid, hverdict, hraw, hpending, htime⟩
        exact ⟨trivial, answerDecision_announces R, trivial⟩
    · rw [if_pos (by tauto)]
      trivial

end Decide

theorem push_sat (req : GwReq) : Silent (PushOk G req) (handle G req) [] := by
  cases req with
  | mcp agent body => exact mcp_silent (lenient_pushOk _) agent body
  | decide approvalId timestamp signature body => exact decideApproval_announces
  | status approvalId =>
    refine sat_bind.mpr ?_
    apply getApproval_sat
    · trivial
    · trivial
    · exact fun _ a _ => (final_returnApproval G a).sat fun _ => trivial
    · exact fun _ _ _ => trivial
    · trivial

/-! ## What was pushed -/

/-- The events that the requests of one process have pushed, the last one first. -/
def pushes (here : ℕ → Bool) (h : History G W) : List (Str × Json) :=
  h.filterMap fun e => if here e.tid then pushOf e.entry else none

/-- A callback pushed the event, about an approval that the agent had asked for. The last thing that
the same callback had done was to record its row about the approval, which was committed, and it had
stored its decision before. -/
def TellsOf (h : History G W) (agentId : Str) (event : Json) : Prop :=
  ∃ (approvalId : Str) (timestamp signature : Option Str) (body : Bytes)
    (R : Ruling G approvalId timestamp signature body) (h₁ h₂ : History G W)
    (e : Event (gatewaySystem G W)) (row : AuditEvent) (before : Trace gateway) (status : String)
    (more : List (Str × Json)),
    h = h₁ ++ e :: h₂ ∧ e.req = .decide approvalId timestamp signature body ∧
    pushOf e.entry = some (agentId, event) ∧ event = sseEvent R.approval status more ∧
    own e.tid h₂ = ⟨.recordToolCall row, some ()⟩ :: before ∧ R.after <:+ before ∧
    row.approvalId = some approvalId ∧ Opened h₂ approvalId R.approval ∧
    R.approval.agentId = agentId

theorem pushOf_some {e : Entry gateway} {agentId : Str} {event : Json}
    (h : pushOf e = some (agentId, event)) : e.op = .publish agentId event := by
  unfold pushOf at h
  split at h
  · simp only [Option.some.injEq, Prod.mk.injEq] at h
    obtain ⟨rfl, rfl⟩ := h
    rfl
  · cases h

theorem push_tells {C : GatewayPool G W → Move (gatewaySystem G W) → Prop} {p : GatewayPool G W}
    (hp : Reachable C p) {e : Event (gatewaySystem G W)} (he : e ∈ p.hist) {agentId : Str}
    {event : Json} (hpush : pushOf e.entry = some (agentId, event)) :
    TellsOf p.hist agentId event := by
  have hobeys : Obeys (Y := gatewaySystem G W) (PushOk G) (fun _ _ _ => True) p :=
    reachable_obeys push_sat hp
  obtain ⟨h₁, h₂, hsplit, hop⟩ := hobeys.log.mem he
  rw [pushOf_some hpush] at hop
  have hlawful := (reachable_lawful hp).log
  have htold := (reachable_backed hp).told
  rw [hsplit] at hlawful htold
  cases hreq : e.req with
  | mcp agent body =>
    rw [hreq] at hop
    cases hop
  | status approvalId =>
    rw [hreq] at hop
    cases hop
  | decide approvalId timestamp signature body =>
    rw [hreq] at hop
    obtain ⟨R, rfl, ⟨status, more, hevent⟩, row, before, hown, hafter, hid⟩ := hop
    have hread : (⟨.redisGet (approvalKey approvalId), some (some R.raw)⟩ : Entry gateway) ∈
        own e.tid h₂ := by
      rw [hown]
      exact List.mem_cons_of_mem _ (hafter.subset (List.mem_cons_of_mem _ (read_before R)))
    obtain ⟨hopened, -⟩ := ruling_found (Log.of_append hlawful).2 (Log.of_append htold).2 hread
    exact ⟨approvalId, timestamp, signature, body, R, h₁, h₂, e, row, before, status, more, hsplit,
      hreq, hpush, hevent, hown, hafter, hopened.id ▸ hid, hopened, rfl⟩

/-! ## Streams -/

/-- What `event_generator` yields: an event of the hub, or a heartbeat where none came in time. -/
inductive Frame where
  | approvalResult (data : Str)
  | heartbeat

def Frame.data : Frame → Option Str
  | .approvalResult data => some data
  | .heartbeat => none

/-- What one turn of the loop of `event_generator` yields; it takes the event off the queue. -/
def frameOf (s : Hub Json) (queue : ℕ) : Frame :=
  match (s.queue queue).waiting with
  | [] => .heartbeat
  | event :: _ => .approvalResult (dumps event)

/-- The frames of a stream. -/
def frames : List (HubOp Json) → Subscription → List Frame
  | [], _ => []
  | .take sub' :: h, sub =>
    if sub' = sub then
      frames h sub ++ (run h).toOption.toList.map fun s => frameOf s sub.queue
    else frames h sub
  | _ :: h, sub => frames h sub

/-- The loop runs inside of `async with`. -/
def Attended {ε : Type} : List (HubOp ε) → Prop
  | [] => True
  | .take sub :: h => isOpen h sub = true ∧ Attended h
  | _ :: h => Attended h

theorem frames_early {h : List (HubOp Json)} (ha : Attended h) {sub : Subscription}
    (hno : entered h sub = false) : frames h sub = [] := by
  induction h with
  | nil => rfl
  | cons op h ih =>
    cases op with
    | enter agentId =>
      simp only [entered, Bool.or_eq_false_iff] at hno
      exact ih ha hno.2
    | exit sub' ending => exact ih ha hno
    | publish agentId event => exact ih ha hno
    | take sub' =>
      have hne : sub' ≠ sub := by
        rintro rfl
        have hyes := entered_of_open ha.1
        exact absurd hyes (Bool.eq_false_iff.mp hno)
      rw [frames, if_neg hne]
      exact ih ha.2 hno

theorem exit_queue {ε : Type} {s s' : Hub ε} {agentId : Str} {queue : ℕ}
    (h : s.exit agentId queue = .ok s') : s'.queue = s.queue := by
  unfold Hub.exit at h
  split at h
  · cases h
  · split_ifs at h
    · obtain rfl := Except.ok.inj h
      rfl
    · obtain rfl := Except.ok.inj h
      rfl

theorem putAll_taken {ε : Type} (event : ε) (queues : List ℕ) (s : Hub ε) (q : ℕ) :
    ((queues.foldl (fun s queue => s.put queue event) s).queue q).taken = (s.queue q).taken := by
  induction queues generalizing s with
  | nil => rfl
  | cons q₀ queues ih =>
    rw [List.foldl_cons, ih]
    by_cases hq : q = q₀
    · subst hq
      simp [Hub.put]
    · simp [Hub.put, hq]

/-- The frames with data are what was taken off the queue. -/
theorem frames_taken {h : List (HubOp Json)} (hl : SseHub.Lawful h) (ha : Attended h) {s : Hub Json}
    (hrun : run h = .ok s) {sub : Subscription} (he : entered h sub = true) :
    (frames h sub).filterMap Frame.data = (s.queue sub.queue).taken.map dumps := by
  induction h generalizing s with
  | nil => cases he
  | cons op h ih =>
    have hlh : SseHub.Lawful h := by
      cases op with
      | exit sub' ending => exact hl.2
      | _ => exact hl
    obtain ⟨s₀, hrun₀, hs₀⟩ := run_exact hlh
    rw [run, hrun₀] at hrun
    cases op with
    | enter agentId =>
      obtain rfl := Except.ok.inj hrun
      simp only [entered, Bool.or_eq_true, decide_eq_true_eq] at he
      by_cases hold : entered h sub = true
      · have hne : sub.queue ≠ s₀.made := by
          rw [hs₀.made]
          exact (entered_lt hold).ne
        have hsame : ((s₀.enter agentId).queue sub.queue) = s₀.queue sub.queue := by
          simp [Hub.enter, Function.update_of_ne hne]
        change (frames h sub).filterMap Frame.data = _
        rw [ih hlh ha hrun₀ hold, hsame]
      · obtain rfl := he.resolve_right hold
        change (frames h ⟨agentId, entries h⟩).filterMap Frame.data = _
        rw [frames_early (h := h) ha (Bool.eq_false_iff.mpr hold)]
        simp [Hub.enter, hs₀.made]
    | exit sub' ending =>
      change (frames h sub).filterMap Frame.data = _
      rw [ih hlh ha hrun₀ he, exit_queue hrun]
    | publish agentId event =>
      obtain rfl := Except.ok.inj hrun
      change (frames h sub).filterMap Frame.data = _
      rw [ih hlh ha hrun₀ he, Hub.publish, putAll_taken]
    | take sub' =>
      obtain rfl := Except.ok.inj hrun
      have he : entered h sub = true := he
      have hbefore := ih hlh ha.2 hrun₀ he
      by_cases hsub : sub' = sub
      · subst hsub
        rw [frames, if_pos rfl, List.filterMap_append, hbefore, hrun₀]
        cases hw : (s₀.queue sub'.queue).waiting with
        | nil => simp [Except.toOption, frameOf, Frame.data, Hub.take, hw]
        | cons event waiting => simp [Except.toOption, frameOf, Frame.data, Hub.take, hw]
      · have hne : sub.queue ≠ sub'.queue :=
          fun hq => hsub (entered_unique he (entered_of_open ha.1) hq).symm
        rw [frames, if_neg hsub, hbefore]
        cases hw : (s₀.queue sub'.queue).waiting with
        | nil => simp [Hub.take, hw]
        | cons event waiting => simp [Hub.take, hw, Function.update_of_ne hne]

/-! ## From the gateway to the stream -/

/-- The publications of a hub, the last one first. -/
def hubPushes {ε : Type} (ops : List (HubOp ε)) : List (Str × ε) :=
  ops.filterMap fun
    | .publish agentId event => some (agentId, event)
    | _ => none

/-- One process: into its hub goes what the requests that it serves have pushed. -/
structure Connected (here : ℕ → Bool) (p : GatewayPool G W) (ops : List (HubOp Json)) : Prop where
  reached : Reachable (fun _ _ => True) p
  pushed : hubPushes ops = pushes here p.hist
  lawful : SseHub.Lawful ops
  attended : Attended ops

/-- The events for an agent, the first one first. -/
def eventsFor {ε : Type} (agentId : Str) (pushed : List (Str × ε)) : List ε :=
  pushed.reverse.filterMap fun x => if x.1 = agentId then some x.2 else none

theorem published_sublist {ε : Type} (ops : List (HubOp ε)) (sub : Subscription) :
    (published ops sub).Sublist (eventsFor sub.agentId (hubPushes ops)) := by
  induction ops with
  | nil => exact List.Sublist.refl _
  | cons op ops ih =>
    cases op with
    | publish agentId event =>
      have hcons : hubPushes (.publish agentId event :: ops) = (agentId, event) :: hubPushes ops := rfl
      rw [hcons, eventsFor, List.reverse_cons, List.filterMap_append, published]
      apply List.Sublist.append ih
      by_cases hagent : agentId = sub.agentId
      · by_cases hopen : isOpen ops sub = true
        · simp [hagent, hopen]
        · simp [hopen]
      · simp [hagent]
    | enter agentId => exact ih
    | exit sub' ending => exact ih
    | take sub' => exact ih

/-- The frames of a stream carry the events of its subscription in order, none twice and none left
out, each on one line. All of them tell of approvals that the agent of the stream has asked for,
after the callback has committed the row of its decision. -/
theorem streams_tell_of_own_approvals (here : ℕ → Bool) (p : GatewayPool G W)
    (ops : List (HubOp Json)) (h : Connected here p ops) (sub : Subscription)
    (he : entered ops sub = true) :
    ∃ events, (frames ops sub).filterMap Frame.data = events.map dumps ∧
      events <+: published ops sub ∧
      events.Sublist (eventsFor sub.agentId (pushes here p.hist)) ∧
      ∀ event ∈ events, TellsOf p.hist sub.agentId event ∧
        ∀ c ∈ dumps event, printable c = true := by
  obtain ⟨s, hrun, hs⟩ := run_exact h.lawful
  have hbegin : (s.queue sub.queue).taken <+: published ops sub := by
    rw [← hs.delivered sub he]
    exact List.prefix_append _ _
  have hsublist : (s.queue sub.queue).taken.Sublist
      (eventsFor sub.agentId (pushes here p.hist)) := by
    rw [← h.pushed]
    exact hbegin.sublist.trans (published_sublist ops sub)
  refine ⟨_, frames_taken h.lawful h.attended hrun he, hbegin, hsublist, ?_⟩
  intro event hevent
  refine ⟨?_, dumps_printable event⟩
  have hmem := hsublist.subset hevent
  simp only [eventsFor, pushes, List.mem_filterMap, List.mem_reverse] at hmem
  obtain ⟨⟨agentId, event'⟩, ⟨f, hf, hpush⟩, hagent⟩ := hmem
  split_ifs at hagent with heq
  obtain rfl := Option.some.inj hagent
  split_ifs at hpush with hhere
  have htells := push_tells h.reached hf hpush
  simp only at heq
  rwa [heq] at htells

/-- Opened, approved, run, recorded and published. -/
def demoPushed : Option DemoPool :=
  demo (demoOpen 0 1 ++ demoHeld 0 ++ demoRead 1 (Uuid.text 1) approveBody ++ demoRun 1 ++
    [.answer 1 (.duration 5), .answer 1 (.now zeroMagnitude), .answer 1 .plain, .answer 1 .plain])

/-- The agent listens all the time. -/
def demoStream (event : Json) : List (HubOp Json) :=
  [.take ⟨lit "agent01", 0⟩, .publish (lit "agent01") event, .enter (lit "agent01")]

theorem approved_restart_is_streamed : ∃ (p : DemoPool) (event : Json),
    frames (demoStream event) ⟨lit "agent01", 0⟩ = [.approvalResult (dumps event)] ∧
      TellsOf p.hist (lit "agent01") event := by
  have hrun : (demoPushed.map fun p => (pushes (fun _ => true) p.hist).map Prod.fst) =
      some [lit "agent01"] := by decide +kernel
  obtain ⟨p, hp, hagents⟩ := Option.map_eq_some_iff.mp hrun
  obtain ⟨⟨agentId, event⟩, hpushes, hagent⟩ := List.map_eq_singleton_iff.mp hagents
  simp only at hagent
  subst hagent
  have hconnected : Connected (fun _ => true) p (demoStream event) := by
    refine ⟨reachable_demo hp, hpushes.symm, True.intro, ⟨?_, True.intro⟩⟩
    simp [isOpen, entered, exited, entries]
  have hframes : frames (demoStream event) ⟨lit "agent01", 0⟩ = [.approvalResult (dumps event)] := rfl
  have hpublished : published (demoStream event) ⟨lit "agent01", 0⟩ = [event] := rfl
  obtain ⟨events, hdata, hbegin, -, htells⟩ := streams_tell_of_own_approvals (fun _ => true) p
    (demoStream event) hconnected ⟨lit "agent01", 0⟩ (by simp [demoStream, entered, entries])
  rw [hframes] at hdata
  rw [hpublished] at hbegin
  cases events with
  | nil => cases hdata
  | cons first rest =>
    obtain rfl := List.mem_singleton.mp (hbegin.subset List.mem_cons_self)
    exact ⟨p, first, hframes, (htells first List.mem_cons_self).1⟩

end ApprovalEvents
