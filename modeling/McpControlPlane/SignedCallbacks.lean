import McpControlPlane.ApprovalRaces

/-! # Which approval a signature is for

Slack signs a callback for one approval, but what it signs does not name it: the approval is the
one of the URL. -/
namespace SignedCallbacks

open PyText Binary64 JsonText JsonDict PyJson UuidTime AuditLog ToolPolicy PolicyDecision
open GatewayOps ApprovalStore SlackSignature Gateway GatewaySpecs Mediation ApprovalRaces
open Interleaving

variable {G : Config} {W : World}

/-- Slack has signed the timestamp and the body for a decision on the approval. -/
abbrev Issues := Str → Option Str → Option Str → Bytes → Prop

/-- A signature that verifies is one of Slack's. -/
def Genuine (G : Config) (issued : Issues) : GwReq → Prop
  | .decide _ timestamp signature body => Signed G.slack timestamp body signature →
      ∃ approvalId, issued approvalId timestamp signature body
  | _ => True

/-- Only Slack signs. -/
def SlackSigns (issued : Issues) (_ : GatewayPool G W) : Move (gatewaySystem G W) → Prop
  | .arrive _ r => Genuine G issued r
  | _ => True

/-- The callback was signed for no other approval. -/
def ForOwn (issued : Issues) : GwReq → Prop
  | .decide approvalId timestamp signature body =>
      ∀ other, issued other timestamp signature body → other = approvalId
  | _ => True

/-- A callback that was signed for another approval finds its own one no longer pending. -/
def WellDirected (issued : Issues) (p : GatewayPool G W) (m : Move (gatewaySystem G W)) : Prop :=
  ∀ x ∈ reading p m, ForOwn issued x.1

/-- Whatever is decided was signed for. -/
def BoundToApproval (issued : Issues) (p : GatewayPool G W) : Prop :=
  ∀ e ∈ p.hist, ∀ approvalId timestamp signature body,
    e.req = .decide approvalId timestamp signature body → ∀ key value,
    e.entry = ⟨.redisSet key value .keepttl, some ()⟩ →
    issued approvalId timestamp signature body ∧
      ∀ other, issued other timestamp signature body → other = approvalId

theorem reachable_readWhen {C : GatewayPool G W → Move (gatewaySystem G W) → Prop}
    {P : GwReq → Approval → Prop} (hC : ∀ p m, C p m → ∀ x ∈ reading p m, P x.1 x.2)
    {p : GatewayPool G W} (hp : Reachable C p) : ReadWhen P p := by
  induction hp with
  | start s hs => exact fun e he => absurd he List.not_mem_nil
  | step _ hc hm ih => exact readWhen_step ih hm (fun _ _ h => h) (hC _ _ hc)

/-- Where only Slack signs, and no callback signed for another approval finds its own one pending,
every decision on an approval was signed for that approval. -/
theorem decision_bound (issued : Issues) (p : GatewayPool G W)
    (hp : Reachable (fun p m => SlackSigns issued p m ∧ WellDirected issued p m) p) :
    BoundToApproval issued p := by
  intro e he approvalId timestamp signature body hreq key value hentry
  have hlawful := reachable_lawful hp
  obtain ⟨h₁, h₂, hsplit, hop⟩ := hlawful.log.mem he
  rw [hentry, hreq] at hop
  obtain ⟨R, htr, -⟩ := hop
  obtain ⟨q, hq⟩ := hlawful.owner e he
  rw [hreq] at hq
  have hgenuine : Genuine G issued (.decide approvalId timestamp signature body) :=
    reachable_arrived (P := Genuine G issued) (fun _ _ _ h => h.1) hp hq
  have hreads : ReadWhen (fun r _ => ForOwn issued r) p :=
    reachable_readWhen (fun _ _ h => h.2) hp
  have hsuffix : R.before <:+ own e.tid p.hist := by
    rw [hsplit, own_append, own_cons_self, ← htr]
    exact (List.suffix_cons _ _).trans (List.suffix_append _ _)
  have hown : ForOwn issued (.decide approvalId timestamp signature body) :=
    hreads.ruling hlawful hq hsuffix
  obtain ⟨other, hother⟩ := hgenuine R.signed
  have hsame := hown other hother
  exact ⟨hsame ▸ hother, hown⟩

/-! ## A callback for another approval -/

/-- Slack has signed one callback, for the first approval. -/
def signedForFirst : Issues := fun approvalId timestamp signature body =>
  approvalId = Uuid.text 1 ∧ timestamp = some (lit "0") ∧ signature = some demoSignature ∧
    body = approveBody

/-- Only that callback is sent. -/
def sendsFirst (r : GwReq) : Bool :=
  match r with
  | .decide _ timestamp signature body => timestamp = some (lit "0") &&
      signature = some demoSignature && body = approveBody
  | _ => true

def onlyFirst (_ : DemoPool) (m : DemoMove) : Bool :=
  match m with
  | .arrive _ r => sendsFirst r
  | _ => true

theorem genuine_of_sendsFirst {r : GwReq} (h : sendsFirst r = true) :
    Genuine demoConfig signedForFirst r := by
  cases r with
  | decide approvalId timestamp signature body =>
    simp only [sendsFirst, Bool.and_eq_true, decide_eq_true_eq] at h
    exact fun _ => ⟨Uuid.text 1, rfl, h.1.1, h.1.2, h.2⟩
  | _ => trivial

theorem slackSigns_of_onlyFirst {p : DemoPool} {m : DemoMove} (h : onlyFirst p m = true) :
    SlackSigns signedForFirst p m := by
  cases m with
  | arrive t r => exact genuine_of_sendsFirst h
  | _ => trivial

/-- The approval of the URL, if it is the last one that was decided. -/
def decidedLast (p : DemoPool) : Option Str :=
  match p.hist with
  | ⟨_, .decide approvalId _ _ _, ⟨.redisSet _ _ .keepttl, some ()⟩⟩ :: _ => some approvalId
  | _ => none

theorem decidedLast_some {p : DemoPool} {approvalId : Str} (h : decidedLast p = some approvalId) :
    ∃ e ∈ p.hist, ∃ timestamp signature body key value,
      e.req = .decide approvalId timestamp signature body ∧
      e.entry = ⟨.redisSet key value .keepttl, some ()⟩ := by
  unfold decidedLast at h
  split at h
  · rename_i t approvalId' timestamp signature body key value rest hhist
    obtain rfl := Option.some.inj h
    rw [hhist]
    exact ⟨_, List.mem_cons_self, timestamp, signature, body, key, value, rfl, rfl⟩
  · cases h

def urlIsFirst (r : GwReq) : Bool :=
  match r with
  | .decide approvalId _ _ _ => approvalId = Uuid.text 1
  | _ => true

/-- Only that callback is sent, and only the first approval finds a pending record. -/
def firstToFirst (p : DemoPool) (m : DemoMove) : Bool :=
  onlyFirst p m && (reading p m).all fun x => urlIsFirst x.1

theorem wellDirected_of_firstToFirst {p : DemoPool} {m : DemoMove} (h : firstToFirst p m = true) :
    SlackSigns signedForFirst p m ∧ WellDirected signedForFirst p m := by
  rw [firstToFirst, Bool.and_eq_true] at h
  refine ⟨slackSigns_of_onlyFirst h.1, ?_⟩
  intro x hx
  obtain ⟨r, a⟩ := x
  have hurl : urlIsFirst r = true := by
    have hall := h.2
    rw [hx] at hall
    exact hall
  cases r with
  | decide approvalId timestamp signature body =>
    rintro other ⟨rfl, -⟩
    exact (of_decide_eq_true hurl).symm
  | _ => trivial

/-- The callback for the first approval decides the first approval. -/
theorem first_callback_bound : ∃ p : DemoPool, decidedLast p = some (Uuid.text 1) ∧
    BoundToApproval signedForFirst p := by
  have hrun : (runMoves (fun p m => firstToFirst p m = true)
      (Pool.empty (Y := gatewaySystem demoConfig openWorld) (GwState.initial 0))
      (demoOpen 0 1 ++ demoRead 1 (Uuid.text 1) approveBody ++ [.answer 1 .plain])).bind
        decidedLast = some (Uuid.text 1) := by decide +kernel
  obtain ⟨p, hp, hlast⟩ := Option.bind_eq_some_iff.mp hrun
  have hreach : Reachable (fun p m => firstToFirst p m = true) p :=
    reachable_of_runMoves (.start _ ⟨0, rfl⟩) hp
  exact ⟨p, hlast, decision_bound signedForFirst p
    (hreach.mono fun _ _ h => wellDirected_of_firstToFirst h)⟩

/-- The same callback, sent to the URL of the second approval, decides the second approval. -/
theorem first_callback_decides_second : ∃ p : DemoPool,
    Reachable (SlackSigns signedForFirst) p ∧ ¬ BoundToApproval signedForFirst p := by
  have hrun : (runMoves (fun p m => onlyFirst p m = true)
      (Pool.empty (Y := gatewaySystem demoConfig openWorld) (GwState.initial 0))
      (demoOpen 0 1 ++ demoOpen 1 2 ++ demoRead 2 (Uuid.text 2) approveBody ++
        [.answer 2 .plain])).bind decidedLast = some (Uuid.text 2) := by decide +kernel
  obtain ⟨p, hp, hlast⟩ := Option.bind_eq_some_iff.mp hrun
  have hreach : Reachable (fun p m => onlyFirst p m = true) p :=
    reachable_of_runMoves (.start _ ⟨0, rfl⟩) hp
  refine ⟨p, hreach.mono fun _ _ h => slackSigns_of_onlyFirst h, fun hbound => ?_⟩
  obtain ⟨e, he, timestamp, signature, body, key, value, hreq, hentry⟩ := decidedLast_some hlast
  obtain ⟨hissued, -⟩ := hbound e he _ _ _ _ hreq _ _ hentry
  have hne : (2 : Uuid) ≠ 1 := by decide
  exact hne (uuid_text_injective hissued.1)

end SignedCallbacks
