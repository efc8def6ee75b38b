import McpControlPlane.ApprovalRaces

/-! # Executions and their audit rows

The row of an execution is written after it. Whether every execution has one is a matter of the
audit writes that follow an execution, and of the lookup of a status before one of them. -/
namespace AuditedRuns

open PyText Binary64 JsonText JsonDict PyJson UuidTime AuditLog ToolPolicy PolicyDecision
open GatewayOps ApprovalStore SlackSignature Gateway GatewaySpecs Mediation ApprovalRaces
open Interleaving

variable {G : Config} {W : World}

/-- The handler has returned or raised. -/
def finished {α : Type} : Prog gateway α → Bool
  | .ret _ | .raise _ => true
  | .call _ _ => false

/-- Every execution of a request that is through has a committed row of that request. -/
def Audited (p : GatewayPool G W) : Prop :=
  ∀ t r q, p.thread t = some (r, q) → finished q = true → ∀ name arguments outcome,
    (⟨.runTool name arguments, some outcome⟩ : Entry gateway) ∈ own t p.hist →
    ∃ row ∈ p.shared.rows, row.writer = t ∧ row.event.toolName = name ∧
      row.event.arguments = .obj arguments

def ran : Entry gateway → Bool
  | ⟨.runTool _ _, some _⟩ => true
  | _ => false

def hasRun (t : ℕ) (h : History G W) : Bool := h.any fun e => e.tid = t && ran e.entry

theorem ran_some {e : Entry gateway} (h : ran e = true) :
    ∃ name arguments outcome, e = ⟨.runTool name arguments, some outcome⟩ := by
  unfold ran at h
  split at h
  · exact ⟨_, _, _, rfl⟩
  · cases h

/-- No audit write fails after an execution of its request. An executor that `POST /mcp` calls
reports errors only of the types that have a status. -/
def recorded (p : GatewayPool G W) : Move (gatewaySystem G W) → Bool
  | .fail t _ =>
    match p.pending t with
    | some (.recordToolCall _) => !hasRun t p.hist
    | _ => true
  | .answer t (.outcome (.executorError errorType _)) =>
    match p.thread t with
    | some (.mcp _ _, _) => (errorTypeStatus errorType).isSome
    | _ => true
  | _ => true

abbrev Recorded (p : GatewayPool G W) (m : Move (gatewaySystem G W)) : Prop := recorded p m = true

theorem idle_of_hasRun {t : ℕ} {h : History G W} (hno : hasRun t h = false) : Idle (own t h) := by
  intro name arguments outcome hmem
  obtain ⟨v, hv, rfl, hentry⟩ := mem_own.mp hmem
  simp only [hasRun, List.any_eq_false, Bool.and_eq_true, decide_eq_true_eq, not_and] at hno
  have hrun := hno v hv rfl
  rw [hentry] at hrun
  exact hrun rfl

/-- What an event says of the audit writes of its request. -/
structure KeepsRecord (h : History G W) (e : Event (gatewaySystem G W)) : Prop where
  failed : ∀ event, e.entry = ⟨.recordToolCall event, none⟩ → Idle (own e.tid h)
  known : ∀ agent body name arguments errorType message, e.req = .mcp agent body →
    e.entry = ⟨.runTool name arguments, some (.executorError errorType message)⟩ →
    errorTypeStatus errorType ≠ none

theorem outcome_of_answer {t : ℕ} {c : GwOracle} {r : GwReq} {name : Str}
    {arguments : List (Str × Json)} {k : Outcome → Prog gateway Response} {p p' : GatewayPool G W}
    {o : Outcome} (hm : Step p (.answer t c) p')
    (ht : p.thread t = some (r, .call (.runTool name arguments) k))
    (hhist : p'.hist = ⟨t, r, ⟨.runTool name arguments, some o⟩⟩ :: p.hist) : c = .outcome o := by
  cases hm with
  | answer t c r' o' k' x s ht' hs =>
    rw [ht] at ht'
    obtain ⟨rfl, hcall⟩ := Prod.mk.inj (Option.some.inj ht')
    obtain ⟨rfl, -⟩ := Prog.call.inj hcall
    cases c with
    | outcome o'' =>
      obtain ⟨rfl, rfl⟩ := Prod.mk.inj (Option.some.inj hs)
      have hx := (List.cons.inj hhist).1
      simp only [Event.mk.injEq, Entry.mk.injEq, heq_eq_eq, true_and, Option.some.injEq] at hx
      rw [hx]
    | _ => cases hs

theorem keepsRecord_step {p p' : GatewayPool G W} {m : Move (gatewaySystem G W)}
    (h : Log KeepsRecord p.hist) (hc : Recorded p m) (hm : Step p m p') :
    Log KeepsRecord p'.hist := by
  have hstep := hm
  cases moved_of_step hm with
  | outside hhist hrows hstore => exact hhist ▸ h
  | did t r e k ht hhist hmove hgets hstore hrows =>
    rw [hhist]
    refine ⟨⟨?_, ?_⟩, h⟩
    · intro event hentry
      obtain rfl : e = ⟨.recordToolCall event, none⟩ := hentry
      rcases hmove with ⟨c, -, hsome⟩ | ⟨c, rfl, -⟩
      · exact absurd rfl hsome
      · apply idle_of_hasRun
        simpa only [Recorded, recorded, pending_of_thread ht, Bool.not_eq_true'] using hc
    · intro agent body name arguments errorType message hreq hentry
      obtain rfl : r = .mcp agent body := hreq
      obtain rfl : e = ⟨.runTool name arguments, some (.executorError errorType message)⟩ := hentry
      rcases hmove with ⟨c, rfl, -⟩ | ⟨c, -, hnone⟩
      · obtain rfl := outcome_of_answer hstep ht hhist
        simp only [Recorded, recorded, ht] at hc
        exact Option.isSome_iff_ne_none.mp hc
      · cases hnone

/-- A write that was answered is in the log. -/
def RowsKept (p : GatewayPool G W) : Prop :=
  ∀ e ∈ p.hist, ∀ event, e.entry = ⟨.recordToolCall event, some ()⟩ →
    (⟨e.tid, event⟩ : LogRow) ∈ p.shared.rows

theorem rowsKept_step {p p' : GatewayPool G W} {m : Move (gatewaySystem G W)} (h : RowsKept p)
    (hm : Step p m p') : RowsKept p' := by
  intro e he event hentry
  cases moved_of_step hm with
  | outside hhist hrows hstore =>
    rw [hrows]
    exact h e (hhist ▸ he) event hentry
  | did t r e' k ht hhist hmove hgets hstore hrows =>
    rw [hhist] at he
    rcases hrows with ⟨hrows, hno⟩ | ⟨event', hop, hrows⟩
    · rw [hrows]
      rcases List.mem_cons.mp he with rfl | he
      · exact absurd hentry (hno event)
      · exact h e he event hentry
    · rw [hrows]
      rcases List.mem_cons.mp he with rfl | he
      · obtain rfl : e' = ⟨.recordToolCall event, some ()⟩ := hentry
        obtain rfl := GwOp.recordToolCall.inj hop
        exact List.mem_cons_self
      · exact List.mem_cons_of_mem _ (h e he event hentry)

theorem post_of_finished {p : GatewayPool G W} (hp : Lawful p) {t : ℕ} {r : GwReq}
    {q : Prog gateway Response} (ht : p.thread t = some (r, q)) (hq : finished q = true) :
    Accounted r (own t p.hist) := by
  have hsat := hp.sat t r q ht
  cases q with
  | ret resp => exact hsat.1
  | raise e => exact hsat.1
  | call o k => cases hq

theorem audited_of {p : GatewayPool G W} (hp : Lawful p) (hkeeps : Log KeepsRecord p.hist)
    (hrows : RowsKept p) : Audited p := by
  intro t r q ht hq name arguments outcome hran
  rcases post_of_finished hp ht hq name arguments outcome hran with ⟨event, hmem, hname, hargs⟩ |
      ⟨event, before, htr⟩ | ⟨agent, body, errorType, message, rfl, rfl, hstatus⟩
  · obtain ⟨v, hv, rfl, hentry⟩ := mem_own.mp hmem
    exact ⟨_, hrows v hv event hentry, rfl, hname, hargs⟩
  · obtain ⟨h₁, h₂, r', hsplit, hbefore⟩ := entry_of_own htr
    rw [hsplit] at hkeeps
    have hidle := hkeeps.at.failed event rfl
    rw [htr] at hran
    rcases List.mem_cons.mp hran with heq | hran
    · cases congrArg Entry.op heq
    · rw [← hbefore] at hran
      exact absurd hran (hidle name arguments outcome)
  · obtain ⟨v, hv, rfl, hentry⟩ := mem_own.mp hran
    obtain ⟨q', hq'⟩ := hp.owner v hv
    rw [ht] at hq'
    have hreq := (Prod.mk.inj (Option.some.inj hq')).1
    obtain ⟨h₁, h₂, -, hkeep⟩ := hkeeps.mem hv
    exact absurd hstatus (hkeep.known _ _ _ _ _ _ hreq.symm hentry)

/-- As long as no audit write fails after an execution and every error type has a status, each
execution has its committed row when its request is through. -/
theorem executions_audited (p : GatewayPool G W) (hp : Reachable Recorded p) : Audited p := by
  have hboth : Log KeepsRecord p.hist ∧ RowsKept p := by
    induction hp with
    | start s hs => exact ⟨trivial, fun e he => absurd he List.not_mem_nil⟩
    | step hp hc hm ih => exact ⟨keepsRecord_step ih.1 hc hm, rowsKept_step ih.2 hm⟩
  exact audited_of (reachable_lawful hp) hboth.1 hboth.2

def demoDirect : List DemoMove :=
  [.arrive 0 (.mcp sre (callBody "list_pods" "\x7b\"namespace\": \"dev-payments\"\x7d")),
    .answer 0 (.package []), .answer 0 (.outcome (.success .null)), .answer 0 (.duration 5),
    .answer 0 (.now zeroMagnitude)]

/-- Whether the request is through, whether it ran a tool, and the rows of the log. -/
def account (p : DemoPool) : Option Bool × Bool × ℕ :=
  ((p.thread 0).map fun x => finished x.2, hasRun 0 p.hist, p.shared.rows.length)

/-- A call whose audit write succeeds. -/
theorem direct_call_audited : ∃ p : DemoPool, account p = (some true, true, 1) ∧ Audited p := by
  have hrun : (runMoves Recorded (Pool.empty (Y := gatewaySystem demoConfig openWorld)
      (GwState.initial 0)) (demoDirect ++ [.answer 0 .plain])).map account =
      some (some true, true, 1) := by decide +kernel
  obtain ⟨p, hp, haccount⟩ := Option.map_eq_some_iff.mp hrun
  exact ⟨p, haccount, executions_audited p (reachable_of_runMoves (.start _ ⟨0, rfl⟩) hp)⟩

/-- The database is gone when the row of an execution is written. -/
theorem execution_without_row : ∃ p : DemoPool, Reachable (fun _ _ => True) p ∧ ¬ Audited p := by
  have hrun : (demo (demoDirect ++ [.fail 0 (.lost false)])).map account =
      some (some true, true, 0) := by decide +kernel
  obtain ⟨p, hp, haccount⟩ := Option.map_eq_some_iff.mp hrun
  obtain ⟨hthread, hrest⟩ := Prod.mk.inj haccount
  obtain ⟨hran, hrows⟩ := Prod.mk.inj hrest
  refine ⟨p, reachable_demo hp, fun haudited => ?_⟩
  obtain ⟨⟨r, q⟩, ht, hq⟩ := Option.map_eq_some_iff.mp hthread
  obtain ⟨e, he, hrun⟩ := List.any_eq_true.mp hran
  rw [Bool.and_eq_true, decide_eq_true_eq] at hrun
  obtain ⟨htid, hop⟩ := hrun
  obtain ⟨name, arguments, outcome, hentry⟩ := ran_some hop
  obtain ⟨row, hrow, -⟩ := haudited 0 r q ht hq name arguments outcome
    (mem_own.mpr ⟨e, he, htid, hentry⟩)
  rw [List.length_eq_zero_iff.mp hrows] at hrow
  cases hrow

end AuditedRuns
