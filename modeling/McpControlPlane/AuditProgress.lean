import McpControlPlane.AuditChain
import McpControlPlane.Progress

/-! # The advisory lock does not block

Writers wait for the lock of the chain. Whoever holds it is still in its transaction and can go
on, and the end of the transaction, also by an exception, releases it. -/
namespace AuditProgress

open PyText Binary64 UuidTime AuditLog AuditWriters AuditChain Interleaving

variable {J : Jsonb} {sha256 : Digest}

/-- Statements are answered; only an INSERT that the table refuses fails. Nobody arrives. -/
def Proceeds (p : AuditPool J sha256) : Move (auditSystem J sha256) → Prop
  | .answer _ _ => True
  | .fail t _ => ∃ i, p.pending t = some (.insert i) ∧ p.shared.inserted t i = none
  | _ => False

theorem proceeds_no_arrival (p : AuditPool J sha256) (m : Move (auditSystem J sha256))
    (h : Proceeds p m) : ¬ m.arrives := by
  cases m with
  | arrive t r => exact fun _ => h
  | _ => exact id

/-! ## The holder is in its transaction -/

theorem not_holdsLock {e : Entry (db J)} {tr : Trace (db J)} (he : ¬ keepsLock e) :
    ¬ HoldsLock (e :: tr) := fun h => he (holdsLock_cons.mp h)

theorem recordToolCall_released (event : AuditEvent) :
    Sat (fun _ _ => True) (fun _ tr => ¬ HoldsLock tr) (recordToolCall J sha256 event) [] := by
  refine sat_perform.mpr ⟨True.intro, fun u => ?_, fun e he => by cases he⟩
  cases hc : UuidTime.fromTimestamp event.timestamp with
  | none => exact not_holdsLock id
  | some createdAt =>
    refine sat_perform.mpr ⟨True.intro, fun x => ?_, fun e he => by cases he⟩
    refine sat_perform.mpr ⟨True.intro, fun _ => ?_, fun e _ => not_holdsLock id⟩
    refine sat_perform.mpr ⟨True.intro, fun _ => ?_, fun e _ => not_holdsLock id⟩
    refine sat_perform.mpr ⟨True.intro, fun last => ?_, fun e _ => not_holdsLock id⟩
    cases hh : eventHash sha256 event u createdAt (prevHashOf last) with
    | none =>
      exact sat_perform.mpr ⟨True.intro, fun _ => not_holdsLock id, fun e he => by cases he⟩
    | some hash =>
      refine sat_perform.mpr ⟨True.intro, fun _ => ?_, fun e _ => not_holdsLock id⟩
      exact ⟨True.intro, fun _ => not_holdsLock id, fun e _ => not_holdsLock id⟩

theorem holder_waits {p : AuditPool J sha256} (hp : Reachable (fun _ _ => True) p) {t : ℕ}
    (h : p.shared.holder = some t) : p.pending t ≠ none := by
  have hlock := ((reachable_writersInv hp).lock t).mp h
  have hobeys : Obeys (Y := auditSystem J sha256) (fun _ _ _ => True)
      (fun _ _ tr => ¬ HoldsLock tr) p := reachable_obeys recordToolCall_released hp
  cases ht : p.thread t with
  | none =>
    rw [hobeys.fresh t ht] at hlock
    exact absurd hlock not_holdsLock_nil
  | some rq =>
    obtain ⟨r, q⟩ := rq
    have hsat := hobeys.sat t r q ht
    cases q with
    | ret x => exact absurd hlock hsat
    | raise e => exact absurd hlock hsat
    | call o k =>
      rw [pending_of_thread ht]
      exact Option.some_ne_none o

/-! ## Who is not kept waiting -/

/-- The lock is free, or the request has it. -/
def Free (t : ℕ) (p : AuditPool J sha256) : Prop :=
  Reachable (fun _ _ => True) p ∧ (p.shared.holder = none ∨ p.shared.holder = some t)

theorem unlock_none {s : DbState J} {t : ℕ} (h : s.holder = none ∨ s.holder = some t) :
    s.unlock t = none := by
  rw [DbState.unlock]
  by_cases hself : s.holder = some t
  · rw [if_pos hself]
  · rw [if_neg hself]
    exact h.resolve_right hself

/-- A statement is answered, unless it is an INSERT that the table refuses. -/
theorem answered_or_refused {p : AuditPool J sha256} {t : ℕ} (hp : Free t p) {r : AuditEvent}
    {o : DbOp} {k : (db J).Res o → Prog (db J) Unit} (ht : p.thread t = some (r, .call o k)) :
    (∃ c x s, dbAnswer p.shared t o c = some (x, s) ∧ (s.holder = none ∨ s.holder = some t)) ∨
      ∃ i, o = .insert i ∧ p.shared.inserted t i = none := by
  obtain ⟨hp, hfree⟩ := hp
  cases o with
  | uuid4 => exact Or.inl ⟨.uuid 0, _, _, rfl, hfree⟩
  | currentTraceId => exact Or.inl ⟨.trace none, _, _, rfl, hfree⟩
  | begin => exact Or.inl ⟨.plain, _, _, rfl, hfree⟩
  | selectLast => exact Or.inl ⟨.plain, _, _, rfl, hfree⟩
  | commit => exact Or.inl ⟨.plain, _, _, rfl, Or.inl (unlock_none hfree)⟩
  | rollback => exact Or.inl ⟨.plain, _, _, rfl, Or.inl (unlock_none hfree)⟩
  | advisoryLock =>
    obtain ⟨u, x, hown⟩ := ((reachable_writersObey hp).sat t r _ ht).1
    have hfresh : p.shared.holder ≠ some t := by
      intro hself
      have hlock := ((reachable_writersInv hp).lock t).mp hself
      rw [hown] at hlock
      exact not_holdsLock id hlock
    exact Or.inl ⟨.plain, _, _, if_pos (hfree.resolve_right hfresh), Or.inr rfl⟩
  | insert i =>
    cases hin : p.shared.inserted t i with
    | none => exact Or.inr ⟨i, rfl, hin⟩
    | some s =>
      obtain ⟨row, -, rfl⟩ := inserted_some hin
      exact Or.inl ⟨.plain, (), _, congrArg (Option.map fun s => ((), s)) hin, hfree⟩

theorem free_advances (t : ℕ) : Advances (Y := auditSystem J sha256) Proceeds (Free t) t := by
  intro p r o k hp ht
  rcases answered_or_refused hp ht with ⟨c, x, s, hs, hfree⟩ | ⟨i, rfl, hin⟩
  · have hm := Step.answer (Y := auditSystem J sha256) t c r o k x s ht hs
    exact ⟨.answer t c, _, True.intro, hm, ⟨hp.1.step True.intro hm, hfree⟩,
      Or.inl ⟨x, thread_after_self _ _ _ _ _ _⟩⟩
  · have hm := Step.fail (Y := auditSystem J sha256) t .plain r (.insert i) k .database
      (p.shared.aborted t) ht rfl rfl
    exact ⟨.fail t .plain, _, ⟨i, pending_of_thread ht, hin⟩, hm, ⟨hp.1.step True.intro hm,
      Or.inl (unlock_none hp.2)⟩, Or.inr ⟨_, thread_after_self _ _ _ _ _ _⟩⟩

/-- It comes to its end, and the lock is free. -/
theorem free_ends {p : AuditPool J sha256} {t : ℕ} (hp : Free t p) :
    ∃ p', Runs Proceeds p p' ∧ Reachable (fun _ _ => True) p' ∧ p'.shared.holder = none ∧
      p'.pending t = none := by
  have hreleased : ∀ p' : AuditPool J sha256, Free t p' → p'.pending t = none →
      p'.shared.holder = none :=
    fun p' hfree hend => hfree.2.resolve_right fun hself => holder_waits hfree.1 hself hend
  cases ht : p.thread t with
  | none =>
    have hend : p.pending t = none := by rw [Pool.pending, ht]
    exact ⟨p, .refl, hp.1, hreleased p hp hend, hend⟩
  | some rq =>
    obtain ⟨p', hruns, hfree, hend⟩ := (free_advances t).ends hp ht
    exact ⟨p', hruns, hfree.1, hreleased p' hfree hend, hend⟩

/-- Whoever holds the lock goes first. -/
theorem writer_ends (p : AuditPool J sha256) (t : ℕ) (hp : Reachable (fun _ _ => True) p) :
    ∃ p', Runs Proceeds p p' ∧ Reachable (fun _ _ => True) p' ∧ p'.pending t = none := by
  cases hholder : p.shared.holder with
  | none =>
    obtain ⟨p', hruns, hp', -, hend⟩ := free_ends ⟨hp, Or.inl hholder⟩
    exact ⟨p', hruns, hp', hend⟩
  | some h =>
    obtain ⟨p₁, hfirst, hp₁, hnone, -⟩ := free_ends ⟨hp, Or.inr hholder⟩
    obtain ⟨p', hruns, hp', -, hend⟩ := free_ends (t := t) ⟨hp₁, Or.inl hnone⟩
    exact ⟨p', hfirst.trans hruns, hp', hend⟩

/-- However far the writers are, each of them can come to its end without a failure but of an
INSERT that the table refuses. Then nobody has the lock. -/
theorem no_writer_is_blocked {p : AuditPool J sha256} (hp : Reachable (fun _ _ => True) p) :
    ∃ p', Runs Proceeds p p' ∧ p'.shared.holder = none ∧ ∀ t, p'.pending t = none := by
  obtain ⟨n, hn⟩ := reachable_bounded hp
  have hpending : ∀ t, n ≤ t → p.pending t = none := by
    intro t hle
    rw [Pool.pending, hn t hle]
  obtain ⟨p', hruns, hp', hall⟩ := drains writer_ends proceeds_no_arrival n hp hpending
  refine ⟨p', hruns, ?_, hall⟩
  by_contra hheld
  obtain ⟨t, ht⟩ := Option.ne_none_iff_exists'.mp hheld
  exact holder_waits hp' ht (hall t)

/-- One writer waits for the lock of another that is about to commit. -/
theorem waiting_writer_is_not_blocked : ∃ p : AuditPool exactJsonb sampleDigest,
    p.shared.holder = some 0 ∧ p.pending 1 = some .advisoryLock ∧
    ∃ p', Runs Proceeds p p' ∧ p'.shared.holder = none ∧ ∀ t, p'.pending t = none := by
  have hrun : (sampleRun (writerMoves 0 1 ++ (writerMoves 1 2).take 4)).map (fun p =>
      (p.shared.holder, (p.pending 1).map fun o => o matches .advisoryLock)) =
      some (some 0, some true) := by decide +kernel
  obtain ⟨p, hp, hstate⟩ := Option.map_eq_some_iff.mp hrun
  obtain ⟨hholder, hpending⟩ := Prod.mk.inj hstate
  obtain ⟨o, ho, hop⟩ := Option.map_eq_some_iff.mp hpending
  refine ⟨p, hholder, ?_, no_writer_is_blocked (reachable_of_runMoves (.start _ rfl) hp)⟩
  cases o with
  | advisoryLock => exact ho
  | _ => cases hop

end AuditProgress
