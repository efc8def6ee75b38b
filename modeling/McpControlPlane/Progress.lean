import McpControlPlane.Interleaving

/-! # Requests that can go on

From a pool on, a request that always has a step comes to its end; if each of them does, one
after the other, none is left waiting. -/
namespace Interleaving

variable {S : Signature} {Y : System S}

/-- The pools that runs reach from `p` on by moves that satisfy `C`. -/
inductive Runs (C : Pool Y → Move Y → Prop) (p : Pool Y) : Pool Y → Prop
  | refl : Runs C p p
  | step {p' p'' : Pool Y} {m : Move Y} (h : Runs C p p') (hc : C p' m) (hm : Step p' m p'') :
      Runs C p p''

section Runs

variable {C : Pool Y → Move Y → Prop} {p p' p'' : Pool Y}

theorem Runs.trans (h : Runs C p p') (h' : Runs C p' p'') : Runs C p p'' := by
  induction h' with
  | refl => exact h
  | step _ hc hm ih => exact ih.step hc hm

theorem Runs.reachable {D : Pool Y → Move Y → Prop} (h : Runs C p p')
    (hCD : ∀ p m, C p m → D p m) (hp : Reachable D p) : Reachable D p' := by
  induction h with
  | refl => exact hp
  | step _ hc hm ih => exact ih.step (hCD _ _ hc) hm

theorem pending_ret {t : ℕ} {r : Y.Req} {x : Y.Resp} (ht : p.thread t = some (r, .ret x)) :
    p.pending t = none := by rw [Pool.pending, ht]

theorem pending_raise {t : ℕ} {r : Y.Req} {e : S.Exn} (ht : p.thread t = some (r, .raise e)) :
    p.pending t = none := by rw [Pool.pending, ht]

def Move.arrives : Move Y → Prop
  | .arrive _ _ => True
  | _ => False

/-- What does not wait goes on not to wait. -/
theorem Step.pending_none {m : Move Y} (hm : Step p m p') (hno : ¬ m.arrives) {t : ℕ}
    (ht : p.pending t = none) : p'.pending t = none := by
  have hother : ∀ t' r o (k : S.Res o → Prog S Y.Resp) e s q,
      p.thread t' = some (r, .call o k) → (p.after t' r e s q).pending t = none := by
    intro t' r o k e s q ht'
    by_cases he : t = t'
    · subst he
      rw [pending_of_thread ht'] at ht
      cases ht
    · rw [Pool.pending, thread_after_ne _ _ _ _ _ he]
      exact ht
  cases hm with
  | arrive t' r ht' => exact absurd True.intro hno
  | drift d s hs => exact ht
  | answer t' c r o k x s ht' hs => exact hother t' r o k _ _ _ ht'
  | fail t' c r o k e s ht' he hs => exact hother t' r o k _ _ _ ht'

theorem Runs.pending_none (h : Runs C p p') (hC : ∀ p m, C p m → ¬ m.arrives) {t : ℕ}
    (ht : p.pending t = none) : p'.pending t = none := by
  induction h with
  | refl => exact ht
  | step _ hc hm ih => exact hm.pending_none (hC _ _ hc) ih

/-- A run has heard of finitely many requests. -/
theorem reachable_bounded (hp : Reachable C p) : ∃ n, ∀ t, n ≤ t → p.thread t = none := by
  induction hp with
  | start s hs => exact ⟨0, fun _ _ => rfl⟩
  | @step p p' m _ _ hm ih =>
    obtain ⟨n, hn⟩ := ih
    have hafter : ∀ t r o (k : S.Res o → Prog S Y.Resp) e s q, p.thread t = some (r, .call o k) →
        ∃ n, ∀ t', n ≤ t' → (p.after t r e s q).thread t' = none := by
      intro t r o k e s q ht
      refine ⟨n, fun t' hle => ?_⟩
      by_cases he : t' = t
      · subst he
        rw [hn _ hle] at ht
        cases ht
      · rw [thread_after_ne _ _ _ _ _ he]
        exact hn t' hle
    cases hm with
    | arrive t r ht =>
      refine ⟨max n (t + 1), fun t' hle => ?_⟩
      have hne : t' ≠ t := by omega
      simp only [Pool.setThread, Function.update_of_ne hne]
      exact hn t' (by omega)
    | drift d s hs => exact ⟨n, hn⟩
    | answer t c r o k x s ht hs => exact hafter t r o k _ _ _ ht
    | fail t c r o k e s ht he hs => exact hafter t r o k _ _ _ ht

end Runs

section Advances

variable {C : Pool Y → Move Y → Prop} {I : Pool Y → Prop}

/-- Wherever `I` holds, the request of `t` has a step that keeps `I`. -/
def Advances (C : Pool Y → Move Y → Prop) (I : Pool Y → Prop) (t : ℕ) : Prop :=
  ∀ p r o (k : S.Res o → Prog S Y.Resp), I p → p.thread t = some (r, .call o k) →
    ∃ m p', C p m ∧ Step p m p' ∧ I p' ∧
      ((∃ x, p'.thread t = some (r, k x)) ∨ ∃ e, p'.thread t = some (r, .raise e))

theorem Advances.ends {t : ℕ} (h : Advances C I t) {p : Pool Y} (hI : I p) {r : Y.Req}
    {q : Prog S Y.Resp} (ht : p.thread t = some (r, q)) :
    ∃ p', Runs C p p' ∧ I p' ∧ p'.pending t = none := by
  induction q generalizing p with
  | ret x => exact ⟨p, .refl, hI, pending_ret ht⟩
  | raise e => exact ⟨p, .refl, hI, pending_raise ht⟩
  | call o k ih =>
    obtain ⟨m, p', hc, hm, hI', ⟨x, hx⟩ | ⟨e, he⟩⟩ := h p r o k hI ht
    · obtain ⟨p'', hruns, hend⟩ := ih x hI' hx
      exact ⟨p'', (Runs.refl.step hc hm).trans hruns, hend⟩
    · exact ⟨p', .step .refl hc hm, hI', pending_raise he⟩

/-- If each request that waits can be brought to its end, all of them can. -/
theorem drains (hends : ∀ p t, I p → ∃ p', Runs C p p' ∧ I p' ∧ p'.pending t = none)
    (hC : ∀ p m, C p m → ¬ m.arrives) (n : ℕ) {p : Pool Y} (hI : I p)
    (hn : ∀ t, n ≤ t → p.pending t = none) :
    ∃ p', Runs C p p' ∧ I p' ∧ ∀ t, p'.pending t = none := by
  induction n generalizing p with
  | zero => exact ⟨p, .refl, hI, fun t => hn t (Nat.zero_le t)⟩
  | succ n ih =>
    obtain ⟨p', hruns, hI', hend⟩ := hends p n hI
    have hn' : ∀ t, n ≤ t → p'.pending t = none := by
      intro t hle
      by_cases he : t = n
      · exact he ▸ hend
      · exact hruns.pending_none hC (hn t (by omega))
    obtain ⟨p'', hruns', hI'', hall⟩ := ih hI' hn'
    exact ⟨p'', hruns.trans hruns', hI'', hall⟩

end Advances

end Interleaving
