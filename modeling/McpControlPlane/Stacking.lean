import McpControlPlane.Interleaving

/-! # Programs by themselves, and systems inside others

A program that runs by itself ends as the logic says. A request of an outer system does operations
of its own, and at some point it may run one request of an inner system and pass the result on:
every run of the outer system contains a run of the inner one, with the same operations in the
same order. -/
namespace Interleaving

variable {S T : Signature} {α β γ : Type}

/-! ## A program by itself -/

/-- The program, after the operations `tr`, may end with `r` after the operations `tr'`. -/
inductive Ran : Prog S α → Trace S → Except S.Exn α → Trace S → Prop
  | ret (a : α) (tr : Trace S) : Ran (.ret a) tr (.ok a) tr
  | raise (e : S.Exn) (tr : Trace S) : Ran (.raise e) tr (.error e) tr
  | call (o : S.Op) (k : S.Res o → Prog S α) (tr : Trace S) (x : S.Res o)
      (r : Except S.Exn α) (tr' : Trace S) (h : Ran (k x) (⟨o, some x⟩ :: tr) r tr') :
      Ran (.call o k) tr r tr'
  | fail (o : S.Op) (k : S.Res o → Prog S α) (tr : Trace S) (e : S.Exn)
      (he : S.fails o = some e) : Ran (.call o k) tr (.error e) (⟨o, none⟩ :: tr)

section Ran

variable {p : Prog S α} {tr tr' : Trace S} {r : Except S.Exn α}
  {ok : Trace S → S.Op → Prop} {post : Except S.Exn α → Trace S → Prop}

theorem Ran.suffix (h : Ran p tr r tr') : tr <:+ tr' := by
  induction h with
  | ret a tr => exact List.suffix_rfl
  | raise e tr => exact List.suffix_rfl
  | call o k tr x r tr' _ ih => exact (List.suffix_cons _ _).trans ih
  | fail o k tr e _ => exact List.suffix_cons _ _

theorem Sat.post_of_ran (hs : Sat ok post p tr) (h : Ran p tr r tr') : post r tr' := by
  induction h with
  | ret a tr => exact hs
  | raise e tr => exact hs
  | call o k tr x r tr' _ ih => exact ih (hs.2.1 x)
  | fail o k tr e he => exact hs.2.2 e he

theorem not_suffix_of_cons {e : Entry S} {h₁ h₂ : Trace S} (h : tr = h₁ ++ e :: h₂) :
    ¬ tr <:+ h₂ := by
  intro hle
  have hlen := hle.length_le
  rw [h, List.length_append, List.length_cons] at hlen
  omega

/-- Every operation of a run suited `ok` when it was performed. -/
theorem Sat.ok_of_ran (hs : Sat ok post p tr) (h : Ran p tr r tr') {e : Entry S}
    {h₁ h₂ : Trace S} (hsplit : tr' = h₁ ++ e :: h₂) (hle : tr <:+ h₂) : ok h₂ e.op := by
  induction h with
  | ret a tr => exact absurd hle (not_suffix_of_cons hsplit)
  | raise e' tr => exact absurd hle (not_suffix_of_cons hsplit)
  | call o k tr x r tr' hran ih =>
    have hin : ⟨o, some x⟩ :: tr <:+ e :: h₂ := by
      apply List.suffix_of_suffix_length_le hran.suffix
      · rw [hsplit]
        exact List.suffix_append _ _
      · simpa using hle.length_le
    rcases List.suffix_cons_iff.mp hin with heq | hmore
    · obtain ⟨rfl, rfl⟩ := List.cons.inj heq
      exact hs.1
    · exact ih (hs.2.1 x) hsplit hmore
  | fail o k tr e' he =>
    cases h₁ with
    | nil =>
      obtain ⟨rfl, rfl⟩ := List.cons.inj hsplit
      exact hs.1
    | cons f h₁ => exact absurd hle (not_suffix_of_cons (List.cons.inj hsplit).2)

/-- Runs a program none of whose operations fail. -/
def Prog.runWith (answer : Trace S → (o : S.Op) → S.Res o) :
    Prog S α → Trace S → Except S.Exn α × Trace S
  | .ret a, tr => (.ok a, tr)
  | .raise e, tr => (.error e, tr)
  | .call o k, tr => (k (answer tr o)).runWith answer (⟨o, some (answer tr o)⟩ :: tr)

theorem ran_runWith (answer : Trace S → (o : S.Op) → S.Res o) (p : Prog S α) (tr : Trace S) :
    Ran p tr (p.runWith answer tr).1 (p.runWith answer tr).2 := by
  induction p generalizing tr with
  | ret a => exact .ret a tr
  | raise e => exact .raise e tr
  | call o k ih => exact .call o k tr _ _ _ (ih _ _)

end Ran

/-! ## Lifted programs -/

/-- The operations and the exceptions of both. -/
abbrev Signature.sum (S T : Signature) : Signature where
  Op := S.Op ⊕ T.Op
  Res
    | .inl o => S.Res o
    | .inr o => T.Res o
  Exn := S.Exn ⊕ T.Exn
  fails
    | .inl o => (S.fails o).map .inl
    | .inr o => (T.fails o).map .inr

def Prog.inl : Prog S α → Prog (S.sum T) α
  | .ret a => .ret a
  | .raise e => .raise (.inl e)
  | .call o k => .call (.inl o) fun x => (k x).inl

def Prog.inr : Prog T α → Prog (S.sum T) α
  | .ret a => .ret a
  | .raise e => .raise (.inr e)
  | .call o k => .call (.inr o) fun x => (k x).inr

theorem prog_bind_assoc (p : Prog S α) (f : α → Prog S β) (g : β → Prog S γ) :
    p >>= f >>= g = p >>= fun a => f a >>= g := by
  induction p with
  | ret a => rfl
  | raise e => rfl
  | call o k ih =>
    simp only [call_bind]
    exact congrArg (Prog.call o) (funext ih)

/-! ## The logic of a program that is lifted -/

def Entry.inl (e : Entry S) : Entry (S.sum T) := ⟨.inl e.op, e.res⟩

def Entry.inr (e : Entry T) : Entry (S.sum T) := ⟨.inr e.op, e.res⟩

section Sat

theorem Sat.imp {ok ok' : Trace S → S.Op → Prop} {post post' : Except S.Exn α → Trace S → Prop}
    {p : Prog S α} {tr : Trace S} (h : Sat ok post p tr) (hok : ∀ tr o, ok tr o → ok' tr o)
    (hpost : ∀ r tr, post r tr → post' r tr) : Sat ok' post' p tr := by
  induction p generalizing tr with
  | ret a => exact hpost _ _ h
  | raise e => exact hpost _ _ h
  | call o k ih =>
    exact ⟨hok _ _ h.1, fun x => ih x (h.2.1 x), fun e he => hpost _ _ (h.2.2 e he)⟩

/-- What asks nothing holds of every program. -/
theorem sat_always {ok : Trace S → S.Op → Prop}
    {post : Except S.Exn α → Trace S → Prop} (hok : ∀ tr o, ok tr o) (hpost : ∀ r tr, post r tr)
    (p : Prog S α) (tr : Trace S) : Sat ok post p tr := by
  induction p generalizing tr with
  | ret a => exact hpost _ _
  | raise e => exact hpost _ _
  | call o k ih => exact ⟨hok _ _, fun x => ih x _, fun e _ => hpost _ _⟩

variable {ok : Trace (S.sum T) → S.Op ⊕ T.Op → Prop}
  {post : Except (S.Exn ⊕ T.Exn) α → Trace (S.sum T) → Prop}

theorem sat_inl_after {p : Prog S α} {tr : Trace S} {before : Trace (S.sum T)} :
    Sat (S := S.sum T) ok post p.inl (tr.map Entry.inl ++ before) ↔
      Sat (fun tr o => ok (tr.map Entry.inl ++ before) (.inl o))
        (fun r tr => post (r.mapError .inl) (tr.map Entry.inl ++ before)) p tr := by
  induction p generalizing tr with
  | ret a => exact Iff.rfl
  | raise e => exact Iff.rfl
  | call o k ih =>
    refine and_congr_right fun _ =>
      and_congr (forall_congr' fun x => @ih x (⟨o, some x⟩ :: tr)) ⟨?_, ?_⟩
    · intro h e he
      apply h
      exact congrArg (Option.map Sum.inl) he
    · intro h e he
      obtain ⟨e', he', rfl⟩ := Option.map_eq_some_iff.mp he
      exact h e' he'

theorem sat_inr_after {p : Prog T α} {tr : Trace T} {before : Trace (S.sum T)} :
    Sat (S := S.sum T) ok post p.inr (tr.map Entry.inr ++ before) ↔
      Sat (fun tr o => ok (tr.map Entry.inr ++ before) (.inr o))
        (fun r tr => post (r.mapError .inr) (tr.map Entry.inr ++ before)) p tr := by
  induction p generalizing tr with
  | ret a => exact Iff.rfl
  | raise e => exact Iff.rfl
  | call o k ih =>
    refine and_congr_right fun _ =>
      and_congr (forall_congr' fun x => @ih x (⟨o, some x⟩ :: tr)) ⟨?_, ?_⟩
    · intro h e he
      apply h
      exact congrArg (Option.map Sum.inr) he
    · intro h e he
      obtain ⟨e', he', rfl⟩ := Option.map_eq_some_iff.mp he
      exact h e' he'

variable {before : Trace (S.sum T)}

/-- A lifted program is judged by its own operations on top of those before it. -/
theorem sat_inl {p : Prog S α} : Sat (S := S.sum T) ok post p.inl before ↔
    Sat (fun tr o => ok (tr.map Entry.inl ++ before) (.inl o))
      (fun r tr => post (r.mapError .inl) (tr.map Entry.inl ++ before)) p [] :=
  @sat_inl_after S T α ok post p [] before

theorem sat_inr {p : Prog T α} : Sat (S := S.sum T) ok post p.inr before ↔
    Sat (fun tr o => ok (tr.map Entry.inr ++ before) (.inr o))
      (fun r tr => post (r.mapError .inr) (tr.map Entry.inr ++ before)) p [] :=
  @sat_inr_after S T α ok post p [] before

end Sat

/-! ## Before, inside and after the inner request -/

/-- No inner operation is left to do. -/
inductive Outer : Prog (S.sum T) α → Prop
  | ret (a : α) : Outer (.ret a)
  | raise (e : S.Exn ⊕ T.Exn) : Outer (.raise e)
  | call (o : S.Op) (k : S.Res o → Prog (S.sum T) α) (hk : ∀ x, Outer (k x)) :
      Outer (.call (.inl o) k)

/-- `q` runs inside, and what happens to its result is up to the outer program. -/
def Inside (p : Prog (S.sum T) α) (q : Prog T β) : Prop :=
  ∃ f : β → Prog (S.sum T) α, p = q.inr >>= f ∧ ∀ b, Outer (f b)

/-- `q`, if there is one, may still be entered. -/
inductive Before (q : Option (Prog T β)) : Prog (S.sum T) α → Prop
  | outer (p : Prog (S.sum T) α) (h : Outer p) : Before q p
  | enter (p : Prog (S.sum T) α) (q' : Prog T β) (hq : q = some q') (h : Inside p q') : Before q p
  | call (o : S.Op) (k : S.Res o → Prog (S.sum T) α) (hk : ∀ x, Before q (k x)) :
      Before q (.call (.inl o) k)

section Phases

variable {p : Prog (S.sum T) α} {q : Option (Prog T γ)}

theorem Outer.bind {f : α → Prog (S.sum T) β} (hp : Outer p) (hf : ∀ a, Outer (f a)) :
    Outer (p >>= f) := by
  induction hp with
  | ret a => exact hf a
  | raise e => exact .raise e
  | call o k _ ih => exact .call o _ ih

theorem Inside.bind {q : Prog T γ} {f : α → Prog (S.sum T) β} (hp : Inside p q)
    (hf : ∀ a, Outer (f a)) : Inside (p >>= f) q := by
  obtain ⟨g, rfl, hg⟩ := hp
  exact ⟨fun c => g c >>= f, prog_bind_assoc _ _ _, fun c => (hg c).bind hf⟩

theorem inside_inr (q : Prog T γ) {f : γ → Prog (S.sum T) α} (hf : ∀ c, Outer (f c)) :
    Inside (q.inr >>= f) q := ⟨f, rfl, hf⟩

theorem Before.bind {f : α → Prog (S.sum T) β} (hp : Before q p) (hf : ∀ a, Outer (f a)) :
    Before q (p >>= f) := by
  induction hp with
  | outer p h => exact .outer _ (h.bind hf)
  | enter p q' hq h => exact .enter _ q' hq (h.bind hf)
  | call o k _ ih => exact .call o _ ih

theorem before_inl {p : Prog S α} {f : α → Prog (S.sum T) β} (hf : ∀ a, Before q (f a)) :
    Before q (p.inl >>= f) := by
  induction p with
  | ret a => exact hf a
  | raise e => exact .outer _ (.raise _)
  | call o k ih => exact .call o _ ih

theorem not_outer_inr {o : T.Op} {k : T.Res o → Prog (S.sum T) α} :
    ¬ Outer (.call (S := S.sum T) (.inr o) k) := by
  intro h
  cases h

/-- An inner operation is one of the program inside. -/
theorem inside_call_inr {o : T.Op} {k : T.Res o → Prog (S.sum T) α} {q : Prog T γ}
    (h : Inside (.call (S := S.sum T) (.inr o) k) q) :
    ∃ (k' : T.Res o → Prog T γ) (f : γ → Prog (S.sum T) α), q = .call o k' ∧
      (∀ c, Outer (f c)) ∧ k = fun x => (k' x).inr >>= f := by
  obtain ⟨f, heq, hf⟩ := h
  cases q with
  | ret c =>
    have houter : Outer (f c) := hf c
    rw [show f c = .call (S := S.sum T) (.inr o) k from heq.symm] at houter
    exact absurd houter not_outer_inr
  | raise e => cases heq
  | call o' k' =>
    injection heq with ho hk
    obtain rfl := Sum.inr.inj ho
    exact ⟨k', f, rfl, hf, eq_of_heq hk⟩

/-- An outer operation comes after the program inside. -/
theorem inside_call_inl {o : S.Op} {k : S.Res o → Prog (S.sum T) α} {q : Prog T γ}
    (h : Inside (.call (S := S.sum T) (.inl o) k) q) :
    Outer (.call (S := S.sum T) (.inl o) k) := by
  obtain ⟨f, heq, hf⟩ := h
  cases q with
  | ret c =>
    rw [show Prog.call (S := S.sum T) (.inl o) k = f c from heq]
    exact hf c
  | raise e => cases heq
  | call o' k' =>
    injection heq with ho
    cases ho

theorem Outer.next {o : S.Op} {k : S.Res o → Prog (S.sum T) α}
    (h : Outer (.call (S := S.sum T) (.inl o) k)) (x : S.Res o) : Outer (k x) := by
  cases h with
  | call _ _ hk => exact hk x

theorem Before.next {o : S.Op} {k : S.Res o → Prog (S.sum T) α}
    (h : Before q (.call (S := S.sum T) (.inl o) k)) (x : S.Res o) : Before q (k x) := by
  cases h with
  | outer _ h => exact .outer _ (h.next x)
  | enter _ q' hq h => exact .outer _ ((inside_call_inl h).next x)
  | call _ _ hk => exact hk x

/-- A program that does an inner operation has entered. -/
theorem Before.entered {o : T.Op} {k : T.Res o → Prog (S.sum T) α}
    (h : Before q (.call (S := S.sum T) (.inr o) k)) :
    ∃ q', q = some q' ∧ Inside (.call (S := S.sum T) (.inr o) k) q' := by
  cases h with
  | outer _ h => exact absurd h not_outer_inr
  | enter _ q' hq h => exact ⟨q', hq, h⟩

end Phases

/-! ## The run inside a run -/

/-- `enters` is the inner request that a request runs, if it gets that far. -/
structure Stacked (Y : System (S.sum T)) (Z : System T) where
  inner : Y.State → Z.State
  enters : Y.Req → Option Z.Req
  handler : ∀ r, Before ((enters r).map Z.handler) (Y.handler r)
  start : ∀ s, Y.start s → Z.start (inner s)
  answer_inl : ∀ s t (o : S.Op) c x s', Y.answer s t (.inl o) c = some (x, s') → inner s' = inner s
  answer_inr : ∀ s t (o : T.Op) c x s', Y.answer s t (.inr o) c = some (x, s') →
    ∃ c', Z.answer (inner s) t o c' = some (x, inner s')
  failure_inl : ∀ s t (o : S.Op) c s', Y.failure s t (.inl o) c = some s' → inner s' = inner s
  failure_inr : ∀ s t (o : T.Op) c s', Y.failure s t (.inr o) c = some s' →
    ∃ c', Z.failure (inner s) t o c' = some (inner s')
  drift : ∀ s d s', Y.drift s d = some s' →
    inner s' = inner s ∨ ∃ d', Z.drift (inner s) d' = some (inner s')

variable {Y : System (S.sum T)} {Z : System T}

/-- The inner operation that an event is, as an event of the inner system. -/
def Stacked.event (K : Stacked Y Z) : Event Y → Option (Event Z)
  | ⟨t, r, ⟨.inr o, res⟩⟩ => (K.enters r).map fun r' => ⟨t, r', ⟨o, res⟩⟩
  | ⟨_, _, ⟨.inl _, _⟩⟩ => none

/-- How far the request `r` is, by what the inner system has of it. -/
def Stacked.Runs (K : Stacked Y Z) (r : Y.Req) (p : Prog (S.sum T) Y.Resp) :
    Option (Z.Req × Prog T Z.Resp) → Prop
  | none => Before ((K.enters r).map Z.handler) p
  | some (r', q) => K.enters r = some r' ∧ (Inside p q ∨ Outer p)

/-- The inner pool is what the outer pool has of the inner system. -/
structure Stacked.Carries (K : Stacked Y Z) (p : Pool Y) (q : Pool Z) : Prop where
  shared : q.shared = K.inner p.shared
  hist : q.hist = p.hist.filterMap K.event
  entered : ∀ e ∈ p.hist, ∀ o, e.entry.op = .inr o → (K.enters e.req).isSome = true
  fresh : ∀ t, p.thread t = none → q.thread t = none
  thread : ∀ t r b, p.thread t = some (r, b) → K.Runs r b (q.thread t)

namespace Stacked

variable {K : Stacked Y Z} {p : Pool Y} {q : Pool Z}

theorem Runs.next {r : Y.Req} {o : S.Op} {k : S.Res o → Prog (S.sum T) Y.Resp}
    {b : Option (Z.Req × Prog T Z.Resp)} (h : K.Runs r (.call (S := S.sum T) (.inl o) k) b)
    (x : S.Res o) : K.Runs r (k x) b := by
  cases b with
  | none => exact Before.next h x
  | some b =>
    obtain ⟨hr, hin | hout⟩ := h
    · exact ⟨hr, Or.inr ((inside_call_inl hin).next x)⟩
    · exact ⟨hr, Or.inr (hout.next x)⟩

theorem Runs.raised {r : Y.Req} {o : S.Op} {k : S.Res o → Prog (S.sum T) Y.Resp}
    {b : Option (Z.Req × Prog T Z.Resp)} (h : K.Runs r (.call (S := S.sum T) (.inl o) k) b)
    (e : S.Exn ⊕ T.Exn) : K.Runs r (.raise e) b := by
  cases b with
  | none => exact .outer _ (.raise e)
  | some b => exact ⟨h.1, Or.inr (.raise e)⟩

/-- Where a request waits for an inner operation, the inner pool waits for it too, as soon as the
inner request has arrived. -/
theorem Carries.ready (h : K.Carries p q) (hq : Reachable (fun _ _ => True) q) {t : ℕ} {r : Y.Req}
    {o : T.Op} {k : T.Res o → Prog (S.sum T) Y.Resp}
    (ht : p.thread t = some (r, .call (S := S.sum T) (.inr o) k)) :
    ∃ (q' : Pool Z) (r' : Z.Req) (k' : T.Res o → Prog T Z.Resp)
      (f : Z.Resp → Prog (S.sum T) Y.Resp), Reachable (fun _ _ => True) q' ∧ K.Carries p q' ∧
      q'.thread t = some (r', .call o k') ∧ K.enters r = some r' ∧ (∀ b, Outer (f b)) ∧
      k = fun x => (k' x).inr >>= f := by
  have hruns := h.thread t r _ ht
  cases hb : q.thread t with
  | none =>
    rw [hb] at hruns
    obtain ⟨q₀, hq₀, hin⟩ := Before.entered hruns
    obtain ⟨r', hr, rfl⟩ := Option.map_eq_some_iff.mp hq₀
    have hcall := hin
    obtain ⟨k', f, hhandler, hf, hk⟩ := inside_call_inr hcall
    refine ⟨q.setThread t r' (Z.handler r'), r', k', f, hq.step trivial (.arrive t r' hb), ?_, ?_,
      hr, hf, hk⟩
    · refine ⟨h.shared, h.hist, h.entered, ?_, ?_⟩
      · intro t' ht'
        by_cases he : t' = t
        · subst he
          rw [ht] at ht'
          cases ht'
        · simpa only [Pool.setThread, Function.update_of_ne he] using h.fresh t' ht'
      · intro t' r'' b ht'
        by_cases he : t' = t
        · subst he
          rw [ht] at ht'
          obtain ⟨rfl, rfl⟩ := Prod.mk.inj (Option.some.inj ht')
          simp only [Pool.setThread, Function.update_self]
          exact ⟨hr, Or.inl hin⟩
        · simpa only [Pool.setThread, Function.update_of_ne he] using h.thread t' r'' b ht'
    · simp only [Pool.setThread, Function.update_self, hhandler]
  | some b =>
    obtain ⟨r', q₀⟩ := b
    rw [hb] at hruns
    obtain ⟨hr, hin | hout⟩ := hruns
    · obtain ⟨k', f, rfl, hf, hk⟩ := inside_call_inr hin
      exact ⟨q, r', k', f, hq, h, hb, hr, hf, hk⟩
    · exact absurd hout not_outer_inr

/-- An outer operation, which the inner pool does not see. -/
theorem Carries.after_inl (h : K.Carries p q) {t : ℕ} {r : Y.Req} {o : S.Op}
    {k : S.Res o → Prog (S.sum T) Y.Resp}
    (ht : p.thread t = some (r, .call (S := S.sum T) (.inl o) k)) {res : Option (S.Res o)}
    {s : Y.State} (hs : K.inner s = K.inner p.shared) {b : Prog (S.sum T) Y.Resp}
    (hb : K.Runs r b (q.thread t)) :
    K.Carries (p.after t r ⟨.inl o, res⟩ s b) q := by
  refine ⟨h.shared.trans hs.symm, h.hist, ?_, ?_, ?_⟩
  · intro e he o' ho'
    rcases List.mem_cons.mp he with rfl | he
    · cases ho'
    · exact h.entered e he o' ho'
  · intro t' ht'
    by_cases he : t' = t
    · subst he
      rw [thread_after_self] at ht'
      cases ht'
    · exact h.fresh t' (by rwa [thread_after_ne _ _ _ _ _ he] at ht')
  · intro t' r' b' ht'
    by_cases he : t' = t
    · subst he
      rw [thread_after_self] at ht'
      obtain ⟨rfl, rfl⟩ := Prod.mk.inj (Option.some.inj ht')
      exact hb
    · exact h.thread t' r' b' (by rwa [thread_after_ne _ _ _ _ _ he] at ht')

/-- An inner operation, which both pools do. -/
theorem Carries.after_inr (h : K.Carries p q) {t : ℕ} {r : Y.Req} {r' : Z.Req} {o : T.Op}
    (hr : K.enters r = some r') {res : Option (T.Res o)} {s : Y.State}
    {b : Prog (S.sum T) Y.Resp} {b' : Prog T Z.Resp} (hb : Inside b b') :
    K.Carries (p.after t r ⟨.inr o, res⟩ s b) (q.after t r' ⟨o, res⟩ (K.inner s) b') := by
  refine ⟨rfl, ?_, ?_, ?_, ?_⟩
  · have hevent : K.event ⟨t, r, ⟨.inr o, res⟩⟩ = some ⟨t, r', ⟨o, res⟩⟩ := by
      simp only [Stacked.event, hr, Option.map_some]
    simp only [Pool.after, List.filterMap_cons, hevent, h.hist]
  · intro e he o' ho'
    rcases List.mem_cons.mp he with rfl | he
    · exact Option.isSome_iff_exists.mpr ⟨r', hr⟩
    · exact h.entered e he o' ho'
  · intro t' ht'
    by_cases he : t' = t
    · subst he
      rw [thread_after_self] at ht'
      cases ht'
    · rw [thread_after_ne _ _ _ _ _ he] at ht' ⊢
      exact h.fresh t' ht'
  · intro t' r'' b'' ht'
    by_cases he : t' = t
    · subst he
      rw [thread_after_self] at ht' ⊢
      obtain ⟨rfl, rfl⟩ := Prod.mk.inj (Option.some.inj ht')
      exact ⟨hr, Or.inl hb⟩
    · rw [thread_after_ne _ _ _ _ _ he] at ht' ⊢
      exact h.thread t' r'' b'' ht'

/-- One step of the outer system is none, one or two of the inner one. -/
theorem Carries.step (h : K.Carries p q) (hq : Reachable (fun _ _ => True) q) {p' : Pool Y}
    {m : Move Y} (hm : Step p m p') :
    ∃ q' : Pool Z, Reachable (fun _ _ => True) q' ∧ K.Carries p' q' := by
  cases hm with
  | arrive t r ht =>
    refine ⟨q, hq, h.shared, h.hist, h.entered, ?_, ?_⟩
    · intro t' ht'
      by_cases he : t' = t
      · subst he
        exact h.fresh t' ht
      · exact h.fresh t' (by simpa only [Pool.setThread, Function.update_of_ne he] using ht')
    · intro t' r' b ht'
      by_cases he : t' = t
      · subst he
        simp only [Pool.setThread, Function.update_self, Option.some.injEq, Prod.mk.injEq] at ht'
        obtain ⟨rfl, rfl⟩ := ht'
        rw [h.fresh t' ht]
        exact K.handler r
      · exact h.thread t' r' b (by simpa only [Pool.setThread, Function.update_of_ne he] using ht')
  | drift d s hs =>
    rcases K.drift _ _ _ hs with hsame | ⟨d', hd'⟩
    · exact ⟨q, hq, h.shared.trans hsame.symm, h.hist, h.entered, h.fresh, h.thread⟩
    · rw [← h.shared] at hd'
      exact ⟨_, hq.step trivial (.drift d' _ hd'), rfl, h.hist, h.entered, h.fresh, h.thread⟩
  | answer t c r o k x s ht hs =>
    cases o with
    | inl o =>
      exact ⟨q, hq, h.after_inl ht (K.answer_inl _ _ _ _ _ _ hs) (Runs.next (h.thread t r _ ht) x)⟩
    | inr o =>
      obtain ⟨q', r', k', f, hq', h', ht', hr, hf, rfl⟩ := h.ready hq ht
      obtain ⟨c', hc'⟩ := K.answer_inr _ _ _ _ _ _ hs
      rw [← h'.shared] at hc'
      exact ⟨_, hq'.step trivial (.answer t c' r' o k' x _ ht' hc'),
        h'.after_inr hr (inside_inr (k' x) hf)⟩
  | fail t c r o k e s ht he hs =>
    cases o with
    | inl o =>
      exact ⟨q, hq, h.after_inl ht (K.failure_inl _ _ _ _ _ hs) (Runs.raised (h.thread t r _ ht) e)⟩
    | inr o =>
      obtain ⟨q', r', k', f, hq', h', ht', hr, hf, rfl⟩ := h.ready hq ht
      obtain ⟨c', hc'⟩ := K.failure_inr _ _ _ _ _ hs
      rw [← h'.shared] at hc'
      obtain ⟨e', he', rfl⟩ := Option.map_eq_some_iff.mp he
      exact ⟨_, hq'.step trivial (.fail t c' r' o k' e' _ ht' he' hc'),
        h'.after_inr hr (inside_inr (.raise e') hf)⟩

/-- Every run of the outer system carries a run of the inner one. -/
theorem reachable_carries {C : Pool Y → Move Y → Prop} (K : Stacked Y Z) (hp : Reachable C p) :
    ∃ q : Pool Z, Reachable (fun _ _ => True) q ∧ K.Carries p q := by
  induction hp with
  | start s hs =>
    exact ⟨Pool.empty (K.inner s), .start _ (K.start s hs), rfl, rfl,
      fun e he => absurd he List.not_mem_nil, fun _ _ => rfl, fun t r b ht => by cases ht⟩
  | step _ _ hm ih =>
    obtain ⟨q, hq, h⟩ := ih
    exact h.step hq hm

end Stacked

end Interleaving
