import McpControlPlane.Stacking

/-! # Operations that are programs

An operation of a system may stand for a request to another system, which runs it statement by
statement while other requests go on. The implementation runs the statements; it simulates the
system where the operation is one step, which is taken where its request ends. -/
namespace Interleaving

variable {S T : Signature} {α β : Type}

/-! ## Expanding a program -/

/-- The request that an operation stands for, and what is made of its response. -/
abbrev Expansion (S : Signature) (Z : System T) :=
  (o : S.Op) → Option (Z.Req × (Z.Resp → S.Res o))

variable {Z : System T} {X : Expansion S Z}

def Prog.expand (X : Expansion S Z) : Prog S α → Prog (S.sum T) α
  | .ret a => .ret a
  | .raise e => .raise (S := S.sum T) (.inl e)
  | .call o k =>
    match X o with
    | none => .call (S := S.sum T) (.inl o) fun x => (k x).expand X
    | some (z, f) => (Z.handler z).inr >>= fun y => (k (f y)).expand X

theorem expand_kept {o : S.Op} (ho : X o = none) (k : S.Res o → Prog S α) :
    (Prog.call o k).expand X = .call (S := S.sum T) (.inl o) fun x => (k x).expand X := by
  rw [Prog.expand, ho]

theorem expand_expanded {o : S.Op} {z : Z.Req} {f : Z.Resp → S.Res o} (ho : X o = some (z, f))
    (k : S.Res o → Prog S α) :
    (Prog.call o k).expand X = (Z.handler z).inr >>= fun y => (k (f y)).expand X := by
  rw [Prog.expand, ho]

/-- The program runs no request of the other system, or with `true` one at most. -/
inductive Uses (X : Expansion S Z) : Bool → Prog S α → Prop
  | ret (n : Bool) (a : α) : Uses X n (.ret a)
  | raise (n : Bool) (e : S.Exn) : Uses X n (.raise e)
  | call (n : Bool) (o : S.Op) (k : S.Res o → Prog S α) (ho : X o = none)
      (hk : ∀ x, Uses X n (k x)) : Uses X n (.call o k)
  | enter (o : S.Op) (k : S.Res o → Prog S α) (ho : X o ≠ none) (hk : ∀ x, Uses X false (k x)) :
      Uses X true (.call o k)

theorem Uses.true {n : Bool} {p : Prog S α} (h : Uses X n p) : Uses X true p := by
  induction h with
  | ret n a => exact .ret _ a
  | raise n e => exact .raise _ e
  | call n o k ho hk ih => exact .call _ o k ho ih
  | enter o k ho hk ih => exact .enter o k ho hk

theorem uses_perform {n : Bool} {o : S.Op} {f : S.Res o → Prog S α} (ho : X o = none)
    (hf : ∀ x, Uses X n (f x)) : Uses X n (perform o >>= f) := .call n o _ ho hf

theorem Uses.bind_last {n : Bool} {p : Prog S α} {f : α → Prog S β} (hp : Uses X n p)
    (hf : ∀ a, Uses X false (f a)) : Uses X n (p >>= f) := by
  induction hp with
  | ret n a =>
    cases n with
    | false => exact hf a
    | true => exact (hf a).true
  | raise n e => exact .raise _ e
  | call n o k ho hk ih => exact .call _ o _ ho fun x => ih x
  | enter o k ho hk ih => exact .enter o _ ho fun x => ih x

theorem Uses.bind_first {n : Bool} {p : Prog S α} {f : α → Prog S β} (hp : Uses X false p)
    (hf : ∀ a, Uses X n (f a)) : Uses X n (p >>= f) := by
  generalize hb : false = b at hp
  induction hp with
  | ret _ a => exact hf a
  | raise _ e => exact .raise _ e
  | call _ o k ho hk ih => exact .call _ o _ ho fun x => ih x hb
  | enter o k ho hk ih => cases hb

/-! ## Implementations -/

/-- A system over the operations that are kept and those of the other system. -/
structure Implementation (A : System S) (Z : System T) where
  expansion : Expansion S Z
  State : Type
  Oracle : Type
  Drift : Type
  start : State → Prop
  answer : State → ℕ → (o : S.Op ⊕ T.Op) → Oracle → Option ((S.sum T).Res o × State)
  failure : State → ℕ → S.Op ⊕ T.Op → Oracle → Option State
  drift : State → Drift → Option State

variable {A : System S}

/-- It runs the expanded programs. -/
abbrev Implementation.system (I : Implementation A Z) : System (S.sum T) where
  Req := A.Req
  Resp := A.Resp
  State := I.State
  Oracle := I.Oracle
  Drift := I.Drift
  handler r := (A.handler r).expand I.expansion
  start := I.start
  answer := I.answer
  failure := I.failure
  drift := I.drift

/-- What a step of the request for `o` does to the system where `o` is one step: nothing while the
request goes on, and the step where it ends. -/
def Effect (A : System S) {σ : Type} (R : σ → A.State → Prop) (s' : σ) (a : A.State) (t : ℕ)
    (o : S.Op) (f : Z.Resp → S.Res o) : Prog T Z.Resp → Prop
  | .call _ _ => R s' a
  | .ret y => ∃ c a', A.answer a t o c = some (f y, a') ∧ R s' a'
  | .raise _ => ∃ e c a', S.fails o = some e ∧ A.failure a t o c = some a' ∧ R s' a'

/-- `R` relates the states, step by step. -/
structure Implementation.Correct (I : Implementation A Z) (inner : I.State → Z.State)
    (R : I.State → A.State → Prop) : Prop where
  once : ∀ r, Uses I.expansion true (A.handler r)
  calls : ∀ z, ∃ o k, Z.handler z = .call o k
  start : ∀ s, I.start s → Z.start (inner s) ∧ ∃ a, A.start a ∧ R s a
  answer_kept : ∀ s a t (o : S.Op) c x s', I.expansion o = none → R s a →
    I.answer s t (.inl o) c = some (x, s') →
      inner s' = inner s ∧ ∃ c' a', A.answer a t o c' = some (x, a') ∧ R s' a'
  failure_kept : ∀ s a t (o : S.Op) c s', I.expansion o = none → R s a →
    I.failure s t (.inl o) c = some s' →
      inner s' = inner s ∧ ∃ c' a', A.failure a t o c' = some a' ∧ R s' a'
  drift : ∀ s a d s', R s a → I.drift s d = some s' →
    inner s' = inner s ∧ ∃ d' a', A.drift a d' = some a' ∧ R s' a'
  answer_inner : ∀ (q : Pool Z) s a t (o : S.Op) z f (o' : T.Op) (k : T.Res o' → Prog T Z.Resp) c x s',
    Reachable (fun _ _ => True) q → q.shared = inner s → q.thread t = some (z, .call o' k) →
    I.expansion o = some (z, f) → R s a → I.answer s t (.inr o') c = some (x, s') →
      (∃ c', Z.answer (inner s) t o' c' = some (x, inner s')) ∧ Effect A R s' a t o f (k x)
  failure_inner : ∀ (q : Pool Z) s a t (o : S.Op) z f (o' : T.Op) (k : T.Res o' → Prog T Z.Resp) c s'
      (e : T.Exn), Reachable (fun _ _ => True) q → q.shared = inner s →
    q.thread t = some (z, .call o' k) → I.expansion o = some (z, f) → R s a →
    T.fails o' = some e → I.failure s t (.inr o') c = some s' →
      (∃ c', Z.failure (inner s) t o' c' = some (inner s')) ∧ Effect A R s' a t o f (.raise e)

/-! ## The simulation -/

/-- How far the request is in both systems: between two operations, inside the request of one, or
through with an exception of it. -/
def Matches (X : Expansion S Z) (q : Option (Z.Req × Prog T Z.Resp)) (b : Prog (S.sum T) α)
    (a : Prog S α) : Prop :=
  (∃ n, Uses X n a ∧ (n = true → q = none) ∧ b = a.expand X) ∨
  (∃ (o : S.Op) (k : S.Res o → Prog S α) (z : Z.Req) (f : Z.Resp → S.Res o) (o' : T.Op)
      (k' : T.Res o' → Prog T Z.Resp), X o = some (z, f) ∧ (∀ x, Uses X false (k x)) ∧
      q = some (z, .call o' k') ∧ a = .call o k ∧
      b = (Prog.call o' k').inr >>= fun y => (k (f y)).expand X) ∨
  ∃ e e', b = .raise (.inr e) ∧ a = .raise e'

section Matches

variable {q : Option (Z.Req × Prog T Z.Resp)} {a : Prog S α}

theorem expand_call_inl {o : S.Op} {k : S.Res o → Prog (S.sum T) α}
    (hcalls : ∀ z, ∃ o k, Z.handler z = .call o k)
    (h : a.expand X = .call (S := S.sum T) (.inl o) k) :
    ∃ k' : S.Res o → Prog S α, a = .call o k' ∧ X o = none ∧ k = fun x => (k' x).expand X := by
  cases a with
  | ret x => cases h
  | raise e => cases h
  | call o₁ k₁ =>
    cases ho : X o₁ with
    | none =>
      rw [expand_kept ho] at h
      injection h with hop hk
      obtain rfl := Sum.inl.inj hop
      exact ⟨k₁, rfl, ho, (eq_of_heq hk).symm⟩
    | some zf =>
      obtain ⟨z, f⟩ := zf
      obtain ⟨o', k', hz⟩ := hcalls z
      rw [expand_expanded ho, hz] at h
      injection h with hop
      cases hop

theorem expand_call_inr {o : T.Op} {k : T.Res o → Prog (S.sum T) α}
    (hcalls : ∀ z, ∃ o k, Z.handler z = .call o k)
    (h : a.expand X = .call (S := S.sum T) (.inr o) k) :
    ∃ (o₁ : S.Op) (k₁ : S.Res o₁ → Prog S α) (z : Z.Req) (f : Z.Resp → S.Res o₁)
      (k' : T.Res o → Prog T Z.Resp), a = .call o₁ k₁ ∧ X o₁ = some (z, f) ∧
      Z.handler z = .call o k' ∧ k = fun x => (k' x).inr >>= fun y => (k₁ (f y)).expand X := by
  cases a with
  | ret x => cases h
  | raise e => cases h
  | call o₁ k₁ =>
    cases ho : X o₁ with
    | none =>
      rw [expand_kept ho] at h
      injection h with hop
      cases hop
    | some zf =>
      obtain ⟨z, f⟩ := zf
      obtain ⟨o', k', hz⟩ := hcalls z
      rw [expand_expanded ho, hz] at h
      injection h with hop hk
      obtain rfl := Sum.inr.inj hop
      exact ⟨o₁, k₁, z, f, k', rfl, ho, hz, (eq_of_heq hk).symm⟩

/-- A kept operation is one of both programs. -/
theorem Matches.kept {o : S.Op} {k : S.Res o → Prog (S.sum T) α}
    (hcalls : ∀ z, ∃ o k, Z.handler z = .call o k)
    (h : Matches X q (.call (S := S.sum T) (.inl o) k) a) :
    ∃ k' : S.Res o → Prog S α, a = .call o k' ∧ X o = none ∧
      (∀ x, Matches X q (k x) (k' x)) ∧ ∀ e, Matches X q (.raise (.inl e)) (.raise e : Prog S α) := by
  rcases h with ⟨n, hn, hq, hb⟩ | ⟨o₁, k₁, z, f, o', k', -, -, -, -, hb⟩ | ⟨e, e', hb, -⟩
  · obtain ⟨k', rfl, ho, rfl⟩ := expand_call_inl hcalls hb.symm
    refine ⟨k', rfl, ho, fun x => Or.inl ⟨n, ?_, hq, rfl⟩, fun e => Or.inl ⟨n, .raise n e, hq, rfl⟩⟩
    cases hn with
    | call _ _ _ _ hk => exact hk x
    | enter _ _ ho' _ => exact absurd ho ho'
  · injection hb with hop
    cases hop
  · cases hb

/-- An operation of the other system belongs to the request that the abstract operation stands
for, which has arrived or is about to. -/
theorem Matches.inner {o : T.Op} {k : T.Res o → Prog (S.sum T) α}
    (hcalls : ∀ z, ∃ o k, Z.handler z = .call o k)
    (h : Matches X q (.call (S := S.sum T) (.inr o) k) a) :
    ∃ (o₁ : S.Op) (k₁ : S.Res o₁ → Prog S α) (z : Z.Req) (f : Z.Resp → S.Res o₁)
      (k' : T.Res o → Prog T Z.Resp), a = .call o₁ k₁ ∧ X o₁ = some (z, f) ∧
      (∀ x, Uses X false (k₁ x)) ∧
      (k = fun x => (k' x).inr >>= fun y => (k₁ (f y)).expand X) ∧
      (q = none ∧ Z.handler z = .call o k' ∨ q = some (z, .call o k')) := by
  rcases h with ⟨n, hn, hq, hb⟩ | ⟨o₁, k₁, z, f, o', k', ho, hk, hq, ha, hb⟩ | ⟨e, e', hb, -⟩
  · obtain ⟨o₁, k₁, z, f, k', rfl, ho, hz, rfl⟩ := expand_call_inr hcalls hb.symm
    cases hn with
    | call _ _ _ ho' _ =>
      rw [ho] at ho'
      cases ho'
    | enter _ _ _ hk => exact ⟨o₁, k₁, z, f, k', rfl, ho, hk, rfl, Or.inl ⟨hq rfl, hz⟩⟩
  · injection hb with hop hcont
    obtain rfl := Sum.inr.inj hop
    exact ⟨o₁, k₁, z, f, k', ha, ho, hk, eq_of_heq hcont, Or.inr hq⟩
  · cases hb

end Matches

variable {I : Implementation A Z} {inner : I.State → Z.State} {R : I.State → A.State → Prop}

/-- What the kept operations of a history are in the system above. -/
def keptEvent : Event I.system → Option (Event A)
  | ⟨t, r, ⟨.inl o, x⟩⟩ => some ⟨t, r, ⟨o, x⟩⟩
  | ⟨_, _, ⟨.inr _, _⟩⟩ => none

def keptEvents (X : Expansion S Z) (h : List (Event A)) : List (Event A) :=
  h.filter fun e => (X e.entry.op).isNone

/-- The pool of the implementation with the pools that it simulates and carries. -/
structure Simulates (inner : I.State → Z.State) (R : I.State → A.State → Prop)
    (p : Pool I.system) (a : Pool A) (q : Pool Z) : Prop where
  above : Reachable (fun _ _ => True) a
  below : Reachable (fun _ _ => True) q
  related : R p.shared a.shared
  shared : q.shared = inner p.shared
  hist : p.hist.filterMap keptEvent = keptEvents I.expansion a.hist
  fresh : ∀ t, p.thread t = none → a.thread t = none ∧ q.thread t = none
  thread : ∀ t r b, p.thread t = some (r, b) → ∃ b', a.thread t = some (r, b') ∧
    Matches I.expansion (q.thread t) b b'

section Simulates

variable {p p' : Pool I.system} {a a' : Pool A} {q q' : Pool Z}

/-- Pools that differ in one thread. -/
theorem Simulates.update (h : Simulates inner R p a q) (t : ℕ)
    (ha : Reachable (fun _ _ => True) a') (hq : Reachable (fun _ _ => True) q')
    (hrelated : R p'.shared a'.shared) (hshared : q'.shared = inner p'.shared)
    (hhist : p'.hist.filterMap keptEvent = keptEvents I.expansion a'.hist)
    (ht : ∃ r b b', p'.thread t = some (r, b) ∧ a'.thread t = some (r, b') ∧
      Matches I.expansion (q'.thread t) b b')
    (hother : ∀ t', t' ≠ t → p'.thread t' = p.thread t' ∧ a'.thread t' = a.thread t' ∧
      q'.thread t' = q.thread t') : Simulates inner R p' a' q' := by
  obtain ⟨r, b, b', hp, ha', hmatch⟩ := ht
  refine ⟨ha, hq, hrelated, hshared, hhist, ?_, ?_⟩
  · intro t' hnone
    by_cases he : t' = t
    · subst he
      rw [hp] at hnone
      cases hnone
    · obtain ⟨hpt, hat, hqt⟩ := hother t' he
      rw [hat, hqt]
      exact h.fresh t' (hpt ▸ hnone)
  · intro t' r' d hthread
    by_cases he : t' = t
    · subst he
      rw [hp] at hthread
      obtain ⟨rfl, rfl⟩ := Prod.mk.inj (Option.some.inj hthread)
      exact ⟨b', ha', hmatch⟩
    · obtain ⟨hpt, hat, hqt⟩ := hother t' he
      rw [hat, hqt]
      exact h.thread t' r' d (hpt ▸ hthread)

/-- As soon as its request has arrived, an operation of the other system waits in both. -/
theorem Simulates.entered (hI : I.Correct inner R) (h : Simulates inner R p a q) {t : ℕ}
    {r : A.Req} {o : T.Op} {k : T.Res o → Prog (S.sum T) A.Resp}
    (ht : p.thread t = some (r, .call (S := S.sum T) (.inr o) k)) :
    ∃ (q' : Pool Z) (o₁ : S.Op) (k₁ : S.Res o₁ → Prog S A.Resp) (z : Z.Req)
      (f : Z.Resp → S.Res o₁) (k' : T.Res o → Prog T Z.Resp), Simulates inner R p a q' ∧
      a.thread t = some (r, .call o₁ k₁) ∧ I.expansion o₁ = some (z, f) ∧
      (∀ x, Uses I.expansion false (k₁ x)) ∧
      (k = fun x => (k' x).inr >>= fun y => (k₁ (f y)).expand I.expansion) ∧
      q'.thread t = some (z, .call o k') := by
  obtain ⟨b', hat, hmatch⟩ := h.thread t r _ ht
  obtain ⟨o₁, k₁, z, f, k', rfl, ho, hk, hcont, hq | hq⟩ := hmatch.inner hI.calls
  · obtain ⟨hnone, hz⟩ := hq
    have hself : (q.setThread t z (Z.handler z)).thread t = some (z, .call o k') := by
      simp only [Pool.setThread, Function.update_self, hz]
    refine ⟨q.setThread t z (Z.handler z), o₁, k₁, z, f, k', ?_, hat, ho, hk, hcont, hself⟩
    refine h.update t h.above (h.below.step trivial (.arrive t z hnone)) h.related h.shared h.hist
      ⟨r, _, _, ht, hat, Or.inr (Or.inl ⟨o₁, k₁, z, f, o, k', ho, hk, hself, rfl, ?_⟩)⟩ ?_
    · rw [hcont]
      rfl
    · intro t' he
      exact ⟨rfl, rfl, by simp only [Pool.setThread, Function.update_of_ne he]⟩
  · exact ⟨q, o₁, k₁, z, f, k', h, hat, ho, hk, hcont, hq⟩

/-- A step of the request that an operation stands for. -/
theorem Simulates.inside (h : Simulates inner R p a q) {t : ℕ} {r : A.Req} {z : Z.Req}
    {o₁ : S.Op} {k₁ : S.Res o₁ → Prog S A.Resp} {f : Z.Resp → S.Res o₁}
    (hat : a.thread t = some (r, .call o₁ k₁)) (ho : I.expansion o₁ = some (z, f))
    (hk : ∀ x, Uses I.expansion false (k₁ x)) {o : T.Op} {x : Option (T.Res o)} {s : I.State}
    {b : Prog T Z.Resp} (hq : Reachable (fun _ _ => True) (q.after t z ⟨o, x⟩ (inner s) b))
    (heffect : Effect A R s a.shared t o₁ f b) :
    ∃ a' q', Simulates inner R (p.after t r ⟨.inr o, x⟩ s
      (b.inr >>= fun y => (k₁ (f y)).expand I.expansion)) a' q' := by
  have hself : (q.after t z ⟨o, x⟩ (inner s) b).thread t = some (z, b) := thread_after_self _ _ _ _ _ _
  have hexpanded : (I.expansion o₁).isNone = false := by rw [ho]; rfl
  cases b with
  | call o' k' =>
    refine ⟨a, _, h.update t h.above hq heffect rfl h.hist
      ⟨r, _, _, thread_after_self _ _ _ _ _ _, hat,
        Or.inr (Or.inl ⟨o₁, k₁, z, f, o', k', ho, hk, hself, rfl, rfl⟩)⟩ ?_⟩
    intro t' he
    exact ⟨thread_after_ne _ _ _ _ _ he, rfl, thread_after_ne _ _ _ _ _ he⟩
  | ret y =>
    obtain ⟨c, a', hanswer, hrelated⟩ := heffect
    refine ⟨_, _, h.update t (h.above.step trivial (.answer t c r o₁ k₁ (f y) a' hat hanswer)) hq
      hrelated rfl ?_ ⟨r, _, _, thread_after_self _ _ _ _ _ _, thread_after_self _ _ _ _ _ _,
        Or.inl ⟨false, hk (f y), (by intro hfalse; cases hfalse), rfl⟩⟩ ?_⟩
    · simp only [keptEvents, Pool.after, List.filter_cons, hexpanded, Bool.false_eq_true, if_false]
      exact h.hist
    · intro t' he
      exact ⟨thread_after_ne _ _ _ _ _ he, thread_after_ne _ _ _ _ _ he,
        thread_after_ne _ _ _ _ _ he⟩
  | raise e =>
    obtain ⟨e', c, a', hfails, hfailure, hrelated⟩ := heffect
    refine ⟨_, _, h.update t (h.above.step trivial (.fail t c r o₁ k₁ e' a' hat hfails hfailure)) hq
      hrelated rfl ?_ ⟨r, _, _, thread_after_self _ _ _ _ _ _, thread_after_self _ _ _ _ _ _,
        Or.inr (Or.inr ⟨e, e', rfl, rfl⟩)⟩ ?_⟩
    · simp only [keptEvents, Pool.after, List.filter_cons, hexpanded, Bool.false_eq_true, if_false]
      exact h.hist
    · intro t' he
      exact ⟨thread_after_ne _ _ _ _ _ he, thread_after_ne _ _ _ _ _ he,
        thread_after_ne _ _ _ _ _ he⟩

/-- One step of the implementation is none or one of the system above. -/
theorem Simulates.step (hI : I.Correct inner R) (h : Simulates inner R p a q) {m : Move I.system}
    (hm : Step p m p') : ∃ a' q', Simulates inner R p' a' q' := by
  cases hm with
  | arrive t r ht =>
    obtain ⟨hat, hqt⟩ := h.fresh t ht
    refine ⟨a.setThread t r (A.handler r), q, h.update t
      (h.above.step trivial (Step.arrive (Y := A) t r hat)) h.below h.related h.shared h.hist
      ⟨r, _, A.handler r, ?_, ?_, Or.inl ⟨true, hI.once r, fun _ => hqt, rfl⟩⟩ ?_⟩
    · simp only [Pool.setThread, Function.update_self]
    · simp only [Pool.setThread, Function.update_self]
    · intro t' he
      simp only [Pool.setThread, Function.update_of_ne he, and_self]
  | drift d s hs =>
    obtain ⟨hsame, d', a', hd, hrelated⟩ := hI.drift _ _ _ _ h.related hs
    exact ⟨_, q, h.above.step trivial (.drift d' a' hd), h.below, hrelated,
      h.shared.trans hsame.symm, h.hist, h.fresh, h.thread⟩
  | answer t c r o k x s ht hs =>
    cases o with
    | inl o =>
      obtain ⟨b', hat, hmatch⟩ := h.thread t r _ ht
      obtain ⟨k', rfl, ho, hnext, -⟩ := hmatch.kept hI.calls
      obtain ⟨hsame, c', a', hanswer, hrelated⟩ := hI.answer_kept _ _ _ _ _ _ _ ho h.related hs
      refine ⟨_, q, h.update t (h.above.step trivial (.answer t c' r o k' x a' hat hanswer)) h.below
        hrelated (h.shared.trans hsame.symm) ?_ ⟨r, _, _, thread_after_self _ _ _ _ _ _,
          thread_after_self _ _ _ _ _ _, hnext x⟩ ?_⟩
      · simp only [keptEvents, Pool.after, List.filter_cons, ho, Option.isNone_none, if_true]
        exact congrArg (List.cons _) h.hist
      · intro t' he
        exact ⟨thread_after_ne _ _ _ _ _ he, thread_after_ne _ _ _ _ _ he, rfl⟩
    | inr o =>
      obtain ⟨q', o₁, k₁, z, f, k', h', hat, ho, hk, rfl, hqt⟩ := h.entered hI ht
      obtain ⟨⟨c', hc'⟩, heffect⟩ := hI.answer_inner q' _ _ _ _ _ _ _ _ _ _ _ h'.below h'.shared hqt
        ho h.related hs
      rw [← h'.shared] at hc'
      exact h'.inside hat ho hk (h'.below.step trivial (.answer t c' z o k' x _ hqt hc')) heffect
  | fail t c r o k e s ht he hs =>
    cases o with
    | inl o =>
      obtain ⟨b', hat, hmatch⟩ := h.thread t r _ ht
      obtain ⟨k', rfl, ho, -, hraise⟩ := hmatch.kept hI.calls
      obtain ⟨hsame, c', a', hfailure, hrelated⟩ := hI.failure_kept _ _ _ _ _ _ ho h.related hs
      obtain ⟨e', hfails, rfl⟩ := Option.map_eq_some_iff.mp he
      refine ⟨_, q, h.update t (h.above.step trivial (.fail t c' r o k' e' a' hat hfails hfailure))
        h.below hrelated (h.shared.trans hsame.symm) ?_ ⟨r, _, _, thread_after_self _ _ _ _ _ _,
          thread_after_self _ _ _ _ _ _, hraise e'⟩ ?_⟩
      · simp only [keptEvents, Pool.after, List.filter_cons, ho, Option.isNone_none, if_true]
        exact congrArg (List.cons _) h.hist
      · intro t' he
        exact ⟨thread_after_ne _ _ _ _ _ he, thread_after_ne _ _ _ _ _ he, rfl⟩
    | inr o =>
      obtain ⟨q', o₁, k₁, z, f, k', h', hat, ho, hk, rfl, hqt⟩ := h.entered hI ht
      obtain ⟨e', hfails, rfl⟩ := Option.map_eq_some_iff.mp he
      obtain ⟨⟨c', hc'⟩, heffect⟩ := hI.failure_inner q' _ _ _ _ _ _ _ _ _ _ _ h'.below h'.shared hqt
        ho h.related hfails hs
      rw [← h'.shared] at hc'
      exact h'.inside hat ho hk (h'.below.step trivial (.fail t c' z o k' e' _ hqt hfails hc')) heffect

/-- Every run of the implementation is one of the system above, and carries one of the other. -/
theorem reachable_simulates (hI : I.Correct inner R)
    {C : Pool I.system → Move I.system → Prop} (hp : Reachable C p) :
    ∃ a q, Simulates inner R p a q := by
  induction hp with
  | start s hs =>
    obtain ⟨hz, a, ha, hrelated⟩ := hI.start s hs
    exact ⟨Pool.empty a, Pool.empty (inner s), .start _ ha, .start _ hz, hrelated, rfl, rfl,
      fun _ _ => ⟨rfl, rfl⟩, fun t r b ht => by cases ht⟩
  | step _ _ hm ih =>
    obtain ⟨a, q, h⟩ := ih
    exact h.step hI hm

end Simulates

/-! ## Where a request ends -/

/-- The program goes on. -/
def Prog.waits : Prog S α → Prop
  | .call _ _ => True
  | _ => False

theorem expand_waits (hcalls : ∀ z, ∃ o k, Z.handler z = .call o k) (o : S.Op)
    (k : S.Res o → Prog S α) : ((Prog.call o k).expand X).waits := by
  cases ho : X o with
  | none =>
    rw [expand_kept ho]
    exact True.intro
  | some zf =>
    obtain ⟨z, f⟩ := zf
    obtain ⟨o', k', hz⟩ := hcalls z
    rw [expand_expanded ho, hz]
    exact True.intro

theorem Matches.ret_iff (hcalls : ∀ z, ∃ o k, Z.handler z = .call o k)
    {q : Option (Z.Req × Prog T Z.Resp)} {b : Prog (S.sum T) α} {a : Prog S α}
    (h : Matches X q b a) {x : α} : b = .ret x ↔ a = .ret x := by
  rcases h with ⟨n, -, -, rfl⟩ | ⟨o, k, z, f, o', k', -, -, -, rfl, rfl⟩ | ⟨e, e', rfl, rfl⟩
  · cases a with
    | ret y => exact ⟨fun h => congrArg _ (Prog.ret.inj h), fun h => congrArg _ (Prog.ret.inj h)⟩
    | raise e => exact ⟨(by intro h; cases h), (by intro h; cases h)⟩
    | call o k =>
      have hwaits := expand_waits (X := X) hcalls o k
      refine ⟨fun h => ?_, (by intro h; cases h)⟩
      rw [h] at hwaits
      cases hwaits
  · exact ⟨(by intro h; cases h), (by intro h; cases h)⟩
  · exact ⟨(by intro h; cases h), (by intro h; cases h)⟩

theorem Matches.raise_iff (hcalls : ∀ z, ∃ o k, Z.handler z = .call o k)
    {q : Option (Z.Req × Prog T Z.Resp)} {b : Prog (S.sum T) α} {a : Prog S α}
    (h : Matches X q b a) : (∃ e, b = .raise e) ↔ ∃ e, a = .raise e := by
  rcases h with ⟨n, -, -, rfl⟩ | ⟨o, k, z, f, o', k', -, -, -, rfl, rfl⟩ | ⟨e, e', rfl, rfl⟩
  · cases a with
    | ret y => exact ⟨(by rintro ⟨e, h⟩; cases h), (by rintro ⟨e, h⟩; cases h)⟩
    | raise e => exact ⟨fun _ => ⟨e, rfl⟩, fun _ => ⟨.inl e, rfl⟩⟩
    | call o k =>
      have hwaits := expand_waits (X := X) hcalls o k
      refine ⟨?_, (by rintro ⟨e, h⟩; cases h)⟩
      rintro ⟨e, h⟩
      rw [h] at hwaits
      cases hwaits
  · exact ⟨(by rintro ⟨e, h⟩; cases h), (by rintro ⟨e, h⟩; cases h)⟩
  · exact ⟨fun _ => ⟨e', rfl⟩, fun _ => ⟨.inr e, rfl⟩⟩

/-- The programs of a request in both systems. -/
theorem Simulates.both {p : Pool I.system} {a : Pool A} {q : Pool Z} (h : Simulates inner R p a q)
    (t : ℕ) : p.thread t = none ∧ a.thread t = none ∨ ∃ r b b', p.thread t = some (r, b) ∧
      a.thread t = some (r, b') ∧ Matches I.expansion (q.thread t) b b' := by
  cases hp : p.thread t with
  | none => exact Or.inl ⟨rfl, (h.fresh t hp).1⟩
  | some rb =>
    obtain ⟨r, b⟩ := rb
    obtain ⟨b', ha, hmatch⟩ := h.thread t r b hp
    exact Or.inr ⟨r, b, b', rfl, ha, hmatch⟩

theorem Simulates.ret_iff (hI : I.Correct inner R) {p : Pool I.system} {a : Pool A} {q : Pool Z}
    (h : Simulates inner R p a q) {t : ℕ} {r : A.Req} {x : A.Resp} :
    p.thread t = some (r, .ret x) ↔ a.thread t = some (r, .ret x) := by
  rcases h.both t with ⟨hp, ha⟩ | ⟨r', b, b', hp, ha, hmatch⟩
  · rw [hp, ha]
    exact ⟨(by intro h; cases h), (by intro h; cases h)⟩
  · rw [hp, ha, Option.some.injEq, Option.some.injEq, Prod.mk.injEq, Prod.mk.injEq,
      hmatch.ret_iff hI.calls]

theorem Simulates.raise_iff (hI : I.Correct inner R) {p : Pool I.system} {a : Pool A} {q : Pool Z}
    (h : Simulates inner R p a q) {t : ℕ} {r : A.Req} :
    (∃ e, p.thread t = some (r, .raise e)) ↔ ∃ e, a.thread t = some (r, .raise e) := by
  rcases h.both t with ⟨hp, ha⟩ | ⟨r', b, b', hp, ha, hmatch⟩
  · simp only [hp, ha, reduceCtorEq, exists_false]
  · simp only [hp, ha, Option.some.injEq, Prod.mk.injEq, exists_and_left,
      hmatch.raise_iff hI.calls]

theorem Simulates.kept_mem {p : Pool I.system} {a : Pool A} {q : Pool Z}
    (h : Simulates inner R p a q) {e : Event I.system} (he : e ∈ p.hist) {v : Event A}
    (hv : keptEvent e = some v) : v ∈ a.hist := by
  have hkept : v ∈ keptEvents I.expansion a.hist := by
    rw [← h.hist]
    exact List.mem_filterMap.mpr ⟨e, he, hv⟩
  exact (List.mem_filter.mp hkept).1

/-- A program that returns has met no failure. -/
theorem sat_unfailed (a : Prog S α) {tr : Trace S} (htr : ∀ e ∈ tr, e.res ≠ none) :
    Sat (fun _ _ => True) (fun x tr => ∀ y, x = .ok y → ∀ e ∈ tr, e.res ≠ none) a tr := by
  induction a generalizing tr with
  | ret y => exact fun _ _ => htr
  | raise e => exact fun y h => by cases h
  | call o k ih =>
    refine ⟨True.intro, fun x => ih x ?_, fun e _ y h => by cases h⟩
    intro e he
    rcases List.mem_cons.mp he with rfl | he
    · exact Option.some_ne_none x
    · exact htr e he

end Interleaving
