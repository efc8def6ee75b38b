import Mathlib

/-! # Requests that interleave at their operations

A request runs a program that asks its environment to perform operations on a shared
state; between two operations of one request any number of others may run. What a program
does by itself is a matter of the trace of its own operations, and `Sat` is the logic for it. -/
namespace Interleaving

/-- `fails o` is what a failing `o` raises; nothing for an operation that cannot fail. -/
structure Signature where
  Op : Type
  Res : Op → Type
  Exn : Type
  fails : Op → Option Exn

inductive Prog (S : Signature) (α : Type) : Type where
  | ret (a : α)
  | raise (e : S.Exn)
  | call (o : S.Op) (k : S.Res o → Prog S α)

variable {S : Signature} {α β : Type}

def Prog.bind : Prog S α → (α → Prog S β) → Prog S β
  | .ret a, f => f a
  | .raise e, _ => .raise e
  | .call o k, f => .call o fun x => (k x).bind f

instance : Monad (Prog S) where
  pure := .ret
  bind := Prog.bind

/-- Performs one operation. -/
def perform (o : S.Op) : Prog S (S.Res o) := .call o .ret

@[simp] theorem ret_bind (a : α) (f : α → Prog S β) : (Prog.ret a : Prog S α) >>= f = f a := rfl

@[simp] theorem raise_bind (e : S.Exn) (f : α → Prog S β) :
    (Prog.raise e : Prog S α) >>= f = .raise e := rfl

@[simp] theorem call_bind (o : S.Op) (k : S.Res o → Prog S α) (f : α → Prog S β) :
    Prog.call o k >>= f = .call o fun x => k x >>= f := rfl

@[simp] theorem pure_eq (a : α) : (pure a : Prog S α) = .ret a := rfl

/-! ## One request by itself -/

/-- An operation with its answer, or without one where it failed. -/
structure Entry (S : Signature) where
  op : S.Op
  res : Option (S.Res op)

/-- A trace has its last operation first. -/
abbrev Trace (S : Signature) := List (Entry S)

/-- Each operation that `p` goes on to perform suits `ok` after the operations before it, and
its result suits `post` after all of them. -/
def Sat (ok : Trace S → S.Op → Prop) (post : Except S.Exn α → Trace S → Prop) :
    Prog S α → Trace S → Prop
  | .ret a, tr => post (.ok a) tr
  | .raise e, tr => post (.error e) tr
  | .call o k, tr => ok tr o ∧ (∀ x, Sat ok post (k x) (⟨o, some x⟩ :: tr)) ∧
      ∀ e, S.fails o = some e → post (.error e) (⟨o, none⟩ :: tr)

section Sat

variable {ok : Trace S → S.Op → Prop} {post : Except S.Exn α → Trace S → Prop}

theorem sat_ret {a : α} {tr : Trace S} : Sat ok post (.ret a) tr ↔ post (.ok a) tr := Iff.rfl

theorem sat_raise {e : S.Exn} {tr : Trace S} :
    Sat ok post (.raise e) tr ↔ post (.error e) tr := Iff.rfl

theorem sat_call {o : S.Op} {k : S.Res o → Prog S α} {tr : Trace S} :
    Sat ok post (.call o k) tr ↔ ok tr o ∧ (∀ x, Sat ok post (k x) (⟨o, some x⟩ :: tr)) ∧
      ∀ e, S.fails o = some e → post (.error e) (⟨o, none⟩ :: tr) := Iff.rfl

/-- The postcondition of a first part: go on with the rest, or pass the exception on. -/
def Then (ok : Trace S → S.Op → Prop) (f : α → Prog S β) (post : Except S.Exn β → Trace S → Prop) :
    Except S.Exn α → Trace S → Prop
  | .ok a, tr => Sat ok post (f a) tr
  | .error e, tr => post (.error e) tr

theorem sat_bind {p : Prog S α} {f : α → Prog S β} {post : Except S.Exn β → Trace S → Prop}
    {tr : Trace S} : Sat ok post (p >>= f) tr ↔ Sat ok (Then ok f post) p tr := by
  induction p generalizing tr with
  | ret a => exact Iff.rfl
  | raise e => exact Iff.rfl
  | call o k ih =>
    rw [call_bind, sat_call, sat_call]
    exact and_congr_right fun _ => and_congr_left fun _ => forall_congr' fun x => ih x

theorem sat_perform {o : S.Op} {f : S.Res o → Prog S α} {tr : Trace S} :
    Sat ok post (perform o >>= f) tr ↔ ok tr o ∧ (∀ x, Sat ok post (f x) (⟨o, some x⟩ :: tr)) ∧
      ∀ e, S.fails o = some e → post (.error e) (⟨o, none⟩ :: tr) := Iff.rfl

theorem Sat.mono {post' : Except S.Exn α → Trace S → Prop} {p : Prog S α} {tr : Trace S}
    (h : Sat ok post p tr) (hpost : ∀ r tr, post r tr → post' r tr) : Sat ok post' p tr := by
  induction p generalizing tr with
  | ret a => exact hpost _ _ h
  | raise e => exact hpost _ _ h
  | call o k ih => exact ⟨h.1, fun x => ih x (h.2.1 x), fun e he => hpost _ _ (h.2.2 e he)⟩

end Sat

/-! ## Many requests -/

/-- `answer` and `failure` give what an operation may do to the shared state, `drift` what
happens outside of every request. -/
structure System (S : Signature) where
  Req : Type
  Resp : Type
  State : Type
  Oracle : Type
  Drift : Type
  handler : Req → Prog S Resp
  start : State → Prop
  answer : State → ℕ → (o : S.Op) → Oracle → Option (S.Res o × State)
  failure : State → ℕ → S.Op → Oracle → Option State
  drift : State → Drift → Option State

variable {Y : System S}

/-- An operation of the request `tid`. -/
structure Event (Y : System S) where
  tid : ℕ
  req : Y.Req
  entry : Entry S

/-- The history has its last event first; a request stays in the pool when it is done. -/
structure Pool (Y : System S) where
  shared : Y.State
  hist : List (Event Y)
  thread : ℕ → Option (Y.Req × Prog S Y.Resp)

inductive Move (Y : System S) where
  | arrive (t : ℕ) (r : Y.Req)
  | drift (d : Y.Drift)
  | answer (t : ℕ) (c : Y.Oracle)
  | fail (t : ℕ) (c : Y.Oracle)

def Pool.empty (s : Y.State) : Pool Y := ⟨s, [], fun _ => none⟩

def Pool.setThread (p : Pool Y) (t : ℕ) (r : Y.Req) (q : Prog S Y.Resp) : Pool Y :=
  { p with thread := Function.update p.thread t (some (r, q)) }

/-- The pool after `t` was through with the operation `e`. -/
def Pool.after (p : Pool Y) (t : ℕ) (r : Y.Req) (e : Entry S) (s : Y.State) (q : Prog S Y.Resp) :
    Pool Y :=
  { shared := s, hist := ⟨t, r, e⟩ :: p.hist, thread := Function.update p.thread t (some (r, q)) }

/-- The operation that the request `t` waits for. -/
def Pool.pending (p : Pool Y) (t : ℕ) : Option S.Op :=
  match p.thread t with
  | some (_, .call o _) => some o
  | _ => none

theorem pending_of_thread {p : Pool Y} {t : ℕ} {r : Y.Req} {o : S.Op} {k : S.Res o → Prog S Y.Resp}
    (ht : p.thread t = some (r, .call o k)) : p.pending t = some o := by rw [Pool.pending, ht]

theorem thread_of_pending {p : Pool Y} {t : ℕ} {o : S.Op} (h : p.pending t = some o) :
    ∃ r k, p.thread t = some (r, .call o k) := by
  rw [Pool.pending] at h
  split at h
  · rename_i r o' k ht
    obtain rfl := Option.some.inj h
    exact ⟨r, k, ht⟩
  · cases h

def next (p : Pool Y) : Move Y → Option (Pool Y)
  | .arrive t r =>
    match p.thread t with
    | none => some (p.setThread t r (Y.handler r))
    | some _ => none
  | .drift d => (Y.drift p.shared d).map fun s => { p with shared := s }
  | .answer t c =>
    match p.thread t with
    | some (r, .call o k) =>
      (Y.answer p.shared t o c).map fun (x, s) => p.after t r ⟨o, some x⟩ s (k x)
    | _ => none
  | .fail t c =>
    match p.thread t with
    | some (r, .call o _) =>
      match S.fails o with
      | some e => (Y.failure p.shared t o c).map fun s => p.after t r ⟨o, none⟩ s (.raise e)
      | none => none
    | _ => none

inductive Step (p : Pool Y) : Move Y → Pool Y → Prop
  | arrive (t : ℕ) (r : Y.Req) (ht : p.thread t = none) :
      Step p (.arrive t r) (p.setThread t r (Y.handler r))
  | drift (d : Y.Drift) (s : Y.State) (hs : Y.drift p.shared d = some s) :
      Step p (.drift d) { p with shared := s }
  | answer (t : ℕ) (c : Y.Oracle) (r : Y.Req) (o : S.Op) (k : S.Res o → Prog S Y.Resp)
      (x : S.Res o) (s : Y.State) (ht : p.thread t = some (r, .call o k))
      (hs : Y.answer p.shared t o c = some (x, s)) :
      Step p (.answer t c) (p.after t r ⟨o, some x⟩ s (k x))
  | fail (t : ℕ) (c : Y.Oracle) (r : Y.Req) (o : S.Op) (k : S.Res o → Prog S Y.Resp)
      (e : S.Exn) (s : Y.State) (ht : p.thread t = some (r, .call o k))
      (he : S.fails o = some e) (hs : Y.failure p.shared t o c = some s) :
      Step p (.fail t c) (p.after t r ⟨o, none⟩ s (.raise e))

theorem step_of_next {p p' : Pool Y} {m : Move Y} (h : next p m = some p') : Step p m p' := by
  cases m with
  | arrive t r =>
    rw [next] at h
    split at h
    · rename_i ht
      obtain rfl := Option.some.inj h
      exact Step.arrive t r ht
    · cases h
  | drift d =>
    obtain ⟨s, hs, rfl⟩ := Option.map_eq_some_iff.mp h
    exact Step.drift d s hs
  | answer t c =>
    rw [next] at h
    split at h
    · rename_i r o k ht
      obtain ⟨⟨x, s⟩, hs, rfl⟩ := Option.map_eq_some_iff.mp h
      exact Step.answer t c r o k x s ht hs
    · cases h
  | fail t c =>
    rw [next] at h
    split at h
    · rename_i r o k ht
      split at h
      · rename_i e he
        obtain ⟨s, hs, rfl⟩ := Option.map_eq_some_iff.mp h
        exact Step.fail t c r o k e s ht he hs
      · cases h
    · cases h

/-- A request stays the request of its thread. -/
theorem Step.request {p p' : Pool Y} {m : Move Y} (hm : Step p m p') {t : ℕ} {r : Y.Req}
    {q : Prog S Y.Resp} (ht : p.thread t = some (r, q)) : ∃ q', p'.thread t = some (r, q') := by
  cases hm with
  | arrive t' r' ht' =>
    have hne : t ≠ t' := by
      rintro rfl
      rw [ht'] at ht
      cases ht
    exact ⟨q, by simpa only [Pool.setThread, Function.update_of_ne hne] using ht⟩
  | drift d s hs => exact ⟨q, ht⟩
  | answer t' c r' o k x s ht' hs =>
    by_cases he : t = t'
    · subst he
      rw [ht'] at ht
      obtain ⟨rfl, -⟩ := Prod.mk.inj (Option.some.inj ht)
      exact ⟨k x, by simp [Pool.after]⟩
    · exact ⟨q, by simpa only [Pool.after, Function.update_of_ne he] using ht⟩
  | fail t' c r' o k e s ht' he' hs =>
    by_cases he : t = t'
    · subst he
      rw [ht'] at ht
      obtain ⟨rfl, -⟩ := Prod.mk.inj (Option.some.inj ht)
      exact ⟨.raise e, by simp [Pool.after]⟩
    · exact ⟨q, by simpa only [Pool.after, Function.update_of_ne he] using ht⟩

/-- Pools that runs reach whose moves all satisfy `C`. -/
inductive Reachable (C : Pool Y → Move Y → Prop) : Pool Y → Prop
  | start (s : Y.State) (hs : Y.start s) : Reachable C (Pool.empty s)
  | step {p p' : Pool Y} {m : Move Y} (hp : Reachable C p) (hc : C p m) (hm : Step p m p') :
      Reachable C p'

theorem Reachable.mono {C D : Pool Y → Move Y → Prop} (h : ∀ p m, C p m → D p m) {p : Pool Y}
    (hp : Reachable C p) : Reachable D p := by
  induction hp with
  | start s hs => exact .start s hs
  | step _ hc hm ih => exact .step ih (h _ _ hc) hm

/-- Runs a list of moves as long as they satisfy `C`. -/
def runMoves (C : Pool Y → Move Y → Prop) [∀ p m, Decidable (C p m)] (p : Pool Y) :
    List (Move Y) → Option (Pool Y)
  | [] => some p
  | m :: ms => if C p m then (next p m).bind fun p' => runMoves C p' ms else none

theorem reachable_of_runMoves {C : Pool Y → Move Y → Prop} [∀ p m, Decidable (C p m)]
    {p p' : Pool Y} {ms : List (Move Y)} (hp : Reachable C p) (h : runMoves C p ms = some p') :
    Reachable C p' := by
  induction ms generalizing p with
  | nil =>
    obtain rfl := Option.some.inj h
    exact hp
  | cons m ms ih =>
    rw [runMoves] at h
    split_ifs at h with hc
    obtain ⟨q, hq, hrun⟩ := Option.bind_eq_some_iff.mp h
    exact ih (.step hp hc (step_of_next hq)) hrun

/-! ## From one request to the history -/

/-- The operations of one request. -/
def own (t : ℕ) (h : List (Event Y)) : Trace S := (h.filter fun e => e.tid = t).map Event.entry

@[simp] theorem own_nil (t : ℕ) : own t ([] : List (Event Y)) = [] := rfl

@[simp] theorem own_cons_self (t : ℕ) (r : Y.Req) (e : Entry S) (h : List (Event Y)) :
    own t (⟨t, r, e⟩ :: h) = e :: own t h := by simp [own]

theorem own_cons_ne {t t' : ℕ} (r : Y.Req) (e : Entry S) (h : List (Event Y)) (hne : t' ≠ t) :
    own t (⟨t', r, e⟩ :: h) = own t h := by simp [own, hne]

@[simp] theorem own_after_self (p : Pool Y) (t : ℕ) (r : Y.Req) (e : Entry S) (s : Y.State)
    (q : Prog S Y.Resp) : own t (p.after t r e s q).hist = e :: own t p.hist :=
  own_cons_self t r e p.hist

theorem own_after_ne (p : Pool Y) {t t' : ℕ} (r : Y.Req) (e : Entry S) (s : Y.State)
    (q : Prog S Y.Resp) (hne : t' ≠ t) : own t' (p.after t r e s q).hist = own t' p.hist :=
  own_cons_ne r e p.hist hne.symm

@[simp] theorem thread_after_self (p : Pool Y) (t : ℕ) (r : Y.Req) (e : Entry S) (s : Y.State)
    (q : Prog S Y.Resp) : (p.after t r e s q).thread t = some (r, q) := by simp [Pool.after]

theorem thread_after_ne (p : Pool Y) {t t' : ℕ} (r : Y.Req) (e : Entry S) (s : Y.State)
    (q : Prog S Y.Resp) (hne : t' ≠ t) : (p.after t r e s q).thread t' = p.thread t' := by
  simp [Pool.after, hne]

theorem mem_own {t : ℕ} {h : List (Event Y)} {e : Entry S} :
    e ∈ own t h ↔ ∃ v ∈ h, v.tid = t ∧ v.entry = e := by
  simp only [own, List.mem_map, List.mem_filter, decide_eq_true_eq, and_assoc]

theorem own_append (t : ℕ) (h₁ h₂ : List (Event Y)) : own t (h₁ ++ h₂) = own t h₁ ++ own t h₂ := by
  simp [own]

theorem own_append_mem {t : ℕ} (h₁ : List (Event Y)) {h₂ : List (Event Y)} {e : Entry S}
    (h : e ∈ own t h₂) : e ∈ own t (h₁ ++ h₂) := by
  rw [own_append]
  exact List.mem_append_right _ h

/-- The last operation of a request is in the history, after the others. -/
theorem entry_of_own {t : ℕ} {h : List (Event Y)} {e : Entry S} {tr : Trace S}
    (htr : own t h = e :: tr) : ∃ h₁ h₂ r, h = h₁ ++ ⟨t, r, e⟩ :: h₂ ∧ own t h₂ = tr := by
  induction h with
  | nil => cases htr
  | cons v h ih =>
    by_cases hv : v.tid = t
    · subst hv
      rw [own_cons_self] at htr
      obtain ⟨rfl, rfl⟩ := List.cons.inj htr
      exact ⟨[], h, v.req, rfl, rfl⟩
    · rw [own_cons_ne _ _ _ hv] at htr
      obtain ⟨h₁, h₂, r, rfl, hown⟩ := ih htr
      exact ⟨v :: h₁, h₂, r, rfl, hown⟩

/-- Whatever moves all satisfy of the requests that arrive holds of every request of a run. -/
theorem reachable_arrived {C : Pool Y → Move Y → Prop}
    {P : Y.Req → Prop} (hC : ∀ p t r, C p (.arrive t r) → P r) {p : Pool Y} (hp : Reachable C p)
    {t : ℕ} {r : Y.Req} {q : Prog S Y.Resp} (ht : p.thread t = some (r, q)) : P r := by
  induction hp generalizing t r q with
  | start s hs => cases ht
  | step _ hc hm ih =>
    cases hm with
    | arrive t' r' ht' =>
      by_cases he : t = t'
      · subst he
        simp only [Pool.setThread, Function.update_self, Option.some.injEq, Prod.mk.injEq] at ht
        exact ht.1 ▸ hC _ _ _ hc
      · exact ih (by simpa only [Pool.setThread, Function.update_of_ne he] using ht)
    | drift d s hs => exact ih ht
    | answer t' c r' o k x s ht' hs =>
      by_cases he : t = t'
      · subst he
        rw [thread_after_self] at ht
        exact (Prod.mk.inj (Option.some.inj ht)).1 ▸ ih ht'
      · exact ih (by simpa only [thread_after_ne _ _ _ _ _ he] using ht)
    | fail t' c r' o k e s ht' he' hs =>
      by_cases he : t = t'
      · subst he
        rw [thread_after_self] at ht
        exact (Prod.mk.inj (Option.some.inj ht)).1 ▸ ih ht'
      · exact ih (by simpa only [thread_after_ne _ _ _ _ _ he] using ht)

/-- Each event satisfies `P` after the history before it. -/
def Log (P : List (Event Y) → Event Y → Prop) : List (Event Y) → Prop
  | [] => True
  | e :: h => P h e ∧ Log P h

theorem Log.of_append {P : List (Event Y) → Event Y → Prop} {h₁ h₂ : List (Event Y)}
    (h : Log P (h₁ ++ h₂)) : Log P h₂ := by
  induction h₁ with
  | nil => exact h
  | cons e h₁ ih => exact ih h.2

theorem Log.at {P : List (Event Y) → Event Y → Prop} {h₁ h₂ : List (Event Y)} {e : Event Y}
    (h : Log P (h₁ ++ e :: h₂)) : P h₂ e := (Log.of_append h).1

theorem Log.mem {P : List (Event Y) → Event Y → Prop} {h : List (Event Y)} {e : Event Y}
    (hl : Log P h) (he : e ∈ h) : ∃ h₁ h₂, h = h₁ ++ e :: h₂ ∧ P h₂ e := by
  obtain ⟨h₁, h₂, rfl⟩ := List.append_of_mem he
  exact ⟨h₁, h₂, rfl, hl.at⟩

theorem log_imp {P Q : List (Event Y) → Event Y → Prop} (hpq : ∀ h e, P h e → Q h e) :
    ∀ {h : List (Event Y)}, Log P h → Log Q h
  | [], _ => trivial
  | _ :: _, hl => ⟨hpq _ _ hl.1, log_imp hpq hl.2⟩

/-- What happens only where it has not happened before happens once. -/
theorem log_unique {Q : Event Y → Prop} {h : List (Event Y)}
    (hl : Log (fun h e => Q e → ∀ f ∈ h, ¬ Q f) h) {e f : Event Y} (he : e ∈ h) (hf : f ∈ h)
    (hqe : Q e) (hqf : Q f) : e = f := by
  induction h with
  | nil => cases he
  | cons v h ih =>
    rcases List.mem_cons.mp he with hev | he
    · rcases List.mem_cons.mp hf with hfv | hf
      · rw [hev, hfv]
      · exact absurd hqf (hl.1 (hev ▸ hqe) f hf)
    · rcases List.mem_cons.mp hf with hfv | hf
      · exact absurd hqe (hl.1 (hfv ▸ hqf) e he)
      · exact ih hl.2 he hf

/-- What the logic of single programs says of a pool of them. -/
structure Obeys (ok : Y.Req → Trace S → S.Op → Prop)
    (post : Y.Req → Except S.Exn Y.Resp → Trace S → Prop) (p : Pool Y) : Prop where
  fresh : ∀ t, p.thread t = none → own t p.hist = []
  owner : ∀ e ∈ p.hist, ∃ q, p.thread e.tid = some (e.req, q)
  log : Log (fun h e => ok e.req (own e.tid h) e.entry.op) p.hist
  sat : ∀ t r q, p.thread t = some (r, q) → Sat (ok r) (post r) q (own t p.hist)

section Obeys

variable {ok : Y.Req → Trace S → S.Op → Prop}
  {post : Y.Req → Except S.Exn Y.Resp → Trace S → Prop}

theorem obeys_empty (s : Y.State) : Obeys ok post (Pool.empty s) :=
  ⟨fun _ _ => rfl, by simp [Pool.empty], trivial, by simp [Pool.empty]⟩

/-- One operation of a request keeps what is known of all of them. -/
theorem Obeys.after {p : Pool Y} (hp : Obeys ok post p) {t : ℕ} {r : Y.Req} {o : S.Op}
    {k : S.Res o → Prog S Y.Resp} (ht : p.thread t = some (r, .call o k)) (e : Entry S)
    (he : e.op = o) (s : Y.State) {q : Prog S Y.Resp}
    (hq : Sat (ok r) (post r) q (e :: own t p.hist)) : Obeys ok post (p.after t r e s q) := by
  have hok : ok r (own t p.hist) e.op := he ▸ (hp.sat t r _ ht).1
  constructor
  · intro t' ht'
    have hne : t' ≠ t := by
      rintro rfl
      simp [Pool.after] at ht'
    simp only [Pool.after, Function.update_of_ne hne] at ht'
    simpa only [Pool.after, own_cons_ne r e p.hist hne.symm] using hp.fresh t' ht'
  · intro v hv
    rcases List.mem_cons.mp hv with rfl | hv
    · exact ⟨q, by simp [Pool.after]⟩
    · obtain ⟨q', hq'⟩ := hp.owner v hv
      by_cases hvt : v.tid = t
      · rw [hvt, ht] at hq'
        have hr : r = v.req := (Prod.mk.inj (Option.some.inj hq')).1
        exact ⟨q, by simp [Pool.after, hvt, hr]⟩
      · exact ⟨q', by simpa only [Pool.after, Function.update_of_ne hvt] using hq'⟩
  · exact ⟨hok, hp.log⟩
  · intro t' r' q' ht'
    by_cases hvt : t' = t
    · subst hvt
      simp only [Pool.after, Function.update_self, Option.some.injEq, Prod.mk.injEq] at ht'
      obtain ⟨rfl, rfl⟩ := ht'
      simpa only [Pool.after, own_cons_self] using hq
    · simp only [Pool.after, Function.update_of_ne hvt] at ht'
      simpa only [Pool.after, own_cons_ne r e p.hist (Ne.symm hvt)] using hp.sat t' r' q' ht'

theorem Obeys.step (hh : ∀ r, Sat (ok r) (post r) (Y.handler r) []) {p p' : Pool Y} {m : Move Y}
    (hp : Obeys ok post p) (hm : Step p m p') : Obeys ok post p' := by
  cases hm with
  | arrive t r ht =>
    refine ⟨?_, ?_, hp.log, ?_⟩
    · intro t' ht'
      by_cases htt : t' = t
      · subst htt
        exact hp.fresh t' ht
      · exact hp.fresh t' (by simpa only [Pool.setThread, Function.update_of_ne htt] using ht')
    · intro e he
      obtain ⟨q, hq⟩ := hp.owner e he
      have hne : e.tid ≠ t := by
        intro h
        rw [h, ht] at hq
        cases hq
      exact ⟨q, by simpa only [Pool.setThread, Function.update_of_ne hne] using hq⟩
    · intro t' r' q' ht'
      by_cases htt : t' = t
      · subst htt
        simp only [Pool.setThread, Function.update_self, Option.some.injEq, Prod.mk.injEq] at ht'
        obtain ⟨rfl, rfl⟩ := ht'
        rw [Pool.setThread, hp.fresh t' ht]
        exact hh r
      · exact hp.sat t' r' q' (by simpa only [Pool.setThread, Function.update_of_ne htt] using ht')
  | drift d s hs => exact ⟨hp.fresh, hp.owner, hp.log, hp.sat⟩
  | answer t c r o k x s ht hs =>
    exact hp.after ht ⟨o, some x⟩ rfl s ((hp.sat t r _ ht).2.1 x)
  | fail t c r o k e s ht he hs =>
    exact hp.after ht ⟨o, none⟩ rfl s ((hp.sat t r _ ht).2.2 e he)

/-- Whatever the logic says of every handler holds of every request in every run. -/
theorem reachable_obeys {C : Pool Y → Move Y → Prop}
    (hh : ∀ r, Sat (ok r) (post r) (Y.handler r) []) {p : Pool Y} (hp : Reachable C p) :
    Obeys ok post p := by
  induction hp with
  | start s hs => exact obeys_empty s
  | step _ _ hm ih => exact ih.step hh hm

end Obeys

end Interleaving
