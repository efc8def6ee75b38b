import McpControlPlane.Interleaving

/-! # Requests one after the other

The meaning of a program that runs alone: every operation is answered, and nothing happens
between two of them. `answers` relates the state before an operation to its answers and the
states after them. -/
namespace Sequential

open Interleaving

variable {S : Signature} {σ α β : Type}

/-- From the state `s` the program can end with the result `r` in the state `s'`. -/
inductive Ends (answers : σ → (o : S.Op) → S.Res o → σ → Prop) :
    Prog S α → σ → Except S.Exn α → σ → Prop
  | ret (a : α) (s : σ) : Ends answers (.ret a) s (.ok a) s
  | raise (e : S.Exn) (s : σ) : Ends answers (.raise e) s (.error e) s
  | call {o : S.Op} {k : S.Res o → Prog S α} {x : S.Res o} {s s' s'' : σ} {r : Except S.Exn α}
      (hx : answers s o x s') (hk : Ends answers (k x) s' r s'') : Ends answers (.call o k) s r s''

variable {answers : σ → (o : S.Op) → S.Res o → σ → Prop} {s s' : σ}

/-- More answers lead to more ends. -/
theorem Ends.mono {answers' : σ → (o : S.Op) → S.Res o → σ → Prop} {q : Prog S α}
    {r : Except S.Exn α} (hle : ∀ s o x s', answers s o x s' → answers' s o x s')
    (h : Ends answers q s r s') : Ends answers' q s r s' := by
  induction h with
  | ret a s => exact .ret a s
  | raise e s => exact .raise e s
  | call hx hk ih => exact .call (hle _ _ _ _ hx) ih

theorem ends_ret {a : α} {r : Except S.Exn α} :
    Ends answers (.ret a) s r s' ↔ r = .ok a ∧ s' = s := by
  constructor
  · intro h
    cases h
    exact ⟨rfl, rfl⟩
  · rintro ⟨rfl, rfl⟩
    exact .ret a s'

theorem ends_raise {e : S.Exn} {r : Except S.Exn α} :
    Ends answers (.raise e) s r s' ↔ r = .error e ∧ s' = s := by
  constructor
  · intro h
    cases h
    exact ⟨rfl, rfl⟩
  · rintro ⟨rfl, rfl⟩
    exact .raise e s'

theorem ends_call {o : S.Op} {k : S.Res o → Prog S α} {r : Except S.Exn α} :
    Ends answers (.call o k) s r s' ↔ ∃ x t, answers s o x t ∧ Ends answers (k x) t r s' := by
  constructor
  · intro h
    cases h with
    | call hx hk => exact ⟨_, _, hx, hk⟩
  · rintro ⟨x, t, hx, hk⟩
    exact .call hx hk

theorem ends_perform {o : S.Op} {f : S.Res o → Prog S α} {r : Except S.Exn α} :
    Ends answers (perform o >>= f) s r s' ↔ ∃ x t, answers s o x t ∧ Ends answers (f x) t r s' :=
  ends_call

/-- A first part ends, and the rest goes on with its result or the exception is passed on. -/
theorem ends_bind {p : Prog S α} {f : α → Prog S β} {r : Except S.Exn β} :
    Ends answers (p >>= f) s r s' ↔
      (∃ a t, Ends answers p s (.ok a) t ∧ Ends answers (f a) t r s') ∨
        ∃ e, Ends answers p s (.error e) s' ∧ r = .error e := by
  constructor
  · intro h
    induction p generalizing s with
    | ret a => exact Or.inl ⟨a, s, .ret a s, h⟩
    | raise e =>
      obtain ⟨rfl, rfl⟩ := ends_raise.mp h
      exact Or.inr ⟨e, .raise e s', rfl⟩
    | call o k ih =>
      obtain ⟨x, t, hx, hk⟩ := ends_call.mp h
      rcases ih x hk with ⟨a, t', hp, hf⟩ | ⟨e, hp, hr⟩
      · exact Or.inl ⟨a, t', .call hx hp, hf⟩
      · exact Or.inr ⟨e, .call hx hp, hr⟩
  · rintro (⟨a, t, hp, hf⟩ | ⟨e, hp, rfl⟩)
    · revert hf
      generalize hq : (Except.ok a : Except S.Exn α) = q at hp
      induction hp with
      | ret a' s =>
        obtain rfl := Except.ok.inj hq
        exact id
      | raise e s => cases hq
      | call hx hk ih => exact fun hf => .call hx (ih hq hf)
    · generalize hq : (Except.error e : Except S.Exn α) = q at hp
      induction hp with
      | ret a' s => cases hq
      | raise e' s =>
        obtain rfl := Except.error.inj hq
        exact .raise e s
      | call hx hk ih => exact .call hx (ih hq)

/-- How a program can end suits what it satisfies. -/
theorem ends_of_sat {ok : Trace S → S.Op → Prop} {post : Except S.Exn α → Trace S → Prop}
    {p : Prog S α} {tr : Trace S} {r : Except S.Exn α} (hsat : Sat ok post p tr)
    (h : Ends answers p s r s') : ∃ tr', post r tr' := by
  induction h generalizing tr with
  | ret a s => exact ⟨tr, hsat⟩
  | raise e s => exact ⟨tr, hsat⟩
  | call hx hk ih => exact ih (hsat.2.1 _)

end Sequential
