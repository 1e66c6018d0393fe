import Mathlib.Data.List.Basic

/-!
# Programs that call their environment

A program (`Prog E R α`) is a tree of calls: a call `e : E` is answered by a value of `R e`, and
the program goes on with the answer. `loop` repeats a body that begins with a call, so a program
never turns without calling. The environment is a relation (`Rel E R S`) that says which answers
and which next states a call may have; a semantics (`Sem E R C S`) is a function that resolves each
call by a choice `c : C`, and every semantics is a relation (`Sem.rel`).

* `Steps rel p s tr q s'`: from `p` in `s` the calls and answers `tr` lead to `q` in `s'`. A program
  that is killed is one that has made some of its steps, so every `q` counts, not only `ret`.
* `Runs rel p s a s'`: `p` may finish with `a`.
* `exec sem cs p s` runs a program by a list of choices; `exec_steps` puts the run into `Steps`, and
  `exec_checked` into a narrower relation when every call passes a check.
* `hoist` embeds a program over a smaller set of calls.
* `interrupt` is a program that may be stopped before each of its calls while its caller goes on.

Headlines: `steps_bind_inv`, `exec_steps`, `exec_append`.
-/

namespace FreeProxy.Lib

/-- A program that makes the calls `E`; a call `e` is answered by a value of `R e`. -/
inductive Prog (E : Type) (R : E → Type) : Type → Type 1 where
  | ret {α : Type} (a : α) : Prog E R α
  | call {α : Type} (e : E) (k : R e → Prog E R α) : Prog E R α
  /-- Call `e` and run the body on the answer, again and again until the body gives a value. -/
  | loop {α β : Type} (e : E) (body : R e → Prog E R (Option β)) (k : β → Prog E R α) : Prog E R α

/-- What a program does next: it is done, or it makes a call. -/
inductive Next (E : Type) (R : E → Type) (α : Type) where
  | done (a : α) : Next E R α
  | call (e : E) (k : R e → Prog E R α) : Next E R α

/-- A call and its answer. -/
abbrev Ev (E : Type) (R : E → Type) := Σ e : E, R e

/-- The answers and the next states a call may have. -/
abbrev Rel (E : Type) (R : E → Type) (S : Type) := (e : E) → S → R e → S → Prop

/-- A semantics: a choice resolves a call. -/
abbrev Sem (E : Type) (R : E → Type) (C S : Type) := (e : E) → C → S → R e × S

variable {E : Type} {R : E → Type} {C S : Type} {α β : Type}

namespace Prog

/-- `p`, and then what `f` makes of its result. -/
def bind {α β : Type} : Prog E R α → (α → Prog E R β) → Prog E R β
  | .ret a, f => f a
  | .call e k, f => .call e fun r => (k r).bind f
  | .loop e body k, f => .loop e body fun b => (k b).bind f

instance : Monad (Prog E R) where
  pure := .ret
  bind := .bind

/-- One call, its answer returned. -/
def ask (e : E) : Prog E R (R e) := .call e .ret

/-- How a loop goes on after its body: again, or out with a value. -/
def again (e : E) (body : R e → Prog E R (Option β)) (k : β → Prog E R α) :
    Option β → Prog E R α
  | none => .loop e body k
  | some b => k b

/-- What a program does first; a loop begins with its call. -/
def next : Prog E R α → Next E R α
  | .ret a => .done a
  | .call e k => .call e k
  | .loop e body k => .call e fun r => (body r).bind (again e body k)

/-- The value of a program that is done. -/
def result : Prog E R α → Option α
  | .ret a => some a
  | _ => none

@[simp] theorem pure_eq (a : α) : (pure a : Prog E R α) = .ret a := rfl

@[simp] theorem bind_eq (p : Prog E R α) (f : α → Prog E R β) : p >>= f = p.bind f := rfl

@[simp] theorem ret_bind (a : α) (f : α → Prog E R β) : (ret a : Prog E R α).bind f = f a := rfl

@[simp] theorem call_bind (e : E) (k : R e → Prog E R α) (f : α → Prog E R β) :
    (call e k).bind f = call e fun r => (k r).bind f := rfl

@[simp] theorem result_ret (a : α) : (ret a : Prog E R α).result = some a := rfl

theorem bind_assoc {γ : Type} (p : Prog E R α) (f : α → Prog E R β) (g : β → Prog E R γ) :
    (p.bind f).bind g = p.bind fun a => (f a).bind g := by
  induction p with
  | ret a => rfl
  | call e k ih => exact congrArg (call e) (funext fun r => ih r f)
  | loop e body k _ ih => exact congrArg (loop e body) (funext fun b => ih b f)

theorem result_eq_some {p : Prog E R α} {a : α} : p.result = some a ↔ p = ret a := by
  cases p <;> simp [result]

theorem next_done {p : Prog E R α} {a : α} : p.next = .done a ↔ p = ret a := by
  cases p <;> simp [next]

/-- A program that calls still calls, the same, when more is to come after it. -/
theorem next_bind {p : Prog E R α} {e : E} {k : R e → Prog E R α} (h : p.next = .call e k)
    (f : α → Prog E R β) : (p.bind f).next = .call e fun r => (k r).bind f := by
  cases p with
  | ret a => simp [next] at h
  | call e' k' =>
    simp only [next, Next.call.injEq] at h
    obtain ⟨rfl, hk⟩ := h
    cases hk
    rfl
  | loop e' body k' =>
    simp only [next, Next.call.injEq] at h
    obtain ⟨rfl, hk⟩ := h
    cases hk
    simp only [bind, next, Next.call.injEq, heq_eq_eq, true_and]
    funext r
    rw [bind_assoc]
    congr 1
    funext o
    cases o <;> rfl

/-- C's `a != 0 || b != 0 || ...` over status codes: stop at the first that is not `0`. -/
def all : List (Prog E R Int) → Prog E R Int
  | [] => .ret 0
  | p :: ps => p.bind fun r => if r = 0 then all ps else .ret (-1)

end Prog

/-- The relation of a semantics: some choice gives the answer and the next state. -/
def Sem.rel (sem : Sem E R C S) : Rel E R S := fun e s r s' => ∃ c, sem e c s = (r, s')

/-- `p` in `s` makes the calls `tr` and is then `q` in `s'`. -/
inductive Steps (rel : Rel E R S) : Prog E R α → S → List (Ev E R) → Prog E R α → S → Prop where
  | refl (p : Prog E R α) (s : S) : Steps rel p s [] p s
  | step {p : Prog E R α} {s : S} {e : E} {k : R e → Prog E R α} {r : R e} {s₁ : S}
      {tr : List (Ev E R)} {q : Prog E R α} {s' : S} (hp : p.next = .call e k)
      (hr : rel e s r s₁) (hs : Steps rel (k r) s₁ tr q s') : Steps rel p s (⟨e, r⟩ :: tr) q s'

/-- `p` from `s` may finish with `a` in `s'`. -/
def Runs (rel : Rel E R S) (p : Prog E R α) (s : S) (a : α) (s' : S) : Prop :=
  ∃ tr, Steps rel p s tr (.ret a) s'

/-! ## Steps -/

section Steps

variable {rel : Rel E R S}

theorem Steps.append {p q t : Prog E R α} {s s₁ s' : S} {tr tr' : List (Ev E R)}
    (h : Steps rel p s tr q s₁) (h' : Steps rel q s₁ tr' t s') : Steps rel p s (tr ++ tr') t s' := by
  induction h with
  | refl => exact h'
  | step hp hr _ ih => exact .step hp hr (ih h')

/-- A program that is done makes no step. -/
theorem steps_ret {a : α} {s s' : S} {tr : List (Ev E R)} {q : Prog E R α}
    (h : Steps rel (.ret a) s tr q s') : tr = [] ∧ q = .ret a ∧ s' = s := by
  cases h with
  | refl => exact ⟨rfl, rfl, rfl⟩
  | step hp => simp [Prog.next] at hp

/-- A program that calls and is done in the end has made its call first. -/
theorem steps_call {e : E} {k : R e → Prog E R α} {a : α} {s s' : S} {tr : List (Ev E R)}
    (h : Steps rel (.call e k) s tr (.ret a) s') :
    ∃ r s₁ tr₁, tr = ⟨e, r⟩ :: tr₁ ∧ rel e s r s₁ ∧ Steps rel (k r) s₁ tr₁ (.ret a) s' := by
  cases h with
  | step hp hr hs =>
    simp only [Prog.next, Next.call.injEq] at hp
    obtain ⟨rfl, hk⟩ := hp
    cases hk
    exact ⟨_, _, _, rfl, hr, hs⟩

/-- Steps over a state are steps over a part of it. -/
theorem Steps.map {S' : Type} {rel' : Rel E R S'} (π : S → S')
    (hrel : ∀ e s r s', rel e s r s' → rel' e (π s) r (π s'))
    {p q : Prog E R α} {s s' : S} {tr : List (Ev E R)} (h : Steps rel p s tr q s') :
    Steps rel' p (π s) tr q (π s') := by
  induction h with
  | refl => exact .refl _ _
  | step hp hr _ ih => exact .step hp (hrel _ _ _ _ hr) ih

theorem Steps.bind {p q : Prog E R α} {s s' : S} {tr : List (Ev E R)} (h : Steps rel p s tr q s')
    (f : α → Prog E R β) : Steps rel (p.bind f) s tr (q.bind f) s' := by
  induction h with
  | refl => exact .refl _ _
  | step hp hr _ ih => exact .step (Prog.next_bind hp f) hr ih

/-- The steps of `p.bind f` are steps of `p`, or a whole run of `p` and then steps of `f`. -/
theorem steps_bind_inv {p : Prog E R α} {f : α → Prog E R β} {s s' : S} {tr : List (Ev E R)}
    {t : Prog E R β} (h : Steps rel (p.bind f) s tr t s') :
    (∃ q, Steps rel p s tr q s' ∧ t = q.bind f ∧ q.result = none) ∨
      ∃ tr₁ tr₂ a s₁, tr = tr₁ ++ tr₂ ∧ Steps rel p s tr₁ (.ret a) s₁ ∧
        Steps rel (f a) s₁ tr₂ t s' := by
  generalize hp : p.bind f = pf at h
  induction h generalizing p with
  | refl pf s =>
    subst hp
    cases hres : p.result with
    | none => exact .inl ⟨p, .refl _ _, rfl, hres⟩
    | some a =>
      obtain rfl := Prog.result_eq_some.mp hres
      exact .inr ⟨[], [], a, s, rfl, .refl _ _, .refl _ _⟩
  | @step pf s e k r s₁ tr t s' hn hr hs ih =>
    subst hp
    cases hpn : p.next with
    | done a =>
      obtain rfl := Prog.next_done.mp hpn
      exact .inr ⟨[], _, a, s, rfl, .refl _ _, .step hn hr hs⟩
    | call e' k' =>
      rw [Prog.next_bind hpn f, Next.call.injEq] at hn
      obtain ⟨rfl, hk⟩ := hn
      cases hk
      rcases ih rfl with ⟨q, hq, ht, hres⟩ | ⟨tr₁, tr₂, a, s₂, htr, h₁, h₂⟩
      · exact .inl ⟨q, .step hpn hr hq, ht, hres⟩
      · exact .inr ⟨⟨e', r⟩ :: tr₁, tr₂, a, s₂, by rw [htr]; rfl, .step hpn hr h₁, h₂⟩

theorem Runs.ret (a : α) (s : S) : Runs rel (.ret a) s a s := ⟨[], .refl _ _⟩

theorem Runs.call {e : E} {k : R e → Prog E R α} {s s₁ s' : S} {r : R e} {a : α}
    (hr : rel e s r s₁) (h : Runs rel (k r) s₁ a s') : Runs rel (.call e k) s a s' := by
  obtain ⟨tr, h⟩ := h
  exact ⟨_, .step rfl hr h⟩

theorem Runs.bind {p : Prog E R α} {f : α → Prog E R β} {s s₁ s' : S} {a : α} {b : β}
    (h : Runs rel p s a s₁) (h' : Runs rel (f a) s₁ b s') : Runs rel (p.bind f) s b s' := by
  obtain ⟨tr, h⟩ := h
  obtain ⟨tr', h'⟩ := h'
  exact ⟨_, (h.bind f).append h'⟩

end Steps

/-! ## Running a program by choices -/

section Exec

variable (sem : Sem E R C S)

/-- Run `p` from `s`; each call takes one choice, and the run stops when they are used up. -/
def exec : List C → Prog E R α → S → Prog E R α × S
  | [], p, s => (p, s)
  | c :: cs, p, s =>
    match p.next with
    | .done _ => (p, s)
    | .call e k => exec cs (k (sem e c s).1) (sem e c s).2

/-- The calls of that run, with their answers. -/
def trace : List C → Prog E R α → S → List (Ev E R)
  | [], _, _ => []
  | c :: cs, p, s =>
    match p.next with
    | .done _ => []
    | .call e k => ⟨e, (sem e c s).1⟩ :: trace cs (k (sem e c s).1) (sem e c s).2

variable {sem}

theorem exec_cons {p : Prog E R α} {e : E} {k : R e → Prog E R α} (h : p.next = .call e k)
    (c : C) (cs : List C) (s : S) :
    exec sem (c :: cs) p s = exec sem cs (k (sem e c s).1) (sem e c s).2 := by
  simp only [exec, h]

@[simp] theorem exec_ret (cs : List C) (a : α) (s : S) :
    exec sem cs (.ret a : Prog E R α) s = (.ret a, s) := by
  cases cs <;> rfl

/-- A run that has a result is finished, wherever it ends. -/
theorem exec_of_result {cs : List C} {p : Prog E R α} {s : S} {a : α}
    (h : (exec sem cs p s).1.result = some a) : ∃ s', exec sem cs p s = (.ret a, s') := by
  generalize exec sem cs p s = q at h
  obtain ⟨q, s'⟩ := q
  exact ⟨s', Prod.ext (Prog.result_eq_some.mp h) rfl⟩

/-- **A run by choices is a run**: its calls and answers are steps of the semantics' relation. -/
theorem exec_steps : ∀ (cs : List C) (p : Prog E R α) (s : S),
    Steps sem.rel p s (trace sem cs p s) (exec sem cs p s).1 (exec sem cs p s).2
  | [], p, s => .refl p s
  | c :: cs, p, s => by
    cases hp : p.next with
    | done a =>
      simp only [exec, trace, hp]
      exact .refl p s
    | call e k =>
      simp only [exec, trace, hp]
      exact .step hp ⟨c, rfl⟩ (exec_steps cs _ _)

theorem exec_runs {cs : List C} {p : Prog E R α} {s s' : S} {a : α}
    (h : exec sem cs p s = (.ret a, s')) : Runs sem.rel p s a s' := by
  have hsteps : Steps sem.rel p s _ _ _ := exec_steps cs p s
  rw [h] at hsteps
  exact ⟨_, hsteps⟩

/-- Every call of that run passes a check of the state in which it is made. -/
def checked (sem : Sem E R C S) (ok : E → S → Bool) : List C → Prog E R α → S → Bool
  | [], _, _ => true
  | c :: cs, p, s =>
    match p.next with
    | .done _ => true
    | .call e k => ok e s && checked sem ok cs (k (sem e c s).1) (sem e c s).2

/-- A run by choices whose calls pass the check is a run in a relation that holds for such calls. -/
theorem exec_checked {rel : Rel E R S} {ok : E → S → Bool}
    (hrel : ∀ e c s, ok e s = true → rel e s (sem e c s).1 (sem e c s).2) :
    ∀ (cs : List C) (p : Prog E R α) (s : S), checked sem ok cs p s = true →
      Steps rel p s (trace sem cs p s) (exec sem cs p s).1 (exec sem cs p s).2
  | [], p, s, _ => .refl p s
  | c :: cs, p, s, h => by
    cases hp : p.next with
    | done a =>
      simp only [exec, trace, hp]
      exact .refl p s
    | call e k =>
      simp only [checked, hp, Bool.and_eq_true] at h
      simp only [exec, trace, hp]
      exact .step hp (hrel e c s h.1) (exec_checked hrel cs _ _ h.2)

theorem exec_append : ∀ (cs ds : List C) (p : Prog E R α) (s : S),
    exec sem (cs ++ ds) p s = exec sem ds (exec sem cs p s).1 (exec sem cs p s).2
  | [], _, _, _ => rfl
  | c :: cs, ds, p, s => by
    cases hp : p.next with
    | done a =>
      obtain rfl := Prog.next_done.mp hp
      simp
    | call e k =>
      rw [List.cons_append, exec_cons hp, exec_cons hp, exec_append cs ds]

/-- A finished run of a program with more to come is a finished run of it, and one of what comes then. -/
theorem exec_bind_inv {f : α → Prog E R β} {b : β} {s' : S} : ∀ (cs : List C) {p : Prog E R α} {s : S},
    exec sem cs (p.bind f) s = (.ret b, s') → ∃ n a s₁, exec sem (cs.take n) p s = (.ret a, s₁) ∧
      exec sem (cs.take n) (p.bind f) s = (f a, s₁) ∧ exec sem (cs.drop n) (f a) s₁ = (.ret b, s')
  | [], p, s, h => by
    cases p with
    | ret a => exact ⟨0, a, s, rfl, rfl, h⟩
    | call e k => simp [exec, Prog.bind] at h
    | loop e body k => simp [exec, Prog.bind] at h
  | c :: cs, p, s, h => by
    cases hp : p.next with
    | done a =>
      obtain rfl := Prog.next_done.mp hp
      exact ⟨0, a, s, rfl, rfl, h⟩
    | call e k =>
      rw [exec_cons (Prog.next_bind hp f)] at h
      obtain ⟨n, a, s₁, hfirst, hboth, hrest⟩ := exec_bind_inv cs h
      refine ⟨n + 1, a, s₁, ?_, ?_, hrest⟩
      · rw [List.take_succ_cons, exec_cons hp, hfirst]
      · rw [List.take_succ_cons, exec_cons (Prog.next_bind hp f), hboth]

end Exec

/-! ## Programs over fewer calls -/

section Hoist

variable {E' : Type} {R' : E' → Type}

/-- `p`, its calls made through `i`. -/
def hoist (i : E → E') {α : Type} : Prog E (fun e => R' (i e)) α → Prog E' R' α
  | .ret a => .ret a
  | .call e k => .call (i e) fun r => hoist i (k r)
  | .loop e body k => .loop (i e) (fun r => hoist i (body r)) fun b => hoist i (k b)

theorem hoist_bind (i : E → E') (p : Prog E (fun e => R' (i e)) α)
    (f : α → Prog E (fun e => R' (i e)) β) :
    hoist i (p.bind f) = (hoist i p).bind fun a => hoist i (f a) := by
  induction p with
  | ret a => rfl
  | call e k ih => exact congrArg (Prog.call (i e)) (funext fun r => ih r f)
  | loop e body k _ ih => exact congrArg (Prog.loop (i e) _) (funext fun b => ih b f)

theorem hoist_next_call {i : E → E'} {p : Prog E (fun e => R' (i e)) α} {e : E}
    {k : R' (i e) → Prog E (fun e => R' (i e)) α} (h : p.next = .call e k) :
    (hoist i p).next = .call (i e) fun r => hoist i (k r) := by
  cases p with
  | ret a => simp [Prog.next] at h
  | call e' k' =>
    simp only [Prog.next, Next.call.injEq] at h
    obtain ⟨rfl, hk⟩ := h
    cases hk
    rfl
  | loop e' body k' =>
    simp only [Prog.next, Next.call.injEq] at h
    obtain ⟨rfl, hk⟩ := h
    cases hk
    simp only [hoist, Prog.next, Next.call.injEq, heq_eq_eq, true_and]
    funext r
    rw [hoist_bind]
    congr 1
    funext o
    cases o <;> rfl

end Hoist

/-! ## Programs that may be stopped -/

section Interrupt

variable (ask : E) (goesOn : R ask → Bool)

/-- `p`, stopped before a call when `ask` is not answered with a go-ahead. -/
def interrupt {α : Type} : Prog E R α → Prog E R (Option α)
  | .ret a => .ret (some a)
  | .call e k => .call ask fun b => if goesOn b then .call e fun r => interrupt (k r) else .ret none
  | .loop (β := β) e body k =>
    -- the body gives `none` to go round, `some none` when it was stopped
    .loop ask (fun b => if goesOn b then .call e fun r => (interrupt (body r)).bind fun
          | none => .ret (some none)
          | some none => .ret none
          | some (some b) => .ret (some (some b))
        else .ret (some none))
      fun (o : Option β) => match o with
        | none => .ret none
        | some b => interrupt (k b)

/-- What follows a program that may have been stopped. -/
def resume (f : α → Prog E R (Option β)) : Option α → Prog E R (Option β)
  | none => .ret none
  | some a => f a

theorem interrupt_bind (p : Prog E R α) (f : α → Prog E R β) :
    interrupt ask goesOn (p.bind f) =
      (interrupt ask goesOn p).bind (resume fun a => interrupt ask goesOn (f a)) := by
  induction p with
  | ret a => rfl
  | call e k ih =>
    simp only [Prog.bind, interrupt, Prog.call.injEq, heq_eq_eq, true_and]
    funext b
    split
    · simp only [Prog.bind, ih]
    · rfl
  | loop e body k _ ih =>
    simp only [Prog.bind, interrupt, Prog.loop.injEq, heq_eq_eq, true_and]
    funext o
    cases o with
    | none => rfl
    | some b => exact ih b f

/-- An interruptible program asks, makes the next call of the program, and goes on like that. -/
theorem interrupt_next {p : Prog E R α} {e : E} {k : R e → Prog E R α} (h : p.next = .call e k) :
    (interrupt ask goesOn p).next = .call ask fun b =>
      if goesOn b then .call e fun r => interrupt ask goesOn (k r) else .ret none := by
  cases p with
  | ret a => simp [Prog.next] at h
  | call e' k' =>
    simp only [Prog.next, Next.call.injEq] at h
    obtain ⟨rfl, hk⟩ := h
    cases hk
    rfl
  | loop e' body k' =>
    simp only [Prog.next, Next.call.injEq] at h
    obtain ⟨rfl, hk⟩ := h
    cases hk
    simp only [interrupt, Prog.next, Next.call.injEq, heq_eq_eq, true_and]
    funext b
    split
    · simp only [Prog.bind, interrupt_bind, Prog.call.injEq, heq_eq_eq, true_and]
      funext r
      rw [Prog.bind_assoc]
      congr 1
      funext o
      rcases o with _ | _ | b
      · rfl
      · simp only [Prog.bind, Prog.again, resume, interrupt]
      · rfl
    · rfl

end Interrupt

end FreeProxy.Lib
