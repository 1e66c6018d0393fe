import FreeProxy.Lib.Program

/-!
# Weakest preconditions of programs

`wp rel I p Q s`: from `s`, every state that `p` visits satisfies `I`, and if `p` finishes with `a`
in `s'`, then `Q a s'`. A program may be stopped after any step, so `I` is what a kill leaves
behind, and `Q` is what a caller gets.

The rules follow the constructors: `wp_ret`, `wp_call` and `wp_bind` are equivalences, `wp_all`
takes an invariant of a chain of status codes. `wp_calls` needs no rule of its own for the
constructors: a program whose calls (`Prog.Calls`) all keep `I` keeps `I`, and programs that keep `I`
compose (`Keeps`). `Prog.Makes` are the calls that a program cannot finish without.
`wp_interrupt` says that stopping a program early adds nothing. `wp_traced` lets a specification speak about the calls that were made.
`wp_hoist` carries a `wp` of a program over fewer calls to the embedded program along a `Lens`, with
everything outside the lens unchanged.

Headlines: `wp_bind`, `wp_all`, `wp_calls`, `wp_interrupt`, `wp_hoist`.
-/

namespace FreeProxy.Lib

variable {E : Type} {R : E → Type} {C S : Type} {α β : Type}

/-- Every visited state satisfies `I`, the result satisfies `Q`. -/
def wp (rel : Rel E R S) (I : S → Prop) (p : Prog E R α) (Q : α → S → Prop) (s : S) : Prop :=
  ∀ tr q s', Steps rel p s tr q s' → I s' ∧ ∀ a, q.result = some a → Q a s'

section Rules

variable {rel : Rel E R S} {I : S → Prop}

theorem wp.runs {p : Prog E R α} {Q : α → S → Prop} {s s' : S} {a : α} (h : wp rel I p Q s)
    (hr : Runs rel p s a s') : Q a s' := by
  obtain ⟨tr, hr⟩ := hr
  exact (h _ _ _ hr).2 a rfl

theorem wp.now {p : Prog E R α} {Q : α → S → Prop} {s : S} (h : wp rel I p Q s) : I s :=
  (h _ _ _ (.refl p s)).1

theorem wp.exec {sem : Sem E R C S} {p : Prog E R α} {Q : α → S → Prop} {s : S}
    (h : wp sem.rel I p Q s) (cs : List C) :
    I (exec sem cs p s).2 ∧ ∀ a, (exec sem cs p s).1.result = some a → Q a (exec sem cs p s).2 :=
  h _ _ _ (exec_steps cs p s)

/-- A run is a run. -/
theorem wp_runs (p : Prog E R α) (s : S) :
    wp rel (fun _ => True) p (fun a s' => Runs rel p s a s') s := by
  intro tr q s' hs
  refine ⟨trivial, fun a ha => ?_⟩
  obtain rfl := Prog.result_eq_some.mp ha
  exact ⟨tr, hs⟩

theorem wp_ret {a : α} {Q : α → S → Prop} {s : S} :
    wp rel I (.ret a : Prog E R α) Q s ↔ I s ∧ Q a s := by
  constructor
  · intro h
    exact ⟨h.now, h.runs (Runs.ret a s)⟩
  · rintro ⟨hI, hQ⟩ tr q s' h
    obtain ⟨-, rfl, rfl⟩ := steps_ret h
    exact ⟨hI, fun b hb => Option.some.inj hb ▸ hQ⟩

/-- A program that calls: the state now, and what follows every answer. -/
theorem wp_next {p : Prog E R α} {e : E} {k : R e → Prog E R α} {Q : α → S → Prop} {s : S}
    (hp : p.next = .call e k) :
    wp rel I p Q s ↔ I s ∧ ∀ r s₁, rel e s r s₁ → wp rel I (k r) Q s₁ := by
  constructor
  · intro h
    exact ⟨h.now, fun r s₁ hr tr q s' hs => h _ q s' (.step hp hr hs)⟩
  · rintro ⟨hI, h⟩ tr q s' hs
    cases hs with
    | refl =>
      refine ⟨hI, fun a ha => ?_⟩
      rw [Prog.result_eq_some.mp ha] at hp
      simp [Prog.next] at hp
    | step hp' hr hs =>
      rw [hp, Next.call.injEq] at hp'
      obtain ⟨rfl, hk⟩ := hp'
      cases hk
      exact h _ _ hr _ _ _ hs

theorem wp_call {e : E} {k : R e → Prog E R α} {Q : α → S → Prop} {s : S} :
    wp rel I (.call e k) Q s ↔ I s ∧ ∀ r s₁, rel e s r s₁ → wp rel I (k r) Q s₁ :=
  wp_next rfl

theorem wp_bind {p : Prog E R α} {f : α → Prog E R β} {Q : β → S → Prop} {s : S} :
    wp rel I (p.bind f) Q s ↔ wp rel I p (fun a => wp rel I (f a) Q) s := by
  constructor
  · intro h tr q s' hs
    refine ⟨(h _ _ _ (hs.bind f)).1, fun a ha => ?_⟩
    rw [Prog.result_eq_some.mp ha] at hs
    exact fun tr' t s'' ht => h _ _ _ ((hs.bind f).append ht)
  · intro h tr t s' hs
    rcases steps_bind_inv hs with ⟨q, hq, rfl, hres⟩ | ⟨tr₁, tr₂, a, s₁, -, h₁, h₂⟩
    · refine ⟨(h _ _ _ hq).1, fun b hb => ?_⟩
      cases q with
      | ret a => simp at hres
      | call e k => simp [Prog.bind, Prog.result] at hb
      | loop e body k => simp [Prog.bind, Prog.result] at hb
    · exact (h _ _ _ h₁).2 a rfl _ _ _ h₂

theorem wp.mono {I' : S → Prop} {p : Prog E R α} {Q Q' : α → S → Prop} {s : S}
    (h : wp rel I p Q s) (hI : ∀ s, I s → I' s) (hQ : ∀ a s, Q a s → Q' a s) :
    wp rel I' p Q' s :=
  fun tr q s' hs => ⟨hI _ (h tr q s' hs).1, fun a ha => hQ _ _ ((h tr q s' hs).2 a ha)⟩

/-- Weaken the postcondition only, and use that the result's state satisfies `I`. -/
theorem wp.post {p : Prog E R α} {Q Q' : α → S → Prop} {s : S} (h : wp rel I p Q s)
    (hQ : ∀ a s, I s → Q a s → Q' a s) : wp rel I p Q' s :=
  fun tr q s' hs => ⟨(h tr q s' hs).1, fun a ha => hQ _ _ (h tr q s' hs).1 ((h tr q s' hs).2 a ha)⟩

theorem wp.and {I' : S → Prop} {p : Prog E R α} {Q Q' : α → S → Prop} {s : S}
    (h : wp rel I p Q s) (h' : wp rel I' p Q' s) :
    wp rel (fun s => I s ∧ I' s) p (fun a s => Q a s ∧ Q' a s) s :=
  fun tr q s' hs => ⟨⟨(h tr q s' hs).1, (h' tr q s' hs).1⟩,
    fun a ha => ⟨(h tr q s' hs).2 a ha, (h' tr q s' hs).2 a ha⟩⟩

/-- What holds over a part of the state holds over the state. -/
theorem wp.comap {S' : Type} {rel' : Rel E R S'} (π : S → S')
    (hrel : ∀ e s r s', rel e s r s' → rel' e (π s) r (π s')) {I : S' → Prop} {p : Prog E R α}
    {Q : α → S' → Prop} {s : S} (h : wp rel' I p Q (π s)) :
    wp rel (fun s => I (π s)) p (fun a s => Q a (π s)) s :=
  fun tr q s' hs => h tr q (π s') (hs.map π hrel)

/-- One program after another, the first with what is known of it. -/
theorem wp_seq {I' : S → Prop} {p : Prog E R α} {f : α → Prog E R β} {Q' : α → S → Prop}
    {Q : β → S → Prop} {s : S} (hp : wp rel I' p Q' s) (hI : ∀ s, I' s → I s)
    (hf : ∀ a s', I' s' → Q' a s' → wp rel I (f a) Q s') : wp rel I (p.bind f) Q s :=
  wp_bind.mpr ((hp.post hf).mono hI fun _ _ h => h)

/-- One program after another, whatever the first one does. -/
theorem wp_after {p : Prog E R α} {f : α → Prog E R β} {Q : β → S → Prop} {s : S}
    (hf : ∀ a s', wp rel (fun _ => True) (f a) Q s') : wp rel (fun _ => True) (p.bind f) Q s :=
  wp_seq (wp_runs p s) (fun _ _ => trivial) fun a s' _ _ => hf a s'

theorem wp_ask {e : E} {Q : R e → S → Prop} {s : S} :
    wp rel I (Prog.ask e) Q s ↔ I s ∧ ∀ r s₁, rel e s r s₁ → I s₁ ∧ Q r s₁ := by
  simp only [Prog.ask, wp_call, wp_ret]

/-- One call and what follows it, by its choices. -/
theorem wp_sem {sem : Sem E R C S} {e : E} {f : R e → Prog E R α} {Q : α → S → Prop} {s : S} :
    wp sem.rel I ((Prog.ask e).bind f) Q s ↔
      I s ∧ ∀ c, wp sem.rel I (f (sem e c s).1) Q (sem e c s).2 := by
  have hprog : (Prog.ask e).bind f = .call e f := rfl
  rw [hprog, wp_call]
  refine and_congr Iff.rfl ⟨fun h c => h _ _ ⟨c, rfl⟩, ?_⟩
  rintro h r s₁ ⟨c, hc⟩
  have hnext := h c
  rwa [hc] at hnext

/-- **The chain rule.** `J zs` holds when the programs of `zs` have answered `0`. -/
theorem wp_all {T : Type} {Q : Int → S → Prop} (f : T → Prog E R Int) (J : List T → S → Prop)
    {xs : List T} (hstep : ∀ zs x ys, xs = zs ++ x :: ys → ∀ s, I s → J zs s →
      wp rel I (f x) (fun r s => if r = 0 then J (zs ++ [x]) s else Q (-1) s) s)
    (hdone : ∀ s, J xs s → Q 0 s) {s : S} (hI : I s) (hs : J [] s) :
    wp rel I (Prog.all (xs.map f)) Q s := by
  have key : ∀ ys zs s, xs = zs ++ ys → I s → J zs s → wp rel I (Prog.all (ys.map f)) Q s := by
    intro ys
    induction ys with
    | nil =>
      intro zs s hxs hI hs
      rw [List.append_nil] at hxs
      exact wp_ret.mpr ⟨hI, hdone s (hxs ▸ hs)⟩
    | cons x ys ih =>
      intro zs s hxs hI hs
      rw [List.map_cons, Prog.all, wp_bind]
      refine (hstep zs x ys hxs s hI hs).post fun r s' hI' hs' => ?_
      by_cases hr : r = 0
      · simp only [hr, if_true] at hs' ⊢
        exact ih (zs ++ [x]) s' (by rw [hxs, List.append_assoc, List.singleton_append]) hI' hs'
      · simp only [if_neg hr] at hs' ⊢
        exact wp_ret.mpr ⟨hI', hs'⟩
  exact key xs [] s rfl hI hs

/-- **The loop rule.** `J` holds whenever the loop's call is made; the body keeps it or leaves
the loop with a value of which `B` holds. -/
theorem wp_loop {e : E} {body : R e → Prog E R (Option β)} {k : β → Prog E R α}
    {Q : α → S → Prop} {J : S → Prop} {B : β → S → Prop}
    (hI : ∀ s, J s → I s)
    (hbody : ∀ s, J s → ∀ r s₁, rel e s r s₁ →
      wp rel I (body r) (fun o s => match o with | none => J s | some b => B b s) s₁)
    (hk : ∀ b s, B b s → wp rel I (k b) Q s) {s : S} (hs : J s) :
    wp rel I (.loop e body k) Q s := by
  -- the steps of the loop are steps of an unfinished body followed by the loop again
  have key : ∀ {t : Prog E R α} {tr s q s'}, Steps rel t s tr q s' →
      ∀ p, t = p.bind (Prog.again e body k) →
        wp rel I p (fun o s => match o with | none => J s | some b => B b s) s →
          I s' ∧ ∀ a, q.result = some a → Q a s' := by
    intro t tr s q s' h
    induction h with
    | refl t s =>
      rintro p rfl hp
      refine ⟨hp.now, fun a ha => ?_⟩
      cases hr : p.result with
      | none => cases p <;> simp [Prog.bind, Prog.result] at hr ha
      | some o =>
        obtain rfl := Prog.result_eq_some.mp hr
        cases o with
        | none => simp [Prog.again, Prog.result] at ha
        | some b => exact (hk b s (wp_ret.mp hp).2).runs ⟨[], Prog.result_eq_some.mp ha ▸ .refl _ _⟩
    | @step t s e' k' r s₁ tr q s' hn hr hst ih =>
      rintro p rfl hp
      cases hpn : p.next with
      | call e₁ k₁ =>
        rw [Prog.next_bind hpn, Next.call.injEq] at hn
        obtain ⟨rfl, hk'⟩ := hn
        cases hk'
        exact ih (k₁ r) rfl (((wp_next hpn).mp hp).2 r s₁ hr)
      | done o =>
        obtain rfl := Prog.next_done.mp hpn
        have hpost := (wp_ret.mp hp).2
        cases o with
        | some b => exact hk b s hpost _ _ _ (.step hn hr hst)
        | none =>
          simp only [Prog.ret_bind, Prog.again, Prog.next, Next.call.injEq] at hn
          obtain ⟨rfl, hk'⟩ := hn
          cases hk'
          exact ih (body r) rfl (hbody s hpost r s₁ hr)
  intro tr q s' h
  exact key h (.ret none) rfl (wp_ret.mpr ⟨hI s hs, hs⟩)

end Rules

/-! ## The calls, recorded -/

/-- The steps of `rel`, with the calls so far beside the state. -/
def Traced (rel : Rel E R S) : Rel E R (S × List (Ev E R)) := fun e x r x' =>
  rel e x.1 r x'.1 ∧ x'.2 = x.2 ++ [⟨e, r⟩]

theorem steps_traced {rel : Rel E R S} {p q : Prog E R α} {s s' : S} {tr : List (Ev E R)}
    (h : Steps rel p s tr q s') : ∀ done, Steps (Traced rel) p (s, done) tr q (s', done ++ tr) := by
  induction h with
  | refl p s => exact fun done => by simpa using Steps.refl p (s, done)
  | @step p s e k r s₁ tr q s' hp hr _ ih =>
    intro done
    have hstep := ih (done ++ [⟨e, r⟩])
    rw [List.append_assoc, List.singleton_append] at hstep
    exact .step hp ⟨hr, rfl⟩ hstep

/-- **What holds with the calls recorded** holds of every run and its calls. -/
theorem wp_traced {rel : Rel E R S} {I : S × List (Ev E R) → Prop} {p q : Prog E R α}
    {Q : α → S × List (Ev E R) → Prop} {s s' : S} {tr : List (Ev E R)}
    (h : wp (Traced rel) I p Q (s, [])) (hs : Steps rel p s tr q s') :
    I (s', tr) ∧ ∀ a, q.result = some a → Q a (s', tr) :=
  h _ _ _ (steps_traced hs [])

/-- What holds with the calls recorded holds for some calls when they are not. -/
theorem wp_untraced {rel : Rel E R S} {I : S × List (Ev E R) → Prop} {p : Prog E R α}
    {Q : α → S × List (Ev E R) → Prop} {s : S} (h : wp (Traced rel) I p Q (s, [])) :
    wp rel (fun s => ∃ tr, I (s, tr)) p (fun a s => ∃ tr, Q a (s, tr)) s := by
  intro tr q s' hs
  obtain ⟨hI, hQ⟩ := wp_traced h hs
  exact ⟨⟨tr, hI⟩, fun a ha => ⟨tr, hQ a ha⟩⟩

/-- The steps of `Traced rel` are steps, and what they record are their calls. -/
theorem steps_of_traced {rel : Rel E R S} {p q : Prog E R α} {x x' : S × List (Ev E R)} {tr : List (Ev E R)}
    (h : Steps (Traced rel) p x tr q x') : Steps rel p x.1 tr q x'.1 ∧ x'.2 = x.2 ++ tr := by
  induction h with
  | refl p x => exact ⟨.refl p x.1, (List.append_nil _).symm⟩
  | step hp hr _ ih => exact ⟨.step hp hr.1 ih.1, by rw [ih.2, hr.2, List.append_assoc]; rfl⟩

/-- What holds without the calls recorded, and that the calls recorded are a run of the program. -/
theorem wp.traced_run {rel : Rel E R S} {p : Prog E R α} {Q : α → S → Prop} {x : S × List (Ev E R)}
    (h : wp rel (fun _ => True) p Q x.1) : wp (Traced rel) (fun _ => True) p
      (fun a x' => Q a x'.1 ∧ ∃ tr, Steps rel p x.1 tr (.ret a) x'.1 ∧ x'.2 = x.2 ++ tr) x := by
  intro tr q x' hs
  obtain ⟨hsteps, hrecorded⟩ := steps_of_traced hs
  refine ⟨trivial, fun a ha => ?_⟩
  obtain rfl := Prog.result_eq_some.mp ha
  exact ⟨(h _ _ _ hsteps).2 a rfl, tr, hsteps, hrecorded⟩

/-- One call, by its choices. -/
theorem wp_ask_traced {sem : Sem E R C S} {I : S × List (Ev E R) → Prop} {e : E}
    {Q : R e → S × List (Ev E R) → Prop} {s : S} {tr : List (Ev E R)} :
    wp (Traced sem.rel) I (Prog.ask e) Q (s, tr) ↔ I (s, tr) ∧ ∀ c r s', sem e c s = (r, s') →
      I (s', tr ++ [⟨e, r⟩]) ∧ Q r (s', tr ++ [⟨e, r⟩]) := by
  rw [wp_ask]
  refine and_congr Iff.rfl ⟨fun h c r s' hc => h r (s', _) ⟨⟨c, hc⟩, rfl⟩, ?_⟩
  rintro h r ⟨s', tr'⟩ ⟨⟨c, hc⟩, htr⟩
  obtain rfl : tr' = tr ++ [⟨e, r⟩] := htr
  exact h c r s' hc

/-! ## The calls a program may make -/

/-- Every call of the program, on any answers, satisfies `P`. -/
def Prog.Calls (P : E → Prop) {α : Type} : Prog E R α → Prop
  | .ret _ => True
  | .call e k => P e ∧ ∀ r, (k r).Calls P
  | .loop e body k => P e ∧ (∀ r, (body r).Calls P) ∧ ∀ b, (k b).Calls P

section Calls

variable {rel : Rel E R S} {I : S → Prop} {P : E → Prop}

theorem calls_ret (a : α) : (Prog.ret a : Prog E R α).Calls P := trivial

theorem Prog.Calls.mono {P' : E → Prop} (h : ∀ e, P e → P' e) {p : Prog E R α} (hp : p.Calls P) :
    p.Calls P' := by
  induction p with
  | ret a => trivial
  | call e k ih => exact ⟨h e hp.1, fun r => ih r (hp.2 r)⟩
  | loop e body k ihb ihk => exact ⟨h e hp.1, fun r => ihb r (hp.2.1 r), fun b => ihk b (hp.2.2 b)⟩

theorem calls_ask {e : E} (h : P e) : (Prog.ask e : Prog E R (R e)).Calls P :=
  ⟨h, fun _ => trivial⟩

theorem calls_bind {p : Prog E R α} {f : α → Prog E R β} (hp : p.Calls P)
    (hf : ∀ a, (f a).Calls P) : (p.bind f).Calls P := by
  induction p with
  | ret a => exact hf a
  | call e k ih => exact ⟨hp.1, fun r => ih r (hp.2 r) hf⟩
  | loop e body k _ ih => exact ⟨hp.1, hp.2.1, fun b => ih b (hp.2.2 b) hf⟩

theorem calls_all {ps : List (Prog E R Int)} (h : ∀ p ∈ ps, p.Calls P) : (Prog.all ps).Calls P := by
  induction ps with
  | nil => exact calls_ret 0
  | cons p ps ih =>
    refine calls_bind (h p List.mem_cons_self) fun r => ?_
    split
    · exact ih fun q hq => h q (List.mem_cons_of_mem p hq)
    · exact calls_ret (-1)

theorem calls_hoist {E' : Type} {R' : E' → Type} {i : E → E'} {P' : E' → Prop}
    {p : Prog E (fun e => R' (i e)) α} (h : p.Calls fun e => P' (i e)) :
    (hoist i p : Prog E' R' α).Calls P' := by
  induction p with
  | ret a => exact calls_ret a
  | call e k ih => exact ⟨h.1, fun r => ih r (h.2 r)⟩
  | loop e body k ihb ihk => exact ⟨h.1, fun r => ihb r (h.2.1 r), fun b => ihk b (h.2.2 b)⟩

theorem calls_next {p : Prog E R α} (h : p.Calls P) {e : E} {k : R e → Prog E R α}
    (hp : p.next = .call e k) : P e ∧ ∀ r, (k r).Calls P := by
  cases p with
  | ret a => simp [Prog.next] at hp
  | call e' k' =>
    simp only [Prog.next, Next.call.injEq] at hp
    obtain ⟨rfl, hk⟩ := hp
    cases hk
    exact h
  | loop e' body k' =>
    simp only [Prog.next, Next.call.injEq] at hp
    obtain ⟨rfl, hk⟩ := hp
    cases hk
    refine ⟨h.1, fun r => calls_bind (h.2.1 r) fun o => ?_⟩
    cases o with
    | none => exact h
    | some b => exact h.2.2 b

theorem calls_true (p : Prog E R α) : p.Calls fun _ => True := by
  induction p with
  | ret a => exact calls_ret a
  | call e k ih => exact ⟨trivial, ih⟩
  | loop e body k ihb ihk => exact ⟨trivial, ihb, ihk⟩

/-- **A program whose calls keep `I` keeps `I`.** -/
theorem wp_calls {p : Prog E R α} {s : S} (hp : p.Calls P)
    (hkeep : ∀ e s r s₁, P e → I s → rel e s r s₁ → I s₁) (hs : I s) :
    wp rel I p (fun _ s => I s) s := by
  intro tr q s' h
  have hI : I s' := by
    induction h with
    | refl => exact hs
    | step hn hr _ ih =>
      obtain ⟨he, hk⟩ := calls_next hp hn
      exact ih (hk _) (hkeep _ _ _ _ he hs hr)
  exact ⟨hI, fun _ _ => hI⟩

/-- What holds without the calls recorded, and that the calls recorded are calls of the program. -/
theorem wp.traced_calls {p : Prog E R α} {Q : α → S → Prop} {s : S} (h : wp rel I p Q s)
    (hp : p.Calls P) (tr : List (Ev E R)) :
    wp (Traced rel) (fun x => I x.1 ∧ ∃ tr', x.2 = tr ++ tr' ∧ ∀ ev ∈ tr', P ev.1) p
      (fun a x => Q a x.1 ∧ ∃ tr', x.2 = tr ++ tr' ∧ ∀ ev ∈ tr', P ev.1) (s, tr) := by
  have hplain : wp (Traced rel) (fun x => I x.1) p (fun a x => Q a x.1) (s, tr) :=
    wp.comap Prod.fst (fun _ _ _ _ hr => hr.1) h
  refine hplain.and (wp_calls hp ?_ ?_)
  · rintro e x r x' he ⟨tr', htr, hP⟩ ⟨-, hx'⟩
    refine ⟨tr' ++ [⟨e, r⟩], by rw [hx', htr, List.append_assoc], fun ev hev => ?_⟩
    rcases List.mem_append.mp hev with hev | hev
    · exact hP ev hev
    · rw [List.mem_singleton.mp hev]
      exact he
  · exact ⟨[], by simp, by simp⟩

end Calls

/-! ## The calls a program must make -/

/-- On every way to a result the program makes a call that satisfies `P`. -/
def Prog.Makes (P : E → Prop) {α : Type} : Prog E R α → Prop
  | .ret _ => False
  | .call e k => P e ∨ ∀ r, (k r).Makes P
  | .loop e body k => P e ∨ (∀ r, (body r).Makes P) ∨ ∀ b, (k b).Makes P

section Makes

variable {rel : Rel E R S} {P : E → Prop}

theorem makes_bind {p : Prog E R α} {f : α → Prog E R β} (hp : p.Makes P) : (p.bind f).Makes P := by
  induction p with
  | ret a => exact hp.elim
  | call e k ih => exact hp.imp_right fun hk r => ih r (hk r)
  | loop e body k _ ih => exact hp.imp_right (Or.imp_right fun hk b => ih b (hk b))

theorem makes_after {f : α → Prog E R β} (hf : ∀ a, (f a).Makes P) (p : Prog E R α) :
    (p.bind f).Makes P := by
  induction p with
  | ret a => exact hf a
  | call e k ih => exact .inr fun r => ih r hf
  | loop e body k _ ih => exact .inr (.inr fun b => ih b hf)

theorem makes_next {p : Prog E R α} (h : p.Makes P) {e : E} {k : R e → Prog E R α}
    (hp : p.next = .call e k) : P e ∨ ∀ r, (k r).Makes P := by
  cases p with
  | ret a => simp [Prog.next] at hp
  | call e' k' =>
    simp only [Prog.next, Next.call.injEq] at hp
    obtain ⟨rfl, hk⟩ := hp
    cases hk
    exact h
  | loop e' body k' =>
    simp only [Prog.next, Next.call.injEq] at hp
    obtain ⟨rfl, hk⟩ := hp
    cases hk
    refine h.imp_right fun hrest r => ?_
    rcases hrest with hbody | hk'
    · exact makes_bind (hbody r)
    · -- the body may go round, and the loop is then as before
      refine makes_after (fun o => ?_) (body r)
      cases o with
      | none => exact h
      | some b => exact hk' b

/-- **A program that has finished has made the calls that it must make.** -/
theorem Prog.Makes.steps {p : Prog E R α} (hp : p.Makes P) {s s' : S} {tr : List (Ev E R)} {a : α}
    (h : Steps rel p s tr (.ret a) s') : ∃ ev ∈ tr, P ev.1 := by
  generalize hq : Prog.ret a = q at h
  induction h with
  | refl =>
    subst hq
    exact hp.elim
  | step hn _ _ ih =>
    rcases makes_next hp hn with he | hk
    · exact ⟨_, List.mem_cons_self, he⟩
    · obtain ⟨ev, hev, hP⟩ := ih (hk _) hq
      exact ⟨ev, List.mem_cons_of_mem _ hev, hP⟩

end Makes

/-! ## Programs that keep an invariant -/

/-- `p` keeps `I`, at every moment. -/
def Keeps (rel : Rel E R S) (I : S → Prop) (p : Prog E R α) : Prop :=
  ∀ s, I s → wp rel I p (fun _ => I) s

section Keeps

variable {rel : Rel E R S} {I : S → Prop}

theorem keeps_ret (a : α) : Keeps rel I (.ret a : Prog E R α) := fun _ hs => wp_ret.mpr ⟨hs, hs⟩

theorem keeps_bind {p : Prog E R α} {f : α → Prog E R β} (hp : Keeps rel I p)
    (hf : ∀ a, Keeps rel I (f a)) : Keeps rel I (p.bind f) :=
  fun s hs => wp_seq (hp s hs) (fun _ h => h) fun a s' _ hs' => hf a s' hs'

end Keeps

/-! ## Programs that may be stopped -/

section Interrupt

variable {rel : Rel E R S} {I : S → Prop} {ask : E} {goesOn : R ask → Bool}

/-- **A program that may be stopped** visits nothing else and gives nothing else. -/
theorem wp_interrupt (hask : ∀ s r s', rel ask s r s' → s' = s) {p : Prog E R α}
    {Q : α → S → Prop} {s : S} (hp : wp rel I p Q s) :
    wp rel I (interrupt ask goesOn p) (fun o s => ∀ a, o = some a → Q a s) s := by
  -- a step is the question or the call that follows it
  have key : ∀ {t : Prog E R (Option α)} {tr s q s'}, Steps rel t s tr q s' →
      ∀ p : Prog E R α, wp rel I p Q s →
        (t = interrupt ask goesOn p ∨
          ∃ e k, p.next = .call e k ∧ t = .call e fun r => interrupt ask goesOn (k r)) →
        I s' ∧ ∀ o, q.result = some o → ∀ a, o = some a → Q a s' := by
    intro t tr s q s' h
    induction h with
    | refl t s =>
      intro p hp ht
      refine ⟨hp.now, fun o ho a ha => ?_⟩
      rcases ht with rfl | ⟨e, k, -, rfl⟩
      · cases hpn : p.next with
        | done b =>
          obtain rfl := Prog.next_done.mp hpn
          obtain rfl : some b = o := Option.some.inj ho
          exact Option.some.inj ha ▸ (wp_ret.mp hp).2
        | call e k =>
          have hn := interrupt_next ask goesOn hpn
          rw [Prog.result_eq_some.mp ho] at hn
          simp [Prog.next] at hn
      · simp [Prog.result] at ho
    | @step t s e' k' r s₁ tr q s' hn hr hs ih =>
      intro p hp ht
      rcases ht with rfl | ⟨e, k, hpn, rfl⟩
      · cases hpn : p.next with
        | done b =>
          obtain rfl := Prog.next_done.mp hpn
          simp [interrupt, Prog.next] at hn
        | call e k =>
          rw [interrupt_next ask goesOn hpn, Next.call.injEq] at hn
          obtain ⟨rfl, hk⟩ := hn
          cases hk
          obtain rfl := hask _ _ _ hr
          by_cases hb : goesOn r = true
          · exact ih p hp (.inr ⟨e, k, hpn, if_pos hb⟩)
          · simp only [if_neg hb] at hs
            obtain ⟨-, rfl, rfl⟩ := steps_ret hs
            refine ⟨hp.now, fun o ho a ha => ?_⟩
            rw [← Option.some.inj ho] at ha
            simp at ha
      · simp only [Prog.next, Next.call.injEq] at hn
        obtain ⟨rfl, hk⟩ := hn
        cases hk
        exact ih (k r) (((wp_next hpn).mp hp).2 r s₁ hr) (.inl rfl)
  intro tr q s' h
  exact key h p hp (.inl rfl)

theorem calls_interrupt {P : E → Prop} (hask : P ask) {p : Prog E R α} (h : p.Calls P) :
    (interrupt ask goesOn p).Calls P := by
  induction p with
  | ret a => exact calls_ret _
  | call e k ih =>
    refine ⟨hask, fun b => ?_⟩
    by_cases hb : goesOn b = true
    · simp only [if_pos hb]
      exact ⟨h.1, fun r => ih r (h.2 r)⟩
    · simp only [if_neg hb]
      exact calls_ret _
  | loop e body k ihb ihk =>
    rw [interrupt]
    refine ⟨hask, fun b => ?_, fun o => ?_⟩
    · by_cases hb : goesOn b = true
      · simp only [if_pos hb]
        refine ⟨h.1, fun r => calls_bind (ihb r (h.2.1 r)) fun o => ?_⟩
        rcases o with _ | _ | b <;> exact calls_ret _
      · simp only [if_neg hb]
        exact calls_ret _
    · cases o with
      | none => exact calls_ret _
      | some b => exact ihk b (h.2.2 b)

end Interrupt

/-! ## Embedded programs -/

/-- A part of a larger state. -/
structure Lens (S' S : Type) where
  get : S' → S
  put : S' → S → S'
  get_put : ∀ s t, get (put s t) = t
  put_get : ∀ s, put s (get s) = s
  put_put : ∀ s t u, put (put s t) u = put s u

section Hoist

variable {E' : Type} {R' : E' → Type} {S' : Type} {i : E → E'}
  {rel : Rel E (fun e => R' (i e)) S} {rel' : Rel E' R' S'} (l : Lens S' S)

/-- The larger relation answers the embedded calls as the smaller one does, on its part. -/
def Embeds (i : E → E') (rel : Rel E (fun e => R' (i e)) S) (rel' : Rel E' R' S')
    (l : Lens S' S) : Prop :=
  ∀ e s r s₁, rel' (i e) s r s₁ → rel e (l.get s) r (l.get s₁) ∧ s₁ = l.put s (l.get s₁)

variable {l}

theorem steps_hoist_inv (h : Embeds i rel rel' l) {p : Prog E (fun e => R' (i e)) α} {s s' : S'}
    {tr : List (Ev E' R')} {q' : Prog E' R' α} (hs : Steps rel' (hoist i p) s tr q' s') :
    ∃ tr₀ q, Steps rel p (l.get s) tr₀ q (l.get s') ∧ q' = hoist i q ∧
      s' = l.put s (l.get s') ∧ tr = tr₀.map fun ev => ⟨i ev.1, ev.2⟩ := by
  generalize hp : hoist i p = p' at hs
  induction hs generalizing p with
  | refl p' s => exact ⟨[], p, .refl _ _, hp.symm, (l.put_get s).symm, rfl⟩
  | @step p' s e' k' r s₁ tr q' s' hn hr _ ih =>
    subst hp
    cases hpn : p.next with
    | done a =>
      obtain rfl := Prog.next_done.mp hpn
      simp [hoist, Prog.next] at hn
    | call e k =>
      rw [hoist_next_call hpn, Next.call.injEq] at hn
      obtain ⟨rfl, hk⟩ := hn
      cases hk
      obtain ⟨hrel, hput⟩ := h _ _ _ _ hr
      obtain ⟨tr₀, q, hq, rfl, hput', rfl⟩ := ih rfl
      refine ⟨⟨e, r⟩ :: tr₀, q, .step hpn hrel hq, rfl, ?_, rfl⟩
      rw [hput', hput, l.put_put, l.get_put]

/-- **What a program does to its part, the embedded program does to the whole**, and nothing
outside the part changes. -/
theorem wp_hoist (h : Embeds i rel rel' l) {I : S → Prop} {p : Prog E (fun e => R' (i e)) α}
    {Q : α → S → Prop} {s : S'} (hp : wp rel I p Q (l.get s)) :
    wp rel' (fun s' => I (l.get s') ∧ s' = l.put s (l.get s')) (hoist i p)
      (fun a s' => Q a (l.get s') ∧ s' = l.put s (l.get s')) s := by
  intro tr q' s' hs
  obtain ⟨tr₀, q, hq, rfl, hput, -⟩ := steps_hoist_inv h hs
  refine ⟨⟨(hp _ _ _ hq).1, hput⟩, fun a ha => ⟨(hp _ _ _ hq).2 a ?_, hput⟩⟩
  cases q with
  | ret b => exact ha
  | call e k => simp [hoist, Prog.result] at ha
  | loop e body k => simp [hoist, Prog.result] at ha

/-- An embedded program run by choices is the program run on its part, each choice as it is for the part. -/
theorem exec_hoist {C' : Type} {sem : Sem E (fun e => R' (i e)) C S} {sem' : Sem E' R' C' S'} (f : C' → C)
    (h : ∀ e c s, sem' (i e) c s = ((sem e (f c) (l.get s)).1, l.put s (sem e (f c) (l.get s)).2)) :
    ∀ (cs : List C') (p : Prog E (fun e => R' (i e)) α) (s : S'), exec sem' cs (hoist i p) s =
      (hoist i (exec sem (cs.map f) p (l.get s)).1, l.put s (exec sem (cs.map f) p (l.get s)).2)
  | [], p, s => by
    change (hoist i p, s) = (hoist i p, l.put s (l.get s))
    rw [l.put_get]
  | c :: cs, p, s => by
    cases hp : p.next with
    | done a =>
      obtain rfl := Prog.next_done.mp hp
      simp only [exec_ret, l.put_get]
      exact exec_ret (c :: cs) a s
    | call e k =>
      rw [List.map_cons, exec_cons hp, exec_cons (hoist_next_call hp), h, exec_hoist f h cs, l.get_put, l.put_put]

/-- A run of a program on its part is a run of the embedded program. -/
theorem runs_hoist (h : ∀ e s r t, rel e (l.get s) r t → rel' (i e) s r (l.put s t))
    {p : Prog E (fun e => R' (i e)) α} {s : S'} {a : α} {t : S} (hp : Runs rel p (l.get s) a t) :
    Runs rel' (hoist i p) s a (l.put s t) := by
  obtain ⟨tr, hs⟩ := hp
  generalize hg : l.get s = g at hs
  generalize hq : (Prog.ret a : Prog E (fun e => R' (i e)) α) = q at hs
  induction hs generalizing s with
  | refl p g =>
    subst hq hg
    rw [l.put_get]
    exact Runs.ret a s
  | step hp hr _ ih =>
    subst hg
    obtain ⟨tr', hs'⟩ := ih (s := l.put s _) (l.get_put _ _) hq
    rw [l.put_put] at hs'
    exact ⟨_, .step (hoist_next_call hp) (h _ _ _ _ hr) hs'⟩

end Hoist

end FreeProxy.Lib
