import FreeProxy.Lib.Wp

/-!
# Two programs over one state

`Inter rel p q s m p' q' s'`: `p` and `q` make their calls on one state in some order; `m` lists the
calls, each with the side that made it.

* What one side does is a run in which any answer is possible: `Inter.left_post`,
  `Inter.right_post` carry a `wp` over `Recorded`, where the state is the list of calls so far, to
  the calls that side has made (`side`).
* What an observer sees of the state is a fold over the merged calls (`Inter.observe`).
* **`fold_of_owner`**: when everything that is written to a shared cell is written by the side that
  reset it last, the cell ends as that side alone would have left it.
* `timely`: no call of the left side comes too late for what the right side has done;
  `Inter.timely_keeps` carries an invariant through such a run.
* `interleave` runs two programs by a schedule.
-/

namespace FreeProxy.Lib

variable {E : Type} {R : E → Type} {C S O : Type} {α β : Type}

/-- The two programs. -/
inductive Side where
  | left
  | right
  deriving DecidableEq

/-- A call and the side that makes it. -/
abbrev Turn (E : Type) (R : E → Type) := Side × Ev E R

/-- The calls of one side. -/
def side (x : Side) (m : List (Turn E R)) : List (Ev E R) :=
  m.filterMap fun y => if y.1 = x then some y.2 else none

/-- Two programs over one state. -/
inductive Inter (rel : Rel E R S) :
    Prog E R α → Prog E R β → S → List (Turn E R) → Prog E R α → Prog E R β → S → Prop where
  | refl (p : Prog E R α) (q : Prog E R β) (s : S) : Inter rel p q s [] p q s
  | left {p p' : Prog E R α} {q q' : Prog E R β} {s s₁ s' : S} {e : E} {k : R e → Prog E R α}
      {r : R e} {m : List (Turn E R)} (hp : p.next = .call e k) (hr : rel e s r s₁)
      (h : Inter rel (k r) q s₁ m p' q' s') : Inter rel p q s ((.left, ⟨e, r⟩) :: m) p' q' s'
  | right {p p' : Prog E R α} {q q' : Prog E R β} {s s₁ s' : S} {e : E} {k : R e → Prog E R β}
      {r : R e} {m : List (Turn E R)} (hq : q.next = .call e k) (hr : rel e s r s₁)
      (h : Inter rel p (k r) s₁ m p' q' s') : Inter rel p q s ((.right, ⟨e, r⟩) :: m) p' q' s'

section Side

@[simp] theorem side_nil (x : Side) : side x ([] : List (Turn E R)) = [] := rfl

@[simp] theorem side_cons_self (x : Side) (ev : Ev E R) (m : List (Turn E R)) :
    side x ((x, ev) :: m) = ev :: side x m := by simp [side]

theorem side_cons_ne {x y : Side} (h : y ≠ x) (ev : Ev E R) (m : List (Turn E R)) :
    side x ((y, ev) :: m) = side x m := by simp [side, h]

theorem mem_side {x : Side} {ev : Ev E R} {m : List (Turn E R)} : ev ∈ side x m ↔ (x, ev) ∈ m := by
  unfold side
  rw [List.mem_filterMap]
  constructor
  · rintro ⟨⟨y, ev'⟩, hm, h⟩
    by_cases hy : y = x
    · rw [if_pos hy, Option.some.injEq] at h
      rwa [← hy, ← h]
    · simp [hy] at h
  · exact fun h => ⟨_, h, if_pos rfl⟩

/-- A call of one side is a turn of the whole. -/
theorem side_split {x : Side} {ev : Ev E R} : ∀ {m : List (Turn E R)} {pre post : List (Ev E R)},
    side x m = pre ++ ev :: post →
      ∃ m₁ m₂, m = m₁ ++ (x, ev) :: m₂ ∧ side x m₁ = pre ∧ side x m₂ = post
  | [], pre, post, h => by simp at h
  | (y, ev') :: m, pre, post, h => by
    by_cases hy : y = x
    · subst hy
      rw [side_cons_self] at h
      cases pre with
      | nil =>
        rw [List.nil_append, List.cons.injEq] at h
        obtain ⟨rfl, hpost⟩ := h
        exact ⟨[], m, rfl, rfl, hpost⟩
      | cons a pre =>
        rw [List.cons_append, List.cons.injEq] at h
        obtain ⟨rfl, h⟩ := h
        obtain ⟨m₁, m₂, rfl, h₁, h₂⟩ := side_split h
        exact ⟨(y, ev') :: m₁, m₂, rfl, by rw [side_cons_self, h₁], h₂⟩
    · rw [side_cons_ne hy] at h
      obtain ⟨m₁, m₂, rfl, h₁, h₂⟩ := side_split h
      exact ⟨(y, ev') :: m₁, m₂, rfl, by rw [side_cons_ne hy, h₁], h₂⟩

end Side

/-! ## One side alone -/

/-- Any answer is possible; the calls are recorded. -/
def Recorded : Rel E R (List (Ev E R)) := fun e tr r tr' => tr' = tr ++ [⟨e, r⟩]

section Inter

variable {rel : Rel E R S} {p p' : Prog E R α} {q q' : Prog E R β} {s s' : S}
  {m : List (Turn E R)}

theorem Inter.left_steps (h : Inter rel p q s m p' q' s') :
    ∀ tr, Steps Recorded p tr (side .left m) p' (tr ++ side .left m) := by
  induction h with
  | refl p q s =>
    intro tr
    rw [side_nil, List.append_nil]
    exact .refl p tr
  | left hp hr _ ih =>
    intro tr
    rw [side_cons_self, List.append_cons]
    exact .step hp rfl (ih _)
  | right hq hr _ ih =>
    intro tr
    rw [side_cons_ne (by decide)]
    exact ih tr

theorem Inter.right_steps (h : Inter rel p q s m p' q' s') :
    ∀ tr, Steps Recorded q tr (side .right m) q' (tr ++ side .right m) := by
  induction h with
  | refl p q s =>
    intro tr
    rw [side_nil, List.append_nil]
    exact .refl q tr
  | left hp hr _ ih =>
    intro tr
    rw [side_cons_ne (by decide)]
    exact ih tr
  | right hq hr _ ih =>
    intro tr
    rw [side_cons_self, List.append_cons]
    exact .step hq rfl (ih _)

theorem Inter.left_post {I : List (Ev E R) → Prop} {a : α} {Q : α → List (Ev E R) → Prop}
    (h : Inter rel p q s m (.ret a) q' s') (hp : wp Recorded I p Q []) : Q a (side .left m) :=
  (hp _ _ _ (h.left_steps [])).2 a rfl

theorem Inter.right_post {I : List (Ev E R) → Prop} {b : β} {Q : β → List (Ev E R) → Prop}
    (h : Inter rel p q s m p' (.ret b) s') (hq : wp Recorded I q Q []) : Q b (side .right m) :=
  (hq _ _ _ (h.right_steps [])).2 b rfl

/-- A program only makes calls it may make. -/
theorem wp_recorded {P : E → Prop} {p : Prog E R α} (hp : p.Calls P) (tr : List (Ev E R)) :
    wp Recorded (fun tr' => ∃ more, tr' = tr ++ more ∧ ∀ ev ∈ more, P ev.1) p
      (fun _ tr' => ∃ more, tr' = tr ++ more ∧ ∀ ev ∈ more, P ev.1) tr := by
  refine wp_calls hp ?_ ⟨[], by simp, by simp⟩
  rintro e _ r _ he ⟨more, rfl, hmore⟩ rfl
  refine ⟨more ++ [⟨e, r⟩], by simp, fun ev hev => ?_⟩
  rcases List.mem_append.mp hev with h | h
  · exact hmore ev h
  · rw [List.mem_singleton.mp h]
    exact he

/-! ## The shared state -/

/-- What an observer sees of the state is a fold over the calls. -/
theorem Inter.observe {π : S → O} {eff : O → Ev E R → O}
    (hrel : ∀ e s r s', rel e s r s' → π s' = eff (π s) ⟨e, r⟩)
    (h : Inter rel p q s m p' q' s') : π s' = (m.map Prod.snd).foldl eff (π s) := by
  induction h with
  | refl => rfl
  | left hp hr _ ih => rw [ih, hrel _ _ _ _ hr]; rfl
  | right hq hr _ ih => rw [ih, hrel _ _ _ _ hr]; rfl

/-- The state in which a turn is taken. -/
theorem Inter.split {x : Side} {ev : Ev E R} {m₁ m₂ : List (Turn E R)}
    (h : Inter rel p q s (m₁ ++ (x, ev) :: m₂) p' q' s') :
    ∃ p₁ q₁ s₁ s₂, Inter rel p q s m₁ p₁ q₁ s₁ ∧ rel ev.1 s₁ ev.2 s₂ := by
  generalize hm : m₁ ++ (x, ev) :: m₂ = m at h
  induction h generalizing m₁ with
  | refl => simp at hm
  | @left p p' q q' s s₁ s' e k r m hp hr h ih =>
    cases m₁ with
    | nil =>
      rw [List.nil_append, List.cons.injEq, Prod.mk.injEq] at hm
      obtain ⟨⟨-, rfl⟩, -⟩ := hm
      exact ⟨p, q, s, s₁, .refl _ _ _, hr⟩
    | cons a m₁ =>
      rw [List.cons_append, List.cons.injEq] at hm
      obtain ⟨rfl, hm⟩ := hm
      obtain ⟨p₁, q₁, t, t', hi, ht⟩ := ih hm
      exact ⟨p₁, q₁, t, t', .left hp hr hi, ht⟩
  | @right p p' q q' s s₁ s' e k r m hq hr h ih =>
    cases m₁ with
    | nil =>
      rw [List.nil_append, List.cons.injEq, Prod.mk.injEq] at hm
      obtain ⟨⟨-, rfl⟩, -⟩ := hm
      exact ⟨p, q, s, s₁, .refl _ _ _, hr⟩
    | cons a m₁ =>
      rw [List.cons_append, List.cons.injEq] at hm
      obtain ⟨rfl, hm⟩ := hm
      obtain ⟨p₁, q₁, t, t', hi, ht⟩ := ih hm
      exact ⟨p₁, q₁, t, t', .right hq hr hi, ht⟩

end Inter

/-! ## A cell that both sides write -/

section Owner

variable (resets writes : Ev E R → Bool)

/-- The side that reset the cell last; `w` did before. -/
def owner (w : Option Side) : List (Turn E R) → Option Side
  | [] => w
  | y :: m => owner (if resets y.2 then some y.1 else w) m

/-- Every other call that writes the cell is made by the side that reset it last. -/
def orderly (w : Option Side) : List (Turn E R) → Bool
  | [] => true
  | y :: m =>
    if resets y.2 then orderly (some y.1) m
    else (!writes y.2 || w == some y.1) && orderly w m

variable {resets writes}

/-- The owner has reset the cell. -/
theorem exists_reset : ∀ {m : List (Turn E R)} {w : Option Side} {x : Side},
    owner resets w m = some x → w = some x ∨ ∃ ev ∈ side x m, resets ev = true
  | [], _, _, h => .inl h
  | (y, ev) :: m, w, x, h => by
    rw [owner] at h
    rcases exists_reset h with hw | ⟨ev', hm, hr⟩
    · by_cases hev : resets ev = true
      · rw [if_pos hev, Option.some.injEq] at hw
        subst hw
        exact .inr ⟨ev, by simp, hev⟩
      · rw [if_neg hev] at hw
        exact .inl hw
    · refine .inr ⟨ev', ?_, hr⟩
      exact mem_side.mpr (List.mem_cons_of_mem _ (mem_side.mp hm))

/-- A cell that has been reset has an owner. -/
theorem owner_ne_none : ∀ {m : List (Turn E R)} {w : Option Side},
    (w ≠ none ∨ ∃ y ∈ m, resets y.2 = true) → owner resets w m ≠ none
  | [], w, h => by simpa [owner] using h
  | y :: m, w, h => by
    rw [owner]
    refine owner_ne_none ?_
    by_cases hy : resets y.2 = true
    · simp [hy]
    · rw [if_neg hy]
      refine h.imp_right ?_
      rintro ⟨z, hz, hr⟩
      rcases List.mem_cons.mp hz with rfl | hz
      · exact absurd hr hy
      · exact ⟨z, hz, hr⟩

/-- **The last one to reset the cell decides**: `f x` is what the side `x` alone would have made of
the cell so far. -/
theorem fold_of_owner {eff : O → Ev E R → O} (hreset : ∀ ev o o', resets ev = true → eff o ev = eff o' ev)
    (hquiet : ∀ ev o, resets ev = false → writes ev = false → eff o ev = o) :
    ∀ (m : List (Turn E R)) (w : Option Side) (o : O) (f : Side → O),
      orderly resets writes w m = true → (∀ x, w = some x → o = f x) →
      ∀ x, owner resets w m = some x →
        (m.map Prod.snd).foldl eff o = (side x m).foldl eff (f x)
  | [], w, o, f, _, hw, x, hx => hw x hx
  | (y, ev) :: m, w, o, f, hord, hw, x, hx => by
    rw [owner] at hx
    rw [orderly] at hord
    -- what each side alone would have made of the cell after this turn
    let f' : Side → O := fun z => if y = z then eff (f z) ev else f z
    have hside : (side x ((y, ev) :: m)).foldl eff (f x) = (side x m).foldl eff (f' x) := by
      by_cases hy : y = x
      · subst hy
        simp [f']
      · rw [side_cons_ne hy]
        simp [f', hy]
    rw [hside, List.map_cons, List.foldl_cons]
    by_cases hr : resets ev = true
    · simp only [hr, if_true] at hx hord
      refine fold_of_owner hreset hquiet m _ _ f' hord (fun z hz => ?_) x hx
      obtain rfl := Option.some.inj hz
      simpa [f'] using hreset ev o (f y) hr
    · simp only [hr, Bool.false_eq_true, if_false, Bool.and_eq_true, Bool.or_eq_true,
        Bool.not_eq_true', beq_iff_eq] at hx hord
      refine fold_of_owner hreset hquiet m w _ f' hord.2 (fun z hz => ?_) x hx
      rcases hord.1 with hwrite | hown
      · have hq : ∀ o, eff o ev = o := fun o => hquiet ev o (Bool.eq_false_iff.mpr hr) hwrite
        rw [hq, hw z hz]
        by_cases hy : y = z
        · simp [f', hy, hq]
        · simp [f', hy]
      · obtain rfl := Option.some.inj (hown.symm.trans hz)
        simp [f', hw y hz]

end Owner

/-! ## What one side has made and the other leaves alone -/

section Timely

variable (late : List (Ev E R) → Ev E R → Bool)

/-- No call of the left side is late, with the calls `done` of the right side before it. -/
def timely : List (Ev E R) → List (Turn E R) → Bool
  | _, [] => true
  | done, (.left, ev) :: m => !late done ev && timely done m
  | done, (.right, ev) :: m => timely (done ++ [ev]) m

variable {late} {rel : Rel E R S}

/-- **In a run without late calls** an invariant of the right side's calls and the state is kept. -/
theorem Inter.timely_keeps {P : E → Prop} {G : Ev E R → Prop} {J : List (Ev E R) → S → Prop}
    (hleft : ∀ done ev s s', P ev.1 → late done ev = false → J done s → rel ev.1 s ev.2 s' → J done s')
    (hright : ∀ done ev s s', G ev → J done s → rel ev.1 s ev.2 s' → J (done ++ [ev]) s')
    {p p' : Prog E R α} {q q' : Prog E R β} {s s' : S} {m : List (Turn E R)}
    (h : Inter rel p q s m p' q' s') (hp : p.Calls P) (hq : ∀ ev ∈ side .right m, G ev)
    {done : List (Ev E R)} (hm : timely late done m = true) (hJ : J done s) :
    J (done ++ side .right m) s' := by
  induction h generalizing done with
  | refl p q s =>
    rw [side_nil, List.append_nil]
    exact hJ
  | @left p p' q q' s s₁ s' e k r m hn hr _ ih =>
    rw [timely, Bool.and_eq_true, Bool.not_eq_true'] at hm
    rw [side_cons_ne (by decide)] at hq ⊢
    obtain ⟨he, hk⟩ := calls_next hp hn
    exact ih (hk r) hq hm.2 (hleft done ⟨e, r⟩ s s₁ he hm.1 hJ hr)
  | @right p p' q q' s s₁ s' e k r m hn hr _ ih =>
    rw [timely] at hm
    rw [side_cons_self] at hq ⊢
    have hnext := hright done ⟨e, r⟩ s s₁ (hq _ List.mem_cons_self) hJ hr
    have hrest := ih hp (fun ev hev => hq ev (List.mem_cons_of_mem _ hev)) hm hnext
    rwa [List.append_assoc, List.singleton_append] at hrest

end Timely

/-! ## Running two programs by a schedule -/

section Schedule

variable (sem : Sem E R C S)

/-- Run two programs; each turn names a side and a choice, and is skipped when the side is done. -/
def interleave : List (Side × C) → Prog E R α → Prog E R β → S →
    List (Turn E R) × Prog E R α × Prog E R β × S
  | [], p, q, s => ([], p, q, s)
  | (.left, c) :: cs, p, q, s =>
    match p.next with
    | .done _ => interleave cs p q s
    | .call e k =>
      let rest := interleave cs (k (sem e c s).1) q (sem e c s).2
      ((.left, ⟨e, (sem e c s).1⟩) :: rest.1, rest.2)
  | (.right, c) :: cs, p, q, s =>
    match q.next with
    | .done _ => interleave cs p q s
    | .call e k =>
      let rest := interleave cs p (k (sem e c s).1) (sem e c s).2
      ((.right, ⟨e, (sem e c s).1⟩) :: rest.1, rest.2)

/-- A scheduled run is a run. -/
theorem inter_interleave : ∀ (cs : List (Side × C)) (p : Prog E R α) (q : Prog E R β) (s : S),
    Inter sem.rel p q s (interleave sem cs p q s).1 (interleave sem cs p q s).2.1
      (interleave sem cs p q s).2.2.1 (interleave sem cs p q s).2.2.2
  | [], p, q, s => .refl p q s
  | (.left, c) :: cs, p, q, s => by
    cases hp : p.next with
    | done a =>
      simp only [interleave, hp]
      exact inter_interleave cs p q s
    | call e k =>
      simp only [interleave, hp]
      exact .left hp ⟨c, rfl⟩ (inter_interleave cs _ _ _)
  | (.right, c) :: cs, p, q, s => by
    cases hq : q.next with
    | done a =>
      simp only [interleave, hq]
      exact inter_interleave cs p q s
    | call e k =>
      simp only [interleave, hq]
      exact .right hq ⟨c, rfl⟩ (inter_interleave cs _ _ _)

end Schedule

end FreeProxy.Lib
