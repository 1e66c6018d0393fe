import FreeProxy.Lib.Wp

/-!
# Programs that come to an end

`Terminates rel p s`: whatever the calls are answered, every run of `p` from `s` is finite. Where
every call is answered there is then a run to a value (`Terminates.runs`), so that a `wp` speaks of
something. A program without loops terminates (`Prog.LoopFree`), and `Terminates.bind` puts programs
together; for a loop the proof is an induction of its own.
-/

namespace FreeProxy.Lib

variable {E : Type} {R : E → Type} {S : Type} {α β : Type}

/-- Every run of the program is finite. -/
inductive Terminates (rel : Rel E R S) : Prog E R α → S → Prop where
  | ret (a : α) (s : S) : Terminates rel (.ret a) s
  | call {p : Prog E R α} {s : S} {e : E} {k : R e → Prog E R α} (hp : p.next = .call e k)
      (h : ∀ r s', rel e s r s' → Terminates rel (k r) s') : Terminates rel p s

variable {rel : Rel E R S} {p : Prog E R α} {s : S}

theorem Terminates.runs (h : Terminates rel p s) (hrel : ∀ e s, ∃ r s', rel e s r s') :
    ∃ a s', Runs rel p s a s' := by
  induction h with
  | ret a s => exact ⟨a, s, .ret a s⟩
  | @call p s e k hp _ ih =>
    obtain ⟨r, s₁, hr⟩ := hrel e s
    obtain ⟨a, s', tr, hs⟩ := ih r s₁ hr
    exact ⟨a, s', _, .step hp hr hs⟩

theorem Terminates.bind {f : α → Prog E R β} (h : Terminates rel p s)
    (hf : ∀ a s', Runs rel p s a s' → Terminates rel (f a) s') : Terminates rel (p.bind f) s := by
  induction h with
  | ret a s => exact hf a s (.ret a s)
  | @call p s e k hp _ ih =>
    refine .call (Prog.next_bind hp f) fun r s₁ hr => ih r s₁ hr fun a s' hrun => ?_
    obtain ⟨tr, hs⟩ := hrun
    exact hf a s' ⟨_, .step hp hr hs⟩

/-- What terminates over a part of the state terminates over the state. -/
theorem Terminates.comap {S' : Type} {rel' : Rel E R S'} (π : S' → S)
    (hrel : ∀ e s r s', rel' e s r s' → rel e (π s) r (π s')) {s : S'}
    (h : Terminates rel p (π s)) : Terminates rel' p s := by
  generalize hs : π s = t at h
  induction h generalizing s with
  | ret a t => exact .ret a s
  | call hp _ ih =>
    subst hs
    exact .call hp fun r s' hr => ih r (π s') (hrel _ _ _ _ hr) rfl

/-- A program that repeats nothing. -/
def Prog.LoopFree {α : Type} : Prog E R α → Prop
  | .ret _ => True
  | .call _ k => ∀ r, (k r).LoopFree
  | .loop _ _ _ => False

theorem Prog.LoopFree.bind {f : α → Prog E R β} (hp : p.LoopFree) (hf : ∀ a, (f a).LoopFree) :
    (p.bind f).LoopFree := by
  induction p with
  | ret a => exact hf a
  | call e k ih => exact fun r => ih r (hp r) hf
  | loop e body k => exact hp.elim

theorem Prog.LoopFree.terminates (hp : p.LoopFree) (s : S) : Terminates rel p s := by
  induction p generalizing s with
  | ret a => exact .ret a s
  | call e k ih => exact .call rfl fun r s' _ => ih r (hp r) s'
  | loop e body k => exact hp.elim

theorem loopFree_all {ps : List (Prog E R Int)} (h : ∀ p ∈ ps, p.LoopFree) : (Prog.all ps).LoopFree := by
  induction ps with
  | nil => trivial
  | cons p ps ih =>
    refine (h p List.mem_cons_self).bind fun r => ?_
    split
    · exact ih fun q hq => h q (List.mem_cons_of_mem _ hq)
    · trivial

/-- A program over fewer calls, run on a part of the state. -/
theorem Terminates.hoist {E' : Type} {R' : E' → Type} {S' : Type} {i : E → E'}
    {rel : Rel E (fun e => R' (i e)) S} {rel' : Rel E' R' S'} {l : Lens S' S}
    (hi : Embeds i rel rel' l) {p : Prog E (fun e => R' (i e)) α} {s : S'}
    (h : Terminates rel p (l.get s)) : Terminates rel' (Lib.hoist i p) s := by
  generalize hs : l.get s = t at h
  induction h generalizing s with
  | ret a t => exact .ret a s
  | call hp _ ih =>
    subst hs
    exact .call (hoist_next_call hp) fun r s' hr => ih r _ (hi _ _ _ _ hr).1 rfl

end FreeProxy.Lib
