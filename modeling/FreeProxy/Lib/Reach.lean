import Mathlib.Data.List.Basic

/-!
# Reachable states of a transition system

`Reach init ok step`: the states reached from `init` by steps of `step` that are all allowed by
`ok`. A guard `ok` that allows everything gives all runs, another one the runs that keep to a
condition. `Reach.inv` is the invariant rule. A transition system whose steps can be computed is run by
turns (`play`), and what such a run ends in is reached (`Reach.play`).
-/

namespace FreeProxy.Lib

variable {S : Type*} {L : Type*}

/-- Reached from an initial state by allowed steps. -/
inductive Reach (init : S → Prop) (ok : S → L → Prop) (step : S → L → S → Prop) : S → Prop where
  | init {s : S} (h : init s) : Reach init ok step s
  | step {s s' : S} {l : L} (h : Reach init ok step s) (hok : ok s l) (hs : step s l s') :
      Reach init ok step s'

/-- No condition on the steps. -/
def anyStep (_ : S) (_ : L) : Prop := True

variable {init : S → Prop} {ok : S → L → Prop} {step : S → L → S → Prop}

/-- **The invariant rule.** -/
theorem Reach.inv {I : S → Prop} (hinit : ∀ s, init s → I s)
    (hstep : ∀ s l s', I s → ok s l → step s l s' → I s') {s : S} (h : Reach init ok step s) :
    I s := by
  induction h with
  | init h => exact hinit _ h
  | step _ hok hs ih => exact hstep _ _ _ ih hok hs

/-- A run goes on from where another one has come to. -/
theorem Reach.trans {s s' : S} (h : Reach init ok step s) (h' : Reach (· = s) ok step s') :
    Reach init ok step s' := by
  induction h' with
  | init hs => exact hs ▸ h
  | step _ hok hs ih => exact ih.step hok hs

/-! ## Runs by turns -/

section Play

variable {T : Type*} (move : S → T → Option (L × S)) (check : S → L → Bool)

/-- A turn is a step, if it can be made and passes the check. -/
def play : List T → S → Option S
  | [], s => some s
  | turn :: turns, s =>
    (move s turn).bind fun next => if check s next.1 then play turns next.2 else none

variable {move check}

/-- **A run by turns is a run.** -/
theorem Reach.play (hmove : ∀ s turn l s', move s turn = some (l, s') → step s l s')
    (hcheck : ∀ s l, check s l = true → ok s l) : ∀ {turns : List T} {s s' : S},
      Reach init ok step s → Lib.play move check turns s = some s' → Reach init ok step s'
  | [], s, s', h, hplay => by
    obtain rfl := Option.some.inj hplay
    exact h
  | turn :: turns, s, s', h, hplay => by
    obtain ⟨⟨l, s₁⟩, hturn, hrest⟩ := Option.bind_eq_some_iff.mp hplay
    by_cases hl : check s l = true
    · rw [if_pos hl] at hrest
      exact Reach.play hmove hcheck (h.step (hcheck s l hl) (hmove s turn l s₁ hturn)) hrest
    · rw [if_neg hl] at hrest
      cases hrest

end Play

end FreeProxy.Lib
