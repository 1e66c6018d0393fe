import Mathlib.Data.List.Basic

/-!
# First-match rule lists

A rule list decides by its first rule that gives a verdict (`firstMatch`), and by a default when
none does. `f r : Option V` is the verdict of the rule `r` on the packet at hand.

A list of *exceptions* (`Exceptions f v l`) is one whose rules give the verdict `v` or none. It is
what a policy of the form "these go `v`, everything else goes `w`" is built of: the exceptions come
first, then one rule that always gives `w`.

Headlines: **`firstMatch_policy`**, the verdict of exceptions followed by a rule that always fires;
**`firstMatch_hit`**, a packet that meets an exception is decided by it, whatever follows.
-/

namespace FreeProxy.Lib

variable {ρ V : Type} (f : ρ → Option V)

/-- The verdict of the first rule that gives one. -/
def firstMatch (d : V) (rules : List ρ) : V := (rules.findSome? f).getD d

/-- Every rule of `l` gives `v` or nothing. -/
def Exceptions (v : V) (l : List ρ) : Prop := ∀ r ∈ l, f r = none ∨ f r = some v

variable {f}

theorem exceptions_mono {v : V} {l m : List ρ} (h : Exceptions f v m) (hs : ∀ r ∈ l, r ∈ m) :
    Exceptions f v l := fun r hr => h r (hs r hr)

theorem firstMatch_cons_none {d : V} {r : ρ} (h : f r = none) (l : List ρ) :
    firstMatch f d (r :: l) = firstMatch f d l := by
  unfold firstMatch
  rw [List.findSome?_cons, h]

theorem firstMatch_cons_some {d v : V} {r : ρ} (h : f r = some v) (l : List ρ) :
    firstMatch f d (r :: l) = v := by
  unfold firstMatch
  rw [List.findSome?_cons, h]
  rfl

/-- Rules that give nothing do not matter. -/
theorem firstMatch_append_none {d : V} : ∀ {l : List ρ}, (∀ r ∈ l, f r = none) →
    ∀ m, firstMatch f d (l ++ m) = firstMatch f d m
  | [], _, _ => rfl
  | r :: l, h, m => by
    rw [List.cons_append, firstMatch_cons_none (h r List.mem_cons_self)]
    exact firstMatch_append_none (fun r' hr' => h r' (List.mem_cons_of_mem r hr')) m

/-- **An exception that fires decides**, whatever follows. -/
theorem firstMatch_hit {d v : V} : ∀ {l : List ρ}, Exceptions f v l →
    (∃ r ∈ l, f r = some v) → ∀ m, firstMatch f d (l ++ m) = v
  | [], _, ⟨_, hr, _⟩, _ => absurd hr List.not_mem_nil
  | x :: l, hex, ⟨r, hr, hv⟩, m => by
    rw [List.cons_append]
    rcases hex x List.mem_cons_self with hx | hx
    · rw [firstMatch_cons_none hx]
      refine firstMatch_hit (fun r' hr' => hex r' (List.mem_cons_of_mem x hr')) ?_ m
      rcases List.mem_cons.mp hr with rfl | hr'
      · rw [hx] at hv; exact absurd hv (by simp)
      · exact ⟨r, hr', hv⟩
    · exact firstMatch_cons_some hx _

/-- Exceptions alone decide nothing but `v`, when `v` is the default too. -/
theorem firstMatch_exceptions {v : V} {l : List ρ} (hex : Exceptions f v l) :
    firstMatch f v l = v := by
  by_cases h : ∃ r ∈ l, f r = some v
  · have := firstMatch_hit (d := v) hex h []
    rwa [List.append_nil] at this
  · have hnone : ∀ r ∈ l, f r = none := fun r hr =>
      (hex r hr).resolve_right fun hv => h ⟨r, hr, hv⟩
    have := firstMatch_append_none (d := v) hnone []
    rwa [List.append_nil] at this

/-- **Exceptions, then a rule that always fires**: the policy of the two verdicts. -/
theorem firstMatch_policy {d v w : V} {l : List ρ} {r : ρ} (hex : Exceptions f v l)
    (hr : f r = some w) (m : List ρ) [Decidable (∃ r ∈ l, f r = some v)] :
    firstMatch f d (l ++ r :: m) = if ∃ r ∈ l, f r = some v then v else w := by
  by_cases h : ∃ r ∈ l, f r = some v
  · rw [if_pos h]
    exact firstMatch_hit hex h _
  · rw [if_neg h, firstMatch_append_none fun r hr => (hex r hr).resolve_right fun hv => h ⟨r, hr, hv⟩]
    exact firstMatch_cons_some hr m

end FreeProxy.Lib
