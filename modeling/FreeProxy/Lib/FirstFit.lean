import Mathlib.Data.List.Count
import Mathlib.Data.List.Perm.Basic

/-!
# Room for every searcher

`n` cells in a row, and searchers that each go from cell to cell, from the first one on, and stay at
the first cell they find free. Cells behind a searcher may be freed and cells ahead of it taken, so
the number of free cells says nothing about what one searcher still finds.

`Room n places` does: `places` holds the cell of everyone who has one and the position of everyone
who searches, and from any cell on there are no more of them than cells. A searcher that finds its
cell keeps its place, and one that moves on passes a cell that somebody else has (`Room.miss`).

**`Room.lt`**: nobody is ever past the last cell.
-/

namespace FreeProxy.Lib

/-- From any cell on, there are as many cells as places. -/
def Room (n : Nat) (places : List Nat) : Prop := ∀ i, places.countP (i ≤ ·) ≤ n - i

variable {n j : Nat} {places : List Nat}

theorem Room.nil : Room n [] := fun _ => Nat.zero_le _

theorem Room.perm {places' : List Nat} (h : Room n places) (hp : places.Perm places') :
    Room n places' := fun i => hp.countP_eq (i ≤ ·) ▸ h i

/-- **Nobody is past the last cell.** -/
theorem Room.lt (h : Room n places) (hj : j ∈ places) : j < n := by
  have hone : 0 < places.countP (j ≤ ·) := List.countP_pos_iff.mpr ⟨j, hj, by simp⟩
  have hroom := h j
  omega

/-- A new searcher begins at the first cell, as long as there are fewer places than cells. -/
theorem Room.enter (h : Room n places) (hlen : places.length < n) : Room n (0 :: places) := by
  intro i
  rw [List.countP_cons]
  simp only [decide_eq_true_eq]
  by_cases hi : i = 0
  · have hle : places.countP (i ≤ ·) ≤ places.length := List.countP_le_length
    rw [if_pos (by omega)]
    omega
  · have hroom := h i
    rw [if_neg (by omega)]
    exact hroom

theorem countP_le_succ (j : Nat) : ∀ places : List Nat,
    places.countP (j ≤ ·) = places.count j + places.countP (j + 1 ≤ ·)
  | [] => rfl
  | k :: places => by
    have ih := countP_le_succ j places
    simp only [List.countP_cons, List.count_cons, ih, beq_iff_eq, decide_eq_true_eq]
    by_cases hk : j ≤ k
    · by_cases heq : k = j
      · rw [if_pos hk, if_pos heq, if_neg (by omega)]
        omega
      · rw [if_pos hk, if_neg heq, if_pos (by omega)]
        omega
    · rw [if_neg hk, if_neg (by omega), if_neg (by omega)]
      omega

/-- A searcher passes a cell that somebody else has. -/
theorem Room.miss (h : Room n (j :: places)) (hj : j ∈ places) : Room n ((j + 1) :: places) := by
  intro i
  have hroom := h i
  rw [List.countP_cons] at hroom ⊢
  simp only [decide_eq_true_eq] at hroom ⊢
  by_cases hi : i = j + 1
  · -- from here on there is one place more; the two at `j` itself make up for it
    subst hi
    have hthere := h j
    have hone : 0 < places.count j := List.count_pos_iff.mpr hj
    rw [List.countP_cons, countP_le_succ, if_pos (by simp)] at hthere
    rw [if_pos (Nat.le_refl _)]
    omega
  · by_cases hle : i ≤ j
    · rw [if_pos hle] at hroom
      rw [if_pos (by omega)]
      exact hroom
    · rw [if_neg hle] at hroom
      rw [if_neg (by omega)]
      exact hroom

/-- Somebody gives up a cell, or leaves. -/
theorem Room.leave (h : Room n (j :: places)) : Room n places := by
  intro i
  have hroom := h i
  rw [List.countP_cons] at hroom
  omega

end FreeProxy.Lib
