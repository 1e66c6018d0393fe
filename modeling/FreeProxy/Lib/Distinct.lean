import Mathlib.Data.List.Induction
import Mathlib.Data.List.Nodup

/-!
# Collecting without repetitions

`collect cap seen xs` takes the values of `xs` one after the other into a list without repetitions, and
gives up as soon as the list is full *before* a value is looked at, also where the value is one that the
list has.

* `collect_eq_some`: behind values that were seen, it collects the first occurrences (`List.eraseDups`),
  and it succeeds iff all values but the last one leave room.
* `length_eraseDups_concat`: the last value counts unless it is a repetition.

Headline: **`collect_nil_eq_some`**.
-/

namespace FreeProxy.Lib

variable {α : Type} [DecidableEq α]

/-- `x` behind `xs`, unless `xs` has it. -/
def insertNew (xs : List α) (x : α) : List α := if x ∈ xs then xs else xs ++ [x]

/-- Enter the elements one by one, each once; the room is asked for before the search. -/
def collect (cap : Nat) : List α → List α → Option (List α)
  | seen, [] => some seen
  | seen, x :: xs => if cap ≤ seen.length then none else collect cap (insertNew seen x) xs

theorem eraseDups_concat (xs : List α) (x : α) : (xs ++ [x]).eraseDups = insertNew xs.eraseDups x := by
  unfold insertNew
  rw [List.eraseDups_append]
  by_cases h : x ∈ xs
  · rw [if_pos (List.mem_eraseDups.mpr h)]
    simp [List.removeAll, h]
  · rw [if_neg fun hx => h (List.mem_eraseDups.mp hx)]
    simp [List.removeAll, h, List.eraseDups_cons]

theorem nodup_insertNew {xs : List α} (h : xs.Nodup) (x : α) : (insertNew xs x).Nodup := by
  unfold insertNew
  by_cases hx : x ∈ xs
  · rw [if_pos hx]
    exact h
  · rw [if_neg hx, List.nodup_append]
    refine ⟨h, List.nodup_singleton x, ?_⟩
    intro y hy z hz
    rw [List.mem_singleton.mp hz]
    rintro rfl
    exact hx hy

theorem nodup_eraseDups (xs : List α) : xs.eraseDups.Nodup := by
  induction xs using List.reverseRecOn with
  | nil => exact List.nodup_nil
  | append_singleton xs x ih =>
    rw [eraseDups_concat]
    exact nodup_insertNew ih x

/-- A list without repetitions is its own first occurrences. -/
theorem eraseDups_of_nodup {xs : List α} (h : xs.Nodup) : xs.eraseDups = xs := by
  induction xs using List.reverseRecOn with
  | nil => rfl
  | append_singleton xs x ih =>
    rw [List.nodup_append] at h
    obtain ⟨hxs, -, hx⟩ := h
    have hnew : x ∉ xs := fun hmem => hx x hmem x (List.mem_singleton_self x) rfl
    rw [eraseDups_concat, ih hxs, insertNew, if_neg hnew]

/-- The last value counts, unless it is a repetition. -/
theorem length_eraseDups_concat (xs : List α) (x : α) :
    (xs ++ [x]).eraseDups.length = xs.eraseDups.length + if x ∈ xs then 0 else 1 := by
  rw [eraseDups_concat, insertNew]
  by_cases h : x ∈ xs
  · rw [if_pos (List.mem_eraseDups.mpr h), if_pos h, Nat.add_zero]
  · rw [if_neg fun hx => h (List.mem_eraseDups.mp hx), if_neg h, List.length_append, List.length_singleton]

theorem length_eraseDups_append (xs ys : List α) :
    xs.eraseDups.length ≤ (xs ++ ys).eraseDups.length := by
  rw [List.eraseDups_append, List.length_append]
  exact Nat.le_add_right _ _

/-- **What is collected**, after `seen`. -/
theorem collect_eq_some (cap : Nat) (xs : List α) : ∀ {seen r : List α},
    collect cap seen.eraseDups xs = some r ↔
      r = (seen ++ xs).eraseDups ∧ (xs = [] ∨ (seen ++ xs.dropLast).eraseDups.length < cap) := by
  induction xs with
  | nil =>
    intro seen r
    simp [collect, eq_comm]
  | cons x xs ih =>
    intro seen r
    have hnext : insertNew seen.eraseDups x = (seen ++ [x]).eraseDups := (eraseDups_concat seen x).symm
    have hall : seen ++ x :: xs = seen ++ [x] ++ xs := List.append_cons seen x xs
    unfold collect
    by_cases hfull : cap ≤ seen.eraseDups.length
    · rw [if_pos hfull]
      have hlast := length_eraseDups_append seen (x :: xs).dropLast
      constructor
      · intro h
        cases h
      · rintro ⟨-, h | h⟩
        · cases h
        · omega
    · rw [if_neg hfull, hnext, ih, hall]
      cases xs with
      | nil => simpa using fun _ => Nat.lt_of_not_le hfull
      | cons y ys =>
        have hdrop : seen ++ (x :: y :: ys).dropLast = seen ++ [x] ++ (y :: ys).dropLast := by simp
        rw [hdrop]
        simp

/-- **What is collected from nothing**: the first occurrences, if all values but the last leave room. -/
theorem collect_nil_eq_some {cap : Nat} {xs r : List α} :
    collect cap [] xs = some r ↔ r = xs.eraseDups ∧ (xs = [] ∨ xs.dropLast.eraseDups.length < cap) := by
  have hempty := @collect_eq_some α _ cap xs [] r
  rwa [List.eraseDups_nil, List.nil_append, List.nil_append] at hempty

end FreeProxy.Lib
