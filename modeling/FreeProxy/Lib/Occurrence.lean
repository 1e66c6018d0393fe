import Mathlib.Data.List.Basic

/-!
# The first occurrence of a pattern

`OccursAt pattern l i`: the pattern stands at the index `i` of the list. `FirstAt pattern l i`: there
for the first time. An occurrence depends only on the part of the list that it lies in, so the first
one is found in every beginning of the list that contains it (`firstAt_append`), and a search from the
left finds it (`find?_firstAt`).
-/

namespace FreeProxy.Lib

variable {β : Type*}

/-- `pattern` stands in `l` at `i`. -/
def OccursAt (pattern l : List β) (i : Nat) : Prop :=
  ∃ before after, l = before ++ pattern ++ after ∧ before.length = i

/-- It stands there and nowhere before. -/
def FirstAt (pattern l : List β) (i : Nat) : Prop :=
  OccursAt pattern l i ∧ ∀ j < i, ¬ OccursAt pattern l j

variable {pattern l m : List β} {i j : Nat}

theorem OccursAt.le (h : OccursAt pattern l i) : i + pattern.length ≤ l.length := by
  obtain ⟨before, after, rfl, rfl⟩ := h
  simp only [List.length_append]
  omega

/-- Only the part of the list behind the index counts. -/
theorem occursAt_iff : OccursAt pattern l i ↔ i ≤ l.length ∧ List.IsPrefix pattern (l.drop i) := by
  constructor
  · rintro ⟨before, after, rfl, rfl⟩
    refine ⟨by simp only [List.length_append]; omega, after, ?_⟩
    rw [List.append_assoc, List.drop_left]
  · rintro ⟨hle, after, hafter⟩
    refine ⟨l.take i, after, ?_, List.length_take_of_le hle⟩
    rw [List.append_assoc, hafter, List.take_append_drop]

theorem OccursAt.append (h : OccursAt pattern l i) (m : List β) : OccursAt pattern (l ++ m) i := by
  obtain ⟨before, after, rfl, hlength⟩ := h
  exact ⟨before, after ++ m, by simp only [List.append_assoc], hlength⟩

/-- An occurrence that ends in the first part is one of the first part. -/
theorem OccursAt.of_append (h : OccursAt pattern (l ++ m) i) (hle : i + pattern.length ≤ l.length) :
    OccursAt pattern l i := by
  rw [occursAt_iff] at h ⊢
  refine ⟨by omega, ?_⟩
  rw [List.drop_append_of_le_length (by omega)] at h
  refine List.prefix_of_prefix_length_le h.2 (List.prefix_append _ _) ?_
  rw [List.length_drop]
  omega

theorem FirstAt.unique (hi : FirstAt pattern l i) (hj : FirstAt pattern l j) : i = j := by
  rcases Nat.lt_trichotomy i j with h | h | h
  · exact absurd hi.1 (hj.2 i h)
  · exact h
  · exact absurd hj.1 (hi.2 j h)

/-- **More of the list does not change the first occurrence.** -/
theorem firstAt_append (hle : i + pattern.length ≤ l.length) :
    FirstAt pattern (l ++ m) i ↔ FirstAt pattern l i := by
  constructor
  · rintro ⟨hat, hfirst⟩
    exact ⟨hat.of_append hle, fun j hj hoccurs => hfirst j hj (hoccurs.append m)⟩
  · rintro ⟨hat, hfirst⟩
    exact ⟨hat.append m, fun j hj hoccurs => hfirst j hj (hoccurs.of_append (by omega))⟩

/-- A search from the left, by a test of the indexes below `bound`. -/
theorem find?_firstAt {test : Nat → Bool} {bound : Nat}
    (htest : ∀ j, test j = true ↔ OccursAt pattern l j) (hbound : ∀ j, OccursAt pattern l j → j < bound) :
    (List.range bound).find? test = some i ↔ FirstAt pattern l i := by
  rw [List.find?_range_eq_some]
  constructor
  · rintro ⟨hi, -, hfirst⟩
    refine ⟨(htest i).mp hi, fun j hj hoccurs => ?_⟩
    have hno := hfirst j hj
    rw [(htest j).mpr hoccurs] at hno
    exact absurd hno (by decide)
  · rintro ⟨hat, hfirst⟩
    refine ⟨(htest i).mpr hat, List.mem_range.mpr (hbound i hat), fun j hj => ?_⟩
    rw [Bool.not_eq_true', Bool.eq_false_iff]
    exact fun h => hfirst j hj ((htest j).mp h)

theorem find?_firstAt_none {test : Nat → Bool} {bound : Nat}
    (htest : ∀ j, test j = true ↔ OccursAt pattern l j) (hbound : ∀ j, OccursAt pattern l j → j < bound)
    (hnone : (List.range bound).find? test = none) (j : Nat) : ¬ OccursAt pattern l j := by
  intro hoccurs
  rw [List.find?_range_eq_none] at hnone
  have hno := hnone j (hbound j hoccurs)
  rw [(htest j).mpr hoccurs] at hno
  exact absurd hno (by decide)

end FreeProxy.Lib
