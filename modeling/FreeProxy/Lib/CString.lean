/-!
# Strings in memory

`strnlen` and `strcmp` over a memory of any letters, each with the positions that it reads: `strnlen`
stops at the first `nul`, `strcmp` at the first difference, and neither looks further.

`Holds m i s` says that `s` stands in the memory `m` at `i`. A memory that holds only the beginning of
a string has unknown letters behind it: `strcmp_of_holds` needs the letters up to the first difference,
and no more; with fewer of them `strcmp` reads the first one that is not held (`strcmp_reads_beyond`).
-/

namespace FreeProxy.Lib

variable {α : Type} [DecidableEq α]

/-- `strnlen`, at most `n` letters from `i`. -/
def strnlen (nul : α) (m : Nat → α) : Nat → Nat → Nat × List Nat
  | _, 0 => (0, [])
  | i, n + 1 =>
    if m i = nul then (0, [i])
    else ((strnlen nul m (i + 1) n).1 + 1, i :: (strnlen nul m (i + 1) n).2)

/-- `strcmp(m + i, s) == 0`, for a text `s` without its `nul`. -/
def strcmp (nul : α) (m : Nat → α) : Nat → List α → Bool × List Nat
  | i, [] => (m i == nul, [i])
  | i, c :: s =>
    if m i = c then ((strcmp nul m (i + 1) s).1, i :: (strcmp nul m (i + 1) s).2) else (false, [i])

/-- `s` stands at `i`. -/
def Holds (m : Nat → α) : Nat → List α → Prop
  | _, [] => True
  | i, c :: s => m i = c ∧ Holds m (i + 1) s

/-- How many letters two texts begin with together. -/
def shared : List α → List α → Nat
  | x :: s, y :: t => if x = y then shared s t + 1 else 0
  | _, _ => 0

section Holding

variable {m : Nat → α} {s t : List α}

omit [DecidableEq α] in
theorem holds_append : ∀ {i : Nat} {s : List α}, Holds m i (s ++ t) ↔ Holds m i s ∧ Holds m (i + s.length) t
  | i, [] => by simp [Holds]
  | i, c :: s => by
    have hpos : i + (s.length + 1) = i + 1 + s.length := by omega
    rw [List.cons_append, List.length_cons, hpos, Holds, Holds, holds_append, and_assoc]

omit [DecidableEq α] in
/-- A memory that is read from a list. -/
theorem holds_of_get : ∀ {i : Nat} {s : List α}, (∀ j (h : j < s.length), m (i + j) = s[j]) → Holds m i s
  | _, [], _ => trivial
  | i, c :: s, h => by
    refine ⟨h 0 (Nat.zero_lt_succ _), holds_of_get fun j hj => ?_⟩
    have hnext := h (j + 1) (Nat.succ_lt_succ hj)
    rw [show i + 1 + j = i + (j + 1) by omega, hnext]
    rfl

theorem shared_le_left : ∀ (s t : List α), shared s t ≤ s.length
  | [], t => by cases t <;> simp [shared]
  | x :: s, [] => by simp [shared]
  | x :: s, y :: t => by
    unfold shared
    split
    · exact Nat.succ_le_succ (shared_le_left s t)
    · exact Nat.zero_le _

theorem shared_self : ∀ s : List α, shared s s = s.length
  | [] => rfl
  | x :: s => by rw [shared, if_pos rfl, shared_self s, List.length_cons]

end Holding

section Strnlen

variable {nul : α} {m : Nat → α}

theorem strnlen_reads : ∀ {i n p : Nat}, p ∈ (strnlen nul m i n).2 → p < i + n
  | _, 0, p, h => absurd h (List.not_mem_nil)
  | i, n + 1, p, h => by
    unfold strnlen at h
    split at h
    · obtain rfl := List.mem_singleton.mp h
      omega
    · rcases List.mem_cons.mp h with rfl | h
      · omega
      · have := strnlen_reads h
        omega

/-- Nothing of a text without `nul` stops `strnlen`. -/
theorem le_strnlen : ∀ {i n : Nat} {s : List α}, Holds m i s → nul ∉ s → s.length ≤ n →
    s.length ≤ (strnlen nul m i n).1
  | _, _, [], _, _, _ => Nat.zero_le _
  | i, 0, c :: s, _, _, hn => absurd hn (Nat.not_succ_le_zero _)
  | i, n + 1, c :: s, h, hnul, hn => by
    obtain ⟨hc, hs⟩ := h
    rw [List.mem_cons, not_or] at hnul
    rw [strnlen, if_neg (hc ▸ Ne.symm hnul.1)]
    exact Nat.succ_le_succ (le_strnlen hs hnul.2 (Nat.le_of_succ_le_succ hn))

theorem strnlen_of_holds : ∀ {i n : Nat} {s : List α}, Holds m i (s ++ [nul]) → nul ∉ s → s.length < n →
    (strnlen nul m i n).1 = s.length
  | _, 0, _, _, _, hn => absurd hn (Nat.not_lt_zero _)
  | i, n + 1, [], h, _, _ => by rw [strnlen, if_pos h.1, List.length_nil]
  | i, n + 1, c :: s, h, hnul, hn => by
    obtain ⟨hc, hs⟩ := h
    rw [List.mem_cons, not_or] at hnul
    rw [strnlen, if_neg (hc ▸ Ne.symm hnul.1), List.length_cons]
    exact congrArg (· + 1) (strnlen_of_holds hs hnul.2 (Nat.lt_of_succ_lt_succ hn))

end Strnlen

section Strcmp

variable {nul : α} {m : Nat → α}

/-- **The letters up to the first difference** decide, and no other is read. -/
theorem strcmp_of_holds : ∀ {i n : Nat} {s t : List α} {rest : List α},
    Holds m i ((s ++ nul :: rest).take n) → nul ∉ s → nul ∉ t → shared s t < n →
    strcmp nul m i t = (decide (s = t), List.range' i (shared s t + 1))
  | _, 0, _, _, _, _, _, _, hn => absurd hn (Nat.not_lt_zero _)
  | i, n + 1, [], [], _, h, _, _, _ => by
    have hnul : m i = nul := h.1
    simp [strcmp, shared, hnul]
  | i, n + 1, [], d :: t, _, h, _, hd, _ => by
    have hnul : m i = nul := h.1
    rw [List.mem_cons, not_or] at hd
    simp [strcmp, shared, hnul, hd.1]
  | i, n + 1, c :: s, [], _, h, hc, _, _ => by
    have hm : m i = c := h.1
    rw [List.mem_cons, not_or] at hc
    simp [strcmp, shared, hm, Ne.symm hc.1]
  | i, n + 1, c :: s, d :: t, rest, h, hc, hd, hn => by
    have hm : m i = c := h.1
    rw [List.mem_cons, not_or] at hc hd
    unfold strcmp shared
    by_cases heq : c = d
    · subst heq
      rw [shared, if_pos rfl] at hn
      have ih := strcmp_of_holds h.2 hc.2 hd.2 (Nat.lt_of_succ_lt_succ hn)
      rw [if_pos hm, if_pos rfl, ih]
      simp [List.range'_succ]
    · rw [hm, if_neg heq, if_neg heq]
      simp [heq]

/-- **With fewer letters** the one behind them is read. -/
theorem strcmp_reads_beyond : ∀ {i n : Nat} {s t : List α}, Holds m i (s.take n) → n ≤ shared s t →
    i + n ∈ (strcmp nul m i t).2
  | i, 0, s, t, _, _ => by
    cases t with
    | nil => simp [strcmp]
    | cons d t =>
      unfold strcmp
      split <;> simp
  | i, n + 1, [], t, _, hn => by cases t <;> simp [shared] at hn
  | i, n + 1, c :: s, [], _, hn => by simp [shared] at hn
  | i, n + 1, c :: s, d :: t, h, hn => by
    unfold shared at hn
    split at hn
    · next heq =>
      have hm : m i = d := heq ▸ h.1
      rw [strcmp, if_pos hm, show i + (n + 1) = i + 1 + n by omega]
      exact List.mem_cons_of_mem _ (strcmp_reads_beyond h.2 (Nat.le_of_succ_le_succ hn))
    · omega

/-- Then the answer depends on it. -/
theorem strcmp_beyond : ∀ {i n : Nat} {s t : List α}, Holds m i (s.take n) → n ≤ shared s t →
    m (i + n) ∉ t → m (i + n) ≠ nul → (strcmp nul m i t).1 = false
  | i, 0, s, t, _, _, ht, hnul => by
    cases t with
    | nil => simpa [strcmp] using hnul
    | cons d t =>
      rw [List.mem_cons, not_or] at ht
      have hne : m i ≠ d := ht.1
      rw [strcmp, if_neg hne]
  | i, n + 1, [], t, _, hn, _, _ => by cases t <;> simp [shared] at hn
  | i, n + 1, c :: s, [], _, hn, _, _ => by simp [shared] at hn
  | i, n + 1, c :: s, d :: t, h, hn, ht, hnul => by
    unfold shared at hn
    split at hn
    · next heq =>
      have hm : m i = d := heq ▸ h.1
      rw [show i + (n + 1) = i + 1 + n by omega] at ht hnul
      rw [strcmp, if_pos hm]
      exact strcmp_beyond h.2 (Nat.le_of_succ_le_succ hn) (fun hmem => ht (List.mem_cons_of_mem _ hmem)) hnul
    · omega

end Strcmp

end FreeProxy.Lib
