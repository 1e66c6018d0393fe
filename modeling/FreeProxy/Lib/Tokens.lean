import Mathlib.Data.List.Basic

/-!
# Tokens

`strtok d s` cuts the first token off a text, as C's `strtok_r` with one delimiter: delimiters in front are
skipped, and the one behind the token is dropped. `tokens d s` are all of them. A `Word` can be a token.

Headline: **`tokens_words`**, words with a delimiter before each are the tokens.
-/

namespace FreeProxy.Lib

variable {α : Type*} [DecidableEq α]

/-- The first token, and what is left. -/
def strtok (d : α) (s : List α) : Option (List α × List α) :=
  let s := s.dropWhile (· == d)
  if s = [] then none else some (s.takeWhile (· != d), (s.dropWhile (· != d)).tail)

/-- A token can be any text that is not empty and has no delimiter. -/
def Word (d : α) (w : List α) : Prop := w ≠ [] ∧ d ∉ w

variable {d : α} {s t w rest : List α}

theorem strtok_eq_some (h : strtok d s = some (t, rest)) : rest.length < s.length := by
  simp only [strtok] at h
  split at h
  · cases h
  · rename_i hne
    obtain ⟨-, rfl⟩ := Prod.mk.inj (Option.some.inj h)
    have hskip := (List.dropWhile_suffix (l := s) (· == d)).length_le
    have htoken := (List.dropWhile_suffix (l := s.dropWhile (· == d)) (· != d)).length_le
    have hpos := List.length_pos_of_ne_nil hne
    rw [List.length_tail]
    omega

/-- All the tokens, as repeated calls of `strtok_r` give them. -/
def tokens (d : α) (s : List α) : List (List α) :=
  match _h : strtok d s with
  | none => []
  | some (token, rest) => token :: tokens d rest
termination_by s.length
decreasing_by exact strtok_eq_some _h

theorem tokens_of_some (h : strtok d s = some (t, rest)) : tokens d s = t :: tokens d rest := by
  rw [tokens]
  split
  · simp_all
  · simp_all

theorem tokens_of_none (h : strtok d s = none) : tokens d s = [] := by
  rw [tokens]
  split
  · rfl
  · simp_all

/-- Delimiters in front are skipped. -/
theorem tokens_skip : tokens d (d :: s) = tokens d s := by
  have hskip : strtok d (d :: s) = strtok d s := by
    have hdrop : (d :: s).dropWhile (· == d) = s.dropWhile (· == d) :=
      List.dropWhile_cons_of_pos (beq_self_eq_true d)
    unfold strtok
    rw [hdrop]
  cases hs : strtok d s with
  | none => rw [tokens_of_none hs, tokens_of_none (hskip.trans hs)]
  | some token => rw [tokens_of_some hs, tokens_of_some (hskip.trans hs)]

theorem Word.ne_of_mem {c : α} (hw : Word d w) (hc : c ∈ w) : (c != d) = true := by
  rw [bne_iff_ne]
  rintro rfl
  exact hw.2 hc

/-- A word in front is the beginning of the first token. -/
theorem tokens_append (hw : Word d w) :
    tokens d (w ++ s) = (w ++ s.takeWhile (· != d)) :: tokens d (s.dropWhile (· != d)).tail := by
  have hne : w ++ s ≠ [] := List.append_ne_nil_of_left_ne_nil hw.1 s
  have hskip : (w ++ s).dropWhile (· == d) = w ++ s := by
    obtain ⟨c, w, rfl⟩ := List.exists_cons_of_ne_nil hw.1
    have hc := hw.ne_of_mem List.mem_cons_self
    rw [List.cons_append, List.dropWhile_cons_of_neg (by simpa using hc)]
  refine tokens_of_some ?_
  unfold strtok
  rw [hskip, if_neg hne, List.takeWhile_append_of_pos fun c hc => hw.ne_of_mem hc,
    List.dropWhile_append_of_pos fun c hc => hw.ne_of_mem hc]

theorem tokens_word (hw : Word d w) : tokens d (w ++ d :: s) = w :: tokens d s := by
  rw [tokens_append hw, List.takeWhile_cons_of_neg (by simp), List.dropWhile_cons_of_neg (by simp),
    List.append_nil, List.tail_cons]

/-- **Words with a delimiter before each** are the tokens, and then come those of the rest. -/
theorem tokens_words : ∀ {ws : List (List α)}, (∀ w ∈ ws, Word d w) →
    tokens d (ws.flatMap (d :: ·) ++ d :: s) = ws ++ tokens d s
  | [], _ => tokens_skip
  | w :: ws, h => by
    have ih : tokens d (ws.flatMap (d :: ·) ++ d :: s) = ws ++ tokens d s :=
      tokens_words fun w' hw' => h w' (List.mem_cons_of_mem _ hw')
    obtain ⟨t, ht⟩ : ∃ t, ws.flatMap (d :: ·) ++ d :: s = d :: t := by
      cases ws with
      | nil => exact ⟨_, rfl⟩
      | cons w' ws => exact ⟨_, rfl⟩
    rw [ht, tokens_skip] at ih
    rw [List.flatMap_cons, List.cons_append, List.cons_append, List.append_assoc, ht, tokens_skip,
      tokens_word (h w List.mem_cons_self), ih, List.cons_append]

end FreeProxy.Lib
