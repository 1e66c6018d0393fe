import FreeProxy.Lib.Terminates

/-!
# Commands that may fail without effect

A command `e` acts on the state when its precondition holds (`act e s = some s'`) and is answered
`true`; otherwise it is answered `false` and changes nothing. On top of that any command may not be
executed at all, which looks the same to its caller: `false`, no effect.

* `faulty act`: the semantics in which a choice says whether a command is executed, and `Faulty act`
  its relation.
* `Budget act`: the same with a number of faults that may still happen; `steps_budget` runs any
  pattern of faults on a large enough budget.
* `Completes act p s a s'`: when every command is executed, `p` terminates with `a` in `s'`.

Headlines: `wp_faulty`, `wp_budget`, **`steps_budget`**, **`completes_of_runs`**.
-/

namespace FreeProxy.Lib

variable {E S : Type} {α β : Type} (act : E → S → Option S)

/-- A command that is executed does what it can; one that is not fails without effect. -/
def faulty : Sem E (fun _ => Bool) Bool S := fun e executed s =>
  if executed then
    match act e s with
    | some s' => (true, s')
    | none => (false, s)
  else (false, s)

/-- Success with the effect, or failure without one. -/
def Faulty : Rel E (fun _ => Bool) S := fun e s r s' =>
  (r = true ∧ act e s = some s') ∨ (r = false ∧ s' = s)

/-- A state with the faults that may still happen and the calls made so far. -/
structure Logged (E S : Type) where
  state : S
  faults : Nat
  calls : List (Ev E fun _ => Bool)

/-- Success, failure because the precondition does not hold, or failure by one of the faults. -/
inductive Budget : Rel E (fun _ => Bool) (Logged E S) where
  | success {e : E} {s s' : S} {n : Nat} {tr : List (Ev E fun _ => Bool)} (h : act e s = some s') :
      Budget e ⟨s, n, tr⟩ true ⟨s', n, tr ++ [⟨e, true⟩]⟩
  | failure {e : E} {s : S} {n : Nat} {tr : List (Ev E fun _ => Bool)} (h : act e s = none) :
      Budget e ⟨s, n, tr⟩ false ⟨s, n, tr ++ [⟨e, false⟩]⟩
  | fault {e : E} {s : S} {n : Nat} {tr : List (Ev E fun _ => Bool)} :
      Budget e ⟨s, n + 1, tr⟩ false ⟨s, n, tr ++ [⟨e, false⟩]⟩

/-- `p` terminates with `a` in `s'` when every command is executed. -/
def Completes (p : Prog E (fun _ => Bool) α) (s : S) (a : α) (s' : S) : Prop :=
  ∃ N, ∀ n, N ≤ n → exec (faulty act) (List.replicate n true) p s = (.ret a, s')

variable {act}

theorem faulty_true {e : E} {s s' : S} (h : act e s = some s') :
    faulty act e true s = (true, s') := by
  simp [faulty, h]

theorem faulty_none {e : E} {s : S} (h : act e s = none) (b : Bool) :
    faulty act e b s = (false, s) := by
  cases b <;> simp [faulty, h]

@[simp] theorem faulty_false (e : E) (s : S) : faulty act e false s = (false, s) := rfl

theorem faulty_rel : Sem.rel (faulty act) = Faulty act := by
  funext e s r s'
  apply propext
  constructor
  · rintro ⟨b, h⟩
    cases hact : act e s with
    | none =>
      rw [faulty_none hact, Prod.mk.injEq] at h
      exact Or.inr ⟨h.1.symm, h.2.symm⟩
    | some s₁ =>
      cases b with
      | false =>
        rw [faulty_false, Prod.mk.injEq] at h
        exact Or.inr ⟨h.1.symm, h.2.symm⟩
      | true =>
        rw [faulty_true hact, Prod.mk.injEq] at h
        exact Or.inl ⟨h.1.symm, by rw [hact, h.2]⟩
  · rintro (⟨rfl, h⟩ | ⟨rfl, rfl⟩)
    · exact ⟨true, faulty_true h⟩
    · exact ⟨false, rfl⟩

/-- A command: it acts and succeeds, or it fails and nothing has changed. -/
theorem wp_faulty {I : S → Prop} {e : E} {k : Bool → Prog E (fun _ => Bool) α} {Q : α → S → Prop}
    {s : S} :
    wp (Faulty act) I (.call e k) Q s ↔
      I s ∧ (∀ s', act e s = some s' → wp (Faulty act) I (k true) Q s') ∧
        wp (Faulty act) I (k false) Q s := by
  rw [wp_call]
  refine and_congr Iff.rfl ⟨fun h => ⟨fun s' hs' => h _ _ (.inl ⟨rfl, hs'⟩),
    h _ _ (.inr ⟨rfl, rfl⟩)⟩, ?_⟩
  rintro ⟨ht, hf⟩ r s' (⟨rfl, h⟩ | ⟨rfl, rfl⟩)
  · exact ht s' h
  · exact hf

/-- A run by a pattern of faults that has finished. -/
theorem wp_exec {I : S → Prop} {p : Prog E (fun _ => Bool) α} {Q : α → S → Prop} {s s' : S}
    {cs : List Bool} {a : α} (h : wp (Faulty act) I p Q s)
    (hrun : exec (faulty act) cs p s = (.ret a, s')) : Q a s' := by
  rw [← faulty_rel] at h
  have hexec := (h.exec cs).2 a
  rw [hrun] at hexec
  exact hexec rfl

/-- The same on a budget: a command whose precondition holds fails at the cost of one fault. -/
theorem wp_budget {I : Logged E S → Prop} {e : E} {k : Bool → Prog E (fun _ => Bool) α}
    {Q : α → Logged E S → Prop} {s : S} {n : Nat} {tr : List (Ev E fun _ => Bool)} :
    wp (Budget act) I (.call e k) Q ⟨s, n, tr⟩ ↔
      I ⟨s, n, tr⟩ ∧
        (∀ s', act e s = some s' → wp (Budget act) I (k true) Q ⟨s', n, tr ++ [⟨e, true⟩]⟩) ∧
        (act e s = none → wp (Budget act) I (k false) Q ⟨s, n, tr ++ [⟨e, false⟩]⟩) ∧
        (∀ m, n = m + 1 → wp (Budget act) I (k false) Q ⟨s, m, tr ++ [⟨e, false⟩]⟩) := by
  rw [wp_call]
  refine and_congr Iff.rfl ⟨fun h => ⟨fun s' hs' => h _ _ (.success hs'),
    fun hn => h _ _ (.failure hn), ?_⟩, ?_⟩
  · rintro m rfl
    exact h _ _ .fault
  · rintro ⟨ht, hn, hf⟩ r s' hr
    cases hr with
    | success h => exact ht _ h
    | failure h => exact hn h
    | fault => exact hf _ rfl

/-- A step on a budget is a step. -/
theorem Budget.faulty {e : E} {s s' : Logged E S} {r : Bool} (h : Budget act e s r s') :
    Faulty act e s.state r s'.state := by
  cases h with
  | success h => exact .inl ⟨rfl, h⟩
  | failure | fault => exact .inr ⟨rfl, rfl⟩

/-- **Every pattern of faults is a run on a budget** that has room for its faults. -/
theorem steps_budget : ∀ (cs : List Bool) (p : Prog E (fun _ => Bool) α) (s : S) (n : Nat) (tr),
    cs.count false ≤ n → ∃ m, Steps (Budget act) p ⟨s, n, tr⟩ (trace (faulty act) cs p s)
      (exec (faulty act) cs p s).1
      ⟨(exec (faulty act) cs p s).2, m, tr ++ trace (faulty act) cs p s⟩
  | [], p, s, n, tr, _ => ⟨n, by simpa [trace, exec] using Steps.refl p _⟩
  | c :: cs, p, s, n, tr, h => by
    cases hp : p.next with
    | done a =>
      simp only [exec, trace, hp, List.append_nil]
      exact ⟨n, .refl _ _⟩
    | call e k =>
      simp only [exec, trace, hp]
      obtain ⟨n', hn', hstep⟩ : ∃ n', cs.count false ≤ n' ∧
          Budget act e ⟨s, n, tr⟩ (faulty act e c s).1
            ⟨(faulty act e c s).2, n', tr ++ [⟨e, (faulty act e c s).1⟩]⟩ := by
        cases c with
        | true =>
          refine ⟨n, by simpa using h, ?_⟩
          cases hact : act e s with
          | none => rw [faulty_none hact]; exact .failure hact
          | some s₁ => rw [faulty_true hact]; exact .success hact
        | false =>
          rw [List.count_cons_self] at h
          obtain ⟨n, rfl⟩ : ∃ n', n = n' + 1 := ⟨n - 1, by omega⟩
          exact ⟨n, by omega, .fault⟩
      obtain ⟨m, hm⟩ := steps_budget cs (k (faulty act e c s).1) (faulty act e c s).2 n' _ hn'
      rw [List.append_assoc] at hm
      exact ⟨m, .step hp hstep hm⟩

/-- A run with any faults is a run on a budget of one fault for each of its steps. -/
theorem Faulty.steps_budget {p q : Prog E (fun _ => Bool) α} {s s' : S}
    {tr : List (Ev E fun _ => Bool)} (h : Steps (Faulty act) p s tr q s') :
    ∀ n, tr.length ≤ n → ∀ tr₀, ∃ m, Steps (Budget act) p ⟨s, n, tr₀⟩ tr q ⟨s', m, tr₀ ++ tr⟩ := by
  induction h with
  | refl p s => exact fun n _ tr₀ => ⟨n, by simpa using Steps.refl p _⟩
  | @step p s e k r s₁ tr q s' hp hr _ ih =>
    intro n hn tr₀
    rw [List.length_cons] at hn
    obtain ⟨m, hm⟩ := ih (n - 1) (by omega) (tr₀ ++ [⟨e, r⟩])
    obtain ⟨m', hm'⟩ := ih n (by omega) (tr₀ ++ [⟨e, r⟩])
    rw [List.append_assoc] at hm hm'
    rcases hr with ⟨rfl, hact⟩ | ⟨rfl, rfl⟩
    · exact ⟨m', .step hp (.success hact) hm'⟩
    · obtain ⟨n, rfl⟩ : ∃ n', n = n' + 1 := ⟨n - 1, by omega⟩
      exact ⟨m, .step hp .fault hm⟩

/-- **What holds on every budget holds of every run**, its trace included. -/
theorem steps_of_budget {I : Logged E S → Prop} {p q : Prog E (fun _ => Bool) α}
    {Q : α → Logged E S → Prop} {s s' : S} {tr : List (Ev E fun _ => Bool)}
    (h : ∀ n, wp (Budget act) I p Q ⟨s, n, []⟩) (hs : Steps (Faulty act) p s tr q s') :
    ∃ m, I ⟨s', m, tr⟩ ∧ ∀ a, q.result = some a → Q a ⟨s', m, tr⟩ := by
  obtain ⟨m, hm⟩ := Faulty.steps_budget hs tr.length (Nat.le_refl _) []
  exact ⟨m, h tr.length _ _ _ hm⟩

/-- The same without counting. -/
theorem wp_of_budget {I : S → Prop} {p : Prog E (fun _ => Bool) α} {Q : α → S → Prop} {s : S}
    (h : ∀ n, wp (Budget act) (fun s => I s.state) p (fun a s => Q a s.state) ⟨s, n, []⟩) :
    wp (Faulty act) I p Q s := by
  intro tr q s' hs
  obtain ⟨m, hI, hQ⟩ := steps_of_budget h hs
  exact ⟨hI, hQ⟩

/-- What holds of the runs on a budget holds of every pattern with that many faults. -/
theorem wp_pattern {I : Logged E S → Prop} {p : Prog E (fun _ => Bool) α}
    {Q : α → Logged E S → Prop} {s s' : S} {n : Nat} {cs : List Bool} {a : α}
    (h : wp (Budget act) I p Q ⟨s, n, []⟩) (hcs : cs.count false ≤ n)
    (hrun : exec (faulty act) cs p s = (.ret a, s')) : ∃ m tr, Q a ⟨s', m, tr⟩ := by
  have hsteps : ∃ m, Steps (Budget act) p ⟨s, n, []⟩ _ _ ⟨_, m, _⟩ := steps_budget cs p s n [] hcs
  obtain ⟨m, hm⟩ := hsteps
  rw [hrun] at hm
  exact ⟨m, _, (h _ _ _ hm).2 a rfl⟩

/-- Without faults every step is the one that execution takes. -/
theorem exec_of_steps {p q : Prog E (fun _ => Bool) α} {s s' : Logged E S}
    {tr : List (Ev E fun _ => Bool)} (h : Steps (Budget act) p s tr q s') (hs : s.faults = 0) :
    s'.faults = 0 ∧
      exec (faulty act) (List.replicate tr.length true) p s.state = (q, s'.state) := by
  induction h with
  | refl p s => exact ⟨hs, rfl⟩
  | step hp hr _ ih =>
    rw [List.length_cons, List.replicate_succ, exec_cons hp]
    cases hr with
    | success hact => rw [faulty_true hact]; exact ih hs
    | failure hact => rw [faulty_none hact]; exact ih hs
    | fault => exact absurd hs (Nat.succ_ne_zero _)

/-- **A run without faults is what happens** when every command is executed. -/
theorem completes_of_runs {p : Prog E (fun _ => Bool) α} {s : S} {tr} {s' : Logged E S} {a : α}
    (h : Runs (Budget act) p ⟨s, 0, tr⟩ a s') : Completes act p s a s'.state := by
  obtain ⟨tr', h⟩ := h
  refine ⟨tr'.length, fun n hn => ?_⟩
  obtain ⟨d, rfl⟩ := Nat.exists_eq_add_of_le hn
  rw [List.replicate_add, exec_append, (exec_of_steps h rfl).2, exec_ret]

/-- Execution without faults has one outcome. -/
theorem Completes.unique {p : Prog E (fun _ => Bool) α} {s s₁ s₂ : S} {a b : α}
    (h₁ : Completes act p s a s₁) (h₂ : Completes act p s b s₂) : a = b ∧ s₁ = s₂ := by
  obtain ⟨N, h₁⟩ := h₁
  obtain ⟨M, h₂⟩ := h₂
  have h := (h₁ (max N M) (Nat.le_max_left _ _)).symm.trans (h₂ (max N M) (Nat.le_max_right _ _))
  simpa using h

/-- What happens without faults is all that may happen without faults. -/
theorem wp_of_completes {p : Prog E (fun _ => Bool) α} {s s' : S} {a : α} {tr}
    (h : Completes act p s a s') :
    wp (Budget act) (fun _ => True) p (fun b s => b = a ∧ s.state = s') ⟨s, 0, tr⟩ := by
  intro tr' q t hs
  refine ⟨trivial, fun b hb => ?_⟩
  obtain rfl := Prog.result_eq_some.mp hb
  obtain ⟨rfl, rfl⟩ := h.unique (completes_of_runs ⟨tr', hs⟩)
  exact ⟨rfl, rfl⟩

/-! ### Counting the faults -/

variable (act) in
/-- A state with the number of commands that were not executed so far. -/
def Counted : Rel E (fun _ => Bool) (S × Nat) := fun e s r s' =>
  (r = true ∧ act e s.1 = some s'.1 ∧ s'.2 = s.2) ∨
    (r = false ∧ s'.1 = s.1 ∧ (act e s.1 = none ∧ s'.2 = s.2 ∨ s'.2 = s.2 + 1))

theorem Counted.faulty {e : E} {s s' : S × Nat} {r : Bool} (h : Counted act e s r s') :
    Faulty act e s.1 r s'.1 :=
  h.imp (fun h => ⟨h.1, h.2.1⟩) fun h => ⟨h.1, h.2.1⟩

theorem counted_faulty (e : E) (executed : Bool) (s : S) (n : Nat) :
    Counted act e (s, n) (faulty act e executed s).1
      ((faulty act e executed s).2, if executed then n else n + 1) := by
  cases executed with
  | false => exact .inr ⟨rfl, rfl, .inr rfl⟩
  | true =>
    cases hact : act e s with
    | none =>
      rw [faulty_none hact]
      exact .inr ⟨rfl, rfl, .inl ⟨hact, rfl⟩⟩
    | some s' =>
      rw [faulty_true hact]
      exact .inl ⟨rfl, hact, rfl⟩

/-- **When nothing has been counted, every command was executed.** -/
theorem steps_counted {p q : Prog E (fun _ => Bool) α} {s s' : S × Nat}
    {tr : List (Ev E fun _ => Bool)} (h : Steps (Counted act) p s tr q s') : s.2 ≤ s'.2 ∧
      (s'.2 = s.2 → ∀ tr₀, Steps (Budget act) p ⟨s.1, 0, tr₀⟩ tr q ⟨s'.1, 0, tr₀ ++ tr⟩) := by
  induction h with
  | refl p s =>
    refine ⟨Nat.le_refl _, fun _ tr₀ => ?_⟩
    rw [List.append_nil]
    exact .refl p _
  | @step p s e k r s₁ tr q s' hp hr _ ih =>
    obtain ⟨hle, hrest⟩ := ih
    rcases hr with ⟨rfl, hact, hn⟩ | ⟨rfl, hs, ⟨hnone, hn⟩ | hn⟩
    · refine ⟨hn ▸ hle, fun heq tr₀ => .step hp (.success hact) ?_⟩
      have hsteps := hrest (heq.trans hn.symm) (tr₀ ++ [⟨e, true⟩])
      rwa [List.append_assoc] at hsteps
    · refine ⟨hn ▸ hle, fun heq tr₀ => .step hp (.failure hnone) ?_⟩
      have hsteps := hrest (heq.trans hn.symm) (tr₀ ++ [⟨e, false⟩])
      rwa [List.append_assoc, hs] at hsteps
    · exact ⟨by omega, fun heq => absurd heq (by omega)⟩

theorem wp_counted {p : Prog E (fun _ => Bool) α} {s s' : S} {a : α} (h : Completes act p s a s')
    (n : Nat) : wp (Counted act) (fun _ => True) p
      (fun b t => n ≤ t.2 ∧ (t.2 = n → b = a ∧ t.1 = s')) (s, n) := by
  intro tr q t hs
  refine ⟨trivial, fun b hb => ?_⟩
  obtain rfl := Prog.result_eq_some.mp hb
  obtain ⟨hle, hbudget⟩ := steps_counted hs
  refine ⟨hle, fun heq => ?_⟩
  obtain ⟨rfl, rfl⟩ := h.unique (completes_of_runs ⟨tr, hbudget heq []⟩)
  exact ⟨rfl, rfl⟩

/-! ### Completion along the constructors -/

theorem Completes.ret (a : α) (s : S) : Completes act (.ret a) s a s :=
  ⟨0, fun n _ => exec_ret (List.replicate n true) a s⟩

theorem Completes.runs_budget {p : Prog E (fun _ => Bool) α} {s s' : S} {a : α}
    (h : Completes act p s a s') (tr) :
    ∃ tr', Runs (Budget act) p ⟨s, 0, tr⟩ a ⟨s', 0, tr'⟩ := by
  obtain ⟨N, h⟩ := h
  have hN := h N (Nat.le_refl _)
  have hcount : (List.replicate N true).count false ≤ 0 := by simp [List.count_replicate]
  have hsteps : ∃ m, Steps (Budget act) p ⟨s, 0, tr⟩ _ _ ⟨_, m, _⟩ :=
    steps_budget (List.replicate N true) p s 0 tr hcount
  obtain ⟨m, hm⟩ := hsteps
  have hm0 : m = 0 := (exec_of_steps hm rfl).1
  rw [hN, hm0] at hm
  exact ⟨_, _, hm⟩

theorem Completes.bind {p : Prog E (fun _ => Bool) α} {f : α → Prog E (fun _ => Bool) β}
    {s s₁ s' : S} {a : α} {b : β} (h : Completes act p s a s₁) (h' : Completes act (f a) s₁ b s') :
    Completes act (p.bind f) s b s' := by
  obtain ⟨tr, hr⟩ := h.runs_budget []
  obtain ⟨tr', hr'⟩ := h'.runs_budget tr
  exact completes_of_runs (hr.bind hr')

theorem Completes.next_true {p : Prog E (fun _ => Bool) α} {e : E}
    {k : Bool → Prog E (fun _ => Bool) α} {s s₁ s' : S} {a : α} (hp : p.next = .call e k)
    (hact : act e s = some s₁) (h : Completes act (k true) s₁ a s') : Completes act p s a s' := by
  obtain ⟨N, h⟩ := h
  refine ⟨N + 1, fun n hn => ?_⟩
  obtain ⟨n, rfl⟩ : ∃ n', n = n' + 1 := ⟨n - 1, by omega⟩
  rw [List.replicate_succ, exec_cons hp, faulty_true hact]
  exact h n (by omega)

theorem Completes.next_false {p : Prog E (fun _ => Bool) α} {e : E}
    {k : Bool → Prog E (fun _ => Bool) α} {s s' : S} {a : α} (hp : p.next = .call e k)
    (hact : act e s = none) (h : Completes act (k false) s a s') : Completes act p s a s' := by
  obtain ⟨N, h⟩ := h
  refine ⟨N + 1, fun n hn => ?_⟩
  obtain ⟨n, rfl⟩ : ∃ n', n = n' + 1 := ⟨n - 1, by omega⟩
  rw [List.replicate_succ, exec_cons hp, faulty_none hact]
  exact h n (by omega)

theorem Completes.all_nil (s : S) : Completes act (Prog.all []) s 0 s := Completes.ret 0 s

theorem Completes.all_cons {p : Prog E (fun _ => Bool) Int} {ps : List (Prog E (fun _ => Bool) Int)}
    {s s₁ s' : S} (h : Completes act p s 0 s₁) (h' : Completes act (Prog.all ps) s₁ 0 s') :
    Completes act (Prog.all (p :: ps)) s 0 s' :=
  h.bind (by simpa using h')

/-- A completed execution is a run. -/
theorem Completes.runs {p : Prog E (fun _ => Bool) α} {s s' : S} {a : α}
    (h : Completes act p s a s') : Runs (Faulty act) p s a s' := by
  obtain ⟨tr, tr', hs⟩ := h.runs_budget []
  exact ⟨_, hs.map Logged.state fun _ _ _ _ => Budget.faulty⟩

end FreeProxy.Lib
