import FreeProxy.Firewall.Spec

/-!
# What `fp_firewall_enable` does

`Building c t s` says what the table may be while `fp_firewall_enable(c)` runs from `t`, its
rollback included: `OUTPUT` has at most lost jumps, and the chain is the old one, as long as no
flush has succeeded, or `Safe`: absent or a prefix of the rules of `c`. `Enabled c t s` is what a
success leaves behind.

* **`wp_enable`**: the rule of the function. The rollback is left to the user of the rule, since
  what it is worth depends on whether faults may still happen.
* **`wp_enable_log`**, **`wp_enable_ipt`**: the rule instantiated with the rollback as it is.
* **`wp_enable_single`**: a failure after one fault undoes everything.
* **`completes_enable`**: success when every command is executed, from every table.
-/

namespace FreeProxy

open Lib

/-- The chain is absent or a prefix of the rules of `c`. -/
def Table.Safe (c : Config) (t : Table) : Prop := ∀ l, t.chain = some l → l <+: c.rules

/-- A table that `fp_firewall_enable(c)` may leave behind on its way from `t`. -/
structure Building (c : Config) (t : Table) (s : IptLog) : Prop where
  output : s.state.output.Sublist t.output
  others : s.state.others = t.others
  chain : (s.state.chain = t.chain ∧ ⟨.flushChain, true⟩ ∉ s.calls) ∨ s.state.Safe c

/-- A table that a successful `fp_firewall_enable(c)` makes of `t`. -/
structure Enabled (c : Config) (t t' : Table) : Prop where
  chain : t'.chain = some c.rules
  others : t'.others = t.others
  output : (.jump ∈ t.output ∧ t'.output = t.output) ∨ t'.output = .jump :: t.output

theorem Table.safe_of_isPrefix {c : Config} {t : Table} {l : List Rule} (hc : t.chain = some l)
    (hl : l <+: c.rules) : t.Safe c := by
  intro m hm
  rwa [← Option.some.inj (hc.symm.trans hm)]

theorem Table.safe_of_none {c : Config} {t : Table} (h : t.chain = none) : t.Safe c := by
  intro l hl
  simp [h] at hl

theorem Enabled.jump_mem {c : Config} {t t' : Table} (h : Enabled c t t') : .jump ∈ t'.output := by
  rcases h.output with ⟨hj, ho⟩ | ho
  · rwa [ho]
  · rw [ho]; exact List.mem_cons_self

theorem Enabled.shows {c : Config} {t t' : Table} (h : Enabled c t t') : t'.Shows c :=
  ⟨h.jump_mem, c.rules, h.chain, fun _ hr => hr⟩

/-- The removing commands keep `Building`. -/
theorem building_removes {c : Config} {t : Table} {e : Cmd} {s s' : IptLog} {r : Bool}
    (he : e.Removes) (h : Building c t s) (hr : Budget act e s r s') : Building c t s' := by
  have hquiet : ∀ {b : Bool} {tr : List (Ev Cmd fun _ => Bool)}, (e ≠ .flushChain ∨ b = false) →
      ⟨.flushChain, true⟩ ∉ tr → (⟨.flushChain, true⟩ : Ev Cmd fun _ => Bool) ∉ tr ++ [⟨e, b⟩] := by
    intro b tr hb htr hm
    rcases List.mem_append.mp hm with hm | hm
    · exact htr hm
    · obtain ⟨rfl, hbt⟩ := Sigma.mk.inj (List.mem_singleton.mp hm)
      rcases hb with hb | rfl
      · exact hb rfl
      · exact absurd (eq_of_heq hbt) (by decide)
  obtain ⟨ho, hoth, hc⟩ := h
  cases hr with
  | @success _ s₀ s₁ n tr hact =>
    obtain ⟨ho', hc'⟩ := act_removes he hact
    refine ⟨ho'.trans ho, (act_user hact).2.trans hoth, ?_⟩
    rcases hc' with hc' | ⟨rfl, hc'⟩ | hc'
    · by_cases hf : e = .flushChain
      · subst hf
        obtain ⟨-, rfl⟩ := act_flushChain.mp hact
        exact .inr (Table.safe_of_isPrefix (Table.setChain_chain _ _) (List.nil_prefix))
      · rcases hc with ⟨hc, hn⟩ | hc
        · exact .inl ⟨hc'.trans hc, hquiet (.inl hf) hn⟩
        · refine .inr fun l hl => hc l ?_
          rwa [← hc']
    · exact .inr (Table.safe_of_isPrefix hc' List.nil_prefix)
    · exact .inr (Table.safe_of_none hc')
  | failure hact =>
    exact ⟨ho, hoth, hc.imp_left fun ⟨hc, hn⟩ => ⟨hc, hquiet (.inr rfl) hn⟩⟩
  | fault => exact ⟨ho, hoth, hc.imp_left fun ⟨hc, hn⟩ => ⟨hc, hquiet (.inr rfl) hn⟩⟩

theorem fpFirewallEnable_eq (c : Config) : fpFirewallEnable c =
    ensureChain.bind fun created => if created = 0 then
      (runIptables .flushChain).bind (fun flushed =>
        if flushed = 0 then ruleCommands .append (fixedRules c) else .ret (-1)) |>.bind fun excluded =>
      if excluded = 0 then
        (ruleCommands .append (bypassRules c)).bind fun bypassed => if bypassed = 0 then
          (runIptables (.rule .append redirectRule)).bind fun redirected => if redirected = 0 then
            ensureJump.bind fun jump => if jump = 0 then .ret 0 else rollback
          else rollback
        else rollback
      else rollback
    else .ret (-1) := by
  unfold fpFirewallEnable
  simp only [Prog.bind_eq, Prog.pure_eq, bypass_commands, ite_not, ne_eq]
  rfl

/-! ### What a success shows -/

section Success

variable {S : Type} {rel : Rel Cmd (fun _ => Bool) S} {I : S → Prop} {P : List Rule → S → Prop}
  {Q : S → Prop} {s : S}

theorem wp_success {e : Cmd} (hs : I s) (h : ∀ r s', rel e s r s' → I s' ∧ (r = true → Q s')) :
    wp rel I (runIptables e) (fun code s' => code = 0 → Q s') s := by
  refine wp_bind.mpr (wp_ask.mpr ⟨hs, fun exited s' hs' => ⟨(h exited s' hs').1, ?_⟩⟩)
  cases exited with
  | true => exact wp_ret.mpr ⟨(h true s' hs').1, fun _ => (h true s' hs').2 rfl⟩
  | false => exact wp_ret.mpr ⟨(h false s' hs').1, by simp⟩

theorem wp_appends_success {c : Config}
    (happend : ∀ l spec r a s s', spec.parse = some r → l ++ [r] <+: c.rules → I s → P l s →
      rel (.rule .append spec) s a s' → I s' ∧ (a = true → P (l ++ [r]) s'))
    (xs : List (RuleSpec × Rule)) (hp : ∀ x ∈ xs, x.1.parse = some x.2) {l : List Rule}
    (hl : l ++ xs.map Prod.snd <+: c.rules) (hI : I s) (hs : P l s) :
    wp rel I (ruleCommands .append xs)
      (fun code s' => code = 0 → P (l ++ xs.map Prod.snd) s') s := by
  refine wp_all (fun x : RuleSpec × Rule => runIptables (.rule .append x.1))
    (fun zs s => P (l ++ zs.map Prod.snd) s) ?_ (fun _ h _ => h) hI (by simpa using hs)
  rintro zs x ys rfl s hIs hzs
  have hx := hp x (List.mem_append_right _ List.mem_cons_self)
  have hpre : (l ++ zs.map Prod.snd) ++ [x.2] <+: c.rules := by
    refine List.IsPrefix.trans ⟨ys.map Prod.snd, ?_⟩ hl
    simp
  have hcall := wp_success (Q := P ((l ++ zs.map Prod.snd) ++ [x.2])) hIs fun a s' hs' =>
    happend _ x.1 x.2 a s s' hx hpre hIs hzs hs'
  refine hcall.mono (fun _ h => h) ?_
  intro code s' h
  by_cases h0 : code = 0
  · rw [if_pos h0, List.map_append, List.map_singleton, ← List.append_assoc]
    exact h h0
  · rw [if_neg h0]
    exact fun h => absurd h (by decide)

/-- **What a success of `fp_firewall_enable(c)` shows**, in any semantics of the commands: `P l` holds
when the chain has been flushed and the rules `l` were appended, `Q` when the jump is there as well.
What the commands keep holds all the time (`I`). -/
theorem wp_enable_success (c : Config) {A : S → Prop}
    (hchain : wp rel I ensureChain (fun _ s' => A s') s)
    (hremoves : ∀ e s r s', e.Removes → I s → rel e s r s' → I s')
    (hflush : ∀ s s', A s → rel .flushChain s true s' → P [] s')
    (happend : ∀ l spec r a s s', spec.parse = some r → l ++ [r] <+: c.rules → I s → P l s →
      rel (.rule .append spec) s a s' → I s' ∧ (a = true → P (l ++ [r]) s'))
    (hjump : ∀ s, I s → P c.rules s → wp rel I ensureJump (fun code s' => code = 0 → Q s') s) :
    wp rel I (fpFirewallEnable c) (fun code s' => code = 0 → Q s') s := by
  have hfail : ∀ s, I s → wp rel I (.ret (-1) : Fw Int) (fun code s' => code = 0 → Q s') s :=
    fun _ hs => wp_ret.mpr ⟨hs, by simp⟩
  have hroll : ∀ s, I s → wp rel I rollback (fun code s' => code = 0 → Q s') s := fun s hs =>
    wp_seq (wp_calls calls_disable hremoves hs) (fun _ h => h) fun _ s' hs' _ => hfail s' hs'
  -- what is appended so far is a prefix of the rules
  have hfirst : (fixedRules c).map Prod.snd ++ (bypassRules c).map Prod.snd <+: c.rules := by
    rw [rules_eq]
    exact List.prefix_append _ _
  rw [fpFirewallEnable_eq]
  refine wp_seq hchain (fun _ h => h) fun created s₁ hI₁ h₁ => ?_
  split
  swap
  · exact hfail s₁ hI₁
  have hfixed : wp rel I ((runIptables .flushChain).bind fun flushed =>
      if flushed = 0 then ruleCommands .append (fixedRules c) else .ret (-1))
      (fun code s' => code = 0 → P ((fixedRules c).map Prod.snd) s') s₁ := by
    have hcall := wp_success (Q := P []) hI₁ fun r s' hs' =>
      ⟨hremoves .flushChain s₁ r s' trivial hI₁ hs', fun h => hflush s₁ s' h₁ (h ▸ hs')⟩
    refine wp_seq hcall (fun _ h => h) fun flushed s₂ hI₂ h₂ => ?_
    split
    · rename_i h0
      refine wp_appends_success happend (fixedRules c) fixedRules_parse ?_ hI₂ (h₂ h0)
      exact (List.prefix_append _ _).trans hfirst
    · exact wp_ret.mpr ⟨hI₂, by simp⟩
  refine wp_seq hfixed (fun _ h => h) fun excluded s₂ hI₂ h₂ => ?_
  split
  swap
  · exact hroll s₂ hI₂
  rename_i h0
  have hbypass := wp_appends_success happend _ bypassRules_parse hfirst hI₂ (h₂ h0)
  refine wp_seq hbypass (fun _ h => h) fun bypassed s₃ hI₃ h₃ => ?_
  split
  swap
  · exact hroll s₃ hI₃
  rename_i h0
  have hlast := wp_success hI₃ fun r s' hs' =>
    happend _ _ _ r s₃ s' redirectRule_parse (by rw [rules_eq]) hI₃ (h₃ h0) hs'
  refine wp_seq hlast (fun _ h => h) ?_
  intro redirected s₄ hI₄ h₄
  split
  swap
  · exact hroll s₄ hI₄
  rename_i h0
  have hrules := h₄ h0
  rw [← rules_eq] at hrules
  refine wp_seq (hjump s₄ hI₄ hrules) (fun _ h => h) fun jump s₅ hI₅ h₅ => ?_
  split
  · rename_i h0
    exact wp_ret.mpr ⟨hI₅, fun _ => h₅ h0⟩
  · exact hroll s₅ hI₅

end Success

theorem terminates_rollback (t : Table) : Terminates Ipt rollback t :=
  (terminates_disable t).bind fun _ t' _ => .ret (-1) t'

/-- Whatever fails, an enable comes to its end. -/
theorem terminates_enable (c : Config) (t : Table) : Terminates Ipt (fpFirewallEnable c) t := by
  have hchain : ensureChain.LoopFree := by
    refine loopFree_chainExists.bind fun present => ?_
    split
    · trivial
    · exact loopFree_runIptables _
  have hjump : ensureJump.LoopFree := by
    refine (loopFree_runIptables _).bind fun present => ?_
    split
    · trivial
    · exact loopFree_runIptables _
  have hbypass : (Prog.all (c.bypass.map fun b => bypassRule .append b.text)).LoopFree := by
    refine loopFree_all fun p hp => ?_
    obtain ⟨b, -, rfl⟩ := List.mem_map.mp hp
    exact loopFree_runIptables _
  refine (hchain.terminates t).bind fun created t₁ _ => ?_
  split
  · exact .ret (-1) t₁
  refine ((loopFree_commands [.flushChain, .rule .append (proxyRule c),
    .rule .append loopbackRule]).terminates t₁).bind fun excluded t₂ _ => ?_
  split
  · exact terminates_rollback t₂
  refine (hbypass.terminates t₂).bind fun bypassed t₃ _ => ?_
  split
  · exact terminates_rollback t₃
  refine ((loopFree_runIptables _).terminates t₃).bind fun redirected t₄ _ => ?_
  split
  · exact terminates_rollback t₄
  refine (hjump.terminates t₄).bind fun jump t₅ _ => ?_
  split
  · exact terminates_rollback t₅
  · exact .ret 0 t₅

section Enable

variable {c : Config} {t : Table} {n : Nat} {I : IptLog → Prop}

/-- The chain holds `l`, the rest of the table is that of `t`. -/
structure Held (t : Table) (n : Nat) (l : List Rule) (s : IptLog) : Prop where
  chain : s.state.chain = some l
  output : s.state.output = t.output
  others : s.state.others = t.others
  faults : s.faults ≤ n

/-- Where the rollback starts: a fault has happened, `OUTPUT` is as it was. -/
structure Broken (c : Config) (t : Table) (n : Nat) (s : IptLog) : Prop where
  building : Building c t s
  output : s.state.output = t.output
  faults : s.faults < n

theorem Held.building {l : List Rule} {s : IptLog} (h : Held t n l s) (hl : l <+: c.rules) :
    Building c t s :=
  ⟨h.output ▸ .refl _, h.others, .inr (Table.safe_of_isPrefix h.chain hl)⟩

theorem wp_ensureChain (hI : ∀ s, Building c t s → I s) :
    wp (Budget act) I ensureChain
      (fun code s => if code = 0 then
          Building c t s ∧ s.state.output = t.output ∧ s.state.chain ≠ none ∧ s.faults ≤ n
        else code = -1 ∧ s.state = t ∧ s.faults < n) ⟨t, n, []⟩ := by
  -- no flush is among the commands of `ensureChain`
  have hb : ∀ m (tr : List (Ev Cmd fun _ => Bool)), (∀ x ∈ tr, x.1 ≠ .flushChain) →
      Building c t ⟨t, m, tr⟩ :=
    fun m tr htr => ⟨.refl _, rfl, .inl ⟨rfl, fun h => htr _ h rfl⟩⟩
  have hprog : ensureChain = (runIptables .listChain).bind fun status =>
      if (status == 0) = true then .ret 0 else runIptables .newChain := rfl
  have hcreated : ∀ m (tr : List (Ev Cmd fun _ => Bool)), Building c t ⟨t.setChain [], m, tr⟩ :=
    fun m tr => ⟨.refl _, rfl, .inr (Table.safe_of_isPrefix rfl List.nil_prefix)⟩
  rw [hprog, wp_bind, wp_runIptables]
  refine ⟨hI _ (hb _ _ (by simp)), ?_, ?_, ?_⟩
  · intro t' h
    obtain ⟨hc, rfl⟩ := act_listChain.mp h
    have hb' := hb n [⟨.listChain, true⟩] (by simp)
    exact ⟨hI _ hb', wp_ret.mpr ⟨hI _ hb', by simpa using ⟨hb', hc⟩⟩⟩
  · intro h
    have hc := act_listChain_none.mp h
    have hb' := hb n [⟨.listChain, false⟩] (by simp)
    refine ⟨hI _ hb', wp_runIptables.mpr ⟨hI _ hb', ?_, ?_, ?_⟩⟩
    · intro t' h
      obtain ⟨-, rfl⟩ := act_newChain.mp h
      exact ⟨hI _ (hcreated _ _), by simpa using hcreated _ _⟩
    · intro hn
      exact absurd ((act_newChain (t := t)).mpr ⟨hc, rfl⟩) (by simp [hn])
    · rintro m rfl
      exact ⟨hI _ (hb _ _ (by simp)), by simp⟩
  · rintro m rfl
    have hb' := hb m [⟨.listChain, false⟩] (by simp)
    refine ⟨hI _ hb', wp_runIptables.mpr ⟨hI _ hb', ?_, ?_, ?_⟩⟩
    · intro t' h
      obtain ⟨-, rfl⟩ := act_newChain.mp h
      refine ⟨hI _ (hcreated _ _), ?_⟩
      simpa using hcreated _ _
    · intro _
      exact ⟨hI _ (hb _ _ (by simp)), by simp⟩
    · rintro k rfl
      refine ⟨hI _ (hb _ _ (by simp)), ?_⟩
      rw [if_neg (by decide)]
      exact ⟨rfl, rfl, by simp only; omega⟩

/-- One rule is appended, or a fault has happened. -/
theorem wp_append (hI : ∀ s, Building c t s → I s) {spec : RuleSpec} {r : Rule} {l : List Rule}
    {s : IptLog} (hp : spec.parse = some r) (hl : l ++ [r] <+: c.rules) (hs : Held t n l s) :
    wp (Budget act) I (runIptables (.rule .append spec))
      (fun code s => if code = 0 then Held t n (l ++ [r]) s else Broken c t n s) s := by
  obtain ⟨t₁, m, tr⟩ := s
  obtain ⟨hc, ho, hoth, hm⟩ := hs
  simp only at hc ho hoth hm
  have hl' : l <+: c.rules := (List.prefix_append l [r]).trans hl
  have hbuild : ∀ k tr, k ≤ n → Building c t ⟨t₁, k, tr⟩ := fun k tr hk =>
    Held.building ⟨hc, ho, hoth, hk⟩ hl'
  have hact : act (.rule .append spec) t₁ = some (t₁.setChain (l ++ [r])) :=
    act_append.mpr ⟨l, r, hc, hp, rfl⟩
  refine wp_runIptables.mpr ⟨hI _ (hbuild m tr hm), ?_, ?_, ?_⟩
  · intro t' h
    obtain rfl := Option.some.inj (hact.symm.trans h)
    have hheld : Held t n (l ++ [r])
        ⟨t₁.setChain (l ++ [r]), m, tr ++ [⟨.rule .append spec, true⟩]⟩ := ⟨rfl, ho, hoth, hm⟩
    exact ⟨hI _ (hheld.building hl), by simpa using hheld⟩
  · intro h
    rw [hact] at h
    simp at h
  · rintro k rfl
    have hb := hbuild k (tr ++ [⟨.rule .append spec, false⟩]) (by omega)
    exact ⟨hI _ hb, by simpa using ⟨hb, ho, hm⟩⟩

theorem wp_appends (hI : ∀ s, Building c t s → I s) (xs : List (RuleSpec × Rule)) (l : List Rule)
    (s : IptLog) (hp : ∀ x ∈ xs, x.1.parse = some x.2) (hl : l ++ xs.map Prod.snd <+: c.rules)
    (hs : Held t n l s) :
    wp (Budget act) I (ruleCommands .append xs)
      (fun code s => if code = 0 then Held t n (l ++ xs.map Prod.snd) s else Broken c t n s) s := by
  have hl₀ : l <+: c.rules := (List.prefix_append _ _).trans hl
  refine wp_all (fun x : RuleSpec × Rule => runIptables (.rule .append x.1))
    (fun zs s => Held t n (l ++ zs.map Prod.snd) s) ?_ (fun _ h => h) (hI _ (hs.building hl₀))
    (by simpa using hs)
  rintro zs x ys rfl s - hzs
  -- what has been appended and this rule are a prefix of the whole
  have hx : l ++ zs.map Prod.snd ++ [x.2] <+: c.rules := by
    refine List.IsPrefix.trans ?_ hl
    rw [List.map_append, List.map_cons, List.append_assoc, List.prefix_append_right_inj,
      List.prefix_append_right_inj]
    exact ⟨_, rfl⟩
  rw [List.map_append, List.map_singleton, ← List.append_assoc]
  exact wp_append hI (hp x (by simp)) hx hzs

/-- The flush and the exclusions before the bypass list. -/
theorem wp_fixed (hI : ∀ s, Building c t s → I s) {s : IptLog} (hb : Building c t s)
    (ho : s.state.output = t.output) (hc : s.state.chain ≠ none) (hn : s.faults ≤ n) :
    wp (Budget act) I ((runIptables .flushChain).bind fun flushed =>
        if flushed = 0 then ruleCommands .append (fixedRules c) else .ret (-1))
      (fun code s => if code = 0 then Held t n ((fixedRules c).map Prod.snd) s
        else Broken c t n s) s := by
  obtain ⟨t₁, m, tr⟩ := s
  have hfix : (fixedRules c).map Prod.snd <+: c.rules := by
    rw [rules_eq, List.append_assoc]
    exact List.prefix_append _ _
  rw [wp_bind, wp_runIptables]
  refine ⟨hI _ hb, ?_, ?_, ?_⟩
  · intro t' h
    obtain ⟨-, rfl⟩ := act_flushChain.mp h
    have hheld : Held t n [] ⟨t₁.setChain [], m, tr ++ [⟨.flushChain, true⟩]⟩ :=
      ⟨rfl, ho, hb.others, hn⟩
    exact ⟨hI _ (hheld.building List.nil_prefix),
      wp_appends hI (fixedRules c) [] _ fixedRules_parse hfix hheld⟩
  · intro h
    exact absurd (act_flushChain.mpr ⟨hc, rfl⟩) (by simp [h])
  · rintro k rfl
    have hb' : Building c t ⟨t₁, k, tr ++ [⟨.flushChain, false⟩]⟩ :=
      ⟨hb.output, hb.others, hb.chain.imp_left fun ⟨hc, hf⟩ => ⟨hc, by simpa using hf⟩⟩
    refine ⟨hI _ hb', wp_ret.mpr ⟨hI _ hb', ?_⟩⟩
    simpa using ⟨hb', ho, hn⟩

theorem wp_ensureJump (hI : ∀ s, Building c t s → I s) (hdone : ∀ s : IptLog,
    Enabled c t s.state → I s) {s : IptLog} (hs : Held t n c.rules s) :
    wp (Budget act) I ensureJump
      (fun code s => if code = 0 then Enabled c t s.state else Broken c t n s) s := by
  obtain ⟨t₁, m, tr⟩ := s
  obtain ⟨hc, ho, hoth, hm⟩ := hs
  simp only at hc ho hoth hm
  have hbuild : ∀ k tr, k ≤ n → Building c t ⟨t₁, k, tr⟩ := fun k tr hk =>
    Held.building ⟨hc, ho, hoth, hk⟩ (List.prefix_refl _)
  have hprog : ensureJump = (runIptables .checkJump).bind fun status =>
      if status = 0 then .ret 0 else runIptables .insertJump := rfl
  have hinsert : ∀ k tr, k ≤ n → wp (Budget act) I (runIptables .insertJump)
      (fun code s => if code = 0 then Enabled c t s.state else Broken c t n s) ⟨t₁, k, tr⟩ := by
    intro k tr hk
    have hne : t₁.chain ≠ none := by simp [hc]
    refine wp_runIptables.mpr ⟨hI _ (hbuild k tr hk), ?_, ?_, ?_⟩
    · intro t' h
      obtain ⟨_, rfl⟩ := act_insertJump.mp h
      have hen : Enabled c t (t₁.addJump hne) := ⟨hc, hoth, .inr (by rw [Table.addJump_output, ho])⟩
      exact ⟨hdone _ hen, by simpa using hen⟩
    · intro h
      exact absurd (act_insertJump.mpr ⟨hne, rfl⟩) (by simp [h])
    · rintro j rfl
      have hb := hbuild j (tr ++ [⟨.insertJump, false⟩]) (by omega)
      exact ⟨hI _ hb, by simpa using ⟨hb, ho, hk⟩⟩
  rw [hprog, wp_bind, wp_runIptables]
  refine ⟨hI _ (hbuild m tr hm), ?_, ?_, ?_⟩
  · intro t' h
    obtain ⟨hj, rfl⟩ := act_checkJump.mp h
    have hb := hbuild m (tr ++ [⟨.checkJump, true⟩]) hm
    have hen : Enabled c t t' := ⟨hc, hoth, .inl ⟨ho ▸ hj, ho⟩⟩
    exact ⟨hI _ hb, wp_ret.mpr ⟨hI _ hb, by simpa using hen⟩⟩
  · intro _
    exact ⟨hI _ (hbuild _ _ hm), hinsert _ _ hm⟩
  · rintro k rfl
    exact ⟨hI _ (hbuild _ _ (by omega)), hinsert _ _ (by omega)⟩

/-- **The rule of `fp_firewall_enable`**: every table on the way is `Building` or `Enabled`; the
function fails early with nothing done, succeeds with `Enabled`, or rolls back. -/
theorem wp_enable {Q : Int → IptLog → Prop} (hI : ∀ s, Building c t s → I s)
    (hdone : ∀ s : IptLog, Enabled c t s.state → I s ∧ Q 0 s)
    (hfail : ∀ s : IptLog, s.state = t → s.faults < n → Q (-1) s)
    (hroll : ∀ s, Broken c t n s → wp (Budget act) I rollback Q s) :
    wp (Budget act) I (fpFirewallEnable c) Q ⟨t, n, []⟩ := by
  have hI' : ∀ s : IptLog, Enabled c t s.state → I s := fun s h => (hdone s h).1
  rw [fpFirewallEnable_eq, wp_bind]
  refine (wp_ensureChain hI).post fun created s hIs h => ?_
  split at h
  swap
  · rename_i h0
    rw [if_neg h0]
    exact wp_ret.mpr ⟨hIs, hfail s h.2.1 h.2.2⟩
  rename_i h0
  obtain ⟨hb, ho, hc, hn⟩ := h
  rw [if_pos h0, wp_bind]
  refine (wp_fixed hI hb ho hc hn).post fun excluded s _ h => ?_
  split at h
  swap
  · rename_i h1
    rw [if_neg h1]
    exact hroll s h
  rename_i h1
  have hbypass : (fixedRules c).map Prod.snd ++ (bypassRules c).map Prod.snd <+: c.rules := by
    rw [rules_eq]
    exact List.prefix_append _ _
  rw [if_pos h1, wp_bind]
  refine (wp_appends hI _ _ s bypassRules_parse hbypass h).post fun bypassed s _ h => ?_
  split at h
  swap
  · rename_i h2
    rw [if_neg h2]
    exact hroll s h
  rename_i h2
  rw [if_pos h2, wp_bind]
  have hall : (fixedRules c).map Prod.snd ++ (bypassRules c).map Prod.snd ++
      [Rule.redirect fpListenPort] <+: c.rules := by
    rw [rules_eq]
  refine (wp_append hI redirectRule_parse hall h).post fun redirected s _ h => ?_
  split at h
  swap
  · rename_i h3
    rw [if_neg h3]
    exact hroll s h
  rename_i h3
  rw [if_pos h3, wp_bind]
  rw [← rules_eq] at h
  refine (wp_ensureJump hI hI' h).post fun jump s _ h => ?_
  split at h
  swap
  · rename_i h4
    rw [if_neg h4]
    exact hroll s h
  rename_i h4
  rw [if_pos h4]
  exact wp_ret.mpr (hdone s h)

end Enable

/-! ## Runs of `fp_firewall_enable` -/

theorem wp_rollback {I : IptLog → Prop} {s : IptLog}
    (hkeep : ∀ e s r s', e.Removes → I s → Budget act e s r s' → I s') (hs : I s) :
    wp (Budget act) I rollback (fun code _ => code = -1) s := by
  have hprog : rollback = fpFirewallDisable.bind fun _ => .ret (-1) := rfl
  rw [hprog, wp_bind]
  refine (wp_calls calls_disable hkeep hs).post fun _ s' hI _ => ?_
  exact wp_ret.mpr ⟨hI, rfl⟩

/-- **Every run of `fp_firewall_enable`**: what is seen on the way, and what a success means. -/
theorem wp_enable_log (c : Config) (t : Table) (n : Nat) :
    wp (Budget act) (fun s => Building c t s ∨ Enabled c t s.state) (fpFirewallEnable c)
      (fun code s => (code = 0 ∧ Enabled c t s.state) ∨ code = -1) ⟨t, n, []⟩ := by
  refine wp_enable (fun s h => .inl h) (fun s h => ⟨.inr h, .inl ⟨rfl, h⟩⟩) (fun s _ _ => .inr rfl)
    fun s h => ?_
  have hroll := wp_rollback (fun e s r s' he hb hr => building_removes he hb hr) h.building
  exact hroll.mono (fun s hs => .inl hs) fun code s hcode => .inr hcode

/-- What `fp_firewall_enable(c)` may make of `t` before it has succeeded. -/
def Table.Underway (c : Config) (t t' : Table) : Prop :=
  t'.output.Sublist t.output ∧ (t'.chain = t.chain ∨ t'.Safe c)

theorem wp_enable_ipt (c : Config) (t : Table) :
    wp Ipt (fun t' => t.Underway c t' ∨ Enabled c t t') (fpFirewallEnable c)
      (fun code t' => (code = 0 ∧ Enabled c t t') ∨ code = -1) t := by
  refine wp_of_budget fun n => (wp_enable_log c t n).mono ?_ fun code s h => h
  rintro s (h | h)
  · exact .inl ⟨h.output, h.chain.imp_left And.left⟩
  · exact .inr h

/-- **With one fault at most, a failing `fp_firewall_enable` undoes what it did.** -/
theorem wp_enable_single {c : Config} {t : Table} (hj : .jump ∉ t.output) (hc : t.chain = none) :
    wp (Budget act) (fun _ => True) (fpFirewallEnable c)
      (fun code s => code = -1 → s.state = t) ⟨t, 1, []⟩ := by
  refine wp_enable (fun _ _ => trivial) (fun s _ => ⟨trivial, by simp⟩) (fun s h _ _ => h)
    fun s h => ?_
  obtain ⟨t₁, m, tr⟩ := s
  -- the fault has been used up, so the removal completes
  obtain rfl : m = 0 := Nat.lt_one_iff.mp h.faults
  have hroll : Completes act rollback t₁ (-1) t₁.clean :=
    (completes_disable t₁).bind (Completes.ret (-1) t₁.clean)
  refine (wp_of_completes hroll).mono (fun _ _ => trivial) ?_
  rintro code s ⟨-, hs⟩ -
  have ho : t₁.output = t.output := h.output
  rw [hs]
  refine Table.ext' ?_ hc.symm h.building.others
  exact (Table.userOutput_eq_self (by rwa [ho])).trans ho

/-! ## Completion of `fp_firewall_enable` -/

/-- The table after a complete `fp_firewall_enable(c)`. -/
def Table.enabled (c : Config) (t : Table) : Table :=
  if .jump ∈ t.output then t.setChain c.rules else (t.setChain c.rules).addJump (by simp)

theorem completes_ensureChain (t : Table) :
    Completes act ensureChain t 0 (t.setChain (t.chain.getD [])) := by
  cases hc : t.chain with
  | none =>
    refine (completes_chainExists_none hc).bind ?_
    exact completes_runIptables (act_newChain.mpr ⟨hc, rfl⟩)
  | some l =>
    have hself : t.setChain l = t := Table.ext' rfl hc.symm rfl
    rw [Option.getD_some, hself]
    exact (completes_chainExists (by simp [hc])).bind (Completes.ret 0 t)

theorem completes_appends : ∀ (xs : List (RuleSpec × Rule)) (l : List Rule) (t : Table),
    (∀ x ∈ xs, x.1.parse = some x.2) →
      Completes act (ruleCommands .append xs) (t.setChain l) 0 (t.setChain (l ++ xs.map Prod.snd))
  | [], l, t, _ => by
    rw [List.map_nil, List.append_nil]
    exact Completes.all_nil _
  | x :: xs, l, t, hp => by
    have hact : act (.rule .append x.1) (t.setChain l) = some (t.setChain (l ++ [x.2])) :=
      act_append.mpr ⟨l, x.2, rfl, hp x List.mem_cons_self, rfl⟩
    rw [List.map_cons, List.append_cons]
    exact (completes_runIptables hact).all_cons
      (completes_appends xs (l ++ [x.2]) t fun y hy => hp y (List.mem_cons_of_mem x hy))

theorem completes_ensureJump (c : Config) (t : Table) :
    Completes act ensureJump (t.setChain c.rules) 0 (t.enabled c) := by
  unfold Table.enabled
  by_cases hj : .jump ∈ t.output
  · rw [if_pos hj]
    have hcheck : act .checkJump (t.setChain c.rules) = some (t.setChain c.rules) :=
      act_checkJump.mpr ⟨hj, rfl⟩
    exact (completes_runIptables hcheck).bind (Completes.ret 0 _)
  · rw [if_neg hj]
    have hcheck : act .checkJump (t.setChain c.rules) = none := act_checkJump_none.mpr hj
    exact (completes_runIptables_none hcheck).bind
      (completes_runIptables (act_insertJump.mpr ⟨by simp, rfl⟩))

/-- The commands before `ensureJump` are executed: the rest of `fp_firewall_enable` is `ensureJump`. -/
theorem enable_of_ensureJump {P : {α : Type} → Fw α → Table → α → Table → Prop}
    (hcomplete : ∀ {α : Type} {p : Fw α} {t t' : Table} {a : α}, Completes act p t a t' → P p t a t')
    (hbind : ∀ {α β : Type} {p : Fw α} {f : α → Fw β} {t t₁ t' : Table} {a : α} {b : β},
      P p t a t₁ → P (f a) t₁ b t' → P (p.bind f) t b t')
    {c : Config} {t t' : Table} (h : P ensureJump (t.setChain c.rules) 0 t') :
    P (fpFirewallEnable c) t 0 t' := by
  rw [fpFirewallEnable_eq]
  refine hbind (hcomplete (completes_ensureChain t)) ?_
  rw [if_pos rfl]
  have hflush : act .flushChain (t.setChain (t.chain.getD [])) = some (t.setChain []) :=
    act_flushChain.mpr ⟨by simp, rfl⟩
  refine hbind (hcomplete
    ((completes_runIptables hflush).bind (completes_appends _ [] t fixedRules_parse))) ?_
  rw [if_pos rfl]
  refine hbind (hcomplete (completes_appends _ _ t bypassRules_parse)) ?_
  rw [if_pos rfl]
  have hred : act (.rule .append redirectRule)
      (t.setChain ([] ++ (fixedRules c).map Prod.snd ++ (bypassRules c).map Prod.snd)) =
        some (t.setChain c.rules) :=
    act_append.mpr ⟨_, _, rfl, redirectRule_parse, by rw [rules_eq]; rfl⟩
  refine hbind (hcomplete (completes_runIptables hred)) ?_
  rw [if_pos rfl]
  exact hbind h (hcomplete (Completes.ret 0 _))

/-- **`fp_firewall_enable` succeeds from every table** when every command is executed. -/
theorem completes_enable (c : Config) (t : Table) :
    Completes act (fpFirewallEnable c) t 0 (t.enabled c) :=
  enable_of_ensureJump (fun h => h) (fun h h' => h.bind h') (completes_ensureJump c t)

/-- It may also insert a jump next to those that are there: the check fails, the insertion does not. -/
theorem runs_enable_again (c : Config) (t : Table) :
    Runs Ipt (fpFirewallEnable c) t 0 ((t.setChain c.rules).addJump (by simp)) := by
  refine enable_of_ensureJump Completes.runs (fun h h' => h.bind h') ?_
  have hcheck : Runs Ipt (runIptables .checkJump) (t.setChain c.rules) (-1) (t.setChain c.rules) :=
    Runs.call (.inr ⟨rfl, rfl⟩) (Runs.ret _ _)
  exact hcheck.bind
    (completes_runIptables (act_insertJump.mpr ⟨by simp, rfl⟩)).runs

theorem userOutput_enabled (c : Config) (t : Table) : (t.enabled c).userOutput = t.userOutput := by
  unfold Table.enabled
  split
  · rfl
  · exact List.filter_cons_of_neg (by simp)

theorem others_enabled (c : Config) (t : Table) : (t.enabled c).others = t.others := by
  unfold Table.enabled
  split <;> rfl

end FreeProxy
