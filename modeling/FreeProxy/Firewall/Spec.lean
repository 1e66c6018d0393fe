import FreeProxy.Firewall.Policy

/-!
# What the firewall functions do

Specifications of the functions of `src/firewall.c` over runs in which commands may fail;
`fp_firewall_enable` has a module of its own. A command is specified on a budget of faults and with
the commands recorded (`IptLog`), so that one proof serves all runs, the runs with a single fault and
what happens after the flush.

* `wp_runIptables`, `wp_ipt`: the rules of one command.
* `completes_disable`, `completes_isEnabled`: what happens when every command is executed.
* **`wp_disable`**: rules are only removed, whatever fails; **`redirected_of_removes`**, a removal
  redirects nothing new.
* **`wp_isEnabled`**: an answer `1` means the rules that were looked for are there.
-/

namespace FreeProxy

open Lib

/-- A table, the faults that may still happen, the commands so far. -/
abbrev IptLog := Logged Cmd Table

/-! ## One command -/

theorem wp_runIptables {I : IptLog → Prop} {e : Cmd} {Q : Int → IptLog → Prop} {t : Table} {n : Nat}
    {tr : List (Ev Cmd fun _ => Bool)} :
    wp (Budget act) I (runIptables e) Q ⟨t, n, tr⟩ ↔
      I ⟨t, n, tr⟩ ∧
        (∀ t', act e t = some t' →
          I ⟨t', n, tr ++ [⟨e, true⟩]⟩ ∧ Q 0 ⟨t', n, tr ++ [⟨e, true⟩]⟩) ∧
        (act e t = none → I ⟨t, n, tr ++ [⟨e, false⟩]⟩ ∧ Q (-1) ⟨t, n, tr ++ [⟨e, false⟩]⟩) ∧
        (∀ m, n = m + 1 → I ⟨t, m, tr ++ [⟨e, false⟩]⟩ ∧ Q (-1) ⟨t, m, tr ++ [⟨e, false⟩]⟩) := by
  have hprog : runIptables e = .call e fun exited => .ret (if exited then 0 else -1) := rfl
  rw [hprog, wp_budget]
  simp [wp_ret]

theorem completes_runIptables {e : Cmd} {t t' : Table} (h : act e t = some t') :
    Completes act (runIptables e) t 0 t' :=
  Completes.next_true rfl h (Completes.ret 0 t')

theorem completes_runIptables_none {e : Cmd} {t : Table} (h : act e t = none) :
    Completes act (runIptables e) t (-1) t :=
  Completes.next_false rfl h (Completes.ret (-1) t)

theorem act_listChain_none {t : Table} : act .listChain t = none ↔ t.chain = none := by
  simp [act]

theorem act_checkJump_none {t : Table} : act .checkJump t = none ↔ .jump ∉ t.output := by
  simp [act]

theorem completes_chainExists {t : Table} (h : t.chain ≠ none) :
    Completes act chainExists t true t :=
  (completes_runIptables (act_listChain.mpr ⟨h, rfl⟩)).bind (Completes.ret true t)

theorem completes_chainExists_none {t : Table} (h : t.chain = none) :
    Completes act chainExists t false t :=
  (completes_runIptables_none (act_listChain_none.mpr h)).bind (Completes.ret false t)

theorem completes_outputJumpExists {t : Table} (h : .jump ∈ t.output) :
    Completes act outputJumpExists t true t :=
  (completes_runIptables (act_checkJump.mpr ⟨h, rfl⟩)).bind (Completes.ret true t)

/-! ## `fp_firewall_disable` -/

namespace Table

/-- The table without its jumps. -/
def dropJumps (t : Table) : Table :=
  { t with
    output := t.userOutput
    jump_ok := fun h => by simp [userOutput] at h }

/-- The table without anything of free_proxy's. -/
def clean (t : Table) : Table :=
  { t with
    output := t.userOutput
    chain := none
    jump_ok := fun h => by simp [userOutput] at h }

theorem jump_notMem_userOutput (t : Table) : .jump ∉ t.userOutput := by simp [userOutput]

theorem userOutput_eq_self {t : Table} (h : .jump ∉ t.output) : t.userOutput = t.output := by
  unfold userOutput
  rw [List.filter_eq_self]
  intro r hr
  have hne : r ≠ .jump := fun e => h (e ▸ hr)
  simpa using hne

theorem dropJumps_eq_self {t : Table} (h : .jump ∉ t.output) : t.dropJumps = t :=
  ext' (userOutput_eq_self h) rfl rfl

theorem dropJumps_dropJump (t : Table) : t.dropJump.dropJumps = t.dropJumps :=
  ext' t.userOutput_dropJump rfl rfl

theorem jumps_dropJump {t : Table} (h : .jump ∈ t.output) : t.dropJump.jumps + 1 = t.jumps := by
  have hpos : 0 < t.output.count .jump := List.count_pos_iff.mpr h
  unfold jumps
  rw [dropJump_output, List.count_erase_self]
  omega

end Table

/-- **The loop of `fp_firewall_disable` ends**: each turn removes one jump. -/
theorem completes_removeJumps (t : Table) : Completes act removeJumps t 0 t.dropJumps := by
  generalize hk : t.jumps = k
  induction k generalizing t with
  | zero =>
    have hj : .jump ∉ t.output := List.count_eq_zero.mp hk
    rw [Table.dropJumps_eq_self hj]
    exact Completes.next_false rfl (act_checkJump_none.mpr hj) (Completes.ret 0 t)
  | succ k ih =>
    have hj : .jump ∈ t.output := List.count_pos_iff.mp (by unfold Table.jumps at hk; omega)
    have hk' : t.dropJump.jumps = k := by have := Table.jumps_dropJump hj; omega
    refine Completes.next_true rfl (act_checkJump.mpr ⟨hj, rfl⟩) ?_
    -- the body deletes a jump and goes round again
    refine Completes.next_true rfl (act_deleteJump.mpr ⟨hj, rfl⟩) ?_
    rw [← Table.dropJumps_dropJump]
    exact ih t.dropJump hk'

/-- **`fp_firewall_disable` removes the jumps and the chain** when every command is executed. -/
theorem completes_disable (t : Table) : Completes act fpFirewallDisable t 0 t.clean := by
  refine (completes_removeJumps t).bind ?_
  by_cases hc : t.chain = none
  · have hclean : t.dropJumps = t.clean := Table.ext' rfl hc rfl
    rw [← hclean]
    exact (completes_chainExists_none (t := t.dropJumps) hc).bind (Completes.ret 0 _)
  · refine (completes_chainExists (t := t.dropJumps) hc).bind ?_
    have hflush : act .flushChain t.dropJumps = some (t.dropJumps.setChain []) :=
      act_flushChain.mpr ⟨hc, rfl⟩
    have hdelete : act .deleteChain (t.dropJumps.setChain []) = some t.clean :=
      act_deleteChain.mpr ⟨rfl, t.jump_notMem_userOutput, rfl⟩
    have hall := (completes_runIptables hflush).all_cons
      ((completes_runIptables hdelete).all_cons (Completes.all_nil _))
    exact hall.bind (Completes.ret 0 _)

/-- Whatever fails, the loop ends. -/
theorem terminates_removeJumps (t : Table) : Terminates Ipt removeJumps t := by
  generalize hk : t.jumps = k
  induction k using Nat.strongRecOn generalizing t with
  | ind k ih =>
    refine .call rfl fun found t₁ hfound => ?_
    cases found with
    | false => exact .ret 0 t₁
    | true =>
      refine .call rfl fun removed t₂ hremoved => ?_
      cases removed with
      | false => exact .ret (-1) t₂
      | true =>
        obtain ⟨hj, rfl⟩ : .jump ∈ t.output ∧ t₁ = t := by simpa [act_checkJump, Faulty] using hfound
        obtain ⟨-, rfl⟩ : .jump ∈ t₁.output ∧ t₂ = t₁.dropJump := by
          simpa [act_deleteJump, Faulty] using hremoved
        have hless := Table.jumps_dropJump hj
        exact ih t₁.dropJump.jumps (by omega) t₁.dropJump rfl

theorem loopFree_runIptables (e : Cmd) : (runIptables e).LoopFree := fun _ => trivial

theorem loopFree_chainExists : chainExists.LoopFree := fun _ => trivial

theorem loopFree_commands (es : List Cmd) : (Prog.all (es.map runIptables)).LoopFree := by
  refine loopFree_all fun p hp => ?_
  obtain ⟨e, -, rfl⟩ := List.mem_map.mp hp
  exact loopFree_runIptables e

theorem terminates_disable (t : Table) : Terminates Ipt fpFirewallDisable t := by
  refine (terminates_removeJumps t).bind fun removed t₁ _ => ?_
  split
  · exact .ret (-1) t₁
  refine (loopFree_chainExists.bind fun present => ?_).terminates t₁
  split
  · trivial
  · exact (loopFree_commands [.flushChain, .deleteChain]).bind fun _ => trivial

/-- The commands that add nothing. -/
def Cmd.Removes : Cmd → Prop
  | .newChain | .insertJump | .rule .append _ => False
  | _ => True

theorem calls_runIptables {P : Cmd → Prop} {e : Cmd} (h : P e) : (runIptables e).Calls P :=
  ⟨h, fun _ => trivial⟩

theorem calls_chainExists : chainExists.Calls Cmd.Removes := ⟨trivial, fun _ => trivial⟩

theorem calls_outputJumpExists : outputJumpExists.Calls Cmd.Removes := ⟨trivial, fun _ => trivial⟩

theorem calls_removeJumps : removeJumps.Calls Cmd.Removes := by
  refine ⟨trivial, fun exited => ?_, fun _ => trivial⟩
  cases exited
  · exact trivial
  · exact ⟨trivial, fun _ => trivial⟩

/-- **`fp_firewall_disable` runs no command that adds anything.** -/
theorem calls_disable : fpFirewallDisable.Calls Cmd.Removes := by
  refine calls_bind calls_removeJumps fun removed => ?_
  split
  · exact calls_ret _
  refine calls_bind calls_chainExists fun present => ?_
  split
  · exact calls_ret _
  refine calls_bind (calls_all ?_) fun _ => calls_ret _
  intro p hp
  rcases List.mem_pair.mp hp with rfl | rfl
  · exact calls_runIptables trivial
  · exact calls_runIptables trivial

theorem act_removes {e : Cmd} {t t' : Table} (he : e.Removes) (h : act e t = some t') :
    t'.output.Sublist t.output ∧
      (t'.chain = t.chain ∨ (e = .flushChain ∧ t'.chain = some []) ∨ t'.chain = none) := by
  cases e with
  | listChain => obtain ⟨-, rfl⟩ := act_listChain.mp h; exact ⟨.refl _, .inl rfl⟩
  | newChain => exact he.elim
  | flushChain => obtain ⟨-, rfl⟩ := act_flushChain.mp h; exact ⟨.refl _, .inr (.inl ⟨rfl, rfl⟩)⟩
  | deleteChain => obtain ⟨-, _, rfl⟩ := act_deleteChain.mp h; exact ⟨.refl _, .inr (.inr rfl)⟩
  | checkJump => obtain ⟨-, rfl⟩ := act_checkJump.mp h; exact ⟨.refl _, .inl rfl⟩
  | insertJump => exact he.elim
  | deleteJump => obtain ⟨-, rfl⟩ := act_deleteJump.mp h; exact ⟨List.erase_sublist, .inl rfl⟩
  | rule op spec =>
    cases op with
    | append => exact he.elim
    | check => obtain ⟨_, _, -, -, -, rfl⟩ := act_check.mp h; exact ⟨.refl _, .inl rfl⟩

theorem outputRedirect_nil (usr : UserRules) (d : Addr) :
    ∀ out : List OutRule, outputRedirect usr [] d out = none
  | [] => rfl
  | .jump :: rest => outputRedirect_nil usr d rest
  | .user spec :: rest => by
    simp only [outputRedirect]
    cases usr spec d with
    | none => exact outputRedirect_nil usr d rest
    | some v => rfl

/-- A packet that is redirected without the first jump is redirected with it. -/
theorem outputRedirect_erase {usr : UserRules} {chain : List Rule} {d : Addr} {port : Nat} :
    ∀ {out : List OutRule}, outputRedirect usr chain d (out.erase .jump) = some port →
      outputRedirect usr chain d out = some port
  | [], h => h
  | .jump :: rest, h => by
    rw [List.erase_cons_head] at h
    have hv := (outputRedirect_some h).2
    simp only [outputRedirect, hv]
  | .user spec :: rest, h => by
    rw [List.erase_cons_tail (by simp)] at h
    simp only [outputRedirect] at h ⊢
    cases hu : usr spec d with
    | none => rw [hu] at h; exact outputRedirect_erase h
    | some v => rw [hu] at h; simp at h

/-- **A removal redirects nothing new.** -/
theorem redirected_of_removes {e : Cmd} {t t' : Table} (he : e.Removes) (h : act e t = some t')
    {usr : UserRules} {d : Addr} {port : Nat} (hr : t'.redirected usr d = some port) :
    t.redirected usr d = some port := by
  unfold Table.redirected at hr ⊢
  cases e with
  | listChain => obtain ⟨-, rfl⟩ := act_listChain.mp h; exact hr
  | newChain => exact he.elim
  | flushChain =>
    obtain ⟨-, rfl⟩ := act_flushChain.mp h
    simp [outputRedirect_nil] at hr
  | deleteChain =>
    obtain ⟨-, _, rfl⟩ := act_deleteChain.mp h
    simp [outputRedirect_nil] at hr
  | checkJump => obtain ⟨-, rfl⟩ := act_checkJump.mp h; exact hr
  | insertJump => exact he.elim
  | deleteJump => obtain ⟨-, rfl⟩ := act_deleteJump.mp h; exact outputRedirect_erase hr
  | rule op spec =>
    cases op with
    | append => exact he.elim
    | check => obtain ⟨_, _, -, -, -, rfl⟩ := act_check.mp h; exact hr

/-- `t'` is `t` with rules taken away. -/
def Table.Shrunk (t t' : Table) : Prop :=
  t'.output.Sublist t.output ∧ (t'.chain = t.chain ∨ t'.chain = some [] ∨ t'.chain = none)

/-- **Removal only removes**, at every moment and whatever fails. -/
theorem wp_disable (t : Table) : wp Ipt t.Shrunk fpFirewallDisable (fun _ => t.Shrunk) t := by
  refine wp_calls calls_disable ?_ ⟨.refl _, .inl rfl⟩
  rintro e s r s₁ he ⟨ho, hc⟩ (⟨rfl, h⟩ | ⟨rfl, rfl⟩)
  · obtain ⟨ho', hc'⟩ := act_removes he h
    refine ⟨ho'.trans ho, ?_⟩
    rcases hc' with hc' | ⟨-, hc'⟩ | hc'
    · rwa [hc']
    · exact .inr (.inl hc')
    · exact .inr (.inr hc')
  · exact ⟨ho, hc⟩

/-- Nothing any of the functions does touches the rules that are not free_proxy's. -/
theorem wp_user {α : Type} (p : Fw α) (t : Table) :
    wp Ipt (fun t' => t'.userOutput = t.userOutput ∧ t'.others = t.others) p
      (fun _ t' => t'.userOutput = t.userOutput ∧ t'.others = t.others) t := by
  refine wp_calls (calls_true p) ?_ ⟨rfl, rfl⟩
  rintro e s r s₁ - ⟨hu, ho⟩ (⟨rfl, h⟩ | ⟨rfl, rfl⟩)
  · obtain ⟨hu', ho'⟩ := act_user h
    exact ⟨hu'.trans hu, ho'.trans ho⟩
  · exact ⟨hu, ho⟩

/-! ## `fp_firewall_is_enabled` -/

/-- What `fp_firewall_is_enabled` looks for is there. -/
def Table.Shows (t : Table) (c : Config) : Prop :=
  .jump ∈ t.output ∧ ∃ l, t.chain = some l ∧ ∀ r ∈ c.rules, r ∈ l

/-- The exclusions that are made before the bypass list, as the code writes them and as rules. -/
def fixedRules (c : Config) : List (RuleSpec × Rule) :=
  [(proxyRule c, .ret (Cidr.host c.proxyAddr)), (loopbackRule, .ret loopback)]

/-- The rules of the bypass list, as commands and as rules. -/
def bypassRules (c : Config) : List (RuleSpec × Rule) :=
  c.bypass.map fun b => (.ret b.text, .ret b.cidr)

theorem fixedRules_parse {c : Config} : ∀ x ∈ fixedRules c, x.1.parse = some x.2 := by
  intro x hx
  rcases List.mem_pair.mp hx with rfl | rfl
  · exact proxyRule_parse c
  · exact loopbackRule_parse

theorem bypassRules_parse {c : Config} : ∀ x ∈ bypassRules c, x.1.parse = some x.2 := by
  intro x hx
  obtain ⟨b, -, rfl⟩ := List.mem_map.mp hx
  exact bypassRule_parse b

/-- The rules that `fp_firewall_is_enabled` looks for in any case. -/
def checkedRules (c : Config) : List (RuleSpec × Rule) :=
  fixedRules c ++ [(redirectRule, .redirect fpListenPort)]

theorem checkedRules_parse {c : Config} : ∀ x ∈ checkedRules c, x.1.parse = some x.2 := by
  intro x hx
  rcases List.mem_append.mp hx with hx | hx
  · exact fixedRules_parse x hx
  · obtain rfl := List.mem_singleton.mp hx
    exact redirectRule_parse

theorem rules_eq (c : Config) : c.rules =
    (fixedRules c).map Prod.snd ++ (bypassRules c).map Prod.snd ++ [.redirect fpListenPort] := by
  simp [Config.rules, Config.exclusions, Config.nets, fixedRules, bypassRules, Function.comp_def]

theorem mem_rules {c : Config} {r : Rule} (hr : r ∈ c.rules) :
    (∃ x ∈ checkedRules c, x.2 = r) ∨ ∃ x ∈ bypassRules c, x.2 = r := by
  rw [rules_eq, List.mem_append, List.mem_append, List.mem_map, List.mem_map] at hr
  rcases hr with (⟨x, hx, rfl⟩ | hb) | hr
  · exact .inl ⟨x, List.mem_append_left _ hx, rfl⟩
  · exact .inr hb
  · obtain rfl := List.mem_singleton.mp hr
    exact .inl ⟨_, List.mem_append_right _ List.mem_cons_self, rfl⟩

theorem rule_of_checked {c : Config} : ∀ x ∈ checkedRules c ++ bypassRules c, x.2 ∈ c.rules := by
  intro x hx
  rw [rules_eq, List.mem_append, List.mem_append]
  rcases List.mem_append.mp hx with hx | hx
  · rcases List.mem_append.mp hx with hx | hx
    · exact .inl (.inl (List.mem_map_of_mem hx))
    · obtain rfl := List.mem_singleton.mp hx
      exact .inr List.mem_cons_self
  · exact .inl (.inr (List.mem_map_of_mem hx))

/-- A chain of commands over rules. -/
def ruleCommands (op : RuleOp) (xs : List (RuleSpec × Rule)) : Fw Int :=
  Prog.all (xs.map fun x => runIptables (.rule op x.1))

theorem bypass_commands (op : RuleOp) (c : Config) :
    Prog.all (c.bypass.map fun b => bypassRule op b.text) = ruleCommands op (bypassRules c) := by
  unfold ruleCommands bypassRules
  rw [List.map_map]
  rfl

theorem fpFirewallIsEnabled_eq (c : Config) : fpFirewallIsEnabled c =
    chainExists.bind fun present => if present = true then
      outputJumpExists.bind fun jump => if jump = true then
        (ruleCommands .check (checkedRules c)).bind fun present => if present = 0 then
          (ruleCommands .check (bypassRules c)).bind fun bypassed =>
            .ret (if bypassed = 0 then 1 else 0)
        else .ret 0
      else .ret 0
    else .ret 0 := by
  unfold fpFirewallIsEnabled
  simp only [Prog.bind_eq, Prog.pure_eq, bypass_commands, Bool.not_eq_true', ite_not, ne_eq,
    Bool.not_eq_false, ← ite_not (p := _ = false)]
  rfl

theorem wp_ipt {I : Table → Prop} {e : Cmd} {Q : Int → Table → Prop} {t : Table} :
    wp Ipt I (runIptables e) Q t ↔
      I t ∧ (∀ t', act e t = some t' → I t' ∧ Q 0 t') ∧ I t ∧ Q (-1) t := by
  have hprog : runIptables e = .call e fun exited => .ret (if exited then 0 else -1) := rfl
  rw [hprog, wp_faulty]
  simp [wp_ret]

theorem wp_chainExists {t : Table} :
    wp Ipt (· = t) chainExists (fun b _ => b = true → t.chain ≠ none) t := by
  have hprog : chainExists = (runIptables .listChain).bind fun status => .ret (status == 0) := rfl
  rw [hprog, wp_bind, wp_ipt]
  refine ⟨rfl, fun t' h => ?_, rfl, wp_ret.mpr ⟨rfl, by simp⟩⟩
  obtain ⟨hc, rfl⟩ := act_listChain.mp h
  exact ⟨rfl, wp_ret.mpr ⟨rfl, fun _ => hc⟩⟩

theorem wp_outputJumpExists {t : Table} :
    wp Ipt (· = t) outputJumpExists (fun b _ => b = true → .jump ∈ t.output) t := by
  have hprog : outputJumpExists = (runIptables .checkJump).bind fun status => .ret (status == 0) :=
    rfl
  rw [hprog, wp_bind, wp_ipt]
  refine ⟨rfl, fun t' h => ?_, rfl, wp_ret.mpr ⟨rfl, by simp⟩⟩
  obtain ⟨hj, rfl⟩ := act_checkJump.mp h
  exact ⟨rfl, wp_ret.mpr ⟨rfl, fun _ => hj⟩⟩

/-- Checks that all succeed: the rules are there. -/
theorem wp_checks {t : Table} (xs : List (RuleSpec × Rule)) (hp : ∀ x ∈ xs, x.1.parse = some x.2) :
    wp Ipt (· = t) (ruleCommands .check xs)
      (fun code _ => code = 0 → ∀ x ∈ xs, ∃ l, t.chain = some l ∧ x.2 ∈ l) t := by
  refine wp_all (fun x : RuleSpec × Rule => runIptables (.rule .check x.1))
    (fun zs _ => ∀ x ∈ zs, ∃ l, t.chain = some l ∧ x.2 ∈ l) ?_ (fun _ h _ => h) rfl (by simp)
  rintro zs x ys rfl _ rfl hzs
  refine wp_ipt.mpr ⟨rfl, fun t' h => ?_, rfl, by simp⟩
  obtain ⟨l, r, hl, hr, hm, rfl⟩ := act_check.mp h
  rw [hp x (by simp), Option.some.injEq] at hr
  subst hr
  refine ⟨rfl, fun y hy => ?_⟩
  rcases List.mem_append.mp hy with hy | hy
  · exact hzs y hy
  · rw [List.mem_singleton.mp hy]
    exact ⟨l, hl, hm⟩

/-- **An answer `1` means what was looked for is there**, and nothing has changed. -/
theorem wp_isEnabled (c : Config) (t : Table) :
    wp Ipt (· = t) (fpFirewallIsEnabled c) (fun code _ => code = 0 ∨ code = 1 ∧ t.Shows c) t := by
  have hno : wp Ipt (· = t) (.ret 0 : Fw Int) (fun code _ => code = 0 ∨ code = 1 ∧ t.Shows c) t :=
    wp_ret.mpr ⟨rfl, .inl rfl⟩
  rw [fpFirewallIsEnabled_eq, wp_bind]
  refine wp_chainExists.post ?_
  rintro present _ rfl -
  split
  swap
  · exact hno
  rw [wp_bind]
  refine wp_outputJumpExists.post ?_
  rintro jump _ rfl hjump
  split
  swap
  · exact hno
  rename_i hj
  rw [wp_bind]
  refine (wp_checks _ checkedRules_parse).post ?_
  rintro code _ rfl hchecked
  split
  swap
  · exact hno
  rename_i h0
  rw [wp_bind]
  refine (wp_checks _ bypassRules_parse).post ?_
  rintro bypassed t' rfl hbypass
  refine wp_ret.mpr ⟨rfl, ?_⟩
  split
  · rename_i hb
    refine .inr ⟨rfl, hjump hj, ?_⟩
    obtain ⟨l, hl, -⟩ := hchecked h0 _ List.mem_cons_self
    refine ⟨l, hl, fun r hr => ?_⟩
    have hmem : ∃ m, t'.chain = some m ∧ r ∈ m := by
      rcases mem_rules hr with ⟨x, hx, rfl⟩ | ⟨x, hx, rfl⟩
      · exact hchecked h0 x hx
      · exact hbypass hb x hx
    obtain ⟨m, hm, hr⟩ := hmem
    rwa [Option.some.inj (hl.symm.trans hm)]
  · exact .inl rfl

theorem completes_checks {t : Table} {l : List Rule} (hl : t.chain = some l) :
    ∀ xs : List (RuleSpec × Rule), (∀ x ∈ xs, x.1.parse = some x.2) → (∀ x ∈ xs, x.2 ∈ l) →
      Completes act (ruleCommands .check xs) t 0 t
  | [], _, _ => Completes.all_nil t
  | x :: xs, hp, hm => by
    have hact : act (.rule .check x.1) t = some t :=
      act_check.mpr ⟨l, x.2, hl, hp x List.mem_cons_self, hm x List.mem_cons_self, rfl⟩
    exact (completes_runIptables hact).all_cons (completes_checks hl xs
      (fun y hy => hp y (List.mem_cons_of_mem x hy)) fun y hy => hm y (List.mem_cons_of_mem x hy))

/-- What is looked for is found when every check is executed. -/
theorem completes_isEnabled {c : Config} {t : Table} (h : t.Shows c) :
    Completes act (fpFirewallIsEnabled c) t 1 t := by
  obtain ⟨hj, l, hl, hr⟩ := h
  rw [fpFirewallIsEnabled_eq]
  refine (completes_chainExists (by simp [hl])).bind ?_
  refine (completes_outputJumpExists hj).bind ?_
  refine (completes_checks hl _ checkedRules_parse fun x hx => ?_).bind ?_
  · exact hr _ (rule_of_checked x (List.mem_append_left _ hx))
  refine (completes_checks hl _ bypassRules_parse fun x hx => ?_).bind (Completes.ret 1 t)
  exact hr _ (rule_of_checked x (List.mem_append_right _ hx))

end FreeProxy
