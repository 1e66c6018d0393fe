import FreeProxy.Firewall.Removal
import FreeProxy.System.Harmless

/-!
# `fp_disable_proxy`

**`disable_reports`**: when the answer `0` of `fp_firewall_disable` is true, for every table and
every pattern of failing commands, and the same for `fp_disable_proxy`, whose answer `0` is the
answer `0` of the removal that it makes: the table is the one its own removal has found
(`disableRules`), and the pattern is what its own commands were answered.

Out of scope: who else changes the table meanwhile. The operation holds the lock, and the daemon that
it stops takes its own rules away before the removal begins.
-/

namespace FreeProxy

open Lib

/-- `fp_disable_proxy` from its `fp_firewall_disable` on. -/
def disableRules (daemonResult : Int) : App Int :=
  (fw fpFirewallDisable).bind fun firewallResult =>
    (Op.ask .unlock).bind fun _ => .ret (if firewallResult = 0 ∧ daemonResult = 0 then 0 else -1)

theorem fpDisableProxy_eq : fpDisableProxy = (Op.ask .lock).bind fun acquired =>
    if acquired = true then fpStopDaemon.bind disableRules else .ret (-1) := by
  refine congrArg (Prog.call (E := Op) .lock) (funext fun acquired => ?_)
  cases acquired with
  | false => rfl
  | true =>
    change (fpStopDaemon.bind _).bind _ = _
    rw [Prog.bind_assoc]
    refine congrArg (Prog.bind fpStopDaemon) (funext fun daemonResult => ?_)
    exact Prog.bind_assoc ..

/-- The iptables commands of an operation, run by its choices. -/
theorem exec_fw {α : Type} (cs : List Choice) (p : Fw α) (s : Sys) :
    exec sys cs (fw p) s = (fw (exec iptables (cs.map Choice.ok) p s.table).1,
      { s with table := (exec iptables (cs.map Choice.ok) p s.table).2 }) := by
  have hpart : ∀ e (c : Choice) s, sys (.ipt e) c s = ((iptables e c.ok (tableLens.get s)).1,
      tableLens.put s (iptables e c.ok (tableLens.get s)).2) := fun _ _ _ => rfl
  exact exec_hoist Choice.ok hpart cs p s

/-- A removal in `fp_disable_proxy` that ends with `0`. -/
theorem disableRules_zero {cs : List Choice} {daemonResult : Int} {s s' : Sys}
    (h : exec sys cs (disableRules daemonResult) s = (.ret 0, s')) : daemonResult = 0 ∧
      exec iptables (cs.map Choice.ok) fpFirewallDisable s.table = (.ret 0, s'.table) := by
  obtain ⟨n, r, s₁, hremoval, -, hrest⟩ := exec_bind_inv cs h
  have hunlock : Runs sysRel ((Op.ask .unlock).bind fun _ =>
      (.ret (if r = 0 ∧ daemonResult = 0 then 0 else -1) : App Int)) s₁ 0 s' := exec_runs hrest
  have hwp : wp sysRel (fun _ => True) ((Op.ask .unlock).bind fun _ =>
      (.ret (if r = 0 ∧ daemonResult = 0 then 0 else -1) : App Int))
      (fun code s' => code = (if r = 0 ∧ daemonResult = 0 then 0 else -1) ∧ s' = s₁) s₁ := by
    refine wp_call.mpr ⟨trivial, ?_⟩
    rintro _ s₂ ⟨c, hc⟩
    obtain rfl : s₁ = s₂ := congrArg Prod.snd hc
    exact wp_ret.mpr ⟨trivial, rfl, rfl⟩
  obtain ⟨hcode, rfl⟩ := hwp.runs hunlock
  obtain ⟨rfl, hdaemon⟩ : r = 0 ∧ daemonResult = 0 := by
    by_contra hne
    simp [hne] at hcode
  refine ⟨hdaemon, ?_⟩
  rw [exec_fw, Prod.mk.injEq] at hremoval
  obtain ⟨hprog, hsys⟩ := hremoval
  have htable : (exec iptables ((cs.take n).map Choice.ok) fpFirewallDisable s.table).2 = s'.table :=
    congrArg Sys.table hsys
  have hdone : (exec iptables ((cs.take n).map Choice.ok) fpFirewallDisable s.table).1 = .ret 0 := by
    cases hp : (exec iptables ((cs.take n).map Choice.ok) fpFirewallDisable s.table).1 with
    | ret b =>
      rw [hp] at hprog
      exact congrArg Prog.ret (Prog.ret.inj hprog)
    | call e k => rw [hp] at hprog; simp [hoist] at hprog
    | loop e body k => rw [hp] at hprog; simp [hoist] at hprog
  rw [← List.take_append_drop n cs, List.map_append, exec_append, hdone, htable, exec_ret]

/-- **When a reported removal has happened**, for a removal from `t` and for an operation from `s`. -/
theorem disable_reports (t : Table) (s : Sys) :
    (∀ cs r t', exec iptables cs fpFirewallDisable t = (.ret r, t') →
      ((r = 0 → .jump ∉ t'.output ∧ t'.chain = none) ↔
        (t.chain = none ∨ listRuns t.jumps cs = true))) ∧
    ∀ cs s', exec sys cs fpDisableProxy s = (.ret 0, s') →
      (∃ n s₁, exec sys (cs.take n) fpDisableProxy s = (disableRules 0, s₁)) ∧
      -- the removal begins in `s₁`, and the choices that are left are its own
      ∀ n s₁, exec sys (cs.take n) fpDisableProxy s = (disableRules 0, s₁) →
        ((.jump ∉ s'.table.output ∧ s'.table.chain = none) ↔
          (s₁.table.chain = none ∨ listRuns s₁.table.jumps ((cs.drop n).map Choice.ok) = true)) ∧
        ((s₁.table.chain = none ∨ listRuns s₁.table.jumps ((cs.drop n).map Choice.ok) = true) →
          ∀ usr d, s'.table.redirected usr d = none) := by
  refine ⟨fun cs r t' hrun => disable_exact hrun, fun cs s' hrun => ⟨?_, fun n s₁ hreached => ?_⟩⟩
  · rw [fpDisableProxy_eq] at hrun ⊢
    cases cs with
    | nil => simp [exec, Op.ask, Prog.ask, Prog.bind] at hrun
    | cons c cs =>
      rw [exec_cons rfl] at hrun
      obtain ⟨acquired, hacquired⟩ : ∃ acquired, (sys .lock c s).1 = acquired := ⟨_, rfl⟩
      simp only [Prog.bind, hacquired] at hrun
      cases acquired with
      | false => simp at hrun
      | true =>
        obtain ⟨n, daemonResult, s₁, -, hreached, hrest⟩ := exec_bind_inv cs hrun
        obtain ⟨rfl, -⟩ := disableRules_zero hrest
        refine ⟨n + 1, s₁, ?_⟩
        rw [List.take_succ_cons, exec_cons rfl]
        simp only [Prog.bind, hacquired]
        exact hreached
  · rw [← List.take_append_drop n cs, exec_append, hreached] at hrun
    have hexact := disable_exact (disableRules_zero hrun).2
    simp only [forall_const] at hexact
    refine ⟨hexact, fun hcond usr d => redirected_eq_none fun hcap => ?_⟩
    exact (hexact.mpr hcond).1 hcap.1

/-- The rules of another user, a jump of free_proxy and its chain. -/
def jumpTable : Table := ⟨[.user "-j LOG", .jump], some [.redirect 12345], [], by decide⟩

/-- Every command is run: the removal is true, and so is an `fp_disable_proxy` that makes it. -/
theorem disable_reports_true :
    let s : Sys := ⟨.absent, none, none, jumpTable, []⟩
    let cs := List.replicate 13 (⟨true, true, 0, 0⟩ : Choice)
    (∃ t', exec iptables (List.replicate 6 true) fpFirewallDisable jumpTable = (.ret 0, t') ∧
      .jump ∉ t'.output ∧ t'.chain = none) ∧
    ∃ s' n s₁, exec sys cs fpDisableProxy s = (.ret 0, s') ∧
      exec sys (cs.take n) fpDisableProxy s = (disableRules 0, s₁) ∧ s₁.table = jumpTable ∧
      (.jump ∉ s'.table.output ∧ s'.table.chain = none) := by
  intro s cs
  refine ⟨⟨_, rfl, ((disable_reports jumpTable s).1 (List.replicate 6 true) 0 _ rfl).mpr (.inr rfl) rfl⟩, ?_⟩
  have hresult : (exec sys cs fpDisableProxy s).1.result = some 0 := by decide +kernel
  obtain ⟨s', hrun⟩ := exec_of_result hresult
  -- the lock, the record, the processes, the listener, and two files to remove
  have hreached : exec sys (cs.take 6) fpDisableProxy s = (disableRules 0, s) := by
    rw [fpDisableProxy_eq]
    rfl
  exact ⟨s', 6, s, hrun, hreached, rfl,
    (((disable_reports jumpTable s).2 cs s' hrun).2 6 s hreached).1.mpr (.inr rfl)⟩

/-- **A reported removal that has not happened**: neither check can be run. -/
theorem disable_reports_false : ¬ ∀ t cs t', exec iptables cs fpFirewallDisable t = (.ret 0, t') →
    .jump ∉ t'.output ∧ t'.chain = none := by
  intro h
  have hclean := h jumpTable [false, false] _ rfl
  exact absurd hclean.1 (by decide)

end FreeProxy
