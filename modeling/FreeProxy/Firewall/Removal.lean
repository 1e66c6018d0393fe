import FreeProxy.Firewall.Enable

/-!
# Removal

* **`disable_restores`**: when commands whose precondition holds succeed, `fp_firewall_disable`
  restores the user's table; so does it after `fp_firewall_enable`, and so does the rollback of an
  `fp_firewall_enable` in which a single command fails.
* **`disable_exact`**: for every pattern of failures, when an answer `0` of `fp_firewall_disable` is
  true. The functions take a check that could not be run for the answer "absent", so the exact
  condition is whether `-S FPROXY_OUT` is run (`listRuns`); the position of that call in the pattern
  depends on the number of jumps.
-/

namespace FreeProxy

open Lib

/-! ## No failures, or a single one -/

/-- **Removing the rules restores the user's table.** -/
theorem disable_restores (t : Table) :
    (∃ t', Completes act fpFirewallDisable t 0 t' ∧
        t'.output = t.output.filter (· ≠ .jump) ∧ t'.chain = none ∧ t'.others = t.others) ∧
      (.jump ∉ t.output → t.chain = none → ∀ c,
        (∃ t', Completes act (fpFirewallEnable c) t 0 t' ∧
          Completes act fpFirewallDisable t' 0 t) ∧
        ∀ cs t', cs.count false ≤ 1 →
          exec iptables cs (fpFirewallEnable c) t = (.ret (-1), t') → t' = t) := by
  refine ⟨⟨t.clean, completes_disable t, rfl, rfl, rfl⟩, fun hj hc c => ⟨?_, ?_⟩⟩
  · have hclean : (t.enabled c).clean = t :=
      Table.ext' ((userOutput_enabled c t).trans (Table.userOutput_eq_self hj)) hc.symm
        (others_enabled c t)
    have hdisable := completes_disable (t.enabled c)
    rw [hclean] at hdisable
    exact ⟨t.enabled c, completes_enable c t, hdisable⟩
  · intro cs t' hcs hrun
    obtain ⟨m, tr, h⟩ := wp_pattern (wp_enable_single hj hc) hcs hrun
    exact h rfl

/-- A table with rules of its own. -/
def userTable : Table := ⟨[.user "-j LOG"], none, [("POSTROUTING", ["-j MASQUERADE"])], by decide⟩

/-- `192.0.2.1:1080`, with `10.0.0.0/8` left alone. -/
def wideConfig : Config := .make 0xc0000201 1080 [Cidr.of 0x0a000000 8 Cidr.octet_le] (by decide)

/-- The append of the bypass rule fails, and the rollback removes the chain again. -/
theorem disable_restores_append : ∃ cs t', cs.count false = 1 ∧
    exec iptables cs (fpFirewallEnable wideConfig) userTable = (.ret (-1), t') ∧ t' = userTable := by
  refine ⟨[true, true, true, true, true, false, true, true, true, true], _, by decide, rfl, ?_⟩
  exact ((disable_restores userTable).2 (by decide) rfl wideConfig).2
    [true, true, true, true, true, false, true, true, true, true] _ (by decide) rfl

/-! ## Every pattern of failures -/

/-- Whether `-S FPROXY_OUT` is run, or not reached, in a run of `fp_firewall_disable` with the
pattern `cs` from a table with `k` jumps: the loop takes a check and, when it is run and finds a
jump, a removal, which ends the function when it fails. -/
def listRuns : Nat → List Bool → Bool
  | k + 1, true :: true :: cs => listRuns k cs
  | _ + 1, true :: _ => true
  | _, _ :: listed :: _ => listed
  | _, _ => true

/-- What follows the loop of `fp_firewall_disable`. -/
def removeChain : Fw Int :=
  chainExists.bind fun present => if present = true then
    (Prog.all [runIptables .flushChain, runIptables .deleteChain]).bind fun deleted =>
      .ret (if deleted = 0 then 0 else -1)
  else .ret 0

theorem fpFirewallDisable_eq : fpFirewallDisable =
    removeJumps.bind fun removed => if removed = 0 then removeChain else .ret (-1) := by
  refine congrArg (Prog.bind removeJumps) (funext fun removed => ?_)
  by_cases h : removed = 0
  · rw [if_neg (not_not_intro h), if_pos h]
    refine congrArg (Prog.bind chainExists) (funext fun present => ?_)
    cases present <;> rfl
  · rw [if_pos h, if_neg h]
    rfl

/-- The flush and the deletion: an answer `0` is true. -/
theorem wp_deleteChain (t : Table) :
    wp Ipt (fun _ => True) (Prog.all [runIptables .flushChain, runIptables .deleteChain])
      (fun code t' => code = 0 → .jump ∉ t'.output ∧ t'.chain = none) t := by
  have hfail : ∀ t : Table, wp Ipt (fun _ => True) (.ret (-1) : Fw Int)
      (fun code t' => code = 0 → .jump ∉ t'.output ∧ t'.chain = none) t :=
    fun t => wp_ret.mpr ⟨trivial, by simp⟩
  simp only [Prog.all]
  rw [wp_bind, wp_ipt]
  refine ⟨trivial, fun t₁ _ => ⟨trivial, ?_⟩, trivial, hfail _⟩
  rw [if_pos rfl, wp_bind, wp_ipt]
  refine ⟨trivial, fun t₂ h => ⟨trivial, ?_⟩, trivial, hfail _⟩
  obtain ⟨-, hj, rfl⟩ := act_deleteChain.mp h
  exact wp_ret.mpr ⟨trivial, fun _ => ⟨hj, rfl⟩⟩

theorem notMem_of_chain_none {t : Table} (h : t.chain = none) : .jump ∉ t.output :=
  fun hj => t.jump_ok hj h

/-- The part after the loop is truthful unless the chain is there and `-S` is not run. -/
theorem removeChain_exact {t t' : Table} {cs : List Bool} {r : Int}
    (hrun : exec (faulty act) cs removeChain t = (.ret r, t')) :
    (r = 0 → .jump ∉ t'.output ∧ t'.chain = none) ↔ (t.chain = none ∨ cs.headD true = true) := by
  have hnext : removeChain.next = .call .listChain fun exited =>
      if (exited : Bool) = true then
        (Prog.all [runIptables .flushChain, runIptables .deleteChain]).bind fun deleted =>
          .ret (if deleted = 0 then 0 else -1)
      else .ret 0 := by
    simp only [removeChain, chainExists, runIptables, Prog.bind_eq, Prog.pure_eq, Prog.ask,
      Prog.call_bind, Prog.ret_bind, Prog.next, Next.call.injEq, heq_eq_eq, true_and]
    funext exited
    cases exited <;> rfl
  cases cs with
  | nil => simp [exec, removeChain, chainExists, runIptables, Prog.ask] at hrun
  | cons c cs =>
    rw [exec_cons hnext] at hrun
    rw [List.headD_cons]
    by_cases hc : t.chain = none
    · rw [faulty_none (act_listChain_none.mpr hc)] at hrun
      simp only [Bool.false_eq_true, if_false, exec_ret, Prod.mk.injEq] at hrun
      obtain ⟨-, rfl⟩ := hrun
      exact iff_of_true (fun _ => ⟨notMem_of_chain_none hc, hc⟩) (.inl hc)
    cases c with
    | false =>
      rw [faulty_false] at hrun
      simp only [Bool.false_eq_true, if_false, exec_ret, Prod.mk.injEq, Prog.ret.injEq] at hrun
      obtain ⟨rfl, rfl⟩ := hrun
      simp [hc]
    | true =>
      rw [faulty_true (act_listChain.mpr ⟨hc, rfl⟩)] at hrun
      simp only [if_true] at hrun
      refine iff_of_true (fun h0 => ?_) (.inr rfl)
      have hwp : wp Ipt (fun _ => True)
          ((Prog.all [runIptables .flushChain, runIptables .deleteChain]).bind fun deleted =>
            .ret (if deleted = 0 then 0 else -1))
          (fun code t' => code = 0 → .jump ∉ t'.output ∧ t'.chain = none) t := by
        rw [wp_bind]
        refine (wp_deleteChain t).post fun deleted t' _ h => wp_ret.mpr ⟨trivial, fun h0 => h ?_⟩
        by_contra hd
        simp [hd] at h0
      exact wp_exec hwp hrun h0

/-- **When an answer `0` of `fp_firewall_disable` is true**, for every table and every pattern of
failures. -/
theorem disable_exact {t t' : Table} {cs : List Bool} {r : Int}
    (hrun : exec (faulty act) cs fpFirewallDisable t = (.ret r, t')) :
    (r = 0 → .jump ∉ t'.output ∧ t'.chain = none) ↔
      (t.chain = none ∨ listRuns t.jumps cs = true) := by
  have hnext : fpFirewallDisable.next = .call .checkJump fun exited =>
      if (exited : Bool) = true then .call .deleteJump fun removed =>
        if (removed : Bool) = true then fpFirewallDisable else .ret (-1)
      else removeChain := by
    rw [fpFirewallDisable_eq]
    simp only [removeJumps, Prog.bind, Prog.next, Next.call.injEq, heq_eq_eq, true_and]
    funext exited
    cases exited with
    | false => rfl
    | true =>
      refine congrArg (Prog.call Cmd.deleteJump) (funext fun removed => ?_)
      cases removed <;> rfl
  generalize hk : t.jumps = k
  induction k generalizing t cs with
  | zero =>
    have hj : .jump ∉ t.output := List.count_eq_zero.mp hk
    cases cs with
    | nil => simp [exec, fpFirewallDisable_eq, removeJumps, Prog.bind] at hrun
    | cons c cs =>
      rw [exec_cons hnext, faulty_none (act_checkJump_none.mpr hj)] at hrun
      have h := removeChain_exact hrun
      rw [h]
      cases cs <;> simp [listRuns]
  | succ k ih =>
    have hj : .jump ∈ t.output := List.count_pos_iff.mp (by unfold Table.jumps at hk; omega)
    have hk' : t.dropJump.jumps = k := by have := Table.jumps_dropJump hj; omega
    cases cs with
    | nil => simp [exec, fpFirewallDisable_eq, removeJumps, Prog.bind] at hrun
    | cons c cs =>
      rw [exec_cons hnext] at hrun
      cases c with
      | false =>
        rw [faulty_false] at hrun
        have h := removeChain_exact hrun
        rw [h]
        cases cs <;> simp [listRuns]
      | true =>
        rw [faulty_true (act_checkJump.mpr ⟨hj, rfl⟩)] at hrun
        simp only [if_true] at hrun
        cases cs with
        | nil => simp [exec] at hrun
        | cons c cs =>
          rw [exec_cons rfl] at hrun
          cases c with
          | false =>
            rw [faulty_false] at hrun
            simp only [Bool.false_eq_true, if_false, exec_ret, Prod.mk.injEq, Prog.ret.injEq] at hrun
            obtain ⟨rfl, -⟩ := hrun
            simp [listRuns]
          | true =>
            rw [faulty_true (act_deleteJump.mpr ⟨hj, rfl⟩)] at hrun
            simp only [if_true] at hrun
            have h := ih hrun hk'
            exact h

end FreeProxy
