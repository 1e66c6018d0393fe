import FreeProxy.Firewall.Removal

/-!
# Installation and its check

* **`enable_installs_policy`**: a successful `fp_firewall_enable(c)` installs the policy of `c`,
  whatever the table was, and from the flush on no moment redirects the proxy of `c`.
* **`isEnabled_sound_iff`**: when `fp_firewall_is_enabled(c)` may answer `1` for a chain that is not
  the policy of `c`. The function looks for the rules of `c` and not for others, so an exclusion
  that another configuration left in the chain goes unseen.
-/

namespace FreeProxy

open Lib

/-- **`fp_firewall_enable` installs exactly the configured policy.** -/
theorem enable_installs_policy (c : Config) (t : Table) :
    (∀ t', Runs Ipt (fpFirewallEnable c) t 0 t' →
      (∀ usr d, ∃ l, t'.chain = some l ∧ chainVerdict usr l d =
        if d = c.proxyAddr ∨ loopback.contains d = true ∨ ∃ b ∈ c.bypass, b.cidr.contains d = true
        then .ret else .redirect fpListenPort) ∧
      1 ≤ t'.jumps ∧ t.jumps ≤ t'.jumps ∧ t'.jumps ≤ t.jumps + 1 ∧
      t'.userOutput = t.userOutput ∧ t'.others = t.others ∧
      Completes act (fpFirewallIsEnabled c) t' 1 t' ∧
      ∀ c₂ t₂ u u₂, Runs Ipt (fpFirewallEnable c₂) t' 0 t₂ → Runs Ipt (fpFirewallEnable c₂) u 0 u₂ →
        t₂.chain = u₂.chain) ∧
    ∀ tr q t', Steps Ipt (fpFirewallEnable c) t tr q t' → ⟨.flushChain, true⟩ ∈ tr →
      ∀ usr, t'.redirected usr c.proxyAddr = none := by
  have henabled : ∀ {c t t'}, Runs Ipt (fpFirewallEnable c) t 0 t' → Enabled c t t' := by
    intro c t t' h
    rcases (wp_enable_ipt c t).runs h with ⟨-, h⟩ | h
    · exact h
    · simp at h
  refine ⟨fun t' hrun => ?_, fun tr q t' hs hflush usr => ?_⟩
  · have h := henabled hrun
    have hjumps : 1 ≤ t'.jumps := List.count_pos_iff.mpr h.jump_mem
    have hgain : t'.jumps = t.jumps ∨ t'.jumps = t.jumps + 1 := by
      unfold Table.jumps
      rcases h.output with ⟨-, ho⟩ | ho
      · exact .inl (by rw [ho])
      · exact .inr (by rw [ho, List.count_cons_self])
    have huser := (wp_user (fpFirewallEnable c) t).runs hrun
    refine ⟨fun usr d => ⟨c.rules, h.chain, chainVerdict_rules usr c d⟩, hjumps, by omega, by omega,
      huser.1, huser.2, completes_isEnabled h.shows, fun c₂ t₂ u u₂ h₂ h₃ => ?_⟩
    rw [(henabled h₂).chain, (henabled h₃).chain]
  · obtain ⟨m, hI, -⟩ := steps_of_budget (wp_enable_log c t) hs
    have hsafe : t'.Safe c := by
      rcases hI with hb | hen
      · exact hb.chain.resolve_left fun h => h.2 hflush
      · exact Table.safe_of_isPrefix hen.chain (List.prefix_refl _)
    refine redirected_eq_none fun hcap => ?_
    obtain ⟨-, l, port, hl, -⟩ := id hcap
    exact not_captures_of_isPrefix hl (hsafe l hl) (direct_proxy c) hcap

/-- A table in which another configuration and another user have left rules. -/
def staleTable : Table := ⟨[.user "-j LOG", .jump], some [.user "-j ACCEPT", .redirect 1], [], by decide⟩

/-- `10.1.2.3` is left alone and `8.8.8.8` is redirected, through the jump that was there. -/
theorem enable_installs_policy_stale : ∃ t', Runs Ipt (fpFirewallEnable wideConfig) staleTable 0 t' ∧
    t'.jumps = 1 ∧ ∃ l, t'.chain = some l ∧
      (∀ usr, chainVerdict usr l 0x0a010203 = .ret) ∧
      ∀ usr, chainVerdict usr l 0x08080808 = .redirect 12345 := by
  have hruns := (completes_enable wideConfig staleTable).runs
  have h := ((enable_installs_policy wideConfig staleTable).1 _ hruns).1
  refine ⟨_, hruns, rfl, wideConfig.rules, rfl, fun usr => ?_, fun usr => ?_⟩
  · obtain ⟨l, hl, hv⟩ := h usr 0x0a010203
    rw [← Option.some.inj hl, if_pos (by decide)] at hv
    exact hv
  · obtain ⟨l, hl, hv⟩ := h usr 0x08080808
    rw [← Option.some.inj hl, if_neg (by decide)] at hv
    exact hv

/-! ## The check -/

/-- The tables that calls of `fp_firewall_enable` and `fp_firewall_disable` lead to from a table
without rules of free_proxy. Commands may fail, and a call may be cut short. -/
inductive FirewallReach : Table → Prop where
  | init {t : Table} (hj : .jump ∉ t.output) (hc : t.chain = none) : FirewallReach t
  | enable {c : Config} {t t' : Table} {tr : List (Ev Cmd fun _ => Bool)} {q : Fw Int}
      (h : FirewallReach t) (hs : Steps Ipt (fpFirewallEnable c) t tr q t') : FirewallReach t'
  | disable {t t' : Table} {tr : List (Ev Cmd fun _ => Bool)} {q : Fw Int}
      (h : FirewallReach t) (hs : Steps Ipt fpFirewallDisable t tr q t') : FirewallReach t'

/-- **The chain is always some configuration's, finished or not.** -/
theorem FirewallReach.safe {t : Table} (h : FirewallReach t) : ∃ c, t.Safe c := by
  induction h with
  | init _ hc => exact ⟨.zero, Table.safe_of_none hc⟩
  | @enable c t t' tr q _ hs ih =>
    rcases (wp_enable_ipt c t tr q t' hs).1 with ⟨-, hc | hsafe⟩ | hen
    · obtain ⟨c₀, h₀⟩ := ih
      exact ⟨c₀, fun l hl => h₀ l (hc ▸ hl)⟩
    · exact ⟨c, hsafe⟩
    · exact ⟨c, Table.safe_of_isPrefix hen.chain (List.prefix_refl _)⟩
  | @disable t t' tr q _ hs ih =>
    obtain ⟨c₀, h₀⟩ := ih
    refine ⟨c₀, ?_⟩
    rcases (wp_disable t tr q t' hs).1.2 with hc | hc | hc
    · exact fun l hl => h₀ l (hc ▸ hl)
    · exact Table.safe_of_isPrefix hc List.nil_prefix
    · exact Table.safe_of_none hc

/-- A prefix that redirects is the whole chain. -/
theorem eq_rules_of_redirect {c : Config} {l : List Rule} (hl : l <+: c.rules)
    (hr : .redirect fpListenPort ∈ l) : l = c.rules := by
  rcases List.prefix_concat_iff.mp hl with h | h
  · exact h
  · obtain ⟨n, -, hn⟩ := List.mem_map.mp (h.subset hr)
    simp at hn

/-- The destinations that a `RETURN` rule of a finished chain covers are its direct ones. -/
theorem covered_iff {c : Config} {d : Addr} :
    (∃ n, Rule.ret n ∈ c.rules ∧ n.contains d = true) ↔ c.Direct d := by
  rw [direct_iff_nets]
  simp [Config.rules, Config.exclusions]

/-- **When an answer `1` of `fp_firewall_is_enabled(c)` is true.** -/
theorem isEnabled_sound_iff (usr : UserRules) {t : Table} (h : FirewallReach t) (c : Config) :
    (∀ cs t', exec iptables cs (fpFirewallIsEnabled c) t = (.ret 1, t') →
        ∀ d, chainVerdict usr (t.chain.getD []) d = c.policy d) ↔
      (.jump ∉ t.output ∨ (∃ r ∈ c.rules, r ∉ t.chain.getD []) ∨
        ∀ n, Rule.ret n ∈ t.chain.getD [] → ∀ d, n.contains d = true → c.Direct d) := by
  by_cases hshows : t.Shows c
  · -- the chain is the whole chain of some configuration `c₀`
    obtain ⟨c₀, h₀⟩ := h.safe
    obtain ⟨hj, l, hl, hr⟩ := id hshows
    have hmem : .redirect fpListenPort ∈ c.rules := by simp [Config.rules]
    obtain rfl := eq_rules_of_redirect (h₀ l hl) (hr _ hmem)
    rw [hl, Option.getD_some]
    have hcomplete : ∃ cs t', exec iptables cs (fpFirewallIsEnabled c) t = (.ret 1, t') := by
      obtain ⟨N, hN⟩ := completes_isEnabled hshows
      exact ⟨_, t, hN N (le_refl N)⟩
    constructor
    · intro hverdict
      obtain ⟨cs, t', hrun⟩ := hcomplete
      refine .inr (.inr fun n hn d hd => ?_)
      have hd₀ : c₀.Direct d := covered_iff.mp ⟨n, hn, hd⟩
      rw [← policy_eq_ret, ← hverdict cs t' hrun d, chainVerdict_rules]
      exact policy_of_direct hd₀
    · rintro (hnj | ⟨r, hrc, hrn⟩ | hcov) cs t' - d
      · exact absurd hj hnj
      · exact absurd (hr r hrc) hrn
      · rw [chainVerdict_rules]
        have hiff : c₀.Direct d ↔ c.Direct d := by
          constructor
          · intro hd
            obtain ⟨n, hn, hnd⟩ := covered_iff.mpr hd
            exact hcov n hn d hnd
          · intro hd
            obtain ⟨n, hn, hnd⟩ := covered_iff.mpr hd
            exact covered_iff.mp ⟨n, hr _ hn, hnd⟩
        unfold Config.policy
        exact if_congr hiff rfl rfl
  · refine iff_of_true (fun cs t' hrun => ?_) ?_
    · rcases wp_exec (wp_isEnabled c t) hrun with h0 | ⟨-, hs⟩
      · simp at h0
      · exact absurd hs hshows
    · by_contra hno
      rw [not_or, not_or] at hno
      obtain ⟨hj, hr, -⟩ := hno
      rw [not_not] at hj
      obtain ⟨l, hl⟩ := Option.ne_none_iff_exists'.mp (t.jump_ok hj)
      rw [hl, Option.getD_some] at hr
      exact hshows ⟨hj, l, hl, fun r hrc => by_contra fun hn => hr ⟨r, hrc, hn⟩⟩

/-- `192.0.2.1:1080` without a bypass list. -/
def plainConfig : Config := .make 0xc0000201 1080 [] (Nat.zero_le fpMaxBypass)

theorem firewallReach_wide : FirewallReach (userTable.enabled wideConfig) := by
  obtain ⟨tr, hs⟩ := (completes_enable wideConfig userTable).runs
  exact .enable (.init (by decide) rfl) hs

/-- With `wideConfig` installed the check of `wideConfig` answers `1`, and it is right. -/
theorem isEnabled_sound_wide :
    exec iptables [true, true, true, true, true, true] (fpFirewallIsEnabled wideConfig)
        (userTable.enabled wideConfig) = (.ret 1, userTable.enabled wideConfig) ∧
      ∀ d, chainVerdict (fun _ _ => none) ((userTable.enabled wideConfig).chain.getD []) d =
        wideConfig.policy d := by
  have hrun : exec iptables [true, true, true, true, true, true] (fpFirewallIsEnabled wideConfig)
      (userTable.enabled wideConfig) = (.ret 1, userTable.enabled wideConfig) := rfl
  exact ⟨hrun, (isEnabled_sound_iff (fun _ _ => none) firewallReach_wide wideConfig).mpr
    (.inr (.inr fun n hn _ hd => covered_iff.mp ⟨n, hn, hd⟩)) _ _ hrun⟩

/-- **The check overlooks what is too much**: with `wideConfig` installed it answers `1` for
`plainConfig`, and `10.1.2.3` is not redirected. -/
theorem isEnabled_unsound : ¬ ∀ (usr : UserRules) (t : Table), FirewallReach t → ∀ (c : Config) cs t',
    exec iptables cs (fpFirewallIsEnabled c) t = (.ret 1, t') →
      ∀ d, chainVerdict usr (t.chain.getD []) d = c.policy d := by
  intro h
  have hverdict := h (fun _ _ => none) _ firewallReach_wide plainConfig
    [true, true, true, true, true] _ rfl 0x0a010203
  exact absurd hverdict (by decide)

end FreeProxy
