import FreeProxy.Firewall.Code

/-!
# What the rules mean

The abstract side: a configuration means a policy. A TCP packet goes to its destination directly
when that is the proxy, in `127.0.0.0/8` or in a bypass network, and to the forwarder's port
otherwise (`Config.policy`). The concrete side: a chain means its first-match verdict
(`chainVerdict`), and `OUTPUT` sends a packet through the chain when the packet reaches a jump
(`Table.redirected`).

`Config.rules` is the chain `fp_firewall_enable` builds. Headlines:
* **`chainVerdict_rules`**: that chain implements the policy, for every destination;
* **`chainVerdict_isPrefix`**: so does every unfinished part of it as far as direct destinations go;
* `proxyRule_parse` and the like: iptables reads the texts of the code as these rules.

Out of scope: packets that are not TCP, and what becomes of a packet behind the nat table.
-/

namespace FreeProxy

open Lib

/-- What a chain decides: `RETURN`, `REDIRECT` to a port, or another final verdict. -/
inductive Verdict where
  | ret
  | redirect (port : Nat)
  | final
  deriving DecidableEq

/-- `127.0.0.0/8`. -/
def loopback : Cidr := ⟨0x7f000000, 8, by decide, by decide⟩

/-- The destinations a configuration leaves alone. -/
def Config.Direct (c : Config) (d : Addr) : Prop :=
  d = c.proxyAddr ∨ loopback.contains d = true ∨ ∃ b ∈ c.bypass, b.cidr.contains d = true

instance (c : Config) (d : Addr) : Decidable (c.Direct d) := by
  unfold Config.Direct
  infer_instance

/-- **The policy of a configuration.** -/
def Config.policy (c : Config) (d : Addr) : Verdict :=
  if c.Direct d then .ret else .redirect fpListenPort

theorem policy_eq_ret {c : Config} {d : Addr} : c.policy d = .ret ↔ c.Direct d := by
  unfold Config.policy
  split <;> simp_all

theorem policy_of_direct {c : Config} {d : Addr} (h : c.Direct d) : c.policy d = .ret := if_pos h

theorem policy_of_not_direct {c : Config} {d : Addr} (h : ¬ c.Direct d) :
    c.policy d = .redirect fpListenPort := if_neg h

/-- A configuration leaves its own proxy alone. -/
theorem direct_proxy (c : Config) : c.Direct c.proxyAddr := Or.inl rfl

/-! ## Chains -/

/-- What a rule that is not free_proxy's decides on a destination. -/
abbrev UserRules := String → Addr → Option Verdict

/-- What one rule says about a destination. -/
def Rule.verdict (usr : UserRules) (d : Addr) : Rule → Option Verdict
  | .ret dest => if dest.contains d then some .ret else none
  | .redirect port => some (.redirect port)
  | .user spec => usr spec d

/-- First match; a packet that meets no rule returns. -/
def chainVerdict (usr : UserRules) (l : List Rule) (d : Addr) : Verdict :=
  firstMatch (Rule.verdict usr d) .ret l

/-- The networks of the `RETURN` rules, in order. -/
def Config.nets (c : Config) : List Cidr :=
  Cidr.host c.proxyAddr :: loopback :: c.bypass.map Bypass.cidr

/-- The rules in front of the redirection. -/
def Config.exclusions (c : Config) : List Rule := c.nets.map .ret

/-- The chain `fp_firewall_enable` builds. -/
def Config.rules (c : Config) : List Rule := c.exclusions ++ [.redirect fpListenPort]

theorem direct_iff_nets {c : Config} {d : Addr} :
    c.Direct d ↔ ∃ n ∈ c.nets, n.contains d = true := by
  unfold Config.Direct Config.nets
  simp only [List.mem_cons, List.mem_map, exists_eq_or_imp, Cidr.mem_host]
  refine or_congr Iff.rfl (or_congr Iff.rfl ⟨?_, ?_⟩)
  · rintro ⟨b, hb, hd⟩; exact ⟨b.cidr, ⟨b, hb, rfl⟩, hd⟩
  · rintro ⟨_, ⟨b, hb, rfl⟩, hd⟩; exact ⟨b, hb, hd⟩

section Verdicts

variable (usr : UserRules)

theorem ret_verdict (n : Cidr) (d : Addr) :
    Rule.verdict usr d (.ret n) = none ∨ Rule.verdict usr d (.ret n) = some .ret := by
  simp only [Rule.verdict]
  by_cases h : n.contains d = true
  · right; rw [if_pos h]
  · left; rw [if_neg h]

theorem ret_verdict_eq_some {n : Cidr} {d : Addr} :
    Rule.verdict usr d (.ret n) = some .ret ↔ n.contains d = true := by
  unfold Rule.verdict
  split <;> simp_all

theorem exceptions_map_ret (l : List Cidr) (d : Addr) :
    Exceptions (Rule.verdict usr d) .ret (l.map .ret) := by
  intro r hr
  obtain ⟨n, -, rfl⟩ := List.mem_map.mp hr
  exact ret_verdict usr n d

theorem exists_ret_iff {l : List Cidr} {d : Addr} :
    (∃ r ∈ l.map Rule.ret, Rule.verdict usr d r = some .ret) ↔ ∃ n ∈ l, n.contains d = true := by
  constructor
  · rintro ⟨r, hr, hv⟩
    obtain ⟨n, hn, rfl⟩ := List.mem_map.mp hr
    exact ⟨n, hn, (ret_verdict_eq_some usr).mp hv⟩
  · rintro ⟨n, hn, hd⟩
    exact ⟨.ret n, List.mem_map_of_mem hn, (ret_verdict_eq_some usr).mpr hd⟩

/-- **The chain of a configuration implements its policy.** -/
theorem chainVerdict_rules (c : Config) (d : Addr) : chainVerdict usr c.rules d = c.policy d := by
  unfold chainVerdict Config.rules Config.exclusions Config.policy
  rw [firstMatch_policy (exceptions_map_ret usr c.nets d) rfl []]
  exact if_congr ((exists_ret_iff usr).trans direct_iff_nets.symm) rfl rfl

/-- **An unfinished chain redirects no direct destination.** -/
theorem chainVerdict_isPrefix {c : Config} {l : List Rule} (hl : l <+: c.rules) {d : Addr}
    (hd : c.Direct d) : chainVerdict usr l d = .ret := by
  rcases List.prefix_concat_iff.mp hl with rfl | h
  · exact (chainVerdict_rules usr c d).trans (policy_of_direct hd)
  · exact firstMatch_exceptions
      (exceptions_mono (exceptions_map_ret usr c.nets d) fun r hr => h.subset hr)

end Verdicts

/-! ## `OUTPUT` -/

/-- The port a packet to `d` is redirected to by the rules of `OUTPUT`, through `chain`. -/
def outputRedirect (usr : UserRules) (chain : List Rule) (d : Addr) : List OutRule → Option Nat
  | [] => none
  | .jump :: rest =>
    match chainVerdict usr chain d with
    | .ret => outputRedirect usr chain d rest
    | .redirect port => some port
    | .final => none
  | .user spec :: rest =>
    match usr spec d with
    | none => outputRedirect usr chain d rest
    | some _ => none

/-- **The fate of a TCP packet to `d`**: the port it is redirected to, if it is. -/
def Table.redirected (usr : UserRules) (t : Table) (d : Addr) : Option Nat :=
  outputRedirect usr (t.chain.getD []) d t.output

/-- `OUTPUT` jumps to a chain that redirects a packet to `d`. -/
def Table.Captures (usr : UserRules) (t : Table) (d : Addr) : Prop :=
  .jump ∈ t.output ∧ ∃ l port, t.chain = some l ∧ chainVerdict usr l d = .redirect port

section Output

variable {usr : UserRules}

theorem outputRedirect_some {chain : List Rule} {d : Addr} {port : Nat} :
    ∀ {out : List OutRule}, outputRedirect usr chain d out = some port →
      .jump ∈ out ∧ chainVerdict usr chain d = .redirect port
  | [], h => by simp [outputRedirect] at h
  | .jump :: rest, h => by
    simp only [outputRedirect] at h
    cases hv : chainVerdict usr chain d with
    | ret =>
      rw [hv] at h
      rw [← hv]
      exact ⟨List.mem_cons_self, (outputRedirect_some h).2⟩
    | redirect p =>
      rw [hv] at h
      exact ⟨List.mem_cons_self, by rw [Option.some.inj h]⟩
    | final => rw [hv] at h; simp at h
  | .user spec :: rest, h => by
    simp only [outputRedirect] at h
    cases hu : usr spec d with
    | none =>
      rw [hu] at h
      obtain ⟨hj, hv⟩ := outputRedirect_some h
      exact ⟨List.mem_cons_of_mem _ hj, hv⟩
    | some v => rw [hu] at h; simp at h

/-- A packet is redirected only by a jump to a chain that redirects it. -/
theorem captures_of_redirected {t : Table} {d : Addr} {port : Nat}
    (h : t.redirected usr d = some port) : t.Captures usr d := by
  obtain ⟨hj, hv⟩ := outputRedirect_some h
  obtain ⟨l, hl⟩ := Option.ne_none_iff_exists'.mp (t.jump_ok hj)
  rw [hl] at hv
  exact ⟨hj, l, port, hl, hv⟩

/-- A jump in front decides for every packet that the chain redirects. -/
theorem redirected_of_jump {t : Table} {out : List OutRule} {l : List Rule} {d : Addr} {port : Nat}
    (ho : t.output = .jump :: out) (hl : t.chain = some l)
    (hv : chainVerdict usr l d = .redirect port) : t.redirected usr d = some port := by
  unfold Table.redirected
  rw [ho, hl, Option.getD_some]
  simp only [outputRedirect, hv]

theorem redirected_eq_none {t : Table} {d : Addr} (h : ¬ t.Captures usr d) :
    t.redirected usr d = none := by
  cases hr : t.redirected usr d with
  | none => rfl
  | some port => exact absurd (captures_of_redirected hr) h

/-- The table captures nothing that its configuration leaves alone. -/
theorem not_captures_of_isPrefix {t : Table} {c : Config} {l : List Rule} (hl : t.chain = some l)
    (hp : l <+: c.rules) {d : Addr} (hd : c.Direct d) : ¬ t.Captures usr d := by
  rintro ⟨-, m, port, hm, hv⟩
  rw [hl, Option.some.injEq] at hm
  subst hm
  rw [chainVerdict_isPrefix usr hp hd] at hv
  simp at hv

end Output

/-! ## The texts of the code -/

theorem proxyRule_parse (c : Config) :
    (proxyRule c).parse = some (.ret (Cidr.host c.proxyAddr)) := by
  simp only [proxyRule, RuleSpec.parse, Cidr.parse_inetNtop, Option.map_some]

theorem loopbackRule_parse : loopbackRule.parse = some (.ret loopback) := by decide

theorem redirectRule_parse : redirectRule.parse = some (.redirect fpListenPort) := by
  simp only [redirectRule, RuleSpec.parse, parseDecimal_decimal, Option.map_some]

theorem bypassRule_parse (b : Bypass) : (RuleSpec.ret b.text).parse = some (.ret b.cidr) := by
  simp only [RuleSpec.parse, b.text_eq, Cidr.parse_text, Option.map_some]

end FreeProxy
