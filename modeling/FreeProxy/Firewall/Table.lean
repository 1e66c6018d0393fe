import FreeProxy.Config
import FreeProxy.Lib.Faulty
import FreeProxy.Lib.FirstMatch

/-!
# The nat table and the iptables commands

`Table` is what free_proxy can see of the kernel's nat table: the rules of `OUTPUT`, the chain
`FPROXY_OUT` if it exists, and every other chain word for word. A rule of `OUTPUT` is the jump
`-p tcp -j FPROXY_OUT` or another rule (`user`), which does not refer to `FPROXY_OUT`; the kernel
holds no jump to a chain that does not exist, and `Table` carries that.

`Cmd` has one constructor for each argument vector `src/firewall.c` builds, and `act` is what
iptables does with it when its precondition holds. `iptables` is `faulty act`: a command may also
fail without effect, for any reason (`fork`, `exec`, `waitpid`, the xtables lock, the kernel).

Out of scope: the other tables, the counters of the rules, and other programs that use `FPROXY_OUT`.
-/

namespace FreeProxy

open Lib

/-- A rule of `OUTPUT`. -/
inductive OutRule where
  /-- `-p tcp -j FPROXY_OUT` -/
  | jump
  | user (spec : String)
  deriving DecidableEq

/-- A rule of `FPROXY_OUT`. -/
inductive Rule where
  /-- `-d dest -j RETURN` -/
  | ret (dest : Cidr)
  /-- `-p tcp -j REDIRECT --to-ports port` -/
  | redirect (port : Nat)
  | user (spec : String)
  deriving DecidableEq

/-- The nat table: the `OUTPUT` chain, `FPROXY_OUT`, and the other chains. A chain that is jumped to exists. -/
structure Table where
  output : List OutRule
  chain : Option (List Rule)
  others : List (String × List String)
  jump_ok : OutRule.jump ∈ output → chain ≠ none
  deriving DecidableEq

namespace Table

theorem ext' {s t : Table} (ho : s.output = t.output) (hc : s.chain = t.chain)
    (hr : s.others = t.others) : s = t := by
  obtain ⟨_, _, _, _⟩ := s
  obtain ⟨_, _, _, _⟩ := t
  simp only at ho hc hr
  subst ho hc hr
  rfl

/-- The table with `FPROXY_OUT` holding `l`. -/
def setChain (t : Table) (l : List Rule) : Table :=
  { t with chain := some l, jump_ok := fun _ => by simp }

/-- The table with one more jump, in front. -/
def addJump (t : Table) (h : t.chain ≠ none) : Table :=
  { t with output := .jump :: t.output, jump_ok := fun _ => h }

/-- The table without its first jump. -/
def dropJump (t : Table) : Table :=
  { t with
    output := t.output.erase .jump
    jump_ok := fun h => t.jump_ok (List.mem_of_mem_erase h) }

/-- The table without `FPROXY_OUT`. -/
def dropChain (t : Table) (h : OutRule.jump ∉ t.output) : Table :=
  { t with chain := none, jump_ok := fun hj => absurd hj h }

@[simp] theorem setChain_output (t : Table) (l : List Rule) : (t.setChain l).output = t.output := rfl
@[simp] theorem setChain_chain (t : Table) (l : List Rule) : (t.setChain l).chain = some l := rfl
@[simp] theorem setChain_others (t : Table) (l : List Rule) : (t.setChain l).others = t.others := rfl
@[simp] theorem addJump_output (t : Table) (h) : (t.addJump h).output = .jump :: t.output := rfl
@[simp] theorem addJump_chain (t : Table) (h) : (t.addJump h).chain = t.chain := rfl
@[simp] theorem addJump_others (t : Table) (h) : (t.addJump h).others = t.others := rfl
@[simp] theorem dropJump_output (t : Table) : t.dropJump.output = t.output.erase .jump := rfl
@[simp] theorem dropJump_chain (t : Table) : t.dropJump.chain = t.chain := rfl
@[simp] theorem dropJump_others (t : Table) : t.dropJump.others = t.others := rfl
@[simp] theorem dropChain_output (t : Table) (h) : (t.dropChain h).output = t.output := rfl
@[simp] theorem dropChain_chain (t : Table) (h) : (t.dropChain h).chain = none := rfl
@[simp] theorem dropChain_others (t : Table) (h) : (t.dropChain h).others = t.others := rfl

/-- The number of jumps. -/
def jumps (t : Table) : Nat := t.output.count .jump

/-- The rules of `OUTPUT` that are not free_proxy's. -/
def userOutput (t : Table) : List OutRule := t.output.filter (· ≠ .jump)

theorem userOutput_dropJump (t : Table) : t.dropJump.userOutput = t.userOutput := by
  unfold userOutput dropJump
  rw [← List.erase_filter]
  exact List.erase_of_not_mem (by simp)

end Table

/-! ## Commands -/

/-- What follows `-A` or `-C FPROXY_OUT`. -/
inductive RuleSpec where
  /-- `-d dest -j RETURN` -/
  | ret (dest : List Char)
  /-- `-p tcp -j REDIRECT --to-ports port` -/
  | redirect (port : List Char)
  deriving DecidableEq

/-- `-A` or `-C`. -/
inductive RuleOp where
  | append
  | check
  deriving DecidableEq

/-- An argument vector after `iptables -w -t nat`. -/
inductive Cmd where
  /-- `-S FPROXY_OUT` -/
  | listChain
  /-- `-N FPROXY_OUT` -/
  | newChain
  /-- `-F FPROXY_OUT` -/
  | flushChain
  /-- `-X FPROXY_OUT` -/
  | deleteChain
  /-- `-C OUTPUT -p tcp -j FPROXY_OUT` -/
  | checkJump
  /-- `-I OUTPUT 1 -p tcp -j FPROXY_OUT` -/
  | insertJump
  /-- `-D OUTPUT -p tcp -j FPROXY_OUT` -/
  | deleteJump
  /-- `-A FPROXY_OUT ..` or `-C FPROXY_OUT ..` -/
  | rule (op : RuleOp) (spec : RuleSpec)
  deriving DecidableEq

/-- iptables reads the operands of a rule. -/
def RuleSpec.parse : RuleSpec → Option Rule
  | .ret dest => (Cidr.parse dest).map .ret
  | .redirect port => (parseDecimal port).map .redirect

/-- What a command does when its precondition holds. -/
def act : Cmd → Table → Option Table
  | .listChain, t => if t.chain = none then none else some t
  | .newChain, t => if t.chain = none then some (t.setChain []) else none
  | .flushChain, t => t.chain.map fun _ => t.setChain []
  | .deleteChain, t =>
    -- the kernel deletes a chain that is empty and that no rule refers to
    if h : t.chain = some [] ∧ .jump ∉ t.output then some (t.dropChain h.2) else none
  | .checkJump, t => if .jump ∈ t.output then some t else none
  | .insertJump, t => if h : t.chain = none then none else some (t.addJump h)
  | .deleteJump, t => if .jump ∈ t.output then some t.dropJump else none
  | .rule .append spec, t => t.chain.bind fun l => spec.parse.map fun r => t.setChain (l ++ [r])
  | .rule .check spec, t => t.chain.bind fun l => spec.parse.bind fun r =>
      if r ∈ l then some t else none

/-- iptables: a command that is not executed, for whatever reason, fails without effect. -/
abbrev iptables : Sem Cmd (fun _ => Bool) Bool Table := faulty act

/-- What a caller of iptables may see. -/
abbrev Ipt : Rel Cmd (fun _ => Bool) Table := Faulty act

/-! ### The commands, one by one -/

theorem act_listChain {t t' : Table} : act .listChain t = some t' ↔ t.chain ≠ none ∧ t' = t := by
  simp only [act]
  split <;> simp_all [eq_comm]

theorem act_newChain {t t' : Table} :
    act .newChain t = some t' ↔ t.chain = none ∧ t' = t.setChain [] := by
  simp only [act]
  split <;> simp_all [eq_comm]

theorem act_flushChain {t t' : Table} :
    act .flushChain t = some t' ↔ t.chain ≠ none ∧ t' = t.setChain [] := by
  simp only [act]
  cases h : t.chain <;> simp [eq_comm]

theorem act_deleteChain {t t' : Table} :
    act .deleteChain t = some t' ↔ t.chain = some [] ∧ ∃ h : .jump ∉ t.output, t' = t.dropChain h := by
  simp only [act]
  split
  · rename_i h
    simp only [Option.some.injEq, h.1, true_and]
    exact ⟨fun e => ⟨h.2, e.symm⟩, fun ⟨_, e⟩ => e.symm⟩
  · rename_i h
    simp only [reduceCtorEq, false_iff, not_and]
    exact fun hc ⟨hj, _⟩ => h ⟨hc, hj⟩

theorem act_checkJump {t t' : Table} :
    act .checkJump t = some t' ↔ .jump ∈ t.output ∧ t' = t := by
  simp only [act]
  split <;> simp_all [eq_comm]

theorem act_insertJump {t t' : Table} :
    act .insertJump t = some t' ↔ ∃ h : t.chain ≠ none, t' = t.addJump h := by
  simp only [act]
  split
  · rename_i h
    simp only [reduceCtorEq, false_iff, not_exists]
    exact fun hc => absurd h hc
  · rename_i h
    simp only [Option.some.injEq]
    exact ⟨fun e => ⟨h, e.symm⟩, fun ⟨_, e⟩ => e.symm⟩

theorem act_deleteJump {t t' : Table} :
    act .deleteJump t = some t' ↔ .jump ∈ t.output ∧ t' = t.dropJump := by
  simp only [act]
  split <;> simp_all [eq_comm]

theorem act_append {t t' : Table} {spec : RuleSpec} :
    act (.rule .append spec) t = some t' ↔
      ∃ l r, t.chain = some l ∧ spec.parse = some r ∧ t' = t.setChain (l ++ [r]) := by
  simp only [act]
  cases t.chain <;> cases spec.parse <;> simp [eq_comm]

theorem act_check {t t' : Table} {spec : RuleSpec} :
    act (.rule .check spec) t = some t' ↔
      ∃ l r, t.chain = some l ∧ spec.parse = some r ∧ r ∈ l ∧ t' = t := by
  simp only [act]
  cases t.chain with
  | none => simp
  | some l =>
    cases spec.parse with
    | none => simp
    | some r =>
      by_cases h : r ∈ l <;> simp [h, eq_comm]

/-- Nothing a command does touches the rules that are not free_proxy's. -/
theorem act_user {c : Cmd} {t t' : Table} (h : act c t = some t') :
    t'.userOutput = t.userOutput ∧ t'.others = t.others := by
  cases c with
  | listChain => obtain ⟨-, rfl⟩ := act_listChain.mp h; exact ⟨rfl, rfl⟩
  | newChain => obtain ⟨-, rfl⟩ := act_newChain.mp h; exact ⟨rfl, rfl⟩
  | flushChain => obtain ⟨-, rfl⟩ := act_flushChain.mp h; exact ⟨rfl, rfl⟩
  | deleteChain => obtain ⟨-, _, rfl⟩ := act_deleteChain.mp h; exact ⟨rfl, rfl⟩
  | checkJump => obtain ⟨-, rfl⟩ := act_checkJump.mp h; exact ⟨rfl, rfl⟩
  | insertJump =>
    obtain ⟨_, rfl⟩ := act_insertJump.mp h
    exact ⟨by simp [Table.userOutput], rfl⟩
  | deleteJump =>
    obtain ⟨-, rfl⟩ := act_deleteJump.mp h
    exact ⟨t.userOutput_dropJump, rfl⟩
  | rule op spec =>
    cases op with
    | append => obtain ⟨_, _, -, -, rfl⟩ := act_append.mp h; exact ⟨rfl, rfl⟩
    | check => obtain ⟨_, _, -, -, -, rfl⟩ := act_check.mp h; exact ⟨rfl, rfl⟩

end FreeProxy
