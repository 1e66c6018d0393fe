import FreeProxy.Firewall.Table

/-!
# `src/firewall.c`

The functions of `src/firewall.c`, call for call. A status code is C's `int`; `Prog.all` is the
short-circuit chain `a != 0 || b != 0 || ..`, and a `for` loop whose body returns at the first
failing command is a `Prog.all` over the entries.

Out of scope: how a command is run. `run_iptables` is one call here, whatever binary
`iptables_binary` gives; `FreeProxy.Concurrency.Child` has its child.
-/

namespace FreeProxy

open Lib

/-- A program that runs iptables. -/
abbrev Fw (α : Type) := Prog Cmd (fun _ => Bool) α

/-- `run_iptables`: `0` when the child exits with status `0`, else `-1`. -/
def runIptables (arguments : Cmd) : Fw Int := do
  let exited ← Prog.ask (E := Cmd) arguments
  pure (if exited then 0 else -1)

/-- `chain_exists`. -/
def chainExists : Fw Bool := do
  let status ← runIptables .listChain
  pure (status == 0)

/-- `output_jump_exists`. -/
def outputJumpExists : Fw Bool := do
  let status ← runIptables .checkJump
  pure (status == 0)

/-- `-d <proxy address> -j RETURN` -/
def proxyRule (config : Config) : RuleSpec := .ret (inetNtop config.proxyAddr)

/-- `-d 127.0.0.0/8 -j RETURN` -/
def loopbackRule : RuleSpec := .ret ['1', '2', '7', '.', '0', '.', '0', '.', '0', '/', '8']

/-- `-p tcp -j REDIRECT --to-ports 12345` -/
def redirectRule : RuleSpec := .redirect (decimal fpListenPort)

/-- `bypass_rule`. -/
def bypassRule (operation : RuleOp) (destination : List Char) : Fw Int :=
  runIptables (.rule operation (.ret destination))

/-- The loop `while (output_jump_exists())` of `fp_firewall_disable`; the loop's call is the one
`output_jump_exists` makes, and a failing removal leaves it with `-1`. -/
def removeJumps : Fw Int :=
  .loop .checkJump (fun exited =>
    if exited then do
      let removed ← runIptables .deleteJump
      pure (if removed ≠ 0 then some (-1) else none)
    else pure (some 0)) .ret

/-- `fp_firewall_disable`. A missing chain is a success; a jump that cannot be removed is not. -/
def fpFirewallDisable : Fw Int := do
  let removed ← removeJumps
  if removed ≠ 0 then pure (-1) else do
  if !(← chainExists) then pure 0 else do
  let deleted ← Prog.all [runIptables .flushChain, runIptables .deleteChain]
  pure (if deleted = 0 then 0 else -1)

/-- `(void)fp_firewall_disable(); return -1;` -/
def rollback : Fw Int := do
  let _ ← fpFirewallDisable
  pure (-1)

/-- `fp_firewall_is_enabled`: it looks for rules, and does not see what else there is. -/
def fpFirewallIsEnabled (config : Config) : Fw Int := do
  if !(← chainExists) then pure 0 else do
  if !(← outputJumpExists) then pure 0 else do
  let present ← Prog.all [runIptables (.rule .check (proxyRule config)),
    runIptables (.rule .check loopbackRule), runIptables (.rule .check redirectRule)]
  if present ≠ 0 then pure 0 else do
  let bypassed ← Prog.all (config.bypass.map fun b => bypassRule .check b.text)
  pure (if bypassed ≠ 0 then 0 else 1)

/-- `!chain_exists() && run_iptables(create_chain) != 0`, as a status code. -/
def ensureChain : Fw Int := do
  if ← chainExists then pure 0 else runIptables .newChain

/-- `run_iptables(check_jump) != 0 && run_iptables(add_jump) != 0`, as a status code. -/
def ensureJump : Fw Int := do
  if (← runIptables .checkJump) = 0 then pure 0 else runIptables .insertJump

/-- `fp_firewall_enable`. The chain is flushed before it is filled, and the jump comes last. -/
def fpFirewallEnable (config : Config) : Fw Int := do
  let created ← ensureChain
  if created ≠ 0 then pure (-1) else do
  let excluded ← Prog.all [runIptables .flushChain, runIptables (.rule .append (proxyRule config)),
    runIptables (.rule .append loopbackRule)]
  if excluded ≠ 0 then rollback else do
  let bypassed ← Prog.all (config.bypass.map fun b => bypassRule .append b.text)
  if bypassed ≠ 0 then rollback else do
  let redirected ← runIptables (.rule .append redirectRule)
  if redirected ≠ 0 then rollback else do
  let jump ← ensureJump
  if jump ≠ 0 then rollback else pure 0

end FreeProxy
