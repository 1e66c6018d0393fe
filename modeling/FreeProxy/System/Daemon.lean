import FreeProxy.System.State

/-!
# The daemon

`fp_proxy_run` of `src/proxy.c` and the `run` branch of `main`. The accept loop is one call,
`serve`; what comes before it is `fpProxyStart` and what comes after it `fpProxyStop`.

`daemonStart` and `daemonExit` are the same code from the point of view of the process that started
the daemon or signals it: what the daemon does until it serves, and what it does once it is told to
stop. `mainRun_eq` puts the `run` branch together from them.

Out of scope: the clients (`serve` is one call), the byte that the parent reads, and the system
calls within each step; `FreeProxy.System.Readiness` has those, and `FreeProxy.System.Grain`
connects the two.
-/

namespace FreeProxy

open Lib

/-- `signal_ready`. -/
def signalReady (readyFd : Int) (value : Char) : App Unit :=
  if 0 ≤ readyFd then Op.ask (.signalReady value) else pure ()

/-- `fp_stats_close`: the file is removed by the process that created it. -/
def fpStatsClose (owner : Bool) : App Unit :=
  if owner then Op.ask .statsUnlink else pure ()

/-- `fp_stats_create() != 0 || fp_write_pid(config) != 0 || fp_firewall_enable(config) != 0`: whether
the stats file was created, and the status of the chain. -/
def fpProxyInstall (self : Nat) (config : Config) : App (Bool × Int) := do
  if !(← Op.ask (.statsCreate self)) then pure (false, -1) else do
  if !(← Op.ask (.writePid self config)) then pure (true, -1) else do
  let enabled ← fw (fpFirewallEnable config)
  pure (true, enabled)

/-- `fp_proxy_run` up to its accept loop. -/
def fpProxyStart (self : Nat) (config : Config) (readyFd : Int) : App Int := do
  if !(← Op.ask (.listen self config)) then do
    signalReady readyFd 'E'
    pure (-1)
  else do
  let (created, installed) ← fpProxyInstall self config
  if installed ≠ 0 then do
    Op.ask (.closeListener self)
    Op.ask .removePid
    fpStatsClose created
    let _ ← fw fpFirewallDisable
    signalReady readyFd 'E'
    pure (-1)
  else do
  signalReady readyFd 'R'
  pure 0

/-- What `fp_proxy_run` does when the installation has failed. -/
def abandonStart (self : Nat) (created : Bool) (readyFd : Int) : App Unit := do
  Op.ask (.closeListener self)
  Op.ask .removePid
  fpStatsClose created
  let _ ← fw fpFirewallDisable
  signalReady readyFd 'E'

theorem fpProxyStart_eq (self : Nat) (config : Config) (readyFd : Int) :
    fpProxyStart self config readyFd = (Op.ask (.listen self config)).bind fun bound =>
      if bound = true then (fpProxyInstall self config).bind fun installed =>
        if installed.2 = 0 then (signalReady readyFd 'R').bind fun _ => .ret 0
        else (abandonStart self installed.1 readyFd).bind fun _ => .ret (-1)
      else (signalReady readyFd 'E').bind fun _ => .ret (-1) := by
  unfold fpProxyStart abandonStart
  simp only [Prog.bind_eq, Prog.pure_eq, Prog.bind_assoc, Bool.not_eq_true', ne_eq, ite_not]
  refine congrArg _ (funext fun bound => ?_)
  cases bound <;> rfl

/-- `fp_proxy_run` after its accept loop. -/
def fpProxyStop (self : Nat) : App Unit := do
  Op.ask (.closeListener self)
  Op.ask .removePid
  fpStatsClose true

/-- `fp_proxy_run`: the start, the accept loop and the end. -/
def fpProxyRun (self : Nat) (config : Config) (readyFd : Int) : App Int := do
  let started ← fpProxyStart self config readyFd
  if started ≠ 0 then pure (-1) else do
  let stopped ← Op.ask .serve
  fpProxyStop self
  pure (if stopped then 0 else -1)

/-! ## `free_proxy run` -/

/-- The arguments of `run`: the descriptor of the readiness pipe, `-1` without one, `none` when the
arguments are refused. -/
def readyArgument : List (List Char) → Option Int
  | [_, _] => some (-1)
  | [_, _, flag, text] =>
    let value := strtol text
    if flag = ['-', '-', 'r', 'e', 'a', 'd', 'y', '-', 'f', 'd'] ∧ value.rest = [] ∧
        0 ≤ value.value ∧ value.value ≤ 1024 then some value.value
    else none
  | _ => none

/-- The `run` branch of `main`, in the process `self`. -/
def mainRun (argv : List (List Char)) (self : Nat) : App Int :=
  match readyArgument argv with
  | none => pure 1
  | some readyFd => do
    match ← Op.ask .configLoad with
    | none => do
      signalReady readyFd 'E'
      pure 1
    | some config => do
      let result ← fpProxyRun self config readyFd
      let _ ← fw fpFirewallDisable
      pure (if result = 0 then 0 else 1)

/-- The `run` branch until it serves (`none`) or has returned (`some`). -/
def daemonStart (argv : List (List Char)) (self : Nat) : App (Option Int) :=
  match readyArgument argv with
  | none => pure (some 1)
  | some readyFd => do
    match ← Op.ask .configLoad with
    | none => do
      signalReady readyFd 'E'
      pure (some 1)
    | some config => do
      let started ← fpProxyStart self config readyFd
      if started = 0 then pure none else do
      let _ ← fw fpFirewallDisable
      pure (some 1)

/-- The `run` branch after the accept loop. -/
def daemonStop (self : Nat) (stopped : Bool) : App Int := do
  fpProxyStop self
  let _ ← fw fpFirewallDisable
  pure (if stopped then 0 else 1)

/-- What a serving daemon does when it is told to stop. -/
def daemonExit (self : Nat) : App Unit := do
  let _ ← daemonStop self true
  Op.ask (.exit self)

theorem mainRun_eq (argv : List (List Char)) (self : Nat) :
    mainRun argv self = (daemonStart argv self).bind fun
      | some code => .ret code
      | none => (Op.ask .serve).bind fun stopped => daemonStop self stopped := by
  unfold mainRun daemonStart
  cases readyArgument argv with
  | none => rfl
  | some readyFd =>
    refine congrArg (Prog.call (E := Op) .configLoad) (funext fun loaded => ?_)
    cases loaded with
    | none =>
      simp only [Prog.bind_eq, Prog.pure_eq, Prog.ret_bind, Prog.bind_assoc]
    | some config =>
      simp only [fpProxyRun, daemonStop, Prog.bind_eq, Prog.pure_eq, Prog.ret_bind,
        Prog.bind_assoc]
      refine congrArg _ (funext fun started => ?_)
      by_cases h : started = 0
      · simp only [h, ne_eq, not_true_eq_false, if_false, if_true, Prog.ret_bind, Prog.bind_assoc]
        refine congrArg _ (funext fun stopped => ?_)
        cases stopped <;> rfl
      · simp only [h, ne_eq, not_false_eq_true, if_false, if_true, Prog.ret_bind, Prog.bind_assoc]
        rfl

end FreeProxy
