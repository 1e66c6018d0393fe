import FreeProxy.System.Process

/-!
# `src/operations.c`

The operations that take the lock. A status code is C's `int`.

Out of scope: `fp_uninstall` and `fp_collect_status`, which have modules of their own, and the
exclusion by the lock (`FreeProxy.Concurrency.Lock`): here the lock is a call that succeeds or
fails.
-/

namespace FreeProxy

open Lib

/-- `fp_daemon_matches_config(config) && fp_firewall_is_enabled(config)`. -/
def isActive (config : Config) : App Bool := do
  if !(← fpDaemonMatchesConfig config) then pure false else do
  let enabled ← fw (fpFirewallIsEnabled config)
  pure (decide (enabled ≠ 0))

/-- `fp_read_pid() > 1 && fp_stop_daemon() != 0`, as a status code. -/
def stopIfRecorded : App Int := do
  let pid ← fpReadPid
  if pid > 1 then fpStopDaemon else pure 0

/-- `activate_proxy_locked`. -/
def activateProxyLocked (config : Config) : App Int := do
  if ← isActive config then pure 0 else do
  let stopped ← stopIfRecorded
  if stopped ≠ 0 then pure (-1) else do
  let started ← Prog.all [fw fpFirewallDisable, fpStartDaemon config]
  if started ≠ 0 then do
    let _ ← fw fpFirewallDisable
    pure (-1)
  else pure 0

/-- `config.bypass_count = previous_config.bypass_count` and the copy of the list. -/
def Config.withBypassOf (config previous : Config) : Config :=
  { config with bypass := previous.bypass, bypass_le := previous.bypass_le }

/-- `fp_config_save`, as a status code. -/
def fpConfigSave (config : Config) : App Int := do
  let saved ← Op.ask (.configSave config)
  pure (if saved then 0 else -1)

/-- What `fp_enable_proxy` does after a failure: the previous configuration comes back. -/
def restoreConfig (previous : Option Config) (wasRunning : Bool) : App Unit :=
  match previous with
  | none => pure ()
  | some previous => do
    let _ ← fpConfigSave previous
    if wasRunning then do
      let _ ← activateProxyLocked previous
      pure ()
    else pure ()

/-- What `fp_enable_proxy` does with the configuration it has made. -/
def enableConfig (config : Config) (previous : Option Config) : App Int := do
  let pid ← fpReadPid
  let saved ← fpConfigSave config
  if saved ≠ 0 then pure (-1) else do
  let result ← activateProxyLocked config
  if result = 0 then pure 0 else do
  restoreConfig previous (decide (pid > 1))
  pure result

/-- `fp_lock_acquire`, the rest of the operation, `fp_lock_release`. -/
def locked (operation : App Int) : App Int := do
  if !(← Op.ask .lock) then pure (-1) else do
  let result ← operation
  Op.ask .unlock
  pure result

/-- `fp_enable_proxy`. -/
def fpEnableProxy (proxy : List Char) : App Int := locked do
  match fpParseProxy proxy .zero with
  | (0, config) => do
    match ← Op.ask .configLoad with
    | some previous => enableConfig (config.withBypassOf previous) (some previous)
    | none => enableConfig config none
  | _ => pure (-1)

/-- `fp_enable_saved_proxy`. -/
def fpEnableSavedProxy : App Int := locked do
  match ← Op.ask .configLoad with
  | none => pure (-1)
  | some config => activateProxyLocked config

/-- `was_running && fp_firewall_enable(config) != 0`, as a status code. -/
def updateRules (wasRunning : Bool) (config : Config) : App Int :=
  if wasRunning then fw (fpFirewallEnable config) else pure 0

/-- What `fp_set_bypass` does with the configuration it has made. -/
def updateConfig (config previous : Config) : App Int := do
  let pid ← fpReadPid
  let updated ← Prog.all [fpConfigSave config, updateRules (decide (pid > 1)) config]
  if updated = 0 then pure 0 else do
  let _ ← fpConfigSave previous
  let _ ← updateRules (decide (pid > 1)) previous
  pure (-1)

/-- `fp_set_bypass`. -/
def fpSetBypass (bypassList : List Char) : App Int := locked do
  match ← Op.ask .configLoad with
  | none => pure (-1)
  | some previous =>
    match fpParseBypassList bypassList previous with
    | (0, config) => updateConfig config previous
    | _ => pure (-1)

/-- `fp_disable_proxy`: both halves are carried out in any case. -/
def fpDisableProxy : App Int := locked do
  let daemonResult ← fpStopDaemon
  let firewallResult ← fw fpFirewallDisable
  pure (if firewallResult = 0 ∧ daemonResult = 0 then 0 else -1)

end FreeProxy
