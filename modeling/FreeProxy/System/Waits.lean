import FreeProxy.System.Operations

/-!
# Waiting for the daemon

`src/process.c` and `src/operations.c` with the two places named at which a caller waits for a daemon: behind the
`SIGTERM` of `stop_process`, and behind the `fork` of `fp_start_daemon` (`Waits`). With `Waits.embedded` the daemon's
own steps are made there, as `stopProcess` and `runChild` have it; with `Waits.beside` the daemon is a process of its
own and the caller only waits.

Headlines: `embedded_fpEnableProxy`, `embedded_fpEnableSavedProxy`, `embedded_fpDisableProxy`: with `Waits.embedded`
these are the operations of `Operations`. `fp_set_bypass` waits for no daemon and is the same program in both.
-/

namespace FreeProxy

open Lib

/-- How a caller waits for a daemon. -/
structure Waits where
  /-- between the `SIGTERM` of `stop_process` and its checks -/
  exits : Nat → App (Option Unit)
  /-- behind the `fork` of `fp_start_daemon` -/
  child : Nat → App Int

namespace Waits

/-- The steps of the daemon are made while the caller waits. -/
def embedded : Waits := ⟨fun pid => interrupt Op.alive id (daemonExit pid), runChild⟩

/-- `poll` and `read` of the readiness byte; without it `kill(pid, SIGTERM)` and `waitpid(pid, NULL, 0)`. -/
def awaitChild (pid : Nat) : App Int := do
  if ← Op.ask .awaitReady then pure 0 else do
  let _ ← Op.ask (.sigterm pid)
  .loop (.groupGone pid) (fun gone => pure (if gone then some () else none)) fun _ => pure (-1)

/-- The daemon makes its own steps. -/
def beside : Waits := ⟨fun _ => pure none, awaitChild⟩

variable (w : Waits)

/-- `stop_process` -/
def stopProcess (pid startTime : Nat) : App Int := do
  let leader ← Op.ask (.isLeader pid)
  if !(← Op.ask (.sigterm pid)) then pure (-1) else do
  let _ ← w.exits pid
  if ← awaitGone pid startTime leader (fpStopTimeoutMs / 100) then pure 0 else do
  if !(← Op.ask (.sigkill pid)) then pure (-1) else do
  if ← awaitGone pid startTime leader 10 then pure 0 else pure (-1)

/-- The loop of `stop_untracked_daemons` over the entries of `/proc`. -/
def stopListed : List Nat → App Int
  | [] => pure 0
  | pid :: entries => do
    if !(← isUntracked pid) then stopListed entries else do
    match ← Op.ask (.startTime pid) with
    | none => stopListed entries
    | some startTime => do
      let stopped ← w.stopProcess pid startTime
      if stopped ≠ 0 then pure (-1) else stopListed entries

/-- `stop_untracked_daemons` -/
def stopUntrackedDaemons : App Int := do
  match ← Op.ask .readdir with
  | none => pure (-1)
  | some entries => w.stopListed entries

/-- The recorded daemon is stopped when it is still the process the record means. -/
def stopRecorded : App Int := do
  match ← Op.ask .readRecord with
  | none => pure 0
  | some record => do
    let actualStartTime ← Op.ask (.startTime record.pid)
    if actualStartTime ≠ some record.startTime then pure 0 else do
    if !(← processIsOurs record.pid record.startTime) then pure 0 else
    w.stopProcess record.pid record.startTime

/-- Waiting for the listener, with a second scan when it is still bound. -/
def releaseListener : App Int := do
  let released ← waitListenerReleased 50
  if released = 0 then pure 0 else
  Prog.all [w.stopUntrackedDaemons, waitListenerReleased 50]

/-- `fp_stop_daemon` -/
def fpStopDaemon : App Int := do
  let stopped ← Prog.all [w.stopRecorded, w.stopUntrackedDaemons, w.releaseListener]
  if stopped ≠ 0 then pure (-1) else do
  Op.ask .removePid
  Op.ask .statsUnlink
  pure 0

/-- What `fp_start_daemon` does when the daemon does not run with this proxy yet. -/
def launchDaemon : App Int := do
  Op.ask .removePid
  Op.ask .statsUnlink
  match ← Op.ask .spawn with
  | none => pure (-1)
  | some pid => w.child pid

/-- `fp_start_daemon` -/
def fpStartDaemon (config : Config) : App Int := do
  match ← Op.ask .readRecord with
  | some record => do
    let ours ← processIsOurs record.pid record.startTime
    if ours && record.matches config then pure 0 else do
    let stopped ← w.fpStopDaemon
    if stopped ≠ 0 then pure (-1) else w.launchDaemon
  | none => do
    let stopped ← w.stopUntrackedDaemons
    if stopped ≠ 0 then pure (-1) else w.launchDaemon

/-- `fp_read_pid() > 1 && fp_stop_daemon() != 0`, as a status code. -/
def stopIfRecorded : App Int := do
  let pid ← fpReadPid
  if pid > 1 then w.fpStopDaemon else pure 0

/-- `activate_proxy_locked` -/
def activateProxyLocked (config : Config) : App Int := do
  if ← isActive config then pure 0 else do
  let stopped ← w.stopIfRecorded
  if stopped ≠ 0 then pure (-1) else do
  let started ← Prog.all [fw fpFirewallDisable, w.fpStartDaemon config]
  if started ≠ 0 then do
    let _ ← fw fpFirewallDisable
    pure (-1)
  else pure 0

/-- What `fp_enable_proxy` does after a failure: the previous configuration comes back. -/
def restoreConfig (previous : Option Config) (wasRunning : Bool) : App Unit :=
  match previous with
  | none => pure ()
  | some previous => do
    let _ ← fpConfigSave previous
    if wasRunning then do
      let _ ← w.activateProxyLocked previous
      pure ()
    else pure ()

/-- What `fp_enable_proxy` does with the configuration it has made. -/
def enableConfig (config : Config) (previous : Option Config) : App Int := do
  let pid ← fpReadPid
  let saved ← fpConfigSave config
  if saved ≠ 0 then pure (-1) else do
  let result ← w.activateProxyLocked config
  if result = 0 then pure 0 else do
  w.restoreConfig previous (decide (pid > 1))
  pure result

/-- `fp_enable_proxy` -/
def fpEnableProxy (proxy : List Char) : App Int := locked do
  match fpParseProxy proxy .zero with
  | (0, config) => do
    match ← Op.ask .configLoad with
    | some previous => w.enableConfig (config.withBypassOf previous) (some previous)
    | none => w.enableConfig config none
  | _ => pure (-1)

/-- `fp_enable_saved_proxy` -/
def fpEnableSavedProxy : App Int := locked do
  match ← Op.ask .configLoad with
  | none => pure (-1)
  | some config => w.activateProxyLocked config

/-- `fp_disable_proxy` -/
def fpDisableProxy : App Int := locked do
  let daemonResult ← w.fpStopDaemon
  let firewallResult ← fw fpFirewallDisable
  pure (if firewallResult = 0 ∧ daemonResult = 0 then 0 else -1)

/-! ## The sequential programs -/

theorem embedded_stopProcess : embedded.stopProcess = FreeProxy.stopProcess := rfl

theorem embedded_stopListed : embedded.stopListed = FreeProxy.stopListed := by
  funext entries
  induction entries with
  | nil => rfl
  | cons pid entries ih =>
    unfold FreeProxy.stopListed
    rw [← ih, ← embedded_stopProcess]
    rfl

theorem embedded_stopUntrackedDaemons : embedded.stopUntrackedDaemons = FreeProxy.stopUntrackedDaemons := by
  unfold FreeProxy.stopUntrackedDaemons
  rw [← embedded_stopListed]
  rfl

theorem embedded_fpStopDaemon : embedded.fpStopDaemon = FreeProxy.fpStopDaemon := by
  unfold FreeProxy.fpStopDaemon FreeProxy.stopRecorded FreeProxy.releaseListener
  rw [← embedded_stopProcess, ← embedded_stopUntrackedDaemons]
  rfl

theorem embedded_fpStartDaemon : embedded.fpStartDaemon = FreeProxy.fpStartDaemon := by
  unfold FreeProxy.fpStartDaemon FreeProxy.launchDaemon
  rw [← embedded_fpStopDaemon, ← embedded_stopUntrackedDaemons]
  rfl

theorem embedded_activateProxyLocked : embedded.activateProxyLocked = FreeProxy.activateProxyLocked := by
  unfold FreeProxy.activateProxyLocked FreeProxy.stopIfRecorded
  rw [← embedded_fpStopDaemon, ← embedded_fpStartDaemon]
  rfl

/-- The operations of the sequential model are these, with the daemon's steps made by the caller. -/
theorem embedded_fpEnableProxy : embedded.fpEnableProxy = FreeProxy.fpEnableProxy := by
  unfold FreeProxy.fpEnableProxy FreeProxy.enableConfig FreeProxy.restoreConfig
  rw [← embedded_activateProxyLocked]
  rfl

theorem embedded_fpEnableSavedProxy : embedded.fpEnableSavedProxy = FreeProxy.fpEnableSavedProxy := by
  unfold FreeProxy.fpEnableSavedProxy
  rw [← embedded_activateProxyLocked]
  rfl

theorem embedded_fpDisableProxy : embedded.fpDisableProxy = FreeProxy.fpDisableProxy := by
  unfold FreeProxy.fpDisableProxy
  rw [← embedded_fpStopDaemon]
  rfl

end Waits

end FreeProxy
