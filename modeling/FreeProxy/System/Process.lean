import FreeProxy.System.Daemon

/-!
# `src/process.c`

Which process is the daemon, how it is stopped and how it is started. Two processes take part: the
caller and the daemon. While the caller waits, the daemon's own steps are made, and the daemon may
be killed before any of them (`interrupt`).

Out of scope: the letters of `/proc` and of the pid record (`FreeProxy.System.Cmdline`,
`FreeProxy.System.Identity`), time, and other processes than these two (`FreeProxy.System.Crew`).
-/

namespace FreeProxy

open Lib

/-! ## Which process is the daemon -/

/-- `process_is_ours`. The comparison with the caller's own executable does not change the answer. -/
def processIsOurs (pid expectedStartTime : Nat) : App Bool := do
  let actualStartTime ← Op.ask (.startTime pid)
  if actualStartTime ≠ some expectedStartTime then pure false else do
  if !(← Op.ask (.exeIsFreeProxy pid)) then pure false else
  Op.ask (.cmdlineIsRun pid)

/-- `is_legacy_daemon`. -/
def isLegacyDaemon (pid : Nat) : App Bool := do
  if !(← Op.ask (.exeIsFreeProxy pid)) then pure false else do
  if !(← Op.ask (.cmdlineIsRun pid)) then pure false else do
  match ← Op.ask (.parentIsInit pid) with
  | none => pure false
  | some initChild => do
    if ← Op.ask (.isLeader pid) then pure true else pure initChild

/-- `fp_read_pid`. -/
def fpReadPid : App Int := do
  match ← Op.ask .readRecord with
  | some record => pure record.pid
  | none => pure (-1)

/-- The record names this proxy. -/
def Record.matches (record : Record) (config : Config) : Bool :=
  record.proxyPort == config.proxyPort && record.proxyAddr == config.proxyAddr

/-- `fp_daemon_matches_config`. -/
def fpDaemonMatchesConfig (config : Config) : App Bool := do
  match ← Op.ask .readRecord with
  | none => pure false
  | some record => do
    if ← processIsOurs record.pid record.startTime then pure (record.matches config) else pure false

/-! ## Stopping -/

/-- `FP_STOP_TIMEOUT_MS`. -/
def fpStopTimeoutMs : Nat := 5000

/-- The check of the waiting loops of `stop_process`: the group is gone, or the process. -/
def isGone (pid startTime : Nat) (leader : Bool) : App Bool :=
  if leader then Op.ask (.groupGone pid) else do
    let actualStartTime ← Op.ask (.startTime pid)
    pure (decide (actualStartTime ≠ some startTime))

/-- The waiting loops of `stop_process`, with the attempts that are left. -/
def awaitGone (pid startTime : Nat) (leader : Bool) : Nat → App Bool
  | 0 => pure false
  | attempts + 1 => do
    if ← isGone pid startTime leader then pure true else awaitGone pid startTime leader attempts

/-- `stop_process`. Between the signal and the waiting the daemon may make the steps of its end. -/
def stopProcess (pid startTime : Nat) : App Int := do
  let leader ← Op.ask (.isLeader pid)
  if !(← Op.ask (.sigterm pid)) then pure (-1) else do
  let _ ← interrupt Op.alive id (daemonExit pid)
  if ← awaitGone pid startTime leader (fpStopTimeoutMs / 100) then pure 0 else do
  if !(← Op.ask (.sigkill pid)) then pure (-1) else do
  if ← awaitGone pid startTime leader 10 then pure 0 else pure (-1)

/-- `value <= 1 || !is_legacy_daemon(value)`, the other way round. -/
def isUntracked (pid : Nat) : App Bool := if 1 < pid then isLegacyDaemon pid else pure false

/-- The loop of `stop_untracked_daemons` over the entries of `/proc`. -/
def stopListed : List Nat → App Int
  | [] => pure 0
  | pid :: entries => do
    if !(← isUntracked pid) then stopListed entries else do
    match ← Op.ask (.startTime pid) with
    | none => stopListed entries
    | some startTime => do
      let stopped ← stopProcess pid startTime
      if stopped ≠ 0 then pure (-1) else stopListed entries

/-- `stop_untracked_daemons`. -/
def stopUntrackedDaemons : App Int := do
  match ← Op.ask .readdir with
  | none => pure (-1)
  | some entries => stopListed entries

/-- `wait_listener_released`, with the attempts that are left. -/
def waitListenerReleased : Nat → App Int
  | 0 => pure (-1)
  | attempts + 1 => do
    if ← Op.ask .tryBind then pure 0 else waitListenerReleased attempts

/-- The recorded daemon is stopped when it is still the process the record means. -/
def stopRecorded : App Int := do
  match ← Op.ask .readRecord with
  | none => pure 0
  | some record => do
    let actualStartTime ← Op.ask (.startTime record.pid)
    if actualStartTime ≠ some record.startTime then pure 0 else do
    if !(← processIsOurs record.pid record.startTime) then pure 0 else
    stopProcess record.pid record.startTime

/-- Waiting for the listener, with a second scan when it is still bound. -/
def releaseListener : App Int := do
  let released ← waitListenerReleased 50
  if released = 0 then pure 0 else
  Prog.all [stopUntrackedDaemons, waitListenerReleased 50]

/-- `fp_stop_daemon`. -/
def fpStopDaemon : App Int := do
  let stopped ← Prog.all [stopRecorded, stopUntrackedDaemons, releaseListener]
  if stopped ≠ 0 then pure (-1) else do
  Op.ask .removePid
  Op.ask .statsUnlink
  pure 0

/-! ## Starting -/

/-- The arguments of the daemon `fp_start_daemon` makes, the readiness pipe being descriptor `4`. -/
def childArgv : List (List Char) :=
  [['f', 'r', 'e', 'e', '_', 'p', 'r', 'o', 'x', 'y'], ['r', 'u', 'n'],
    ['-', '-', 'r', 'e', 'a', 'd', 'y', '-', 'f', 'd'], ['4']]

/-- The child after the fork, and what the parent makes of the readiness byte. -/
def runChild (pid : Nat) : App Int := do
  match ← interrupt Op.alive id (daemonStart childArgv pid) with
  | some none => do
    if ← Op.ask .awaitReady then pure 0 else do
    -- `poll` timed out; `waitpid` waits until the signalled daemon has ended
    let _ ← Op.ask (.sigterm pid)
    let _ ← interrupt Op.alive id (daemonExit pid)
    Op.ask (.exit pid)
    pure (-1)
  | _ => do
    -- the child has written `E`, or it has died and the pipe is closed
    Op.ask (.exit pid)
    let _ ← Op.ask (.sigterm pid)
    pure (-1)

/-- What `fp_start_daemon` does when the daemon does not run with this proxy yet. -/
def launchDaemon : App Int := do
  Op.ask .removePid
  Op.ask .statsUnlink
  match ← Op.ask .spawn with
  | none => pure (-1)
  | some pid => runChild pid

/-- `fp_start_daemon`. -/
def fpStartDaemon (config : Config) : App Int := do
  match ← Op.ask .readRecord with
  | some record => do
    let ours ← processIsOurs record.pid record.startTime
    if ours && record.matches config then pure 0 else do
    let stopped ← fpStopDaemon
    if stopped ≠ 0 then pure (-1) else launchDaemon
  | none => do
    let stopped ← stopUntrackedDaemons
    if stopped ≠ 0 then pure (-1) else launchDaemon

end FreeProxy
