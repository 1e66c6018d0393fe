import FreeProxy.Forwarder.Diagnostic
import Mathlib.Logic.Function.Basic

/-!
# The diagnosis of an installation

`fp_diagnostic_run` of `src/test.c` with `diagnostic_emit`, `diagnostic_done`, `diagnostic_cancel` and
`diagnostic_fail`: nine stages, the later ones over the connection of `diagnostic_socks_connect`. It keeps a
report and tells its caller of every change to it.

A check may have any outcome, and the cancel flag may be raised at any call (`answered`); it is not lowered
again. `Checks` is what a check leaves: it tells nobody, and it says that it was cancelled only when it was.

Out of scope: what `fp_daemon_matches_config`, `fp_firewall_is_enabled` and the resolver do for their answers,
the `NULL` report that is refused, and time.
-/

namespace FreeProxy.Diagnose

open Lib
open Socks (SockOp SockResp SockProg diagnosticProxyTcp diagnosticSocksHandshake diagnosticSocksConnect
  testTimeoutMs)

/-! ## The report -/

/-- `enum fp_diagnostic_step` before `FP_DIAGNOSTIC_DONE`. -/
inductive Stage where
  | config
  | daemon
  | listener
  | firewall
  | proxyTcp
  | socks5
  | dns
  | socksConnect
  | transparent
  deriving DecidableEq

namespace Stage

/-- `(size_t)index` -/
def index : Stage → Nat
  | config => 0
  | daemon => 1
  | listener => 2
  | firewall => 3
  | proxyTcp => 4
  | socks5 => 5
  | dns => 6
  | socksConnect => 7
  | transparent => 8

/-- The stages, in the order of their checks. -/
def all : List Stage :=
  [config, daemon, listener, firewall, proxyTcp, socks5, dns, socksConnect, transparent]

end Stage

/-- `FP_DIAGNOSTIC_STEP_COUNT`. -/
def fpDiagnosticStepCount : Nat := 9

/-- `enum fp_diagnostic_step`. -/
inductive DiagnosticStep where
  | stage (index : Stage)
  | done
  deriving DecidableEq

/-- `enum fp_diagnostic_state`. -/
inductive DiagnosticState where
  | pending
  | running
  | ok
  | fail
  | cancelled
  deriving DecidableEq

/-- `enum fp_diagnostic_reason`. -/
inductive DiagnosticReason where
  | none
  | cancelled
  | configMissing
  | configInvalid
  | daemonStopped
  | daemonConfigMismatch
  | listenerUnreachable
  | firewallIncomplete
  | proxyUnreachable
  | socksIo
  | socksVersion
  | socksAuth
  | dnsFailed
  | socksConnectRejected
  | transparentFailed
  | internal
  deriving DecidableEq

/-- `struct fp_diagnostic_item`. -/
structure DiagnosticItem where
  step : DiagnosticStep
  state : DiagnosticState
  reason : DiagnosticReason
  errorCode : Int
  detailCode : Int
  deriving DecidableEq

/-- `struct fp_diagnostic_report`; every stage has its item. -/
structure DiagnosticReport where
  items : Stage → DiagnosticItem
  completed : Nat
  success : Bool
  cancelled : Bool

/-- `struct fp_diagnostic_event`. -/
structure DiagnosticEvent where
  item : DiagnosticItem
  index : Nat
  total : Nat
  deriving DecidableEq

/-! ## The code -/

/-- `struct addrinfo`, as far as it is read. -/
structure AddrInfo where
  addrlen : Nat
  addr : Destination

/-- What `resolve_ipv4` returns and writes; no address is `NULL`. -/
structure Resolution where
  result : Int
  addresses : List AddrInfo
  resolverError : Int

/-- The calls of `fp_diagnostic_run`. -/
inductive DiagnosticOp where
  /-- `fp_config_exists()` -/
  | configExists
  /-- `fp_config_load(&config)`; `none` is a failure -/
  | configLoad
  /-- `fp_daemon_matches_config(&config)` -/
  | daemonMatches (config : Config)
  /-- `fp_read_pid()` -/
  | readPid
  /-- `fp_firewall_is_enabled(&config)` -/
  | firewallIsEnabled (config : Config)
  /-- a call on a socket; `.cancelled` is the read of the cancel flag -/
  | sock (e : SockOp)
  /-- `resolve_ipv4("github.com", "80", …)` -/
  | resolve
  | freeaddrinfo
  /-- `diagnostic_transparent_http(&destination, …)`; an error code is one that is written -/
  | transparentHttp (destination : Destination)
  /-- `on_event(&event, context)` -/
  | onEvent (event : DiagnosticEvent)

/-- What a call answers. -/
abbrev DiagnosticResp : DiagnosticOp → Type
  | .configExists | .daemonMatches _ | .firewallIsEnabled _ => Bool
  | .configLoad => Option Config
  | .readPid => Int
  | .sock e => SockResp e
  | .resolve => Resolution
  | .transparentHttp _ => Int × Option Int
  | .freeaddrinfo | .onEvent _ => Unit

/-- A program of the diagnosis. -/
abbrev DiagnosticProg (α : Type) := Prog DiagnosticOp DiagnosticResp α

/-- One call. -/
abbrev DiagnosticOp.ask (e : DiagnosticOp) : DiagnosticProg (DiagnosticResp e) := Prog.ask e

/-- The calls on a socket, made by the diagnosis. -/
def sock {α : Type} (p : SockProg α) : DiagnosticProg α := hoist DiagnosticOp.sock p

/-- `cancelled(cancel_flag)` -/
def cancelled : DiagnosticProg Bool := sock (SockOp.ask .cancelled)

/-- `diagnostic_emit`; `listening` is `on_event != NULL`. -/
def diagnosticEmit (listening : Bool) (report : DiagnosticReport) (index : Stage) (state : DiagnosticState)
    (reason : DiagnosticReason) (errorCode detailCode : Int) : DiagnosticProg DiagnosticReport := do
  let item : DiagnosticItem := ⟨.stage index, state, reason, errorCode, detailCode⟩
  let completed :=
    if state = .ok ∨ state = .fail ∨ state = .cancelled then index.index + 1 else report.completed
  let report := { report with items := Function.update report.items index item, completed := completed }
  if listening then do
    DiagnosticOp.ask (.onEvent ⟨item, index.index + 1, fpDiagnosticStepCount⟩)
    pure report
  else pure report

/-- The event of `diagnostic_done`. -/
def doneEvent (report : DiagnosticReport) : DiagnosticEvent where
  item :=
    { step := .done
      state := if report.cancelled then .cancelled else if report.success then .ok else .fail
      reason := if report.cancelled then .cancelled else .none
      errorCode := 0
      detailCode := 0 }
  index := report.completed
  total := fpDiagnosticStepCount

/-- `diagnostic_done`: the listener, if there is one, is told the end. -/
def diagnosticDone (listening : Bool) (report : DiagnosticReport) : DiagnosticProg Unit :=
  if listening then DiagnosticOp.ask (.onEvent (doneEvent report)) else pure ()

/-- `diagnostic_cancel`; `none` is `0`. -/
def diagnosticCancel (listening : Bool) (report : DiagnosticReport) (index : Stage) :
    DiagnosticProg (Option DiagnosticReport) := do
  if !(← cancelled) then pure none else do
  let report := { report with cancelled := true }
  let report ← diagnosticEmit listening report index .cancelled .cancelled 0 0
  diagnosticDone listening report
  pure (some report)

/-- What `diagnostic_fail` is given. -/
structure Failure where
  reason : DiagnosticReason
  errorCode : Int
  detailCode : Int
  reason_ne : reason ≠ .none

/-- `diagnostic_fail`, with the report that it leaves. -/
def diagnosticFail (listening : Bool) (report : DiagnosticReport) (index : Stage) (failure : Failure) :
    DiagnosticProg (Int × DiagnosticReport) := do
  let report ← diagnosticEmit listening report index .fail failure.reason failure.errorCode failure.detailCode
  diagnosticDone listening report
  pure (-1, report)

/-- `if (diagnostic_cancel(…)) return -1;` and what follows it. -/
def unlessCancelled (listening : Bool) (report : DiagnosticReport) (index : Stage)
    (next : DiagnosticProg (Int × DiagnosticReport)) : DiagnosticProg (Int × DiagnosticReport) := do
  match ← diagnosticCancel listening report index with
  | some report => pure (-1, report)
  | none => next

/-- A stage: it is running, its check fails or gives what the next stages use, and it is OK. A check with
`mayCancel` is asked for the cancel flag when it fails. -/
def stage {α : Type} (listening : Bool) (index : Stage) (mayCancel : Bool)
    (check : DiagnosticProg (Except Failure α)) (report : DiagnosticReport)
    (next : α → DiagnosticReport → DiagnosticProg (Int × DiagnosticReport)) :
    DiagnosticProg (Int × DiagnosticReport) := do
  let report ← diagnosticEmit listening report index .running .none 0 0
  match ← check with
  | .error failure =>
    if mayCancel then
      unlessCancelled listening report index (diagnosticFail listening report index failure)
    else diagnosticFail listening report index failure
  | .ok a => do
    let report ← diagnosticEmit listening report index .ok .none 0 0
    next a report

/-! ### The checks -/

/-- `ENOENT`. -/
def enoent : Int := 2

/-- `ESRCH`. -/
def esrch : Int := 3

/-- `EINVAL`. -/
def einval : Int := 22

/-- The configuration can be read. -/
def checkConfig : DiagnosticProg (Except Failure Config) := do
  if !(← DiagnosticOp.ask .configExists) then
    pure (.error ⟨.configMissing, enoent, 0, by decide⟩)
  else do
  match ← DiagnosticOp.ask .configLoad with
  | none => pure (.error ⟨.configInvalid, einval, 0, by decide⟩)
  | some config => pure (.ok config)

/-- The daemon runs with this configuration. -/
def checkDaemon (config : Config) : DiagnosticProg (Except Failure Unit) := do
  if !(← DiagnosticOp.ask (.daemonMatches config)) then do
    if (← DiagnosticOp.ask .readPid) > 1 then
      pure (.error ⟨.daemonConfigMismatch, esrch, 0, by decide⟩)
    else pure (.error ⟨.daemonStopped, esrch, 0, by decide⟩)
  else pure (.ok ())

/-- `INADDR_LOOPBACK`. -/
def inaddrLoopback : Addr := ofOctets 127 0 0 1

/-- The failure of the listener's check. -/
def listenerUnreachable (errno : Int) : Failure := ⟨.listenerUnreachable, errno, 0, by decide⟩

/-- The listener accepts a connection. -/
def checkListener : DiagnosticProg (Except Failure Unit) := do
  if !(← sock (SockOp.ask .socket)) then do
    let errno ← sock (SockOp.ask .errno)
    pure (.error (listenerUnreachable errno))
  else do
  if !(← sock (SockOp.ask (.connect inaddrLoopback (BitVec.ofNat 16 fpListenPort) testTimeoutMs))) then do
    let errno ← sock (SockOp.ask .errno)
    sock (SockOp.ask .close)
    pure (.error (listenerUnreachable errno))
  else do
  sock (SockOp.ask .close)
  pure (.ok ())

/-- The rules are complete. -/
def checkFirewall (config : Config) : DiagnosticProg (Except Failure Unit) := do
  if !(← DiagnosticOp.ask (.firewallIsEnabled config)) then
    pure (.error ⟨.firewallIncomplete, 0, 0, by decide⟩)
  else pure (.ok ())

/-- The proxy accepts a connection, which stays open. -/
def checkProxyTcp (config : Config) : DiagnosticProg (Except Failure Unit) := do
  match ← sock (diagnosticProxyTcp config) with
  | some errorCode => pure (.error ⟨.proxyUnreachable, errorCode, 0, by decide⟩)
  | none => pure (.ok ())

/-- The reason of a diagnosis; `none` is `FP_DIAGNOSTIC_REASON_NONE`. -/
def reasonOf : Socks.DiagnosticReason → DiagnosticReason
  | .none => .none
  | .cancelled => .cancelled
  | .proxyUnreachable => .proxyUnreachable
  | .socksIo => .socksIo
  | .socksVersion => .socksVersion
  | .socksAuth => .socksAuth
  | .socksConnectRejected => .socksConnectRejected

/-- What a diagnosis finds; `error_code` and `detail_code` are `0` before it. -/
def found {α : Type} (a : α) (diagnosis : Socks.Diagnosis) : Except Failure α :=
  if h : reasonOf diagnosis.reason = .none then .ok a
  else .error ⟨reasonOf diagnosis.reason, diagnosis.errorCode.getD 0,
    diagnosis.detailCode.elim 0 fun b => b.toNat, h⟩

/-- The proxy speaks SOCKS5 without authentication; the connection is closed in any case. -/
def checkSocks5 : DiagnosticProg (Except Failure Unit) := do
  let diagnosis ← sock diagnosticSocksHandshake
  sock (SockOp.ask .close)
  pure (found () diagnosis)

/-- The name of the test server has an address. -/
def checkDns : DiagnosticProg (Except Failure (List AddrInfo)) := do
  let resolution ← DiagnosticOp.ask .resolve
  if resolution.result ≠ 0 ∨ resolution.addresses = [] then
    pure (.error ⟨.dnsFailed, resolution.resolverError, 0, by decide⟩)
  else pure (.ok resolution.addresses)

/-- `sizeof(struct sockaddr_in)`. -/
def sizeofSockaddrIn : Nat := 16

/-- The loop over the addresses; `attempt` is how the last one went. -/
def tryAddresses (config : Config) (attempt : Except Failure Destination) :
    List AddrInfo → DiagnosticProg (Except Failure Destination)
  | [] => pure attempt
  | address :: rest =>
    if address.addrlen < sizeofSockaddrIn then tryAddresses config attempt rest else do
    match found address.addr (← sock (diagnosticSocksConnect config address.addr)) with
    | .ok destination => pure (.ok destination)
    | .error failure => do
      if ← cancelled then pure (.error failure) else tryAddresses config (.error failure) rest

/-- The proxy connects to one of the addresses, which are freed. -/
def checkSocksConnect (config : Config) (addresses : List AddrInfo) :
    DiagnosticProg (Except Failure Destination) := do
  let attempt ← tryAddresses config (.error ⟨.internal, 0, 0, by decide⟩) addresses
  DiagnosticOp.ask .freeaddrinfo
  pure attempt

/-- A request over the redirected way is answered. -/
def checkTransparent (destination : Destination) : DiagnosticProg (Except Failure Unit) := do
  let (result, errorCode) ← DiagnosticOp.ask (.transparentHttp destination)
  if result ≠ 0 then pure (.error ⟨.transparentFailed, errorCode.getD 0, 0, by decide⟩)
  else pure (.ok ())

/-- `memset(report, 0, sizeof(*report))` and the loop behind it. -/
def initialReport : DiagnosticReport where
  items := fun index => ⟨.stage index, .pending, .none, 0, 0⟩
  completed := 0
  success := false
  cancelled := false

/-- `fp_diagnostic_run` with a report, and what it leaves there. -/
def fpDiagnosticRun (listening : Bool) : DiagnosticProg (Int × DiagnosticReport) :=
  stage listening .config false checkConfig initialReport fun config report =>
  unlessCancelled listening report .daemon <|
  stage listening .daemon false (checkDaemon config) report fun _ report =>
  stage listening .listener false checkListener report fun _ report =>
  stage listening .firewall false (checkFirewall config) report fun _ report =>
  stage listening .proxyTcp false (checkProxyTcp config) report fun _ report =>
  stage listening .socks5 false checkSocks5 report fun _ report =>
  stage listening .dns true checkDns report fun addresses report =>
  stage listening .socksConnect true (checkSocksConnect config addresses) report fun destination report =>
  stage listening .transparent true (checkTransparent destination) report fun _ report => do
    let report := { report with success := true }
    diagnosticDone listening report
    pure (0, report)

/-! ## What a check may be answered -/

/-- The cancel flag and what the caller was told. -/
structure World where
  raised : Bool
  events : List DiagnosticEvent
  deriving DecidableEq

/-- Any outcome of any check; a flag that is raised stays so. -/
def answered : Rel DiagnosticOp DiagnosticResp World := fun e s r s' =>
  (s.raised = true → s'.raised = true) ∧ match e, r with
    | .sock .cancelled, r => r = s'.raised ∧ s'.events = s.events
    | .onEvent event, _ => s'.events = s.events ++ [event]
    | _, _ => s'.events = s.events

/-! ## What a check leaves -/

section

variable {s : World}

theorem wp_cancelled {α : Type} {k : Bool → DiagnosticProg α} {Q : α → World → Prop}
    (h : ∀ s', (s.raised = true → s'.raised = true) → s'.events = s.events →
      wp answered (fun _ => True) (k s'.raised) Q s') :
    wp answered (fun _ => True) (cancelled.bind k) Q s := by
  refine wp_call.mpr ⟨trivial, ?_⟩
  rintro _ s' ⟨hraised, rfl, hevents⟩
  exact h s' hraised hevents

/-- A check tells nobody, and it says that it was cancelled only when it was. -/
def Checks {α : Type} (mayCancel : Bool) (s : World) (r : Except Failure α) (s' : World) : Prop :=
  s'.events = s.events ∧ ∀ failure, r = .error failure → failure.reason = .cancelled →
    mayCancel = true ∧ s'.raised = true

/-- Only `on_event` tells something. -/
theorem answered_events {e : DiagnosticOp} {r : DiagnosticResp e} {s' : World} (h : answered e s r s')
    (he : ∀ event, e ≠ .onEvent event) : s'.events = s.events := by
  cases e with
  | onEvent event => exact absurd rfl (he event)
  | sock e =>
    cases e with
    | cancelled => exact h.2.2
    | _ => exact h.2
  | _ => exact h.2

theorem wp_quiet {α : Type} {e : DiagnosticOp} (he : ∀ event, e ≠ .onEvent event)
    {k : DiagnosticResp e → DiagnosticProg α} {Q : α → World → Prop}
    (h : ∀ r s', s'.events = s.events → wp answered (fun _ => True) (k r) Q s') :
    wp answered (fun _ => True) ((DiagnosticOp.ask e).bind k) Q s :=
  wp_call.mpr ⟨trivial, fun r s' hr => h r s' (answered_events hr he)⟩

/-- The calls on a socket. -/
def sockAnswered : Rel SockOp SockResp World := fun e => answered (.sock e)

/-- A program on a socket has the whole state. -/
def whole : Lens World World where
  get := id
  put _ s := s
  get_put _ _ := rfl
  put_get _ := rfl
  put_put _ _ _ := rfl

theorem wp_sock {α : Type} {p : SockProg α} {P : α → World → Prop}
    (h : wp sockAnswered (fun _ => True) p P s) :
    wp answered (fun _ => True) (sock p) (fun a s' => s'.events = s.events ∧ P a s') s := by
  have hquiet : wp sockAnswered (fun s' => s'.events = s.events) p (fun _ s' => s'.events = s.events) s := by
    refine wp_calls (calls_true p) (fun e s₁ r s₂ _ hs₁ hr => ?_) rfl
    exact (answered_events hr (by simp)).trans hs₁
  have hembeds : Embeds DiagnosticOp.sock sockAnswered answered whole := fun _ _ _ _ hr => ⟨hr, rfl⟩
  exact (wp_hoist hembeds (hquiet.and h)).mono (fun _ _ => trivial) fun a s' hs' => hs'.1

/-- What a stage makes of a program on a socket. -/
theorem wp_sockThen {α β : Type} {p : SockProg α} {k : α → DiagnosticProg β} {Q : β → World → Prop}
    (h : ∀ a s', s'.events = s.events → wp answered (fun _ => True) (k a) Q s') :
    wp answered (fun _ => True) ((sock p).bind k) Q s :=
  wp_seq (wp_sock (wp_runs p s)) (fun _ _ => trivial) fun a s' _ hs' => h a s' hs'.1

theorem wp_closeWith {diagnosis : Socks.Diagnosis} {P : Socks.Diagnosis → World → Prop}
    (h : ∀ s', (s.raised = true → s'.raised = true) → P diagnosis s') :
    wp sockAnswered (fun _ => True) (Socks.closeWith diagnosis) P s :=
  wp_call.mpr ⟨trivial, fun _ s' hs' => wp_ret.mpr ⟨trivial, h s' hs'.1⟩⟩

theorem wp_ioFailed : wp sockAnswered (fun _ => True) Socks.ioFailed (fun d _ => d.reason ≠ .cancelled) s :=
  wp_after fun _ _ => wp_ret.mpr ⟨trivial, by simp⟩

/-- A handshake is not cancelled. -/
theorem wp_diagnosticSocksHandshake : wp sockAnswered (fun _ => True) diagnosticSocksHandshake
    (fun d _ => d.reason ≠ .cancelled) s := by
  refine wp_after fun written s₁ => ?_
  split
  · exact wp_ioFailed
  refine wp_after fun response s₂ => ?_
  split
  · split
    · exact wp_ret.mpr ⟨trivial, by simp⟩
    split
    · exact wp_ret.mpr ⟨trivial, by simp⟩
    · exact wp_ret.mpr ⟨trivial, by simp⟩
  · exact wp_ioFailed

/-- `diagnostic_socks_connect` says that it was cancelled only when the flag was raised. -/
theorem wp_diagnosticSocksConnect (config : Config) (destination : Destination) :
    wp sockAnswered (fun _ => True) (diagnosticSocksConnect config destination)
      (fun d s' => d.reason = .cancelled → s'.raised = true) s := by
  have hclose : ∀ {d : Socks.Diagnosis} {s}, d.reason ≠ .cancelled →
      wp sockAnswered (fun _ => True) (Socks.closeWith d)
        (fun d s' => d.reason = .cancelled → s'.raised = true) s :=
    fun hd => wp_closeWith fun _ _ hreason => absurd hreason hd
  have hfailed : ∀ {s}, wp sockAnswered (fun _ => True) (Socks.ioFailed.bind Socks.closeWith)
      (fun d s' => d.reason = .cancelled → s'.raised = true) s :=
    wp_seq wp_ioFailed (fun _ _ => trivial) fun _ _ _ hd => hclose hd
  refine wp_after fun proxy s₁ => ?_
  split
  · exact wp_ret.mpr ⟨trivial, by simp⟩
  refine wp_seq wp_diagnosticSocksHandshake (fun _ _ => trivial) fun handshake s₂ _ hhandshake => ?_
  split
  · exact hclose hhandshake
  refine wp_call.mpr ⟨trivial, ?_⟩
  rintro flag s₃ ⟨-, hflag, -⟩
  rw [Prog.ret_bind]
  split
  · -- the flag is raised, and it stays so over the `close`
    exact wp_closeWith fun s' hraised _ => hraised (hflag ▸ ‹flag = true›)
  refine wp_after fun written s₄ => ?_
  split
  · exact hfailed
  refine wp_after fun response s₅ => ?_
  split
  · split
    · exact hclose (by simp)
    split
    · exact hclose (by simp)
    refine wp_after fun drained s₆ => ?_
    split
    · exact hfailed
    · exact hclose (by simp)
  · exact hfailed

theorem reasonOf_eq_cancelled {reason : Socks.DiagnosticReason} (h : reasonOf reason = .cancelled) :
    reason = .cancelled := by
  cases reason with
  | cancelled => rfl
  | _ => cases h

theorem found_error {α : Type} {a : α} {diagnosis : Socks.Diagnosis} {failure : Failure}
    (h : found a diagnosis = .error failure) (hreason : failure.reason = .cancelled) :
    diagnosis.reason = .cancelled := by
  unfold found at h
  split at h
  · cases h
  · obtain rfl := Except.error.inj h
    exact reasonOf_eq_cancelled hreason

section

variable {α : Type} {mayCancel : Bool} {s₀ : World}

theorem checks_error {s' : World} {failure : Failure} (h : s'.events = s.events)
    (hreason : failure.reason = .cancelled → mayCancel = true ∧ s'.raised = true) :
    Checks mayCancel s (.error failure : Except Failure α) s' :=
  ⟨h, fun _ heq => Except.error.inj heq ▸ hreason⟩

theorem wp_checked (a : α) (h : s.events = s₀.events) :
    wp answered (fun _ => True) (.ret (.ok a)) (Checks mayCancel s₀) s :=
  wp_ret.mpr ⟨trivial, h, by simp⟩

theorem wp_failed {failure : Failure} (h : s.events = s₀.events) (hreason : failure.reason ≠ .cancelled) :
    wp answered (fun _ => True) (.ret (.error failure) : DiagnosticProg (Except Failure α))
      (Checks mayCancel s₀) s :=
  wp_ret.mpr ⟨trivial, checks_error h fun hcancelled => absurd hcancelled hreason⟩

end

theorem wp_checkConfig (s : World) : wp answered (fun _ => True) checkConfig (Checks false s) s := by
  refine wp_quiet (by simp) fun present s₁ h₁ => ?_
  split
  · exact wp_failed h₁ (by simp)
  refine wp_quiet (by simp) fun loaded s₂ h₂ => ?_
  cases loaded with
  | none => exact wp_failed (h₂.trans h₁) (by simp)
  | some config => exact wp_checked config (h₂.trans h₁)

theorem wp_checkDaemon (config : Config) (s : World) :
    wp answered (fun _ => True) (checkDaemon config) (Checks false s) s := by
  refine wp_quiet (by simp) fun matched s₁ h₁ => ?_
  split
  · refine wp_quiet (by simp) fun pid s₂ h₂ => ?_
    split
    · exact wp_failed (h₂.trans h₁) (by simp)
    · exact wp_failed (h₂.trans h₁) (by simp)
  · exact wp_checked () h₁

theorem wp_checkListener (s : World) : wp answered (fun _ => True) checkListener (Checks false s) s := by
  refine wp_sockThen fun socket s₁ h₁ => ?_
  split
  · exact wp_sockThen fun errno s₂ h₂ => wp_failed (h₂.trans h₁) (by simp [listenerUnreachable])
  refine wp_sockThen fun connected s₂ h₂ => ?_
  split
  · refine wp_sockThen fun errno s₃ h₃ => wp_sockThen fun _ s₄ h₄ => ?_
    exact wp_failed (h₄.trans (h₃.trans (h₂.trans h₁))) (by simp [listenerUnreachable])
  · exact wp_sockThen fun _ s₃ h₃ => wp_checked () (h₃.trans (h₂.trans h₁))

theorem wp_checkFirewall (config : Config) (s : World) :
    wp answered (fun _ => True) (checkFirewall config) (Checks false s) s := by
  refine wp_quiet (by simp) fun enabled s₁ h₁ => ?_
  split
  · exact wp_failed h₁ (by simp)
  · exact wp_checked () h₁

theorem wp_checkProxyTcp (config : Config) (s : World) :
    wp answered (fun _ => True) (checkProxyTcp config) (Checks false s) s := by
  refine wp_sockThen fun errorCode s₁ h₁ => ?_
  cases errorCode with
  | none => exact wp_checked () h₁
  | some errorCode => exact wp_failed h₁ (by simp)

theorem wp_checkSocks5 (s : World) : wp answered (fun _ => True) checkSocks5 (Checks false s) s := by
  refine wp_seq (wp_sock wp_diagnosticSocksHandshake) (fun _ _ => trivial) ?_
  rintro diagnosis s₁ - ⟨h₁, hreason⟩
  refine wp_sockThen fun _ s₂ h₂ => wp_ret.mpr ⟨trivial, h₂.trans h₁, fun failure hfound hcancelled => ?_⟩
  exact absurd (found_error hfound hcancelled) hreason

theorem wp_checkDns (s : World) : wp answered (fun _ => True) checkDns (Checks true s) s := by
  refine wp_quiet (by simp) fun resolution s₁ h₁ => ?_
  split
  · exact wp_failed h₁ (by simp)
  · exact wp_checked _ h₁

/-- The loop gives back a failure that it was given or one that it found. -/
theorem wp_tryAddresses (config : Config) (s₀ : World) : ∀ (addresses : List AddrInfo)
    (attempt : Except Failure Destination) {s : World}, Checks true s₀ attempt s →
      wp answered (fun _ => True) (tryAddresses config attempt addresses) (Checks true s₀) s
  | [], _, _, h => wp_ret.mpr ⟨trivial, h⟩
  | address :: rest, attempt, s, h => by
    unfold tryAddresses
    split
    · exact wp_tryAddresses config s₀ rest attempt h
    refine wp_seq (wp_sock (wp_diagnosticSocksConnect config address.addr)) (fun _ _ => trivial) ?_
    rintro diagnosis s₁ - ⟨h₁, hreason⟩
    cases hfound : found address.addr diagnosis with
    | ok destination => exact wp_checked destination (h₁.trans h.1)
    | error failure =>
      refine wp_cancelled fun s₂ hraised h₂ => ?_
      have hchecks : Checks true s₀ (.error failure : Except Failure Destination) s₂ :=
        checks_error (h₂.trans (h₁.trans h.1)) fun hcancelled =>
          ⟨rfl, hraised (hreason (found_error hfound hcancelled))⟩
      split
      · exact wp_ret.mpr ⟨trivial, hchecks⟩
      · exact wp_tryAddresses config s₀ rest _ hchecks

theorem wp_checkSocksConnect (config : Config) (addresses : List AddrInfo) (s : World) :
    wp answered (fun _ => True) (checkSocksConnect config addresses) (Checks true s) s := by
  have hinternal : Checks true s
      (.error ⟨.internal, 0, 0, by decide⟩ : Except Failure Destination) s :=
    checks_error rfl (by simp)
  refine wp_seq (wp_tryAddresses config s addresses _ hinternal) (fun _ _ => trivial) ?_
  rintro attempt s₁ - ⟨h₁, hattempt⟩
  refine wp_call.mpr ⟨trivial, ?_⟩
  rintro _ s₂ ⟨hraised, h₂⟩
  refine wp_ret.mpr ⟨trivial, h₂.trans h₁, fun failure hfailure hcancelled => ?_⟩
  exact ⟨rfl, hraised (hattempt failure hfailure hcancelled).2⟩

theorem wp_checkTransparent (destination : Destination) (s : World) :
    wp answered (fun _ => True) (checkTransparent destination) (Checks true s) s := by
  refine wp_quiet (by simp) fun outcome s₁ h₁ => ?_
  dsimp only
  split
  · exact wp_failed h₁ (by simp)
  · exact wp_checked () h₁

end

end FreeProxy.Diagnose
