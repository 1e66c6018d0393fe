import FreeProxy.Forwarder.Diagnose
import FreeProxy.Forwarder.Session
import FreeProxy.Lib.Protocol

/-!
# What is held is given back

The sockets, the address list and the slot of `handle_client` (`src/proxy.c`) and of `fp_diagnostic_run`
(`src/test.c`), as protocols of the calls that use them.

* `SocketPhase` is how far a socket has come. Data is exchanged with a peer that is connected to, under the
  timeouts that were set; once the peer is gone the socket can only be closed.
* `Holding` is what `fp_diagnostic_run` holds. Nothing is held when it tells that it is done.
* `Serving` is what `handle_client` holds. The upstream socket is opened after the privileges are dropped,
  and everything is given back before the client is closed.

Headlines: **`fpDiagnosticRun_releases`**, **`handleClient_releases`**.

Out of scope: what is given back by the exit of the process alone.
-/

namespace FreeProxy.Sockets

open Lib
open Socks (SockOp SockResp SockProg)

/-! ## One socket -/

/-- How far a socket is. -/
inductive SocketPhase where
  /-- there is none, or it is closed -/
  | absent
  | created
  | connected
  /-- connected, with timeouts -/
  | ready
  /-- it is only to be closed -/
  | failed
  deriving DecidableEq

namespace SocketPhase

/-- The calls in the order in which a socket allows them. Another call has no next phase. -/
def advance : SocketPhase → (e : SockOp) → SockResp e → Option SocketPhase
  | absent, .socket, made => some (if made then created else absent)
  | created, .connect _ _ _, made => some (if made then connected else failed)
  | connected, .setTimeouts _, done => some (if done then ready else failed)
  | ready, .send _, sent => some (if sent.Over 0 then failed else ready)
  | ready, .recv _ _ _, received => some (if received.Over [] then failed else ready)
  | absent, .close, _ => none
  | _, .close, _ => some absent
  | phase, .errno, _ => some phase
  | phase, .setErrno _, _ => some phase
  | phase, .cancelled, _ => some phase
  | _, _, _ => none

/-- Data may have been exchanged. -/
def Used (phase : SocketPhase) : Prop := phase = ready ∨ phase = failed

@[simp] theorem advance_errno (phase : SocketPhase) (r : Int) :
    phase.advance .errno r = some phase := by cases phase <;> rfl

@[simp] theorem advance_setErrno (phase : SocketPhase) (value : Int) (r : Unit) :
    phase.advance (.setErrno value) r = some phase := by cases phase <;> rfl

@[simp] theorem advance_cancelled (phase : SocketPhase) (r : Bool) :
    phase.advance .cancelled r = some phase := by cases phase <;> rfl

theorem advance_close {phase : SocketPhase} (h : phase ≠ absent) (r : Unit) :
    phase.advance .close r = some absent := by
  cases phase with
  | absent => exact absurd rfl h
  | created => rfl
  | connected => rfl
  | ready => rfl
  | failed => rfl

theorem Used.ne_absent {phase : SocketPhase} (h : phase.Used) : phase ≠ absent := by
  rcases h with rfl | rfl <;> simp

end SocketPhase

section

open SocketPhase

variable {α : Type} {phase : SocketPhase} {Q : α → SocketPhase → Prop}

/-- `close(socket_fd)`, and what follows it. -/
theorem follows_close {k : Unit → SockProg α} (h : phase ≠ absent)
    (hk : Follows advance (k ()) Q absent) : Follows advance ((SockOp.ask .close).bind k) Q phase :=
  follows_askThen.mpr fun r => ⟨absent, advance_close h r, hk⟩

theorem follows_errno {k : Int → SockProg α} (hk : ∀ errno, Follows advance (k errno) Q phase) :
    Follows advance ((SockOp.ask .errno).bind k) Q phase :=
  follows_askThen.mpr fun r => ⟨phase, advance_errno phase r, hk r⟩

theorem follows_cancelled {k : Bool → SockProg α} (hk : ∀ raised, Follows advance (k raised) Q phase) :
    Follows advance ((SockOp.ask .cancelled).bind k) Q phase :=
  follows_askThen.mpr fun r => ⟨phase, advance_cancelled phase r, hk r⟩

theorem follows_socket {k : Bool → SockProg α} (hfailed : Follows advance (k false) Q absent)
    (hk : Follows advance (k true) Q created) :
    Follows advance ((SockOp.ask .socket).bind k) Q absent := by
  refine follows_askThen.mpr fun made => ?_
  cases made with
  | false => exact ⟨absent, rfl, hfailed⟩
  | true => exact ⟨created, rfl, hk⟩

theorem follows_connect {addr : Addr} {port : BitVec 16} {timeoutMs : Nat} {k : Bool → SockProg α}
    (hfailed : Follows advance (k false) Q failed) (hk : Follows advance (k true) Q connected) :
    Follows advance ((SockOp.ask (.connect addr port timeoutMs)).bind k) Q created := by
  refine follows_askThen.mpr fun made => ?_
  cases made with
  | false => exact ⟨failed, rfl, hfailed⟩
  | true => exact ⟨connected, rfl, hk⟩

theorem follows_setTimeouts {timeoutMs : Nat} {k : Bool → SockProg α}
    (hfailed : Follows advance (k false) Q failed) (hk : Follows advance (k true) Q ready) :
    Follows advance ((SockOp.ask (.setTimeouts timeoutMs)).bind k) Q connected := by
  refine follows_askThen.mpr fun done => ?_
  cases done with
  | false => exact ⟨failed, rfl, hfailed⟩
  | true => exact ⟨ready, rfl, hk⟩

/-- `write_all`, and what follows it. -/
theorem follows_write {bytes : List Byte} {k : Bool → SockProg α}
    (hfailed : Follows advance (k false) Q failed) (hk : Follows advance (k true) Q ready) :
    Follows advance ((Socks.writeAll bytes).bind k) Q ready := by
  refine follows_bind.mpr ((follows_writeAll (fun _ _ => rfl) bytes).mono ?_)
  rintro ok _ rfl
  cases ok with
  | false => exact hfailed
  | true => exact hk

theorem follows_readLoop (buffer : Socks.Buffer) (length : Nat) :
    Follows advance (Socks.readLoop buffer length)
      (fun r phase => phase = if r.succeeded then ready else failed) ready :=
  follows_readAll (fun _ _ _ => rfl) [] length

/-- `read_all`, and what follows it. -/
theorem follows_read {buffer : Socks.Buffer} {length : Nat} {k : Option (List Byte) → SockProg α}
    (hfailed : Follows advance (k none) Q failed) (hk : ∀ got, Follows advance (k (some got)) Q ready) :
    Follows advance ((Socks.readAll buffer length).bind k) Q ready := by
  refine follows_bind.mpr (follows_bind.mpr ((follows_readLoop buffer length).mono ?_))
  rintro r _ rfl
  cases r with
  | complete got => exact follows_ret.mpr (hk got)
  | ended => exact follows_ret.mpr hfailed
  | failed => exact follows_ret.mpr hfailed

/-- `read_all_diagnostic`, and what follows it. -/
theorem follows_readDiagnostic {buffer : Socks.Buffer} {length : Nat}
    {k : Option (List Byte) → SockProg α} (hfailed : Follows advance (k none) Q failed)
    (hk : ∀ got, Follows advance (k (some got)) Q ready) :
    Follows advance ((Socks.readAllDiagnostic buffer length).bind k) Q ready := by
  refine follows_bind.mpr (follows_bind.mpr ((follows_readLoop buffer length).mono ?_))
  rintro r _ rfl
  cases r with
  | complete got => exact follows_ret.mpr (hk got)
  | ended => exact follows_askThen.mpr fun r => ⟨failed, advance_setErrno _ _ r, follows_ret.mpr hfailed⟩
  | failed => exact follows_ret.mpr hfailed

/-! ### The handshakes -/

/-- `fp_socks5_drain_bind`, and what follows it. -/
theorem follows_drainBind {k : Int → SockProg α} (hfailed : ∀ r ph, r ≠ 0 → Used ph → Follows advance (k r) Q ph)
    (hk : Follows advance (k 0) Q ready) : Follows advance (Socks.fpSocks5DrainBind.bind k) Q ready := by
  have hrejected : Follows advance (.ret (-1))
      (fun r ph => Follows advance (k r) Q ph) ready :=
    follows_ret.mpr (hfailed (-1) ready (by decide) (.inl rfl))
  have hlost : Follows advance (.ret (-1)) (fun r ph => Follows advance (k r) Q ph) failed :=
    follows_ret.mpr (hfailed (-1) failed (by decide) (.inr rfl))
  have hdrain : ∀ remaining, Follows advance (Socks.drain remaining)
      (fun r ph => Follows advance (k r) Q ph) ready :=
    fun remaining => follows_read hlost fun _ => follows_ret.mpr hk
  refine follows_bind.mpr (follows_read hlost fun got => ?_)
  rcases got with _ | ⟨reserved, _ | ⟨kind, _ | ⟨_, _⟩⟩⟩
  · exact hrejected
  · exact hrejected
  · dsimp only
    split_ifs
    · exact hrejected
    · exact hdrain 6
    · exact hdrain 18
    · refine follows_read hlost fun got => ?_
      rcases got with _ | ⟨length, _ | ⟨_, _⟩⟩
      · exact hrejected
      · exact hdrain _
      · exact hrejected
    · exact hrejected
  · exact hrejected

/-- `open_socks` leaves a socket that is ready, or none. -/
theorem follows_openSocks (config : Config) (connectTimeoutMs ioTimeoutMs : Nat) :
    Follows advance (Socks.openSocks config connectTimeoutMs ioTimeoutMs)
      (fun ok phase => phase = if ok then ready else absent) absent := by
  have hclose : ∀ {phase}, phase ≠ absent →
      Follows advance Socks.closeFailed (fun ok phase => phase = if ok then ready else absent) phase :=
    fun h => follows_close h (follows_ret.mpr rfl)
  refine follows_socket (follows_ret.mpr rfl) ?_
  refine follows_connect (hclose (by simp)) (follows_setTimeouts (hclose (by simp)) ?_)
  refine follows_write (hclose (by simp)) (follows_read (hclose (by simp)) fun got => ?_)
  rcases got with _ | ⟨version, _ | ⟨method, _ | ⟨_, _⟩⟩⟩
  · exact hclose (by simp)
  · exact hclose (by simp)
  · dsimp only
    split_ifs
    · exact hclose (by simp)
    · exact follows_ret.mpr rfl
  · exact hclose (by simp)

theorem follows_connectSocks (config : Config) (destination : Destination)
    (connectTimeoutMs ioTimeoutMs : Nat) :
    Follows advance (Socks.connectSocks config destination connectTimeoutMs ioTimeoutMs)
      (fun ok phase => phase = if ok then ready else absent) absent := by
  have hclose : ∀ {phase}, phase ≠ absent →
      Follows advance Socks.closeFailed (fun ok phase => phase = if ok then ready else absent) phase :=
    fun h => follows_close h (follows_ret.mpr rfl)
  refine follows_bind.mpr ((follows_openSocks config connectTimeoutMs ioTimeoutMs).mono ?_)
  rintro ok _ rfl
  cases ok with
  | false => exact follows_ret.mpr rfl
  | true =>
    refine follows_write (hclose (by simp)) (follows_read (hclose (by simp)) fun got => ?_)
    rcases got with _ | ⟨version, _ | ⟨reply, _ | ⟨_, _⟩⟩⟩
    · exact hclose (by simp)
    · exact hclose (by simp)
    · dsimp only
      by_cases hbad : version ≠ 5 ∨ reply ≠ 0
      · rw [if_pos hbad]
        exact hclose (by simp)
      · rw [if_neg hbad]
        refine follows_drainBind (fun r phase hr hused => ?_) ?_
        · rw [if_pos hr]
          exact hclose hused.ne_absent
        · exact follows_ret.mpr rfl
    · exact hclose (by simp)

/-- `diagnostic_proxy_tcp` leaves a socket that is ready, or none. -/
theorem follows_diagnosticProxyTcp (config : Config) :
    Follows advance (Socks.diagnosticProxyTcp config)
      (fun failed phase => phase = if failed.isSome then absent else ready) absent := by
  have hfail : ∀ {phase}, phase ≠ absent → Follows advance Socks.diagnosticProxyTcp.fail
      (fun failed phase => phase = if failed.isSome then absent else ready) phase :=
    fun h => follows_errno fun _ => follows_close h (follows_ret.mpr rfl)
  refine follows_socket (follows_errno fun _ => follows_ret.mpr rfl) ?_
  refine follows_connect (hfail (by simp)) (follows_setTimeouts (hfail (by simp)) ?_)
  exact follows_ret.mpr rfl

/-- `diagnostic_socks_handshake` leaves the socket open, and ready when the server accepts. -/
theorem follows_diagnosticSocksHandshake :
    Follows advance Socks.diagnosticSocksHandshake
      (fun diagnosis phase => phase.Used ∧ (diagnosis.reason = .none → phase = ready)) ready := by
  have hlost : ∀ {phase}, Used phase → Follows advance Socks.ioFailed
      (fun diagnosis phase => phase.Used ∧ (diagnosis.reason = .none → phase = ready)) phase :=
    fun h => follows_errno fun _ => follows_ret.mpr ⟨h, by simp⟩
  refine follows_write (hlost (.inr rfl)) (follows_readDiagnostic (hlost (.inr rfl)) fun got => ?_)
  rcases got with _ | ⟨version, _ | ⟨method, _ | ⟨_, _⟩⟩⟩
  · exact hlost (.inl rfl)
  · exact hlost (.inl rfl)
  · dsimp only
    split_ifs
    · exact follows_ret.mpr ⟨.inl rfl, by simp⟩
    · exact follows_ret.mpr ⟨.inl rfl, by simp⟩
    · exact follows_ret.mpr ⟨.inl rfl, fun _ => rfl⟩
  · exact hlost (.inl rfl)

/-- `diagnostic_socks_connect` leaves no socket. -/
theorem follows_diagnosticSocksConnect (config : Config) (destination : Destination) :
    Follows advance (Socks.diagnosticSocksConnect config destination)
      (fun _ phase => phase = absent) absent := by
  have hclose : ∀ diagnosis {phase}, phase ≠ absent →
      Follows advance (Socks.closeWith diagnosis) (fun _ phase => phase = absent) phase :=
    fun _ _ h => follows_close h (follows_ret.mpr rfl)
  have hlost : ∀ {phase}, phase ≠ absent → Follows advance (Socks.ioFailed.bind Socks.closeWith)
      (fun _ phase => phase = absent) phase :=
    fun h => follows_bind.mpr (follows_errno fun _ => follows_ret.mpr (hclose _ h))
  refine follows_bind.mpr ((follows_diagnosticProxyTcp config).mono ?_)
  rintro failed _ rfl
  cases failed with
  | some errno => exact follows_ret.mpr rfl
  | none =>
  refine follows_bind.mpr (follows_diagnosticSocksHandshake.mono ?_)
  rintro diagnosis phase ⟨hused, hready⟩
  by_cases hreason : diagnosis.reason ≠ .none
  · rw [if_pos hreason]
    exact hclose diagnosis hused.ne_absent
  rw [if_neg hreason]
  obtain rfl := hready (not_not.mp hreason)
  refine follows_cancelled fun raised => ?_
  cases raised with
  | true => exact hclose _ (by simp)
  | false =>
    refine follows_write (hlost (by simp)) (follows_readDiagnostic (hlost (by simp)) fun got => ?_)
    rcases got with _ | ⟨version, _ | ⟨reply, _ | ⟨_, _⟩⟩⟩
    · exact hlost (by simp)
    · exact hlost (by simp)
    · dsimp only
      by_cases hversion : version ≠ 5
      · rw [if_pos hversion]
        exact hclose _ (by simp)
      rw [if_neg hversion]
      by_cases hreply : reply ≠ 0
      · rw [if_pos hreply]
        exact hclose _ (by simp)
      rw [if_neg hreply]
      refine follows_drainBind (fun r phase hr hused => ?_) ?_
      · rw [if_pos hr]
        exact hlost hused.ne_absent
      · exact hclose _ (by simp)
    · exact hlost (by simp)

end

/-! ## The diagnosis -/

open Diagnose (DiagnosticOp DiagnosticResp DiagnosticProg DiagnosticReport Failure Resolution World answered)

/-- The caller of `resolve_ipv4` owns an address list. -/
def handed (resolution : Resolution) : Bool := resolution.result = 0 ∧ resolution.addresses ≠ []

/-- What `fp_diagnostic_run` holds. -/
structure Holding where
  socket : SocketPhase
  /-- there is an address list to free -/
  addresses : Bool
  deriving DecidableEq

namespace Holding

/-- No socket and no addresses. -/
def nothing : Holding := ⟨.absent, false⟩

/-- The calls that what is held allows; the listener is told the end only when nothing is held. -/
def advance : Holding → (e : DiagnosticOp) → DiagnosticResp e → Option Holding
  | held, .sock e, r => (held.socket.advance e r).map fun socket => { held with socket := socket }
  | held, .resolve, r => if held.addresses then none else some { held with addresses := handed r }
  | held, .freeaddrinfo, _ => if held.addresses then some { held with addresses := false } else none
  | held, .transparentHttp _, _ => if held = nothing then some held else none
  | held, .onEvent event, _ => if event.item.step = .done then none else some held
  | held, .configExists, _ | held, .configLoad, _ | held, .daemonMatches _, _ | held, .readPid, _
  | held, .firewallIsEnabled _, _ => some held

/-- An event of a stage is told at any time. -/
theorem advance_stage (held : Holding) {event : Diagnose.DiagnosticEvent} (h : event.item.step ≠ .done) (r : Unit) :
    held.advance (.onEvent event) r = some held := if_neg h

theorem advance_transparent (destination : Destination) (r : Int × Option Int) :
    nothing.advance (.transparentHttp destination) r = some nothing := by
  simp [advance]

end Holding

/-- The caller is told that the diagnosis is done. -/
def tellsDone : DiagnosticOp → Bool
  | .onEvent event => event.item.step = .done
  | _ => false

theorem advance_tellsDone (held : Holding) (e : DiagnosticOp) (r : DiagnosticResp e) (h : tellsDone e = true) :
    held.advance e r = none := by
  cases e with
  | onEvent event => exact if_pos (of_decide_eq_true h)
  | _ => simp [tellsDone] at h

/-- Nothing is held when it is told that the diagnosis is done, and nothing is done behind it. -/
abbrev diagnosing : Closing Holding → (e : DiagnosticOp) → DiagnosticResp e → Option (Closing Holding) :=
  closing Holding.advance tellsDone .nothing

/-- The end of a diagnosis. -/
def diagnosed (listening : Bool) : Closing Holding := if listening then .closed else .going .nothing

/-- What a check leaves: nothing when it fails. -/
def Leaves {α : Type} (B : α → Holding → Prop) : Except Failure α → Holding → Prop
  | .error _, held => held = .nothing
  | .ok a, held => B a held

section

open Holding

variable {α β : Type} {held : Holding} {listening : Bool}

/-- A call that is not about what is held, and what follows it. -/
theorem follows_other {e : DiagnosticOp} {k : DiagnosticResp e → DiagnosticProg α} {Q : α → Holding → Prop}
    (h : ∀ r, advance held e r = some held) (hk : ∀ r, Follows advance (k r) Q held) :
    Follows advance ((DiagnosticOp.ask e).bind k) Q held :=
  follows_askThen.mpr fun r => ⟨held, h r, hk r⟩

/-- What is done on the socket leaves the address list alone. -/
theorem follows_sock {p : SockProg β} {k : β → DiagnosticProg α} {Q : α → Holding → Prop}
    {P : β → SocketPhase → Prop} (hp : Follows SocketPhase.advance p P held.socket)
    (hk : ∀ b socket, P b socket → Follows advance (k b) Q ⟨socket, held.addresses⟩) :
    Follows advance ((Diagnose.sock p).bind k) Q held := by
  have hembed : Follows advance (Diagnose.sock p)
      (fun b held' => ∃ socket, held' = ⟨socket, held.addresses⟩ ∧ P b socket) held :=
    follows_embed (fun socket => Holding.mk socket held.addresses) (fun _ _ _ _ h => congrArg (Option.map _) h) hp
  refine follows_bind.mpr (hembed.mono ?_)
  · rintro b _ ⟨socket, rfl, hP⟩
    exact hk b socket hP

theorem follows_askCancelled {k : Bool → DiagnosticProg α} {Q : α → Holding → Prop}
    (hk : ∀ raised, Follows advance (k raised) Q held) :
    Follows advance (Diagnose.cancelled.bind k) Q held :=
  follows_sock (follows_ask.mpr fun r => ⟨held.socket, SocketPhase.advance_cancelled _ r, rfl⟩)
    fun raised socket hsocket => by
      subst hsocket
      exact hk raised

/-! ### The checks -/

theorem follows_checkConfig :
    Follows advance Diagnose.checkConfig (Leaves fun _ held => held = nothing) nothing := by
  refine follows_other (fun _ => rfl) fun found => ?_
  cases found with
  | false => exact follows_ret.mpr rfl
  | true =>
    refine follows_other (fun _ => rfl) fun loaded => ?_
    cases loaded with
    | none => exact follows_ret.mpr rfl
    | some config => exact follows_ret.mpr rfl

theorem follows_checkDaemon (config : Config) :
    Follows advance (Diagnose.checkDaemon config) (Leaves fun _ held => held = nothing) nothing := by
  refine follows_other (fun _ => rfl) fun same => ?_
  cases same with
  | true => exact follows_ret.mpr rfl
  | false =>
    refine follows_other (fun _ => rfl) fun pid => ?_
    split_ifs
    · exact follows_ret.mpr rfl
    · exact follows_ret.mpr rfl

/-- A call on the socket, and what follows it. -/
theorem follows_askSock {e : SockOp} {k : SockResp e → DiagnosticProg α} {Q : α → Holding → Prop}
    {held : SockResp e → SocketPhase} {socket : SocketPhase} {addresses : Bool}
    (he : ∀ r, socket.advance e r = some (held r))
    (hk : ∀ r, Follows advance (k r) Q ⟨held r, addresses⟩) :
    Follows advance ((Diagnose.sock (SockOp.ask e)).bind k) Q ⟨socket, addresses⟩ := by
  refine follows_sock (P := fun r phase => phase = held r) (follows_ask.mpr fun r => ⟨_, he r, rfl⟩) ?_
  rintro r _ rfl
  exact hk r

theorem follows_checkListener :
    Follows advance Diagnose.checkListener (Leaves fun _ held => held = nothing) nothing := by
  refine follows_askSock (fun _ => rfl) fun made => ?_
  cases made with
  | false =>
    exact follows_askSock (SocketPhase.advance_errno _) fun _ => follows_ret.mpr rfl
  | true =>
    refine follows_askSock (fun _ => rfl) fun connected => ?_
    cases connected with
    | false =>
      refine follows_askSock (SocketPhase.advance_errno _) fun _ => ?_
      exact follows_askSock (fun _ => rfl) fun _ => follows_ret.mpr rfl
    | true => exact follows_askSock (fun _ => rfl) fun _ => follows_ret.mpr rfl

theorem follows_checkFirewall (config : Config) :
    Follows advance (Diagnose.checkFirewall config) (Leaves fun _ held => held = nothing) nothing := by
  refine follows_other (fun _ => rfl) fun enabled => ?_
  cases enabled with
  | false => exact follows_ret.mpr rfl
  | true => exact follows_ret.mpr rfl

/-- The next stage uses the socket. -/
theorem follows_checkProxyTcp (config : Config) :
    Follows advance (Diagnose.checkProxyTcp config) (Leaves fun _ held => held = ⟨.ready, false⟩) nothing := by
  refine follows_sock (follows_diagnosticProxyTcp config) ?_
  rintro failed _ rfl
  cases failed with
  | none => exact follows_ret.mpr rfl
  | some errno => exact follows_ret.mpr rfl

theorem follows_checkSocks5 :
    Follows advance Diagnose.checkSocks5 (Leaves fun _ held => held = nothing) ⟨.ready, false⟩ := by
  refine follows_sock follows_diagnosticSocksHandshake fun diagnosis socket hsocket => ?_
  refine follows_askSock (SocketPhase.advance_close hsocket.1.ne_absent) fun _ => follows_ret.mpr ?_
  unfold Diagnose.found
  split_ifs
  · rfl
  · rfl

/-- The next stage uses the address list. -/
theorem follows_checkDns :
    Follows advance Diagnose.checkDns (Leaves fun _ held => held = ⟨.absent, true⟩) nothing := by
  refine follows_askThen.mpr fun resolution => ⟨⟨.absent, handed resolution⟩, rfl, ?_⟩
  by_cases hfailed : resolution.result ≠ 0 ∨ resolution.addresses = []
  · rw [if_pos hfailed]
    have hnone : handed resolution = false := by
      rcases hfailed with h | h <;> simp [handed, h]
    exact follows_ret.mpr (by rw [hnone]; rfl)
  · rw [if_neg hfailed]
    rw [not_or, not_not] at hfailed
    have hsome : handed resolution = true := by simp [handed, hfailed]
    exact follows_ret.mpr (by rw [hsome]; rfl)

/-- Every address is tried with a socket of its own. -/
theorem follows_tryAddresses (config : Config) (attempt : Except Failure Destination)
    (addresses : List Diagnose.AddrInfo) :
    Follows advance (Diagnose.tryAddresses config attempt addresses) (fun _ held => held = ⟨.absent, true⟩)
      ⟨.absent, true⟩ := by
  induction addresses generalizing attempt with
  | nil => exact follows_ret.mpr rfl
  | cons address rest ih =>
    rw [Diagnose.tryAddresses]
    split_ifs
    · exact ih attempt
    refine follows_sock (follows_diagnosticSocksConnect config address.addr) ?_
    rintro diagnosis _ rfl
    cases Diagnose.found address.addr diagnosis with
    | ok destination => exact follows_ret.mpr rfl
    | error failure =>
      refine follows_askCancelled fun raised => ?_
      cases raised with
      | true => exact follows_ret.mpr rfl
      | false => exact ih (.error failure)

theorem follows_checkSocksConnect (config : Config) (addresses : List Diagnose.AddrInfo) :
    Follows advance (Diagnose.checkSocksConnect config addresses) (Leaves fun _ held => held = nothing)
      ⟨.absent, true⟩ := by
  refine follows_bind.mpr ((follows_tryAddresses config _ addresses).mono ?_)
  rintro attempt _ rfl
  refine follows_askThen.mpr fun _ => ⟨nothing, rfl, follows_ret.mpr ?_⟩
  cases attempt with
  | ok destination => rfl
  | error failure => rfl

theorem follows_checkTransparent (destination : Destination) :
    Follows advance (Diagnose.checkTransparent destination) (Leaves fun _ held => held = nothing) nothing := by
  refine follows_other (advance_transparent destination) fun r => ?_
  dsimp only
  split_ifs
  · exact follows_ret.mpr rfl
  · exact follows_ret.mpr rfl

/-! ### The stages -/

/-- `diagnostic_emit`, and what follows it. -/
theorem follows_emit {report : DiagnosticReport} {index : Diagnose.Stage} {state : Diagnose.DiagnosticState}
    {reason : Diagnose.DiagnosticReason} {errorCode detailCode : Int} {k : DiagnosticReport → DiagnosticProg α}
    {Q : α → Closing Holding → Prop} (hk : ∀ report, Follows diagnosing (k report) Q (.going held)) :
    Follows diagnosing ((Diagnose.diagnosticEmit listening report index state reason errorCode detailCode).bind k) Q
      (.going held) := by
  refine follows_going (P := fun _ ph => ph = held) advance_tellsDone ?_ ?_
  · cases listening with
    | false => exact follows_ret.mpr rfl
    | true => exact follows_other (advance_stage held (by simp)) fun _ => follows_ret.mpr rfl
  · rintro report _ rfl
    exact hk report

/-- `diagnostic_done`, and what follows it. -/
theorem follows_done {report : DiagnosticReport} {k : Unit → DiagnosticProg α} {Q : α → Closing Holding → Prop}
    (hk : Follows diagnosing (k ()) Q (diagnosed listening)) :
    Follows diagnosing ((Diagnose.diagnosticDone listening report).bind k) Q (.going nothing) := by
  cases listening with
  | false => exact hk
  | true => exact follows_last (by simp [tellsDone, Diagnose.doneEvent]) fun _ => hk

theorem follows_fail (report : DiagnosticReport) (index : Diagnose.Stage) (failure : Failure) :
    Follows diagnosing (Diagnose.diagnosticFail listening report index failure)
      (fun _ ph => ph = diagnosed listening) (.going nothing) :=
  follows_emit fun _ => follows_done (follows_ret.mpr rfl)

theorem follows_unlessCancelled {report : DiagnosticReport} {index : Diagnose.Stage}
    {next : DiagnosticProg (Int × DiagnosticReport)}
    (hnext : Follows diagnosing next (fun _ ph => ph = diagnosed listening) (.going nothing)) :
    Follows diagnosing (Diagnose.unlessCancelled listening report index next)
      (fun _ ph => ph = diagnosed listening) (.going nothing) := by
  have hcancelled : Follows advance Diagnose.cancelled (fun _ ph => ph = nothing) nothing :=
    follows_call.mpr fun _ => ⟨nothing, rfl, follows_ret.mpr rfl⟩
  refine follows_bind.mpr (follows_going advance_tellsDone hcancelled ?_)
  rintro raised _ rfl
  cases raised with
  | false => exact follows_ret.mpr hnext
  | true => exact follows_emit fun _ => follows_done (follows_ret.mpr (follows_ret.mpr rfl))

/-- A stage goes on with what its check leaves, and ends with nothing. -/
theorem follows_stage {index : Diagnose.Stage} {mayCancel : Bool}
    {check : DiagnosticProg (Except Failure α)} {report : DiagnosticReport}
    {next : α → DiagnosticReport → DiagnosticProg (Int × DiagnosticReport)} {B : α → Holding → Prop}
    (hcheck : Follows advance check (Leaves B) held)
    (hnext : ∀ a report held, B a held →
      Follows diagnosing (next a report) (fun _ ph => ph = diagnosed listening) (.going held)) :
    Follows diagnosing (Diagnose.stage listening index mayCancel check report next)
      (fun _ ph => ph = diagnosed listening) (.going held) := by
  refine follows_emit fun report => follows_going advance_tellsDone hcheck fun a held' ha => ?_
  cases a with
  | error failure =>
    obtain rfl : held' = nothing := ha
    cases mayCancel with
    | false => exact follows_fail report index failure
    | true => exact follows_unlessCancelled (follows_fail report index failure)
  | ok a => exact follows_emit fun report => hnext a report held' ha

theorem follows_fpDiagnosticRun (listening : Bool) :
    Follows diagnosing (Diagnose.fpDiagnosticRun listening) (fun _ ph => ph = diagnosed listening)
      (.going nothing) := by
  unfold Diagnose.fpDiagnosticRun
  refine follows_stage follows_checkConfig ?_
  rintro config report _ rfl
  refine follows_unlessCancelled (follows_stage (follows_checkDaemon config) ?_)
  rintro - report _ rfl
  refine follows_stage follows_checkListener ?_
  rintro - report _ rfl
  refine follows_stage (follows_checkFirewall config) ?_
  rintro - report _ rfl
  refine follows_stage (follows_checkProxyTcp config) ?_
  rintro - report _ rfl
  refine follows_stage follows_checkSocks5 ?_
  rintro - report _ rfl
  refine follows_stage follows_checkDns ?_
  rintro addresses report _ rfl
  refine follows_stage (follows_checkSocksConnect config addresses) ?_
  rintro destination report _ rfl
  refine follows_stage (follows_checkTransparent destination) ?_
  rintro - report _ rfl
  exact follows_done (follows_ret.mpr rfl)

end

open Session (SessionOp SessionResp SessionProg)

/-- How far the connection of the client is. -/
inductive ClientPhase where
  | accepted
  /-- with timeouts -/
  | timed
  /-- it is only to be closed -/
  | rejected
  | closed
  deriving DecidableEq

/-- Whether a slot of the stats has been asked for, and given back. -/
inductive SlotPhase where
  | unclaimed
  | claimed (statsSlot : Int)
  | released
  deriving DecidableEq

/-- What `handle_client` holds, and whether it still has the privileges. -/
structure Serving where
  client : ClientPhase
  slot : SlotPhase
  privileged : Bool
  upstream : SocketPhase
  deriving DecidableEq

namespace Serving

/-- The worker begins with the connection it was forked for. -/
def start : Serving := ⟨.accepted, .unclaimed, true, .absent⟩

/-- Everything is given back. -/
def Finished (serving : Serving) : Prop :=
  serving.client = .closed ∧ serving.upstream = .absent ∧ ∀ statsSlot, serving.slot ≠ .claimed statsSlot

/-- The calls in the order of `handle_client`. A call out of this order has no next phase. -/
def advance : Serving → (e : SessionOp) → SessionResp e → Option Serving
  | ⟨.accepted, slot, privileged, upstream⟩, .setClientTimeouts, done =>
    some ⟨if done then .timed else .rejected, slot, privileged, upstream⟩
  | ⟨.timed, slot, privileged, upstream⟩, .originalDst, destination =>
    some ⟨if destination.isSome then .timed else .rejected, slot, privileged, upstream⟩
  | ⟨.timed, .unclaimed, privileged, upstream⟩, .claim _, statsSlot =>
    some ⟨.timed, .claimed statsSlot, privileged, upstream⟩
  | ⟨.timed, .claimed statsSlot, true, .absent⟩, .dropPrivileges, dropped =>
    some ⟨if dropped then .timed else .rejected, .claimed statsSlot, !dropped, .absent⟩
  | ⟨.timed, .claimed statsSlot, false, upstream⟩, .sock e, r =>
    (upstream.advance e r).map fun upstream => ⟨.timed, .claimed statsSlot, false, upstream⟩
  | ⟨.timed, .claimed statsSlot, false, .ready⟩, .relay _, _ =>
    some ⟨.timed, .claimed statsSlot, false, .ready⟩
  | ⟨client, .claimed claimed, privileged, .absent⟩, .release statsSlot, _ =>
    if statsSlot = claimed then some ⟨client, .released, privileged, .absent⟩ else none
  | ⟨.timed, .released, privileged, .absent⟩, .closeClient, _ =>
    some ⟨.closed, .released, privileged, .absent⟩
  | ⟨.rejected, .released, privileged, .absent⟩, .closeClient, _ =>
    some ⟨.closed, .released, privileged, .absent⟩
  | ⟨.rejected, .unclaimed, privileged, .absent⟩, .closeClient, _ =>
    some ⟨.closed, .unclaimed, privileged, .absent⟩
  | _, _, _ => none

end Serving

section

open Serving

/-- The end of `handle_client`. -/
theorem follows_finish {client : ClientPhase} (hclient : client = .timed ∨ client = .rejected)
    (statsSlot : Int) (privileged : Bool) :
    Follows advance (Session.finish statsSlot) (fun _ serving => serving.Finished)
      ⟨client, .claimed statsSlot, privileged, .absent⟩ := by
  refine follows_askThen.mpr fun _ => ⟨⟨client, .released, privileged, .absent⟩, ?_, ?_⟩
  · rcases hclient with rfl | rfl <;> exact if_pos rfl
  · refine follows_ask.mpr fun _ => ⟨⟨.closed, .released, privileged, .absent⟩, ?_, rfl, rfl, by simp⟩
    rcases hclient with rfl | rfl <;> rfl

/-- `relay` works on what is there. -/
theorem follows_relay (self statsSlot : Int) :
    Follows advance (Session.onRelay (Relay.relay self statsSlot))
      (fun _ serving => serving = ⟨.timed, .claimed statsSlot, false, .ready⟩)
      ⟨.timed, .claimed statsSlot, false, .ready⟩ := by
  refine follows_calls (P := fun e => ∃ relayed, e = .relay relayed) ?_ ?_
  · exact calls_hoist ((calls_true _).mono fun e _ => ⟨e, rfl⟩)
  · rintro _ _ ⟨relayed, rfl⟩
    rfl

theorem follows_serve (self : Int) (config : Config) (destination : Destination) :
    Follows advance (Session.serve self config destination) (fun _ serving => serving.Finished)
      ⟨.timed, .unclaimed, true, .absent⟩ := by
  refine follows_askThen.mpr fun statsSlot => ⟨⟨.timed, .claimed statsSlot, true, .absent⟩, rfl, ?_⟩
  refine follows_askThen.mpr fun dropped => ?_
  cases dropped with
  | false =>
    exact ⟨⟨.rejected, .claimed statsSlot, true, .absent⟩, rfl, follows_finish (.inr rfl) statsSlot true⟩
  | true =>
    refine ⟨⟨.timed, .claimed statsSlot, false, .absent⟩, rfl, ?_⟩
    have hconnect : Follows advance
        (Session.sock (Socks.connectSocks config destination Session.fpConnectTimeoutMs Session.fpIoTimeoutMs))
        (fun connected serving => ∃ upstream, serving = ⟨.timed, .claimed statsSlot, false, upstream⟩ ∧
          upstream = if connected then .ready else .absent) ⟨.timed, .claimed statsSlot, false, .absent⟩ :=
      follows_embed (fun upstream => Serving.mk .timed (.claimed statsSlot) false upstream)
        (fun _ _ _ _ h => congrArg (Option.map _) h) (follows_connectSocks config destination _ _)
    refine follows_bind.mpr (hconnect.mono ?_)
    rintro connected _ ⟨upstream, rfl, rfl⟩
    cases connected with
    | false => exact follows_finish (.inl rfl) statsSlot false
    | true =>
      refine follows_bind.mpr ((follows_relay self statsSlot).mono ?_)
      rintro _ _ rfl
      exact follows_askThen.mpr fun _ => ⟨_, rfl, follows_finish (.inl rfl) statsSlot false⟩

theorem follows_handleClient (self : Int) (config : Config) :
    Follows advance (Session.handleClient self config) (fun _ serving => serving.Finished) start := by
  have hreject : Follows advance (SessionOp.ask .closeClient) (fun _ serving => serving.Finished)
      ⟨.rejected, .unclaimed, true, .absent⟩ :=
    follows_ask.mpr fun _ => ⟨_, rfl, rfl, rfl, by simp⟩
  refine follows_askThen.mpr fun done => ?_
  cases done with
  | false => exact ⟨_, rfl, hreject⟩
  | true =>
    refine ⟨⟨.timed, .unclaimed, true, .absent⟩, rfl, follows_askThen.mpr fun destination => ?_⟩
    cases destination with
    | none => exact ⟨_, rfl, hreject⟩
    | some destination => exact ⟨_, rfl, follows_serve self config destination⟩

end

/-- **A client gives back what it takes**, in any environment: the slot that is claimed is released, once; the
upstream socket is opened with the privileges dropped, used while it is ready, and closed; and the client is
closed behind that, once. -/
theorem handleClient_releases {S : Type} {rel : Rel SessionOp SessionResp S} (self : Int) (config : Config)
    {s s' : S} {tr : List (Ev SessionOp SessionResp)} {left : SessionProg Unit}
    (h : Steps rel (Session.handleClient self config) s tr left s') :
    ∃ serving, phaseAfter Serving.advance .start tr = some serving ∧
      ∀ result, left.result = some result → serving.Finished :=
  (follows_handleClient self config).trace h

/-- A client that is served until its connection is idle. -/
theorem handleClient_releases_idle :
    let choices := List.replicate 40 Session.plainCall ++ List.replicate 4
      ⟨true, ⟨true, false, 0, 0⟩, ⟨true, .timedOut, .done [], .done 0, .zero⟩⟩
    let sem := Session.sessionSem ⟨0, 80⟩ 0
    let tr := trace sem choices (Session.handleClient 2 .zero) Session.shortConnection
    let run := exec sem choices (Session.handleClient 2 .zero) Session.shortConnection
    run.1.result = some () ∧
      ∃ serving, phaseAfter Serving.advance .start tr = some serving ∧
        ∀ result, run.1.result = some result → serving.Finished := by
  intro choices sem tr run
  have hsteps : Steps sem.rel (Session.handleClient 2 .zero) Session.shortConnection tr run.1 run.2 :=
    exec_steps choices _ _
  exact ⟨by decide +kernel, handleClient_releases 2 .zero hsteps⟩

end FreeProxy.Sockets
