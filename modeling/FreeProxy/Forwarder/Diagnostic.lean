import FreeProxy.Forwarder.Socks

/-!
# The SOCKS5 diagnosis

`diagnostic_socks_connect` of `src/test.c` with `diagnostic_proxy_tcp` and `diagnostic_socks_handshake`: a
second client of the protocol of `connect_socks`, with its own reads. It says what is wrong with the
server. A `Diagnosis` is what it returns and what it writes to `error_code` and `detail_code`.

* `wp_diagnosticSocksConnect`: the diagnosis is the `verdict` that `connect_socks` follows.
* `BadResponse` are the responses that the diagnosis names; every other defect is an error of the
  connection (`verdict_eq_error`).

Headline: **`diagnosis_agrees`**.

Out of scope: time. A timeout is one of the errors that a call may answer with.
-/

namespace FreeProxy.Socks

open Lib

/-- `enum fp_diagnostic_reason`, as far as `diagnostic_socks_connect` returns it. -/
inductive DiagnosticReason where
  | none
  | cancelled
  | proxyUnreachable
  | socksIo
  | socksVersion
  | socksAuth
  | socksConnectRejected
  deriving DecidableEq

/-- What a diagnosing handshake has found. -/
structure Diagnosis where
  reason : DiagnosticReason
  /-- what is written to `*error_code` -/
  errorCode : Option Int
  /-- what is written to `*detail_code` -/
  detailCode : Option Byte
  deriving DecidableEq

/-! ## The code -/

/-- `FP_TEST_TIMEOUT_MS`. -/
def testTimeoutMs : Nat := 3000

/-- `ECONNRESET`. -/
def econnreset : Int := 104

/-- `read_all_diagnostic`; `none` is `-1`. -/
def readAllDiagnostic (buffer : Buffer) (length : Nat) : SockProg (Option (List Byte)) := do
  match ← readLoop buffer length with
  | .complete got => pure (some got)
  | .ended => do
    SockOp.ask (.setErrno econnreset)
    pure none
  | .failed => pure none

/-- `diagnostic_proxy_tcp`; `some` is the `*error_code` of a failure. -/
def diagnosticProxyTcp (config : Config) : SockProg (Option Int) := do
  if !(← SockOp.ask .socket) then do
    let errno ← SockOp.ask .errno
    pure (some errno)
  else do
  if !(← SockOp.ask (.connect config.proxyAddr config.proxyPort testTimeoutMs)) then fail else do
  if !(← SockOp.ask (.setTimeouts testTimeoutMs)) then fail else pure none
where
  fail : SockProg (Option Int) := do
    let errno ← SockOp.ask .errno
    SockOp.ask .close
    pure (some errno)

/-- `*error_code = errno;`, with `FP_DIAGNOSTIC_REASON_SOCKS_IO`. -/
def ioFailed : SockProg Diagnosis := do
  let errno ← SockOp.ask .errno
  pure ⟨.socksIo, some errno, none⟩

/-- `diagnostic_socks_handshake`. -/
def diagnosticSocksHandshake : SockProg Diagnosis := do
  if !(← writeAll greeting) then ioFailed else do
  match ← readAllDiagnostic .response 2 with
  | some [version, method] =>
    if version ≠ 5 then pure ⟨.socksVersion, none, some version⟩ else
    if method ≠ 0 then pure ⟨.socksAuth, none, some method⟩ else pure ⟨.none, none, none⟩
  | _ => ioFailed

/-- `close(socket_fd); return …;` -/
def closeWith (diagnosis : Diagnosis) : SockProg Diagnosis := do
  SockOp.ask .close
  pure diagnosis

/-- `diagnostic_socks_connect`. The connection is closed whatever it finds. -/
def diagnosticSocksConnect (config : Config) (destination : Destination) : SockProg Diagnosis := do
  match ← diagnosticProxyTcp config with
  | some errno => pure ⟨.proxyUnreachable, some errno, none⟩
  | none => do
    let handshake ← diagnosticSocksHandshake
    if handshake.reason ≠ .none then closeWith handshake else do
    if ← SockOp.ask .cancelled then closeWith ⟨.cancelled, none, none⟩ else do
    if !(← writeAll (request destination)) then (do closeWith (← ioFailed)) else do
    match ← readAllDiagnostic .response 2 with
    | some [version, reply] =>
      if version ≠ 5 then closeWith ⟨.socksVersion, none, some version⟩ else
      if reply ≠ 0 then closeWith ⟨.socksConnectRejected, none, some reply⟩ else do
      if (← fpSocks5DrainBind) ≠ 0 then (do closeWith (← ioFailed)) else
      closeWith ⟨.none, none, none⟩
    | _ => do closeWith (← ioFailed)

/-! ## What a diagnosis should say -/

/-- The reason that names a defect. -/
def Defect.reason : Defect → DiagnosticReason
  | .version _ => .socksVersion
  | .auth _ => .socksAuth
  | .rejected _ => .socksConnectRejected
  | .io => .socksIo

/-- The offending byte. -/
def Defect.detail : Defect → Option Byte
  | .version found | .auth found | .rejected found => some found
  | .io => none

/-- The first response of a stream that is complete and not the expected one. -/
inductive BadResponse : List Byte → Defect → Prop where
  | greetingVersion {version method : Byte} {rest : List Byte} (h : version ≠ 5) :
      BadResponse (version :: method :: rest) (.version version)
  | auth {method : Byte} {rest : List Byte} (h : method ≠ 0) :
      BadResponse (5 :: method :: rest) (.auth method)
  | requestVersion {version reply : Byte} {rest : List Byte} (h : version ≠ 5) :
      BadResponse (5 :: 0 :: version :: reply :: rest) (.version version)
  | rejected {reply : Byte} {rest : List Byte} (h : reply ≠ 0) :
      BadResponse (5 :: 0 :: 5 :: reply :: rest) (.rejected reply)

theorem verdict_of_bad {stream : List Byte} {defect : Defect} (h : BadResponse stream defect) :
    verdict stream = .error defect := by
  cases h with
  | greetingVersion h => exact if_pos h
  | auth h =>
    simp only [verdict, ne_eq, not_true_eq_false, if_false]
    exact if_pos h
  | requestVersion h =>
    simp only [verdict, requestVerdict, ne_eq, not_true_eq_false, if_false]
    exact if_pos h
  | rejected h =>
    simp only [verdict, requestVerdict, ne_eq, not_true_eq_false, if_false]
    exact if_pos h

theorem bad_of_verdict {stream : List Byte} {defect : Defect} (h : verdict stream = .error defect) :
    BadResponse stream defect ∨ defect = .io := by
  rcases stream with _ | ⟨version, _ | ⟨method, stream⟩⟩
  · exact .inr (Except.error.inj h).symm
  · exact .inr (Except.error.inj h).symm
  simp only [verdict] at h
  by_cases hversion : version ≠ 5
  · rw [if_pos hversion] at h
    obtain rfl := Except.error.inj h
    exact .inl (.greetingVersion hversion)
  rw [if_neg hversion] at h
  obtain rfl := not_not.mp hversion
  by_cases hmethod : method ≠ 0
  · rw [if_pos hmethod] at h
    obtain rfl := Except.error.inj h
    exact .inl (.auth hmethod)
  rw [if_neg hmethod] at h
  obtain rfl := not_not.mp hmethod
  rcases stream with _ | ⟨version, _ | ⟨reply, stream⟩⟩
  · exact .inr (Except.error.inj h).symm
  · exact .inr (Except.error.inj h).symm
  simp only [requestVerdict] at h
  by_cases hversion : version ≠ 5
  · rw [if_pos hversion] at h
    obtain rfl := Except.error.inj h
    exact .inl (.requestVersion hversion)
  rw [if_neg hversion] at h
  obtain rfl := not_not.mp hversion
  by_cases hreply : reply ≠ 0
  · rw [if_pos hreply] at h
    obtain rfl := Except.error.inj h
    exact .inl (.rejected hreply)
  rw [if_neg hreply] at h
  cases hdrop : dropBind stream with
  | none =>
    rw [hdrop] at h
    exact .inr (Except.error.inj h).symm
  | some payload =>
    rw [hdrop] at h
    cases h

/-! ## The program follows the verdict -/

section

variable {s : Peer}

theorem wp_readTwoDiagnostic (buffer : Buffer) (s : Peer) :
    wp up (fun _ => True) (readAllDiagnostic buffer 2)
      (fun r s' => s'.sent = s.sent ∧
        ((∃ a b, r = some [a, b] ∧ s.stream = a :: b :: s'.stream) ∨ (r = none ∧ s.stream.length < 2)))
      s := by
  refine wp_bind.mpr ((wp_readLoop buffer 2 s).mono (fun _ _ => trivial) ?_)
  rintro r s' ⟨hsent, hr⟩
  cases r with
  | complete got =>
    obtain ⟨hlength, hstream⟩ := hr
    obtain ⟨a, b, rfl⟩ := List.length_eq_two.mp hlength
    exact wp_ret.mpr ⟨trivial, hsent, .inl ⟨a, b, rfl, hstream⟩⟩
  | ended => exact wp_up fun _ _ => wp_ret.mpr ⟨trivial, hsent, .inr ⟨rfl, hr⟩⟩
  | failed => exact wp_ret.mpr ⟨trivial, hsent, .inr ⟨rfl, hr⟩⟩

theorem wp_closeWith {Q : Diagnosis → Peer → Prop} {diagnosis : Diagnosis} (h : Q diagnosis s) :
    wp up (fun _ => True) (closeWith diagnosis) Q s :=
  wp_up fun _ _ => wp_ret.mpr ⟨trivial, h⟩

theorem wp_ioFailed {Q : Diagnosis → Peer → Prop} (h : Q ⟨.socksIo, some s.errno, none⟩ s) :
    wp up (fun _ => True) ioFailed Q s :=
  wp_up fun _ _ => wp_ret.mpr ⟨trivial, h⟩

theorem wp_ioFailedClose {Q : Diagnosis → Peer → Prop} (h : Q ⟨.socksIo, some s.errno, none⟩ s) :
    wp up (fun _ => True) (ioFailed.bind closeWith) Q s :=
  wp_bind.mpr (wp_ioFailed (wp_closeWith h))

/-- What is diagnosed of the first defect. -/
def Names (defect : Defect) (diagnosis : Diagnosis) : Prop :=
  diagnosis.reason = defect.reason ∧ diagnosis.detailCode = defect.detail

theorem wp_diagnosticSocksHandshake (s : Peer) : wp up (fun _ => True) diagnosticSocksHandshake
    (fun d s' => s'.sent = s.sent ++ greeting ∧
      if greeted s.stream then d.reason = .none ∧ s.stream = 5 :: 0 :: s'.stream
      else d.reason ≠ .none ∧ ∃ defect, verdict s.stream = .error defect ∧ Names defect d) s := by
  refine wp_writeThen fun s₁ hstream₁ hsent₁ => ?_
  refine wp_bind.mpr ((wp_readTwoDiagnostic .response s₁).mono (fun _ _ => trivial) ?_)
  rw [hstream₁, hsent₁]
  rintro _ s₂ ⟨hsent₂, ⟨version, method, rfl, hstream₂⟩ | ⟨rfl, hshort⟩⟩
  swap
  · obtain ⟨hverdict, hgreeted⟩ := verdict_short hshort
    rw [hverdict, hgreeted]
    exact wp_ioFailed ⟨hsent₂, by simp, .io, rfl, rfl, rfl⟩
  rw [hstream₂]
  dsimp only
  by_cases hversion : version ≠ 5
  · rw [if_pos hversion, greeted_eq_false.mpr (.inl hversion)]
    exact wp_ret.mpr ⟨trivial, hsent₂, by simp, _, verdict_of_bad (.greetingVersion hversion), rfl, rfl⟩
  rw [if_neg hversion]
  obtain rfl := not_not.mp hversion
  by_cases hmethod : method ≠ 0
  · rw [if_pos hmethod, greeted_eq_false.mpr (.inr hmethod)]
    exact wp_ret.mpr ⟨trivial, hsent₂, by simp, _, verdict_of_bad (.auth hmethod), rfl, rfl⟩
  rw [if_neg hmethod]
  obtain rfl := not_not.mp hmethod
  exact wp_ret.mpr ⟨trivial, hsent₂, rfl, rfl⟩

/-- The connection is up. -/
theorem wp_diagnosticProxyTcp (config : Config) (s : Peer) :
    wp up (fun _ => True) (diagnosticProxyTcp config) (fun r s' => r = none ∧ s = s') s := by
  refine wp_socket ?_
  refine wp_connect ?_
  refine wp_setTimeouts ?_
  exact wp_ret.mpr ⟨trivial, rfl, rfl⟩

/-- **The diagnosis is the verdict.** -/
theorem wp_diagnosticSocksConnect (config : Config) (destination : Destination) (s : Peer) :
    wp up (fun _ => True) (diagnosticSocksConnect config destination)
      (fun d s' => s'.sent = s.sent ++ sentTo destination s.stream ∧ match verdict s.stream with
        | .ok _ => d.reason = .none
        | .error defect => Names defect d) s := by
  refine wp_bind.mpr ((wp_diagnosticProxyTcp config s).mono (fun _ _ => trivial) ?_)
  rintro _ _ ⟨rfl, rfl⟩
  refine wp_bind.mpr ((wp_diagnosticSocksHandshake s).mono (fun _ _ => trivial) ?_)
  rintro handshake s₁ ⟨hsent₁, hhandshake⟩
  unfold sentTo
  cases hgreeted : greeted s.stream with
  | false =>
    rw [hgreeted] at hhandshake
    obtain ⟨hreason, defect, hdefect, hnames⟩ := hhandshake
    rw [if_pos hreason, hdefect]
    exact wp_closeWith ⟨by simpa using hsent₁, hnames⟩
  | true =>
    rw [hgreeted] at hhandshake
    obtain ⟨hreason, hstream⟩ := hhandshake
    rw [if_neg (not_not.mpr hreason), (verdict_of_greeted hstream).1]
    -- nobody cancels
    refine wp_up fun c hc => ?_
    simp only [peerSem, hc, Bool.not_true, Bool.false_eq_true, if_false, if_true]
    refine wp_writeThen fun s₂ hstream₂ hsent₂ => ?_
    have hsent : s₂.sent = s.sent ++ (greeting ++ request destination) := by
      rw [hsent₂, hsent₁, List.append_assoc]
    refine wp_bind.mpr ((wp_readTwoDiagnostic .response s₂).mono (fun _ _ => trivial) ?_)
    rw [hstream₂]
    rintro _ s₃ ⟨hsent₃, ⟨version, reply, rfl, hstream₃⟩ | ⟨rfl, hshort⟩⟩
    swap
    · rw [requestVerdict_short hshort]
      exact wp_ioFailedClose ⟨hsent₃.trans hsent, rfl, rfl⟩
    rw [hstream₃]
    simp only [requestVerdict]
    by_cases hversion : version ≠ 5
    · rw [if_pos hversion, if_pos hversion]
      exact wp_closeWith ⟨hsent₃.trans hsent, rfl, rfl⟩
    rw [if_neg hversion, if_neg hversion]
    by_cases hreply : reply ≠ 0
    · rw [if_pos hreply, if_pos hreply]
      exact wp_closeWith ⟨hsent₃.trans hsent, rfl, rfl⟩
    rw [if_neg hreply, if_neg hreply]
    refine wp_bind.mpr ((wp_fpSocks5DrainBind s₃).mono (fun _ _ => trivial) ?_)
    rintro r s₄ ⟨hsent₄, hr⟩
    have hsent' : s₄.sent = s.sent ++ (greeting ++ request destination) := by
      rw [hsent₄, hsent₃, hsent]
    cases hdrop : dropBind s₃.stream with
    | none =>
      rw [hdrop] at hr
      obtain rfl : r = -1 := hr
      exact wp_ioFailedClose ⟨hsent', rfl, rfl⟩
    | some payload =>
      rw [hdrop] at hr
      obtain ⟨rfl, -⟩ := hr
      exact wp_closeWith ⟨hsent', rfl⟩

end

/-! ## The diagnosis comes to an end -/

theorem terminates_readAllDiagnostic (buffer : Buffer) (length : Nat) (s : Peer) :
    Terminates up (readAllDiagnostic buffer length) s := by
  refine (terminates_readLoop buffer length s).bind fun r s _ => ?_
  cases r with
  | complete got => exact .ret _ _
  | ended => exact (terminates_ask _ s).bind fun _ _ _ => .ret _ _
  | failed => exact .ret _ _

theorem terminates_ioFailed (s : Peer) : Terminates up ioFailed s :=
  (terminates_ask .errno s).bind fun _ _ _ => .ret _ _

theorem terminates_closeWith (diagnosis : Diagnosis) (s : Peer) :
    Terminates up (closeWith diagnosis) s :=
  (terminates_ask .close s).bind fun _ _ _ => .ret _ _

theorem terminates_diagnosticProxyTcp (config : Config) (s : Peer) :
    Terminates up (diagnosticProxyTcp config) s := by
  have hfail : ∀ s, Terminates up diagnosticProxyTcp.fail s := fun s =>
    (terminates_ask .errno s).bind fun _ s _ => (terminates_ask .close s).bind fun _ _ _ => .ret _ _
  refine (terminates_ask .socket s).bind fun socket s _ => ?_
  split
  · exact (terminates_ask .errno s).bind fun _ _ _ => .ret _ _
  refine (terminates_ask _ s).bind fun connected s _ => ?_
  split
  · exact hfail s
  refine (terminates_ask _ s).bind fun timed s _ => ?_
  split
  · exact hfail s
  · exact .ret _ _

theorem terminates_diagnosticSocksHandshake (s : Peer) : Terminates up diagnosticSocksHandshake s := by
  refine (terminates_writeAll _ s).bind fun written s _ => ?_
  split
  · exact terminates_ioFailed s
  refine (terminates_readAllDiagnostic .response 2 s).bind fun response s _ => ?_
  split
  · split
    · exact .ret _ _
    split
    · exact .ret _ _
    · exact .ret _ _
  · exact terminates_ioFailed s

theorem terminates_diagnosticSocksConnect (config : Config) (destination : Destination) (s : Peer) :
    Terminates up (diagnosticSocksConnect config destination) s := by
  have hfail : ∀ s, Terminates up (ioFailed.bind closeWith) s := fun s =>
    (terminates_ioFailed s).bind fun d s _ => terminates_closeWith d s
  refine (terminates_diagnosticProxyTcp config s).bind fun errorCode s _ => ?_
  split
  · exact .ret _ _
  refine (terminates_diagnosticSocksHandshake s).bind fun handshake s _ => ?_
  split
  · exact terminates_closeWith _ s
  refine (terminates_ask .cancelled s).bind fun cancelled s _ => ?_
  split
  · exact terminates_closeWith _ s
  refine (terminates_writeAll _ s).bind fun written s _ => ?_
  split
  · exact hfail s
  refine (terminates_readAllDiagnostic .response 2 s).bind fun response s _ => ?_
  split
  · split
    · exact terminates_closeWith _ s
    split
    · exact terminates_closeWith _ s
    refine (terminates_fpSocks5DrainBind s).bind fun drained s _ => ?_
    split
    · exact hfail s
    · exact terminates_closeWith _ s
  · exact hfail s

/-! ## Headline -/

/-- **The diagnosis agrees with the forwarder.** Given one stream, however it is cut, interrupted and
ended for either of them, both come to an end and send the same bytes, the diagnosis finds nothing iff
`connect_socks` succeeds, and it names the first bad response; whatever else is wrong is an error of the
connection. -/
theorem diagnosis_agrees (config : Config) (destination : Destination)
    (connectTimeoutMs ioTimeoutMs : Nat) (s t : Peer) (hstream : s.stream = t.stream) :
    let diagnose := diagnosticSocksConnect config destination
    let connect := connectSocks config destination connectTimeoutMs ioTimeoutMs
    Terminates up diagnose s ∧ Terminates up connect t ∧
      ∀ d s' ok t', Runs up diagnose s d s' → Runs up connect t ok t' →
        (d.reason = .none ↔ ok = true) ∧
        (∃ bytes, s'.sent = s.sent ++ bytes ∧ t'.sent = t.sent ++ bytes) ∧
        (∀ defect, BadResponse s.stream defect →
          d.reason = defect.reason ∧ d.detailCode = defect.detail) ∧
        (d.reason ≠ .none → (¬ ∃ defect, BadResponse s.stream defect) → d.reason = .socksIo) := by
  intro diagnose connect
  refine ⟨terminates_diagnosticSocksConnect config destination s,
    terminates_connectSocks config destination connectTimeoutMs ioTimeoutMs t, ?_⟩
  intro d s' ok t' hd hok
  obtain ⟨hsent, hd⟩ := (wp_diagnosticSocksConnect config destination s).runs hd
  obtain ⟨hsent', hok⟩ := (wp_connectSocks config destination connectTimeoutMs ioTimeoutMs t).runs hok
  rw [← hstream] at hsent' hok
  refine ⟨?_, ⟨_, hsent, hsent'⟩, ?_, ?_⟩
  · cases hverdict : verdict s.stream with
    | ok payload =>
      rw [hverdict] at hd hok
      exact ⟨fun _ => hok.1, fun _ => hd⟩
    | error defect =>
      rw [hverdict] at hd hok
      have hreason : d.reason ≠ .none := by
        rw [hd.1]
        cases defect <;> simp [Defect.reason]
      exact ⟨fun h => absurd h hreason, fun h => absurd h (by rw [hok]; simp)⟩
  · intro defect hbad
    rw [verdict_of_bad hbad] at hd
    exact hd
  · intro hreason hgood
    cases hverdict : verdict s.stream with
    | ok payload =>
      rw [hverdict] at hd
      exact absurd hd hreason
    | error defect =>
      rw [hverdict] at hd
      rcases bad_of_verdict hverdict with hbad | rfl
      · exact absurd ⟨defect, hbad⟩ hgood
      · exact hd.1

/-- A server that wants an authentication nobody offered, and closes. -/
def refusing (interrupts : Nat) : Peer := ⟨[5, 255], .closed, interrupts, [], 0⟩

/-- The rejected greeting is named. -/
theorem diagnosis_agrees_auth : ∃ d s',
    Runs up (diagnosticSocksConnect .zero ⟨0, 0⟩) (refusing 0) d s' ∧
      d.reason = .socksAuth ∧ d.detailCode = some 255 := by
  obtain ⟨hdiagnose, hconnect, hagrees⟩ :=
    diagnosis_agrees .zero ⟨0, 0⟩ 1000 1000 (refusing 0) (refusing 1) rfl
  obtain ⟨d, s', hd⟩ := hdiagnose.runs up_answered
  obtain ⟨ok, t', hok⟩ := hconnect.runs up_answered
  obtain ⟨-, -, hbad, -⟩ := hagrees d s' ok t' hd hok
  exact ⟨d, s', hd, hbad _ (.auth (by decide))⟩

end FreeProxy.Socks
