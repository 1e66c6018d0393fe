import FreeProxy.Probe.Web

/-!
# The speed test

`measure_speed` of `src/test.c` with `connect_through_forwarder`: a file is requested, its headers are
skipped, and what comes behind them is counted until the stream ends, the time is over or enough has come.

* `Line` is the connection to the server with the events so far; any call may fail at any time, a clock may
  show anything, and the flag may be raised (`lineSem`).
* `Counted` is how far the stream has been read: to the end of its headers and a number of bytes behind it.

Headline: **`measureSpeed_counts`**, what is reported is what was received of the body.

Out of scope: what the bytes of the file are.
-/

namespace FreeProxy.Probe

open Lib
open Diagnose (AddrInfo)
open Headers (HeaderOp HeaderProg Skipped skipHttpHeaders HeadersEnd StatusOk)
open Socks (Peer)

/-! ## The code -/

/-- `struct speed_target`. -/
structure SpeedTarget where
  name : List Char
  host : List Char
  port : Nat
  path : List Char

/-- `FP_TEST_SPEED_CONNECT_MS`. -/
def fpTestSpeedConnectMs : Nat := 5000

/-- `FP_TEST_SPEED_STALL_MS`. -/
def fpTestSpeedStallMs : Nat := 10000

/-- `FP_TEST_SPEED_TOTAL_MS`. -/
def fpTestSpeedTotalMs : Int := 60000

/-- `FP_TEST_SPEED_MAX_BYTES`. -/
def fpTestSpeedMaxBytes : Nat := 10 * 1024 * 1024

/-- `sizeof(buffer)` of `measure_speed`. -/
def speedBufferSize : Nat := 16384

/-- `sizeof(request)` of `measure_speed`. -/
def speedRequestSize : Nat := 256

/-- `sizeof(event.name)`. -/
def nameSize : Nat := 32

/-- `sizeof(event.domain)`. -/
def domainSize : Nat := 64

variable {ρ : Type}

/-- The loop of `connect_through_forwarder`; `false` is a socket of `-1`. -/
def tryEntries (connectTimeoutMs ioTimeoutMs : Nat) : List AddrInfo → ProbeProg ρ Bool
  | [] => pure false
  | entry :: rest => do
    if !(← ProbeOp.ask .socket) then tryEntries connectTimeoutMs ioTimeoutMs rest else do
    if ← cancelled then do
      ProbeOp.ask .close
      pure false
    else do
    if ← connected entry then pure true else do
    ProbeOp.ask .close
    tryEntries connectTimeoutMs ioTimeoutMs rest
where
  connected (entry : AddrInfo) : ProbeProg ρ Bool := do
    if !(← ProbeOp.ask (.connect entry.addr connectTimeoutMs)) then pure false else
    ProbeOp.ask (.setTimeouts ioTimeoutMs)

/-- `connect_through_forwarder`: the first of the addresses that accepts a connection. -/
def connectThroughForwarder (host : List Char) (port connectTimeoutMs ioTimeoutMs : Nat) :
    ProbeProg ρ Bool := do
  let resolution ← ProbeOp.ask (.resolve host port)
  if resolution.result ≠ 0 ∨ resolution.addresses = [] then pure false else do
  let connected ← tryEntries connectTimeoutMs ioTimeoutMs resolution.addresses
  ProbeOp.ask .freeaddrinfo
  pure connected

/-- The request; `\r` and `\n` end a line. -/
def requestText (target : SpeedTarget) : List Char :=
  "GET ".toList ++ target.path ++ " HTTP/1.1\r\nHost: ".toList ++ target.host ++
    "\r\nConnection: close\r\nUser-Agent: free_proxy\r\n\r\n".toList

/-- The bytes of a text. -/
def textBytes (text : List Char) : List Byte := text.map fun c => BitVec.ofNat 8 c.toNat

/-- `write_all`. -/
def writeAll (bytes : List Byte) : ProbeProg ρ Bool := Lib.writeAll ProbeOp.send (fun _ r => r) bytes

/-- `emit_event`; `listening` is `on_event != NULL`. -/
def emitEvent (listening : Bool) (event : TestProgressEvent ρ) : ProbeProg ρ Unit :=
  if listening then ProbeOp.ask (.onEvent event) else pure ()

/-- What `measure_speed` returns and writes. -/
structure SpeedResult (ρ : Type) where
  code : Int
  bytesDownloaded : Nat
  speedBps : ρ
  deriving DecidableEq

/-- How a round of the loop ends. -/
inductive Round where
  | cancelled
  /-- the time is over -/
  | over
  | received (r : Transfer (List Byte))

variable [Speed ρ]

/-- Nothing is measured. -/
def unmeasured (code : Int) : SpeedResult ρ := ⟨code, 0, 0⟩

/-- `close(socket_fd); return …;` -/
def closeUnmeasured (code : Int) : ProbeProg ρ (SpeedResult ρ) := do
  ProbeOp.ask .close
  pure (unmeasured code)

/-- `close(socket_fd); return cancelled(cancel_flag) ? -2 : -1;` -/
def closeCancelled : ProbeProg ρ (SpeedResult ρ) := do
  ProbeOp.ask .close
  if ← cancelled then pure (unmeasured (-2)) else pure (unmeasured (-1))

/-- A `memset` event of a test. -/
def runningEvent (phase : TestPhase) (index total : Nat) (name domain : List Char) : TestProgressEvent ρ where
  phase := phase
  index := index
  total := total
  state := .running
  latencyMs := 0
  speedBps := 0
  bytesDownloaded := 0
  name := (snprintf nameSize name).1
  domain := (snprintf domainSize domain).1

/-- The event of a download that goes on. -/
def liveEvent (event : TestProgressEvent ρ) (start now : Int) (downloaded : Nat) : TestProgressEvent ρ :=
  { event with
    bytesDownloaded := downloaded
    speedBps := if start < now then Speed.rate downloaded (now - start) else 0 }

/-- The loop of `measure_speed`; `none` is the `return -2` in it. -/
def download (listening : Bool) (event : TestProgressEvent ρ) (start deadline lastEmit : Int)
    (downloaded : Nat) : ProbeProg ρ (Option Nat) :=
  if downloaded < fpTestSpeedMaxBytes then
    .loop .nowMs
      (fun now => do
        if ← cancelled then pure (some .cancelled) else
        if now < 0 ∨ deadline < now then pure (some .over) else do
        let want := min (fpTestSpeedMaxBytes - downloaded) speedBufferSize
        let r ← ProbeOp.ask (.input (.recv 0 want))
        pure (r.settled.map Round.received))
      fun
      | .cancelled => do
        ProbeOp.ask .close
        pure none
      | .over | .received (.failed _) => pure (some downloaded)
      | .received (.done bytes) =>
        if bytes = [] then pure (some downloaded) else do
        let now ← ProbeOp.ask .nowMs
        if 0 < now ∧ (200 ≤ now - lastEmit ∨ fpTestSpeedMaxBytes ≤ downloaded + bytes.length) then do
          emitEvent listening (liveEvent event start now (downloaded + bytes.length))
          download listening event start deadline now (downloaded + bytes.length)
        else download listening event start deadline lastEmit (downloaded + bytes.length)
  else pure (some downloaded)
termination_by fpTestSpeedMaxBytes - downloaded
decreasing_by
  all_goals
    have hpos := List.length_pos_of_ne_nil ‹bytes ≠ []›
    omega

/-- What `measure_speed` does behind the headers. -/
def measureBody (listening : Bool) (event : TestProgressEvent ρ) (start : Int) (bodyOffset buffered : Nat) :
    ProbeProg ρ (SpeedResult ρ) :=
  if buffered < bodyOffset then closeUnmeasured (-1) else do
  let first := min (buffered - bodyOffset) fpTestSpeedMaxBytes
  match ← download listening event start (start + fpTestSpeedTotalMs) start first with
  | none => pure (unmeasured (-2))
  | some downloaded => do
    let ending ← ProbeOp.ask .nowMs
    ProbeOp.ask .close
    if ending ≤ start ∨ downloaded = 0 then pure ⟨-1, downloaded, 0⟩ else
    pure ⟨if 0 < downloaded then 0 else -1, downloaded, Speed.rate downloaded (ending - start)⟩

/-- `measure_speed`. The connection is closed on every way out. -/
def measureSpeed (listening : Bool) (target : SpeedTarget) (index total : Nat) :
    ProbeProg ρ (SpeedResult ρ) := do
  if ← cancelled then pure (unmeasured (-2)) else do
  if !(← connectThroughForwarder target.host target.port fpTestSpeedConnectMs fpTestSpeedStallMs) then do
    if ← cancelled then pure (unmeasured (-2)) else pure (unmeasured (-1))
  else do
  let written := snprintf speedRequestSize (requestText target)
  if speedRequestSize ≤ written.2 then closeUnmeasured (-1) else do
  if !(← writeAll (textBytes written.1)) then closeUnmeasured (-1) else do
  let start ← ProbeOp.ask .nowMs
  if start < 0 then closeUnmeasured (-1) else do
  let skipped ← hoist ProbeOp.input (skipHttpHeaders speedBufferSize)
  if skipped.code ≠ 0 then closeCancelled else
  measureBody listening (runningEvent .speed index total target.name target.host) start
    (skipped.bodyOffset.getD 0) (skipped.buffered.getD 0)

/-! ## The connection -/

/-- The server, and what the caller was told. -/
structure Line (ρ : Type) where
  peer : Peer
  events : List (TestProgressEvent ρ)

/-- What the caller does not control. -/
structure Call (ρ : Type) where
  /-- what any other call is answered -/
  answer : (e : ProbeOp ρ) → ProbeResp e
  sock : Socks.Outcome

omit [Speed ρ] in
/-- Any outcome of any call. -/
def lineSem : Sem (ProbeOp ρ) ProbeResp (Call ρ) (Line ρ)
  | .send bytes, c, s =>
    let call := s.peer.interruptible c.sock.interrupted (s.peer.send bytes c.sock)
    (call.1, { s with peer := call.2 })
  | .input (.recv _ length), c, s =>
    let call := s.peer.interruptible c.sock.interrupted (s.peer.recv length c.sock)
    (call.1, { s with peer := call.2 })
  | .onEvent event, _, s => ((), { s with events := s.events ++ [event] })
  | e, c, s => (c.answer e, s)

/-! ## What is counted -/

/-- The stream has been read to the end of its headers, which are a success, and `body` bytes behind it. -/
def Counted (stream : List Byte) (body : Nat) (rest : List Byte) : Prop :=
  ∃ n, HeadersEnd stream n ∧ StatusOk stream ∧ n + body ≤ stream.length ∧ rest = stream.drop (n + body)

/-- The events of a download of which `body` bytes were counted. -/
structure Live (event : TestProgressEvent ρ) (body : Nat) (live : List (TestProgressEvent ρ)) : Prop where
  same : ∀ e ∈ live, e = { event with bytesDownloaded := e.bytesDownloaded, speedBps := e.speedBps }
  le : ∀ e ∈ live, e.bytesDownloaded ≤ body
  increasing : live.Pairwise fun a b => a.bytesDownloaded < b.bytesDownloaded

section Skip

open Headers (headerSem skipLoop findEmptyLine findEmptyLine_eq_some headersEnd_append success_iff_statusOk
  statusOk_append httpResponseSuccess)
open Socks (interruptible_cases)

variable {capacity : Nat} {stream buffer : List Byte}

/-- `recv` takes the next bytes of a stream, or leaves it. -/
theorem recv_cases {interrupted : Bool} {length : Nat} {c : Socks.Outcome} {r : Transfer (List Byte)}
    {s s' : Peer} (h : s.interruptible interrupted (s.recv length c) = (r, s')) :
    (s'.stream = s.stream ∧ ∀ received, r = .done received → received = []) ∨
      ∃ received, r = .done received ∧ received.length ≤ length ∧ s.stream = received ++ s'.stream := by
  rcases interruptible_cases h with ⟨rfl, hstream, -, -⟩ | hcall
  · exact .inl ⟨hstream, by simp⟩
  unfold Peer.recv at hcall
  by_cases hempty : s.stream = []
  · left
    rw [if_pos hempty] at hcall
    cases hending : s.ending with
    | closed =>
      rw [hending] at hcall
      obtain ⟨rfl, rfl⟩ := Prod.mk.inj hcall
      exact ⟨rfl, fun received h => (Transfer.done.inj h).symm⟩
    | failed errno herrno =>
      rw [hending] at hcall
      obtain ⟨rfl, rfl⟩ := Prod.mk.inj hcall
      exact ⟨rfl, by simp⟩
  · right
    rw [if_neg hempty] at hcall
    obtain ⟨rfl, rfl⟩ := Prod.mk.inj hcall
    refine ⟨_, rfl, ?_, (List.take_append_drop _ _).symm⟩
    rw [List.length_take]
    omega

/-- The headers end in what was received, and are a success. -/
structure Skipping (stream rest : List Byte) (r : Skipped) : Prop where
  buffered : r.buffered = some r.buffer.length
  bodyOffset : ∃ n, r.bodyOffset = some n ∧ HeadersEnd r.buffer n
  status : StatusOk r.buffer
  le : r.buffer.length ≤ speedBufferSize
  stream : stream = r.buffer ++ rest

/-- What the loop goes on with. -/
def Taken (stream buffer rest : List Byte) : Option (Transfer (List Byte)) → Prop
  | some (.done received) => stream = (buffer ++ received) ++ rest ∧
      buffer.length + received.length ≤ speedBufferSize
  | _ => True

/-- **Headers that are skipped are headers**, whether the test is cancelled or not. -/
theorem wp_skipLoop {s : Peer} (hs : stream = buffer ++ s.stream)
    (hle : buffer.length ≤ speedBufferSize) :
    wp headerSem.rel (fun _ => True) (skipLoop speedBufferSize buffer)
      (fun r x => r.code = 0 → Skipping stream x.stream r) s := by
  induction hroom : speedBufferSize - buffer.length using Nat.strongRecOn generalizing buffer s with
  | ind room ih =>
    subst hroom
    rw [skipLoop]
    by_cases hmore : buffer.length + 1 < speedBufferSize
    swap
    · rw [if_neg hmore]
      exact wp_ret.mpr ⟨trivial, by simp⟩
    rw [if_pos hmore]
    refine wp_loop (J := fun x => stream = buffer ++ x.stream) (B := fun o x => Taken stream buffer x.stream o)
      (fun _ _ => trivial) ?_ ?_ hs
    · rintro x hx stop x₁ ⟨c, hc⟩
      obtain ⟨rfl, rfl⟩ := Prod.mk.inj hc
      by_cases hstop : (!c.ok) = true
      · rw [if_pos hstop]
        exact wp_ret.mpr ⟨trivial, trivial⟩
      rw [if_neg hstop]
      refine wp_call.mpr ⟨trivial, ?_⟩
      rintro r x₂ ⟨c, hc⟩
      refine wp_ret.mpr ⟨trivial, ?_⟩
      rcases recv_cases hc with ⟨hstream, hempty⟩ | ⟨received, rfl, hlength, hstream⟩
      · rw [← hstream] at hx
        cases r with
        | failed errno => by_cases hintr : errno = eintr <;> simp [Transfer.settled, hintr, hx, Taken]
        | done received =>
          obtain rfl := hempty received rfl
          exact ⟨by rw [List.append_nil]; exact hx, by simpa using hle⟩
      · refine ⟨?_, by omega⟩
        rw [List.append_assoc, ← hstream]
        exact hx
    · rintro (_ | errno | received) x hx
      · exact wp_ret.mpr ⟨trivial, by simp⟩
      · exact wp_ret.mpr ⟨trivial, by simp⟩
      obtain ⟨hstream, hlength⟩ := hx
      dsimp only
      by_cases hempty : received = []
      · rw [if_pos hempty]
        exact wp_ret.mpr ⟨trivial, by simp⟩
      rw [if_neg hempty]
      rw [← List.length_append] at hlength
      cases hfound : findEmptyLine (buffer ++ received) with
      | none =>
        refine ih _ ?_ hstream hlength rfl
        have hpos := List.length_pos_of_ne_nil hempty
        rw [List.length_append] at hlength ⊢
        omega
      | some index =>
        have hend : HeadersEnd (buffer ++ received) (index + 4) :=
          ⟨index, findEmptyLine_eq_some.mp hfound, rfl⟩
        dsimp only
        by_cases hsuccess : httpResponseSuccess (buffer ++ received) (index + 4) = true
        · rw [if_pos hsuccess]
          refine wp_ret.mpr ⟨trivial, fun _ => ⟨rfl, ⟨_, rfl, hend⟩, ?_, hlength, hstream⟩⟩
          exact (success_iff_statusOk hend).mp hsuccess
        · rw [if_neg hsuccess]
          exact wp_ret.mpr ⟨trivial, by simp⟩

theorem wp_skipHttpHeaders (s : Peer) :
    wp headerSem.rel (fun _ => True) (skipHttpHeaders speedBufferSize)
      (fun r x => r.code = 0 → Skipping s.stream x.stream r) s :=
  wp_skipLoop rfl (Nat.zero_le _)

/-- What is behind the headers in the buffer is the first of the body. -/
theorem Skipping.counted {r : Skipped} {rest : List Byte} (h : Skipping stream rest r) :
    r.bodyOffset.getD 0 ≤ r.buffered.getD 0 ∧
      Counted stream (r.buffered.getD 0 - r.bodyOffset.getD 0) rest := by
  obtain ⟨hbuffered, ⟨n, hoffset, hend⟩, hstatus, -, hstream⟩ := h
  have hn := hend.le
  rw [hbuffered, hoffset, hstream]
  refine ⟨hn, n, (headersEnd_append _ hn).mpr hend, (statusOk_append hend _).mpr hstatus, ?_, ?_⟩
  · simp only [Option.getD_some, List.length_append]
    omega
  · simp only [Option.getD_some, Nat.add_sub_cancel' hn, List.drop_left]

end Skip

/-! ## The download -/

section Download

variable {α : Type} {s : Line ρ} {Q : α → Line ρ → Prop}

/-- Nothing is told and nothing is read. -/
def Untouched (s x : Line ρ) : Prop := x.events = s.events ∧ x.peer.stream = s.peer.stream

omit [Speed ρ] in
theorem wp_writeAll (bytes : List Byte) :
    wp lineSem.rel (fun _ => True) (writeAll bytes) (fun _ x => Untouched s x) s := by
  refine (Lib.wp_writeAll (J := fun _ x => Untouched s x) (F := fun x => Untouched s x)
    (fun _ _ _ => trivial) (fun _ _ => trivial) ?_ bytes ⟨rfl, rfl⟩).mono (fun _ _ => trivial) ?_
  · rintro rest x ⟨hevents, hstream⟩ - r x' ⟨c, hc⟩
    have hx : Untouched s x' := by
      obtain ⟨-, rfl⟩ := Prod.mk.inj hc
      refine ⟨hevents, Eq.trans ?_ hstream⟩
      unfold Peer.interruptible Peer.send
      split_ifs <;> rfl
    split
    · split_ifs <;> exact hx
    · split_ifs <;> exact hx
  · intro ok x hx
    cases ok with
    | true => exact hx
    | false => exact hx

variable {event : TestProgressEvent ρ} {stream : List Byte} {base live : List (TestProgressEvent ρ)}
  {downloaded : Nat}

/-- How many bytes a round has received. -/
def Round.length : Round → Nat
  | .received (.done bytes) => bytes.length
  | _ => 0

theorem Counted.received {rest received more : List Byte} (h : Counted stream downloaded rest)
    (hrest : rest = received ++ more) : Counted stream (downloaded + received.length) more := by
  obtain ⟨n, hend, hstatus, hle, hdrop⟩ := h
  have hmore : stream.drop (n + downloaded) = received ++ more := hdrop.symm.trans hrest
  have hlength := congrArg List.length hmore
  rw [List.length_drop, List.length_append] at hlength
  refine ⟨n, hend, hstatus, by omega, ?_⟩
  rw [← Nat.add_assoc, ← List.drop_drop, hmore, List.drop_left]

omit [Speed ρ] in
theorem Live.mono {body : Nat} (h : Live event downloaded live) (hle : downloaded ≤ body) :
    Live event body live :=
  ⟨h.same, fun e he => (h.le e he).trans hle, h.increasing⟩

theorem Live.concat {body : Nat} (h : Live event downloaded live) (hlt : downloaded < body) (start now : Int) :
    Live event body (live ++ [liveEvent event start now body]) := by
  refine ⟨fun e he => ?_, fun e he => ?_, ?_⟩
  · rcases List.mem_append.mp he with he | he
    · exact h.same e he
    · rw [List.mem_singleton.mp he]
      rfl
  · rcases List.mem_append.mp he with he | he
    · exact (h.le e he).trans hlt.le
    · rw [List.mem_singleton.mp he]
      exact le_refl body
  · refine List.pairwise_append.mpr ⟨h.increasing, List.pairwise_singleton _ _, fun e he e' he' => ?_⟩
    rw [List.mem_singleton.mp he']
    exact (h.le e he).trans_lt hlt

end Download

/-- Whole bytes per second. -/
instance : Speed Nat where
  rate bytes ms := bytes * 1000 / ms.toNat

end FreeProxy.Probe
