import FreeProxy.Forwarder.Sockets
import FreeProxy.Probe.TestRun

/-!
# What a test holds

The socket, the address list and the libcurl handle of `fp_test_run`, as a protocol of its calls.

* `RequestPhase` is how far a handle has come. A request is sent when every option of `curlOptions` has been
  set, and once something has failed the handle can only be given back.
* `Handles` is what is held. The caller is told of a download that is running while the socket is open;
  whenever it is told of anything else, nothing is held.

Headline: **`fpTestRun_releases`**.

Out of scope: memory, and what libcurl holds for a handle.
-/

namespace FreeProxy.Probe

open Lib
open Diagnose (AddrInfo)
open Headers (HeaderOp HeaderResp Skipped skipHttpHeaders)
open Sockets (SocketPhase handed)

variable {ρ : Type}

/-! ## The protocol -/

/-- How far a libcurl handle has come. -/
inductive RequestPhase where
  | absent
  /-- the options that have been set -/
  | prepared (options : List CurlOption)
  | answered
  /-- it is only to be given back -/
  | failed
  deriving DecidableEq

namespace RequestPhase

/-- Every option is set; the first one is the URL. -/
def Complete (options : List CurlOption) : Prop := options.tail = (curlOptions []).tail

instance (options : List CurlOption) : Decidable (Complete options) := by
  unfold Complete
  infer_instance

/-- The calls in the order of `fp_web_probe`. A call out of this order has no next phase. -/
def advance : RequestPhase → (e : ProbeOp ρ) → ProbeResp e → Option RequestPhase
  | absent, .easyInit, made => some (if made then prepared [] else absent)
  | prepared options, .easySetopt option, done => some (if done then prepared (options ++ [option]) else failed)
  | prepared options, .easyPerform, performed =>
    if Complete options then some (if performed = .ok then answered else failed) else none
  | answered, .responseCode, code => some (if code.isSome then answered else failed)
  | answered, .startTransfer, first => some (if first.isSome then answered else failed)
  | absent, .easyCleanup, _ => none
  | _, .easyCleanup, _ => some absent
  | _, _, _ => none

end RequestPhase

/-- What a test holds. -/
structure Handles where
  socket : SocketPhase
  /-- there is an address list to free -/
  addresses : Bool
  request : RequestPhase
  deriving DecidableEq

namespace Handles

/-- No socket, no addresses and no handle. -/
def nothing : Handles := ⟨.absent, false, .absent⟩

/-- An event of a row that is running. -/
def Ongoing (event : TestProgressEvent ρ) : Prop := event.state = .running ∧ event.phase ≠ .done

instance (event : TestProgressEvent ρ) : Decidable (Ongoing event) := by
  unfold Ongoing
  infer_instance

/-- The calls that what is held allows. A call that is not allowed has no next state. -/
def advance : Handles → (e : ProbeOp ρ) → ProbeResp e → Option Handles
  | handles, .input .cancelled, _ | handles, .webProbeInit, _ | handles, .nowMs, _ => some handles
  | handles, .configLoad, _ | handles, .firewallIsEnabled _, _ => some handles
  | handles, .input (.recv _ _), received =>
    if handles.socket = .ready then some { handles with socket := if received.Over [] then .failed else .ready }
    else none
  | handles, .socket, made =>
    (handles.socket.advance .socket made).map fun socket => { handles with socket := socket }
  | handles, .connect addr timeoutMs, made =>
    (handles.socket.advance (.connect addr.addr addr.port timeoutMs) made).map
      fun socket => { handles with socket := socket }
  | handles, .setTimeouts timeoutMs, done =>
    (handles.socket.advance (.setTimeouts timeoutMs) done).map fun socket => { handles with socket := socket }
  | handles, .send bytes, sent =>
    (handles.socket.advance (.send bytes) sent).map fun socket => { handles with socket := socket }
  | handles, .close, _ => (handles.socket.advance .close ()).map fun socket => { handles with socket := socket }
  | handles, .resolve _ _, r => if handles.addresses then none else some { handles with addresses := handed r }
  | handles, .freeaddrinfo, _ => if handles.addresses then some { handles with addresses := false } else none
  | handles, .onEvent event, _ =>
    if Ongoing event ∨ event.phase ≠ .done ∧ handles = nothing then some handles else none
  | handles, e, r => (handles.request.advance e r).map fun request => { handles with request := request }

/-- A socket, and nothing else. -/
abbrev only (socket : SocketPhase) : Handles := ⟨socket, false, .absent⟩

theorem advance_ongoing (handles : Handles) {event : TestProgressEvent ρ} (h : Ongoing event) (r : Unit) :
    handles.advance (.onEvent event) r = some handles := if_pos (.inl h)

theorem advance_onEvent {event : TestProgressEvent ρ} (h : event.phase ≠ .done) (r : Unit) :
    nothing.advance (.onEvent event) r = some nothing := if_pos (.inr ⟨h, rfl⟩)

theorem advance_close {socket : SocketPhase} (h : socket ≠ .absent) (r : Unit) :
    (only socket).advance (.close : ProbeOp ρ) r = some nothing := by
  change (socket.advance .close ()).map _ = _
  rw [SocketPhase.advance_close h]
  rfl

end Handles

/-- The caller is told that the test is done. -/
def tellsDone : ProbeOp ρ → Bool
  | .onEvent event => event.phase = .done
  | _ => false

theorem advance_tellsDone (handles : Handles) (e : ProbeOp ρ) (r : ProbeResp e) (h : tellsDone e = true) :
    handles.advance e r = none := by
  cases e with
  | onEvent event =>
    have hdone : event.phase = .done := of_decide_eq_true h
    exact if_neg (by simp [Handles.Ongoing, hdone])
  | _ => simp [tellsDone] at h

/-- Nothing is held when it is told that the test is done, and nothing is done behind it. -/
abbrev testing : Closing Handles → (e : ProbeOp ρ) → ProbeResp e → Option (Closing Handles) :=
  closing Handles.advance tellsDone .nothing

/-- The end of a test. -/
def tested (listening : Bool) : Closing Handles := if listening then .closed else .going .nothing

section

open Handles

variable {α : Type} {handles : Handles} {Q : α → Handles → Prop} {listening : Bool}

/-- A call that is not about what is held, and what follows it. -/
theorem follows_unheld {e : ProbeOp ρ} {k : ProbeResp e → ProbeProg ρ α}
    (h : ∀ r, advance handles e r = some handles) (hk : ∀ r, Follows advance (k r) Q handles) :
    Follows advance ((ProbeOp.ask e).bind k) Q handles :=
  follows_askThen.mpr fun r => ⟨handles, h r, hk r⟩

theorem follows_closeSocket {socket : SocketPhase} {k : Unit → ProbeProg ρ α} (h : socket ≠ .absent)
    (hk : Follows advance (k ()) Q nothing) : Follows advance ((ProbeOp.ask .close).bind k) Q (only socket) :=
  follows_askThen.mpr fun r => ⟨nothing, advance_close h r, hk⟩

/-! ## A web probe -/

theorem follows_easySetopts (done options : List CurlOption) :
    Follows advance (easySetopts options : ProbeProg ρ Bool)
      (fun ok handles => handles = ⟨.absent, false, if ok then .prepared (done ++ options) else .failed⟩)
      ⟨.absent, false, .prepared done⟩ := by
  induction options generalizing done with
  | nil => exact follows_ret.mpr (by simp)
  | cons option rest ih =>
    refine follows_askThen.mpr fun set => ⟨_, rfl, ?_⟩
    cases set with
    | false => exact follows_ret.mpr rfl
    | true =>
      have hrest := ih (done ++ [option])
      rwa [List.append_assoc, List.singleton_append] at hrest

/-- The handle is to be given back, however the request ends. -/
def Requested (handles : Handles) : Prop := ∃ request, handles = ⟨.absent, false, request⟩ ∧ request ≠ .absent

theorem follows_request (url : List Char) :
    Follows advance (request url : ProbeProg ρ Probed) (fun _ handles => Requested handles)
      ⟨.absent, false, .prepared []⟩ := by
  refine follows_bind.mpr ((follows_easySetopts [] (curlOptions url)).mono ?_)
  rintro done _ rfl
  cases done with
  | false => exact follows_ret.mpr ⟨_, rfl, by simp⟩
  | true =>
  refine follows_askThen.mpr fun performed => ⟨_, rfl, ?_⟩
  cases performed with
  | aborted =>
    refine follows_unheld (fun _ => rfl) fun raised => ?_
    cases raised with
    | false => exact follows_ret.mpr ⟨_, rfl, by simp⟩
    | true => exact follows_ret.mpr ⟨_, rfl, by simp⟩
  | failed => exact follows_ret.mpr ⟨_, rfl, by simp⟩
  | ok =>
  refine follows_askThen.mpr fun code => ⟨_, rfl, ?_⟩
  cases code with
  | none => exact follows_ret.mpr ⟨_, rfl, by simp⟩
  | some code =>
  refine follows_askThen.mpr fun first => ⟨_, rfl, ?_⟩
  rcases first with _ | _ | latencyMs
  · exact follows_ret.mpr ⟨_, rfl, by simp⟩
  · exact follows_ret.mpr ⟨_, rfl, by simp⟩
  · change Follows _ (if code < 100 ∨ 600 ≤ code then _ else _) _ (⟨_, _, .answered⟩ : Handles)
    by_cases hcode : code < 100 ∨ 600 ≤ code
    · rw [if_pos hcode]
      exact follows_ret.mpr ⟨_, rfl, by simp⟩
    · rw [if_neg hcode]
      exact follows_ret.mpr ⟨_, rfl, by simp⟩

theorem follows_fpWebProbe (domain : List Char) (port : Nat) :
    Follows advance (fpWebProbe domain port : ProbeProg ρ Probed) (fun _ handles => handles = nothing) nothing := by
  have hend : ∀ probed, Follows advance (.ret probed : ProbeProg ρ Probed) (fun _ handles => handles = nothing)
      nothing := fun _ => follows_ret.mpr rfl
  unfold fpWebProbe
  split_ifs
  · exact hend _
  refine follows_unheld (fun _ => rfl) fun ready => ?_
  cases ready with
  | false => exact hend _
  | true =>
  refine follows_unheld (fun _ => rfl) fun raised => ?_
  cases raised with
  | true => exact hend _
  | false =>
  change Follows _ (if urlSize ≤ (snprintf urlSize (urlText domain port)).2 then _ else _) _ _
  split_ifs
  · exact hend _
  refine follows_askThen.mpr fun made => ⟨⟨.absent, false, if made then .prepared [] else .absent⟩, rfl, ?_⟩
  cases made with
  | false => exact hend _
  | true =>
  refine follows_bind.mpr ((follows_request _).mono ?_)
  rintro probed _ ⟨request, rfl, hrequest⟩
  refine follows_askThen.mpr fun _ => ⟨nothing, ?_, hend probed⟩
  cases request with
  | absent => exact absurd rfl hrequest
  | prepared options => rfl
  | answered => rfl
  | failed => rfl

theorem follows_takeSamples (domain : List Char) (port n : Nat) :
    Follows advance (takeSamples domain port n : ProbeProg ρ (Except Int (List Int)))
      (fun _ handles => handles = nothing) nothing := by
  induction n with
  | zero => exact follows_ret.mpr rfl
  | succ n ih =>
    refine follows_bind.mpr ((follows_fpWebProbe domain port).mono ?_)
    rintro probed _ rfl
    cases probed with
    | error result => exact follows_ret.mpr rfl
    | ok latencyMs =>
      refine follows_bind.mpr (ih.mono ?_)
      rintro r _ rfl
      cases r with
      | error result => exact follows_ret.mpr rfl
      | ok samples => exact follows_ret.mpr rfl

theorem follows_measureSite (mode : TestMode) (target : TestTarget) :
    Follows advance (measureSite mode target : ProbeProg ρ (Int × Measured ρ .site))
      (fun _ handles => handles = nothing) nothing := by
  have hlatency : ∀ sampleTotal, Follows advance
      (measureLatency target.domain target.port sampleTotal : ProbeProg ρ Probed)
      (fun _ handles => handles = nothing) nothing := by
    intro sampleTotal
    unfold measureLatency
    split_ifs
    · exact follows_ret.mpr rfl
    refine follows_bind.mpr ((follows_takeSamples _ _ _).mono ?_)
    rintro r _ rfl
    rcases r with result | (_ | ⟨a, _ | ⟨b, _ | ⟨c, _ | ⟨d, rest⟩⟩⟩⟩) <;> exact follows_ret.mpr rfl
  refine follows_bind.mpr ((hlatency _).mono ?_)
  rintro r _ rfl
  cases r with
  | ok latencyMs => exact follows_ret.mpr rfl
  | error result => exact follows_ret.mpr rfl

/-! ## A download -/

/-- Every address is tried with a socket of its own. -/
theorem follows_tryEntries (connectTimeoutMs ioTimeoutMs : Nat) (entries : List AddrInfo) :
    Follows advance (tryEntries connectTimeoutMs ioTimeoutMs entries : ProbeProg ρ Bool)
      (fun ok handles => handles = ⟨if ok then .ready else .absent, true, .absent⟩) ⟨.absent, true, .absent⟩ := by
  induction entries with
  | nil => exact follows_ret.mpr rfl
  | cons entry rest ih =>
    have hagain : ∀ {socket}, socket ≠ .absent → Follows advance
        ((ProbeOp.ask .close).bind fun _ => tryEntries connectTimeoutMs ioTimeoutMs rest : ProbeProg ρ Bool)
        (fun ok handles => handles = ⟨if ok then .ready else .absent, true, .absent⟩) ⟨socket, true, .absent⟩ := by
      intro socket hsocket
      refine follows_askThen.mpr fun _ => ⟨⟨.absent, true, .absent⟩, ?_, ih⟩
      change (socket.advance .close ()).map _ = _
      rw [SocketPhase.advance_close hsocket]
      rfl
    refine follows_askThen.mpr fun made => ⟨_, rfl, ?_⟩
    cases made with
    | false => exact ih
    | true =>
    refine follows_unheld (fun _ => rfl) fun raised => ?_
    cases raised with
    | true => exact follows_askThen.mpr fun _ => ⟨_, rfl, follows_ret.mpr rfl⟩
    | false =>
    refine follows_bind.mpr (follows_askThen.mpr fun connected => ⟨_, rfl, ?_⟩)
    cases connected with
    | false => exact follows_ret.mpr (hagain (by simp))
    | true =>
    refine follows_ask.mpr fun done => ⟨_, rfl, ?_⟩
    cases done with
    | false => exact hagain (by simp)
    | true => exact follows_ret.mpr rfl

theorem follows_connectThroughForwarder (host : List Char) (port connectTimeoutMs ioTimeoutMs : Nat) :
    Follows advance (connectThroughForwarder host port connectTimeoutMs ioTimeoutMs : ProbeProg ρ Bool)
      (fun ok handles => handles = only (if ok then .ready else .absent)) nothing := by
  refine follows_askThen.mpr fun resolution => ⟨⟨.absent, handed resolution, .absent⟩, rfl, ?_⟩
  by_cases hfailed : resolution.result ≠ 0 ∨ resolution.addresses = []
  · rw [if_pos hfailed]
    have hnone : handed resolution = false := by
      rcases hfailed with h | h <;> simp [handed, h]
    exact follows_ret.mpr (by rw [hnone]; rfl)
  · rw [if_neg hfailed]
    rw [not_or, not_not] at hfailed
    have hsome : handed resolution = true := by simp [handed, hfailed]
    rw [hsome]
    refine follows_bind.mpr ((follows_tryEntries _ _ _).mono ?_)
    rintro connected _ rfl
    exact follows_askThen.mpr fun _ => ⟨only _, rfl, follows_ret.mpr rfl⟩

theorem follows_writeBytes (bytes : List Byte) :
    Follows advance (writeAll bytes : ProbeProg ρ Bool)
      (fun ok handles => handles = if ok then only .ready else only .failed) (only .ready) :=
  follows_writeAll (fun _ r => by by_cases h : r.Over 0 <;> simp [advance, SocketPhase.advance, h]) bytes

/-- The socket is to be closed. -/
def Open (handles : Handles) : Prop := ∃ socket, handles = only socket ∧ socket ≠ .absent

theorem follows_skipLoop (capacity : Nat) (buffer : List Byte) :
    Follows (fun handles (e : HeaderOp) (r : HeaderResp e) => advance handles (.input e : ProbeOp ρ) r)
      (Headers.skipLoop capacity buffer)
      (fun skipped handles => Open handles ∧ (skipped.code = 0 → handles = only .ready)) (only .ready) := by
  have hready : Open (only .ready) := ⟨.ready, rfl, by simp⟩
  induction hroom : capacity - buffer.length using Nat.strongRecOn generalizing buffer with
  | ind room ih =>
    subst hroom
    rw [Headers.skipLoop]
    split_ifs
    swap
    · exact follows_ret.mpr ⟨hready, by simp⟩
    refine follows_loop (J := fun handles => handles = only .ready) (B := fun round handles => Open handles ∧
      ∀ received, round = some (.done received) → received ≠ [] → handles = only .ready) ?_ ?_ rfl
    · rintro _ rfl stop
      refine ⟨only .ready, rfl, ?_⟩
      cases stop with
      | true => exact follows_ret.mpr ⟨hready, by simp⟩
      | false =>
        rw [if_neg Bool.false_ne_true]
        refine follows_call.mpr fun (received : Transfer (List Byte)) =>
          ⟨only (if received.Over [] then .failed else .ready), rfl, follows_ret.mpr ?_⟩
        cases received with
        | failed errno =>
          by_cases hintr : errno = eintr
          · simp [Transfer.settled, Transfer.Over, hintr]
          · simpa [Transfer.settled, Transfer.Over, hintr] using ⟨SocketPhase.failed, rfl, by simp⟩
        | done received =>
          by_cases hempty : received = []
          · simpa [Transfer.settled, Transfer.Over, hempty] using ⟨SocketPhase.failed, rfl, by simp⟩
          · simpa [Transfer.settled, Transfer.Over, hempty] using hready
    · rintro (_ | errno | received) handles ⟨hopen, hmore⟩
      · exact follows_ret.mpr ⟨hopen, by simp⟩
      · exact follows_ret.mpr ⟨hopen, by simp⟩
      dsimp only
      by_cases hempty : received = []
      · rw [if_pos hempty]
        exact follows_ret.mpr ⟨hopen, by simp⟩
      rw [if_neg hempty]
      obtain rfl := hmore received rfl hempty
      cases Headers.findEmptyLine (buffer ++ received) with
      | none =>
        refine ih _ ?_ (buffer ++ received) rfl
        have hpos := List.length_pos_of_ne_nil hempty
        rw [List.length_append]
        omega
      | some index =>
        dsimp only
        split_ifs
        · exact follows_ret.mpr ⟨hready, fun _ => rfl⟩
        · exact follows_ret.mpr ⟨hready, by simp⟩

/-- `emit_event` of a row that is running. -/
theorem follows_emitOngoing {event : TestProgressEvent ρ} {k : Unit → ProbeProg ρ α} (h : Ongoing event)
    (hk : Follows advance (k ()) Q handles) : Follows advance ((emitEvent listening event).bind k) Q handles := by
  cases listening with
  | false => exact hk
  | true => exact follows_unheld (advance_ongoing handles h) fun _ => hk

/-- `emit_event`, when nothing is held. -/
theorem follows_emitEvent {event : TestProgressEvent ρ} {k : Unit → ProbeProg ρ α} (h : event.phase ≠ .done)
    (hk : Follows advance (k ()) Q nothing) : Follows advance ((emitEvent listening event).bind k) Q nothing := by
  cases listening with
  | false => exact hk
  | true => exact follows_unheld (advance_onEvent h) fun _ => hk

/-- `emit_event` of the last event. -/
theorem follows_emitDone {event : TestProgressEvent ρ} {k : Unit → ProbeProg ρ α} {Q : α → Closing Handles → Prop}
    (h : event.phase = .done) (hk : Follows testing (k ()) Q (tested listening)) :
    Follows testing ((emitEvent listening event).bind k) Q (.going nothing) := by
  cases listening with
  | false => exact hk
  | true => exact follows_last (by simp [tellsDone, h]) fun _ => hk

theorem follows_preflight :
    Follows advance (preflight : ProbeProg ρ Bool) (fun _ handles => handles = nothing) nothing := by
  refine follows_unheld (fun _ => rfl) fun config => ?_
  cases config with
  | none => exact follows_ret.mpr rfl
  | some config =>
  refine follows_unheld (fun _ => rfl) fun enabled => ?_
  cases enabled with
  | false => exact follows_ret.mpr rfl
  | true =>
  refine follows_askThen.mpr fun made => ⟨only (if made then .created else .absent), rfl, ?_⟩
  cases made with
  | false => exact follows_ret.mpr rfl
  | true =>
  refine follows_askThen.mpr fun connected => ⟨only (if connected then .connected else .failed), rfl, ?_⟩
  exact follows_closeSocket (by cases connected <;> simp) (follows_ret.mpr rfl)

variable [Speed ρ]

/-- The loop closes the socket when the test is cancelled, and leaves it open otherwise. -/
theorem follows_download {event : TestProgressEvent ρ} (hevent : Ongoing event) (start deadline lastEmit : Int)
    (downloaded : Nat) :
    Follows advance (download listening event start deadline lastEmit downloaded)
      (fun o handles => match o with
        | none => handles = nothing
        | some _ => Open handles) (only .ready) := by
  induction hroom : fpTestSpeedMaxBytes - downloaded using Nat.strongRecOn generalizing downloaded lastEmit with
  | ind room ih =>
    subst hroom
    have hready : Open (only .ready) := ⟨.ready, rfl, by simp⟩
    rw [download]
    split_ifs
    swap
    · exact follows_ret.mpr hready
    refine follows_loop (J := fun handles => handles = only .ready) (B := fun round handles => Open handles ∧
      ∀ bytes, round = .received (.done bytes) → bytes ≠ [] → handles = only .ready) ?_ ?_ rfl
    · rintro _ rfl now
      refine ⟨only .ready, rfl, follows_unheld (fun _ => rfl) fun raised => ?_⟩
      cases raised with
      | true => exact follows_ret.mpr ⟨hready, by simp⟩
      | false =>
      change Follows _ (if now < 0 ∨ deadline < now then _ else _) _ _
      split_ifs
      · exact follows_ret.mpr ⟨hready, by simp⟩
      refine follows_askThen.mpr fun (received : Transfer (List Byte)) =>
        ⟨only (if received.Over [] then .failed else .ready), rfl, follows_ret.mpr ?_⟩
      cases received with
      | failed errno =>
        by_cases hintr : errno = eintr
        · simp [Transfer.settled, Transfer.Over, hintr]
        · simpa [Transfer.settled, Transfer.Over, hintr] using ⟨SocketPhase.failed, rfl, by simp⟩
      | done received =>
        by_cases hempty : received = []
        · simpa [Transfer.settled, Transfer.Over, hempty] using ⟨SocketPhase.failed, rfl, by simp⟩
        · simpa [Transfer.settled, Transfer.Over, hempty] using hready
    · rintro (_ | _ | errno | bytes) handles ⟨hopen, hmore⟩
      · obtain ⟨socket, rfl, hsocket⟩ := hopen
        exact follows_closeSocket hsocket (follows_ret.mpr rfl)
      · exact follows_ret.mpr hopen
      · exact follows_ret.mpr hopen
      dsimp only
      by_cases hempty : bytes = []
      · rw [if_pos hempty]
        exact follows_ret.mpr hopen
      rw [if_neg hempty]
      obtain rfl := hmore bytes rfl hempty
      have hpos := List.length_pos_of_ne_nil hempty
      have hroom : fpTestSpeedMaxBytes - (downloaded + bytes.length) < fpTestSpeedMaxBytes - downloaded := by
        omega
      refine follows_unheld (fun _ => rfl) fun now => ?_
      split_ifs
      · exact follows_emitOngoing hevent (ih _ hroom now _ rfl)
      · exact ih _ hroom lastEmit _ rfl

theorem follows_closeUnmeasured (code : Int) {socket : SocketPhase} (h : socket ≠ .absent) :
    Follows advance (closeUnmeasured code : ProbeProg ρ (SpeedResult ρ)) (fun _ handles => handles = nothing)
      (only socket) := follows_closeSocket h (follows_ret.mpr rfl)

theorem follows_measureSpeed (target : SpeedTarget) (index total : Nat) :
    Follows advance (measureSpeed listening target index total : ProbeProg ρ (SpeedResult ρ))
      (fun _ handles => handles = nothing) nothing := by
  have hend : ∀ code, Follows advance (.ret (unmeasured code) : ProbeProg ρ (SpeedResult ρ))
      (fun _ handles => handles = nothing) nothing := fun _ => follows_ret.mpr rfl
  refine follows_unheld (fun _ => rfl) fun raised => ?_
  cases raised with
  | true => exact hend _
  | false =>
  refine follows_bind.mpr ((follows_connectThroughForwarder _ _ _ _).mono ?_)
  rintro connected _ rfl
  cases connected with
  | false =>
    refine follows_unheld (fun _ => rfl) fun raised => ?_
    cases raised with
    | true => exact hend _
    | false => exact hend _
  | true =>
  change Follows _ (if speedRequestSize ≤ (snprintf speedRequestSize (requestText target)).2 then _ else _) _
    (only .ready)
  split_ifs
  · exact follows_closeUnmeasured _ (by simp)
  refine follows_bind.mpr ((follows_writeBytes _).mono ?_)
  rintro sent _ rfl
  cases sent with
  | false => exact follows_closeUnmeasured _ (by simp)
  | true =>
  change Follows _ _ _ (only .ready)
  refine follows_unheld (fun _ => rfl) fun start => ?_
  split_ifs
  · exact follows_closeUnmeasured _ (by simp)
  refine follows_bind.mpr ((follows_hoist (i := ProbeOp.input) (fun _ _ _ => rfl) (follows_skipLoop _ [])).mono ?_)
  rintro skipped handles ⟨⟨socket, rfl, hsocket⟩, hready⟩
  split_ifs with hcode
  · refine follows_closeSocket hsocket (follows_unheld (fun _ => rfl) fun raised => ?_)
    cases raised with
    | true => exact hend _
    | false => exact hend _
  rw [hready (not_not.mp hcode)]
  unfold measureBody
  split_ifs
  · exact follows_closeUnmeasured _ (by simp)
  have hevent : Ongoing (runningEvent .speed index total target.name target.host : TestProgressEvent ρ) :=
    ⟨rfl, by simp [runningEvent]⟩
  refine follows_bind.mpr ((follows_download hevent _ _ _ _).mono ?_)
  rintro (_ | downloaded) handles hdownload
  · obtain rfl : handles = nothing := hdownload
    exact hend _
  · obtain ⟨socket, rfl, hsocket⟩ := hdownload
    refine follows_unheld (fun _ => rfl) fun ending => follows_closeSocket hsocket ?_
    split_ifs <;> exact follows_ret.mpr rfl

/-! ## The test -/

theorem follows_runTests {kind : TestKind} {phase : TestPhase} (hphase : phase ≠ .done)
    {measures : List (ProbeProg ρ (Int × Measured ρ kind))}
    (h : ∀ measure ∈ measures, Follows advance measure (fun _ handles => handles = nothing) nothing)
    (index : Nat) (report : TestReport ρ) :
    Follows advance (runTests listening kind phase measures index report) (fun _ handles => handles = nothing)
      nothing := by
  induction measures generalizing index report with
  | nil => exact follows_ret.mpr rfl
  | cons measure rest ih =>
    refine follows_unheld (fun _ => rfl) fun raised => ?_
    cases raised with
    | true => exact follows_ret.mpr rfl
    | false =>
    refine follows_emitEvent hphase (follows_bind.mpr ((h measure List.mem_cons_self).mono ?_))
    rintro ⟨result, measured⟩ _ rfl
    have hrest := ih fun measure hmeasure => h measure (List.mem_cons_of_mem _ hmeasure)
    by_cases hstop : result = -2
    · subst hstop
      exact follows_ret.mpr rfl
    · dsimp only
      rw [if_neg hstop]
      refine follows_unheld (fun _ => rfl) fun raised => ?_
      cases raised with
      | true => exact follows_ret.mpr rfl
      | false => exact follows_emitEvent (by cases measured <;> exact hphase) (hrest _ _)

theorem follows_runMode (mode : TestMode) (report : TestReport ρ) :
    Follows advance (runMode listening mode report) (fun _ handles => handles = nothing) nothing := by
  have hsites : ∀ measure ∈ siteTargets.map (measureSite (ρ := ρ) mode),
      Follows advance measure (fun _ handles => handles = nothing) nothing := by
    intro measure hmeasure
    obtain ⟨target, -, rfl⟩ := List.mem_map.mp hmeasure
    exact follows_measureSite mode target
  cases mode with
  | connectivity => exact follows_bind.mpr ((follows_runTests (by simp) hsites 0 report).mono fun _ _ h => follows_ret.mpr h)
  | latency => exact follows_bind.mpr ((follows_runTests (by simp) hsites 0 report).mono fun _ _ h => follows_ret.mpr h)
  | speed =>
    refine follows_bind.mpr ((follows_runTests (by simp) (fun measure hmeasure => ?_) 0 report).mono fun _ _ h => follows_ret.mpr h)
    obtain ⟨target, -, rfl⟩ := List.mem_map.mp hmeasure
    refine follows_bind.mpr ((follows_measureSpeed _ _ _).mono ?_)
    rintro r _ rfl
    exact follows_ret.mpr rfl

theorem follows_fpTestRun (mode : TestMode) :
    Follows testing (fpTestRun listening mode : ProbeProg ρ (Int × TestReport ρ))
      (fun _ phase => phase = tested listening) (.going nothing) := by
  have hfirst : Follows advance (emitEvent listening preflightEvent : ProbeProg ρ Unit)
      (fun _ handles => handles = nothing) nothing := by
    cases listening with
    | false => exact follows_ret.mpr rfl
    | true =>
      have hphase : (preflightEvent : TestProgressEvent ρ).phase ≠ .done := by simp [preflightEvent, testEvent]
      exact follows_call.mpr fun r => ⟨nothing, advance_onEvent hphase r, follows_ret.mpr rfl⟩
  refine follows_going advance_tellsDone hfirst ?_
  rintro - _ rfl
  refine follows_going advance_tellsDone follows_preflight ?_
  rintro ready _ rfl
  cases ready with
  | false => exact follows_emitDone rfl (follows_ret.mpr rfl)
  | true =>
  refine follows_going advance_tellsDone (follows_runMode mode _) ?_
  rintro ⟨ok, report⟩ _ rfl
  exact follows_emitDone rfl (follows_ret.mpr rfl)

end

/-- **A test gives back what it takes**, in any environment: a socket is used while it is ready, and closed; an
address list is freed when there is one; a request is sent with all its options, and its handle is given back.
Nothing is held when the caller is told that a row is over. When it is told that the test is done nothing is
held, and nothing is called behind that. -/
theorem fpTestRun_releases [Speed ρ] {S : Type} {rel : Rel (ProbeOp ρ) ProbeResp S} (listening : Bool)
    (mode : TestMode) {s s' : S} {tr : List (Ev (ProbeOp ρ) ProbeResp)}
    {left : ProbeProg ρ (Int × TestReport ρ)} (h : Steps rel (fpTestRun listening mode) s tr left s') :
    ∃ phase, phaseAfter testing (.going .nothing) tr = some phase ∧
      ∀ result, left.result = some result → phase = tested listening :=
  (follows_fpTestRun mode).trace h

/-- Two speed tests fail, and the third is cancelled. -/
theorem fpTestRun_releases_unresolved :
    let choices := List.replicate 20 false ++ List.replicate 10 true
    let tr := trace unresolved choices (fpTestRun true .speed) ⟨false, []⟩
    let run := exec unresolved choices (fpTestRun true .speed) ⟨false, []⟩
    run.1.result.isSome = true ∧ ∃ phase, phaseAfter testing (.going .nothing) tr = some phase ∧
      ∀ result, run.1.result = some result → phase = tested true := by
  intro choices tr run
  have hsteps : Steps unresolved.rel (fpTestRun true .speed) ⟨false, []⟩ tr run.1 run.2 :=
    exec_steps choices _ _
  exact ⟨by decide +kernel, fpTestRun_releases true .speed hsteps⟩

end FreeProxy.Probe
