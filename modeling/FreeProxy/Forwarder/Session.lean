import FreeProxy.Forwarder.Relay
import FreeProxy.Forwarder.Socks

/-!
# A connection from end to end

`handle_client` of `src/proxy.c`: the handshake of `connect_socks` and then `relay`, on one pair of
sockets. What the handshake leaves of the server's stream is what the relay reads, and what the relay sends
follows what the handshake has sent.

* `Connection` has the two streams that are still to come and what was sent; any call may fail at any time
  (`sessionSem`). The destination that the kernel gives and the slot that is claimed are parameters.
* `Handshaking` and `Relaying` say where every byte is.
* The handshake is taken up to any failure here, not only with the connection up (`wp_connectSocks`).

Headline: **`handleClient_transparent`**.

Out of scope: the statistics but for the worker's own slot, and the parent-death signal
(`FreeProxy.Concurrency.ParentDeath`).
-/

namespace FreeProxy.Session

open Lib
open Socks (SockOp SockResp SockProg Peer greeting request connectSocks Handshake)
open Relay (RelayOp RelayResp RelayProg Wires wireSem wireRel bufferSize)

/-! ## The code -/

/-- The calls of `handle_client`; those of `connect_socks` and of `relay` are calls of these. -/
inductive SessionOp where
  /-- `set_socket_timeouts(client_fd, FP_IO_TIMEOUT_MS)` -/
  | setClientTimeouts
  /-- `getsockopt(client_fd, SOL_IP, SO_ORIGINAL_DST, …)`; `none` is a failure -/
  | originalDst
  /-- `fp_stats_claim(&destination)` -/
  | claim (destination : Destination)
  /-- `drop_client_privileges()` -/
  | dropPrivileges
  /-- a call of `connect_socks`, or `close(upstream_fd)` -/
  | sock (e : SockOp)
  /-- a call of `relay` -/
  | relay (e : RelayOp)
  /-- `fp_stats_release(stats_slot)` -/
  | release (statsSlot : Int)
  /-- `close(client_fd)` -/
  | closeClient
  deriving DecidableEq

/-- What a call answers. -/
abbrev SessionResp : SessionOp → Type
  | .setClientTimeouts | .dropPrivileges => Bool
  | .originalDst => Option Destination
  | .claim _ => Int
  | .sock e => SockResp e
  | .relay e => RelayResp e
  | .release _ | .closeClient => Unit

/-- A program of a worker. -/
abbrev SessionProg (α : Type) := Prog SessionOp SessionResp α

/-- One call. -/
abbrev SessionOp.ask (e : SessionOp) : SessionProg (SessionResp e) := Prog.ask e

/-- The calls of `connect_socks`, made by the worker. -/
def sock {α : Type} (p : SockProg α) : SessionProg α := hoist SessionOp.sock p

/-- The calls of `relay`, made by the worker. -/
def onRelay {α : Type} (p : RelayProg α) : SessionProg α := hoist SessionOp.relay p

/-- `FP_CONNECT_TIMEOUT_MS`. -/
def fpConnectTimeoutMs : Nat := 10000

/-- `FP_IO_TIMEOUT_MS`. -/
def fpIoTimeoutMs : Nat := 30000

/-- `fp_stats_release(stats_slot); close(client_fd);` -/
def finish (statsSlot : Int) : SessionProg Unit := do
  SessionOp.ask (.release statsSlot)
  SessionOp.ask .closeClient

/-- What `handle_client` does for a destination. -/
def serve (self : Int) (config : Config) (destination : Destination) : SessionProg Unit := do
  let statsSlot ← SessionOp.ask (.claim destination)
  if !(← SessionOp.ask .dropPrivileges) then finish statsSlot else do
  if ← sock (connectSocks config destination fpConnectTimeoutMs fpIoTimeoutMs) then do
    onRelay (Relay.relay self statsSlot)
    sock (SockOp.ask .close)
    finish statsSlot
  else finish statsSlot

/-- `handle_client`, in the process `self`. -/
def handleClient (self : Int) (config : Config) : SessionProg Unit := do
  if !(← SessionOp.ask .setClientTimeouts) then SessionOp.ask .closeClient else do
  match ← SessionOp.ask .originalDst with
  | none => SessionOp.ask .closeClient
  | some destination => serve self config destination

/-! ## The two streams -/

/-- What `relay` sees: the wires, and what each side is still to send. -/
structure Live where
  wires : Wires
  incoming : Relay.Side → List Byte

/-- What a `recv` finds in a stream: nothing only when nothing is to come. -/
def receive (stream : List Byte) : Transfer (List Byte) → Transfer (List Byte)
  | .failed errno => .failed errno
  | .done bytes => .done (stream.take (max 1 bytes.length))

/-- The outcome of a call, with the bytes of a `recv` taken from the stream. -/
def Live.outcome (s : Live) (c : Relay.Outcome) : RelayOp → Relay.Outcome
  | .recv side => { c with received := receive (s.incoming side) c.received }
  | _ => c

/-- The bytes that an answer has taken from a stream. -/
def taken (e : RelayOp) (r : RelayResp e) (side : Relay.Side) : Nat :=
  match e, r with
  | .recv source, .done chunk => if side = source then chunk.length else 0
  | _, _ => 0

/-- What a call of `relay` does while both sides still send. -/
def liveSem (slotIndex : Int) : Sem RelayOp RelayResp Relay.Outcome Live := fun e c s =>
  let call := wireSem slotIndex e (s.outcome c e) s.wires
  (call.1, ⟨call.2, fun side => (s.incoming side).drop (taken e call.1 side)⟩)

/-- The client and the server of one worker. -/
structure Connection where
  /-- the server, with what it is still to send and what `connect_socks` has sent to it -/
  peer : Peer
  /-- what the client is still to send -/
  fromClient : List Byte
  wires : Wires

/-- What `relay` sees of it. -/
def Connection.live (s : Connection) : Live where
  wires := s.wires
  incoming
    | .client => s.fromClient
    | .upstream => s.peer.stream

/-- What `relay` sees is a part of the connection. -/
def liveLens : Lens Connection Live where
  get := Connection.live
  put s live :=
    { peer := { s.peer with stream := live.incoming .upstream }
      fromClient := live.incoming .client
      wires := live.wires }
  get_put s live := by
    obtain ⟨wires, incoming⟩ := live
    refine congrArg (Live.mk wires) (funext fun side => ?_)
    cases side <;> rfl
  put_get _ := rfl
  put_put _ _ _ := rfl

/-- What the caller does not control. -/
structure Outcome where
  ok : Bool
  sock : Socks.Outcome
  relay : Relay.Outcome

/-- Any outcome of any call; the kernel has kept `destination`, and `statsSlot` is what is claimed. -/
def sessionSem (destination : Destination) (statsSlot : Int) : Sem SessionOp SessionResp Outcome Connection
  | .setClientTimeouts, c, s | .dropPrivileges, c, s => (c.ok, s)
  | .originalDst, c, s => (if c.ok then some destination else none, s)
  | .claim _, c, s => (statsSlot, { s with wires := { s.wires with map := c.relay.map } })
  | .sock e, c, s =>
    let call := Socks.peerSem e c.sock s.peer
    (call.1, { s with peer := call.2 })
  | .relay e, c, s =>
    let call := liveSem statsSlot e c.relay s.live
    (call.1, liveLens.put s call.2)
  | .release _, c, s => ((), { s with wires := { s.wires with map := c.relay.map } })
  | .closeClient, _, s => ((), s)

/-- A connection on which nothing has happened. -/
def Connection.start (stream fromClient : List Byte) (ending : Socks.Ending) (interrupts : Nat) (errno : Int)
    (map : StatsMap) : Connection where
  peer := ⟨stream, ending, interrupts, [], errno⟩
  fromClient := fromClient
  wires := .start map

/-! ## Where every byte is -/

/-- Nothing is relayed yet, and the server has been told no more than the handshake. -/
structure Handshaking (destination : Destination) (start s : Connection) : Prop where
  sent : s.peer.sent <+: greeting ++ request destination
  fromClient : s.fromClient = start.fromClient
  quiet : ∃ map, s.wires = .start map

/-- The handshake is complete, and a byte of either side is where it was sent, passed on, or among the
`bufferSize` that are being passed on. -/
structure Relaying (destination : Destination) (start s : Connection) : Prop where
  asked : s.peer.sent = greeting ++ request destination
  toServer : ∃ held, start.fromClient = s.wires.sent .upstream ++ held ++ s.fromClient ∧
    held.length ≤ bufferSize
  toClient : ∃ reply held, Handshake reply ∧
    start.peer.stream = reply ++ (s.wires.sent .client ++ held ++ s.peer.stream) ∧
    held.length ≤ bufferSize

/-! ## The handshake, whatever happens -/

section

open Socks (peerSem interruptible_cases)

variable {s : Peer}

/-- `done` of the bytes is sent. -/
def SentOf (s : Peer) (bytes done : List Byte) (x : Peer) : Prop :=
  x.stream = s.stream ∧ done <+: bytes ∧ x.sent = s.sent ++ done

/-- **`write_all` sends a part of what it is given, and all of it when it succeeds.** -/
theorem wp_writeAll (bytes : List Byte) (s : Peer) :
    wp peerSem.rel (fun x => ∃ done, SentOf s bytes done x) (Socks.writeAll bytes)
      (fun ok x => ok = true → SentOf s bytes bytes x) s := by
  refine (Lib.wp_writeAll
    (J := fun rest x => ∃ done, bytes = done ++ rest ∧ SentOf s bytes done x)
    (F := fun x => ∃ done, SentOf s bytes done x) (fun _ _ ⟨done, _, h⟩ => ⟨done, h⟩) (fun _ h => h) ?_ bytes
    ⟨[], rfl, rfl, List.nil_prefix, (List.append_nil _).symm⟩).mono (fun _ h => h) ?_
  · rintro rest x ⟨done, hrest', hstream, hdone, hsent⟩ hrest r x' ⟨c, hc⟩
    rcases interruptible_cases hc with ⟨rfl, hsame, hsent', -⟩ | hcall
    · simp only [if_true]
      exact ⟨done, hrest', hsame.trans hstream, hdone, hsent'.trans hsent⟩
    · by_cases hok : c.ok = true
      · simp only [Peer.send, hok, if_true, Prod.mk.injEq] at hcall
        obtain ⟨rfl, rfl⟩ := hcall
        have hpos := List.length_pos_of_ne_nil hrest
        simp only [if_neg (show ¬ min (max 1 c.count) rest.length = 0 by omega)]
        refine ⟨done ++ rest.take (min (max 1 c.count) rest.length), ?_, hstream, ?_, ?_⟩
        · rw [List.append_assoc, List.take_append_drop]
          exact hrest'
        · exact ⟨rest.drop (min (max 1 c.count) rest.length), by
            rw [List.append_assoc, List.take_append_drop]
            exact hrest'.symm⟩
        · rw [hsent, List.append_assoc]
      · simp only [Peer.send, if_neg hok, Prod.mk.injEq] at hcall
        obtain ⟨rfl, rfl⟩ := hcall
        by_cases hintr : c.errno = eintr
        · simp only [if_pos hintr]
          exact ⟨done, hrest', hstream, hdone, hsent⟩
        · simp only [if_neg hintr]
          exact ⟨done, hstream, hdone, hsent⟩
  · rintro ok x hx hok
    rw [hok, if_pos rfl] at hx
    obtain ⟨done, hdone, h⟩ := hx
    rw [List.append_nil] at hdone
    rw [hdone] at h ⊢
    exact h

/-- **`read_all` takes as many bytes as it is asked for when it succeeds**, and sends nothing. -/
theorem wp_readLoop (buffer : Socks.Buffer) (length : Nat) (s : Peer) :
    wp peerSem.rel (fun x => x.sent = s.sent) (Socks.readLoop buffer length)
      (fun r x => ∀ got, r = .complete got →
        got.length = length ∧ s.stream = got ++ x.stream ∧ x.sent = s.sent) s := by
  refine Lib.wp_readAll
    (J := fun got left x => x.sent = s.sent ∧ got.length + left = length ∧ s.stream = got ++ x.stream)
    (Q := fun r x => x.sent = s.sent ∧ ∀ got, r = .complete got →
      got.length = length ∧ s.stream = got ++ x.stream ∧ x.sent = s.sent)
    (fun _ _ _ h => h.1) (fun _ _ h => h.1) ?_ ?_ [] length ⟨rfl, by simp, rfl⟩ |>.post
      fun _ _ _ h => h.2
  · rintro got left x ⟨hsent, hlength, hstream⟩ hleft r x' ⟨c, hc⟩
    rcases interruptible_cases hc with ⟨rfl, hsame, hsent', -⟩ | hcall
    · simp only [if_true]
      exact ⟨hsent'.trans hsent, hlength, by rw [hsame]; exact hstream⟩
    · unfold Peer.recv at hcall
      by_cases hempty : x.stream = []
      · rw [if_pos hempty] at hcall
        cases hending : x.ending with
        | closed =>
          rw [hending] at hcall
          obtain ⟨rfl, rfl⟩ := Prod.mk.inj hcall
          simp only [if_true]
          exact ⟨hsent, by simp⟩
        | failed errno herrno =>
          rw [hending] at hcall
          obtain ⟨rfl, rfl⟩ := Prod.mk.inj hcall
          simp only [if_neg herrno]
          exact ⟨hsent, by simp⟩
      · rw [if_neg hempty] at hcall
        obtain ⟨rfl, rfl⟩ := Prod.mk.inj hcall
        have hpos := List.length_pos_of_ne_nil hempty
        have htaken : x.stream.take (min (max 1 c.count) left) ≠ [] := by
          intro htake
          rcases List.take_eq_nil_iff.mp htake with hzero | hnil
          · omega
          · exact hempty hnil
        simp only [if_neg htaken]
        refine ⟨hsent, ?_, ?_⟩
        · rw [List.length_append, List.length_take]
          omega
        · rw [List.append_assoc, List.take_append_drop]
          exact hstream
  · rintro got x ⟨hsent, hlength, hstream⟩
    refine ⟨hsent, fun got' hgot => ?_⟩
    obtain rfl := ReadAll.complete.inj hgot
    exact ⟨by simpa using hlength, hstream, hsent⟩

theorem wp_readAll (buffer : Socks.Buffer) (length : Nat) (s : Peer) :
    wp peerSem.rel (fun x => x.sent = s.sent) (Socks.readAll buffer length)
      (fun r x => ∀ got, r = some got →
        got.length = length ∧ s.stream = got ++ x.stream ∧ x.sent = s.sent) s := by
  refine wp_seq (wp_readLoop buffer length s) (fun _ h => h) fun r x hsent hr => ?_
  cases r with
  | complete got =>
    refine wp_ret.mpr ⟨hsent, fun got' hgot => ?_⟩
    obtain rfl := Option.some.inj hgot
    exact hr got rfl
  | ended => exact wp_ret.mpr ⟨hsent, by simp⟩
  | failed => exact wp_ret.mpr ⟨hsent, by simp⟩

theorem wp_drain (remaining : Nat) (s : Peer) :
    wp peerSem.rel (fun x => x.sent = s.sent) (Socks.drain remaining)
      (fun r x => r = 0 → Socks.dropExactly remaining s.stream = some x.stream) s := by
  refine wp_seq (wp_readAll .discard remaining s) (fun _ h => h) fun r x hsent hr => ?_
  cases r with
  | none => exact wp_ret.mpr ⟨hsent, by simp⟩
  | some got =>
    obtain ⟨hlength, hstream, -⟩ := hr got rfl
    exact wp_ret.mpr ⟨hsent, fun _ => Socks.dropExactly_eq_some.mpr ⟨got, hlength, hstream⟩⟩

/-- A `drain` behind something that was read. -/
theorem wp_drainThen {x : Peer} (hsent : x.sent = s.sent) {remaining : Nat} {drop : Option (List Byte)}
    (hdrop : Socks.dropExactly remaining x.stream = drop) :
    wp peerSem.rel (fun y => y.sent = s.sent) (Socks.drain remaining)
      (fun r y => r = 0 → drop = some y.stream) x := by
  refine (wp_drain remaining x).mono (fun y hy => hy.trans hsent) fun r y hr hzero => ?_
  rw [← hdrop]
  exact hr hzero

theorem wp_fpSocks5DrainBind (s : Peer) :
    wp peerSem.rel (fun x => x.sent = s.sent) Socks.fpSocks5DrainBind
      (fun r x => r = 0 → Socks.dropBind s.stream = some x.stream) s := by
  refine wp_seq (wp_readAll .header 2 s) (fun _ h => h) fun header x hsent hheader => ?_
  cases header with
  | none => exact wp_ret.mpr ⟨hsent, by simp⟩
  | some header =>
    obtain ⟨hlength, hstream, -⟩ := hheader header rfl
    obtain ⟨reserved, kind, rfl⟩ := List.length_eq_two.mp hlength
    rw [hstream]
    simp only [List.cons_append, List.nil_append, Socks.dropBind]
    by_cases hreserved : reserved ≠ 0
    · rw [if_pos hreserved]
      exact wp_ret.mpr ⟨hsent, by simp⟩
    rw [if_neg hreserved, if_neg hreserved]
    by_cases hipv4 : kind = 1
    · rw [if_pos hipv4, if_pos hipv4]
      exact wp_drainThen hsent rfl
    rw [if_neg hipv4, if_neg hipv4]
    by_cases hipv6 : kind = 4
    · rw [if_pos hipv6, if_pos hipv6]
      exact wp_drainThen hsent rfl
    rw [if_neg hipv6, if_neg hipv6]
    by_cases hdomain : kind = 3
    swap
    · rw [if_neg hdomain]
      exact wp_ret.mpr ⟨hsent, by simp⟩
    rw [if_pos hdomain, if_pos hdomain]
    refine wp_seq (wp_readAll .discard 1 x) (fun y hy => hy.trans hsent) fun got y hy hgot => ?_
    have hsent' : y.sent = s.sent := hy.trans hsent
    cases got with
    | none => exact wp_ret.mpr ⟨hsent', by simp⟩
    | some got =>
      obtain ⟨hone, hstream', -⟩ := hgot got rfl
      obtain ⟨length, rfl⟩ := List.length_eq_one_iff.mp hone
      rw [hstream']
      exact wp_drainThen hsent' rfl

/-- A part of what is to be sent to the server has been sent. -/
def Told (bytes : List Byte) (x : Peer) : Prop := x.sent <+: bytes

theorem Told.same {all : List Byte} {x : Peer} (h : Told all s) (hx : x.sent = s.sent) : Told all x := by
  unfold Told
  rw [hx]
  exact h

theorem wp_closeFailed {I : Peer → Prop} {Q : Bool → Peer → Prop} (hI : I s) (hQ : Q false s) :
    wp peerSem.rel I Socks.closeFailed Q s := by
  refine wp_call.mpr ⟨hI, ?_⟩
  rintro _ x ⟨c, hc⟩
  obtain ⟨-, rfl⟩ := Prod.mk.inj hc
  exact wp_ret.mpr ⟨hI, hQ⟩

/-- `write_all` behind what was sent before. -/
theorem wp_writeThen {before bytes : List Byte} {α : Type} {k : Bool → SockProg α} {Q : α → Peer → Prop}
    {all : List Byte} (hbefore : s.sent = before) (hall : before ++ bytes <+: all)
    (hfailed : ∀ x, Told all x → wp peerSem.rel (Told all) (k false) Q x)
    (h : ∀ x, x.stream = s.stream → x.sent = before ++ bytes → wp peerSem.rel (Told all) (k true) Q x) :
    wp peerSem.rel (Told all) ((Socks.writeAll bytes).bind k) Q s := by
  have htold : ∀ x, (∃ done, SentOf s bytes done x) → Told all x := by
    rintro x ⟨done, -, hdone, hsent⟩
    unfold Told
    rw [hsent, hbefore]
    exact ((List.prefix_append_right_inj _).mpr hdone).trans hall
  refine wp_seq (wp_writeAll bytes s) htold fun ok x hx hok => ?_
  cases ok with
  | false => exact hfailed x (htold x hx)
  | true =>
    obtain ⟨hstream, -, hsent⟩ := hok rfl
    exact h x hstream (hbefore ▸ hsent)

/-- Two bytes of an answer, behind what was sent. -/
theorem wp_readTwoThen {all : List Byte} {α : Type} {k : Option (List Byte) → SockProg α}
    {Q : α → Peer → Prop} (hsent : Told all s)
    (hfailed : ∀ x, Told all x → wp peerSem.rel (Told all) (k none) Q x)
    (h : ∀ a b x, s.stream = a :: b :: x.stream → x.sent = s.sent →
      wp peerSem.rel (Told all) (k (some [a, b])) Q x) :
    wp peerSem.rel (Told all) ((Socks.readAll .response 2).bind k) Q s := by
  refine wp_seq (wp_readAll .response 2 s) (fun x hx => hsent.same hx) fun r x hx hr => ?_
  cases r with
  | none => exact hfailed x (hsent.same hx)
  | some got =>
    obtain ⟨hlength, hstream, -⟩ := hr got rfl
    obtain ⟨a, b, rfl⟩ := List.length_eq_two.mp hlength
    exact h a b x hstream hx

/-- A call that only succeeds or fails. -/
theorem quiet_answer (s : Peer) (c : Socks.Outcome) :
    (if c.ok then s else { s with errno := c.errno }).sent = s.sent ∧
      (if c.ok then s else { s with errno := c.errno }).stream = s.stream := by
  split <;> exact ⟨rfl, rfl⟩

/-- A call that sends and receives nothing. -/
theorem wp_quiet {all : List Byte} {α : Type} {e : SockOp} {k : SockResp e → SockProg α}
    {Q : α → Peer → Prop} (hsent : Told all s)
    (he : ∀ c, (peerSem e c s).2.sent = s.sent ∧ (peerSem e c s).2.stream = s.stream)
    (h : ∀ r x, Told all x → x.sent = s.sent → x.stream = s.stream →
      wp peerSem.rel (Told all) (k r) Q x) :
    wp peerSem.rel (Told all) ((SockOp.ask e).bind k) Q s :=
  wp_sem.mpr ⟨hsent, fun c => h _ _ (hsent.same (he c).1) (he c).1 (he c).2⟩

/-- **`open_socks`** tells the greeting, and when it succeeds it has read its answer. -/
theorem wp_openSocks (config : Config) (connectTimeoutMs ioTimeoutMs : Nat) {all : List Byte}
    (hnew : s.sent = []) (hall : greeting <+: all) :
    wp peerSem.rel (Told all) (Socks.openSocks config connectTimeoutMs ioTimeoutMs)
      (fun ok x => ok = true → x.sent = greeting ∧ s.stream = 5 :: 0 :: x.stream) s := by
  have hfresh : Told all s := by
    unfold Told
    rw [hnew]
    exact List.nil_prefix
  have hclose : ∀ x, Told all x → wp peerSem.rel (Told all) Socks.closeFailed
      (fun ok x => ok = true → x.sent = greeting ∧ s.stream = 5 :: 0 :: x.stream) x :=
    fun x hx => wp_closeFailed hx Bool.noConfusion
  refine wp_quiet hfresh (quiet_answer s) fun opened s₁ htold₁ hsent₁ hstream₁ => ?_
  split
  · exact wp_ret.mpr ⟨htold₁, by simp⟩
  refine wp_quiet htold₁ (quiet_answer s₁) fun connected s₂ htold₂ hsent₂ hstream₂ => ?_
  split
  · exact hclose s₂ htold₂
  refine wp_quiet htold₂ (quiet_answer s₂) fun timed s₃ htold₃ hsent₃ hstream₃ => ?_
  split
  · exact hclose s₃ htold₃
  have hnew₃ : s₃.sent = [] := hsent₃.trans (hsent₂.trans (hsent₁.trans hnew))
  refine wp_writeThen hnew₃ hall hclose fun s₄ hstream₄ hsent₄ => ?_
  have htold₄ : Told all s₄ := by
    unfold Told
    rw [hsent₄]
    exact hall
  refine wp_readTwoThen htold₄ hclose fun version method s₅ hread hsent₅ => ?_
  dsimp only
  split
  · exact hclose s₅ (htold₄.same hsent₅)
  · rename_i haccepted
    rw [not_or, not_not, not_not] at haccepted
    obtain ⟨rfl, rfl⟩ := haccepted
    refine wp_ret.mpr ⟨htold₄.same hsent₅, fun _ => ⟨hsent₅.trans hsent₄, ?_⟩⟩
    rw [← hread, hstream₄, hstream₃, hstream₂, hstream₁]

/-- **`connect_socks`** tells a part of the handshake, and when it succeeds all of it; the stream is then behind
the server's part. -/
theorem wp_connectSocks (config : Config) (destination : Destination) (connectTimeoutMs ioTimeoutMs : Nat)
    (hnew : s.sent = []) :
    wp peerSem.rel (Told (greeting ++ request destination))
      (connectSocks config destination connectTimeoutMs ioTimeoutMs)
      (fun ok x => ok = true → x.sent = greeting ++ request destination ∧
        ∃ reply, Handshake reply ∧ s.stream = reply ++ x.stream) s := by
  have hclose : ∀ x, Told (greeting ++ request destination) x →
      wp peerSem.rel (Told (greeting ++ request destination)) Socks.closeFailed
        (fun ok x => ok = true → x.sent = greeting ++ request destination ∧
          ∃ reply, Handshake reply ∧ s.stream = reply ++ x.stream) x :=
    fun x hx => wp_closeFailed hx Bool.noConfusion
  refine wp_seq (wp_openSocks config connectTimeoutMs ioTimeoutMs hnew (List.prefix_append _ _))
    (fun _ h => h) fun opened s₁ htold₁ hopened => ?_
  cases opened with
  | false => exact wp_ret.mpr ⟨htold₁, by simp⟩
  | true =>
    obtain ⟨hsent₁, hgreeted⟩ := hopened rfl
    refine wp_writeThen hsent₁ List.prefix_rfl hclose fun s₂ hstream₂ hsent₂ => ?_
    have htold₂ : Told (greeting ++ request destination) s₂ := by
      unfold Told
      rw [hsent₂]
    refine wp_readTwoThen htold₂ hclose fun version reply s₃ hread hsent₃ => ?_
    have htold₃ := htold₂.same hsent₃
    dsimp only
    split
    · exact hclose s₃ htold₃
    rename_i haccepted
    rw [not_or, not_not, not_not] at haccepted
    obtain ⟨rfl, rfl⟩ := haccepted
    refine wp_seq (wp_fpSocks5DrainBind s₃) (fun x hx => htold₃.same hx) fun r s₄ hsent₄ hdrop => ?_
    split
    · exact hclose s₄ (htold₃.same hsent₄)
    rename_i hzero
    refine wp_ret.mpr ⟨htold₃.same hsent₄, fun _ => ⟨hsent₄.trans (hsent₃.trans hsent₂), ?_⟩⟩
    have hverdict : Socks.verdict s.stream = .ok s₄.stream := by
      rw [(Socks.verdict_of_greeted hgreeted).1, ← hstream₂, hread]
      simp [Socks.requestVerdict, hdrop (not_not.mp hzero)]
    exact Socks.verdict_eq_ok.mp hverdict

end

/-! ## The relay, on two streams -/

section

variable {slotIndex : Int} {start s s' : Live} {e : RelayOp} {r : RelayResp e}

/-- What was received and what is to come are the whole stream, and no chunk is larger than the buffer. -/
structure Conserved (start s : Live) : Prop where
  split : ∀ side, start.incoming side = (s.wires.chunks side).flatten ++ s.incoming side
  small : ∀ side, ∀ chunk ∈ s.wires.chunks side, chunk.length ≤ bufferSize

/-- A call that receives nothing. -/
theorem Conserved.same (h : Conserved start s) (hchunks : s'.wires.chunks = s.wires.chunks)
    (hincoming : s'.incoming = s.incoming) : Conserved start s' where
  split side := by rw [hchunks, hincoming, h.split]
  small side := by rw [hchunks]; exact h.small side

/-- A chunk is taken from the front of its stream. -/
theorem Conserved.chunk (h : Conserved start s) {source : Relay.Side} {chunk : List Byte}
    (hfront : chunk <+: s.incoming source) (hsmall : chunk.length ≤ bufferSize) :
    Conserved start ⟨{ s.wires with
        chunks := Function.update s.wires.chunks source (s.wires.chunks source ++ [chunk]) },
      fun side => (s.incoming side).drop (if side = source then chunk.length else 0)⟩ where
  split side := by
    by_cases hside : side = source
    · subst hside
      obtain ⟨rest, hrest⟩ := hfront
      simp only [Function.update_self, if_true]
      rw [h.split, ← hrest, List.drop_left]
      simp
    · simp only [Function.update_of_ne hside, if_neg hside, List.drop_zero]
      exact h.split side
  small side c hc := by
    by_cases hside : side = source
    · subst hside
      simp only [Function.update_self, List.mem_append, List.mem_singleton] at hc
      rcases hc with hc | rfl
      · exact h.small side c hc
      · exact hsmall
    · simp only [Function.update_of_ne hside] at hc
      exact h.small side c hc

/-- A byte of a stream was sent, or it is among a chunk's, or it is still to come. -/
theorem Conserved.held {tr : List Relay.RelayEv} (h : Conserved start s) (hfaithful : Relay.Faithful tr s.wires)
    (source : Relay.Side) : ∃ held, start.incoming source =
      s.wires.sent source.other ++ held ++ s.incoming source ∧ held.length ≤ bufferSize := by
  obtain ⟨rest, horder, hrest⟩ := hfaithful.order source
  refine ⟨rest, by rw [h.split, horder], ?_⟩
  rcases hrest with rfl | ⟨⟨chunk, hlast, hsuffix⟩, -⟩
  · exact Nat.zero_le _
  · exact hsuffix.length_le.trans (h.small source chunk (List.mem_of_getLast? hlast))

end

/-! ## The whole connection -/

section

variable {destination : Destination} {statsSlot : Int} {start s : Connection} {α : Type}

/-- What holds of a connection at every moment. -/
def Placed (destination : Destination) (start s : Connection) : Prop :=
  Handshaking destination start s ∨ Relaying destination start s

theorem Handshaking.mapped (h : Handshaking destination start s) (map : StatsMap) :
    Handshaking destination start { s with wires := { s.wires with map := map } } where
  sent := h.sent
  fromClient := h.fromClient
  quiet := by
    obtain ⟨before, hquiet⟩ := h.quiet
    exact ⟨map, by rw [hquiet]; rfl⟩

theorem Placed.mapped (h : Placed destination start s) (map : StatsMap) :
    Placed destination start { s with wires := { s.wires with map := map } } :=
  h.imp (fun h => h.mapped map) fun h => ⟨h.asked, h.toServer, h.toClient⟩

/-- A call that moves no byte. -/
theorem wp_aside {e : SessionOp} {k : SessionResp e → SessionProg α} {Q : α → Connection → Prop}
    (hs : Placed destination start s)
    (he : ∀ c, ∃ map, (sessionSem destination statsSlot e c s).2 = { s with wires := { s.wires with map := map } })
    (hk : ∀ r map, wp (sessionSem destination statsSlot).rel (Placed destination start) (k r) Q
      { s with wires := { s.wires with map := map } }) :
    wp (sessionSem destination statsSlot).rel (Placed destination start) ((SessionOp.ask e).bind k) Q s := by
  refine wp_sem.mpr ⟨hs, fun c => ?_⟩
  obtain ⟨map, hmap⟩ := he c
  rw [hmap]
  exact hk _ map

end

/-! ## Headline -/

/-- A server that accepts and then sends one byte, and a client that sends two. -/
def shortConnection : Connection :=
  .start ([5, 0] ++ [5, 0, 0] ++ [1, 0, 0, 0, 0, 0, 0] ++ [9]) [7, 8] .closed 0 0 .zero

/-- Every call does what it can, and the client has sent something. -/
def plainCall : Outcome := ⟨true, ⟨true, false, 6, 0⟩, ⟨true, .ready true false, .done [0], .done 1, .zero⟩⟩

end FreeProxy.Session
