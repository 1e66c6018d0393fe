import FreeProxy.Config
import FreeProxy.Lib.Transfer
import FreeProxy.Stats.Map

/-!
# The SOCKS5 handshake

`connect_socks` of `src/proxy.c` with `open_socks`, and `fp_socks5_drain_bind` of `src/socks5.c`, call by
call. A call may be interrupted, `send` and `recv` transfer as much as they like, and the server sends a
stream of bytes that ends with a close, an error or a timeout.

* `Peer` is what is still to come from the server and what was sent to it; `up` are the runs in which the
  connection is up, sends succeed and nobody cancels.
* `verdict` says what a stream of the server deserves, and by which defect it is rejected.
* `Handshake` is the language of the replies.

Headlines: `wp_connectSocks`, the program follows the verdict; **`connectSocks_accepts`**, it accepts the
language and consumes nothing else.

Out of scope: time, and the flags that `connect_with_timeout` sets and takes back.
-/

namespace FreeProxy.Socks

open Lib

/-- The buffers that are read into. -/
inductive Buffer where
  /-- `response` of `open_socks` and of `connect_socks` -/
  | response
  /-- `header` of `fp_socks5_drain_bind` -/
  | header
  /-- `discard` of `fp_socks5_drain_bind` -/
  | discard
  deriving DecidableEq

/-- `sizeof` the buffer. -/
def Buffer.size : Buffer → Nat
  | .response | .header => 2
  | .discard => 257

/-- The calls on the socket to the proxy. -/
inductive SockOp where
  | socket
  /-- `connect_with_timeout` -/
  | connect (addr : Addr) (port : BitVec 16) (timeoutMs : Nat)
  /-- `set_socket_timeouts` -/
  | setTimeouts (timeoutMs : Nat)
  | send (bytes : List Byte)
  | recv (buffer : Buffer) (offset length : Nat)
  /-- the read of `errno` -/
  | errno
  | setErrno (value : Int)
  | cancelled
  | close
  deriving DecidableEq

/-- What a call answers. -/
abbrev SockResp : SockOp → Type
  | .socket | .connect _ _ _ | .setTimeouts _ | .cancelled => Bool
  | .send _ => Transfer Nat
  | .recv _ _ _ => Transfer (List Byte)
  | .errno => Int
  | .setErrno _ | .close => Unit

/-- A program that uses the socket. -/
abbrev SockProg (α : Type) := Prog SockOp SockResp α

/-- One call. -/
abbrev SockOp.ask (e : SockOp) : SockProg (SockResp e) := Prog.ask e

/-! ## The code -/

/-- `write_all`. -/
def writeAll (bytes : List Byte) : SockProg Bool := Lib.writeAll SockOp.send (fun _ r => r) bytes

/-- The loop of `read_all`. -/
def readLoop (buffer : Buffer) (length : Nat) : SockProg (ReadAll Byte) :=
  Lib.readAll (SockOp.recv buffer) (fun _ _ r => r) [] length

/-- `read_all`; `none` is `-1`. -/
def readAll (buffer : Buffer) (length : Nat) : SockProg (Option (List Byte)) := do
  match ← readLoop buffer length with
  | .complete got => pure (some got)
  | _ => pure none

/-- `read_all(socket_fd, discard, remaining)` -/
def drain (remaining : Nat) : SockProg Int := do
  match ← readAll .discard remaining with
  | some _ => pure 0
  | none => pure (-1)

/-- `fp_socks5_drain_bind`: the rest of a response, by its address type. -/
def fpSocks5DrainBind : SockProg Int := do
  match ← readAll .header 2 with
  | some [reserved, kind] =>
    if reserved ≠ 0 then pure (-1) else
    if kind = 1 then drain 6 else
    if kind = 4 then drain 18 else
    if kind = 3 then do
      match ← readAll .discard 1 with
      | some [length] => drain (length.toNat + 2)
      | _ => pure (-1)
    else pure (-1)
  | _ => pure (-1)

/-- `greeting`. -/
def greeting : List Byte := [5, 1, 0]

/-- The bytes of an address in network order. -/
def addrBytes (addr : Addr) : List Byte := [3, 2, 1, 0].map fun i => BitVec.ofNat 8 (octetOf addr i)

/-- A port in network order. -/
def portBytes (port : BitVec 16) : List Byte :=
  [BitVec.ofNat 8 (port.toNat / 256), BitVec.ofNat 8 (port.toNat % 256)]

/-- `request`, with the two `memcpy`. -/
def request (destination : Destination) : List Byte :=
  [5, 1, 0, 1] ++ addrBytes destination.addr ++ portBytes destination.port

/-- `close(socket_fd); return -1;` -/
def closeFailed : SockProg Bool := do
  SockOp.ask .close
  pure false

/-- `open_socks`; the socket, or `false` for `-1`. -/
def openSocks (config : Config) (connectTimeoutMs ioTimeoutMs : Nat) : SockProg Bool := do
  if !(← SockOp.ask .socket) then pure false else do
  if !(← SockOp.ask (.connect config.proxyAddr config.proxyPort connectTimeoutMs)) then closeFailed else do
  if !(← SockOp.ask (.setTimeouts ioTimeoutMs)) then closeFailed else do
  if !(← writeAll greeting) then closeFailed else do
  match ← readAll .response 2 with
  | some [version, method] => if version ≠ 5 ∨ method ≠ 0 then closeFailed else pure true
  | _ => closeFailed

/-- `connect_socks`. The socket is closed when it fails. -/
def connectSocks (config : Config) (destination : Destination) (connectTimeoutMs ioTimeoutMs : Nat) :
    SockProg Bool := do
  if !(← openSocks config connectTimeoutMs ioTimeoutMs) then pure false else do
  if !(← writeAll (request destination)) then closeFailed else do
  match ← readAll .response 2 with
  | some [version, reply] =>
    if version ≠ 5 ∨ reply ≠ 0 then closeFailed else do
    if (← fpSocks5DrainBind) ≠ 0 then closeFailed else pure true
  | _ => closeFailed

/-! ## The server -/

/-- How a stream ends; an interrupted call does not end it. -/
inductive Ending where
  | closed
  | failed (errno : Int) (h : errno ≠ eintr)
  deriving DecidableEq

/-- The server, as the socket shows it. -/
structure Peer where
  /-- what the server is still to send -/
  stream : List Byte
  ending : Ending
  /-- how many calls are still to be interrupted -/
  interrupts : Nat
  sent : List Byte
  errno : Int
  deriving DecidableEq

/-- What the caller does not control. -/
structure Outcome where
  /-- the call is carried out -/
  ok : Bool
  interrupted : Bool
  /-- how much is transferred -/
  count : Nat
  errno : Int

/-- A call that may be interrupted, as long as calls are. -/
def Peer.interruptible {α : Type} (s : Peer) (interrupted : Bool) (call : Transfer α × Peer) :
    Transfer α × Peer :=
  if interrupted = true ∧ 0 < s.interrupts then
    (.failed eintr, { s with interrupts := s.interrupts - 1, errno := eintr })
  else call

/-- What a `send` sends, when it is not interrupted. -/
def Peer.send (s : Peer) (bytes : List Byte) (c : Outcome) : Transfer Nat × Peer :=
  if c.ok then
    let count := min (max 1 c.count) bytes.length
    (.done count, { s with sent := s.sent ++ bytes.take count })
  else (.failed c.errno, { s with errno := c.errno })

/-- What a `recv` receives, when it is not interrupted: nothing only when nothing is to come. -/
def Peer.recv (s : Peer) (length : Nat) (c : Outcome) : Transfer (List Byte) × Peer :=
  if s.stream = [] then
    match s.ending with
    | .closed => (.done [], s)
    | .failed errno _ => (.failed errno, { s with errno := errno })
  else
    let count := min (max 1 c.count) length
    (.done (s.stream.take count), { s with stream := s.stream.drop count })

/-- What a call does. -/
def peerSem : Sem SockOp SockResp Outcome Peer
  | .socket, c, s | .connect _ _ _, c, s | .setTimeouts _, c, s =>
    (c.ok, if c.ok then s else { s with errno := c.errno })
  | .send bytes, c, s => s.interruptible c.interrupted (s.send bytes c)
  | .recv _ _ length, c, s => s.interruptible c.interrupted (s.recv length c)
  | .errno, _, s => (s.errno, s)
  | .setErrno value, _, s => ((), { s with errno := value })
  | .cancelled, c, s => (!c.ok, s)
  | .close, _, s => ((), s)

/-- The connection is up, sends succeed, and nobody cancels. -/
def up : Rel SockOp SockResp Peer := fun e s r s' => ∃ c, c.ok = true ∧ peerSem e c s = (r, s')

/-! ## What a stream deserves -/

/-- What is wrong with a response. -/
inductive Defect where
  /-- the first byte of a response is not the version -/
  | version (found : Byte)
  /-- the server wants an authentication -/
  | auth (found : Byte)
  /-- the server rejects the request -/
  | rejected (found : Byte)
  /-- the stream ends too early, or is malformed behind a response -/
  | io
  deriving DecidableEq

/-- What is left of a stream after `length` bytes. -/
def dropExactly (length : Nat) (stream : List Byte) : Option (List Byte) :=
  if length ≤ stream.length then some (stream.drop length) else none

/-- What is left of a stream after a reserved byte and an address. -/
def dropBind : List Byte → Option (List Byte)
  | reserved :: kind :: stream =>
    if reserved ≠ 0 then none else
    if kind = 1 then dropExactly 6 stream else
    if kind = 4 then dropExactly 18 stream else
    if kind = 3 then
      match stream with
      | length :: stream => dropExactly (length.toNat + 2) stream
      | [] => none
    else none
  | _ => none

/-- The response to the request, and the address behind it. -/
def requestVerdict : List Byte → Except Defect (List Byte)
  | version :: reply :: stream =>
    if version ≠ 5 then .error (.version version) else
    if reply ≠ 0 then .error (.rejected reply) else
    match dropBind stream with
    | some payload => .ok payload
    | none => .error .io
  | _ => .error .io

/-- The payload behind a handshake, or the first defect of the stream. -/
def verdict : List Byte → Except Defect (List Byte)
  | version :: method :: stream =>
    if version ≠ 5 then .error (.version version) else
    if method ≠ 0 then .error (.auth method) else requestVerdict stream
  | _ => .error .io

/-- The server accepts the greeting. -/
def greeted : List Byte → Bool
  | version :: method :: _ => version == 5 && method == 0
  | _ => false

/-- What is sent to a server that sends this stream. -/
def sentTo (destination : Destination) (stream : List Byte) : List Byte :=
  greeting ++ if greeted stream then request destination else []

/-- The address in a reply. -/
inductive BoundAddress : List Byte → Prop where
  | ipv4 (addr port : List Byte) (haddr : addr.length = 4) (hport : port.length = 2) :
      BoundAddress (1 :: (addr ++ port))
  | ipv6 (addr port : List Byte) (haddr : addr.length = 16) (hport : port.length = 2) :
      BoundAddress (4 :: (addr ++ port))
  | domain (length : Byte) (name port : List Byte) (hname : name.length = length.toNat)
      (hport : port.length = 2) : BoundAddress (3 :: length :: (name ++ port))

/-- The bytes of a server that accepts the greeting and the request. -/
def Handshake (reply : List Byte) : Prop :=
  ∃ bound, BoundAddress bound ∧ reply = [5, 0] ++ [5, 0, 0] ++ bound

/-! ## Transfers over the connection -/

section

variable {α : Type} {s : Peer}

theorem up_answered (e : SockOp) (s : Peer) : ∃ r s', up e s r s' := ⟨_, _, ⟨true, false, 0, 0⟩, rfl, rfl⟩

/-- One call, and what follows it. -/
theorem wp_up {e : SockOp} {k : SockResp e → SockProg α} {Q : α → Peer → Prop}
    (h : ∀ c : Outcome, c.ok = true →
      wp up (fun _ => True) (k (peerSem e c s).1) Q (peerSem e c s).2) :
    wp up (fun _ => True) ((SockOp.ask e).bind k) Q s := by
  rw [wp_bind, wp_ask]
  refine ⟨trivial, ?_⟩
  rintro r s' ⟨c, hok, hc⟩
  have hnext := h c hok
  rw [hc] at hnext
  exact ⟨trivial, hnext⟩

/-- An interrupted call changes nothing but `errno`; another one is carried out. -/
theorem interruptible_cases {interrupted : Bool} {call : Transfer α × Peer} {r : Transfer α} {s' : Peer}
    (h : s.interruptible interrupted call = (r, s')) :
    (r = .failed eintr ∧ s'.stream = s.stream ∧ s'.sent = s.sent ∧ s'.interrupts < s.interrupts) ∨
      call = (r, s') := by
  unfold Peer.interruptible at h
  split at h
  · rename_i hintr
    obtain ⟨rfl, rfl⟩ := Prod.mk.inj h
    exact .inl ⟨rfl, rfl, rfl, Nat.sub_lt hintr.2 Nat.one_pos⟩
  · exact .inr h

/-- Every interrupted call is one interrupt less. -/
theorem send_interrupts {bytes : List Byte} {s' : Peer}
    (h : up (.send bytes) s (.failed eintr) s') : s'.interrupts < s.interrupts := by
  obtain ⟨c, hok, hc⟩ := h
  rcases interruptible_cases hc with ⟨-, -, -, hlt⟩ | hcall
  · exact hlt
  · simp only [Peer.send, hok, if_true] at hcall
    exact absurd (Prod.mk.inj hcall).1 (by simp)

theorem recv_interrupts {buffer : Buffer} {offset length : Nat} {s' : Peer}
    (h : up (.recv buffer offset length) s (.failed eintr) s') : s'.interrupts < s.interrupts := by
  obtain ⟨c, hok, hc⟩ := h
  rcases interruptible_cases hc with ⟨-, -, -, hlt⟩ | hcall
  · exact hlt
  · unfold Peer.recv at hcall
    split at hcall
    · split at hcall
      · exact absurd (Prod.mk.inj hcall).1 (by simp)
      · rename_i errno herrno _
        exact absurd (Transfer.failed.inj (Prod.mk.inj hcall).1) herrno
    · exact absurd (Prod.mk.inj hcall).1 (by simp)

/-- **`write_all` sends everything.** -/
theorem wp_writeAll (bytes : List Byte) (s : Peer) : wp up (fun _ => True) (writeAll bytes)
    (fun ok s' => ok = true ∧ s'.stream = s.stream ∧ s'.sent = s.sent ++ bytes) s := by
  refine (Lib.wp_writeAll (J := fun rest x => x.stream = s.stream ∧ x.sent ++ rest = s.sent ++ bytes)
    (F := fun _ => False) (fun _ _ _ => trivial) (fun _ _ => trivial) ?_ bytes ⟨rfl, rfl⟩).mono
    (fun _ _ => trivial) ?_
  · rintro rest x ⟨hstream, hsent⟩ hrest r x' ⟨c, hok, hc⟩
    rcases interruptible_cases hc with ⟨rfl, hsame, hsent', -⟩ | hcall
    · simp only [if_true]
      rw [hsame, hsent']
      exact ⟨hstream, hsent⟩
    · simp only [Peer.send, hok, if_true, Prod.mk.injEq] at hcall
      obtain ⟨rfl, rfl⟩ := hcall
      have hpos := List.length_pos_of_ne_nil hrest
      simp only [if_neg (show ¬ min (max 1 c.count) rest.length = 0 by omega)]
      refine ⟨hstream, ?_⟩
      rw [List.append_assoc, List.take_append_drop]
      exact hsent
  · rintro ok x hx
    cases ok with
    | false => exact hx.elim
    | true => exact ⟨rfl, hx.1, by simpa using hx.2⟩

/-- **`read_all` takes as many bytes as it is asked for**, or the stream is shorter. -/
theorem wp_readLoop (buffer : Buffer) (length : Nat) (s : Peer) :
    wp up (fun _ => True) (readLoop buffer length)
      (fun r s' => s'.sent = s.sent ∧ match r with
        | .complete got => got.length = length ∧ s.stream = got ++ s'.stream
        | .ended | .failed => s.stream.length < length) s := by
  refine Lib.wp_readAll (J := fun got left x =>
      x.sent = s.sent ∧ got.length + left = length ∧ s.stream = got ++ x.stream)
    (fun _ _ _ _ => trivial) (fun _ _ _ => trivial) ?_ ?_ [] length ⟨rfl, by simp, rfl⟩
  · rintro got left x ⟨hsent, hlength, hstream⟩ hleft r x' ⟨c, hok, hc⟩
    have hshort : x.stream = [] → s.stream.length < length := by
      intro hempty
      rw [hstream, hempty, List.append_nil]
      omega
    rcases interruptible_cases hc with ⟨rfl, hsame, hsent', -⟩ | hcall
    · simp only [if_true]
      rw [hsame, hsent']
      exact ⟨hsent, hlength, hstream⟩
    · unfold Peer.recv at hcall
      by_cases hempty : x.stream = []
      · rw [if_pos hempty] at hcall
        cases hending : x.ending with
        | closed =>
          rw [hending] at hcall
          obtain ⟨rfl, rfl⟩ := Prod.mk.inj hcall
          simp only [if_true]
          exact ⟨hsent, hshort hempty⟩
        | failed errno herrno =>
          rw [hending] at hcall
          obtain ⟨rfl, rfl⟩ := Prod.mk.inj hcall
          simp only [if_neg herrno]
          exact ⟨hsent, hshort hempty⟩
      · rw [if_neg hempty] at hcall
        obtain ⟨rfl, rfl⟩ := Prod.mk.inj hcall
        have hpos := List.length_pos_of_ne_nil hempty
        have htaken : x.stream.take (min (max 1 c.count) left) ≠ [] := by
          intro htake
          rcases List.take_eq_nil_iff.mp htake with hzero | hnil
          · omega
          · exact hempty hnil
        simp only [if_neg htaken]
        refine ⟨hsent, ?_, ?_⟩
        · rw [List.length_append, List.length_take]
          omega
        · rw [List.append_assoc, List.take_append_drop]
          exact hstream
  · rintro got x ⟨hsent, hlength, hstream⟩
    exact ⟨hsent, by simpa using hlength, hstream⟩

theorem wp_readAll (buffer : Buffer) (length : Nat) (s : Peer) :
    wp up (fun _ => True) (readAll buffer length)
      (fun r s' => s'.sent = s.sent ∧ match r with
        | some got => got.length = length ∧ s.stream = got ++ s'.stream
        | none => s.stream.length < length) s := by
  refine wp_bind.mpr ((wp_readLoop buffer length s).mono (fun _ _ => trivial) ?_)
  rintro r s' ⟨hsent, hr⟩
  cases r with
  | complete got => exact wp_ret.mpr ⟨trivial, hsent, hr⟩
  | ended => exact wp_ret.mpr ⟨trivial, hsent, hr⟩
  | failed => exact wp_ret.mpr ⟨trivial, hsent, hr⟩

/-! ## The program follows the verdict -/

theorem wp_drain (remaining : Nat) (s : Peer) : wp up (fun _ => True) (drain remaining)
    (fun r s' => s'.sent = s.sent ∧ match dropExactly remaining s.stream with
      | some rest => r = 0 ∧ s'.stream = rest
      | none => r = -1) s := by
  refine wp_bind.mpr ((wp_readAll .discard remaining s).mono (fun _ _ => trivial) ?_)
  rintro got s' ⟨hsent, hgot⟩
  unfold dropExactly
  cases got with
  | some got =>
    obtain ⟨hlength, hstream⟩ := hgot
    have hle : remaining ≤ s.stream.length := by
      rw [hstream, List.length_append]
      omega
    refine wp_ret.mpr ⟨trivial, hsent, ?_⟩
    rw [if_pos hle, hstream, ← hlength, List.drop_left]
    exact ⟨rfl, rfl⟩
  | none =>
    refine wp_ret.mpr ⟨trivial, hsent, ?_⟩
    rw [if_neg (not_le.mpr hgot)]

/-- Two bytes, if the stream has them. -/
theorem wp_readTwo (buffer : Buffer) (s : Peer) : wp up (fun _ => True) (readAll buffer 2)
    (fun r s' => s'.sent = s.sent ∧
      ((∃ a b, r = some [a, b] ∧ s.stream = a :: b :: s'.stream) ∨ (r = none ∧ s.stream.length < 2))) s := by
  refine (wp_readAll buffer 2 s).mono (fun _ _ => trivial) ?_
  rintro r s' ⟨hsent, hr⟩
  refine ⟨hsent, ?_⟩
  cases r with
  | none => exact .inr ⟨rfl, hr⟩
  | some got =>
    obtain ⟨hlength, hstream⟩ := hr
    obtain ⟨a, b, rfl⟩ := List.length_eq_two.mp hlength
    exact .inl ⟨a, b, rfl, hstream⟩

theorem dropBind_short {stream : List Byte} (h : stream.length < 2) : dropBind stream = none := by
  match stream with
  | [] | [_] => rfl
  | _ :: _ :: _ => exact absurd h (by simp)

theorem requestVerdict_short {stream : List Byte} (h : stream.length < 2) :
    requestVerdict stream = .error .io := by
  match stream with
  | [] | [_] => rfl
  | _ :: _ :: _ => exact absurd h (by simp)

theorem verdict_short {stream : List Byte} (h : stream.length < 2) :
    verdict stream = .error .io ∧ greeted stream = false := by
  match stream with
  | [] | [_] => exact ⟨rfl, rfl⟩
  | _ :: _ :: _ => exact absurd h (by simp)

theorem greeted_eq_false {version method : Byte} {stream : List Byte} :
    greeted (version :: method :: stream) = false ↔ version ≠ 5 ∨ method ≠ 0 := by
  simp only [greeted, Bool.and_eq_false_iff, beq_eq_false_iff_ne]

theorem wp_fpSocks5DrainBind (s : Peer) : wp up (fun _ => True) fpSocks5DrainBind
    (fun r s' => s'.sent = s.sent ∧ match dropBind s.stream with
      | some rest => r = 0 ∧ s'.stream = rest
      | none => r = -1) s := by
  refine wp_bind.mpr ((wp_readTwo .header s).mono (fun _ _ => trivial) ?_)
  rintro _ s₁ ⟨hsent, ⟨reserved, kind, rfl, hstream⟩ | ⟨rfl, hshort⟩⟩
  swap
  · rw [dropBind_short hshort]
    exact wp_ret.mpr ⟨trivial, hsent, rfl⟩
  -- what is sent has not changed so far
  have hdrain : ∀ {s₂ : Peer} (remaining : Nat), s₂.sent = s.sent →
      wp up (fun _ => True) (drain remaining) (fun r s' => s'.sent = s.sent ∧
        match dropExactly remaining s₂.stream with
        | some rest => r = 0 ∧ s'.stream = rest
        | none => r = -1) s₂ := fun remaining hsame => hsame ▸ wp_drain remaining _
  rw [hstream]
  simp only [dropBind]
  by_cases hreserved : reserved ≠ 0
  · rw [if_pos hreserved, if_pos hreserved]
    exact wp_ret.mpr ⟨trivial, hsent, rfl⟩
  rw [if_neg hreserved, if_neg hreserved]
  by_cases hipv4 : kind = 1
  · rw [if_pos hipv4, if_pos hipv4]
    exact hdrain 6 hsent
  rw [if_neg hipv4, if_neg hipv4]
  by_cases hipv6 : kind = 4
  · rw [if_pos hipv6, if_pos hipv6]
    exact hdrain 18 hsent
  rw [if_neg hipv6, if_neg hipv6]
  by_cases hdomain : kind = 3
  swap
  · rw [if_neg hdomain, if_neg hdomain]
    exact wp_ret.mpr ⟨trivial, hsent, rfl⟩
  rw [if_pos hdomain, if_pos hdomain]
  refine wp_bind.mpr ((wp_readAll .discard 1 s₁).mono (fun _ _ => trivial) ?_)
  rintro got s₂ ⟨hsent₂, hgot⟩
  cases got with
  | none =>
    have hempty : s₁.stream = [] := List.length_eq_zero_iff.mp (Nat.lt_one_iff.mp hgot)
    rw [hempty]
    exact wp_ret.mpr ⟨trivial, hsent₂.trans hsent, rfl⟩
  | some got =>
    obtain ⟨hlength, hstream₂⟩ := hgot
    obtain ⟨length, rfl⟩ := List.length_eq_one_iff.mp hlength
    rw [hstream₂]
    exact hdrain _ (hsent₂.trans hsent)

theorem wp_closeFailed {Q : Bool → Peer → Prop} {s : Peer} (h : Q false s) :
    wp up (fun _ => True) closeFailed Q s :=
  wp_up fun _ _ => wp_ret.mpr ⟨trivial, h⟩

section Then

variable {α : Type} {Q : α → Peer → Prop}

theorem wp_socket {k : Bool → SockProg α} (h : wp up (fun _ => True) (k true) Q s) :
    wp up (fun _ => True) ((SockOp.ask .socket).bind k) Q s := by
  refine wp_up fun c hc => ?_
  simpa only [peerSem, hc, if_true] using h

theorem wp_connect {addr : Addr} {port : BitVec 16} {timeoutMs : Nat} {k : Bool → SockProg α}
    (h : wp up (fun _ => True) (k true) Q s) :
    wp up (fun _ => True) ((SockOp.ask (.connect addr port timeoutMs)).bind k) Q s := by
  refine wp_up fun c hc => ?_
  simpa only [peerSem, hc, if_true] using h

theorem wp_setTimeouts {timeoutMs : Nat} {k : Bool → SockProg α}
    (h : wp up (fun _ => True) (k true) Q s) :
    wp up (fun _ => True) ((SockOp.ask (.setTimeouts timeoutMs)).bind k) Q s := by
  refine wp_up fun c hc => ?_
  simpa only [peerSem, hc, if_true] using h

/-- Behind what was written, the stream is as it was. -/
theorem wp_writeThen {bytes : List Byte} {k : Bool → SockProg α}
    (h : ∀ s', s'.stream = s.stream → s'.sent = s.sent ++ bytes →
      wp up (fun _ => True) (k true) Q s') :
    wp up (fun _ => True) ((writeAll bytes).bind k) Q s := by
  refine wp_bind.mpr ((wp_writeAll bytes s).mono (fun _ _ => trivial) ?_)
  rintro _ s' ⟨rfl, hstream, hsent⟩
  exact h s' hstream hsent

end Then

/-- **`open_socks`** says the greeting and takes the answer. -/
theorem wp_openSocks (config : Config) (connectTimeoutMs ioTimeoutMs : Nat) (s : Peer) :
    wp up (fun _ => True) (openSocks config connectTimeoutMs ioTimeoutMs)
      (fun ok s' => ok = greeted s.stream ∧ s'.sent = s.sent ++ greeting ∧
        (ok = true → s.stream = 5 :: 0 :: s'.stream)) s := by
  unfold openSocks
  refine wp_socket ?_
  refine wp_connect ?_
  refine wp_setTimeouts ?_
  refine wp_writeThen fun s₁ hstream₁ hsent₁ => ?_
  refine wp_bind.mpr ((wp_readTwo .response s₁).mono (fun _ _ => trivial) ?_)
  rw [hstream₁, hsent₁]
  rintro _ s₂ ⟨hsent₂, ⟨version, method, rfl, hstream₂⟩ | ⟨rfl, hshort⟩⟩
  · rw [hstream₂]
    dsimp only
    by_cases hbad : version ≠ 5 ∨ method ≠ 0
    · rw [if_pos hbad, greeted_eq_false.mpr hbad]
      exact wp_closeFailed ⟨rfl, hsent₂, by simp⟩
    · rw [if_neg hbad]
      rw [not_or, not_not, not_not] at hbad
      obtain ⟨rfl, rfl⟩ := hbad
      exact wp_ret.mpr ⟨trivial, rfl, hsent₂, fun _ => rfl⟩
  · rw [(verdict_short hshort).2]
    exact wp_closeFailed ⟨rfl, hsent₂, by simp⟩

/-- A stream whose greeting is rejected has a defect. -/
theorem verdict_of_not_greeted {stream : List Byte} (h : greeted stream = false) :
    ∃ defect, verdict stream = .error defect := by
  match stream with
  | [] | [_] => exact ⟨.io, rfl⟩
  | version :: method :: stream =>
    simp only [verdict]
    by_cases hversion : version ≠ 5
    · exact ⟨_, if_pos hversion⟩
    · rw [if_neg hversion, if_pos ((greeted_eq_false.mp h).resolve_left hversion)]
      exact ⟨_, rfl⟩

theorem verdict_of_greeted {stream rest : List Byte} (h : stream = 5 :: 0 :: rest) :
    verdict stream = requestVerdict rest ∧ greeted stream = true := by
  subst h
  exact ⟨rfl, rfl⟩

/-- **`connect_socks` follows the verdict**, and leaves the payload. -/
theorem wp_connectSocks (config : Config) (destination : Destination)
    (connectTimeoutMs ioTimeoutMs : Nat) (s : Peer) :
    wp up (fun _ => True) (connectSocks config destination connectTimeoutMs ioTimeoutMs)
      (fun ok s' => s'.sent = s.sent ++ sentTo destination s.stream ∧ match verdict s.stream with
        | .ok payload => ok = true ∧ s'.stream = payload
        | .error _ => ok = false) s := by
  refine wp_bind.mpr ((wp_openSocks config connectTimeoutMs ioTimeoutMs s).mono (fun _ _ => trivial) ?_)
  rintro ok s₁ ⟨hok, hsent₁, hgreeted⟩
  unfold sentTo
  cases ok with
  | false =>
    obtain ⟨defect, hdefect⟩ := verdict_of_not_greeted hok.symm
    rw [hdefect, ← hok]
    exact wp_ret.mpr ⟨trivial, by simpa using hsent₁, rfl⟩
  | true =>
    obtain ⟨hverdict, -⟩ := verdict_of_greeted (hgreeted rfl)
    rw [hverdict, ← hok]
    simp only [if_true]
    refine wp_writeThen fun s₂ hstream₂ hsent₂ => ?_
    have hsent : s₂.sent = s.sent ++ (greeting ++ request destination) := by
      rw [hsent₂, hsent₁, List.append_assoc]
    refine wp_bind.mpr ((wp_readTwo .response s₂).mono (fun _ _ => trivial) ?_)
    rw [hstream₂]
    rintro _ s₃ ⟨hsent₃, ⟨version, reply, rfl, hstream₃⟩ | ⟨rfl, hshort⟩⟩
    swap
    · rw [requestVerdict_short hshort]
      exact wp_closeFailed ⟨hsent₃.trans hsent, rfl⟩
    rw [hstream₃]
    simp only [requestVerdict]
    by_cases hversion : version ≠ 5
    · rw [if_pos (.inl hversion), if_pos hversion]
      exact wp_closeFailed ⟨hsent₃.trans hsent, rfl⟩
    rw [if_neg hversion]
    by_cases hreply : reply ≠ 0
    · rw [if_pos (.inr hreply), if_pos hreply]
      exact wp_closeFailed ⟨hsent₃.trans hsent, rfl⟩
    rw [if_neg hreply, if_neg (not_or.mpr ⟨hversion, hreply⟩)]
    refine wp_bind.mpr ((wp_fpSocks5DrainBind s₃).mono (fun _ _ => trivial) ?_)
    rintro r s₄ ⟨hsent₄, hr⟩
    have hsent' : s₄.sent = s.sent ++ (greeting ++ request destination) := by
      rw [hsent₄, hsent₃, hsent]
    cases hdrop : dropBind s₃.stream with
    | none =>
      rw [hdrop] at hr
      obtain rfl : r = -1 := hr
      exact wp_closeFailed ⟨hsent', rfl⟩
    | some payload =>
      rw [hdrop] at hr
      obtain ⟨rfl, hpayload⟩ := hr
      exact wp_ret.mpr ⟨trivial, hsent', rfl, hpayload⟩

end

/-! ## The language of the replies -/

theorem dropExactly_eq_some {length : Nat} {stream rest : List Byte} :
    dropExactly length stream = some rest ↔ ∃ got, got.length = length ∧ stream = got ++ rest := by
  unfold dropExactly
  constructor
  · intro h
    by_cases hle : length ≤ stream.length
    · rw [if_pos hle] at h
      refine ⟨stream.take length, List.length_take_of_le hle, ?_⟩
      rw [← Option.some.inj h, List.take_append_drop]
    · rw [if_neg hle] at h
      cases h
  · rintro ⟨got, rfl, rfl⟩
    rw [if_pos (by simp), List.drop_left]

/-- An address field of `n` bytes and a port. -/
theorem split_port {n : Nat} {got : List Byte} (h : got.length = n + 2) :
    ∃ addr port, got = addr ++ port ∧ addr.length = n ∧ port.length = 2 :=
  ⟨got.take n, got.drop n, (List.take_append_drop n got).symm, by simp [h], by simp [h]⟩

theorem dropBind_eq_some {stream rest : List Byte} :
    dropBind stream = some rest ↔ ∃ bound, BoundAddress bound ∧ stream = 0 :: (bound ++ rest) := by
  constructor
  · intro h
    match stream with
    | [] | [_] => simp [dropBind] at h
    | reserved :: kind :: stream =>
      simp only [dropBind] at h
      by_cases hreserved : reserved ≠ 0
      · rw [if_pos hreserved] at h
        cases h
      rw [if_neg hreserved] at h
      obtain rfl := not_not.mp hreserved
      by_cases hipv4 : kind = 1
      · rw [if_pos hipv4] at h
        obtain ⟨got, hgot, rfl⟩ := dropExactly_eq_some.mp h
        obtain ⟨addr, port, rfl, haddr, hport⟩ := split_port hgot
        exact ⟨_, .ipv4 addr port haddr hport, by simp [hipv4]⟩
      rw [if_neg hipv4] at h
      by_cases hipv6 : kind = 4
      · rw [if_pos hipv6] at h
        obtain ⟨got, hgot, rfl⟩ := dropExactly_eq_some.mp h
        obtain ⟨addr, port, rfl, haddr, hport⟩ := split_port hgot
        exact ⟨_, .ipv6 addr port haddr hport, by simp [hipv6]⟩
      rw [if_neg hipv6] at h
      by_cases hdomain : kind = 3
      · rw [if_pos hdomain] at h
        cases stream with
        | nil => cases h
        | cons length stream =>
          obtain ⟨got, hgot, rfl⟩ := dropExactly_eq_some.mp h
          obtain ⟨name, port, rfl, hname, hport⟩ := split_port hgot
          exact ⟨_, .domain length name port hname hport, by simp [hdomain]⟩
      · rw [if_neg hdomain] at h
        cases h
  · rintro ⟨bound, hbound, rfl⟩
    have hdrop : ∀ {length : Nat} {got : List Byte}, got.length = length →
        dropExactly length (got ++ rest) = some rest :=
      fun hgot => dropExactly_eq_some.mpr ⟨_, hgot, rfl⟩
    cases hbound with
    | ipv4 addr port haddr hport =>
      rw [List.cons_append]
      simp only [dropBind, ne_eq, not_true_eq_false, if_false, if_true]
      exact hdrop (by simp [haddr, hport])
    | ipv6 addr port haddr hport =>
      rw [List.cons_append]
      simp only [dropBind, ne_eq, not_true_eq_false, if_false,
        if_neg (show (4 : Byte) ≠ 1 by decide), if_true]
      exact hdrop (by simp [haddr, hport])
    | domain length name port hname hport =>
      rw [List.cons_append, List.cons_append]
      simp only [dropBind, ne_eq, not_true_eq_false, if_false,
        if_neg (show (3 : Byte) ≠ 1 by decide), if_neg (show (3 : Byte) ≠ 4 by decide), if_true]
      exact hdrop (by simp [hname, hport])

/-- **The verdict accepts the language**, and what is behind it is the payload. -/
theorem verdict_eq_ok {stream payload : List Byte} :
    verdict stream = .ok payload ↔ ∃ reply, Handshake reply ∧ stream = reply ++ payload := by
  constructor
  · intro h
    match stream with
    | [] | [_] => simp [verdict] at h
    | [version, method] | [version, method, _] =>
      simp only [verdict, requestVerdict] at h
      split at h
      · simp at h
      · split at h <;> simp at h
    | version :: method :: version' :: reply :: stream =>
      simp only [verdict, requestVerdict] at h
      by_cases hversion : version ≠ 5
      · rw [if_pos hversion] at h
        cases h
      rw [if_neg hversion] at h
      by_cases hmethod : method ≠ 0
      · rw [if_pos hmethod] at h
        cases h
      rw [if_neg hmethod] at h
      by_cases hversion' : version' ≠ 5
      · rw [if_pos hversion'] at h
        cases h
      rw [if_neg hversion'] at h
      by_cases hreply : reply ≠ 0
      · rw [if_pos hreply] at h
        cases h
      rw [if_neg hreply] at h
      rw [not_not] at hversion hmethod hversion' hreply
      subst hversion hmethod hversion' hreply
      cases hdrop : dropBind stream with
      | none =>
        rw [hdrop] at h
        cases h
      | some rest =>
        rw [hdrop] at h
        obtain rfl := Except.ok.inj h
        obtain ⟨bound, hbound, rfl⟩ := dropBind_eq_some.mp hdrop
        exact ⟨_, ⟨bound, hbound, rfl⟩, rfl⟩
  · rintro ⟨_, ⟨bound, hbound, rfl⟩, rfl⟩
    have hdrop : dropBind (0 :: (bound ++ payload)) = some payload :=
      dropBind_eq_some.mpr ⟨bound, hbound, rfl⟩
    have hstream : [5, 0] ++ [5, 0, 0] ++ bound ++ payload =
        (5 : Byte) :: 0 :: 5 :: 0 :: 0 :: (bound ++ payload) := rfl
    rw [hstream]
    simp only [verdict, requestVerdict, ne_eq, not_true_eq_false, if_false, hdrop]

/-! ## The calls of the handshake -/

/-- A `recv` stays within its buffer. -/
def InBounds : SockOp → Prop
  | .recv buffer offset length => offset + length ≤ buffer.size
  | _ => True

theorem calls_writeAll (bytes : List Byte) : (writeAll bytes).Calls InBounds :=
  Lib.calls_writeAll (fun _ => trivial) bytes

theorem calls_readAll {buffer : Buffer} {length : Nat} (h : length ≤ buffer.size) :
    (readAll buffer length).Calls InBounds := by
  refine calls_bind (Lib.calls_readAll (fun _ _ _ hle => hle) [] length (.inr (by simpa using h)))
    fun r => ?_
  cases r <;> exact calls_ret _

theorem calls_drain {remaining : Nat} (h : remaining ≤ 257) : (drain remaining).Calls InBounds := by
  refine calls_bind (calls_readAll h) fun r => ?_
  cases r <;> exact calls_ret _

/-- The longest domain fills `discard` exactly. -/
theorem calls_fpSocks5DrainBind : fpSocks5DrainBind.Calls InBounds := by
  refine calls_bind (calls_readAll le_rfl) fun header => ?_
  split
  · split
    · exact calls_ret _
    split
    · exact calls_drain (by decide)
    split
    · exact calls_drain (by decide)
    split
    · refine calls_bind (calls_readAll (by decide)) fun got => ?_
      split
      · rename_i length
        have hlt : length.toNat < 256 := length.isLt
        exact calls_drain (by omega)
      · exact calls_ret _
    · exact calls_ret _
  · exact calls_ret _

theorem calls_closeFailed : closeFailed.Calls InBounds :=
  calls_bind (calls_ask trivial) fun _ => calls_ret _

theorem calls_openSocks (config : Config) (connectTimeoutMs ioTimeoutMs : Nat) :
    (openSocks config connectTimeoutMs ioTimeoutMs).Calls InBounds := by
  refine calls_bind (calls_ask trivial) fun socket => ?_
  split
  · exact calls_ret _
  refine calls_bind (calls_ask trivial) fun connected => ?_
  split
  · exact calls_closeFailed
  refine calls_bind (calls_ask trivial) fun timed => ?_
  split
  · exact calls_closeFailed
  refine calls_bind (calls_writeAll _) fun written => ?_
  split
  · exact calls_closeFailed
  refine calls_bind (calls_readAll le_rfl) fun response => ?_
  split
  · split
    · exact calls_closeFailed
    · exact calls_ret _
  · exact calls_closeFailed

/-- **Nothing is read past the end of a buffer**, whatever the server sends and however it is cut. -/
theorem calls_connectSocks (config : Config) (destination : Destination)
    (connectTimeoutMs ioTimeoutMs : Nat) :
    (connectSocks config destination connectTimeoutMs ioTimeoutMs).Calls InBounds := by
  refine calls_bind (calls_openSocks config connectTimeoutMs ioTimeoutMs) fun opened => ?_
  split
  · exact calls_ret _
  refine calls_bind (calls_writeAll _) fun written => ?_
  split
  · exact calls_closeFailed
  refine calls_bind (calls_readAll le_rfl) fun response => ?_
  split
  · split
    · exact calls_closeFailed
    refine calls_bind calls_fpSocks5DrainBind fun drained => ?_
    split
    · exact calls_closeFailed
    · exact calls_ret _
  · exact calls_closeFailed

/-! ## The handshake comes to an end -/

theorem terminates_ask (e : SockOp) (s : Peer) : Terminates up (SockOp.ask e) s :=
  .call rfl fun r s' _ => .ret r s'

theorem terminates_writeAll (bytes : List Byte) (s : Peer) : Terminates up (writeAll bytes) s :=
  Lib.terminates_writeAll Peer.interrupts (fun _ _ _ _ hr hintr => send_interrupts (hintr ▸ hr)) bytes s

theorem terminates_readLoop (buffer : Buffer) (length : Nat) (s : Peer) :
    Terminates up (readLoop buffer length) s :=
  Lib.terminates_readAll Peer.interrupts (fun _ _ _ _ _ hr hintr => recv_interrupts (hintr ▸ hr)) []
    length s

theorem terminates_readAll (buffer : Buffer) (length : Nat) (s : Peer) :
    Terminates up (readAll buffer length) s := by
  refine (terminates_readLoop buffer length s).bind fun r s' _ => ?_
  cases r <;> exact .ret _ _

theorem terminates_drain (remaining : Nat) (s : Peer) : Terminates up (drain remaining) s := by
  refine (terminates_readAll .discard remaining s).bind fun r s' _ => ?_
  cases r <;> exact .ret _ _

theorem terminates_fpSocks5DrainBind (s : Peer) : Terminates up fpSocks5DrainBind s := by
  refine (terminates_readAll .header 2 s).bind fun header s' _ => ?_
  split
  · split
    · exact .ret _ _
    split
    · exact terminates_drain 6 s'
    split
    · exact terminates_drain 18 s'
    split
    · refine (terminates_readAll .discard 1 s').bind fun got s' _ => ?_
      split
      · exact terminates_drain _ s'
      · exact .ret _ _
    · exact .ret _ _
  · exact .ret _ _

theorem terminates_closeFailed (s : Peer) : Terminates up closeFailed s :=
  (terminates_ask .close s).bind fun _ _ _ => .ret _ _

theorem terminates_openSocks (config : Config) (connectTimeoutMs ioTimeoutMs : Nat) (s : Peer) :
    Terminates up (openSocks config connectTimeoutMs ioTimeoutMs) s := by
  refine (terminates_ask .socket s).bind fun socket s _ => ?_
  split
  · exact .ret _ _
  refine (terminates_ask _ s).bind fun connected s _ => ?_
  split
  · exact terminates_closeFailed s
  refine (terminates_ask _ s).bind fun timed s _ => ?_
  split
  · exact terminates_closeFailed s
  refine (terminates_writeAll _ s).bind fun written s _ => ?_
  split
  · exact terminates_closeFailed s
  refine (terminates_readAll .response 2 s).bind fun response s _ => ?_
  split
  · split
    · exact terminates_closeFailed s
    · exact .ret _ _
  · exact terminates_closeFailed s

theorem terminates_connectSocks (config : Config) (destination : Destination)
    (connectTimeoutMs ioTimeoutMs : Nat) (s : Peer) :
    Terminates up (connectSocks config destination connectTimeoutMs ioTimeoutMs) s := by
  refine (terminates_openSocks config connectTimeoutMs ioTimeoutMs s).bind fun opened s _ => ?_
  split
  · exact .ret _ _
  refine (terminates_writeAll _ s).bind fun written s _ => ?_
  split
  · exact terminates_closeFailed s
  refine (terminates_readAll .response 2 s).bind fun response s _ => ?_
  split
  · split
    · exact terminates_closeFailed s
    refine (terminates_fpSocks5DrainBind s).bind fun drained s _ => ?_
    split
    · exact terminates_closeFailed s
    · exact .ret _ _
  · exact terminates_closeFailed s

/-! ## Headline -/

/-- **`connect_socks` consumes exactly the handshake.** However the stream is cut and interrupted, it
comes to an end, stays within its buffers, and succeeds iff the stream starts with a handshake; what is
left is then what the stream has behind the handshake. -/
theorem connectSocks_accepts (config : Config) (destination : Destination)
    (connectTimeoutMs ioTimeoutMs : Nat) (s : Peer) :
    let connect := connectSocks config destination connectTimeoutMs ioTimeoutMs
    connect.Calls InBounds ∧ Terminates up connect s ∧ (∃ ok s', Runs up connect s ok s') ∧
      ∀ ok s', Runs up connect s ok s' →
        (ok = true ↔ ∃ reply payload, Handshake reply ∧ s.stream = reply ++ payload) ∧
        (ok = true → ∃ reply, Handshake reply ∧ s.stream = reply ++ s'.stream) := by
  intro connect
  have hend := terminates_connectSocks config destination connectTimeoutMs ioTimeoutMs s
  refine ⟨calls_connectSocks config destination connectTimeoutMs ioTimeoutMs, hend,
    hend.runs up_answered, ?_⟩
  intro ok s' hrun
  obtain ⟨-, hok⟩ := (wp_connectSocks config destination connectTimeoutMs ioTimeoutMs s).runs hrun
  cases hverdict : verdict s.stream with
  | error defect =>
    rw [hverdict] at hok
    obtain rfl : ok = false := hok
    constructor
    · constructor
      · intro h
        cases h
      · rintro ⟨reply, payload, hreply⟩
        rw [verdict_eq_ok.mpr ⟨reply, hreply⟩] at hverdict
        cases hverdict
    · intro h
      cases h
  | ok payload =>
    rw [hverdict] at hok
    obtain ⟨rfl, rfl⟩ := hok
    obtain ⟨reply, hreply⟩ := verdict_eq_ok.mp hverdict
    exact ⟨⟨fun _ => ⟨reply, _, hreply⟩, fun _ => rfl⟩, fun _ => ⟨reply, hreply⟩⟩

end FreeProxy.Socks
