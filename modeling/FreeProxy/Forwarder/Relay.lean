import FreeProxy.Lib.Transfer
import FreeProxy.Stats.Code

/-!
# `relay`

The loop of `src/proxy.c` that passes the bytes of a connection on, in both directions, and counts
them. Every system call of the loop, every access to the statistics map and every use of the array
`descriptors`, which `poll` reads too, is one call of the program; the environment answers with any
outcome at any time. `Wires` is what has happened on the two sockets so far.

The slot `stats_slot` is the worker's own: other processes may change the rest of the map between two
accesses, and leave this slot alone.

`Faithful` says what holds at every moment, `Returned` why the loop has ended, and `Grown` what the slot
has counted. `Quiet` is the invariant of the loop and `Passing` that of the write of one chunk.

Headline: **`relay_faithful`**.

Out of scope: time, and when a socket becomes readable: `poll` may answer anything.
-/

namespace FreeProxy.Relay

open Lib

/-- `endpoints`. -/
inductive Side where
  | client
  | upstream
  deriving DecidableEq

/-- The side that is sent what this one has given. -/
def Side.other : Side → Side
  | .client => .upstream
  | .upstream => .client

/-- The counter for what comes from a side. -/
def Side.direction : Side → Direction
  | .client => .up
  | .upstream => .down

/-- `EAGAIN`, which is `EWOULDBLOCK` too. -/
def eagain : Int := 11

/-- `sizeof(buffer)`. -/
def bufferSize : Nat := 16384

/-- What `poll` answers. -/
inductive Polled where
  | failed (errno : Int)
  | timedOut
  /-- whether the `revents` of a side have one of the four flags -/
  | ready (client upstream : Bool)
  deriving DecidableEq

/-- The calls of `relay`. -/
inductive RelayOp where
  /-- the read of `keep_running` -/
  | keepRunning
  | poll
  /-- `descriptors[index].fd >= 0` -/
  | watched (side : Side)
  | recv (side : Side)
  | send (side : Side) (bytes : List Byte)
  /-- `shutdown(target, SHUT_WR)` -/
  | shutdown (side : Side)
  /-- `descriptors[index].fd = -1` -/
  | unwatch (side : Side)
  | map (e : MapOp)
  deriving DecidableEq

/-- What a call answers. -/
abbrev RelayResp : RelayOp → Type
  | .keepRunning | .watched _ => Bool
  | .poll => Polled
  | .recv _ => Transfer (List Byte)
  | .send _ _ => Transfer Nat
  | .shutdown _ | .unwatch _ => Unit
  | .map e => MapResp e

/-- A program of the relay. -/
abbrev RelayProg (α : Type) := Prog RelayOp RelayResp α

/-- One call. -/
abbrev RelayOp.ask (e : RelayOp) : RelayProg (RelayResp e) := Prog.ask e

/-! ## The code -/

/-- `write_all`. -/
def writeAll (target : Side) (bytes : List Byte) : RelayProg Bool :=
  Lib.writeAll (RelayOp.send target) (fun _ r => r) bytes

/-- `fp_stats_add`, for a chunk from `source`. -/
def countChunk (self slotIndex : Int) (source : Side) (received : Nat) : RelayProg Unit :=
  hoist RelayOp.map (match source with
    | .client => Code.fpStatsAdd self slotIndex (BitVec.ofNat 64 received) 0
    | .upstream => Code.fpStatsAdd self slotIndex 0 (BitVec.ofNat 64 received))

/-- `received <= 0` -/
def endSource (source : Side) : RelayProg Bool := do
  RelayOp.ask (.shutdown source.other)
  RelayOp.ask (.unwatch source)
  pure true

/-- The body of the inner loop; `false` is the `return` after a failed write. -/
def forward (self slotIndex : Int) (source : Side) (revents : Bool) : RelayProg Bool := do
  let watched ← RelayOp.ask (.watched source)
  if !watched || !revents then pure true else do
  match ← RelayOp.ask (.recv source) with
  | .failed errno => if errno = eintr ∨ errno = eagain then pure true else endSource source
  | .done chunk =>
    if chunk = [] then endSource source else do
    if !(← writeAll source.other chunk) then pure false else do
    countChunk self slotIndex source chunk.length
    pure true

/-- One round of the outer loop; `some ()` is a `return`. -/
def round (self slotIndex : Int) (running : Bool) : RelayProg (Option Unit) :=
  if !running then pure (some ()) else do
  match ← RelayOp.ask .poll with
  | .failed errno => pure (if errno = eintr then none else some ())
  | .timedOut => pure (some ())
  | .ready client upstream => do
    if !(← forward self slotIndex .client client) then pure (some ()) else do
    if !(← forward self slotIndex .upstream upstream) then pure (some ()) else do
    if ← RelayOp.ask (.watched .client) then pure none else do
    if ← RelayOp.ask (.watched .upstream) then pure none else pure (some ())

/-- `relay`: rounds as long as `keep_running` is set and a side is watched. -/
def relay (self slotIndex : Int) : RelayProg Unit := .loop .keepRunning (round self slotIndex) .ret

/-! ## The environment -/

/-- The two connections, the counters, and what has passed over the connections so far. -/
structure Wires where
  /-- what each successful `recv` on a side has given -/
  chunks : Side → List (List Byte)
  /-- the bytes that have been sent to a side -/
  sent : Side → List Byte
  /-- `recv` on a side has answered an end or an error -/
  ended : Side → Bool
  shut : Side → Bool
  /-- `send` has been called on a side that was shut down -/
  late : Bool
  watched : Side → Bool
  map : StatsMap

/-- Nothing has happened yet. -/
def Wires.start (map : StatsMap) : Wires where
  chunks _ := []
  sent _ := []
  ended _ := false
  shut _ := false
  late := false
  watched _ := true
  map := map

/-- One outcome for every kind of call. -/
structure Outcome where
  running : Bool
  polled : Polled
  received : Transfer (List Byte)
  written : Transfer Nat
  /-- the map, as other processes have changed it -/
  map : StatsMap

/-- `recv` on a side. What it gives is recorded; an end or an error ends the side. -/
def Wires.recv (s : Wires) (side : Side) : Transfer (List Byte) → Transfer (List Byte) × Wires
  | .failed errno =>
    (.failed errno,
      if errno = eintr ∨ errno = eagain then s else { s with ended := Function.update s.ended side true })
  | .done bytes =>
    let chunk := bytes.take bufferSize
    (.done chunk,
      if chunk = [] then { s with ended := Function.update s.ended side true }
      else { s with chunks := Function.update s.chunks side (s.chunks side ++ [chunk]) })

/-- `send` to a side; it may take a part only. -/
def Wires.send (s : Wires) (side : Side) (bytes : List Byte) : Transfer Nat → Transfer Nat × Wires
  | .failed errno => (.failed errno, { s with late := s.late || s.shut side })
  | .done count =>
    let written := min count bytes.length
    (.done written, { s with
      late := s.late || s.shut side
      sent := Function.update s.sent side (s.sent side ++ bytes.take written) })

/-- The map, with what other processes may do to it. -/
def shared (slotIndex : Int) (m others : StatsMap) : StatsMap :=
  if others.slot slotIndex = m.slot slotIndex then others else m

/-- What a call does. -/
def wireSem (slotIndex : Int) : Sem RelayOp RelayResp Outcome Wires
  | .keepRunning, c, s => (c.running, s)
  | .poll, c, s => (c.polled, s)
  | .watched side, _, s => (s.watched side, s)
  | .recv side, c, s => s.recv side c.received
  | .send side bytes, c, s => s.send side bytes c.written
  | .shutdown side, _, s => ((), { s with shut := Function.update s.shut side true })
  | .unwatch side, _, s => ((), { s with watched := Function.update s.watched side false })
  | .map e, c, s =>
    let access := mapSem e () (shared slotIndex s.map c.map)
    (access.1, { s with map := access.2 })

/-- What a caller may see. -/
abbrev wireRel (slotIndex : Int) : Rel RelayOp RelayResp Wires := (wireSem slotIndex).rel

/-- A call and its answer. -/
abbrev RelayEv := Ev RelayOp RelayResp

/-! ## What relaying means -/

/-- The last call was the `recv` of a chunk from `source` or a `send` of it. -/
def Writing (source : Side) (tr : List RelayEv) : Prop :=
  ∃ ev, tr.getLast? = some ev ∧
    (ev.1 = .recv source ∨ ∃ bytes, ev.1 = .send source.other bytes)

/-- What holds at every moment. -/
structure Faithful (tr : List RelayEv) (s : Wires) : Prop where
  /-- what is sent is what was received, up to the end of a chunk that is being written -/
  order : ∀ source, ∃ rest, (s.chunks source).flatten = s.sent source.other ++ rest ∧
    (rest = [] ∨
      (∃ chunk, (s.chunks source).getLast? = some chunk ∧ rest <:+ chunk) ∧ Writing source tr)
  shut : ∀ source, s.shut source.other = true →
    s.ended source = true ∧ s.sent source.other = (s.chunks source).flatten
  late : s.late = false

/-- The last call was a `send` that sent nothing. -/
def WriteFailed (tr : List RelayEv) : Prop :=
  ∃ side bytes r, tr.getLast? = some ⟨.send side bytes, r⟩ ∧
    (r = .done 0 ∨ ∃ errno, errno ≠ eintr ∧ r = .failed errno)

/-- The last call was a `poll` that timed out or failed. -/
def PollEnded (tr : List RelayEv) : Prop :=
  ∃ r, tr.getLast? = some ⟨.poll, r⟩ ∧ (r = .timedOut ∨ ∃ errno, errno ≠ eintr ∧ r = .failed errno)

/-- The last call has found `keep_running` cleared. -/
def Cleared (tr : List RelayEv) : Prop := tr.getLast? = some ⟨.keepRunning, false⟩

/-- The bytes of the chunks that `sent` bytes cover. -/
def passed : List (List Byte) → Nat → Nat
  | [], _ => 0
  | chunk :: chunks, sent =>
    if chunk.length ≤ sent then chunk.length + passed chunks (sent - chunk.length) else 0

/-- The slot belongs to the process `self`. -/
def Owns (self slotIndex : Int) (m : StatsMap) (slot : StatsConn) : Prop :=
  m.slot slotIndex = some slot ∧ slot.active = true ∧ slot.pid = self

/-- The slot, if it was the worker's, is the worker's, and has grown by `bytes`. -/
def Grown (self slotIndex : Int) (before : StatsMap) (bytes : Side → Nat) (m : StatsMap) : Prop :=
  ∀ slot, Owns self slotIndex before slot → ∃ slot', Owns self slotIndex m slot' ∧
    ∀ source : Side, slot'.bytes source.direction =
      slot.bytes source.direction + BitVec.ofNat 64 (bytes source)

/-- The bytes of the chunks that have been written as a whole. -/
def Wires.passed (s : Wires) (source : Side) : Nat :=
  Relay.passed (s.chunks source) (s.sent source.other).length

/-- The last call was part of the write of a chunk, or of its count. -/
def Counting (tr : List RelayEv) : Prop :=
  ∃ ev, tr.getLast? = some ev ∧
    ((∃ side bytes, ev.1 = .send side bytes) ∨ ∃ e, ev.1 = .map e)

/-! ## Counting on a shared map -/

theorem passed_append (chunk : List Byte) (sent : Nat) : ∀ chunks : List (List Byte),
    passed (chunks ++ [chunk]) (chunks.flatten.length + sent) =
      chunks.flatten.length + if chunk.length ≤ sent then chunk.length else 0
  | [] => by simp [passed]
  | c :: chunks => by
    have hrest : (c :: chunks).flatten.length + sent - c.length = chunks.flatten.length + sent := by
      rw [List.flatten_cons, List.length_append]
      omega
    rw [List.cons_append, passed, if_pos (by simp; omega), hrest, passed_append chunk sent chunks]
    rw [List.flatten_cons, List.length_append]
    omega

theorem passed_flatten : ∀ chunks : List (List Byte),
    passed chunks chunks.flatten.length = chunks.flatten.length
  | [] => rfl
  | c :: chunks => by
    have hrest : (c :: chunks).flatten.length - c.length = chunks.flatten.length := by simp
    rw [passed, if_pos (by simp), hrest, passed_flatten chunks]
    simp

/-- An access to a map that other processes use too. -/
def sharedRel (slotIndex : Int) : Rel MapOp MapResp StatsMap :=
  fun e m r m' => ∃ others, mapSem e () (shared slotIndex m others) = (r, m')

theorem shared_slot (slotIndex : Int) (m others : StatsMap) :
    (shared slotIndex m others).slot slotIndex = m.slot slotIndex := by
  unfold shared
  split
  · assumption
  · rfl

section

variable {self : Int} {index : Nat} {m : StatsMap} {slot : StatsConn}

theorem Owns.shared {slotIndex : Int} (h : Owns self slotIndex m slot) (others : StatsMap) :
    Owns self slotIndex (shared slotIndex m others) slot := by
  obtain ⟨hslot, hrest⟩ := h
  exact ⟨by rw [shared_slot, hslot], hrest⟩

theorem Owns.at (h : Owns self index m slot) : m.at index = slot := by
  obtain ⟨i, hi, -, hslot⟩ := StatsMap.slot_eq_some h.1
  obtain rfl : index = i := by omega
  exact StatsMap.at_of_slot hslot

theorem Owns.modify {f : StatsConn → StatsConn} (h : Owns self index m slot)
    (hactive : (f slot).active = slot.active) (hpid : (f slot).pid = slot.pid) :
    Owns self index (m.modify index f) (f slot) := by
  obtain ⟨hslot, hown⟩ := h
  obtain ⟨i, hi, -, hget⟩ := StatsMap.slot_eq_some hslot
  obtain rfl : index = i := by omega
  refine ⟨?_, by rw [hactive, hpid]; exact hown⟩
  rw [StatsMap.slot, if_neg (by omega), StatsMap.modify_slots, Int.toNat_natCast,
    List.getElem?_modify_eq, hget]
  rfl

theorem Owns.addTotal {slotIndex : Int} (h : Owns self slotIndex m slot) (direction : Direction)
    (bytes : BitVec 64) : Owns self slotIndex (m.addTotal direction bytes) slot := by
  cases direction <;> exact h

/-- An access by the owner of a slot, and what follows it. -/
theorem wp_own {α : Type} {e : MapOp} {k : MapResp e → MapProg α} {Q : α → StatsMap → Prop}
    (h : Owns self index m slot)
    (hk : ∀ m₁, Owns self index m₁ slot →
      wp (sharedRel index) (fun _ => True) (k (mapSem e () m₁).1) Q (mapSem e () m₁).2) :
    wp (sharedRel index) (fun _ => True) ((MapOp.ask e).bind k) Q m := by
  rw [wp_bind, wp_ask]
  refine ⟨trivial, ?_⟩
  rintro r m' ⟨others, hr⟩
  have hrest := hk _ (h.shared others)
  rw [hr] at hrest
  exact ⟨trivial, hrest⟩

theorem wp_addBytes_own (direction : Direction) (bytes : BitVec 64) (h : Owns self index m slot) :
    wp (sharedRel index) (fun _ => True) (Code.addBytes index direction bytes)
      (fun _ m' => Owns self index m' (slot.setBytes direction (slot.bytes direction + bytes))) m := by
  unfold Code.addBytes
  by_cases hbytes : bytes > 0
  swap
  · have hzero : bytes = 0 := by
      by_contra hne
      exact hbytes ((BitVec.pos_iff_ne_zero bytes).mpr hne)
    have hsame : slot.setBytes direction (slot.bytes direction + 0) = slot := by
      cases direction <;> simp [StatsConn.setBytes, StatsConn.bytes]
    rw [if_neg hbytes, hzero, hsame]
    exact wp_ret.mpr ⟨trivial, h⟩
  rw [if_pos hbytes]
  refine wp_own h fun m₁ h₁ => ?_
  have hread : (m₁.at index).bytes direction = slot.bytes direction := by rw [h₁.at]
  refine wp_own h₁ fun m₂ h₂ => ?_
  have hstored : Owns self index
      (m₂.modify index fun slot => SlotStore.apply slot (.bytes direction ((m₁.at index).bytes direction + bytes)))
      (slot.setBytes direction (slot.bytes direction + bytes)) := by
    rw [hread]
    exact h₂.modify (by cases direction <;> rfl) (by cases direction <;> rfl)
  refine wp_ask.mpr ⟨trivial, ?_⟩
  rintro _ m' ⟨others, hr⟩
  obtain ⟨-, rfl⟩ := Prod.mk.inj hr
  exact ⟨trivial, (hstored.shared others).addTotal direction bytes⟩

/-- **The owner of a slot counts on it**, whatever others do to the rest of the map. -/
theorem wp_add_own (up down : BitVec 64) (h : Owns self index m slot) :
    wp (sharedRel index) (fun _ => True) (Code.fpStatsAdd self index up down)
      (fun _ m' => Owns self index m' (slot.add up down)) m := by
  obtain ⟨i, hi, hlt, -⟩ := StatsMap.slot_eq_some h.1
  have hrange : Code.inRange index = true := by
    unfold Code.inRange
    rw [decide_eq_true_eq]
    omega
  unfold Code.fpStatsAdd
  rw [hrange, Int.toNat_natCast]
  refine wp_own h fun m₁ h₁ => ?_
  have hactive : (m₁.at index).active = true := by rw [h₁.at]; exact h.2.1
  have hloaded : (mapSem (.loadActive index) () m₁).1 = true := hactive
  rw [hloaded]
  refine wp_own h₁ fun m₂ h₂ => ?_
  have hpid : (m₂.at index).pid = self := by rw [h₂.at]; exact h.2.2
  have hheld : (mapSem (.loadPid index) () m₂).1 = self := hpid
  rw [if_neg (not_not.mpr hheld)]
  refine wp_seq (wp_addBytes_own .up up h₂) (fun _ _ => trivial) fun _ m₃ _ h₃ => ?_
  exact wp_addBytes_own .down down h₃

end

/-! ## The write of one chunk -/

/-- A chunk from `source` has come, and `done` of it has been sent. -/
def Wires.passing (s : Wires) (source : Side) (chunk done : List Byte) : Wires :=
  { s with
    chunks := Function.update s.chunks source (s.chunks source ++ [chunk])
    sent := Function.update s.sent source.other (s.sent source.other ++ done) }

theorem other_inj {a b : Side} : a.other = b.other ↔ a = b := by cases a <;> cases b <;> decide

/-- Everything received has been sent, and the two sides are watched until they end. -/
structure Quiet (s : Wires) : Prop where
  sent : ∀ source, s.sent source.other = (s.chunks source).flatten
  watched : ∀ source, s.watched source = true ∨ s.ended source = true
  shut : ∀ source, s.shut source.other = true → s.ended source = true ∧ s.watched source = false
  late : s.late = false

/-- What holds of the wires and the calls at every moment. -/
def Moment (self slotIndex : Int) (before : StatsMap) (x : Wires × List RelayEv) : Prop :=
  Faithful x.2 x.1 ∧ (Counting x.2 ∨ Grown self slotIndex before x.1.passed x.1.map)

section

variable {self slotIndex : Int} {before : StatsMap} {s : Wires} {source : Side}

theorem Quiet.faithful (h : Quiet s) (tr : List RelayEv) : Faithful tr s where
  order source := ⟨[], by rw [h.sent, List.append_nil], .inl rfl⟩
  shut source hshut := ⟨(h.shut source hshut).1, h.sent source⟩
  late := h.late

theorem Quiet.moment (h : Quiet s) (hgrown : Grown self slotIndex before s.passed s.map)
    (tr : List RelayEv) : Moment self slotIndex before (s, tr) :=
  ⟨h.faithful tr, .inr hgrown⟩

theorem Quiet.open (h : Quiet s) (hwatched : s.watched source = true) :
    s.shut source.other = false := by
  by_contra hshut
  rw [Bool.not_eq_false] at hshut
  rw [(h.shut source hshut).2] at hwatched
  exact Bool.noConfusion hwatched

/-- The chunks that are covered while one of them is written. -/
theorem passed_passing (h : Quiet s) (chunk done : List Byte) (side : Side) :
    (s.passing source chunk done).passed side =
      s.passed side + if side = source ∧ chunk.length ≤ done.length then chunk.length else 0 := by
  unfold Wires.passed Wires.passing
  by_cases hside : side = source
  · subst hside
    simp only [Function.update_self, true_and]
    rw [h.sent, List.length_append, passed_append, passed_flatten]
  · have hother : side.other ≠ source.other := fun heq => hside (other_inj.mp heq)
    simp only [Function.update_of_ne hside, Function.update_of_ne hother, hside, false_and, if_false,
      Nat.add_zero]

/-- **While a chunk is written**, what is sent lacks the rest of this chunk only. -/
theorem passing_faithful (h : Quiet s) (hopen : s.shut source.other = false)
    {chunk done rest : List Byte} (hchunk : chunk = done ++ rest) {tr : List RelayEv}
    (hwriting : Writing source tr) : Faithful tr (s.passing source chunk done) where
  order side := by
    unfold Wires.passing
    by_cases hside : side = source
    · subst hside
      simp only [Function.update_self]
      refine ⟨rest, by simp [h.sent, hchunk], .inr ⟨⟨chunk, by simp, ?_⟩, hwriting⟩⟩
      exact ⟨done, hchunk.symm⟩
    · have hother : side.other ≠ source.other := fun heq => hside (other_inj.mp heq)
      simp only [Function.update_of_ne hside, Function.update_of_ne hother]
      exact ⟨[], by rw [h.sent, List.append_nil], .inl rfl⟩
  shut side hshut := by
    have hside : side ≠ source := by
      rintro rfl
      exact absurd (hopen.symm.trans hshut) (by simp)
    have hother : side.other ≠ source.other := fun heq => hside (other_inj.mp heq)
    unfold Wires.passing
    simp only [Function.update_of_ne hside, Function.update_of_ne hother]
    exact ⟨(h.shut side hshut).1, h.sent side⟩
  late := h.late

/-- As long as something of a chunk is to be written, the slot has counted what was written. -/
theorem passing_grown (h : Quiet s) (hgrown : Grown self slotIndex before s.passed s.map)
    {chunk done rest : List Byte} (hchunk : chunk = done ++ rest) (hrest : rest ≠ []) :
    Grown self slotIndex before (s.passing source chunk done).passed s.map := by
  have hpassed : (s.passing source chunk done).passed = s.passed := by
    funext side
    have hpos := List.length_pos_of_ne_nil hrest
    rw [passed_passing h, if_neg, Nat.add_zero]
    rintro ⟨-, hle⟩
    rw [hchunk, List.length_append] at hle
    omega
  rw [hpassed]
  exact hgrown

theorem getLast_snoc (tr : List RelayEv) (ev : RelayEv) : (tr ++ [ev]).getLast? = some ev := by simp

/-- A `send` of the rest of a chunk. -/
theorem send_passing (hopen : s.shut source.other = false) (chunk done rest : List Byte)
    (written : Transfer Nat) :
    (s.passing source chunk done).send source.other rest written = match written with
      | .failed errno => (.failed errno, s.passing source chunk done)
      | .done count =>
        (.done (min count rest.length), s.passing source chunk (done ++ rest.take (min count rest.length))) := by
  have hlate : (s.late || s.shut source.other) = s.late := by rw [hopen, Bool.or_false]
  cases written with
  | failed errno => simp [Wires.send, Wires.passing, hlate]
  | done count => simp [Wires.send, Wires.passing, hlate]

/-- `rest` of the chunk is still to be sent. The last call is the `recv`, and nothing is sent yet, or it is a
`send`. -/
def Passing (s : Wires) (source : Side) (chunk rest : List Byte) (x : Wires × List RelayEv) : Prop :=
  (∃ done, chunk = done ++ rest ∧ x.1 = s.passing source chunk done) ∧ Writing source x.2 ∧
    (rest = [] → Counting x.2)

theorem Passing.moment (h : Quiet s) (hgrown : Grown self slotIndex before s.passed s.map)
    (hopen : s.shut source.other = false) {chunk rest : List Byte} {x : Wires × List RelayEv}
    (hx : Passing s source chunk rest x) : Moment self slotIndex before x := by
  obtain ⟨⟨done, hdone, hs⟩, hwriting, hcounting⟩ := hx
  obtain ⟨s', tr⟩ := x
  obtain rfl : s' = s.passing source chunk done := hs
  refine ⟨passing_faithful h hopen hdone hwriting, ?_⟩
  by_cases hrest : rest = []
  · exact .inl (hcounting hrest)
  · exact .inr (passing_grown h hgrown hdone hrest)

/-- One `send` of the rest: more is sent, or the write has failed. -/
theorem Passing.send (h : Quiet s) (hgrown : Grown self slotIndex before s.passed s.map)
    (hopen : s.shut source.other = false) {chunk rest : List Byte} {x x₁ : Wires × List RelayEv}
    {r : Transfer Nat} (hx : Passing s source chunk rest x) (hrest : rest ≠ []) :
    Traced (wireRel slotIndex) (.send source.other rest) x r x₁ →
    match r with
    | .failed errno => if errno = eintr then Passing s source chunk rest x₁
        else WriteFailed x₁.2 ∧ Moment self slotIndex before x₁ ∧
          Grown self slotIndex before x₁.1.passed x₁.1.map
    | .done written => if written = 0 then WriteFailed x₁.2 ∧ Moment self slotIndex before x₁ ∧
          Grown self slotIndex before x₁.1.passed x₁.1.map
        else Passing s source chunk (rest.drop written) x₁ := by
  obtain ⟨⟨done, hdone, hs'⟩, -, -⟩ := hx
  obtain ⟨s', tr'⟩ := x
  obtain ⟨s₁, tr₁⟩ := x₁
  rintro ⟨⟨c, hc⟩, htr⟩
  simp only at hs' hc htr
  subst hs' htr
  have hlast : (tr' ++ [(⟨.send source.other rest, r⟩ : RelayEv)]).getLast? = _ := getLast_snoc _ _
  have hwriting : Writing source (tr' ++ [⟨.send source.other rest, r⟩]) := ⟨_, hlast, .inr ⟨rest, rfl⟩⟩
  have hsend : (s.passing source chunk done).send source.other rest c.written = (r, s₁) := hc
  rw [send_passing hopen] at hsend
  cases hwritten : c.written with
  | failed errno =>
    rw [hwritten] at hsend
    obtain ⟨rfl, rfl⟩ := Prod.mk.inj hsend
    have hkeep : Passing s source chunk rest
        (s.passing source chunk done, tr' ++ [⟨.send source.other rest, .failed errno⟩]) :=
      ⟨⟨done, hdone, rfl⟩, hwriting, fun hempty => absurd hempty hrest⟩
    by_cases hintr : errno = eintr
    · simp only [if_pos hintr]
      exact hkeep
    · simp only [if_neg hintr]
      exact ⟨⟨_, _, _, hlast, .inr ⟨errno, hintr, rfl⟩⟩, hkeep.moment h hgrown hopen,
        passing_grown h hgrown hdone hrest⟩
  | done count =>
    rw [hwritten] at hsend
    obtain ⟨rfl, rfl⟩ := Prod.mk.inj hsend
    have hkeep : Passing s source chunk (rest.drop (min count rest.length))
        (s.passing source chunk (done ++ rest.take (min count rest.length)),
          tr' ++ [⟨.send source.other rest, .done (min count rest.length)⟩]) :=
      ⟨⟨_, by rw [List.append_assoc, List.take_append_drop, hdone], rfl⟩, hwriting,
        fun _ => ⟨_, hlast, .inl ⟨_, _, rfl⟩⟩⟩
    by_cases hzero : min count rest.length = 0
    · simp only [if_pos hzero]
      refine ⟨⟨_, _, _, hlast, .inl (by rw [hzero])⟩, hkeep.moment h hgrown hopen, ?_⟩
      have hsame : chunk = (done ++ rest.take (min count rest.length)) ++ rest := by
        rw [hzero, List.take_zero, List.append_nil, hdone]
      exact passing_grown h hgrown hsame hrest
    · simp only [if_neg hzero]
      exact hkeep

/-- **`write_all` of a chunk**: all of it is sent, or a call has failed. -/
theorem wp_write (h : Quiet s) (hgrown : Grown self slotIndex before s.passed s.map)
    (hopen : s.shut source.other = false)
    {chunk : List Byte} (hchunk : chunk ≠ []) (tr : List RelayEv)
    (hreceived : ∃ ev, tr.getLast? = some ev ∧ ev.1 = .recv source) :
    wp (Traced (wireRel slotIndex)) (Moment self slotIndex before) (writeAll source.other chunk)
      (fun ok x => if ok then x.1 = s.passing source chunk chunk ∧ Counting x.2
        else WriteFailed x.2 ∧ Moment self slotIndex before x ∧
          Grown self slotIndex before x.1.passed x.1.map)
      (s.passing source chunk [], tr) := by
  have hfirst : Passing s source chunk chunk (s.passing source chunk [], tr) := by
    obtain ⟨ev, hlast, hev⟩ := hreceived
    exact ⟨⟨[], rfl, rfl⟩, ⟨ev, hlast, .inl hev⟩, fun hempty => absurd hempty hchunk⟩
  refine (Lib.wp_writeAll (J := Passing s source chunk) (F := fun x => WriteFailed x.2 ∧
    Moment self slotIndex before x ∧ Grown self slotIndex before x.1.passed x.1.map)
    (fun _ _ hx => hx.moment h hgrown hopen) (fun x hx => hx.2.1)
    (fun _ _ hx hrest _ _ hr => hx.send h hgrown hopen hrest hr) chunk hfirst).mono (fun _ hI => hI) ?_
  rintro ok ⟨s', tr'⟩ hend
  cases ok with
  | false => exact hend
  | true =>
    obtain ⟨⟨done, hdone, hs'⟩, -, hcounting⟩ := hend
    rw [List.append_nil] at hdone
    subst hdone
    exact ⟨hs', hcounting rfl⟩

/-- The chunk has been written. -/
theorem Quiet.passed (h : Quiet s) (hwatched : s.watched source = true) (chunk : List Byte)
    (m : StatsMap) : Quiet { s.passing source chunk chunk with map := m } where
  sent side := by
    unfold Wires.passing
    by_cases hside : side = source
    · subst hside
      simp [h.sent]
    · have hother : side.other ≠ source.other := fun heq => hside (other_inj.mp heq)
      simp only [Function.update_of_ne hside, Function.update_of_ne hother]
      exact h.sent side
  watched := h.watched
  shut := h.shut
  late := h.late

/-! ## One direction -/

/-- The owner of the slot counts a chunk. -/
theorem wp_count {bytes : Side → Nat} {m : StatsMap} (hgrown : Grown self slotIndex before bytes m)
    (source : Side) (received : Nat) :
    wp (sharedRel slotIndex) (fun _ => True)
      (match source with
        | .client => Code.fpStatsAdd self slotIndex (BitVec.ofNat 64 received) 0
        | .upstream => Code.fpStatsAdd self slotIndex 0 (BitVec.ofNat 64 received))
      (fun _ m' => Grown self slotIndex before
        (fun side => bytes side + if side = source then received else 0) m') m := by
  by_cases hown : ∃ slot, Owns self slotIndex before slot
  swap
  · exact (wp_runs _ m).post fun _ _ _ _ slot hslot => absurd ⟨slot, hslot⟩ hown
  obtain ⟨slot, hslot⟩ := hown
  obtain ⟨slot', hslot', hbytes⟩ := hgrown slot hslot
  obtain ⟨index, rfl, -, -⟩ := StatsMap.slot_eq_some hslot'.1
  -- the two branches add to one of the two counters
  have hadd : ∀ up down : BitVec 64, (∀ side : Side, (slot'.add up down).bytes side.direction =
      slot.bytes side.direction + BitVec.ofNat 64 (bytes side + if side = source then received else 0)) →
      wp (sharedRel index) (fun _ => True) (Code.fpStatsAdd self index up down)
        (fun _ m' => Grown self index before
          (fun side => bytes side + if side = source then received else 0) m') m := by
    intro up down hsum
    refine (wp_add_own up down hslot').post fun _ m' _ hm' slot₁ hslot₁ => ?_
    obtain rfl : slot = slot₁ := Option.some.inj (hslot.1.symm.trans hslot₁.1)
    exact ⟨_, hm', hsum⟩
  have hup := hbytes .client
  have hdown := hbytes .upstream
  simp only [Side.direction, StatsConn.bytes] at hup hdown
  cases source with
  | client =>
    refine hadd _ _ fun side => ?_
    cases side with
    | client => simp [StatsConn.add, Side.direction, StatsConn.bytes, hup, BitVec.ofNat_add, BitVec.add_assoc]
    | upstream => simp [StatsConn.add, Side.direction, StatsConn.bytes, hdown]
  | upstream =>
    refine hadd _ _ fun side => ?_
    cases side with
    | client => simp [StatsConn.add, Side.direction, StatsConn.bytes, hup]
    | upstream => simp [StatsConn.add, Side.direction, StatsConn.bytes, hdown, BitVec.ofNat_add, BitVec.add_assoc]

/-- The counters are a part of the state. -/
def mapLens : Lens Wires StatsMap where
  get := Wires.map
  put s m := { s with map := m }
  get_put _ _ := rfl
  put_get _ := rfl
  put_put _ _ _ := rfl

theorem map_embeds (slotIndex : Int) :
    Embeds RelayOp.map (sharedRel slotIndex) (wireRel slotIndex) mapLens := by
  rintro e s r s₁ ⟨c, hc⟩
  obtain ⟨rfl, rfl⟩ := Prod.mk.inj hc
  exact ⟨⟨c.map, rfl⟩, rfl⟩

/-- **The count of a chunk** that has been written. -/
theorem wp_countChunk (h : Quiet s) (hgrown : Grown self slotIndex before s.passed s.map)
    (hwatched : s.watched source = true) (chunk : List Byte) {tr : List RelayEv} (htr : Counting tr) :
    wp (Traced (wireRel slotIndex)) (Moment self slotIndex before)
      (countChunk self slotIndex source chunk.length)
      (fun _ x => Quiet x.1 ∧ Grown self slotIndex before x.1.passed x.1.map)
      (s.passing source chunk chunk, tr) := by
  have hmap := wp_hoist (l := mapLens) (s := s.passing source chunk chunk) (map_embeds slotIndex)
    (wp_count (m := s.map) hgrown source chunk.length)
  have hcalls : (countChunk self slotIndex source chunk.length).Calls fun e => ∃ e', e = .map e' :=
    calls_hoist ((calls_true _).mono fun e _ => ⟨e, rfl⟩)
  refine (hmap.traced_calls hcalls tr).mono ?_ ?_
  · rintro ⟨s', tr'⟩ ⟨⟨-, hs'⟩, tr₁, htr', hmaps⟩
    simp only at hs' htr'
    rw [hs']
    refine ⟨(h.passed hwatched chunk s'.map).faithful tr', .inl ?_⟩
    rw [htr']
    rcases List.eq_nil_or_concat tr₁ with rfl | ⟨tr₂, ev, rfl⟩
    · simpa using htr
    · refine ⟨ev, by simp, .inr (hmaps ev (by simp))⟩
  · rintro _ ⟨s', tr'⟩ ⟨⟨hcount, hs'⟩, -⟩
    simp only at hs' hcount
    rw [hs']
    refine ⟨h.passed hwatched chunk s'.map, ?_⟩
    have hpassed : ∀ side, (s.passing source chunk chunk).passed side =
        s.passed side + if side = source then chunk.length else 0 := by
      intro side
      rw [passed_passing h]
      simp
    have hfun : (s.passing source chunk chunk).passed =
        fun side => s.passed side + if side = source then chunk.length else 0 := funext hpassed
    exact hfun ▸ hcount

/-- `recv` is to be called again, or the side has ended, or it has given a chunk. -/
theorem recv_cases {received r : Transfer (List Byte)} {s' : Wires}
    (h : s.recv source received = (r, s')) :
    (∃ errno, (errno = eintr ∨ errno = eagain) ∧ r = .failed errno ∧ s' = s) ∨
      (((∃ errno, ¬ (errno = eintr ∨ errno = eagain) ∧ r = .failed errno) ∨ r = .done []) ∧
        s' = { s with ended := Function.update s.ended source true }) ∨
      ∃ chunk, chunk ≠ [] ∧ r = .done chunk ∧ s' = s.passing source chunk [] := by
  cases received with
  | failed errno =>
    obtain ⟨rfl, rfl⟩ := Prod.mk.inj h
    by_cases hagain : errno = eintr ∨ errno = eagain
    · exact .inl ⟨errno, hagain, rfl, if_pos hagain⟩
    · exact .inr (.inl ⟨.inl ⟨errno, hagain, rfl⟩, if_neg hagain⟩)
  | done bytes =>
    obtain ⟨rfl, rfl⟩ := Prod.mk.inj h
    by_cases hempty : bytes.take bufferSize = []
    · exact .inr (.inl ⟨.inr (by rw [hempty]), if_pos hempty⟩)
    · refine .inr (.inr ⟨_, hempty, rfl, ?_⟩)
      rw [if_neg hempty]
      simp [Wires.passing]

theorem Quiet.ended (h : Quiet s) (source : Side) :
    Quiet { s with ended := Function.update s.ended source true } where
  sent := h.sent
  watched side := by
    by_cases hside : side = source
    · subst hside
      exact .inr (Function.update_self ..)
    · simp only [Function.update_of_ne hside]
      exact h.watched side
  shut side hshut := by
    obtain ⟨hended, hwatched⟩ := h.shut side hshut
    refine ⟨?_, hwatched⟩
    by_cases hside : side = source
    · subst hside
      exact Function.update_self ..
    · simp only [Function.update_of_ne hside]
      exact hended
  late := h.late

/-- **A side that has ended**: the other one is shut down, with everything sent. -/
theorem wp_endSource (h : Quiet s) (hgrown : Grown self slotIndex before s.passed s.map)
    (hended : s.ended source = true) (tr : List RelayEv) :
    wp (Traced (wireRel slotIndex)) (Moment self slotIndex before) (endSource source)
      (fun ok x => ok = true ∧ Quiet x.1 ∧ Grown self slotIndex before x.1.passed x.1.map) (s, tr) := by
  have hshut : ∀ side, Function.update s.shut source.other true side.other = true →
      side = source ∨ s.shut side.other = true := by
    intro side hside
    by_cases heq : side = source
    · exact .inl heq
    · rw [Function.update_of_ne fun hother => heq (other_inj.mp hother)] at hside
      exact .inr hside
  unfold endSource
  refine wp_bind.mpr (wp_ask_traced.mpr ⟨h.moment hgrown tr, ?_⟩)
  rintro c r s₁ hc
  obtain ⟨rfl, rfl⟩ := Prod.mk.inj hc
  have hmoment : ∀ tr, Moment self slotIndex before
      ({ s with shut := Function.update s.shut source.other true }, tr) := by
    refine fun tr => ⟨⟨(h.faithful tr).order, fun side hside => ?_, h.late⟩, .inr hgrown⟩
    rcases hshut side hside with rfl | hside
    · exact ⟨hended, h.sent side⟩
    · exact ⟨(h.shut side hside).1, h.sent side⟩
  refine ⟨hmoment _, wp_bind.mpr (wp_ask_traced.mpr ⟨hmoment _, ?_⟩)⟩
  rintro c r s₂ hc
  obtain ⟨rfl, rfl⟩ := Prod.mk.inj hc
  have hquiet : Quiet { s with
      shut := Function.update s.shut source.other true
      watched := Function.update s.watched source false } := by
    refine ⟨h.sent, fun side => ?_, fun side hside => ?_, h.late⟩
    · by_cases heq : side = source
      · subst heq
        exact .inr hended
      · simp only [Function.update_of_ne heq]
        exact h.watched side
    · by_cases heq : side = source
      · subst heq
        exact ⟨hended, Function.update_self ..⟩
      · simp only [Function.update_of_ne heq]
        exact h.shut side ((hshut side hside).resolve_left heq)
  exact ⟨hquiet.moment hgrown _, wp_ret.mpr ⟨hquiet.moment hgrown _, rfl, hquiet, hgrown⟩⟩

/-- **One direction of a round.** -/
theorem wp_forward (h : Quiet s) (hgrown : Grown self slotIndex before s.passed s.map) (source : Side)
    (revents : Bool) (tr : List RelayEv) :
    wp (Traced (wireRel slotIndex)) (Moment self slotIndex before) (forward self slotIndex source revents)
      (fun ok x => (if ok then Quiet x.1 else WriteFailed x.2) ∧
        Grown self slotIndex before x.1.passed x.1.map) (s, tr) := by
  unfold forward
  refine wp_bind.mpr (wp_ask_traced.mpr ⟨h.moment hgrown tr, ?_⟩)
  rintro c r s₁ hc
  obtain ⟨rfl, rfl⟩ := Prod.mk.inj hc
  refine ⟨h.moment hgrown _, ?_⟩
  by_cases hskip : (!s.watched source || !revents) = true
  · rw [if_pos hskip]
    exact wp_ret.mpr ⟨h.moment hgrown _, h, hgrown⟩
  rw [if_neg hskip]
  have hwatched : s.watched source = true := by
    by_contra hnot
    simp [hnot] at hskip
  refine wp_bind.mpr (wp_ask_traced.mpr ⟨h.moment hgrown _, ?_⟩)
  rintro c r s₁ hc
  rcases recv_cases hc with ⟨errno, hagain, rfl, rfl⟩ | ⟨hend, rfl⟩ | ⟨chunk, hchunk, rfl, rfl⟩
  · refine ⟨h.moment hgrown _, ?_⟩
    simp only [if_pos hagain]
    exact wp_ret.mpr ⟨h.moment hgrown _, h, hgrown⟩
  · have hquiet := h.ended source
    refine ⟨hquiet.moment hgrown _, ?_⟩
    have hmark : (Function.update s.ended source true) source = true := Function.update_self ..
    have hended := wp_endSource hquiet hgrown hmark
    rcases hend with ⟨errno, hagain, rfl⟩ | rfl
    · simp only [if_neg hagain]
      exact (hended _).mono (fun _ hI => hI) (by rintro _ _ ⟨rfl, hrest⟩; exact hrest)
    · exact (hended _).mono (fun _ hI => hI) (by rintro _ _ ⟨rfl, hrest⟩; exact hrest)
  · have hreceived : ∀ tr : List RelayEv,
        ∃ ev, (tr ++ [(⟨.recv source, .done chunk⟩ : RelayEv)]).getLast? = some ev ∧ ev.1 = .recv source :=
      fun tr => ⟨_, getLast_snoc _ _, rfl⟩
    have hwrite := fun tr => wp_write h hgrown (h.open hwatched) hchunk _ (hreceived tr)
    refine ⟨(hwrite _).now, ?_⟩
    simp only [if_neg hchunk]
    refine wp_bind.mpr ((hwrite _).mono (fun _ hI => hI) ?_)
    rintro ok ⟨s', tr'⟩ hwritten
    cases ok with
    | false => exact wp_ret.mpr ⟨hwritten.2.1, hwritten.1, hwritten.2.2⟩
    | true =>
      obtain ⟨hs', hcounting⟩ := hwritten
      simp only at hs'
      subst hs'
      refine wp_bind.mpr ((wp_countChunk h hgrown hwatched chunk hcounting).mono (fun _ hI => hI) ?_)
      rintro _ ⟨s'', tr''⟩ ⟨hquiet, hgrown'⟩
      exact wp_ret.mpr ⟨hquiet.moment hgrown' _, hquiet, hgrown'⟩

end

/-! ## Runs -/

/-- Why the loop has ended. -/
def Returned (tr : List RelayEv) (s : Wires) : Prop :=
  (∀ side, s.ended side = true) ∨ WriteFailed tr ∨ PollEnded tr ∨ Cleared tr

section

variable {self slotIndex : Int} {before : StatsMap} {s : Wires}

theorem wp_round (h : Quiet s) (hgrown : Grown self slotIndex before s.passed s.map) (running : Bool)
    (tr : List RelayEv) :
    wp (Traced (wireRel slotIndex)) (Moment self slotIndex before) (round self slotIndex running)
      (fun o x => (if o = none then Quiet x.1 else Returned x.2 x.1) ∧
        Grown self slotIndex before x.1.passed x.1.map) (s, tr ++ [⟨.keepRunning, running⟩]) := by
  unfold round
  cases running with
  | false => exact wp_ret.mpr ⟨h.moment hgrown _, .inr (.inr (.inr (getLast_snoc _ _))), hgrown⟩
  | true =>
    refine wp_bind.mpr (wp_ask_traced.mpr ⟨h.moment hgrown _, ?_⟩)
    rintro c r s₁ hc
    obtain ⟨rfl, rfl⟩ := Prod.mk.inj hc
    refine ⟨h.moment hgrown _, ?_⟩
    cases hpolled : c.polled with
    | failed errno =>
      refine wp_ret.mpr ⟨h.moment hgrown _, ?_, hgrown⟩
      by_cases hintr : errno = eintr
      · rw [if_pos hintr]
        exact h
      · rw [if_neg hintr]
        exact .inr (.inr (.inl ⟨_, getLast_snoc _ _, .inr ⟨errno, hintr, rfl⟩⟩))
    | timedOut =>
      refine wp_ret.mpr ⟨h.moment hgrown _, ?_, hgrown⟩
      exact .inr (.inr (.inl ⟨_, getLast_snoc _ _, .inl rfl⟩))
    | ready client upstream =>
      refine wp_seq (wp_forward h hgrown .client client _) (fun _ hI => hI) ?_
      rintro ok ⟨s₁, tr₁⟩ hmoment₁ ⟨hnext, hgrown₁⟩
      cases ok with
      | false => exact wp_ret.mpr ⟨hmoment₁, .inr (.inl hnext), hgrown₁⟩
      | true =>
        refine wp_seq (wp_forward hnext hgrown₁ .upstream upstream _) (fun _ hI => hI) ?_
        rintro ok ⟨s₂, tr₂⟩ hmoment₂ ⟨hlast, hgrown₂⟩
        cases ok with
        | false => exact wp_ret.mpr ⟨hmoment₂, .inr (.inl hlast), hgrown₂⟩
        | true =>
          have hquiet : Quiet s₂ := hlast
          refine wp_bind.mpr (wp_ask_traced.mpr ⟨hmoment₂, ?_⟩)
          rintro c r s₃ hc
          obtain ⟨rfl, rfl⟩ := Prod.mk.inj hc
          refine ⟨hquiet.moment hgrown₂ _, ?_⟩
          cases hclient : s₂.watched .client with
          | true => exact wp_ret.mpr ⟨hquiet.moment hgrown₂ _, hquiet, hgrown₂⟩
          | false =>
            refine wp_bind.mpr (wp_ask_traced.mpr ⟨hquiet.moment hgrown₂ _, ?_⟩)
            rintro c r s₃ hc
            obtain ⟨rfl, rfl⟩ := Prod.mk.inj hc
            refine ⟨hquiet.moment hgrown₂ _, ?_⟩
            cases hupstream : s₂.watched .upstream with
            | true => exact wp_ret.mpr ⟨hquiet.moment hgrown₂ _, hquiet, hgrown₂⟩
            | false =>
              refine wp_ret.mpr ⟨hquiet.moment hgrown₂ _, .inl fun side => ?_, hgrown₂⟩
              refine (hquiet.watched side).resolve_left ?_
              cases side with
              | client => simp [hclient]
              | upstream => simp [hupstream]

theorem quiet_start (map : StatsMap) : Quiet (.start map) where
  sent _ := rfl
  watched _ := .inl rfl
  shut _ hshut := Bool.noConfusion hshut
  late := rfl

theorem grown_start (self slotIndex : Int) (map : StatsMap) :
    Grown self slotIndex map (Wires.start map).passed map := by
  intro slot hslot
  refine ⟨slot, hslot, fun source => ?_⟩
  simp [Wires.passed, Wires.start, passed]

end

/-- **What is received is passed on**, in order and completely, and it is counted. -/
theorem relay_faithful (self slotIndex : Int) (map : StatsMap) {tr : List RelayEv}
    {left : RelayProg Unit} {s : Wires}
    (h : Steps (wireRel slotIndex) (relay self slotIndex) (.start map) tr left s) :
    Faithful tr s ∧ (Counting tr ∨ Grown self slotIndex map s.passed s.map) ∧
      (left.result = some () → Returned tr s ∧ Grown self slotIndex map s.passed s.map) := by
  have hloop : wp (Traced (wireRel slotIndex)) (Moment self slotIndex map) (relay self slotIndex)
      (fun _ x => Returned x.2 x.1 ∧ Grown self slotIndex map x.1.passed x.1.map)
      (.start map, []) := by
    refine wp_loop (J := fun x => Quiet x.1 ∧ Grown self slotIndex map x.1.passed x.1.map)
      (B := fun _ x => Moment self slotIndex map x ∧ Returned x.2 x.1 ∧
        Grown self slotIndex map x.1.passed x.1.map) ?_ ?_ ?_ ⟨quiet_start map, grown_start self slotIndex map⟩
    · rintro ⟨s, tr⟩ ⟨hquiet, hgrown⟩
      exact hquiet.moment hgrown tr
    · rintro ⟨s, tr⟩ ⟨hquiet, hgrown⟩ running ⟨s₁, tr₁⟩ ⟨⟨c, hc⟩, htr⟩
      obtain ⟨rfl, hs₁⟩ := Prod.mk.inj hc
      simp only at hs₁ htr
      subst hs₁ htr
      refine (wp_round hquiet hgrown c.running tr).post fun o x hmoment hx => ?_
      cases o with
      | none => exact hx
      | some _ => exact ⟨hmoment, hx⟩
    · rintro ⟨⟩ x ⟨hmoment, hreturned⟩
      exact wp_ret.mpr ⟨hmoment, hreturned⟩
  obtain ⟨⟨hfaithful, hcount⟩, hend⟩ := wp_traced hloop h
  exact ⟨hfaithful, hcount, hend ()⟩

/-! ## A chunk, and a loop that is not entered -/

/-- The client has sent one byte, and every call does what it can. -/
def plainOutcome (polled : Polled) : Outcome := ⟨true, polled, .done [7], .done 1, .zero⟩

/-- One round that passes the byte on, and a `poll` that times out. -/
def chunkRun : List Outcome := List.replicate 13 (plainOutcome (.ready true false)) ++ [plainOutcome .timedOut]

/-- The map with a slot of the worker `2`. -/
def ownMap : StatsMap := (fpStatsClaim .zero 2 ⟨0, 0⟩ 0).2

/-- The byte is passed on and counted. -/
theorem relay_faithful_chunk :
    let run := exec (wireSem 0) chunkRun (relay 2 0) (.start ownMap)
    let calls := trace (wireSem 0) chunkRun (relay 2 0) (.start ownMap)
    run.2.sent .upstream = [7] ∧ Faithful calls run.2 ∧ Returned calls run.2 ∧
      Grown 2 0 ownMap run.2.passed run.2.map := by
  intro run calls
  have hdone : run.1.result = some () := by decide +kernel
  obtain ⟨hfaithful, -, hend⟩ := relay_faithful 2 0 ownMap (exec_steps chunkRun _ _)
  obtain ⟨hreturned, hgrown⟩ := hend hdone
  exact ⟨by decide +kernel, hfaithful, hreturned, hgrown⟩

/-- A worker that was forked with `keep_running` cleared relays nothing. -/
theorem relay_cleared : ¬ ∀ (self slotIndex : Int) (map : StatsMap) (tr : List RelayEv) (s : Wires),
    Steps (wireRel slotIndex) (relay self slotIndex) (.start map) tr (.ret ()) s →
    (∀ side, s.ended side = true) ∨ WriteFailed tr ∨ PollEnded tr := by
  intro h
  have hrun : Steps (wireRel 0) (relay 2 0) (.start ownMap) [⟨.keepRunning, false⟩] (.ret ())
      (.start ownMap) := .step rfl ⟨⟨false, .timedOut, .done [], .done 0, .zero⟩, rfl⟩ (.refl _ _)
  rcases h 2 0 ownMap _ _ hrun with hended | hfailed | hpoll
  · exact Bool.noConfusion (hended .client)
  · obtain ⟨side, bytes, r, hlast, -⟩ := hfailed
    simp at hlast
  · obtain ⟨r, hlast, -⟩ := hpoll
    simp at hlast

end FreeProxy.Relay
