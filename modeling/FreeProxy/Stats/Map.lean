import FreeProxy.Lib.Ipv4

/-!
# The statistics map

`struct fp_stats_map` of `src/stats.c` and the four calls that change it: `fp_stats_claim`,
`fp_stats_add`, `fp_stats_release` and `fp_stats_clear_pid`, each as a whole; `FreeProxy.Stats.Code`
takes them apart into their loads and stores. The map is the one that `fp_stats_create` makes, with
`slot_count` `FP_MAX_CLIENTS`; a process that has no map does nothing in any of them.

`self` is the caller's `getpid()`, and `now` what `monotonic_ms` gives.

Out of scope: how the map is opened, reopened and closed.
-/

namespace FreeProxy

open Lib

/-- `FP_MAX_CLIENTS`. -/
def fpMaxClients : Nat := 128

/-- `struct fp_stats_conn`. -/
structure StatsConn where
  /-- `active != 0` -/
  active : Bool
  destAddr : Addr
  destPort : BitVec 16
  pid : Int
  bytesUp : BitVec 64
  bytesDown : BitVec 64
  startMs : BitVec 64
  deriving DecidableEq

/-- A slot that nobody has claimed since the map was cleared, and a released one. -/
def StatsConn.zero : StatsConn := ⟨false, 0, 0, 0, 0, 0, 0⟩

/-- `struct fp_stats_map`. -/
structure StatsMap where
  totalUp : BitVec 64
  totalDown : BitVec 64
  slots : List StatsConn
  slots_length : slots.length = fpMaxClients
  deriving DecidableEq

/-- The address of a connection. -/
structure Destination where
  addr : Addr
  port : BitVec 16
  deriving DecidableEq

/-- The map after `memset` in `fp_stats_create`. -/
def StatsMap.zero : StatsMap := ⟨0, 0, List.replicate fpMaxClients .zero, List.length_replicate⟩

namespace StatsMap

/-- One slot, written. -/
def modify (m : StatsMap) (index : Nat) (f : StatsConn → StatsConn) : StatsMap :=
  { m with slots := m.slots.modify index f, slots_length := by simp [m.slots_length] }

/-- `&stats_map->slots[slot_index]`, after the range check. -/
def slot (m : StatsMap) (slotIndex : Int) : Option StatsConn :=
  if slotIndex < 0 then none else m.slots[slotIndex.toNat]?

variable {m : StatsMap} {index : Nat} {f : StatsConn → StatsConn}

@[simp] theorem modify_slots : (m.modify index f).slots = m.slots.modify index f := rfl

@[simp] theorem modify_totalUp : (m.modify index f).totalUp = m.totalUp := rfl

@[simp] theorem modify_totalDown : (m.modify index f).totalDown = m.totalDown := rfl

theorem ext' {m₁ m₂ : StatsMap} (hup : m₁.totalUp = m₂.totalUp) (hdown : m₁.totalDown = m₂.totalDown)
    (hslots : m₁.slots = m₂.slots) : m₁ = m₂ := by
  cases m₁
  cases m₂
  simp_all

theorem lt_of_slot {slot : StatsConn} (h : m.slots[index]? = some slot) : index < fpMaxClients := by
  rw [← m.slots_length]
  exact (List.getElem?_eq_some_iff.mp h).1

/-- The range check of the code is the bound of the array. -/
theorem slot_eq_some {slotIndex : Int} {slot : StatsConn} (h : m.slot slotIndex = some slot) :
    ∃ index : Nat, slotIndex = index ∧ index < fpMaxClients ∧ m.slots[index]? = some slot := by
  unfold StatsMap.slot at h
  split at h
  · simp at h
  · exact ⟨slotIndex.toNat, by omega, lt_of_slot h, h⟩

end StatsMap

/-! ## The calls -/

/-- The slot after a successful `fp_stats_claim`. -/
def StatsConn.claimed (self : Int) (destination : Destination) (now : BitVec 64) : StatsConn :=
  ⟨true, destination.addr, destination.port, self, 0, 0, now⟩

/-- `fp_stats_claim`: the first slot that is not active is taken. -/
def fpStatsClaim (m : StatsMap) (self : Int) (destination : Destination) (now : BitVec 64) :
    Int × StatsMap :=
  match m.slots.findIdx? (fun slot => !slot.active) with
  | some index => (index, m.modify index fun _ => .claimed self destination now)
  | none => (-1, m)

/-- The slot with more bytes. -/
def StatsConn.add (bytesUp bytesDown : BitVec 64) (slot : StatsConn) : StatsConn :=
  { slot with bytesUp := slot.bytesUp + bytesUp, bytesDown := slot.bytesDown + bytesDown }

/-- An amount of `0` is not added, which changes nothing. -/
def fpStatsAdd (m : StatsMap) (self slotIndex : Int) (bytesUp bytesDown : BitVec 64) : StatsMap :=
  match m.slot slotIndex with
  | none => m
  | some slot =>
    if slot.active = false ∨ slot.pid ≠ self then m
    else
      { m.modify slotIndex.toNat (.add bytesUp bytesDown) with
        totalUp := m.totalUp + bytesUp
        totalDown := m.totalDown + bytesDown }

/-- `fp_stats_release`: a slot with another pid stays as it is. -/
def fpStatsRelease (m : StatsMap) (self slotIndex : Int) : StatsMap :=
  match m.slot slotIndex with
  | none => m
  | some slot => if slot.pid ≠ self then m else m.modify slotIndex.toNat fun _ => .zero

/-- What `fp_stats_clear_pid` makes of a slot. -/
def StatsConn.clearPid (pid : Int) (slot : StatsConn) : StatsConn :=
  if slot.active = true ∧ slot.pid = pid then .zero else slot

/-- `fp_stats_clear_pid`: every active slot of this pid is cleared. -/
def fpStatsClearPid (m : StatsMap) (pid : Int) : StatsMap :=
  if pid ≤ 1 then m
  else
    { m with
      slots := m.slots.map (.clearPid pid)
      slots_length := by simp [m.slots_length] }

end FreeProxy
