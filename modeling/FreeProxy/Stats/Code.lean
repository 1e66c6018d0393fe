import FreeProxy.Lib.Protocol
import FreeProxy.Lib.Terminates
import FreeProxy.Stats.Map

/-!
# The calls, one access at a time

The calls of `src/stats.c` on the shared map as programs: each compare-and-swap, load and store of
the source is one call of its own, so that another process may come in between. Alone on the map a
program does what `FreeProxy.Stats.Map` says of the whole call (`claim_alone`, `add_alone`,
`release_alone`, `clearPid_alone`).

`handleClient` is the worker of `src/proxy.c` with its use of the map; what it does to sockets and
credentials is answered by the environment.

Out of scope: the memory order of the accesses. They act one after the other.
-/

namespace FreeProxy

open Lib

/-- From the client to the server, and back. -/
inductive Direction where
  | up
  | down
  deriving DecidableEq

/-- `bytes_up` or `bytes_down`. -/
def StatsConn.bytes (slot : StatsConn) : Direction → BitVec 64
  | .up => slot.bytesUp
  | .down => slot.bytesDown

/-- A store to `bytes_up` or `bytes_down`. -/
def StatsConn.setBytes (slot : StatsConn) : Direction → BitVec 64 → StatsConn
  | .up, value => { slot with bytesUp := value }
  | .down, value => { slot with bytesDown := value }

/-- `total_up` or `total_down`, with more. -/
def StatsMap.addTotal (m : StatsMap) : Direction → BitVec 64 → StatsMap
  | .up, bytes => { m with totalUp := m.totalUp + bytes }
  | .down, bytes => { m with totalDown := m.totalDown + bytes }

/-- A store to one field of a slot. -/
inductive SlotStore where
  | destAddr (value : Addr)
  | destPort (value : BitVec 16)
  | pid (value : Int)
  | bytes (direction : Direction) (value : BitVec 64)
  | startMs (value : BitVec 64)
  /-- `__atomic_store_n(&slot->active, 0u, __ATOMIC_RELEASE)` -/
  | inactive
  deriving DecidableEq

/-- The slot after a store. -/
def SlotStore.apply (slot : StatsConn) : SlotStore → StatsConn
  | .destAddr value => { slot with destAddr := value }
  | .destPort value => { slot with destPort := value }
  | .pid value => { slot with pid := value }
  | .bytes direction value => slot.setBytes direction value
  | .startMs value => { slot with startMs := value }
  | .inactive => { slot with active := false }

/-- One access to the map. -/
inductive MapOp where
  /-- `__sync_bool_compare_and_swap(&slot->active, 0u, 1u)` -/
  | cas (index : Nat)
  | loadActive (index : Nat)
  | loadPid (index : Nat)
  | loadBytes (index : Nat) (direction : Direction)
  | store (index : Nat) (field : SlotStore)
  /-- `__sync_fetch_and_add` to `total_up` or `total_down` -/
  | addTotal (direction : Direction) (bytes : BitVec 64)
  deriving DecidableEq

/-- What an access answers. -/
abbrev MapResp : MapOp → Type
  | .cas _ | .loadActive _ => Bool
  | .loadPid _ => Int
  | .loadBytes _ _ => BitVec 64
  | .store _ _ | .addTotal _ _ => Unit

/-- The slot with this index, `StatsConn.zero` beyond the array. -/
def StatsMap.at (m : StatsMap) (index : Nat) : StatsConn := m.slots[index]?.getD .zero

/-- What an access does. -/
def mapSem : Sem MapOp MapResp Unit StatsMap
  | .cas index, _, m =>
    if (m.at index).active then (false, m)
    else (true, m.modify index fun slot => { slot with active := true })
  | .loadActive index, _, m => ((m.at index).active, m)
  | .loadPid index, _, m => ((m.at index).pid, m)
  | .loadBytes index direction, _, m => ((m.at index).bytes direction, m)
  | .store index field, _, m => ((), m.modify index fun slot => field.apply slot)
  | .addTotal direction bytes, _, m => ((), m.addTotal direction bytes)

/-- A program that accesses the map. -/
abbrev MapProg (α : Type) := Prog MapOp MapResp α

/-- One access. -/
abbrev MapOp.ask (e : MapOp) : MapProg (MapResp e) := Prog.ask e

namespace Code

/-- Stores to a slot, one after the other. -/
def storeAll (index : Nat) : List SlotStore → MapProg Unit
  | [] => pure ()
  | field :: fields => do
    MapOp.ask (.store index field)
    storeAll index fields

/-- The loop of `fp_stats_claim` from `index` on, with `remaining` slots to try. -/
def claimFrom (self : Int) (destination : Destination) (now : BitVec 64) :
    (remaining index : Nat) → MapProg Int
  | 0, _ => pure (-1)
  | remaining + 1, index => do
    if ← MapOp.ask (.cas index) then do
      storeAll index [.destAddr destination.addr, .destPort destination.port, .pid self,
        .bytes .up 0, .bytes .down 0, .startMs now]
      pure index
    else claimFrom self destination now remaining (index + 1)

/-- `fp_stats_claim`. -/
def fpStatsClaim (self : Int) (destination : Destination) (now : BitVec 64) : MapProg Int :=
  claimFrom self destination now fpMaxClients 0

/-- `slot_index < 0 || slot_index >= stats_map->slot_count`, the other way round. -/
def inRange (slotIndex : Int) : Bool := decide (0 ≤ slotIndex ∧ slotIndex < fpMaxClients)

/-- `slot->bytes_up += bytes_up` and the same to the total, when there is something to add. -/
def addBytes (index : Nat) (direction : Direction) (bytes : BitVec 64) : MapProg Unit :=
  if bytes > 0 then do
    let before ← MapOp.ask (.loadBytes index direction)
    MapOp.ask (.store index (.bytes direction (before + bytes)))
    MapOp.ask (.addTotal direction bytes)
  else pure ()

/-- `fp_stats_add`. -/
def fpStatsAdd (self slotIndex : Int) (bytesUp bytesDown : BitVec 64) : MapProg Unit :=
  if !inRange slotIndex then pure () else do
  if !(← MapOp.ask (.loadActive slotIndex.toNat)) then pure () else do
  let pid ← MapOp.ask (.loadPid slotIndex.toNat)
  if pid ≠ self then pure () else do
  addBytes slotIndex.toNat .up bytesUp
  addBytes slotIndex.toNat .down bytesDown

/-- The stores that give a slot back; `active` comes last. -/
def releaseStores : List SlotStore :=
  [.bytes .up 0, .bytes .down 0, .destAddr 0, .destPort 0, .pid 0, .startMs 0, .inactive]

/-- `fp_stats_release`. -/
def fpStatsRelease (self slotIndex : Int) : MapProg Unit :=
  if !inRange slotIndex then pure () else do
  let pid ← MapOp.ask (.loadPid slotIndex.toNat)
  if pid ≠ self then pure () else storeAll slotIndex.toNat releaseStores

/-- The loop of `fp_stats_clear_pid` from `index` on, with `remaining` slots to look at. -/
def clearFrom (pid : Int) : (remaining index : Nat) → MapProg Unit
  | 0, _ => pure ()
  | remaining + 1, index => do
    if ← MapOp.ask (.loadActive index) then do
      let held ← MapOp.ask (.loadPid index)
      if held = pid then storeAll index releaseStores
      clearFrom pid remaining (index + 1)
    else clearFrom pid remaining (index + 1)

/-- `fp_stats_clear_pid`. -/
def fpStatsClearPid (pid : Int) : MapProg Unit :=
  if pid ≤ 1 then pure () else clearFrom pid fpMaxClients 0

end Code

/-! ## Alone on the map -/

/-- The accesses of a process that is alone. -/
abbrev mapRel : Rel MapOp MapResp StatsMap := mapSem.rel

theorem wp_access {α : Type} {e : MapOp} {k : MapResp e → MapProg α} {Q : α → StatsMap → Prop}
    {m m' : StatsMap} {r : MapResp e} (hsem : mapSem e () m = (r, m'))
    (h : wp mapRel (fun _ => True) (k r) Q m') :
    wp mapRel (fun _ => True) ((MapOp.ask e).bind k) Q m := by
  rw [wp_bind, wp_ask]
  refine ⟨trivial, ?_⟩
  rintro r' m'' ⟨⟨⟩, hr⟩
  obtain ⟨rfl, rfl⟩ := Prod.mk.inj (hsem.symm.trans hr)
  exact ⟨trivial, h⟩

theorem StatsMap.modify_modify (m : StatsMap) (index : Nat) (f g : StatsConn → StatsConn) :
    (m.modify index f).modify index g = m.modify index (g ∘ f) :=
  StatsMap.ext' rfl rfl (List.modify_modify_eq f g index m.slots)

theorem StatsMap.at_of_slot {m : StatsMap} {index : Nat} {slot : StatsConn}
    (h : m.slots[index]? = some slot) : m.at index = slot := by
  simp [StatsMap.at, h]

theorem StatsMap.slot_at {m : StatsMap} {index : Nat} (h : index < fpMaxClients) :
    m.slots[index]? = some (m.at index) := by
  rw [← m.slots_length] at h
  simp [StatsMap.at, List.getElem?_eq_getElem h]

namespace Code

theorem wp_storeAll (index : Nat) : ∀ (fields : List SlotStore) (m : StatsMap),
    wp mapRel (fun _ => True) (storeAll index fields)
      (fun _ m' => m' = m.modify index fun slot => fields.foldl SlotStore.apply slot) m
  | [], m => by
    refine wp_ret.mpr ⟨trivial, StatsMap.ext' rfl rfl (List.ext_getElem? fun i => ?_)⟩
    simp [List.getElem?_modify]
  | field :: fields, m => by
    refine wp_access rfl ?_
    refine (wp_storeAll index fields _).post fun _ m' _ hm' => ?_
    rw [hm']
    exact StatsMap.modify_modify m index _ _

theorem wp_claimFrom (self : Int) (destination : Destination) (now : BitVec 64) (m : StatsMap) :
    ∀ remaining index, index + remaining = fpMaxClients →
      (∀ i < index, (m.at i).active = true) →
      wp mapRel (fun _ => True) (claimFrom self destination now remaining index)
        (fun result m' => (result, m') = FreeProxy.fpStatsClaim m self destination now) m
  | 0, index, hindex, hbefore => by
    have hfull : m.slots.findIdx? (fun slot => !slot.active) = none := by
      rw [List.findIdx?_eq_none_iff]
      intro slot hslot
      obtain ⟨i, hi, rfl⟩ := List.mem_iff_getElem.mp hslot
      have hlt : i < index := by
        have := m.slots_length
        omega
      have hat := StatsMap.at_of_slot (List.getElem?_eq_getElem hi)
      simpa [← hat] using hbefore i hlt
    refine wp_ret.mpr ⟨trivial, ?_⟩
    simp [FreeProxy.fpStatsClaim, hfull]
  | remaining + 1, index, hindex, hbefore => by
    have hslot : m.slots[index]? = some (m.at index) := StatsMap.slot_at (by omega)
    by_cases hactive : (m.at index).active = true
    · have hcas : mapSem (.cas index) () m = (false, m) := if_pos hactive
      refine wp_access hcas ?_
      refine wp_claimFrom self destination now m remaining (index + 1) (by omega) fun i hi => ?_
      rcases Nat.lt_succ_iff_lt_or_eq.mp hi with hi | rfl
      · exact hbefore i hi
      · exact hactive
    · have hfind : m.slots.findIdx? (fun slot => !slot.active) = some index := by
        obtain ⟨hlt, hget⟩ := List.getElem?_eq_some_iff.mp hslot
        refine List.findIdx?_eq_some_iff_getElem.mpr ⟨hlt, by simpa [hget] using hactive, ?_⟩
        intro i hi
        have hat := StatsMap.at_of_slot (List.getElem?_eq_getElem (hi.trans hlt))
        simpa [← hat] using hbefore i hi
      have hcas : mapSem (.cas index) () m =
          (true, m.modify index fun slot => { slot with active := true }) := if_neg hactive
      refine wp_access hcas ?_
      refine wp_seq (wp_storeAll index _ _) (fun _ _ => trivial) fun _ m' _ hm' => ?_
      refine wp_ret.mpr ⟨trivial, ?_⟩
      rw [hm', StatsMap.modify_modify]
      simp only [FreeProxy.fpStatsClaim, hfind]
      rfl

/-- **Alone, `fp_stats_claim` takes the first free slot.** -/
theorem claim_alone (self : Int) (destination : Destination) (now : BitVec 64) (m : StatsMap) :
    wp mapRel (fun _ => True) (fpStatsClaim self destination now)
      (fun result m' => (result, m') = FreeProxy.fpStatsClaim m self destination now) m :=
  wp_claimFrom self destination now m fpMaxClients 0 (by simp) (by simp)

/-- A slot index in the range is the index of a slot, and no other one is. -/
theorem inRange_cases (m : StatsMap) (slotIndex : Int) :
    (inRange slotIndex = false ∧ m.slot slotIndex = none) ∨
      ∃ index : Nat, slotIndex = index ∧ index < fpMaxClients ∧ inRange slotIndex = true ∧
        m.slot slotIndex = some (m.at index) := by
  by_cases h : 0 ≤ slotIndex ∧ slotIndex < fpMaxClients
  · refine .inr ⟨slotIndex.toNat, by omega, by omega, by simpa [inRange] using h, ?_⟩
    rw [StatsMap.slot, if_neg (by omega)]
    exact StatsMap.slot_at (by omega)
  · refine .inl ⟨by simpa [inRange] using h, ?_⟩
    rw [StatsMap.slot]
    by_cases hneg : slotIndex < 0
    · exact if_pos hneg
    · rw [if_neg hneg, List.getElem?_eq_none_iff, m.slots_length]
      omega

/-- A write with what a slot holds is a write with a function of the slot. -/
theorem modify_at (m : StatsMap) (index : Nat) (f : StatsConn → StatsConn → StatsConn) :
    m.modify index (f (m.at index)) = m.modify index fun slot => f slot slot := by
  refine StatsMap.ext' rfl rfl (List.ext_getElem? fun i => ?_)
  simp only [StatsMap.modify_slots, List.getElem?_modify]
  by_cases hi : index = i
  · subst hi
    cases hslot : m.slots[index]? with
    | none => rfl
    | some slot => simp [StatsMap.at_of_slot hslot]
  · simp [hi]

/-- The map after `slot->bytes_up += bytes` and the same for the total. -/
def added (m : StatsMap) (index : Nat) (direction : Direction) (bytes : BitVec 64) : StatsMap :=
  (m.modify index fun slot => slot.setBytes direction (slot.bytes direction + bytes)).addTotal
    direction bytes

theorem added_zero (m : StatsMap) (index : Nat) (direction : Direction) :
    added m index direction 0 = m := by
  have hid : (fun slot : StatsConn => slot.setBytes direction (slot.bytes direction + 0)) = id := by
    funext slot
    cases direction <;> simp [StatsConn.setBytes, StatsConn.bytes]
  have hsame : m.modify index id = m := StatsMap.ext' rfl rfl (List.modify_id index m.slots)
  unfold added
  rw [hid, hsame]
  cases direction <;> exact StatsMap.ext' (by simp [StatsMap.addTotal]) (by simp [StatsMap.addTotal]) rfl

theorem wp_addBytes (index : Nat) (direction : Direction) (bytes : BitVec 64) (m : StatsMap) :
    wp mapRel (fun _ => True) (addBytes index direction bytes)
      (fun _ m' => m' = added m index direction bytes) m := by
  unfold addBytes
  by_cases hbytes : bytes > 0
  swap
  · have hzero : bytes = 0 := by
      by_contra hne
      exact hbytes ((BitVec.pos_iff_ne_zero bytes).mpr hne)
    rw [if_neg hbytes, hzero, added_zero]
    exact wp_ret.mpr ⟨trivial, rfl⟩
  rw [if_pos hbytes]
  refine wp_access rfl (wp_access rfl (wp_ask.mpr ⟨trivial, ?_⟩))
  rintro _ m' ⟨⟨⟩, hm'⟩
  refine ⟨trivial, ?_⟩
  rw [← (Prod.mk.inj hm').2]
  exact congrArg (StatsMap.addTotal · direction bytes)
    (modify_at m index fun read slot => slot.setBytes direction (read.bytes direction + bytes))

theorem add_alone (self slotIndex : Int) (bytesUp bytesDown : BitVec 64) (m : StatsMap) :
    wp mapRel (fun _ => True) (fpStatsAdd self slotIndex bytesUp bytesDown)
      (fun _ m' => m' = FreeProxy.fpStatsAdd m self slotIndex bytesUp bytesDown) m := by
  unfold fpStatsAdd FreeProxy.fpStatsAdd
  rcases inRange_cases m slotIndex with ⟨hrange, hslot⟩ | ⟨index, rfl, -, hrange, hslot⟩
  · simp only [hrange, hslot]
    exact wp_ret.mpr ⟨trivial, rfl⟩
  simp only [hrange, hslot, Int.toNat_natCast]
  refine wp_access rfl ?_
  by_cases hactive : (m.at index).active = true
  swap
  · rw [Bool.not_eq_true] at hactive
    rw [if_pos (by simpa using hactive), if_pos (.inl hactive)]
    exact wp_ret.mpr ⟨trivial, rfl⟩
  rw [if_neg (by simpa using hactive)]
  refine wp_access rfl ?_
  by_cases hpid : (m.at index).pid = self
  swap
  · rw [if_pos hpid, if_pos (.inr hpid)]
    exact wp_ret.mpr ⟨trivial, rfl⟩
  rw [if_neg (not_not.mpr hpid), if_neg (by simp [hactive, hpid])]
  refine wp_seq (wp_addBytes index .up bytesUp m) (fun _ _ => trivial) fun _ m₁ _ hm₁ => ?_
  refine (wp_addBytes index .down bytesDown m₁).post fun _ m₂ _ hm₂ => ?_
  rw [hm₂, hm₁]
  refine StatsMap.ext' rfl rfl ?_
  exact List.modify_modify_eq _ _ index m.slots

theorem release_alone (self slotIndex : Int) (m : StatsMap) :
    wp mapRel (fun _ => True) (fpStatsRelease self slotIndex)
      (fun _ m' => m' = FreeProxy.fpStatsRelease m self slotIndex) m := by
  unfold fpStatsRelease FreeProxy.fpStatsRelease
  rcases inRange_cases m slotIndex with ⟨hrange, hslot⟩ | ⟨index, rfl, -, hrange, hslot⟩
  · simp only [hrange, hslot]
    exact wp_ret.mpr ⟨trivial, rfl⟩
  simp only [hrange, hslot, Int.toNat_natCast]
  refine wp_access rfl ?_
  by_cases hpid : (m.at index).pid = self
  · rw [if_neg (not_not.mpr hpid), if_neg (not_not.mpr hpid)]
    exact wp_storeAll index releaseStores m
  · rw [if_pos hpid, if_pos hpid]
    exact wp_ret.mpr ⟨trivial, rfl⟩

theorem wp_clearFrom {pid : Int} : ∀ (remaining index : Nat) (m : StatsMap),
    index + remaining = fpMaxClients →
    wp mapRel (fun _ => True) (clearFrom pid remaining index)
      (fun _ m' => m'.totalUp = m.totalUp ∧ m'.totalDown = m.totalDown ∧
        ∀ i, m'.slots[i]? =
          m.slots[i]?.map fun slot => if index ≤ i then slot.clearPid pid else slot) m
  | 0, index, m, hindex => by
    refine wp_ret.mpr ⟨trivial, rfl, rfl, fun i => ?_⟩
    cases hslot : m.slots[i]? with
    | none => rfl
    | some slot =>
      have hlt := StatsMap.lt_of_slot hslot
      rw [Option.map_some, if_neg (by omega)]
  | remaining + 1, index, m, hindex => by
    have hslot : m.slots[index]? = some (m.at index) := StatsMap.slot_at (by omega)
    -- what the rest of the loop makes of a map whose slot `index` is done
    have hrest : ∀ m₁ : StatsMap, m₁ = m.modify index (.clearPid pid) →
        wp mapRel (fun _ => True) (clearFrom pid remaining (index + 1))
          (fun _ m' => m'.totalUp = m.totalUp ∧ m'.totalDown = m.totalDown ∧
            ∀ i, m'.slots[i]? =
              m.slots[i]?.map fun slot => if index ≤ i then slot.clearPid pid else slot) m₁ := by
      rintro m₁ rfl
      refine (wp_clearFrom remaining (index + 1) _ (by omega)).post ?_
      rintro _ m' - ⟨hup, hdown, hslots⟩
      refine ⟨hup, hdown, fun i => ?_⟩
      rw [hslots i, StatsMap.modify_slots, List.getElem?_modify]
      by_cases hi : index = i
      · subst hi
        simp [hslot]
      · have hiff : index + 1 ≤ i ↔ index ≤ i := by omega
        simp [hi, hiff]
    have hsame : ∀ h : (m.at index).clearPid pid = m.at index, m = m.modify index (.clearPid pid) := by
      intro h
      refine StatsMap.ext' rfl rfl (List.ext_getElem? fun i => ?_)
      rw [StatsMap.modify_slots, List.getElem?_modify]
      by_cases hi : index = i
      · subst hi
        simp [hslot, h]
      · simp [hi]
    refine wp_access rfl ?_
    by_cases hactive : (m.at index).active = true
    swap
    · rw [if_neg hactive]
      exact hrest m (hsame (if_neg fun h => hactive h.1))
    rw [if_pos hactive]
    refine wp_access rfl ?_
    by_cases hpid : (m.at index).pid = pid
    · rw [if_pos hpid]
      refine wp_seq (wp_storeAll index releaseStores m) (fun _ _ => trivial) fun _ m' _ hm' => ?_
      refine hrest m' ?_
      rw [hm']
      refine StatsMap.ext' rfl rfl (List.ext_getElem? fun i => ?_)
      simp only [StatsMap.modify_slots, List.getElem?_modify]
      by_cases hi : index = i
      · subst hi
        have hclear : (m.at index).clearPid pid = .zero := if_pos ⟨hactive, hpid⟩
        simp only [hslot, if_true, Option.map_eq_map, Option.map_some, hclear]
        rfl
      · simp [hi]
    · rw [if_neg hpid]
      exact hrest m (hsame (if_neg fun h => hpid h.2))

theorem clearPid_alone (pid : Int) (m : StatsMap) :
    wp mapRel (fun _ => True) (fpStatsClearPid pid)
      (fun _ m' => m' = FreeProxy.fpStatsClearPid m pid) m := by
  unfold fpStatsClearPid FreeProxy.fpStatsClearPid
  by_cases hpid : pid ≤ 1
  · rw [if_pos hpid, if_pos hpid]
    exact wp_ret.mpr ⟨trivial, rfl⟩
  rw [if_neg hpid, if_neg hpid]
  refine (wp_clearFrom fpMaxClients 0 m (by simp)).post ?_
  rintro _ m' - ⟨hup, hdown, hslots⟩
  refine StatsMap.ext' hup hdown (List.ext_getElem? fun i => ?_)
  rw [hslots i]
  simp

theorem loopFree_storeAll (index : Nat) : ∀ fields, (storeAll index fields).LoopFree
  | [] => trivial
  | _ :: fields => fun _ => loopFree_storeAll index fields

theorem loopFree_clearFrom (pid : Int) : ∀ remaining index, (clearFrom pid remaining index).LoopFree
  | 0, _ => trivial
  | remaining + 1, index => by
    intro active
    have hrest := loopFree_clearFrom pid remaining (index + 1)
    cases active with
    | false => exact hrest
    | true =>
      intro held
      by_cases hheld : held = pid
      · simpa [hheld] using (loopFree_storeAll index releaseStores).bind fun _ => hrest
      · simpa [hheld] using hrest

/-- **Alone, a clear comes to its end.** -/
theorem clearPid_runs (pid : Int) (m : StatsMap) :
    Runs mapRel (fpStatsClearPid pid) m () (FreeProxy.fpStatsClearPid m pid) := by
  have hfree : (fpStatsClearPid pid).LoopFree := by
    unfold fpStatsClearPid
    by_cases hpid : pid ≤ 1
    · rw [if_pos hpid]
      trivial
    · rw [if_neg hpid]
      exact loopFree_clearFrom pid fpMaxClients 0
  have hanswered : ∀ e m, ∃ r m', mapRel e m r m' := fun e m => ⟨_, _, (), rfl⟩
  obtain ⟨_, m', hrun⟩ := (hfree.terminates m).runs hanswered
  have hm' := (clearPid_alone pid m).runs hrun
  rwa [hm'] at hrun

end Code

/-! ## The worker -/

/-- What a worker does: accesses to the map, and what the environment answers. -/
inductive WorkerOp where
  | map (e : MapOp)
  /-- `set_socket_timeouts` and `getsockopt(SO_ORIGINAL_DST)` -/
  | prepare
  /-- the assignment to `stats_slot` -/
  | setSlot (slotIndex : Int)
  /-- `drop_client_privileges` -/
  | dropPrivileges
  /-- `connect_socks` -/
  | connectSocks
  /-- the next bytes that `relay` has passed on: whether they came from the client, and how many -/
  | relayed
  deriving DecidableEq

/-- What a call of a worker answers. -/
abbrev WorkerResp : WorkerOp → Type
  | .map e => MapResp e
  | .setSlot _ => Unit
  | .relayed => Option (Bool × BitVec 64)
  | .prepare | .dropPrivileges | .connectSocks => Bool

/-- A program of a worker. -/
abbrev WorkerProg (α : Type) := Prog WorkerOp WorkerResp α

/-- One call of a worker. -/
abbrev WorkerOp.ask (e : WorkerOp) : WorkerProg (WorkerResp e) := Prog.ask e

/-- A call on the map, by a worker. -/
abbrev onMap {α : Type} (p : MapProg α) : WorkerProg α := hoist WorkerOp.map p

/-- What `relay` counts; it ends when both sides have ended, on an error or on a timeout. -/
def relay (self slotIndex : Int) : WorkerProg Unit :=
  .loop .relayed
    (fun
      | none => .ret (some ())
      | some (true, bytes) => (onMap (Code.fpStatsAdd self slotIndex bytes 0)).bind fun _ => .ret none
      | some (false, bytes) => (onMap (Code.fpStatsAdd self slotIndex 0 bytes)).bind fun _ => .ret none)
    .ret

/-- `handle_client` in the worker `self`. -/
def handleClient (self : Int) (destination : Destination) (now : BitVec 64) : WorkerProg Unit := do
  if !(← WorkerOp.ask .prepare) then pure () else do
  let statsSlot ← onMap (Code.fpStatsClaim self destination now)
  WorkerOp.ask (.setSlot statsSlot)
  if !(← WorkerOp.ask .dropPrivileges) then onMap (Code.fpStatsRelease self statsSlot) else do
  if ← WorkerOp.ask .connectSocks then relay self statsSlot
  onMap (Code.fpStatsRelease self statsSlot)

end FreeProxy
