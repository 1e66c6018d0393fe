import Mathlib.Data.BitVec
import Mathlib.Logic.Function.Basic
import FreeProxy.Lib.Reach
import FreeProxy.Stats.Map

/-!
# Who has counted what

What the statistics map is for: every slot belongs to the process that claimed it, until that
process releases it or is cleared, and counts what its owner adds. `Ledger` says so without pids in
slots or `active` flags, and is kept from the calls and their results alone.

`Shows`: the map shows what the ledger says. Every call keeps it (`shows_call`), by any process, with
any slot index; a pid may be given to a new process once its old one has been reaped, which clears
it (`shows_reap`).

**`counters_isolated`**: the counters in every state that any sequence of calls leads to.

Out of scope: the order of the accesses within one call (`FreeProxy.Stats.Code` has it).
-/

namespace FreeProxy

open Lib

/-- A process, by its pid and the number of processes that have had this pid before. -/
structure Process where
  pid : Int
  generation : Nat
  deriving DecidableEq

/-- Bytes up and down. -/
abbrev Traffic := BitVec 64 × BitVec 64

/-- The calls on the map. -/
inductive StatsCall where
  | claim (destination : Destination) (now : BitVec 64)
  | add (slotIndex : Int) (bytesUp bytesDown : BitVec 64)
  | release (slotIndex : Int)
  | clearPid (pid : Int)

/-- A call by the process `self`; only a claim has a result. -/
def StatsMap.call (m : StatsMap) (self : Int) : StatsCall → Int × StatsMap
  | .claim destination now => fpStatsClaim m self destination now
  | .add slotIndex bytesUp bytesDown => (0, fpStatsAdd m self slotIndex bytesUp bytesDown)
  | .release slotIndex => (0, fpStatsRelease m self slotIndex)
  | .clearPid pid => (0, fpStatsClearPid m pid)

/-- Who has which slot, and what was added. -/
structure Ledger where
  owner : Nat → Option Process
  /-- what the owner of a slot has added since its claim -/
  since : Nat → List Traffic
  /-- what owners have ever added -/
  ever : List Traffic

namespace Ledger

/-- Nobody has a slot, and nothing was added. -/
def empty : Ledger := ⟨fun _ => none, fun _ => [], []⟩

/-- The owner of the slot with this index, which may be any integer. -/
def ownerAt (l : Ledger) (slotIndex : Int) : Option Process :=
  if slotIndex < 0 then none else l.owner slotIndex.toNat

/-- The process with this pid is dead, and its slots are free again. -/
def clear (l : Ledger) (pid : Int) : Ledger :=
  if pid ≤ 1 then l else { l with owner := fun i => (l.owner i).filter fun p => p.pid ≠ pid }

/-- What a call and its result mean. -/
def record (l : Ledger) (p : Process) : StatsCall → Int → Ledger
  | .claim _ _, result =>
    if result < 0 then l
    else { l with
      owner := Function.update l.owner result.toNat (some p)
      since := Function.update l.since result.toNat [] }
  | .add slotIndex bytesUp bytesDown, _ =>
    if l.ownerAt slotIndex = some p then { l with
      since := Function.update l.since slotIndex.toNat
        (l.since slotIndex.toNat ++ [(bytesUp, bytesDown)])
      ever := l.ever ++ [(bytesUp, bytesDown)] }
    else l
  | .release slotIndex, _ =>
    if l.ownerAt slotIndex = some p then
      { l with owner := Function.update l.owner slotIndex.toNat none }
    else l
  | .clearPid pid, _ => l.clear pid

end Ledger

/-! ## Runs -/

/-- The map, the processes that have each pid now, and the ledger. -/
structure StatsRun where
  map : StatsMap
  generation : Int → Nat
  ledger : Ledger

/-- What happens next. -/
inductive StatsEvent where
  | call (p : Process) (call : StatsCall)
  /-- the process with this pid is reaped and cleared; the pid is free again -/
  | reap (pid : Int)

/-- One event. Only the current process of a pid makes calls, and `waitpid` gives pids above `1`. -/
inductive StatsStep : StatsRun → StatsEvent → StatsRun → Prop where
  | call {s : StatsRun} {p : Process} (hp : p.generation = s.generation p.pid) (c : StatsCall) :
      StatsStep s (.call p c)
        { s with
          map := (s.map.call p.pid c).2
          ledger := s.ledger.record p c (s.map.call p.pid c).1 }
  | reap {s : StatsRun} {pid : Int} (hpid : 1 < pid) :
      StatsStep s (.reap pid)
        { map := fpStatsClearPid s.map pid
          generation := Function.update s.generation pid (s.generation pid + 1)
          ledger := s.ledger.clear pid }

/-- The map has just been created. -/
def StatsRun.Initial (s : StatsRun) : Prop := s.map = .zero ∧ s.ledger = .empty

/-! ## The map shows the ledger -/

/-- A slot with this owner, who has added `since`. -/
def SlotShows (generation : Int → Nat) (owner : Option Process) (since : List Traffic)
    (slot : StatsConn) : Prop :=
  match owner with
  | none => slot = .zero
  | some p => slot.active = true ∧ slot.pid = p.pid ∧ p.generation = generation p.pid ∧
      slot.bytesUp = (since.map Prod.fst).sum ∧ slot.bytesDown = (since.map Prod.snd).sum

/-- The slots and the totals of the map are those of the ledger. -/
structure Shows (m : StatsMap) (generation : Int → Nat) (l : Ledger) : Prop where
  slots : ∀ i slot, m.slots[i]? = some slot → SlotShows generation (l.owner i) (l.since i) slot
  beyond : ∀ i, m.slots[i]? = none → l.owner i = none
  up : m.totalUp = (l.ever.map Prod.fst).sum
  down : m.totalDown = (l.ever.map Prod.snd).sum

theorem shows_initial {s : StatsRun} (h : s.Initial) : Shows s.map s.generation s.ledger := by
  obtain ⟨hmap, hledger⟩ := h
  rw [hmap, hledger]
  refine ⟨fun i slot hslot => ?_, fun _ _ => rfl, rfl, rfl⟩
  simp only [StatsMap.zero, List.getElem?_replicate] at hslot
  split at hslot
  · exact (Option.some.inj hslot).symm
  · simp at hslot

section

variable {m : StatsMap} {generation : Int → Nat} {l : Ledger}

/-- **The owner of a slot is the process whose pid an active slot holds.** -/
theorem ownerAt_iff (h : Shows m generation l) {p : Process} (hp : p.generation = generation p.pid)
    (slotIndex : Int) : l.ownerAt slotIndex = some p ↔
      ∃ slot, m.slot slotIndex = some slot ∧ slot.active = true ∧ slot.pid = p.pid := by
  unfold Ledger.ownerAt StatsMap.slot
  by_cases hneg : slotIndex < 0
  · simp [hneg]
  simp only [if_neg hneg]
  cases hslot : m.slots[slotIndex.toNat]? with
  | none => simp [h.beyond _ hslot]
  | some slot =>
    have hshows := h.slots _ slot hslot
    cases howner : l.owner slotIndex.toNat with
    | none =>
      rw [howner] at hshows
      obtain rfl : slot = .zero := hshows
      simp [StatsConn.zero]
    | some q =>
      rw [howner] at hshows
      obtain ⟨hactive, hpid, hq, -⟩ := hshows
      constructor
      · rintro ⟨⟩
        exact ⟨slot, rfl, hactive, hpid⟩
      · rintro ⟨slot', ⟨⟩, -, hpid'⟩
        obtain ⟨qpid, qgeneration⟩ := q
        obtain ⟨ppid, pgeneration⟩ := p
        simp only at hpid hpid' hq hp
        subst hp hq
        rw [← hpid, ← hpid']

/-- An add by another process than the owner changes nothing. -/
theorem add_of_not_owner (h : Shows m generation l) {p : Process}
    (hp : p.generation = generation p.pid) {slotIndex : Int} (hno : l.ownerAt slotIndex ≠ some p)
    (bytesUp bytesDown : BitVec 64) : fpStatsAdd m p.pid slotIndex bytesUp bytesDown = m := by
  unfold fpStatsAdd
  split
  · rfl
  rename_i slot hslot
  refine if_pos ?_
  by_contra hboth
  rw [not_or, not_not, Bool.not_eq_false] at hboth
  exact hno ((ownerAt_iff h hp slotIndex).mpr ⟨slot, hslot, hboth⟩)

/-- So does a release. -/
theorem release_of_not_owner (h : Shows m generation l) {p : Process}
    (hp : p.generation = generation p.pid) {slotIndex : Int} (hno : l.ownerAt slotIndex ≠ some p) :
    fpStatsRelease m p.pid slotIndex = m := by
  unfold fpStatsRelease
  split
  · rfl
  rename_i slot hslot
  by_cases hpid : slot.pid = p.pid
  swap
  · rw [if_pos hpid]
  -- the slot is not active, so it is already cleared
  have hinactive : slot.active = false := by
    by_contra hactive
    rw [Bool.not_eq_false] at hactive
    exact hno ((ownerAt_iff h hp slotIndex).mpr ⟨slot, hslot, hactive, hpid⟩)
  obtain ⟨index, rfl, -, hslot'⟩ := StatsMap.slot_eq_some hslot
  have hshows := h.slots index slot hslot'
  have hzero : slot = .zero := by
    cases howner : l.owner index with
    | none => rwa [howner] at hshows
    | some q =>
      rw [howner] at hshows
      simp [hshows.1] at hinactive
  rw [if_neg (by simpa using hpid)]
  refine StatsMap.ext' rfl rfl (List.ext_getElem? fun i => ?_)
  rw [StatsMap.modify_slots, List.getElem?_modify, Int.toNat_natCast]
  by_cases hi : index = i
  · subst hi
    rw [hslot', hzero]
    simp
  · simp [hi]

/-! ## Every call keeps it -/

/-- One slot and its entries in the ledger are written; the totals are given. -/
theorem Shows.write (h : Shows m generation l) {index : Nat} {f : StatsConn → StatsConn}
    {owner : Option Process} {since ever : List Traffic} {up down : BitVec 64}
    (hslot : ∀ slot, m.slots[index]? = some slot → SlotShows generation owner since (f slot))
    (hbeyond : m.slots[index]? = none → owner = none)
    (hup : up = (ever.map Prod.fst).sum) (hdown : down = (ever.map Prod.snd).sum) :
    Shows { m.modify index f with totalUp := up, totalDown := down } generation
      ⟨Function.update l.owner index owner, Function.update l.since index since, ever⟩ := by
  refine ⟨fun i slot hi => ?_, fun i hi => ?_, hup, hdown⟩
  · simp only [StatsMap.modify_slots, List.getElem?_modify] at hi
    by_cases hindex : index = i
    · subst hindex
      obtain ⟨slot', hslot', rfl⟩ := Option.map_eq_some_iff.mp hi
      simpa using hslot slot' hslot'
    · simp only [if_neg hindex, id_map'] at hi
      simpa only [Function.update_of_ne (Ne.symm hindex)] using h.slots i slot hi
  · simp only [StatsMap.modify_slots, List.getElem?_modify, Option.map_eq_map,
      Option.map_eq_none_iff] at hi
    by_cases hindex : index = i
    · subst hindex
      simpa using hbeyond hi
    · simpa only [Function.update_of_ne (Ne.symm hindex)] using h.beyond i hi

theorem shows_claim (h : Shows m generation l) {p : Process} (hp : p.generation = generation p.pid)
    (destination : Destination) (now : BitVec 64) :
    Shows (m.call p.pid (.claim destination now)).2 generation
      (l.record p (.claim destination now) (m.call p.pid (.claim destination now)).1) := by
  simp only [StatsMap.call, fpStatsClaim]
  split
  swap
  · exact h
  rename_i index hfind
  have hlt : index < m.slots.length := (List.findIdx?_eq_some_iff_getElem.mp hfind).1
  have hresult : ¬ (index : Int) < 0 := by omega
  simp only [Ledger.record, if_neg hresult, Int.toNat_natCast]
  refine h.write (fun slot _ => ⟨rfl, rfl, hp, rfl, rfl⟩) (fun hnone => ?_) h.up h.down
  rw [List.getElem?_eq_none_iff] at hnone
  omega

theorem shows_add (h : Shows m generation l) {p : Process} (hp : p.generation = generation p.pid)
    (slotIndex : Int) (bytesUp bytesDown : BitVec 64) :
    Shows (fpStatsAdd m p.pid slotIndex bytesUp bytesDown) generation
      (l.record p (.add slotIndex bytesUp bytesDown) 0) := by
  simp only [Ledger.record]
  by_cases howner : l.ownerAt slotIndex = some p
  swap
  · rw [if_neg howner, add_of_not_owner h hp howner]
    exact h
  rw [if_pos howner]
  obtain ⟨slot, hslot, hactive, hpid⟩ := (ownerAt_iff h hp slotIndex).mp howner
  obtain ⟨index, rfl, -, hslot'⟩ := StatsMap.slot_eq_some hslot
  have howner' : l.owner index = some p := by simpa [Ledger.ownerAt] using howner
  have hadd : fpStatsAdd m p.pid index bytesUp bytesDown =
      { m.modify index (.add bytesUp bytesDown) with
        totalUp := m.totalUp + bytesUp, totalDown := m.totalDown + bytesDown } := by
    simp only [fpStatsAdd, hslot]
    rw [if_neg (by simp [hactive, hpid]), Int.toNat_natCast]
  have hshows := h.slots index slot hslot'
  rw [howner'] at hshows
  obtain ⟨-, -, -, hup, hdown⟩ := hshows
  have hkept : l.owner = Function.update l.owner index (some p) := by simp [howner']
  rw [hadd, hkept, Int.toNat_natCast]
  refine h.write (fun slot' h' => ?_) (by simp [hslot']) ?_ ?_
  · obtain rfl : slot = slot' := Option.some.inj (hslot'.symm.trans h')
    refine ⟨hactive, hpid, hp, ?_, ?_⟩
    · simp [StatsConn.add, hup]
    · simp [StatsConn.add, hdown]
  · simp [h.up]
  · simp [h.down]

theorem shows_release (h : Shows m generation l) {p : Process} (hp : p.generation = generation p.pid)
    (slotIndex : Int) :
    Shows (fpStatsRelease m p.pid slotIndex) generation (l.record p (.release slotIndex) 0) := by
  simp only [Ledger.record]
  by_cases howner : l.ownerAt slotIndex = some p
  swap
  · rw [if_neg howner, release_of_not_owner h hp howner]
    exact h
  rw [if_pos howner]
  obtain ⟨slot, hslot, -, hpid⟩ := (ownerAt_iff h hp slotIndex).mp howner
  obtain ⟨index, rfl, -, hslot'⟩ := StatsMap.slot_eq_some hslot
  have hrelease : fpStatsRelease m p.pid index = m.modify index fun _ => .zero := by
    simp only [fpStatsRelease, hslot]
    rw [if_neg (by simpa using hpid), Int.toNat_natCast]
  have hkept : l.since = Function.update l.since index (l.since index) := by simp
  rw [hrelease, Int.toNat_natCast, hkept]
  exact h.write (fun _ _ => rfl) (fun _ => rfl) h.up h.down

/-- One slot, cleared when its owner has this pid. -/
theorem slotShows_clear {owner : Option Process} {since : List Traffic} {slot : StatsConn}
    (h : SlotShows generation owner since slot) {pid : Int} {generation' : Int → Nat}
    (hsame : ∀ q, q ≠ pid → generation' q = generation q) :
    SlotShows generation' (owner.filter fun p => p.pid ≠ pid) since (slot.clearPid pid) := by
  cases owner with
  | none =>
    obtain rfl : slot = .zero := h
    simp [SlotShows, StatsConn.clearPid, StatsConn.zero]
  | some p =>
    obtain ⟨hactive, hp, hgeneration, hbytes⟩ := h
    by_cases hq : p.pid = pid
    · have hfree : (some p).filter (fun p => decide (p.pid ≠ pid)) = none := by simp [hq]
      have hzero : slot.clearPid pid = .zero := if_pos ⟨hactive, hp.trans hq⟩
      rw [hfree, hzero]
      rfl
    · have hkept : (some p).filter (fun p => decide (p.pid ≠ pid)) = some p := by simp [hq]
      have hslot : slot.clearPid pid = slot := if_neg fun h => hq (hp.symm.trans h.2)
      rw [hkept, hslot]
      exact ⟨hactive, hp, hgeneration.trans (hsame _ hq).symm, hbytes⟩

/-- A clear frees the slots of the process with this pid; a new process may then have the pid. -/
theorem shows_clear (h : Shows m generation l) {pid : Int} {generation' : Int → Nat}
    (hsame : ∀ q, q ≠ pid ∨ pid ≤ 1 → generation' q = generation q) :
    Shows (fpStatsClearPid m pid) generation' (l.clear pid) := by
  unfold fpStatsClearPid Ledger.clear
  by_cases hpid : pid ≤ 1
  · obtain rfl : generation' = generation := funext fun q => hsame q (.inr hpid)
    rw [if_pos hpid, if_pos hpid]
    exact h
  rw [if_neg hpid, if_neg hpid]
  refine ⟨fun i slot hi => ?_, fun i hi => ?_, h.up, h.down⟩
  · simp only [List.getElem?_map, Option.map_eq_some_iff] at hi
    obtain ⟨slot', hslot', rfl⟩ := hi
    exact slotShows_clear (h.slots i slot' hslot') fun q hq => hsame q (.inl hq)
  · simp only [List.getElem?_map, Option.map_eq_none_iff] at hi
    simp [h.beyond i hi]

/-- **Every call keeps the map in step with the ledger.** -/
theorem shows_call (h : Shows m generation l) {p : Process} (hp : p.generation = generation p.pid)
    (c : StatsCall) :
    Shows (m.call p.pid c).2 generation (l.record p c (m.call p.pid c).1) := by
  cases c with
  | claim destination now => exact shows_claim h hp destination now
  | add slotIndex bytesUp bytesDown => exact shows_add h hp slotIndex bytesUp bytesDown
  | release slotIndex => exact shows_release h hp slotIndex
  | clearPid pid => exact shows_clear h fun _ _ => rfl

end

theorem shows_step {s s' : StatsRun} {e : StatsEvent} (h : Shows s.map s.generation s.ledger)
    (hs : StatsStep s e s') : Shows s'.map s'.generation s'.ledger := by
  cases hs with
  | call hp c => exact shows_call h hp c
  | reap hpid =>
    refine shows_clear h fun q hq => ?_
    rcases hq with hq | hq
    · exact Function.update_of_ne hq _ _
    · omega

/-- A release or a clear leaves the totals alone. -/
theorem totals_kept (m : StatsMap) (self slotIndex pid : Int) :
    (fpStatsRelease m self slotIndex).totalUp = m.totalUp ∧
    (fpStatsRelease m self slotIndex).totalDown = m.totalDown ∧
    (fpStatsClearPid m pid).totalUp = m.totalUp ∧
    (fpStatsClearPid m pid).totalDown = m.totalDown := by
  unfold fpStatsRelease fpStatsClearPid
  repeat' split
  all_goals exact ⟨rfl, rfl, rfl, rfl⟩

/-- **The counters are isolated and conserved**, in every state that calls in any order by any
processes lead to. -/
theorem counters_isolated {s : StatsRun} (h : Reach StatsRun.Initial anyStep StatsStep s) :
    (∀ p slotIndex bytesUp bytesDown, p.generation = s.generation p.pid →
      s.ledger.ownerAt slotIndex ≠ some p →
      fpStatsAdd s.map p.pid slotIndex bytesUp bytesDown = s.map ∧
      fpStatsRelease s.map p.pid slotIndex = s.map) ∧
    (∀ i slot, s.map.slots[i]? = some slot → slot.active = true →
      ∃ p, s.ledger.owner i = some p ∧ slot.pid = p.pid ∧
        slot.bytesUp = ((s.ledger.since i).map Prod.fst).sum ∧
        slot.bytesDown = ((s.ledger.since i).map Prod.snd).sum) ∧
    s.map.totalUp = (s.ledger.ever.map Prod.fst).sum ∧
    s.map.totalDown = (s.ledger.ever.map Prod.snd).sum ∧
    (∀ self slotIndex pid, (fpStatsRelease s.map self slotIndex).totalUp = s.map.totalUp ∧
      (fpStatsRelease s.map self slotIndex).totalDown = s.map.totalDown ∧
      (fpStatsClearPid s.map pid).totalUp = s.map.totalUp ∧
      (fpStatsClearPid s.map pid).totalDown = s.map.totalDown) := by
  have hshows : Shows s.map s.generation s.ledger :=
    h.inv (fun _ => shows_initial) fun _ _ _ hI _ hs => shows_step hI hs
  refine ⟨fun p slotIndex bytesUp bytesDown hp hno => ?_, fun i slot hi hactive => ?_, hshows.up,
    hshows.down, totals_kept s.map⟩
  · exact ⟨add_of_not_owner hshows hp hno bytesUp bytesDown, release_of_not_owner hshows hp hno⟩
  · have hslot := hshows.slots i slot hi
    cases howner : s.ledger.owner i with
    | none =>
      rw [howner] at hslot
      obtain rfl : slot = .zero := hslot
      simp [StatsConn.zero] at hactive
    | some p =>
      rw [howner] at hslot
      obtain ⟨-, hpid, -, hup, hdown⟩ := hslot
      exact ⟨p, rfl, hpid, hup, hdown⟩

/-- A second process with pid `50` claims the slot that the first one held when it was reaped. -/
theorem counters_isolated_reused : ∃ s : StatsRun, Reach StatsRun.Initial anyStep StatsStep s ∧
    s.ledger.ownerAt 0 = some ⟨50, 1⟩ ∧ s.map.totalUp = 1500 ∧
    fpStatsAdd s.map 60 0 1 1 = s.map := by
  let destination : Destination := ⟨0x08080808, 443⟩
  have h₀ : Reach StatsRun.Initial anyStep StatsStep ⟨.zero, fun _ => 0, .empty⟩ :=
    .init ⟨rfl, rfl⟩
  have h₁ := h₀.step (l := .call ⟨50, 0⟩ (.claim destination 7)) trivial (.call rfl _)
  have h₂ := h₁.step (l := .call ⟨50, 0⟩ (.add 0 1500 0)) trivial (.call rfl _)
  have h₃ := h₂.step (l := .reap 50) trivial (.reap (by decide))
  have h₄ := h₃.step (l := .call ⟨50, 1⟩ (.claim destination 9)) trivial (.call rfl _)
  refine ⟨_, h₄, rfl, by decide, ?_⟩
  exact ((counters_isolated h₄).1 ⟨60, 0⟩ 0 1 1 rfl (by decide)).1

end FreeProxy
