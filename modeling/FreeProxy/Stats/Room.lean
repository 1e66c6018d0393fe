import FreeProxy.Lib.FirstFit
import FreeProxy.Stats.Slots

/-!
# A slot for every worker

The daemon keeps at most `FP_MAX_CLIENTS` workers, so there are never fewer slots than workers. A
worker looks for its slot from the first one on, though, while others give slots back behind it and
take slots ahead of it. The places of the workers (`Phase.place`: the slot it has, or the next one
to try) have `Room` among the slots, and every access keeps that (`room_advance`).

**`claim_has_slot`**: no worker is ever refused a slot, and no two workers have the same one.
-/

namespace FreeProxy

open Lib

/-! ## Places -/

/-- The slot of a worker, or the next one it tries. -/
def Phase.place : Phase → Option Nat
  | .scanning index | .claimed index | .holding index | .leaving index => some index
  | .done => none

/-- The places of all that hold a slot or look for one. -/
def placesOf (ps : List (Int × Phase)) : List Nat := ps.filterMap fun p => p.2.place

section

variable {ps : List (Int × Phase)} {pid : Int} {ph ph' : Phase} {m m' : StatsMap}

theorem placesOf_cons (p : Int × Phase) (ps : List (Int × Phase)) :
    placesOf (p :: ps) = p.2.place.toList ++ placesOf ps := by
  unfold placesOf
  cases h : p.2.place with
  | none => simp [h]
  | some i => simp [h]

theorem placesOf_length_le (ps : List (Int × Phase)) : (placesOf ps).length ≤ ps.length :=
  List.length_filterMap_le _ ps

theorem place_of_slot {i : Nat} (h : ph.slot = some i) : ph.place = some i := by
  cases ph with
  | scanning => simp [Phase.slot] at h
  | done => simp [Phase.slot] at h
  | claimed => exact h
  | holding => exact h
  | leaving => exact h

/-- A slot that is taken is a place. -/
theorem mem_placesOf {i : Nat} (h : i ∈ slotsOf ps) : i ∈ placesOf ps := by
  obtain ⟨p, hp, hslot⟩ := List.mem_filterMap.mp h
  exact List.mem_filterMap.mpr ⟨p, hp, place_of_slot hslot⟩

/-- A process that keeps its place, or leaves it, keeps the room. -/
theorem room_stay (h : Room fpMaxClients (placesOf ((pid, ph) :: ps)))
    (hplace : ph'.place = ph.place ∨ ph'.place = none) :
    Room fpMaxClients (placesOf ((pid, ph') :: ps)) := by
  rw [placesOf_cons] at h ⊢
  rcases hplace with hsame | hnone
  · rwa [hsame]
  · rw [hnone]
    cases hph : ph.place with
    | none => rwa [hph] at h
    | some i =>
      rw [hph] at h
      exact h.leave

theorem place_stored {field : SlotStore} (h : ph.stored pid field = some ph') :
    ph'.place = ph.place ∨ ph'.place = none := by
  cases ph with
  | scanning => simp [Phase.stored] at h
  | done => simp [Phase.stored] at h
  | claimed i =>
    cases field with
    | pid value =>
      by_cases hvalue : value = pid
      · obtain rfl : Phase.holding i = ph' := by simpa [Phase.stored, hvalue] using h
        exact .inl rfl
      · simp [Phase.stored, hvalue] at h
    | inactive => simp [Phase.stored] at h
    | _ => exact .inl (congrArg Phase.place (Option.some.inj h).symm)
  | holding i =>
    cases field with
    | pid value =>
      by_cases hvalue : value = 0
      · obtain rfl : Phase.leaving i = ph' := by simpa [Phase.stored, hvalue] using h
        exact .inl rfl
      · simp [Phase.stored, hvalue] at h
    | inactive => simp [Phase.stored] at h
    | _ => exact .inl (congrArg Phase.place (Option.some.inj h).symm)
  | leaving i =>
    cases field with
    | pid value => simp [Phase.stored] at h
    | inactive => exact .inr (congrArg Phase.place (Option.some.inj h).symm)
    | _ => exact .inl (congrArg Phase.place (Option.some.inj h).symm)

/-- **Any access of a worker keeps the room.** -/
theorem room_advance (howned : Owned m.actives m.pids ((pid, ph) :: ps)) {e : MapOp} {r : MapResp e}
    (hadvance : ph.advanceMap pid e r = some ph') (hr : mapSem e () m = (r, m'))
    (h : Room fpMaxClients (placesOf ((pid, ph) :: ps))) :
    Room fpMaxClients (placesOf ((pid, ph') :: ps)) := by
  cases e with
  | cas index =>
    simp only [Phase.advanceMap] at hadvance
    by_cases hph : ph = .scanning index ∧ index < fpMaxClients
    swap
    · simp [hph] at hadvance
    rw [if_pos hph, Option.some.injEq] at hadvance
    obtain ⟨rfl, hindex⟩ := hph
    by_cases hactive : (m.at index).active = true
    · -- somebody has the slot, and it is not this worker
      obtain ⟨rfl, rfl⟩ := Prod.mk.inj ((if_pos hactive).symm.trans hr)
      subst hadvance
      have htaken : index ∈ slotsOf ps := (howned.active index).mp hactive
      rw [placesOf_cons] at h ⊢
      exact h.miss (mem_placesOf htaken)
    · obtain ⟨rfl, rfl⟩ := Prod.mk.inj ((if_neg hactive).symm.trans hr)
      subst hadvance
      exact room_stay h (.inl rfl)
  | store index field =>
    simp only [Phase.advanceMap] at hadvance
    by_cases hslot : ph.slot = some index
    · rw [if_pos hslot] at hadvance
      exact room_stay h (place_stored hadvance)
    · simp [hslot] at hadvance
  | _ =>
    obtain rfl : ph = ph' := Option.some.inj hadvance
    exact h

end

/-! ## Runs -/

/-- Kills as in `killsSettled`, and the daemon forks under its cap only. -/
def capped (s : Pool) : PoolEvent → Prop
  | .fork _ => s.activeClients < fpMaxClients
  | ev => killsSettled s ev

theorem killsSettled_of_capped {s : Pool} {ev : PoolEvent} (h : capped s ev) : killsSettled s ev := by
  cases ev with
  | fork => trivial
  | _ => exact h

/-- The phases of a worker whose claim has won the slot `i`. -/
def Phase.Had (i : Nat) (ph : Phase) : Prop := ph = .holding i ∨ ph = .leaving i ∨ ph = .done

theorem had_stored {i : Nat} {self : Int} {ph ph' : Phase} {field : SlotStore} (h : ph.Had i)
    (hstored : ph.stored self field = some ph') : ph'.Had i := by
  rcases h with rfl | rfl | rfl
  · cases field with
    | pid value =>
      by_cases hvalue : value = 0
      · obtain rfl : Phase.leaving i = ph' := by simpa [Phase.stored, hvalue] using hstored
        exact .inr (.inl rfl)
      · simp [Phase.stored, hvalue] at hstored
    | inactive => simp [Phase.stored] at hstored
    | _ => exact .inl (Option.some.inj hstored).symm
  · cases field with
    | pid value => simp [Phase.stored] at hstored
    | inactive => exact .inr (.inr (Option.some.inj hstored).symm)
    | _ => exact .inr (.inl (Option.some.inj hstored).symm)
  · simp [Phase.stored] at hstored

/-- A worker that has its slot looks for no other. -/
theorem had_advance {i : Nat} {self : Int} {ph ph' : Phase} {e : WorkerOp} {r : WorkerResp e} (h : ph.Had i)
    (hadvance : ph.advance self e r = some ph') : ph'.Had i := by
  cases e with
  | map e =>
    cases e with
    | cas index => rcases h with rfl | rfl | rfl <;> simp [Phase.advance, Phase.advanceMap] at hadvance
    | store index field =>
      simp only [Phase.advance, Phase.advanceMap] at hadvance
      by_cases hslot : ph.slot = some index
      · rw [if_pos hslot] at hadvance
        exact had_stored h hadvance
      · simp [hslot] at hadvance
    | _ => exact Option.some.inj hadvance ▸ h
  | setSlot slotIndex => exact (Phase.advance_setSlot hadvance).2 ▸ h
  | _ => exact Option.some.inj hadvance ▸ h

/-- The slot index that a worker has been given is that of the slot that it has won. -/
def Worker.Served (w : Worker) : Prop :=
  ∀ v, w.statsSlot = some v → ∃ i : Nat, v = i ∧ i < fpMaxClients ∧ w.phase.Had i

/-- There are no more workers than slots, and each of them finds one. -/
structure RoomInv (s : Pool) : Prop where
  pool : PoolInv s
  room : Room fpMaxClients (placesOf s.holders)
  counted : s.activeClients = s.holders.length
  cap : s.activeClients ≤ fpMaxClients
  served : ∀ w ∈ s.workers, w.Served

theorem roomInv_initial {s : Pool} (h : s.Initial) : RoomInv s := by
  have hpool := poolInv_initial h
  obtain ⟨-, hworkers, hsweep, hcount⟩ := h
  have hholders : s.holders = [] := by rw [holders_idle hsweep, hworkers, List.map_nil]
  refine ⟨hpool, ?_, ?_, by simp [hcount], by simp [hworkers]⟩
  · rw [hholders]
    exact .nil
  · rw [hholders, hcount]
    rfl

section

variable {s : Pool} {w w' : Worker} {rest : List Worker}

theorem room_perm {ps ps' : List (Int × Phase)} (h : Room fpMaxClients (placesOf ps))
    (hp : ps.Perm ps') : Room fpMaxClients (placesOf ps') :=
  h.perm (hp.filterMap _)

/-- The number of processes, whatever one of them does. -/
theorem holders_length (hw : s.workers.Perm (w :: rest)) (m : StatsMap) :
    { s with map := m, workers := w' :: rest }.holders.length = s.holders.length := by
  simp only [Pool.holders, List.length_map, List.length_append, hw.length_eq, List.length_cons]

/-- One worker moves, and keeps the room. -/
theorem roomInv_worker (h : RoomInv s) (hw : s.workers.Perm (w :: rest)) {m : StatsMap}
    (hpool : PoolInv { s with map := m, workers := w' :: rest })
    (hmove : ∀ ps, Owned s.map.actives s.map.pids ((w.pid, w.phase) :: ps) →
      Room fpMaxClients (placesOf ((w.pid, w.phase) :: ps)) →
      Room fpMaxClients (placesOf ((w'.pid, w'.phase) :: ps)))
    (hserved : w'.Served) : RoomInv { s with map := m, workers := w' :: rest } where
  pool := hpool
  room := by
    have hperm : { s with map := m, workers := w' :: rest }.holders.Perm _ :=
      holders_perm (List.Perm.refl (w' :: rest))
    have howned := h.pool.owned.perm (holders_perm hw)
    exact room_perm (hmove _ howned (room_perm h.room (holders_perm hw))) hperm.symm
  counted := by
    rw [holders_length hw]
    exact h.counted
  cap := h.cap
  served := forall_workers hw h.served hserved

/-- A worker that has a result from its claim holds that slot. -/
theorem slot_of_result {ps : List (Int × Phase)} {pid : Int} {ph : Phase} {m : StatsMap}
    (howned : Owned m.actives m.pids ((pid, ph) :: ps))
    (hroom : Room fpMaxClients (placesOf ((pid, ph) :: ps))) {v : Int} (h : ph.result = some v) :
    ∃ i : Nat, v = i ∧ i < fpMaxClients ∧ ph = .holding i := by
  rcases result_cases h with ⟨i, rfl, rfl⟩ | ⟨rfl, -⟩
  · exact ⟨i, rfl, lt_of_active ((howned.active i).mpr (mem_slotsOf List.mem_cons_self rfl)), rfl⟩
  · have hlt : fpMaxClients < fpMaxClients := hroom.lt (by rw [placesOf_cons]; exact List.mem_cons_self)
    omega

/-- What a worker has won stays its own; what it is given now, it has won. -/
theorem served_after (h : RoomInv s) (hw : s.workers.Perm (w :: rest)) {e : WorkerOp} {r : WorkerResp e}
    {code : WorkerProg Unit} {ph' : Phase} (hadvance : w.phase.advance w.pid e r = some ph') :
    (w.after e r code).Served := by
  have hmem := hw.mem_iff.mpr (List.mem_cons_self (a := w))
  have hphase : (w.after e r code).phase = ph' := by
    simp only [Worker.after, hadvance, Option.getD_some]
  have hkept : ∀ v, w.statsSlot = some v →
      ∃ i : Nat, v = i ∧ i < fpMaxClients ∧ (w.after e r code).phase.Had i := by
    intro v hv
    obtain ⟨i, hi, hlt, hhad⟩ := h.served w hmem v hv
    exact ⟨i, hi, hlt, hphase ▸ had_advance hhad hadvance⟩
  cases e with
  | setSlot slotIndex =>
    rintro _ ⟨⟩
    obtain ⟨hresult, hsame⟩ := Phase.advance_setSlot hadvance
    obtain ⟨i, hi, hlt, hholding⟩ := slot_of_result (h.pool.owned.perm (holders_perm hw))
      (room_perm h.room (holders_perm hw)) hresult
    exact ⟨i, hi, hlt, .inl (hphase.trans (hsame.trans hholding))⟩
  | _ => exact hkept

/-- An access of a worker. -/
theorem roomInv_access (h : RoomInv s) (hw : s.workers.Perm (w :: rest)) {e : WorkerOp} {r : WorkerResp e}
    {code : WorkerProg Unit} {ph' : Phase} {m : StatsMap} (hadvance : w.phase.advance w.pid e r = some ph')
    (hr : answered s.map e r m) (hpool : PoolInv { s with map := m, workers := w.after e r code :: rest }) :
    RoomInv { s with map := m, workers := w.after e r code :: rest } := by
  have hphase : (w.after e r code).phase = ph' := by
    simp only [Worker.after, hadvance, Option.getD_some]
  refine roomInv_worker h hw hpool (fun ps howned hroom => ?_) (served_after h hw hadvance)
  rw [hphase]
  cases e with
  | map e => exact room_advance howned hadvance hr hroom
  | setSlot slotIndex => rwa [(Phase.advance_setSlot hadvance).2]
  | _ => rwa [← Option.some.inj hadvance]

/-- A new worker. -/
theorem roomInv_fork (h : RoomInv s) (hsweep : s.sweep = none) (hcap : s.activeClients < fpMaxClients) {pid : Int}
    {destination : Destination} {now : BitVec 64}
    (hpool : PoolInv { s with
      workers := .forked pid destination now :: s.workers, activeClients := s.activeClients + 1 }) :
    RoomInv { s with
      workers := .forked pid destination now :: s.workers, activeClients := s.activeClients + 1 } := by
  have hcounted := h.counted
  have hroom := h.room
  rw [holders_idle hsweep] at hcounted hroom
  refine ⟨hpool, ?_, ?_, hcap, ?_⟩
  · rw [holders_idle (by exact hsweep)]
    refine hroom.enter ?_
    have hle := placesOf_length_le (s.workers.map fun w => (w.pid, w.phase))
    omega
  · rw [holders_idle (by exact hsweep), hcounted]
    rfl
  · rintro w (_ | ⟨_, hw⟩)
    · intro v hv
      simp [Worker.forked] at hv
    · exact h.served w hw

/-- A worker that is reaped and cleared leaves its place. -/
theorem roomInv_forget (h : RoomInv s) {sweep : Sweep} (hsweep : s.sweep = some sweep)
    (hpool : PoolInv { s with
      sweep := none, activeClients := if 0 < s.activeClients then s.activeClients - 1 else s.activeClients }) :
    RoomInv { s with
      sweep := none, activeClients := if 0 < s.activeClients then s.activeClients - 1 else s.activeClients } := by
  have hroom := holders_sweeping hsweep ▸ h.room
  have hcounted := holders_sweeping hsweep ▸ h.counted
  have hcap := h.cap
  refine ⟨hpool, ?_, ?_, ?_, h.served⟩
  · rw [placesOf_cons] at hroom
    cases hplace : sweep.worker.phase.place with
    | none => rwa [hplace] at hroom
    | some i =>
      rw [hplace] at hroom
      exact hroom.leave
  · simp [hcounted, Pool.holders]
  · by_cases hpos : 0 < s.activeClients
    · rw [if_pos hpos]
      exact (Nat.sub_le _ _).trans hcap
    · rw [if_neg hpos]
      exact hcap

theorem roomInv_step {s s' : Pool} {ev : PoolEvent} (h : RoomInv s) (hok : capped s ev)
    (hs : PoolStep s ev s') : RoomInv s' := by
  have hpool := poolInv_step h.pool (killsSettled_of_capped hok) hs
  cases hs with
  | fork hsweep hpid hfresh destination now => exact roomInv_fork h hsweep hok hpool
  | @access w rest e k r m' hw hrunning hcode hr =>
    have hmem := hw.mem_iff.mpr (List.mem_cons_self (a := w))
    obtain ⟨ph', hadvance, -⟩ := (follows_next hcode).mp (h.pool.running w hmem hrunning) r
    exact roomInv_access h hw hadvance hr hpool
  | @exit w rest hw hrunning hcode =>
    have hmem := hw.mem_iff.mpr (List.mem_cons_self (a := w))
    exact roomInv_worker h hw hpool (fun _ _ hroom => hroom) (h.served w hmem)
  | @kill w rest hw hrunning =>
    have hmem := hw.mem_iff.mpr (List.mem_cons_self (a := w))
    exact roomInv_worker h hw hpool (fun _ _ hroom => hroom) (h.served w hmem)
  | @wait w rest hsweep hw hstopped =>
    have hperm := holders_perm hw
    simp only [hsweep, Option.toList_none, List.map_nil, List.nil_append] at hperm
    have hrest : ∀ v ∈ rest, v ∈ s.workers := fun v hv => hw.mem_iff.mpr (List.mem_cons_of_mem _ hv)
    refine ⟨hpool, room_perm h.room hperm, ?_, h.cap, fun v hv => h.served v (hrest v hv)⟩
    rw [h.counted, hperm.length_eq]
    simp [Pool.holders]
  | @clear sweep e k r m' hsweep hcode hr =>
    obtain ⟨hagrees, hfollows⟩ := h.pool.sweeping sweep hsweep
    obtain ⟨pos', hpos, -⟩ := (follows_next hcode).mp hfollows r
    have howned := holders_sweeping hsweep ▸ h.pool.owned
    have hroom := holders_sweeping hsweep ▸ h.room
    have hcounted := holders_sweeping hsweep ▸ h.counted
    obtain ⟨ph', hadvance, -⟩ := sweep_advance howned hagrees hpos hr
    refine ⟨hpool, ?_, ?_, h.cap, h.served⟩
    · rw [holders_sweeping rfl]
      simp only [Sweep.after, hadvance, Option.getD_some]
      exact room_advance howned hadvance hr hroom
    · rw [hcounted]
      rfl
  | forget hsweep hcode => exact roomInv_forget h hsweep hpool

end

/-- A claim that returns, in a run that keeps to the cap. -/
theorem RoomInv.claimed {s s' : Pool} {pid v : Int} (h : RoomInv s)
    (hs : PoolStep s (.access pid (.setSlot v)) s') : ∃ i : Nat, v = i ∧ i < fpMaxClients ∧
      (s.map.at i).active = true ∧ (s.map.at i).pid = pid := by
  cases hs with
  | @access w rest _ k r m' hw hrunning hcode hr =>
    have hmem := hw.mem_iff.mpr (List.mem_cons_self (a := w))
    obtain ⟨ph', hadvance, -⟩ := (follows_next hcode).mp (h.pool.running w hmem hrunning) r
    have howned := h.pool.owned.perm (holders_perm hw)
    obtain ⟨i, hi, hlt, hholding⟩ := slot_of_result howned (room_perm h.room (holders_perm hw))
      (Phase.advance_setSlot hadvance).1
    refine ⟨i, hi, hlt, (howned.active i).mpr (mem_slotsOf List.mem_cons_self ?_), ?_⟩
    · simp only [hholding, Phase.slot]
    · exact howned.held _ List.mem_cons_self i hholding

/-- **There is a slot for every worker**: a claim that returns has taken the slot that it names, for the worker
that has made it. The worker keeps it until its own release, and no two have the same. -/
theorem claim_has_slot {s : Pool} (h : Reach Pool.Initial capped PoolStep s) :
    (∀ pid v s', PoolStep s (.access pid (.setSlot v)) s' → ∃ i : Nat, v = i ∧ i < fpMaxClients ∧
      (s.map.at i).active = true ∧ (s.map.at i).pid = pid) ∧
      (∀ w ∈ s.workers, ∀ v, w.statsSlot = some v → (0 ≤ v ∧ v < fpMaxClients) ∧
        (w.phase.slot = some v.toNat ∨ w.phase = .done)) ∧
      (∀ w ∈ s.workers, ∀ i, w.phase = .scanning i → i < fpMaxClients) ∧
      (∀ w ∈ s.workers, ∀ i, w.phase = .holding i →
        (s.map.at i).active = true ∧ (s.map.at i).pid = w.pid) ∧
      (s.workers.filterMap fun w => w.phase.slot).Nodup ∧ s.workers.length ≤ fpMaxClients := by
  have hinv : RoomInv s := h.inv (fun _ => roomInv_initial) fun _ _ _ hI hok hs => roomInv_step hI hok hs
  have hmem : ∀ w ∈ s.workers, (w.pid, w.phase) ∈ s.holders := by
    intro w hw
    exact List.mem_map.mpr ⟨w, List.mem_append_right _ hw, rfl⟩
  have hholders : s.holders = (s.sweep.toList.map fun sweep => (sweep.worker.pid, sweep.worker.phase)) ++
      s.workers.map fun w => (w.pid, w.phase) := by
    simp [Pool.holders]
  refine ⟨fun pid v s' hs => hinv.claimed hs, fun w hw v hv => ?_, fun w hw i hi => ?_,
    fun w hw i hi => ?_, ?_, ?_⟩
  · obtain ⟨i, rfl, hlt, hhad⟩ := hinv.served w hw v hv
    refine ⟨⟨Int.natCast_nonneg i, Int.ofNat_lt.mpr hlt⟩, ?_⟩
    rw [Int.toNat_natCast]
    rcases hhad with hph | hph | hph
    · exact .inl (by rw [hph]; rfl)
    · exact .inl (by rw [hph]; rfl)
    · exact .inr hph
  · refine hinv.room.lt (List.mem_filterMap.mpr ⟨_, hmem w hw, ?_⟩)
    simp only [hi, Phase.place]
  · have hslot : (w.pid, w.phase).2.slot = some i := by simp only [hi, Phase.slot]
    have howned := hinv.pool.owned
    exact ⟨(howned.active i).mpr (mem_slotsOf (hmem w hw) hslot), howned.held _ (hmem w hw) i hi⟩
  · have hslots : slotsOf (s.workers.map fun w => (w.pid, w.phase)) =
        s.workers.filterMap fun w => w.phase.slot := List.filterMap_map
    have hnodup := hinv.pool.owned.slots
    rw [hholders, slotsOf, List.filterMap_append] at hnodup
    exact hslots ▸ hnodup.of_append_right
  · have hcounted := hinv.counted
    have hcap := hinv.cap
    rw [hholders, List.length_append, List.length_map, List.length_map] at hcounted
    omega

/-! ## A run of several workers -/

/-- Whose turn it is; a worker is named by its place in the list. -/
inductive PoolTurn where
  | fork (pid : Int)
  | worker (index : Nat)
  | kill (index : Nat)
  | wait (index : Nat)
  | clear
  | forget

namespace Pool

/-- One turn; a worker's environment says yes, and its relay has nothing to pass on. -/
def move (s : Pool) : PoolTurn → Option (PoolEvent × Pool)
  | .fork pid =>
    if s.sweep.isNone ∧ 1 < pid ∧ ∀ w ∈ s.workers, w.pid ≠ pid then
      some (.fork pid, { s with
        workers := .forked pid ⟨0, 0⟩ 0 :: s.workers
        activeClients := s.activeClients + 1 })
    else none
  | .worker index => s.workers[index]?.bind fun w =>
    match w.running, w.code.next with
    | true, .call e k =>
      let answer := workerSem e () s.map
      some (.access w.pid e, { s with
        map := answer.2
        workers := w.after e answer.1 (k answer.1) :: s.workers.eraseIdx index })
    | _, _ => none
  | .kill index => s.workers[index]?.bind fun w =>
    if w.running = true then
      some (.kill w.pid, { s with workers := w.stopped :: s.workers.eraseIdx index })
    else none
  | .wait index => s.workers[index]?.bind fun w =>
    if w.running = false ∧ s.sweep.isNone then
      some (.wait w.pid, { s with
        workers := s.workers.eraseIdx index
        sweep := some ⟨w, Code.fpStatsClearPid w.pid, .before 0⟩ })
    else none
  | .clear => s.sweep.bind fun sweep =>
    match sweep.code.next with
    | .call e k =>
      let answer := mapSem e () s.map
      some (.clear e, { s with map := answer.2, sweep := some (sweep.after e answer.1 (k answer.1)) })
    | .done _ => none
  | .forget => s.sweep.bind fun sweep =>
    match sweep.code.next with
    | .done _ => some (.forget, { s with
        sweep := none
        activeClients := if 0 < s.activeClients then s.activeClients - 1 else s.activeClients })
    | .call _ _ => none

/-- The cap and the kills of `capped`. -/
def checkCapped (s : Pool) : PoolEvent → Bool
  | .fork _ => decide (s.activeClients < fpMaxClients)
  | .kill pid => s.workers.all fun w => w.pid != pid || decide w.phase.Settled
  | _ => true

theorem capped_of_check (s : Pool) (ev : PoolEvent) (h : s.checkCapped ev = true) : capped s ev := by
  cases ev with
  | fork pid =>
    simp only [checkCapped, decide_eq_true_eq] at h
    exact h
  | kill pid =>
    intro w hw hpid
    have hchecked := List.all_eq_true.mp h w hw
    rw [hpid] at hchecked
    simpa using hchecked
  | _ => trivial

/-- The worker at a place, and the others. -/
theorem perm_eraseIdx {s : Pool} {index : Nat} {w : Worker} (h : s.workers[index]? = some w) :
    s.workers.Perm (w :: s.workers.eraseIdx index) := by
  obtain ⟨hlt, rfl⟩ := List.getElem?_eq_some_iff.mp h
  exact (List.getElem_cons_eraseIdx_perm hlt).symm

theorem move_step (s : Pool) (turn : PoolTurn) (ev : PoolEvent) (s' : Pool) (h : s.move turn = some (ev, s')) :
    PoolStep s ev s' := by
  cases turn with
  | fork pid =>
    simp only [move] at h
    split at h
    · rename_i hfork
      obtain ⟨rfl, rfl⟩ := Prod.mk.inj (Option.some.inj h)
      exact .fork (Option.isNone_iff_eq_none.mp hfork.1) hfork.2.1 hfork.2.2 ⟨0, 0⟩ 0
    · cases h
  | worker index =>
    obtain ⟨w, hw, h⟩ := Option.bind_eq_some_iff.mp h
    split at h
    · rename_i e k hrunning hcode
      obtain ⟨rfl, rfl⟩ := Prod.mk.inj (Option.some.inj h)
      exact .access (perm_eraseIdx hw) hrunning hcode (answered_workerSem e _ _ _ ⟨(), rfl⟩)
    · cases h
  | kill index =>
    obtain ⟨w, hw, h⟩ := Option.bind_eq_some_iff.mp h
    split at h
    · obtain ⟨rfl, rfl⟩ := Prod.mk.inj (Option.some.inj h)
      exact .kill (perm_eraseIdx hw) ‹_›
    · cases h
  | wait index =>
    obtain ⟨w, hw, h⟩ := Option.bind_eq_some_iff.mp h
    split at h
    · rename_i hwait
      obtain ⟨rfl, rfl⟩ := Prod.mk.inj (Option.some.inj h)
      exact .wait (Option.isNone_iff_eq_none.mp hwait.2) (perm_eraseIdx hw) hwait.1
    · cases h
  | clear =>
    obtain ⟨sweep, hsweep, h⟩ := Option.bind_eq_some_iff.mp h
    split at h
    · obtain ⟨rfl, rfl⟩ := Prod.mk.inj (Option.some.inj h)
      exact .clear hsweep ‹_› rfl
    · cases h
  | forget =>
    obtain ⟨sweep, hsweep, h⟩ := Option.bind_eq_some_iff.mp h
    split at h
    · obtain ⟨rfl, rfl⟩ := Prod.mk.inj (Option.some.inj h)
      exact .forget hsweep (Prog.next_done.mp ‹_›)
    · cases h

end Pool

/-- The workers `2` and `3` look for a slot side by side: `2` wins the first, `3` fails there and wins the second.
`2` is killed and reaped, and its slot is the first again that the worker `4` tries. -/
def refill : List PoolTurn :=
  [.fork 2, .fork 3] ++ List.replicate 20 (.worker 1) ++ [.kill 1, .wait 0] ++ List.replicate 60 .clear ++
    [.worker 0] ++ List.replicate 77 .clear ++ [.forget, .fork 4] ++ List.replicate 8 (.worker 0)

/-- The claim of `4` returns in a run that has killed `2`, and `3` has its slot throughout. -/
theorem claim_has_slot_refilled : ∃ s s', Reach Pool.Initial capped PoolStep s ∧
    PoolStep s (.access 4 (.setSlot 0)) s' ∧
    (s.workers.map fun w => (w.pid, w.statsSlot)) = [(4, none), (3, some 1)] ∧
    (s.map.at 0).active = true ∧ (s.map.at 0).pid = 4 ∧
    ∃ w ∈ s.workers, w.statsSlot = some 1 ∧ (w.phase.slot = some 1 ∨ w.phase = .done) := by
  have hrun : ((play Pool.move Pool.checkCapped refill ⟨.zero, [], none, 0⟩).any fun s =>
      (s.workers.map fun w => (w.pid, w.statsSlot)) == [(4, none), (3, some 1)] &&
        (s.move (.worker 0)).any fun next => next.1 == .access 4 (.setSlot 0)) = true := by
    decide +kernel
  obtain ⟨s, hplay, hs⟩ := (Option.any_eq_true _ _).mp hrun
  rw [Bool.and_eq_true, beq_iff_eq] at hs
  obtain ⟨hworkers, hnext⟩ := hs
  obtain ⟨⟨ev, s'⟩, hmove, hev⟩ := (Option.any_eq_true _ _).mp hnext
  obtain rfl : ev = .access 4 (.setSlot 0) := beq_iff_eq.mp hev
  have hinit : Reach Pool.Initial capped PoolStep ⟨.zero, [], none, 0⟩ := .init ⟨rfl, rfl, rfl, rfl⟩
  have hreach := hinit.play Pool.move_step Pool.capped_of_check hplay
  have hstep := Pool.move_step s _ _ s' hmove
  obtain ⟨hclaimed, hserved, -⟩ := claim_has_slot hreach
  obtain ⟨i, hi, -, hactive, hpid⟩ := hclaimed 4 0 s' hstep
  obtain rfl : i = 0 := by omega
  have hmem : ((3 : Int), some (1 : Int)) ∈ s.workers.map fun w => (w.pid, w.statsSlot) := by
    rw [hworkers]
    simp
  obtain ⟨w, hw, hpair⟩ := List.mem_map.mp hmem
  have hslot : w.statsSlot = some 1 := congrArg Prod.snd hpair
  exact ⟨s, s', hreach, hstep, hworkers, hactive, hpid, w, hw, hslot, (hserved w hw 1 hslot).2⟩

end FreeProxy
