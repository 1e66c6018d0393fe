import FreeProxy.Stats.Pool

/-!
# Whose slot it is

Two fields say that a slot is taken: `active` and `pid`, and they are written at different moments.
`Owned` ties both to the phases of the workers, for the whole map: a slot is active because of
exactly one worker, and it holds a pid exactly while that worker holds it. One rule for each kind of
store says how it moves along (`Owned.win`, `Owned.storePid`, `Owned.clearPid`, `Owned.free`), and
`owned_advance` puts them together for any access. The daemon's clear of a dead worker is the
release that the worker did not make.

**`slots_not_leaked`**: when all workers have been reaped, no slot is active.
-/

namespace FreeProxy

open Lib

/-! ## Slots and phases -/

/-- The slots that are active because of these processes. -/
def slotsOf (ps : List (Int × Phase)) : List Nat := ps.filterMap fun p => p.2.slot

theorem slotsOf_cons (p : Int × Phase) (ps : List (Int × Phase)) :
    slotsOf (p :: ps) = p.2.slot.toList ++ slotsOf ps := by
  unfold slotsOf
  cases h : p.2.slot with
  | none => simp [h]
  | some i => simp [h]

/-- The fields `active` and `pid` of the map, and the processes with their phases. -/
structure Owned (active : Nat → Bool) (pidAt : Nat → Int) (ps : List (Int × Phase)) : Prop where
  pids : (ps.map Prod.fst).Nodup
  pid_gt : ∀ p ∈ ps, 1 < p.1
  slots : (slotsOf ps).Nodup
  active : ∀ i, active i = true ↔ i ∈ slotsOf ps
  held : ∀ p ∈ ps, ∀ i, p.2 = .holding i → pidAt i = p.1
  stored : ∀ i, pidAt i ≠ 0 → ∃ p ∈ ps, p.2 = .holding i

section

variable {active : Nat → Bool} {pidAt : Nat → Int} {ps : List (Int × Phase)} {pid : Int}
  {ph ph' : Phase} {i : Nat}

theorem slotsOf_same (hslot : ph.slot = ph'.slot) :
    slotsOf ((pid, ph') :: ps) = slotsOf ((pid, ph) :: ps) := by
  simp only [slotsOf_cons, hslot]

theorem slotsOf_none (hslot : ph.slot = none) : slotsOf ((pid, ph) :: ps) = slotsOf ps := by
  rw [slotsOf_cons, hslot]
  rfl

theorem Owned.perm (h : Owned active pidAt ps) {ps' : List (Int × Phase)} (hp : ps.Perm ps') :
    Owned active pidAt ps' := by
  have hslots : (slotsOf ps).Perm (slotsOf ps') := hp.filterMap _
  exact {
    pids := (hp.map Prod.fst).nodup_iff.mp h.pids
    pid_gt := fun p hm => h.pid_gt p (hp.mem_iff.mpr hm)
    slots := hslots.nodup_iff.mp h.slots
    active := fun i => (h.active i).trans hslots.mem_iff
    held := fun p hm => h.held p (hp.mem_iff.mpr hm)
    stored := fun i hi => by
      obtain ⟨p, hm, hph⟩ := h.stored i hi
      exact ⟨p, hp.mem_iff.mp hm, hph⟩ }

/-- The slot of one process is not that of another one. -/
theorem Owned.notMem (h : Owned active pidAt ((pid, ph) :: ps)) (hslot : ph.slot = some i) :
    i ∉ slotsOf ps := by
  have hnodup := h.slots
  rw [slotsOf_cons, hslot] at hnodup
  exact (List.nodup_cons.mp hnodup).1

theorem mem_slotsOf {p : Int × Phase} (hp : p ∈ ps) (hslot : p.2.slot = some i) : i ∈ slotsOf ps :=
  List.mem_filterMap.mpr ⟨p, hp, hslot⟩

/-- A new phase for one process, given what it does to the two fields. -/
theorem Owned.move (h : Owned active pidAt ((pid, ph) :: ps)) {active' : Nat → Bool}
    {pidAt' : Nat → Int} (hslots : (slotsOf ((pid, ph') :: ps)).Nodup)
    (hactive : ∀ i, active' i = true ↔ i ∈ slotsOf ((pid, ph') :: ps))
    (hself : ∀ i, ph' = .holding i → pidAt' i = pid)
    (hothers : ∀ i ∈ slotsOf ps, pidAt' i = pidAt i)
    (hstored : ∀ i, pidAt' i ≠ 0 → i ∉ slotsOf ps → ph' = .holding i) :
    Owned active' pidAt' ((pid, ph') :: ps) where
  pids := h.pids
  pid_gt := by
    rintro p (_ | ⟨_, hp⟩)
    · exact h.pid_gt (pid, ph) List.mem_cons_self
    · exact h.pid_gt p (List.mem_cons_of_mem _ hp)
  slots := hslots
  active := hactive
  held := by
    rintro p (_ | ⟨_, hp⟩) i hi
    · exact hself i hi
    · rw [hothers i (mem_slotsOf hp (by rw [hi]; rfl))]
      exact h.held p (List.mem_cons_of_mem _ hp) i hi
  stored := by
    intro i hi
    by_cases hm : i ∈ slotsOf ps
    · rw [hothers i hm] at hi
      obtain ⟨p, hp, hph⟩ := h.stored i hi
      rcases List.mem_cons.mp hp with rfl | hp
      · obtain rfl : ph = .holding i := hph
        exact absurd hm (h.notMem rfl)
      · exact ⟨p, List.mem_cons_of_mem _ hp, hph⟩
    · exact ⟨_, List.mem_cons_self, hstored i hi hm⟩

/-- A pid that is stored while a process is not holding is that of another process. -/
theorem Owned.stored_other (h : Owned active pidAt ((pid, ph) :: ps)) (hi : pidAt i ≠ 0)
    (hno : i ∉ slotsOf ps) : ph = .holding i := by
  obtain ⟨p, hp, hph⟩ := h.stored i hi
  rcases List.mem_cons.mp hp with rfl | hp
  · exact hph
  · exact absurd (mem_slotsOf hp (by rw [hph]; rfl)) hno

/-- A pid names the process that holds the slot. -/
theorem Owned.holding_of_pid (h : Owned active pidAt ((pid, ph) :: ps)) (hi : pidAt i = pid) :
    ph = .holding i := by
  have hgt : 1 < pid := h.pid_gt (pid, ph) List.mem_cons_self
  obtain ⟨p, hp, hph⟩ := h.stored i (by omega)
  have hpid : p.1 = pid := (h.held p hp i hph).symm.trans hi
  rcases List.mem_cons.mp hp with rfl | hp
  · exact hph
  · exact absurd (List.mem_map.mpr ⟨p, hp, hpid⟩) (List.nodup_cons.mp h.pids).1

/-! ## One rule for each kind of store -/

/-- A phase without a slot, before and after. -/
theorem Owned.rescan (h : Owned active pidAt ((pid, ph) :: ps)) (hph : ph.slot = none)
    (hph' : ph'.slot = none) : Owned active pidAt ((pid, ph') :: ps) := by
  have hsame : slotsOf ((pid, ph') :: ps) = slotsOf ((pid, ph) :: ps) :=
    slotsOf_same (hph.trans hph'.symm)
  have hnot : ∀ i, ph ≠ .holding i := by
    rintro i rfl
    simp [Phase.slot] at hph
  refine h.move (hsame ▸ h.slots) (fun i => hsame ▸ h.active i) ?_ (fun _ _ => rfl) ?_
  · rintro i rfl
    simp [Phase.slot] at hph'
  · intro i hi hno
    exact absurd (h.stored_other hi hno) (hnot i)

/-- A slot is won. -/
theorem Owned.win (h : Owned active pidAt ((pid, ph) :: ps)) (hph : ph.slot = none)
    (hi : active i = false) :
    Owned (Function.update active i true) pidAt ((pid, .claimed i) :: ps) := by
  have hslots : slotsOf ((pid, ph) :: ps) = slotsOf ps := slotsOf_none hph
  have hnot : i ∉ slotsOf ps := by
    intro hm
    rw [← hslots, ← h.active i, hi] at hm
    simp at hm
  have hwon : slotsOf ((pid, .claimed i) :: ps) = i :: slotsOf ps := by
    rw [slotsOf_cons]
    rfl
  refine h.move ?_ (fun j => ?_) (by simp) (fun _ _ => rfl) ?_
  · rw [hwon]
    exact List.nodup_cons.mpr ⟨hnot, hslots ▸ h.slots⟩
  · have hj := h.active j
    rw [hslots] at hj
    rw [hwon]
    by_cases hij : j = i
    · subst hij
      simp
    · simpa [Function.update_of_ne hij, hij] using hj
  · intro j hj hno
    rw [h.stored_other hj hno] at hph
    simp [Phase.slot] at hph

/-- The pid is stored. -/
theorem Owned.storePid (h : Owned active pidAt ((pid, .claimed i) :: ps)) :
    Owned active (Function.update pidAt i pid) ((pid, .holding i) :: ps) := by
  have hsame : slotsOf ((pid, .holding i) :: ps) = slotsOf ((pid, .claimed i) :: ps) :=
    slotsOf_same rfl
  refine h.move (hsame ▸ h.slots) (fun j => hsame ▸ h.active j) ?_ (fun j hj => ?_) fun j hj hno => ?_
  · rintro _ ⟨⟩
    simp
  · have hne : j ≠ i := by
      rintro rfl
      exact h.notMem rfl hj
    exact Function.update_of_ne hne _ _
  · by_cases hij : j = i
    · rw [hij]
    · rw [Function.update_of_ne hij] at hj
      exact absurd (h.stored_other hj hno) (by simp)

/-- The pid is cleared. -/
theorem Owned.clearPid (h : Owned active pidAt ((pid, .holding i) :: ps)) :
    Owned active (Function.update pidAt i 0) ((pid, .leaving i) :: ps) := by
  have hsame : slotsOf ((pid, .leaving i) :: ps) = slotsOf ((pid, .holding i) :: ps) :=
    slotsOf_same rfl
  refine h.move (hsame ▸ h.slots) (fun j => hsame ▸ h.active j) (by simp) (fun j hj => ?_)
    fun j hj hno => ?_
  · have hne : j ≠ i := by
      rintro rfl
      exact h.notMem rfl hj
    exact Function.update_of_ne hne _ _
  · by_cases hij : j = i
    · rw [hij] at hj
      simp at hj
    · rw [Function.update_of_ne hij] at hj
      have hheld := h.stored_other hj hno
      simp only [Phase.holding.injEq] at hheld
      exact absurd hheld.symm hij

/-- `active` is cleared. -/
theorem Owned.free (h : Owned active pidAt ((pid, .leaving i) :: ps)) :
    Owned (Function.update active i false) pidAt ((pid, .done) :: ps) := by
  have hslots : slotsOf ((pid, .done) :: ps) = slotsOf ps := rfl
  have hnot : i ∉ slotsOf ps := h.notMem rfl
  refine h.move (hslots ▸ (List.nodup_cons.mp h.slots).2) (fun j => ?_) (by simp) (fun _ _ => rfl)
    fun j hj hno => ?_
  · have hj := h.active j
    by_cases hij : j = i
    · subst hij
      simp [hslots, hnot]
    · rw [Function.update_of_ne hij, hj, slotsOf_cons, hslots]
      simp [Phase.slot, hij]
  · exact absurd (h.stored_other hj hno) (by simp)

theorem Owned.fork (h : Owned active pidAt ps) (hpid : 1 < pid) (hfresh : ∀ p ∈ ps, p.1 ≠ pid) :
    Owned active pidAt ((pid, .scanning 0) :: ps) where
  pids := by
    refine List.nodup_cons.mpr ⟨fun hm => ?_, h.pids⟩
    obtain ⟨p, hp, hpp⟩ := List.mem_map.mp hm
    exact hfresh p hp hpp
  pid_gt := by
    rintro p (_ | ⟨_, hp⟩)
    · exact hpid
    · exact h.pid_gt p hp
  slots := h.slots
  active := h.active
  held := by
    rintro p (_ | ⟨_, hp⟩) j hj
    · simp at hj
    · exact h.held p hp j hj
  stored := by
    intro j hj
    obtain ⟨p, hp, hph⟩ := h.stored j hj
    exact ⟨p, List.mem_cons_of_mem _ hp, hph⟩

/-- A process without a slot is forgotten. -/
theorem Owned.drop (h : Owned active pidAt ((pid, ph) :: ps)) (hph : ph.slot = none) :
    Owned active pidAt ps := by
  have hslots : slotsOf ((pid, ph) :: ps) = slotsOf ps := slotsOf_none hph
  exact {
    pids := (List.nodup_cons.mp h.pids).2
    pid_gt := fun p hp => h.pid_gt p (List.mem_cons_of_mem _ hp)
    slots := hslots ▸ h.slots
    active := fun j => hslots ▸ h.active j
    held := fun p hp => h.held p (List.mem_cons_of_mem _ hp)
    stored := fun j hj => by
      obtain ⟨p, hp, hpj⟩ := h.stored j hj
      rcases List.mem_cons.mp hp with rfl | hp
      · obtain rfl : ph = .holding j := hpj
        simp [Phase.slot] at hph
      · exact ⟨p, hp, hpj⟩ }

end

/-! ## Any access -/

/-- The `active` flags. -/
def StatsMap.actives (m : StatsMap) (i : Nat) : Bool := (m.at i).active

/-- The pids. -/
def StatsMap.pids (m : StatsMap) (i : Nat) : Int := (m.at i).pid

theorem lt_of_active {m : StatsMap} {i : Nat} (h : m.actives i = true) : i < fpMaxClients := by
  by_contra hge
  have hnone : m.slots[i]? = none := by
    rw [List.getElem?_eq_none_iff, m.slots_length]
    omega
  simp [StatsMap.actives, StatsMap.at, hnone, StatsConn.zero] at h

theorem at_modify {m : StatsMap} {index : Nat} {f : StatsConn → StatsConn} (h : index < fpMaxClients)
    (i : Nat) : (m.modify index f).at i = if i = index then f (m.at index) else m.at i := by
  simp only [StatsMap.at, StatsMap.modify_slots, List.getElem?_modify]
  by_cases hi : i = index
  · subst hi
    simp [StatsMap.slot_at h]
  · simp [hi, Ne.symm hi]

theorem actives_modify {m : StatsMap} {index : Nat} {f : StatsConn → StatsConn}
    (h : index < fpMaxClients) :
    (m.modify index f).actives = Function.update m.actives index (f (m.at index)).active := by
  funext i
  simp only [StatsMap.actives, at_modify h, Function.update_apply]
  split <;> rfl

theorem pids_modify {m : StatsMap} {index : Nat} {f : StatsConn → StatsConn}
    (h : index < fpMaxClients) :
    (m.modify index f).pids = Function.update m.pids index (f (m.at index)).pid := by
  funext i
  simp only [StatsMap.pids, at_modify h, Function.update_apply]
  split <;> rfl

section

variable {m m' : StatsMap} {ps : List (Int × Phase)} {pid : Int} {ph ph' : Phase}

/-- An access that leaves `active` and `pid` of all slots alone. -/
theorem Owned.same (h : Owned m.actives m.pids ps) (hactives : m'.actives = m.actives)
    (hpids : m'.pids = m.pids) : Owned m'.actives m'.pids ps := by
  rwa [hactives, hpids]

theorem apply_active {field : SlotStore} (h : field ≠ .inactive) (slot : StatsConn) :
    (field.apply slot).active = slot.active := by
  cases field with
  | inactive => exact absurd rfl h
  | bytes direction value => cases direction <;> rfl
  | _ => rfl

theorem apply_pid {field : SlotStore} (h : ∀ value, field ≠ .pid value) (slot : StatsConn) :
    (field.apply slot).pid = slot.pid := by
  cases field with
  | pid value => exact absurd rfl (h value)
  | bytes direction value => cases direction <;> rfl
  | _ => rfl

/-- A change of a slot that leaves `active` and `pid` alone. -/
theorem Owned.modify (h : Owned m.actives m.pids ps) {index : Nat} (hindex : index < fpMaxClients)
    {f : StatsConn → StatsConn} (hactive : ∀ slot, (f slot).active = slot.active)
    (hpid : ∀ slot, (f slot).pid = slot.pid) :
    Owned (m.modify index f).actives (m.modify index f).pids ps := by
  have hactives : Function.update m.actives index (m.at index).active = m.actives :=
    Function.update_eq_self index m.actives
  have hpids : Function.update m.pids index (m.at index).pid = m.pids :=
    Function.update_eq_self index m.pids
  rw [actives_modify hindex, pids_modify hindex, hactive, hpid, hactives, hpids]
  exact h

/-- A store to the slot of a process. -/
theorem owned_store (h : Owned m.actives m.pids ((pid, ph) :: ps)) {index : Nat} {field : SlotStore}
    (hslot : ph.slot = some index) (hstored : ph.stored pid field = some ph') :
    Owned (m.modify index fun slot => field.apply slot).actives
      (m.modify index fun slot => field.apply slot).pids ((pid, ph') :: ps) := by
  have hindex : index < fpMaxClients :=
    lt_of_active ((h.active index).mpr (mem_slotsOf List.mem_cons_self hslot))
  have hactive : Function.update m.actives index (m.at index).active = m.actives :=
    Function.update_eq_self index m.actives
  have hpid : Function.update m.pids index (m.at index).pid = m.pids :=
    Function.update_eq_self index m.pids
  -- the other fields are stored at any time
  have hquiet : field ≠ .inactive → (∀ value, field ≠ .pid value) → ph = ph' →
      Owned (m.modify index fun slot => field.apply slot).actives
        (m.modify index fun slot => field.apply slot).pids ((pid, ph') :: ps) := by
    rintro hfield hvalue rfl
    exact h.modify hindex (apply_active hfield) (apply_pid hvalue)
  cases ph with
  | scanning => simp [Phase.slot] at hslot
  | done => simp [Phase.slot] at hslot
  | claimed i =>
    obtain rfl : i = index := Option.some.inj hslot
    cases field with
    | pid value =>
      by_cases hvalue : value = pid
      · obtain rfl : Phase.holding i = ph' := by simpa [Phase.stored, hvalue] using hstored
        rw [actives_modify hindex, pids_modify hindex]
        simpa only [SlotStore.apply, hactive, hvalue] using h.storePid
      · simp [Phase.stored, hvalue] at hstored
    | inactive => simp [Phase.stored] at hstored
    | _ => exact hquiet (by simp) (by simp) (Option.some.inj hstored)
  | holding i =>
    obtain rfl : i = index := Option.some.inj hslot
    cases field with
    | pid value =>
      by_cases hvalue : value = 0
      · obtain rfl : Phase.leaving i = ph' := by simpa [Phase.stored, hvalue] using hstored
        rw [actives_modify hindex, pids_modify hindex]
        simpa only [SlotStore.apply, hactive, hvalue] using h.clearPid
      · simp [Phase.stored, hvalue] at hstored
    | inactive => simp [Phase.stored] at hstored
    | _ => exact hquiet (by simp) (by simp) (Option.some.inj hstored)
  | leaving i =>
    obtain rfl : i = index := Option.some.inj hslot
    cases field with
    | pid value => simp [Phase.stored] at hstored
    | inactive =>
      obtain rfl : Phase.done = ph' := Option.some.inj hstored
      rw [actives_modify hindex, pids_modify hindex]
      simpa only [SlotStore.apply, hpid] using h.free
    | _ => exact hquiet (by simp) (by simp) (Option.some.inj hstored)

/-- **Any access of a process keeps the slots owned.** -/
theorem owned_advance (h : Owned m.actives m.pids ((pid, ph) :: ps)) {e : MapOp} {r : MapResp e}
    (hadvance : ph.advanceMap pid e r = some ph') (hr : mapSem e () m = (r, m')) :
    Owned m'.actives m'.pids ((pid, ph') :: ps) := by
  cases e with
  | cas index =>
    simp only [Phase.advanceMap] at hadvance
    by_cases hph : ph = .scanning index ∧ index < fpMaxClients
    swap
    · simp [hph] at hadvance
    rw [if_pos hph, Option.some.injEq] at hadvance
    obtain ⟨rfl, hindex⟩ := hph
    by_cases hactive : (m.at index).active = true
    · obtain ⟨rfl, rfl⟩ := Prod.mk.inj ((if_pos hactive).symm.trans hr)
      subst hadvance
      exact h.rescan rfl rfl
    · obtain ⟨rfl, rfl⟩ := Prod.mk.inj ((if_neg hactive).symm.trans hr)
      subst hadvance
      rw [actives_modify hindex, pids_modify hindex]
      have hpid : Function.update m.pids index (m.at index).pid = m.pids :=
        Function.update_eq_self index m.pids
      simp only [hpid]
      exact h.win rfl (by simpa [StatsMap.actives] using hactive)
  | store index field =>
    obtain ⟨rfl, rfl⟩ := Prod.mk.inj hr
    simp only [Phase.advanceMap] at hadvance
    by_cases hslot : ph.slot = some index
    · rw [if_pos hslot] at hadvance
      exact owned_store h hslot hadvance
    · simp [hslot] at hadvance
  | addTotal direction bytes =>
    obtain ⟨rfl, rfl⟩ := Prod.mk.inj hr
    obtain rfl : ph = ph' := Option.some.inj hadvance
    cases direction <;> exact h.same rfl rfl
  | loadActive index =>
    obtain ⟨rfl, rfl⟩ := Prod.mk.inj hr
    obtain rfl : ph = ph' := Option.some.inj hadvance
    exact h
  | loadPid index =>
    obtain ⟨rfl, rfl⟩ := Prod.mk.inj hr
    obtain rfl : ph = ph' := Option.some.inj hadvance
    exact h
  | loadBytes index direction =>
    obtain ⟨rfl, rfl⟩ := Prod.mk.inj hr
    obtain rfl : ph = ph' := Option.some.inj hadvance
    exact h

end

/-! ## The clear of a dead worker -/

/-- Where the daemon is in its clear, and what the dead worker still has. -/
def SweepPos.Agrees : SweepPos → Phase → Prop
  | .before index, ph | .saw index, ph => ph.slot = none ∨ ∃ i, index ≤ i ∧ ph = .holding i
  | .wiping index, ph => ph = .holding index
  | .wiped index, ph => ph = .leaving index

section

variable {m m' : StatsMap} {ps : List (Int × Phase)} {pid : Int} {ph : Phase} {pos pos' : SweepPos}

/-- The slot `index` is not that of the dead worker, so the clear goes on behind it. -/
theorem agrees_next {index : Nat} (h : (SweepPos.before index).Agrees ph) (hne : ph ≠ .holding index) :
    (SweepPos.before (index + 1)).Agrees ph := by
  rcases h with hnone | ⟨i, hi, rfl⟩
  · exact .inl hnone
  · refine .inr ⟨i, ?_, rfl⟩
    have hne' : index ≠ i := by
      rintro rfl
      exact hne rfl
    omega

/-- A store of the clear. -/
theorem sweep_store {index : Nat} {field : SlotStore} (hagrees : pos.Agrees ph)
    (hslot : pos.slot = some index) (hstored : pos.stored field = some pos') :
    ∃ ph', ph.advanceMap pid (.store index field) () = some ph' ∧ pos'.Agrees ph' := by
  cases pos with
  | before => simp [SweepPos.slot] at hslot
  | saw => simp [SweepPos.slot] at hslot
  | wiping i =>
    obtain rfl : i = index := Option.some.inj hslot
    obtain rfl : ph = .holding i := hagrees
    simp only [Phase.advanceMap, Phase.slot, if_true]
    cases field with
    | pid value =>
      by_cases hvalue : value = 0
      · obtain rfl : SweepPos.wiped i = pos' := by simpa [SweepPos.stored, hvalue] using hstored
        exact ⟨.leaving i, if_pos hvalue, rfl⟩
      · simp [SweepPos.stored, hvalue] at hstored
    | inactive => simp [SweepPos.stored] at hstored
    | _ =>
      obtain rfl : SweepPos.wiping i = pos' := Option.some.inj hstored
      exact ⟨.holding i, rfl, rfl⟩
  | wiped i =>
    obtain rfl : i = index := Option.some.inj hslot
    obtain rfl : ph = .leaving i := hagrees
    simp only [Phase.advanceMap, Phase.slot, if_true]
    cases field with
    | pid value => simp [SweepPos.stored] at hstored
    | inactive =>
      obtain rfl : SweepPos.before (i + 1) = pos' := Option.some.inj hstored
      exact ⟨.done, rfl, .inl rfl⟩
    | _ =>
      obtain rfl : SweepPos.wiped i = pos' := Option.some.inj hstored
      exact ⟨.leaving i, rfl, rfl⟩

/-- **Each access of a clear is one the dead worker could have made itself.** -/
theorem sweep_advance (h : Owned m.actives m.pids ((pid, ph) :: ps)) (hagrees : pos.Agrees ph)
    {e : MapOp} {r : MapResp e} (hadvance : pos.advance pid e r = some pos')
    (hr : mapSem e () m = (r, m')) :
    ∃ ph', ph.advanceMap pid e r = some ph' ∧ pos'.Agrees ph' := by
  cases e with
  | cas => simp [SweepPos.advance] at hadvance
  | loadBytes => simp [SweepPos.advance] at hadvance
  | addTotal => simp [SweepPos.advance] at hadvance
  | loadActive index =>
    obtain ⟨rfl, rfl⟩ := Prod.mk.inj hr
    simp only [SweepPos.advance] at hadvance
    by_cases hpos : pos = .before index
    swap
    · simp [hpos] at hadvance
    rw [if_pos hpos, Option.some.injEq] at hadvance
    subst hpos hadvance
    refine ⟨ph, rfl, ?_⟩
    cases hactive : (m.at index).active with
    | true => exact hagrees
    | false =>
      refine agrees_next hagrees ?_
      rintro rfl
      have hon := (h.active index).mpr (mem_slotsOf List.mem_cons_self rfl)
      rw [StatsMap.actives, hactive] at hon
      simp at hon
  | loadPid index =>
    obtain ⟨rfl, rfl⟩ := Prod.mk.inj hr
    simp only [SweepPos.advance] at hadvance
    by_cases hpos : pos = .saw index
    swap
    · simp [hpos] at hadvance
    rw [if_pos hpos, Option.some.injEq] at hadvance
    subst hpos hadvance
    refine ⟨ph, rfl, ?_⟩
    by_cases hheld : (m.at index).pid = pid
    · rw [if_pos hheld]
      exact h.holding_of_pid hheld
    · rw [if_neg hheld]
      refine agrees_next hagrees ?_
      rintro rfl
      exact hheld (h.held _ List.mem_cons_self index rfl)
  | store index field =>
    simp only [SweepPos.advance] at hadvance
    by_cases hslot : pos.slot = some index
    · rw [if_pos hslot] at hadvance
      exact sweep_store hagrees hslot hadvance
    · simp [hslot] at hadvance

/-- A clear that has looked at every slot leaves the dead worker none. -/
theorem slot_none_of_agrees (h : Owned m.actives m.pids ((pid, ph) :: ps))
    (hagrees : (SweepPos.before fpMaxClients).Agrees ph) : ph.slot = none := by
  rcases hagrees with hnone | ⟨i, hi, rfl⟩
  · exact hnone
  · have hlt := lt_of_active ((h.active i).mpr (mem_slotsOf List.mem_cons_self rfl))
    omega

end

/-! ## Runs -/

/-- The processes that may have slots: the workers, and the one that is cleared. -/
def Pool.holders (s : Pool) : List (Int × Phase) :=
  (s.sweep.toList.map Sweep.worker ++ s.workers).map fun w => (w.pid, w.phase)

theorem holders_idle {s : Pool} (h : s.sweep = none) :
    s.holders = s.workers.map fun w => (w.pid, w.phase) := by
  simp [Pool.holders, h]

theorem holders_sweeping {s : Pool} {sweep : Sweep} (h : s.sweep = some sweep) :
    s.holders = (sweep.worker.pid, sweep.worker.phase) ::
      s.workers.map fun w => (w.pid, w.phase) := by
  simp [Pool.holders, h]

/-- What holds in every state. -/
structure PoolInv (s : Pool) : Prop where
  owned : Owned s.map.actives s.map.pids s.holders
  running : ∀ w ∈ s.workers, w.running = true →
    Follows (Phase.advance w.pid) w.code (fun _ ph => ph.Settled) w.phase
  stopped : ∀ w ∈ s.workers, w.running = false → w.phase.Settled
  sweeping : ∀ sweep, s.sweep = some sweep → sweep.pos.Agrees sweep.worker.phase ∧
    Follows (SweepPos.advance sweep.worker.pid) sweep.code
      (fun _ pos => pos = .before fpMaxClients) sweep.pos

theorem poolInv_initial {s : Pool} (h : s.Initial) : PoolInv s := by
  obtain ⟨hmap, hworkers, hsweep, -⟩ := h
  have hholders : s.holders = [] := by rw [holders_idle hsweep, hworkers, List.map_nil]
  have hat : ∀ i, s.map.at i = .zero := by
    intro i
    simp only [hmap, StatsMap.at, StatsMap.zero, List.getElem?_replicate]
    split <;> rfl
  refine ⟨?_, by simp [hworkers], by simp [hworkers], by simp [hsweep]⟩
  rw [hholders]
  refine ⟨List.nodup_nil, by simp, List.nodup_nil, fun i => ?_, by simp, fun i hi => ?_⟩
  · simp [StatsMap.actives, hat, StatsConn.zero, slotsOf]
  · simp [StatsMap.pids, hat, StatsConn.zero] at hi

section

variable {s : Pool} {w w' : Worker} {rest : List Worker}

/-- The processes of a pool with one worker named. -/
theorem holders_perm (hw : s.workers.Perm (w :: rest)) :
    s.holders.Perm ((w.pid, w.phase) ::
      (s.sweep.toList.map Sweep.worker ++ rest).map fun w => (w.pid, w.phase)) := by
  unfold Pool.holders
  refine ((hw.append_left _).trans List.perm_middle).map _

/-- A property of all workers, for the pool in which one worker has become another one. -/
theorem forall_workers (hw : s.workers.Perm (w :: rest)) {P : Worker → Prop}
    (h : ∀ v ∈ s.workers, P v) (hw' : P w') : ∀ v ∈ w' :: rest, P v := by
  rintro v (_ | ⟨_, hv⟩)
  · exact hw'
  · exact h v (hw.mem_iff.mpr (List.mem_cons_of_mem _ hv))

/-- The owned slots, for the pool in which one worker has moved. -/
theorem owned_worker (h : PoolInv s) (hw : s.workers.Perm (w :: rest)) {m : StatsMap}
    (hmove : ∀ ps, Owned s.map.actives s.map.pids ((w.pid, w.phase) :: ps) →
      Owned m.actives m.pids ((w'.pid, w'.phase) :: ps)) :
    Owned m.actives m.pids { s with map := m, workers := w' :: rest }.holders := by
  have hperm : { s with map := m, workers := w' :: rest }.holders.Perm _ :=
    holders_perm (List.Perm.refl (w' :: rest))
  exact (hmove _ (h.owned.perm (holders_perm hw))).perm hperm.symm

/-- The worker ends, or is killed. -/
theorem poolInv_stopped (h : PoolInv s) (hw : s.workers.Perm (w :: rest)) (hsettled : w.phase.Settled) :
    PoolInv { s with workers := w.stopped :: rest } where
  owned := owned_worker h hw fun _ h => h
  running := forall_workers hw h.running (by simp [Worker.stopped])
  stopped := forall_workers hw h.stopped fun _ => hsettled
  sweeping := h.sweeping

theorem poolInv_access (h : PoolInv s) (hw : s.workers.Perm (w :: rest)) (hrunning : w.running = true)
    {e : WorkerOp} {k : WorkerResp e → WorkerProg Unit} {r : WorkerResp e} {m' : StatsMap}
    (hcode : w.code.next = .call e k) (hr : answered s.map e r m') :
    PoolInv { s with map := m', workers := w.after e r (k r) :: rest } := by
  have hfollows := h.running w (hw.mem_iff.mpr List.mem_cons_self) hrunning
  obtain ⟨ph', hadvance, hrest⟩ := (follows_next hcode).mp hfollows r
  have hphase : (w.after e r (k r)).phase = ph' := by
    simp only [Worker.after, hadvance, Option.getD_some]
  refine ⟨owned_worker h hw fun ps howned => ?_, forall_workers hw h.running fun _ => ?_,
    forall_workers hw h.stopped fun hstopped => ?_, h.sweeping⟩
  · rw [hphase]
    cases e with
    | map e => exact owned_advance howned hadvance hr
    | setSlot slotIndex =>
      obtain rfl : m' = s.map := hr
      rwa [(Phase.advance_setSlot hadvance).2]
    | _ =>
      obtain rfl : m' = s.map := hr
      rwa [← Option.some.inj hadvance]
  · rw [hphase]
    exact hrest
  · simp [Worker.after, hrunning] at hstopped

theorem poolInv_step {s' : Pool} {ev : PoolEvent} (h : PoolInv s) (hok : killsSettled s ev)
    (hs : PoolStep s ev s') : PoolInv s' := by
  cases hs with
  | fork hsweep hpid hfresh destination now =>
    refine ⟨?_, ?_, ?_, h.sweeping⟩
    · rw [holders_idle (by exact hsweep)]
      refine (holders_idle hsweep ▸ h.owned).fork hpid fun p hp => ?_
      obtain ⟨w, hw, rfl⟩ := List.mem_map.mp hp
      exact hfresh w hw
    · rintro w (_ | ⟨_, hw⟩)
      · exact fun _ => follows_handleClient destination now
      · exact h.running w hw
    · rintro w (_ | ⟨_, hw⟩)
      · simp [Worker.forked]
      · exact h.stopped w hw
  | access hw hrunning hcode hr => exact poolInv_access h hw hrunning hcode hr
  | @exit w _ hw hrunning hcode =>
    have hfollows := h.running w (hw.mem_iff.mpr List.mem_cons_self) hrunning
    rw [hcode, follows_ret] at hfollows
    exact poolInv_stopped h hw hfollows
  | @kill w _ hw hrunning =>
    exact poolInv_stopped h hw (hok w (hw.mem_iff.mpr List.mem_cons_self) rfl)
  | @wait w rest hsweep hw hstopped =>
    have hmem := hw.mem_iff.mpr (List.mem_cons_self (a := w))
    have howned := h.owned.perm (holders_perm hw)
    simp only [hsweep, Option.toList_none, List.map_nil, List.nil_append] at howned
    have hrest : ∀ v ∈ rest, v ∈ s.workers := fun v hv => hw.mem_iff.mpr (List.mem_cons_of_mem _ hv)
    refine ⟨howned, fun v hv => h.running v (hrest v hv), fun v hv => h.stopped v (hrest v hv), ?_⟩
    rintro sweep ⟨⟩
    have hsettled := h.stopped w hmem hstopped
    refine ⟨?_, follows_clearPid (howned.pid_gt _ List.mem_cons_self)⟩
    cases hph : w.phase with
    | scanning i => exact .inl rfl
    | holding i => exact .inr ⟨i, Nat.zero_le i, rfl⟩
    | done => exact .inl rfl
    | claimed i => exact absurd hsettled (by rw [hph]; exact id)
    | leaving i => exact absurd hsettled (by rw [hph]; exact id)
  | @clear sweep e k r m' hsweep hcode hr =>
    obtain ⟨hagrees, hfollows⟩ := h.sweeping sweep hsweep
    obtain ⟨pos', hpos, hrest⟩ := (follows_next hcode).mp hfollows r
    have howned := holders_sweeping hsweep ▸ h.owned
    obtain ⟨ph', hadvance, hagrees'⟩ := sweep_advance howned hagrees hpos hr
    refine ⟨?_, h.running, h.stopped, ?_⟩
    · rw [holders_sweeping rfl]
      simp only [Sweep.after, hadvance, Option.getD_some]
      exact owned_advance howned hadvance hr
    · rintro _ ⟨⟩
      simp only [Sweep.after, hadvance, hpos, Option.getD_some]
      exact ⟨hagrees', hrest⟩
  | @forget sweep hsweep hcode =>
    obtain ⟨hagrees, hfollows⟩ := h.sweeping sweep hsweep
    rw [hcode] at hfollows
    rw [follows_ret.mp hfollows] at hagrees
    have howned := holders_sweeping hsweep ▸ h.owned
    refine ⟨howned.drop (slot_none_of_agrees howned hagrees), h.running, h.stopped, by simp⟩

end

/-- **No slot is leaked**, as long as no worker is killed where its slot has no pid. -/
theorem slots_not_leaked {s : Pool} (h : Reach Pool.Initial killsSettled PoolStep s)
    (hworkers : s.workers = []) (hsweep : s.sweep = none) : ∀ slot ∈ s.map.slots, slot.active = false := by
  have hinv : PoolInv s := h.inv (fun _ => poolInv_initial) fun _ _ _ hI hok hs => poolInv_step hI hok hs
  have hholders : s.holders = [] := by rw [holders_idle hsweep, hworkers, List.map_nil]
  have howned := hinv.owned
  rw [hholders] at howned
  intro slot hslot
  obtain ⟨i, hi, rfl⟩ := List.mem_iff_getElem.mp hslot
  have hat := StatsMap.at_of_slot (List.getElem?_eq_getElem hi)
  rw [Bool.eq_false_iff]
  intro hactive
  have hmem := (howned.active i).mp (by rw [StatsMap.actives, hat, hactive])
  simp [slotsOf] at hmem

/-! ## One worker, killed -/

/-- The environment says yes, and the relay has nothing to pass on. -/
def workerSem : Sem WorkerOp WorkerResp Unit StatsMap
  | .map e, _, m => mapSem e () m
  | .prepare, _, m | .dropPrivileges, _, m | .connectSocks, _, m => (true, m)
  | .setSlot _, _, m => ((), m)
  | .relayed, _, m => (none, m)

theorem answered_workerSem (e : WorkerOp) (m : StatsMap) (r : WorkerResp e) (m' : StatsMap)
    (h : workerSem.rel e m r m') : answered m e r m' := by
  obtain ⟨_, h⟩ := h
  cases e with
  | map e => exact h
  | _ => exact (Prod.mk.inj h).2.symm

/-- The calls of the worker `2` on a map of its own, `n` at most. -/
def callsOf (n : Nat) : List (Ev WorkerOp WorkerResp) :=
  trace workerSem (List.replicate n ()) (handleClient 2 ⟨0, 0⟩ 0) .zero

/-- What it has left to do then, and the map. -/
def leftOf (n : Nat) : WorkerProg Unit × StatsMap :=
  exec workerSem (List.replicate n ()) (handleClient 2 ⟨0, 0⟩ 0) .zero

/-- The worker then. -/
def workerOf (n : Nat) : Worker := (Worker.forked 2 ⟨0, 0⟩ 0).afterAll (leftOf n).1 (callsOf n)

section

variable {ok : Pool → PoolEvent → Prop}

theorem reach_workerOf (hfork : ok ⟨.zero, [], none, 0⟩ (.fork 2))
    (hok : ∀ s pid e, ok s (.access pid e)) (n : Nat) :
    Reach Pool.Initial ok PoolStep ⟨(leftOf n).2, [workerOf n], none, 1⟩ := by
  have hinit : Pool.Initial ⟨.zero, [], none, 0⟩ := ⟨rfl, rfl, rfl, rfl⟩
  have hstep : PoolStep ⟨.zero, [], none, 0⟩ (.fork 2) ⟨.zero, [.forked 2 ⟨0, 0⟩ 0], none, 1⟩ :=
    .fork rfl (by decide) (by simp) ⟨0, 0⟩ 0
  have hcalls : Steps workerSem.rel (handleClient 2 ⟨0, 0⟩ 0) .zero (callsOf n) (leftOf n).1
      (leftOf n).2 := exec_steps _ _ _
  exact reach_worker hok (hcalls.map id answered_workerSem) ((Reach.init hinit).step hfork hstep) rfl rfl rfl rfl

/-- The worker is killed and reaped. -/
theorem reach_killed (hok : ∀ s ev, (∀ pid, ev ≠ .kill pid) → ok s ev) {n : Nat}
    (hkill : ok ⟨(leftOf n).2, [workerOf n], none, 1⟩ (.kill 2)) :
    Reach Pool.Initial ok PoolStep ⟨fpStatsClearPid (leftOf n).2 2, [], none, 0⟩ := by
  have hreach := reach_workerOf (hok _ _ (by simp)) (fun s _ _ => hok s _ (by simp)) n
  have hpid : (workerOf n).pid = 2 := Worker.afterAll_pid _ _
  have hrunning : (workerOf n).running = true := Worker.afterAll_running _ _
  have hstep : PoolStep ⟨(leftOf n).2, [workerOf n], none, 1⟩ (.kill (workerOf n).pid)
      ⟨(leftOf n).2, [(workerOf n).stopped], none, 1⟩ := .kill (List.Perm.refl _) hrunning
  rw [hpid] at hstep
  have hreaped := reach_reaped hok (hreach.step hkill hstep) rfl (List.Perm.refl _) rfl
  have hstopped : (workerOf n).stopped.pid = 2 := hpid
  rwa [hstopped] at hreaped

end

/-- A worker that is killed while it relays is cleaned up after. -/
theorem slots_not_leaked_killed :
    ((fpStatsClearPid (leftOf 12).2 2).slots.all fun slot => !slot.active) = true := by
  have hsettled : (workerOf 12).phase.Settled := by decide +kernel
  have hkill : killsSettled ⟨(leftOf 12).2, [workerOf 12], none, 1⟩ (.kill 2) := by
    rintro w hw -
    rwa [List.mem_singleton.mp hw]
  have hok : ∀ s ev, (∀ pid, ev ≠ .kill pid) → killsSettled s ev := by
    intro s ev hne
    cases ev with
    | kill pid => exact absurd rfl (hne pid)
    | _ => trivial
  rw [List.all_eq_true]
  intro slot hslot
  rw [slots_not_leaked (reach_killed hok hkill) rfl rfl slot hslot]
  rfl

/-- A worker that is killed right after it has won a slot keeps it for ever. -/
theorem slots_leaked : ¬ ∀ s, Reach Pool.Initial anyStep PoolStep s → s.workers = [] →
    s.sweep = none → ∀ slot ∈ s.map.slots, slot.active = false := by
  intro h
  have hfree := h _ (reach_killed (n := 2) (fun _ _ _ => trivial) trivial) rfl rfl
  have htaken : ((fpStatsClearPid (leftOf 2).2 2).slots.all fun slot => !slot.active) = false := by
    decide +kernel
  rw [List.all_eq_false] at htaken
  obtain ⟨slot, hslot, hactive⟩ := htaken
  exact hactive (by rw [hfree slot hslot]; rfl)

end FreeProxy
