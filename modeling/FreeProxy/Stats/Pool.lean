import FreeProxy.Lib.Reach
import FreeProxy.Stats.Code

/-!
# Workers on the map

The daemon and any number of its workers on the shared map, one access at a time: the daemon forks,
the workers run `handleClient`, end or are killed, and the daemon reaps them, clears their slots and
counts them off.

Each worker carries its phase, which its own accesses move and nothing reads (`Phase.advance`): the
slots it has tried, the slot it has won, stored its pid in, and given back. `follows_handleClient`
says that the code keeps to these phases, so that a worker in a run is known by its phase; in the
same way `follows_clearPid` says where the daemon is in `fp_stats_clear_pid`.

Out of scope: a monitor that reads the map (`FreeProxy.Stats.Snapshot`), and a second daemon.
-/

namespace FreeProxy

open Lib

/-! ## The phases of a worker -/

/-- How far a worker has come with its slot. -/
inductive Phase where
  /-- the next slot to try is `index` -/
  | scanning (index : Nat)
  /-- it has won `index`; its pid is not stored yet -/
  | claimed (index : Nat)
  | holding (index : Nat)
  /-- it has cleared the pid of `index`; `active` is not cleared yet -/
  | leaving (index : Nat)
  | done
  deriving DecidableEq

namespace Phase

/-- The slot that is active because of this worker. -/
def slot : Phase → Option Nat
  | .claimed index | .holding index | .leaving index => some index
  | .scanning _ | .done => none

/-- Not between winning a slot and storing the pid, nor between clearing the pid and the slot. -/
def Settled : Phase → Prop
  | .claimed _ | .leaving _ => False
  | _ => True

instance : DecidablePred Settled := fun ph => by
  cases ph <;> unfold Settled <;> infer_instance

/-- What `fp_stats_claim` returns in this phase. -/
def result : Phase → Option Int
  | .holding index => some index
  | .scanning index => if index = fpMaxClients then some (-1) else none
  | _ => none

/-- A store of the process `self` to its own slot. -/
def stored (self : Int) : Phase → SlotStore → Option Phase
  | .claimed i, .pid value => if value = self then some (.holding i) else none
  | .holding i, .pid value => if value = 0 then some (.leaving i) else none
  | .leaving _, .inactive => some .done
  | .claimed _, .inactive | .holding _, .inactive | .leaving _, .pid _ => none
  | .scanning _, _ | .done, _ => none
  | ph, _ => some ph

/-- An access to the map, in the process `self`. -/
def advanceMap (self : Int) (ph : Phase) : (e : MapOp) → MapResp e → Option Phase
  | .cas index, won =>
    if ph = .scanning index ∧ index < fpMaxClients then
      some (bif won then .claimed index else .scanning (index + 1))
    else none
  | .store index field, _ => if ph.slot = some index then ph.stored self field else none
  | .loadActive _, _ | .loadPid _, _ | .loadBytes _ _, _ | .addTotal _ _, _ => some ph

/-- A call of a worker; the slot it keeps is the one it has claimed. -/
def advance (self : Int) (ph : Phase) : (e : WorkerOp) → WorkerResp e → Option Phase
  | .map e, r => ph.advanceMap self e r
  | .setSlot slotIndex, _ => if ph.result = some slotIndex then some ph else none
  | .prepare, _ | .dropPrivileges, _ | .connectSocks, _ | .relayed, _ => some ph

/-- A worker keeps the slot index that its claim has returned, and stays in its phase. -/
theorem advance_setSlot {self slotIndex : Int} {ph ph' : Phase} {r : WorkerResp (.setSlot slotIndex)}
    (h : ph.advance self (.setSlot slotIndex) r = some ph') :
    ph.result = some slotIndex ∧ ph' = ph := by
  simp only [advance] at h
  by_cases hresult : ph.result = some slotIndex
  · rw [if_pos hresult] at h
    exact ⟨hresult, (Option.some.inj h).symm⟩
  · simp [hresult] at h

end Phase

/-- Stores, one after the other, as one step of a protocol. -/
theorem follows_storeAll {Ph : Type} {advance : Ph → (e : MapOp) → MapResp e → Option Ph} {i : Nat}
    {Q : Unit → Ph → Prop} : ∀ {fields : List SlotStore} {ph ph' : Ph},
      fields.foldlM (fun ph field => advance ph (.store i field) ()) ph = some ph' → Q () ph' →
      Follows advance (Code.storeAll i fields) Q ph
  | [], ph, ph', h, hQ => by
    obtain rfl : ph = ph' := Option.some.inj h
    exact follows_ret.mpr hQ
  | field :: fields, ph, ph', h, hQ => by
    obtain ⟨next, hnext, hrest⟩ := Option.bind_eq_some_iff.mp h
    exact follows_bind.mpr (follows_ask.mpr fun _ => ⟨next, hnext, follows_storeAll hrest hQ⟩)

section

variable {self : Int} {i : Nat} {ph : Phase}

/-- The stores of a claim. -/
theorem follows_claimStores (destination : Destination) (now : BitVec 64) :
    Follows (Phase.advanceMap self)
      (Code.storeAll i [.destAddr destination.addr, .destPort destination.port, .pid self,
        .bytes .up 0, .bytes .down 0, .startMs now])
      (fun _ ph => ph = .holding i) (.claimed i) := by
  have hphases : [SlotStore.destAddr destination.addr, .destPort destination.port, .pid self,
      .bytes .up 0, .bytes .down 0, .startMs now].foldlM
        (fun ph field => Phase.advanceMap self ph (.store i field) ()) (.claimed i) =
      some (.holding i) := by
    simp [List.foldlM, Phase.advanceMap, Phase.slot, Phase.stored]
  exact follows_storeAll hphases rfl

/-- The stores of a release. -/
theorem follows_releaseStores :
    Follows (Phase.advanceMap self) (Code.storeAll i Code.releaseStores)
      (fun _ ph => ph = .done) (.holding i) := by
  have hphases : Code.releaseStores.foldlM
      (fun ph field => Phase.advanceMap self ph (.store i field) ()) (.holding i) = some .done := by
    simp [List.foldlM, Code.releaseStores, Phase.advanceMap, Phase.slot, Phase.stored]
  exact follows_storeAll hphases rfl

/-- **A claim** tries one slot after the other, and returns the slot it has won. -/
theorem follows_claim (destination : Destination) (now : BitVec 64) : ∀ remaining index,
    index + remaining = fpMaxClients →
    Follows (Phase.advanceMap self) (Code.claimFrom self destination now remaining index)
      (fun result ph => ph.result = some result) (.scanning index)
  | 0, index, hindex => by
    refine follows_ret.mpr ?_
    rw [Nat.add_zero] at hindex
    exact if_pos hindex
  | remaining + 1, index, hindex => by
    refine follows_bind.mpr (follows_ask.mpr fun won => ?_)
    have hlt : index < fpMaxClients := by omega
    refine ⟨bif won then .claimed index else .scanning (index + 1), if_pos ⟨rfl, hlt⟩, ?_⟩
    cases won with
    | true =>
      refine follows_bind.mpr ((follows_claimStores destination now).mono ?_)
      rintro _ ph rfl
      exact follows_ret.mpr rfl
    | false => exact follows_claim destination now remaining (index + 1) (by omega)

/-- The slot index that a claim has returned is that of its slot, or `-1`. -/
theorem result_cases {v : Int} (h : ph.result = some v) :
    (∃ i : Nat, ph = .holding i ∧ v = i) ∨ (ph = .scanning fpMaxClients ∧ v = -1) := by
  cases ph with
  | holding index => exact .inl ⟨index, rfl, (Option.some.inj h).symm⟩
  | scanning index =>
    simp only [Phase.result] at h
    by_cases hindex : index = fpMaxClients
    · rw [if_pos hindex] at h
      exact .inr ⟨by rw [hindex], (Option.some.inj h).symm⟩
    · simp [hindex] at h
  | claimed index => simp [Phase.result] at h
  | leaving index => simp [Phase.result] at h
  | done => simp [Phase.result] at h

theorem follows_addBytes (direction : Direction) (bytes : BitVec 64) :
    Follows (Phase.advanceMap self) (Code.addBytes i direction bytes)
      (fun _ ph => ph = .holding i) (.holding i) := by
  unfold Code.addBytes
  by_cases hbytes : bytes > 0
  · rw [if_pos hbytes]
    simp [follows_bind, follows_ask, Phase.advanceMap, Phase.slot, Phase.stored]
  · rw [if_neg hbytes]
    exact follows_ret.mpr rfl

/-- An add leaves the phase alone. -/
theorem follows_add {v : Int} (h : ph.result = some v) (bytesUp bytesDown : BitVec 64) :
    Follows (Phase.advanceMap self) (Code.fpStatsAdd self v bytesUp bytesDown)
      (fun _ ph' => ph' = ph) ph := by
  unfold Code.fpStatsAdd
  rcases result_cases h with ⟨i, rfl, rfl⟩ | ⟨rfl, rfl⟩
  swap
  · exact follows_ret.mpr rfl
  split
  · exact follows_ret.mpr rfl
  rw [Int.toNat_natCast]
  refine follows_bind.mpr (follows_ask.mpr fun active => ⟨.holding i, rfl, ?_⟩)
  split
  · exact follows_ret.mpr rfl
  refine follows_bind.mpr (follows_ask.mpr fun pid => ⟨.holding i, rfl, ?_⟩)
  split
  · exact follows_ret.mpr rfl
  refine follows_bind.mpr ((follows_addBytes .up bytesUp).mono ?_)
  rintro _ ph rfl
  exact follows_addBytes .down bytesDown

/-- A release gives the slot back, or has none to give back. -/
theorem follows_release {v : Int} (h : ph.result = some v) :
    Follows (Phase.advanceMap self) (Code.fpStatsRelease self v) (fun _ ph => ph.Settled) ph := by
  unfold Code.fpStatsRelease
  rcases result_cases h with ⟨i, rfl, rfl⟩ | ⟨rfl, rfl⟩
  swap
  · exact follows_ret.mpr trivial
  split
  · exact follows_ret.mpr trivial
  rw [Int.toNat_natCast]
  refine follows_bind.mpr (follows_ask.mpr fun pid => ⟨.holding i, rfl, ?_⟩)
  split
  · exact follows_ret.mpr trivial
  refine follows_releaseStores.mono ?_
  rintro _ ph rfl
  trivial

theorem follows_onMap {α : Type} {p : MapProg α} {Q : α → Phase → Prop}
    (h : Follows (Phase.advanceMap self) p Q ph) : Follows (Phase.advance self) (onMap p) Q ph :=
  follows_hoist (fun _ _ _ => rfl) h

end

/-! ## The worker, whatever the protocol -/

section

variable {Ph : Type} {advance : Ph → (e : WorkerOp) → WorkerResp e → Option Ph} {self : Int} {ph : Ph}

theorem follows_relay {Res : Int → Ph → Prop} (hrelayed : ∀ ph r, advance ph .relayed r = some ph)
    (hadd : ∀ v ph up down, Res v ph →
      Follows advance (onMap (Code.fpStatsAdd self v up down)) (fun _ ph => Res v ph) ph)
    {v : Int} (h : Res v ph) : Follows advance (relay self v) (fun _ ph => Res v ph) ph := by
  refine follows_loop (J := Res v) (B := fun _ ph => Res v ph) (fun ph h r => ⟨ph, hrelayed ph r, ?_⟩)
    (fun _ _ h => follows_ret.mpr h) h
  rcases r with _ | ⟨_ | _, bytes⟩
  · exact follows_ret.mpr h
  · exact follows_bind.mpr ((hadd v ph 0 bytes h).mono fun _ _ h => follows_ret.mpr h)
  · exact follows_bind.mpr ((hadd v ph bytes 0 h).mono fun _ _ h => follows_ret.mpr h)

/-- **A worker keeps to every protocol that its calls on the map keep to.** `Res v` holds when the claim
has returned `v`, `End` where the worker may end. -/
theorem follows_worker (Res : Int → Ph → Prop) (End : Ph → Prop) {destination : Destination}
    {now : BitVec 64} (hprepare : ∀ r, advance ph .prepare r = some ph)
    (hclaim : Follows advance (onMap (Code.fpStatsClaim self destination now)) Res ph)
    (hquiet : ∀ v ph, Res v ph → (∀ r, advance ph (.setSlot v) r = some ph) ∧
      (∀ r, advance ph .dropPrivileges r = some ph) ∧ ∀ r, advance ph .connectSocks r = some ph)
    (hrelayed : ∀ ph r, advance ph .relayed r = some ph)
    (hadd : ∀ v ph up down, Res v ph →
      Follows advance (onMap (Code.fpStatsAdd self v up down)) (fun _ ph => Res v ph) ph)
    (hrelease : ∀ v ph, Res v ph →
      Follows advance (onMap (Code.fpStatsRelease self v)) (fun _ ph => End ph) ph)
    (hend : End ph) : Follows advance (handleClient self destination now) (fun _ ph => End ph) ph := by
  refine follows_bind.mpr (follows_ask.mpr fun prepared => ⟨ph, hprepare prepared, ?_⟩)
  split
  · exact follows_ret.mpr hend
  refine follows_bind.mpr (hclaim.mono fun v ph hv => ?_)
  obtain ⟨hset, hdrop, hconnect⟩ := hquiet v ph hv
  refine follows_bind.mpr (follows_ask.mpr fun r => ⟨ph, hset r, ?_⟩)
  refine follows_bind.mpr (follows_ask.mpr fun dropped => ⟨ph, hdrop dropped, ?_⟩)
  split
  · exact hrelease v ph hv
  refine follows_bind.mpr (follows_ask.mpr fun connected => ⟨ph, hconnect connected, ?_⟩)
  split
  · exact follows_bind.mpr ((follows_relay hrelayed hadd hv).mono fun _ ph h => hrelease v ph h)
  · exact hrelease v ph hv

end

/-- **The worker keeps to its phases**, and never ends between two of a slot's stores. -/
theorem follows_handleClient {self : Int} (destination : Destination) (now : BitVec 64) :
    Follows (Phase.advance self) (handleClient self destination now) (fun _ ph => ph.Settled)
      (.scanning 0) := by
  refine follows_worker (fun v ph => ph.result = some v) Phase.Settled (fun _ => rfl)
    (follows_onMap (follows_claim destination now _ 0 (by simp))) ?_ (fun _ _ => rfl) ?_ ?_ trivial
  · exact fun v ph hv => ⟨fun _ => if_pos hv, fun _ => rfl, fun _ => rfl⟩
  · intro v ph up down hv
    refine follows_onMap ((follows_add hv up down).mono ?_)
    rintro _ _ rfl
    exact hv
  · exact fun v ph hv => follows_onMap (follows_release hv)

/-! ## The positions of a clear -/

/-- How far `fp_stats_clear_pid` has come. -/
inductive SweepPos where
  /-- the next slot to look at is `index` -/
  | before (index : Nat)
  /-- `index` was active; its pid comes next -/
  | saw (index : Nat)
  /-- `index` had the pid; the stores up to its pid come next -/
  | wiping (index : Nat)
  /-- the pid of `index` is cleared; `active` is not cleared yet -/
  | wiped (index : Nat)
  deriving DecidableEq

/-- A store to the slot that is cleared. -/
def SweepPos.stored : SweepPos → SlotStore → Option SweepPos
  | .wiping i, .pid value => if value = 0 then some (.wiped i) else none
  | .wiped i, .inactive => some (.before (i + 1))
  | .wiping _, .inactive | .wiped _, .pid _ => none
  | .before _, _ | .saw _, _ => none
  | pos, _ => some pos

/-- The slot that is cleared. -/
def SweepPos.slot : SweepPos → Option Nat
  | .wiping index | .wiped index => some index
  | .before _ | .saw _ => none

/-- An access of `fp_stats_clear_pid(pid)`. -/
def SweepPos.advance (pid : Int) (pos : SweepPos) : (e : MapOp) → MapResp e → Option SweepPos
  | .loadActive index, active =>
    if pos = .before index then some (bif active then .saw index else .before (index + 1)) else none
  | .loadPid index, held =>
    if pos = .saw index then some (if held = pid then .wiping index else .before (index + 1))
    else none
  | .store index field, _ => if pos.slot = some index then pos.stored field else none
  | .cas _, _ | .loadBytes _ _, _ | .addTotal _ _, _ => none

theorem follows_clearFrom {pid : Int} : ∀ remaining index, index + remaining = fpMaxClients →
    Follows (SweepPos.advance pid) (Code.clearFrom pid remaining index)
      (fun _ pos => pos = .before fpMaxClients) (.before index)
  | 0, index, hindex => by
    rw [Nat.add_zero] at hindex
    exact follows_ret.mpr (by rw [hindex])
  | remaining + 1, index, hindex => by
    have hrest : Follows (SweepPos.advance pid) (Code.clearFrom pid remaining (index + 1))
        (fun _ pos => pos = .before fpMaxClients) (.before (index + 1)) :=
      follows_clearFrom remaining (index + 1) (by omega)
    refine follows_bind.mpr (follows_ask.mpr fun active => ?_)
    refine ⟨bif active then .saw index else .before (index + 1), if_pos rfl, ?_⟩
    cases active with
    | false => exact hrest
    | true =>
      refine follows_bind.mpr (follows_ask.mpr fun held => ?_)
      refine ⟨if held = pid then .wiping index else .before (index + 1), if_pos rfl, ?_⟩
      by_cases hheld : held = pid
      · rw [if_pos hheld, if_pos hheld]
        have hpositions : Code.releaseStores.foldlM
            (fun pos field => SweepPos.advance pid pos (.store index field) ()) (.wiping index) =
            some (.before (index + 1)) := by
          simp [List.foldlM, Code.releaseStores, SweepPos.advance, SweepPos.slot, SweepPos.stored]
        exact follows_bind.mpr (follows_storeAll hpositions hrest)
      · rw [if_neg hheld, if_neg hheld]
        exact hrest

/-- **A clear looks at every slot.** -/
theorem follows_clearPid {pid : Int} (hpid : 1 < pid) :
    Follows (SweepPos.advance pid) (Code.fpStatsClearPid pid)
      (fun _ pos => pos = .before fpMaxClients) (.before 0) := by
  unfold Code.fpStatsClearPid
  rw [if_neg (by omega)]
  exact follows_clearFrom fpMaxClients 0 (by simp)

/-! ## The daemon and its workers -/

/-- A worker of the daemon. -/
structure Worker where
  pid : Int
  /-- what it has left to do -/
  code : WorkerProg Unit
  /-- it has neither ended nor been killed -/
  running : Bool
  /-- `stats_slot`, once assigned -/
  statsSlot : Option Int
  phase : Phase

/-- A worker after the fork. -/
def Worker.forked (pid : Int) (destination : Destination) (now : BitVec 64) : Worker :=
  ⟨pid, handleClient pid destination now, true, none, .scanning 0⟩

/-- The worker has ended, or was killed. -/
def Worker.stopped (w : Worker) : Worker := { w with running := false }

/-- A worker after the call `e`, answered by `r`. -/
def Worker.after (w : Worker) (e : WorkerOp) (r : WorkerResp e) (code : WorkerProg Unit) : Worker :=
  { w with
    code := code
    statsSlot := match e with
      | .setSlot slotIndex => some slotIndex
      | _ => w.statsSlot
    phase := (w.phase.advance w.pid e r).getD w.phase }

/-- `fp_stats_clear_pid` for a worker that `waitpid` has returned. Its stores give back what the
worker could not, so they move the phase of the worker. -/
structure Sweep where
  worker : Worker
  code : MapProg Unit
  pos : SweepPos

/-- The sweep after the access `e`, answered by `r`. -/
def Sweep.after (sweep : Sweep) (e : MapOp) (r : MapResp e) (code : MapProg Unit) : Sweep where
  worker := { sweep.worker with
    phase := (sweep.worker.phase.advanceMap sweep.worker.pid e r).getD sweep.worker.phase }
  code := code
  pos := (sweep.pos.advance sweep.worker.pid e r).getD sweep.pos

/-- The daemon, its workers and the map they share. -/
structure Pool where
  map : StatsMap
  /-- the workers that have not been reaped, in any order -/
  workers : List Worker
  sweep : Option Sweep
  activeClients : Nat

/-- What happens next. -/
inductive PoolEvent where
  | fork (pid : Int)
  /-- one call of a worker -/
  | access (pid : Int) (e : WorkerOp)
  | exit (pid : Int)
  | kill (pid : Int)
  /-- `waitpid` -/
  | wait (pid : Int)
  /-- one access of `fp_stats_clear_pid` -/
  | clear (e : MapOp)
  /-- `--active_clients` -/
  | forget
  deriving DecidableEq

/-- The answer to a call of a worker, and what it does to the map. -/
def answered (m : StatsMap) : (e : WorkerOp) → WorkerResp e → StatsMap → Prop
  | .map e, r, m' => mapSem e () m = (r, m')
  | .prepare, _, m' | .setSlot _, _, m' | .dropPrivileges, _, m' | .connectSocks, _, m'
  | .relayed, _, m' => m' = m

/-- One step of the daemon or of a worker. -/
inductive PoolStep : Pool → PoolEvent → Pool → Prop
  | fork {s : Pool} {pid : Int} (hsweep : s.sweep = none) (hpid : 1 < pid)
      (hfresh : ∀ w ∈ s.workers, w.pid ≠ pid) (destination : Destination) (now : BitVec 64) :
      PoolStep s (.fork pid)
        { s with
          workers := .forked pid destination now :: s.workers
          activeClients := s.activeClients + 1 }
  | access {s : Pool} {w : Worker} {rest : List Worker} {e : WorkerOp}
      {k : WorkerResp e → WorkerProg Unit} {r : WorkerResp e} {m' : StatsMap}
      (hw : s.workers.Perm (w :: rest)) (hrunning : w.running = true) (hcode : w.code.next = .call e k)
      (hr : answered s.map e r m') :
      PoolStep s (.access w.pid e) { s with map := m', workers := w.after e r (k r) :: rest }
  | exit {s : Pool} {w : Worker} {rest : List Worker} (hw : s.workers.Perm (w :: rest))
      (hrunning : w.running = true) (hcode : w.code = .ret ()) :
      PoolStep s (.exit w.pid) { s with workers := w.stopped :: rest }
  | kill {s : Pool} {w : Worker} {rest : List Worker} (hw : s.workers.Perm (w :: rest))
      (hrunning : w.running = true) :
      PoolStep s (.kill w.pid) { s with workers := w.stopped :: rest }
  | wait {s : Pool} {w : Worker} {rest : List Worker} (hsweep : s.sweep = none)
      (hw : s.workers.Perm (w :: rest)) (hstopped : w.running = false) :
      PoolStep s (.wait w.pid)
        { s with workers := rest, sweep := some ⟨w, Code.fpStatsClearPid w.pid, .before 0⟩ }
  | clear {s : Pool} {sweep : Sweep} {e : MapOp} {k : MapResp e → MapProg Unit} {r : MapResp e}
      {m' : StatsMap} (hsweep : s.sweep = some sweep) (hcode : sweep.code.next = .call e k)
      (hr : mapSem e () s.map = (r, m')) :
      PoolStep s (.clear e) { s with map := m', sweep := some (sweep.after e r (k r)) }
  | forget {s : Pool} {sweep : Sweep} (hsweep : s.sweep = some sweep) (hcode : sweep.code = .ret ()) :
      PoolStep s .forget
        { s with
          sweep := none
          activeClients := if 0 < s.activeClients then s.activeClients - 1 else s.activeClients }

/-- The map has just been created, and nobody has been forked. -/
def Pool.Initial (s : Pool) : Prop :=
  s.map = .zero ∧ s.workers = [] ∧ s.sweep = none ∧ s.activeClients = 0

/-- No worker is killed between winning a slot and storing its pid, nor between clearing the pid and
clearing `active`. -/
def killsSettled (s : Pool) : PoolEvent → Prop
  | .kill pid => ∀ w ∈ s.workers, w.pid = pid → w.phase.Settled
  | _ => True

/-! ## Runs -/

/-- The worker after these calls, with `code` left to do. -/
def Worker.afterAll (w : Worker) (code : WorkerProg Unit) : List (Ev WorkerOp WorkerResp) → Worker
  | [] => { w with code := code }
  | ⟨e, r⟩ :: tr => (w.after e r code).afterAll code tr

theorem Worker.afterAll_cons (w : Worker) {e : WorkerOp} (r : WorkerResp e)
    (code between : WorkerProg Unit) (tr : List (Ev WorkerOp WorkerResp)) :
    w.afterAll code (⟨e, r⟩ :: tr) = (w.after e r between).afterAll code tr := by
  cases tr <;> rfl

theorem Worker.afterAll_pid {code : WorkerProg Unit} :
    ∀ (tr : List (Ev WorkerOp WorkerResp)) (w : Worker), (w.afterAll code tr).pid = w.pid
  | [], _ => rfl
  | ⟨e, r⟩ :: tr, w => afterAll_pid tr (w.after e r code)

theorem Worker.afterAll_running {code : WorkerProg Unit} :
    ∀ (tr : List (Ev WorkerOp WorkerResp)) (w : Worker), (w.afterAll code tr).running = w.running
  | [], _ => rfl
  | ⟨e, r⟩ :: tr, w => afterAll_running tr (w.after e r code)

section

variable {ok : Pool → PoolEvent → Prop} {s : Pool} {w : Worker} {rest : List Worker}

/-- One worker runs while all others stand still. -/
theorem reach_worker (hok : ∀ s pid e, ok s (.access pid e)) {p code : WorkerProg Unit}
    {m m' : StatsMap} {tr : List (Ev WorkerOp WorkerResp)}
    (hs : Steps (fun e m r m' => answered m e r m') p m tr code m')
    (h : Reach Pool.Initial ok PoolStep s) (hworkers : s.workers = w :: rest) (hmap : s.map = m)
    (hp : w.code = p) (hrunning : w.running = true) :
    Reach Pool.Initial ok PoolStep { s with map := m', workers := w.afterAll code tr :: rest } := by
  induction hs generalizing s w with
  | refl p m =>
    subst hmap hp
    simpa only [Worker.afterAll, ← hworkers] using h
  | @step p m e k r m₁ tr code m' hn hr _ ih =>
    subst hmap hp
    have hstep := PoolStep.access (List.Perm.of_eq hworkers) hrunning hn hr
    have hrest := ih (h.step (hok s _ e) hstep) rfl rfl rfl hrunning
    rwa [w.afterAll_cons r code (k r) tr]

/-- The daemon clears while all workers stand still. -/
theorem reach_sweep (hok : ∀ s e, ok s (.clear e)) {p code : MapProg Unit} {m m' : StatsMap}
    {tr : List (Ev MapOp MapResp)} (hs : Steps mapRel p m tr code m') {sweep : Sweep}
    (h : Reach Pool.Initial ok PoolStep s) (hsweep : s.sweep = some sweep) (hmap : s.map = m)
    (hp : sweep.code = p) : ∃ sweep', sweep'.code = code ∧
      Reach Pool.Initial ok PoolStep { s with map := m', sweep := some sweep' } := by
  induction hs generalizing s sweep with
  | refl p m =>
    subst hmap hp
    exact ⟨sweep, rfl, by simpa only [← hsweep] using h⟩
  | @step p m e k r m₁ tr code m' hn hr _ ih =>
    subst hmap hp
    obtain ⟨⟨⟩, hr⟩ := hr
    have hnext := h.step (hok s e) (.clear hsweep hn hr)
    obtain ⟨sweep', hcode, hreach⟩ := ih hnext rfl rfl rfl
    exact ⟨sweep', hcode, hreach⟩

/-- **Reaping**: a worker that has stopped is cleared off the map as by one call. -/
theorem reach_reaped (hok : ∀ s ev, (∀ pid, ev ≠ .kill pid) → ok s ev)
    (h : Reach Pool.Initial ok PoolStep s) (hsweep : s.sweep = none)
    (hworkers : s.workers.Perm (w :: rest)) (hstopped : w.running = false) :
    Reach Pool.Initial ok PoolStep
      { s with
        map := fpStatsClearPid s.map w.pid
        workers := rest
        activeClients := if 0 < s.activeClients then s.activeClients - 1 else s.activeClients } := by
  obtain ⟨tr, hclear⟩ := Code.clearPid_runs w.pid s.map
  have hwait := h.step (hok s _ (by simp)) (.wait hsweep hworkers hstopped)
  obtain ⟨sweep, hcode, hswept⟩ := reach_sweep (fun s e => hok s _ (by simp)) hclear hwait rfl rfl rfl
  have hforgot := hswept.step (hok _ .forget (by simp)) (.forget rfl hcode)
  rwa [← hsweep] at hforgot

end

end FreeProxy
