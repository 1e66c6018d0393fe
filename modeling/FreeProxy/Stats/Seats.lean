import FreeProxy.Stats.Slots

/-!
# What a held slot shows

The workers on the map once more, now for what they write: a worker stores the destination, its pid and
the start of the connection one after the other (`fp_stats_claim`), and clears them one after the other
(`fp_stats_release`, or the daemon's `fp_stats_clear_pid` for it). It may be killed anywhere.

* `Stage` is what a worker has still to store; `follows_stages` says that the code keeps to it.
* A slot's `Seat` is moved by the accesses to the slot and read by nobody: it is `held` from the last store
  of a claim to the first clearing store behind it.
* `Seated` is the pool with the seats and the claims that have been won; `SeatStep.pool`: the bookkeeping
  restricts nothing but the clock.

Headline: **`seatInv_step`**, a held slot shows a claim, whoever was killed wherever (`seat_held`).
-/

namespace FreeProxy

open Lib

/-- What a worker calls `fp_stats_claim` for. -/
structure Claim where
  pid : Int
  destination : Destination
  /-- what `monotonic_ms` gives -/
  startMs : BitVec 64
  deriving DecidableEq

namespace Claim

/-- The stores of `fp_stats_claim`, in order. -/
def stores (claim : Claim) : List SlotStore :=
  [.destAddr claim.destination.addr, .destPort claim.destination.port, .pid claim.pid, .bytes .up 0,
    .bytes .down 0, .startMs claim.startMs]

/-- A slot with the fields of a claim. -/
structure Shown (claim : Claim) (slot : StatsConn) : Prop where
  pid : slot.pid = claim.pid
  addr : slot.destAddr = claim.destination.addr
  port : slot.destPort = claim.destination.port
  startMs : slot.startMs = claim.startMs

end Claim

/-! ## The stages of a worker -/

/-- The clearing stores behind the address. -/
def clearingStores : List SlotStore := [.destPort 0, .pid 0, .startMs 0, .inactive]

/-- Which stores a worker has still to make. -/
inductive Stage where
  /-- the next slot to try is `index` -/
  | scanning (index : Nat)
  /-- it has won `index`, and makes the stores `left` of its claim -/
  | filling (index : Nat) (left : List SlotStore)
  | holding (index : Nat)
  /-- it has cleared the address of `index`, and makes the stores `left` -/
  | emptying (index : Nat) (left : List SlotStore)
  | done
  deriving DecidableEq

namespace Stage

/-- A store to the slot `index`. -/
def stored (index : Nat) : Stage → SlotStore → Option Stage
  | .filling i (field :: left), store =>
    if i = index ∧ store = field then some (if left = [] then .holding i else .filling i left) else none
  | .holding i, .bytes _ _ => if i = index then some (.holding i) else none
  | .holding i, .destAddr value =>
    if i = index ∧ value = 0 then some (.emptying i clearingStores) else none
  | .emptying i (field :: left), store =>
    if i = index ∧ store = field then some (if left = [] then .done else .emptying i left) else none
  | _, _ => none

/-- The accesses in the order of the code. An access out of this order has no next stage. -/
def advanceMap (claim : Claim) (st : Stage) : (e : MapOp) → MapResp e → Option Stage
  | .cas index, won =>
    if st = .scanning index ∧ index < fpMaxClients then
      some (bif won then .filling index claim.stores else .scanning (index + 1))
    else none
  | .store index field, _ => st.stored index field
  | .loadActive _, _ | .loadPid _, _ | .loadBytes _ _, _ | .addTotal _ _, _ => some st

/-- A call of the worker that makes this claim. -/
def advance (claim : Claim) (st : Stage) : (e : WorkerOp) → WorkerResp e → Option Stage
  | .map e, r => st.advanceMap claim e r
  | .prepare, _ | .setSlot _, _ | .dropPrivileges, _ | .connectSocks, _ | .relayed, _ => some st

/-- What `fp_stats_claim` returns in this stage. -/
def Returned (v : Int) (st : Stage) : Prop :=
  (∃ i : Nat, st = .holding i ∧ v = i) ∨ (st = .scanning fpMaxClients ∧ v = -1)

end Stage

section

variable {claim : Claim} {i : Nat} {st : Stage}

/-- The stores that are left of a claim. -/
theorem follows_filling : ∀ {left : List SlotStore}, left ≠ [] →
    Follows (Stage.advanceMap claim) (Code.storeAll i left) (fun _ st => st = .holding i) (.filling i left)
  | [], h => absurd rfl h
  | field :: left, _ => by
    refine follows_bind.mpr (follows_ask.mpr fun _ => ?_)
    refine ⟨if left = [] then .holding i else .filling i left, if_pos ⟨rfl, rfl⟩, ?_⟩
    by_cases hleft : left = []
    · rw [if_pos hleft, hleft]
      exact follows_ret.mpr rfl
    · rw [if_neg hleft]
      exact follows_filling hleft

theorem follows_emptying : ∀ {left : List SlotStore}, left ≠ [] →
    Follows (Stage.advanceMap claim) (Code.storeAll i left) (fun _ st => st = .done) (.emptying i left)
  | [], h => absurd rfl h
  | field :: left, _ => by
    refine follows_bind.mpr (follows_ask.mpr fun _ => ?_)
    refine ⟨if left = [] then .done else .emptying i left, if_pos ⟨rfl, rfl⟩, ?_⟩
    by_cases hleft : left = []
    · rw [if_pos hleft, hleft]
      exact follows_ret.mpr rfl
    · rw [if_neg hleft]
      exact follows_emptying hleft

theorem follows_claimStages : ∀ remaining index, index + remaining = fpMaxClients →
    Follows (Stage.advanceMap claim)
      (Code.claimFrom claim.pid claim.destination claim.startMs remaining index) Stage.Returned
      (.scanning index)
  | 0, index, hindex => by
    rw [Nat.add_zero] at hindex
    exact follows_ret.mpr (.inr ⟨by rw [hindex], rfl⟩)
  | remaining + 1, index, hindex => by
    refine follows_bind.mpr (follows_ask.mpr fun won => ?_)
    have hlt : index < fpMaxClients := by omega
    refine ⟨bif won then .filling index claim.stores else .scanning (index + 1), if_pos ⟨rfl, hlt⟩, ?_⟩
    cases won with
    | true =>
      have hstores : claim.stores ≠ [] := by simp [Claim.stores]
      refine follows_bind.mpr ((follows_filling hstores).mono ?_)
      rintro _ _ rfl
      exact follows_ret.mpr (.inl ⟨index, rfl, rfl⟩)
    | false => exact follows_claimStages remaining (index + 1) (by omega)

theorem follows_addBytesStages (direction : Direction) (bytes : BitVec 64) :
    Follows (Stage.advanceMap claim) (Code.addBytes i direction bytes) (fun _ st => st = .holding i)
      (.holding i) := by
  unfold Code.addBytes
  by_cases hbytes : bytes > 0
  · rw [if_pos hbytes]
    simp [follows_bind, follows_ask, Stage.advanceMap, Stage.stored]
  · rw [if_neg hbytes]
    exact follows_ret.mpr rfl

theorem follows_addStages {v : Int} (h : st.Returned v) (bytesUp bytesDown : BitVec 64) :
    Follows (Stage.advanceMap claim) (Code.fpStatsAdd claim.pid v bytesUp bytesDown)
      (fun _ st => st.Returned v) st := by
  unfold Code.fpStatsAdd
  rcases h with ⟨i, rfl, rfl⟩ | ⟨rfl, rfl⟩
  swap
  · exact follows_ret.mpr (.inr ⟨rfl, rfl⟩)
  split
  · exact follows_ret.mpr (.inl ⟨i, rfl, rfl⟩)
  rw [Int.toNat_natCast]
  refine follows_bind.mpr (follows_ask.mpr fun active => ⟨.holding i, rfl, ?_⟩)
  split
  · exact follows_ret.mpr (.inl ⟨i, rfl, rfl⟩)
  refine follows_bind.mpr (follows_ask.mpr fun pid => ⟨.holding i, rfl, ?_⟩)
  split
  · exact follows_ret.mpr (.inl ⟨i, rfl, rfl⟩)
  refine follows_bind.mpr ((follows_addBytesStages .up bytesUp).mono ?_)
  rintro _ _ rfl
  refine (follows_addBytesStages .down bytesDown).mono ?_
  rintro _ _ rfl
  exact .inl ⟨i, rfl, rfl⟩

theorem follows_releaseStages {v : Int} (h : st.Returned v) :
    Follows (Stage.advanceMap claim) (Code.fpStatsRelease claim.pid v) (fun _ _ => True) st := by
  unfold Code.fpStatsRelease
  rcases h with ⟨i, rfl, rfl⟩ | ⟨rfl, rfl⟩
  swap
  · exact follows_ret.mpr trivial
  split
  · exact follows_ret.mpr trivial
  rw [Int.toNat_natCast]
  refine follows_bind.mpr (follows_ask.mpr fun pid => ⟨.holding i, rfl, ?_⟩)
  split
  · exact follows_ret.mpr trivial
  -- the counters are stored as by an add
  refine follows_bind.mpr (follows_ask.mpr fun _ => ⟨.holding i, if_pos rfl, ?_⟩)
  refine follows_bind.mpr (follows_ask.mpr fun _ => ⟨.holding i, if_pos rfl, ?_⟩)
  refine follows_bind.mpr (follows_ask.mpr fun _ => ⟨.emptying i clearingStores, if_pos ⟨rfl, rfl⟩, ?_⟩)
  exact (follows_emptying (by simp)).mono fun _ _ _ => trivial

/-- **The worker keeps to its stages.** -/
theorem follows_stages (claim : Claim) :
    Follows (Stage.advance claim) (handleClient claim.pid claim.destination claim.startMs)
      (fun _ _ => True) (.scanning 0) := by
  have honMap : ∀ {α : Type} {p : MapProg α} {Q : α → Stage → Prop} {st : Stage},
      Follows (Stage.advanceMap claim) p Q st → Follows (Stage.advance claim) (onMap p) Q st :=
    fun h => follows_hoist (fun _ _ _ => rfl) h
  refine follows_worker Stage.Returned (fun _ => True) (fun _ => rfl)
    (honMap (follows_claimStages _ 0 (by simp))) ?_ (fun _ _ => rfl) ?_ ?_ trivial
  · exact fun v st _ => ⟨fun _ => rfl, fun _ => rfl, fun _ => rfl⟩
  · exact fun v st up down hv => honMap (follows_addStages hv up down)
  · exact fun v st hv => honMap (follows_releaseStages hv)

end

/-! ## The seats -/

/-- What a slot shows. -/
inductive Seat where
  | free
  /-- won by this process, which has not made all stores of its claim -/
  | filling (pid : Int)
  | held (pid : Int)
  /-- held before; a clearing store has been made since -/
  | emptying (pid : Int)
  deriving DecidableEq

namespace Seat

/-- The process whose stores are in the slot. -/
def owner : Seat → Option Int
  | .free => none
  | .filling pid | .held pid | .emptying pid => some pid

/-- A store of a worker. -/
def store : Seat → SlotStore → Seat
  | _, .inactive => .free
  | .filling pid, .startMs _ => .held pid
  | .held pid, .destAddr _ => .emptying pid
  | seat, _ => seat

/-- A store of the daemon, which clears the slot of a worker wherever it was killed. -/
def swept : Seat → SlotStore → Seat
  | _, .inactive => .free
  | seat, .bytes _ _ => seat
  | .filling pid, _ | .held pid, _ => .emptying pid
  | seat, _ => seat

end Seat

/-- The seats after an access of the process `pid`. -/
def seatsAfter (m : StatsMap) (seats : Nat → Seat) (pid : Int) : MapOp → Nat → Seat
  | .cas index => if (m.at index).active then seats else Function.update seats index (.filling pid)
  | .store index field => Function.update seats index ((seats index).store field)
  | .loadActive _ | .loadPid _ | .loadBytes _ _ | .addTotal _ _ => seats

/-- The seats after an access of `fp_stats_clear_pid`. -/
def seatsSwept (seats : Nat → Seat) : MapOp → Nat → Seat
  | .store index field => Function.update seats index ((seats index).swept field)
  | _ => seats

/-- The claims that have won a slot, after an access of a process that makes `claim`. -/
def claimsAfter (m : StatsMap) (claims : List Claim) (claim : Claim) : MapOp → List Claim
  | .cas index => if (m.at index).active then claims else claim :: claims
  | _ => claims

/-! ## The pool with its seats -/

/-- The pool, with the seats and the claims. -/
structure Seated where
  pool : Pool
  seats : Nat → Seat
  /-- what the worker with this pid, the last one, makes its claim for -/
  orders : Int → Claim
  /-- the claims that have won a slot -/
  claims : List Claim

namespace Seated

/-- The map of the pool. -/
def map (s : Seated) : StatsMap := s.pool.map

/-- The map has just been created. -/
def Initial (s : Seated) : Prop := s.pool.Initial ∧ (∀ i, s.seats i = .free) ∧ s.claims = []

/-- The seats and the claims after a step of the pool. -/
def after (s : Seated) (pool : Pool) : PoolEvent → Seated
  | .access pid (.map e) =>
    { s with
      pool := pool
      seats := seatsAfter s.map s.seats pid e
      claims := claimsAfter s.map s.claims (s.orders pid) e }
  | .clear e => { s with pool := pool, seats := seatsSwept s.seats e }
  | _ => { s with pool := pool }

end Seated

/-- A step of the pool, with the seats. `startedMs` is when the map was created, and the clock does not go
back. -/
inductive SeatStep (startedMs : BitVec 64) : Seated → PoolEvent → Seated → Prop
  | fork {s : Seated} {claim : Claim} (hsweep : s.pool.sweep = none) (hpid : 1 < claim.pid)
      (hfresh : ∀ w ∈ s.pool.workers, w.pid ≠ claim.pid) (hclock : startedMs ≤ claim.startMs) :
      SeatStep startedMs s (.fork claim.pid)
        { s with
          pool := { s.pool with
            workers := .forked claim.pid claim.destination claim.startMs :: s.pool.workers
            activeClients := s.pool.activeClients + 1 }
          orders := Function.update s.orders claim.pid claim }
  | other {s : Seated} {ev : PoolEvent} {pool : Pool} (hev : ∀ pid, ev ≠ .fork pid)
      (h : PoolStep s.pool ev pool) : SeatStep startedMs s ev (s.after pool ev)

@[simp] theorem Seated.after_pool (s : Seated) (pool : Pool) (ev : PoolEvent) :
    (s.after pool ev).pool = pool := by
  unfold Seated.after
  split <;> rfl

/-- **A step with seats is a step of the pool.** -/
theorem SeatStep.pool {startedMs : BitVec 64} {s s' : Seated} {ev : PoolEvent}
    (h : SeatStep startedMs s ev s') : PoolStep s.pool ev s'.pool := by
  cases h with
  | @fork claim hsweep hpid hfresh => exact .fork hsweep hpid hfresh claim.destination claim.startMs
  | other hev h => rwa [Seated.after_pool]

/-! ## The invariant -/

/-- What a slot shows, by its seat. -/
def SeatOk (claims : List Claim) (slot : StatsConn) : Seat → Prop
  | .free => slot.active = false ∧ slot.pid = 0
  | .filling pid | .emptying pid => slot.active = true ∧ (slot.pid = 0 ∨ slot.pid = pid)
  | .held pid => slot.active = true ∧ ∃ claim ∈ claims, claim.pid = pid ∧ claim.Shown slot

/-- What is known of a running worker by its stage. -/
def Stage.Agrees (m : StatsMap) (seats : Nat → Seat) (claims : List Claim) (claim : Claim) : Stage → Prop
  | .scanning _ | .done => True
  | .filling i left => seats i = .filling claim.pid ∧ claim ∈ claims ∧ List.IsSuffix left claim.stores ∧
      claim.Shown (left.foldl SlotStore.apply (m.at i))
  | .holding i => seats i = .held claim.pid
  | .emptying i left => seats i = .emptying claim.pid ∧ List.IsSuffix left clearingStores ∧
      (left.foldl SlotStore.apply (m.at i)).pid = 0

/-- What is known of the slot that the daemon clears. -/
def SweepPos.Known (m : StatsMap) (seats : Nat → Seat) (pid : Int) : SweepPos → Prop
  | .before _ | .saw _ => True
  | .wiping i => (seats i).owner = some pid
  | .wiped i => (seats i).owner = some pid ∧ (m.at i).pid = 0

/-- What holds in every state. -/
structure SeatInv (startedMs : BitVec 64) (s : Seated) : Prop where
  pids : (s.pool.sweep.toList.map (fun sweep => sweep.worker.pid) ++
    s.pool.workers.map Worker.pid).Nodup
  pid_gt : ∀ w ∈ s.pool.workers, 1 < w.pid
  orders : ∀ w ∈ s.pool.workers, (s.orders w.pid).pid = w.pid ∧ startedMs ≤ (s.orders w.pid).startMs
  claims : ∀ claim ∈ s.claims, startedMs ≤ claim.startMs
  seats : ∀ i, SeatOk s.claims (s.map.at i) (s.seats i)
  running : ∀ w ∈ s.pool.workers, w.running = true → ∃ st,
    Follows (Stage.advance (s.orders w.pid)) w.code (fun _ _ => True) st ∧
      st.Agrees s.map s.seats s.claims (s.orders w.pid)
  sweeping : ∀ sweep, s.pool.sweep = some sweep → sweep.worker.pid ≠ 0 ∧
    Follows (SweepPos.advance sweep.worker.pid) sweep.code (fun _ _ => True) sweep.pos ∧
      sweep.pos.Known s.map s.seats sweep.worker.pid

/-! ## One access -/

section

variable {m m' : StatsMap} {seats seats' : Nat → Seat} {claims claims' : List Claim} {claim : Claim}
  {slot : StatsConn} {field : SlotStore} {left : List SlotStore} {pid : Int} {i index : Nat}

theorem SeatOk.mono {seat : Seat} (h : SeatOk claims slot seat) (hclaims : ∀ c ∈ claims, c ∈ claims') :
    SeatOk claims' slot seat := by
  cases seat with
  | free => exact h
  | filling pid => exact h
  | held pid =>
    obtain ⟨hactive, claim, hmem, hshown⟩ := h
    exact ⟨hactive, claim, hclaims claim hmem, hshown⟩
  | emptying pid => exact h

theorem SeatOk.active {seat : Seat} (h : SeatOk claims slot seat) (howner : seat.owner = some pid) :
    slot.active = true := by
  cases seat with
  | free => simp [Seat.owner] at howner
  | filling pid => exact h.1
  | held pid => exact h.1
  | emptying pid => exact h.1

theorem SeatOk.free {seat : Seat} (h : SeatOk claims slot seat) (hactive : ¬ slot.active = true) :
    seat = .free := by
  cases seat with
  | free => rfl
  | filling pid => exact absurd h.1 hactive
  | held pid => exact absurd h.1 hactive
  | emptying pid => exact absurd h.1 hactive

/-- The owner of a seat is the only one whose pid the slot shows. -/
theorem SeatOk.taken {seat : Seat} (h : SeatOk claims slot seat) (howner : seat.owner = some pid) :
    slot.active = true ∧ (slot.pid = 0 ∨ slot.pid = pid) := by
  cases seat with
  | free => simp [Seat.owner] at howner
  | filling pid' =>
    obtain rfl : pid' = pid := Option.some.inj howner
    exact h
  | held pid' =>
    obtain rfl : pid' = pid := Option.some.inj howner
    obtain ⟨hactive, claim, -, hpid, hshown⟩ := h
    exact ⟨hactive, .inr (hshown.pid.trans hpid)⟩
  | emptying pid' =>
    obtain rfl : pid' = pid := Option.some.inj howner
    exact h

/-- A pid that a slot shows is its owner's. -/
theorem SeatOk.owner_of_pid {seat : Seat} (h : SeatOk claims slot seat) (hpid : slot.pid = pid)
    (hne : pid ≠ 0) : seat.owner = some pid := by
  cases hseat : seat.owner with
  | none =>
    cases seat with
    | free => exact absurd (hpid.symm.trans h.2) hne
    | filling pid => simp [Seat.owner] at hseat
    | held pid => simp [Seat.owner] at hseat
    | emptying pid => simp [Seat.owner] at hseat
  | some owner =>
    rcases (h.taken hseat).2 with hzero | howner
    · exact absurd (hpid.symm.trans hzero) hne
    · rw [← howner, hpid]

/-- A store that neither frees the slot nor names another process. -/
theorem taken_apply (h : slot.active = true ∧ (slot.pid = 0 ∨ slot.pid = pid)) (hfield : field ≠ .inactive)
    (hpid : ∀ value, field = .pid value → value = 0 ∨ value = pid) :
    (field.apply slot).active = true ∧ ((field.apply slot).pid = 0 ∨ (field.apply slot).pid = pid) := by
  rw [apply_active hfield]
  refine ⟨h.1, ?_⟩
  by_cases hstores : ∃ value, field = .pid value
  · obtain ⟨value, rfl⟩ := hstores
    exact hpid value rfl
  · rw [apply_pid fun value hvalue => hstores ⟨value, hvalue⟩]
    exact h.2

theorem Claim.Shown.bytes (h : claim.Shown slot) (direction : Direction) (value : BitVec 64) :
    claim.Shown ((SlotStore.bytes direction value).apply slot) := by
  cases direction with
  | up => exact ⟨h.pid, h.addr, h.port, h.startMs⟩
  | down => exact ⟨h.pid, h.addr, h.port, h.startMs⟩

/-- What the next store of a claim is. -/
theorem stores_suffix (h : List.IsSuffix (field :: left) claim.stores) :
    field ≠ .inactive ∧ (∀ value, field = .pid value → value = claim.pid) ∧
      ((∃ value, field = .startMs value) ↔ left = []) := by
  simp only [Claim.stores, List.suffix_cons_iff, List.suffix_nil, List.cons.injEq, reduceCtorEq,
    or_false] at h
  rcases h with ⟨rfl, rfl⟩ | ⟨rfl, rfl⟩ | ⟨rfl, rfl⟩ | ⟨rfl, rfl⟩ | ⟨rfl, rfl⟩ | ⟨rfl, rfl⟩ <;> simp

theorem clearing_suffix (h : List.IsSuffix (field :: left) clearingStores) :
    (field = .inactive ↔ left = []) ∧ ∀ value, field = .pid value → value = 0 := by
  simp only [clearingStores, List.suffix_cons_iff, List.suffix_nil, List.cons.injEq, reduceCtorEq,
    or_false] at h
  rcases h with ⟨rfl, rfl⟩ | ⟨rfl, rfl⟩ | ⟨rfl, rfl⟩ | ⟨rfl, rfl⟩ <;> grind

theorem claim_shown (claim : Claim) (slot : StatsConn) :
    claim.Shown (claim.stores.foldl SlotStore.apply slot) := ⟨rfl, rfl, rfl, rfl⟩

/-- What is known of a worker speaks of its own slot. -/
theorem Stage.Agrees.frame {st : Stage} (h : st.Agrees m seats claims claim)
    (hslots : ∀ i, (seats i).owner = some claim.pid → seats' i = seats i ∧ m'.at i = m.at i)
    (hclaims : ∀ c ∈ claims, c ∈ claims') : st.Agrees m' seats' claims' claim := by
  cases st with
  | scanning i => trivial
  | filling i left =>
    obtain ⟨hseat, hmem, hleft, hshown⟩ := h
    obtain ⟨hsame, hat⟩ := hslots i (by rw [hseat]; rfl)
    exact ⟨hsame.trans hseat, hclaims claim hmem, hleft, hat ▸ hshown⟩
  | holding i =>
    have hseat : seats i = .held claim.pid := h
    exact (hslots i (by rw [hseat]; rfl)).1.trans hseat
  | emptying i left =>
    obtain ⟨hseat, hleft, hzero⟩ := h
    obtain ⟨hsame, hat⟩ := hslots i (by rw [hseat]; rfl)
    exact ⟨hsame.trans hseat, hleft, hat ▸ hzero⟩
  | done => trivial

theorem SweepPos.Known.frame {pos : SweepPos} (h : pos.Known m seats pid)
    (hslots : ∀ i, (seats i).owner = some pid → seats' i = seats i ∧ m'.at i = m.at i) :
    pos.Known m' seats' pid := by
  cases pos with
  | before index => trivial
  | saw index => trivial
  | wiping index =>
    obtain ⟨hseat, -⟩ := hslots index h
    exact (congrArg Seat.owner hseat).trans h
  | wiped index =>
    obtain ⟨hseat, hat⟩ := hslots index h.1
    exact ⟨(congrArg Seat.owner hseat).trans h.1, hat ▸ h.2⟩

/-- What an access leaves behind: the slots, and that it has kept to the slots of `pid` and the free ones. -/
structure Kept (m : StatsMap) (seats : Nat → Seat) (pid : Int) (m' : StatsMap) (seats' : Nat → Seat)
    (claims' : List Claim) : Prop where
  slots : ∀ i, SeatOk claims' (m'.at i) (seats' i)
  others : ∀ i other, other ≠ pid → (seats i).owner = some other → seats' i = seats i ∧ m'.at i = m.at i

/-- An access that changes no slot. -/
theorem Kept.same (hok : ∀ i, SeatOk claims (m.at i) (seats i)) (hat : ∀ i, m'.at i = m.at i) (pid : Int) :
    Kept m seats pid m' seats claims where
  slots i := by
    rw [hat i]
    exact hok i
  others i _ _ _ := ⟨rfl, hat i⟩

/-- A store to a slot of the process. -/
theorem Kept.store (hok : ∀ i, SeatOk claims (m.at i) (seats i)) (howner : (seats index).owner = some pid)
    {seat : Seat} (hseat : SeatOk claims (field.apply (m.at index)) seat) :
    Kept m seats pid (m.modify index fun slot => field.apply slot) (Function.update seats index seat)
      claims := by
  have hindex : index < fpMaxClients := lt_of_active ((hok index).active howner)
  constructor
  · intro i
    rw [at_modify hindex]
    by_cases hi : i = index
    · subst hi
      rw [if_pos rfl, Function.update_self]
      exact hseat
    · rw [if_neg hi, Function.update_of_ne hi]
      exact hok i
  · intro i other hother hi
    have hne : i ≠ index := by
      rintro rfl
      exact hother (Option.some.inj (hi.symm.trans howner))
    rw [at_modify hindex, if_neg hne, Function.update_of_ne hne]
    exact ⟨rfl, rfl⟩

/-- The next store of a claim. -/
theorem kept_filling {st' : Stage} (hok : ∀ i, SeatOk claims (m.at i) (seats i))
    (hagrees : (Stage.filling i left).Agrees m seats claims claim)
    (hstored : (Stage.filling i left).stored index field = some st') :
    Kept m seats claim.pid (m.modify index fun slot => field.apply slot)
        (Function.update seats index ((seats index).store field)) claims ∧
      st'.Agrees (m.modify index fun slot => field.apply slot)
        (Function.update seats index ((seats index).store field)) claims claim := by
  obtain ⟨hseat, hmem, hleft, hshown⟩ := hagrees
  cases left with
  | nil => simp [Stage.stored] at hstored
  | cons f left =>
    obtain ⟨⟨rfl, rfl⟩, hst⟩ := Option.ite_none_right_eq_some.mp hstored
    obtain rfl := Option.some.inj hst
    have howner : (seats i).owner = some claim.pid := by rw [hseat]; rfl
    have hindex : i < fpMaxClients := lt_of_active ((hok i).active howner)
    obtain ⟨hactive, hvalue, hlast⟩ := stores_suffix hleft
    have htaken := taken_apply ((hok i).taken howner) hactive fun value h => .inr (hvalue value h)
    rw [hseat]
    by_cases hend : left = []
    · -- the last store of the claim
      obtain ⟨value, rfl⟩ := hlast.mpr hend
      subst hend
      have hheld : SeatOk claims ((SlotStore.startMs value).apply (m.at i)) (.held claim.pid) :=
        ⟨htaken.1, claim, hmem, rfl, hshown⟩
      exact ⟨.store hok howner hheld, Function.update_self i _ _⟩
    · have hfilling : Seat.store (.filling claim.pid) field = .filling claim.pid := by
        cases field with
        | inactive => exact absurd rfl hactive
        | startMs value => exact absurd (hlast.mp ⟨value, rfl⟩) hend
        | _ => rfl
      rw [if_neg hend, hfilling]
      refine ⟨.store hok howner htaken, Function.update_self i _ _, hmem, ?_, ?_⟩
      · exact (List.suffix_cons field left).trans hleft
      · rw [at_modify hindex, if_pos rfl]
        exact hshown

/-- A counter, or the first clearing store. -/
theorem kept_holding {st' : Stage} (hok : ∀ i, SeatOk claims (m.at i) (seats i))
    (hseat : seats i = .held claim.pid) (hstored : (Stage.holding i).stored index field = some st') :
    Kept m seats claim.pid (m.modify index fun slot => field.apply slot)
        (Function.update seats index ((seats index).store field)) claims ∧
      st'.Agrees (m.modify index fun slot => field.apply slot)
        (Function.update seats index ((seats index).store field)) claims claim := by
  have howner : (seats i).owner = some claim.pid := by rw [hseat]; rfl
  cases field with
  | bytes direction value =>
    obtain ⟨rfl, hst⟩ := Option.ite_none_right_eq_some.mp hstored
    obtain rfl := Option.some.inj hst
    have hslot := hok i
    rw [hseat] at hslot ⊢
    obtain ⟨hactive, claim', hmem, hpid, hshown⟩ := hslot
    refine ⟨.store hok howner ⟨?_, claim', hmem, hpid, hshown.bytes direction value⟩,
      Function.update_self i _ _⟩
    rwa [apply_active (by simp)]
  | destAddr value =>
    obtain ⟨⟨rfl, rfl⟩, hst⟩ := Option.ite_none_right_eq_some.mp hstored
    obtain rfl := Option.some.inj hst
    have htaken : _ ∧ (_ ∨ ((SlotStore.destAddr 0).apply (m.at i)).pid = claim.pid) :=
      taken_apply ((hok i).taken howner) (by simp) (by simp)
    rw [hseat]
    exact ⟨.store hok howner htaken, Function.update_self i _ _, List.suffix_rfl, rfl⟩
  | destPort value => simp [Stage.stored] at hstored
  | pid value => simp [Stage.stored] at hstored
  | startMs value => simp [Stage.stored] at hstored
  | inactive => simp [Stage.stored] at hstored

/-- Another clearing store. -/
theorem kept_emptying {st' : Stage} (hok : ∀ i, SeatOk claims (m.at i) (seats i))
    (hagrees : (Stage.emptying i left).Agrees m seats claims claim)
    (hstored : (Stage.emptying i left).stored index field = some st') :
    Kept m seats claim.pid (m.modify index fun slot => field.apply slot)
        (Function.update seats index ((seats index).store field)) claims ∧
      st'.Agrees (m.modify index fun slot => field.apply slot)
        (Function.update seats index ((seats index).store field)) claims claim := by
  obtain ⟨hseat, hleft, hzero⟩ := hagrees
  cases left with
  | nil => simp [Stage.stored] at hstored
  | cons f left =>
    obtain ⟨⟨rfl, rfl⟩, hst⟩ := Option.ite_none_right_eq_some.mp hstored
    obtain rfl := Option.some.inj hst
    have howner : (seats i).owner = some claim.pid := by rw [hseat]; rfl
    have hindex : i < fpMaxClients := lt_of_active ((hok i).active howner)
    obtain ⟨hlast, hvalue⟩ := clearing_suffix hleft
    rw [hseat]
    by_cases hend : left = []
    · obtain rfl := hlast.mpr hend
      subst hend
      exact ⟨.store hok howner ⟨rfl, hzero⟩, trivial⟩
    · have hactive : field ≠ .inactive := fun h => hend (hlast.mp h)
      have htaken := taken_apply ((hok i).taken howner) hactive fun value h => .inl (hvalue value h)
      have hemptying : Seat.store (.emptying claim.pid) field = .emptying claim.pid := by
        cases field with
        | inactive => exact absurd rfl hactive
        | _ => rfl
      rw [if_neg hend, hemptying]
      refine ⟨.store hok howner htaken, Function.update_self i _ _, ?_, ?_⟩
      · exact (List.suffix_cons field left).trans hleft
      · rw [at_modify hindex, if_pos rfl]
        exact hzero

/-- A slot is won. -/
theorem kept_win (hok : ∀ i, SeatOk claims (m.at i) (seats i)) (hindex : index < fpMaxClients)
    (hactive : ¬ (m.at index).active = true) :
    Kept m seats claim.pid (m.modify index fun slot => { slot with active := true })
        (Function.update seats index (.filling claim.pid)) (claim :: claims) ∧
      (Stage.filling index claim.stores).Agrees (m.modify index fun slot => { slot with active := true })
        (Function.update seats index (.filling claim.pid)) (claim :: claims) claim := by
  have hfree := (hok index).free hactive
  have hslot := hok index
  rw [hfree] at hslot
  refine ⟨⟨fun i => ?_, fun i other _ hi => ?_⟩, Function.update_self index _ _, List.mem_cons_self,
    List.suffix_rfl, claim_shown claim _⟩
  · rw [at_modify hindex]
    by_cases hi : i = index
    · subst hi
      rw [if_pos rfl, Function.update_self]
      exact ⟨rfl, .inl hslot.2⟩
    · rw [if_neg hi, Function.update_of_ne hi]
      exact (hok i).mono fun c hc => List.mem_cons_of_mem _ hc
  · have hne : i ≠ index := by
      rintro rfl
      rw [hfree] at hi
      cases hi
    rw [at_modify hindex, if_neg hne, Function.update_of_ne hne]
    exact ⟨rfl, rfl⟩

/-- **An access of a worker** keeps to its own slot and the free ones. -/
theorem kept_access {st st' : Stage} {e : MapOp} {r : MapResp e}
    (hok : ∀ i, SeatOk claims (m.at i) (seats i)) (hagrees : st.Agrees m seats claims claim)
    (hadvance : st.advanceMap claim e r = some st') (hr : mapSem e () m = (r, m')) :
    Kept m seats claim.pid m' (seatsAfter m seats claim.pid e) (claimsAfter m claims claim e) ∧
      st'.Agrees m' (seatsAfter m seats claim.pid e) (claimsAfter m claims claim e) claim := by
  cases e with
  | cas index =>
    obtain ⟨⟨rfl, hindex⟩, hst⟩ := Option.ite_none_right_eq_some.mp hadvance
    by_cases hactive : (m.at index).active = true
    · obtain ⟨rfl, rfl⟩ := Prod.mk.inj ((if_pos hactive).symm.trans hr)
      obtain rfl := Option.some.inj hst
      simp only [seatsAfter, claimsAfter, if_pos hactive]
      exact ⟨.same hok (fun _ => rfl) _, trivial⟩
    · obtain ⟨rfl, rfl⟩ := Prod.mk.inj ((if_neg hactive).symm.trans hr)
      obtain rfl := Option.some.inj hst
      simp only [seatsAfter, claimsAfter, if_neg hactive]
      exact kept_win hok hindex hactive
  | store index field =>
    obtain ⟨rfl, rfl⟩ := Prod.mk.inj hr
    cases st with
    | scanning i => simp [Stage.advanceMap, Stage.stored] at hadvance
    | filling i left => exact kept_filling hok hagrees hadvance
    | holding i => exact kept_holding hok hagrees hadvance
    | emptying i left => exact kept_emptying hok hagrees hadvance
    | done => simp [Stage.advanceMap, Stage.stored] at hadvance
  | addTotal direction bytes =>
    obtain ⟨rfl, rfl⟩ := Prod.mk.inj hr
    obtain rfl : st = st' := Option.some.inj hadvance
    have hat : ∀ i, (m.addTotal direction bytes).at i = m.at i := by
      cases direction <;> exact fun _ => rfl
    exact ⟨.same hok hat _, hagrees.frame (fun i _ => ⟨rfl, hat i⟩) fun _ h => h⟩
  | loadActive index =>
    obtain ⟨rfl, rfl⟩ := Prod.mk.inj hr
    obtain rfl : st = st' := Option.some.inj hadvance
    exact ⟨.same hok (fun _ => rfl) _, hagrees⟩
  | loadPid index =>
    obtain ⟨rfl, rfl⟩ := Prod.mk.inj hr
    obtain rfl : st = st' := Option.some.inj hadvance
    exact ⟨.same hok (fun _ => rfl) _, hagrees⟩
  | loadBytes index direction =>
    obtain ⟨rfl, rfl⟩ := Prod.mk.inj hr
    obtain rfl : st = st' := Option.some.inj hadvance
    exact ⟨.same hok (fun _ => rfl) _, hagrees⟩

theorem swept_owner (seat : Seat) (hfield : field ≠ .inactive) : (seat.swept field).owner = seat.owner := by
  cases field with
  | inactive => exact absurd rfl hfield
  | bytes direction value => rfl
  | _ => cases seat <;> rfl

/-- What a slot shows while the daemon clears it. -/
theorem seatOk_swept {seat : Seat} (h : SeatOk claims slot seat) (howner : seat.owner = some pid)
    (hfield : field ≠ .inactive) (hvalue : ∀ value, field = .pid value → value = 0) :
    SeatOk claims (field.apply slot) (seat.swept field) := by
  have htaken := taken_apply (h.taken howner) hfield fun value hv => .inl (hvalue value hv)
  cases seat with
  | free => simp [Seat.owner] at howner
  | filling pid' =>
    obtain rfl : pid' = pid := Option.some.inj howner
    cases field with
    | inactive => exact absurd rfl hfield
    | _ => exact htaken
  | held pid' =>
    obtain rfl : pid' = pid := Option.some.inj howner
    cases field with
    | inactive => exact absurd rfl hfield
    | bytes direction value =>
      obtain ⟨-, claim, hmem, hpid, hshown⟩ := h
      exact ⟨htaken.1, claim, hmem, hpid, hshown.bytes direction value⟩
    | _ => exact htaken
  | emptying pid' =>
    obtain rfl : pid' = pid := Option.some.inj howner
    cases field with
    | inactive => exact absurd rfl hfield
    | _ => exact htaken

/-- A store of the daemon to the slot that it clears. -/
theorem kept_sweepStore {pos pos' : SweepPos} (hok : ∀ i, SeatOk claims (m.at i) (seats i))
    (hknown : pos.Known m seats pid) (hslot : pos.slot = some index) (hstored : pos.stored field = some pos') :
    Kept m seats pid (m.modify index fun slot => field.apply slot)
        (Function.update seats index ((seats index).swept field)) claims ∧
      pos'.Known (m.modify index fun slot => field.apply slot)
        (Function.update seats index ((seats index).swept field)) pid := by
  cases pos with
  | before i => simp [SweepPos.slot] at hslot
  | saw i => simp [SweepPos.slot] at hslot
  | wiping i =>
    obtain rfl : i = index := Option.some.inj hslot
    have howner : (seats i).owner = some pid := hknown
    have hindex : i < fpMaxClients := lt_of_active ((hok i).active howner)
    have hfield : field ≠ .inactive := by
      rintro rfl
      simp [SweepPos.stored] at hstored
    have hvalue : ∀ value, field = .pid value → value = 0 := by
      rintro value rfl
      exact (Option.ite_none_right_eq_some.mp hstored).1
    have hswept := (congrArg Seat.owner (Function.update_self i ((seats i).swept field) seats)).trans
      ((swept_owner (seats i) hfield).trans howner)
    refine ⟨.store hok howner (seatOk_swept (hok i) howner hfield hvalue), ?_⟩
    cases field with
    | inactive => exact absurd rfl hfield
    | pid value =>
      obtain ⟨rfl, hpos⟩ := Option.ite_none_right_eq_some.mp hstored
      obtain rfl := Option.some.inj hpos
      refine ⟨hswept, ?_⟩
      rw [at_modify hindex, if_pos rfl]
      rfl
    | _ =>
      obtain rfl := Option.some.inj hstored
      exact hswept
  | wiped i =>
    obtain rfl : i = index := Option.some.inj hslot
    obtain ⟨howner, hzero⟩ := hknown
    have hindex : i < fpMaxClients := lt_of_active ((hok i).active howner)
    cases field with
    | pid value => simp [SweepPos.stored] at hstored
    | inactive =>
      obtain rfl := Option.some.inj hstored
      have hfree : (seats i).swept .inactive = .free := by cases seats i <;> rfl
      rw [hfree]
      exact ⟨.store hok howner ⟨rfl, hzero⟩, trivial⟩
    | _ =>
      obtain rfl := Option.some.inj hstored
      refine ⟨.store hok howner (seatOk_swept (hok i) howner (by simp) (by simp)), ?_, ?_⟩
      · rw [Function.update_self, swept_owner _ (by simp)]
        exact howner
      · rw [at_modify hindex, if_pos rfl, apply_pid (by simp)]
        exact hzero

/-- **An access of `fp_stats_clear_pid`** keeps to the slots of the worker that it clears. -/
theorem kept_sweep {pos pos' : SweepPos} {e : MapOp} {r : MapResp e}
    (hok : ∀ i, SeatOk claims (m.at i) (seats i)) (hpid : pid ≠ 0) (hknown : pos.Known m seats pid)
    (hadvance : pos.advance pid e r = some pos') (hr : mapSem e () m = (r, m')) :
    Kept m seats pid m' (seatsSwept seats e) claims ∧ pos'.Known m' (seatsSwept seats e) pid := by
  cases e with
  | store index field =>
    obtain ⟨rfl, rfl⟩ := Prod.mk.inj hr
    obtain ⟨hslot, hstored⟩ := Option.ite_none_right_eq_some.mp hadvance
    exact kept_sweepStore hok hknown hslot hstored
  | loadActive index =>
    obtain ⟨rfl, rfl⟩ := Prod.mk.inj hr
    obtain ⟨rfl, hpos⟩ := Option.ite_none_right_eq_some.mp hadvance
    obtain rfl := Option.some.inj hpos
    refine ⟨.same hok (fun _ => rfl) _, ?_⟩
    cases (m.at index).active <;> trivial
  | loadPid index =>
    obtain ⟨rfl, rfl⟩ := Prod.mk.inj hr
    obtain ⟨rfl, hpos⟩ := Option.ite_none_right_eq_some.mp hadvance
    obtain rfl := Option.some.inj hpos
    refine ⟨.same hok (fun _ => rfl) _, ?_⟩
    by_cases hheld : (m.at index).pid = pid
    · rw [if_pos hheld]
      exact (hok index).owner_of_pid hheld hpid
    · rw [if_neg hheld]
      trivial
  | cas index => simp [SweepPos.advance] at hadvance
  | loadBytes index direction => simp [SweepPos.advance] at hadvance
  | addTotal direction bytes => simp [SweepPos.advance] at hadvance

theorem claimsAfter_mem (e : MapOp) : ∀ c ∈ claims, c ∈ claimsAfter m claims claim e := by
  intro c hc
  cases e with
  | cas index =>
    by_cases hactive : (m.at index).active = true
    · simpa only [claimsAfter, if_pos hactive] using hc
    · simpa only [claimsAfter, if_neg hactive] using List.mem_cons_of_mem _ hc
  | _ => exact hc

theorem mem_claimsAfter {c : Claim} {e : MapOp} (h : c ∈ claimsAfter m claims claim e) :
    c ∈ claims ∨ c = claim := by
  cases e with
  | cas index =>
    simp only [claimsAfter] at h
    split at h
    · exact .inl h
    · exact (List.mem_cons.mp h).symm
  | _ => exact .inl h

end

/-! ## One step of the pool -/

section

variable {startedMs : BitVec 64} {s : Seated} {w w' : Worker} {rest : List Worker}

theorem seatInv_initial (h : s.Initial) : SeatInv startedMs s := by
  obtain ⟨⟨hmap, hworkers, hsweep, -⟩, hseats, hclaims⟩ := h
  refine ⟨?_, ?_, ?_, ?_, ?_, ?_, ?_⟩
  · simp [hworkers, hsweep]
  · simp [hworkers]
  · simp [hworkers]
  · simp [hclaims]
  · intro i
    have hat : s.map.at i = .zero := by
      unfold Seated.map StatsMap.at
      rw [hmap]
      by_cases hi : i < fpMaxClients
      · simp [StatsMap.zero, hi]
      · simp [StatsMap.zero, hi]
    rw [hseats i, hat]
    exact ⟨rfl, rfl⟩
  · simp [hworkers]
  · simp [hsweep]

/-- No two processes, one of them perhaps being cleared, have one pid. -/
theorem SeatInv.pid_ne (h : SeatInv startedMs s) (hw : s.pool.workers.Perm (w :: rest)) :
    (∀ v ∈ rest, v.pid ≠ w.pid) ∧ ∀ sweep, s.pool.sweep = some sweep → sweep.worker.pid ≠ w.pid := by
  have hpids := h.pids
  rw [List.nodup_append] at hpids
  obtain ⟨-, hworkers, hdisjoint⟩ := hpids
  rw [(hw.map Worker.pid).nodup_iff, List.map_cons, List.nodup_cons] at hworkers
  constructor
  · intro v hv heq
    exact hworkers.1 (List.mem_map.mpr ⟨v, hv, heq⟩)
  · intro sweep hsweep
    refine hdisjoint _ ?_ _ (List.mem_map.mpr ⟨w, hw.mem_iff.mpr List.mem_cons_self, rfl⟩)
    simp [hsweep]

/-- Pids stay distinct when a worker moves on. -/
theorem SeatInv.pids_perm (h : SeatInv startedMs s) (hw : s.pool.workers.Perm (w :: rest))
    (hpid : w'.pid = w.pid) :
    (s.pool.sweep.toList.map (fun sweep => sweep.worker.pid) ++ (w' :: rest).map Worker.pid).Nodup := by
  have hperm := (hw.map Worker.pid).append_left
    (s.pool.sweep.toList.map fun sweep => sweep.worker.pid)
  rw [List.map_cons, hpid, ← List.map_cons]
  exact hperm.nodup_iff.mp h.pids

/-- An access of one worker. -/
theorem seatInv_map (h : SeatInv startedMs s) (hw : s.pool.workers.Perm (w :: rest))
    (hrunning : w.running = true) {e : MapOp} {k : MapResp e → WorkerProg Unit} {r : MapResp e}
    {m' : StatsMap} (hcode : w.code.next = .call (.map e) k) (hr : mapSem e () s.map = (r, m')) :
    SeatInv startedMs
      { s with
        pool := { s.pool with map := m', workers := w.after (.map e) r (k r) :: rest }
        seats := seatsAfter s.map s.seats w.pid e
        claims := claimsAfter s.map s.claims (s.orders w.pid) e } := by
  have hmem := hw.mem_iff.mpr (List.mem_cons_self (a := w))
  obtain ⟨horder, hclock⟩ := h.orders w hmem
  obtain ⟨st, hfollows, hagrees⟩ := h.running w hmem hrunning
  obtain ⟨st', hadvance, hrest⟩ := (follows_next hcode).mp hfollows r
  obtain ⟨hkept, hagrees'⟩ := kept_access h.seats hagrees hadvance hr
  rw [horder] at hkept hagrees'
  obtain ⟨hothers, hsweep⟩ := h.pid_ne hw
  have hworkers : ∀ {P : Worker → Prop}, (∀ v ∈ s.pool.workers, P v) → ∀ v ∈ rest, P v :=
    fun hall v hv => hall v (hw.mem_iff.mpr (List.mem_cons_of_mem _ hv))
  refine ⟨h.pids_perm hw rfl, ?_, ?_, ?_, hkept.slots, ?_, ?_⟩
  · rintro v (_ | ⟨_, hv⟩)
    · exact h.pid_gt w hmem
    · exact hworkers h.pid_gt v hv
  · rintro v (_ | ⟨_, hv⟩)
    · exact h.orders w hmem
    · exact hworkers h.orders v hv
  · intro c hc
    rcases mem_claimsAfter hc with hc | rfl
    · exact h.claims c hc
    · exact hclock
  · rintro v (_ | ⟨_, hv⟩) hv'
    · exact ⟨st', hrest, hagrees'⟩
    · obtain ⟨stv, hfollowsv, hagreesv⟩ := hworkers h.running v hv hv'
      refine ⟨stv, hfollowsv, hagreesv.frame (fun i hi => ?_) (claimsAfter_mem e)⟩
      rw [(hworkers h.orders v hv).1] at hi
      exact hkept.others i v.pid (hothers v hv) hi
  · intro sweep hsw
    obtain ⟨hpid, hsfollows, hknown⟩ := h.sweeping sweep hsw
    exact ⟨hpid, hsfollows, hknown.frame fun i hi => hkept.others i _ (hsweep sweep hsw) hi⟩

/-- A worker that moves on without the map, or stops. -/
theorem seatInv_worker (h : SeatInv startedMs s) (hw : s.pool.workers.Perm (w :: rest))
    (hpid : w'.pid = w.pid)
    (hrunning : w'.running = true → ∃ st,
      Follows (Stage.advance (s.orders w.pid)) w'.code (fun _ _ => True) st ∧
      st.Agrees s.map s.seats s.claims (s.orders w.pid)) :
    SeatInv startedMs { s with pool := { s.pool with workers := w' :: rest } } := by
  have hmem := hw.mem_iff.mpr (List.mem_cons_self (a := w))
  have hworkers : ∀ {P : Worker → Prop}, (∀ v ∈ s.pool.workers, P v) → ∀ v ∈ rest, P v :=
    fun hall v hv => hall v (hw.mem_iff.mpr (List.mem_cons_of_mem _ hv))
  refine ⟨h.pids_perm hw hpid, ?_, ?_, h.claims, h.seats, ?_, h.sweeping⟩
  · rintro v (_ | ⟨_, hv⟩)
    · exact hpid ▸ h.pid_gt w hmem
    · exact hworkers h.pid_gt v hv
  · rintro v (_ | ⟨_, hv⟩)
    · rw [hpid]
      exact h.orders w hmem
    · exact hworkers h.orders v hv
  · rintro v (_ | ⟨_, hv⟩) hv'
    · rw [hpid]
      exact hrunning hv'
    · exact hworkers h.running v hv hv'

/-- A new worker. -/
theorem seatInv_fork {claim : Claim} (h : SeatInv startedMs s) (hsweep : s.pool.sweep = none)
    (hpid : 1 < claim.pid) (hfresh : ∀ w ∈ s.pool.workers, w.pid ≠ claim.pid)
    (hclock : startedMs ≤ claim.startMs) :
    SeatInv startedMs
      { s with
        pool := { s.pool with
          workers := .forked claim.pid claim.destination claim.startMs :: s.pool.workers
          activeClients := s.pool.activeClients + 1 }
        orders := Function.update s.orders claim.pid claim } := by
  have hother : ∀ w ∈ s.pool.workers, Function.update s.orders claim.pid claim w.pid = s.orders w.pid :=
    fun w hw => Function.update_of_ne (hfresh w hw) _ _
  have hnew : Function.update s.orders claim.pid claim claim.pid = claim := Function.update_self _ _ _
  refine ⟨?_, ?_, ?_, h.claims, h.seats, ?_, by simp [hsweep]⟩
  · have hpids := h.pids
    simp only [hsweep, Option.toList_none, List.map_nil, List.nil_append] at hpids ⊢
    refine List.nodup_cons.mpr ⟨fun hm => ?_, hpids⟩
    obtain ⟨w, hw, hwpid⟩ := List.mem_map.mp hm
    exact hfresh w hw hwpid
  · rintro w (_ | ⟨_, hw⟩)
    · exact hpid
    · exact h.pid_gt w hw
  · rintro w (_ | ⟨_, hw⟩)
    · dsimp only [Worker.forked]
      rw [hnew]
      exact ⟨rfl, hclock⟩
    · dsimp only
      rw [hother w hw]
      exact h.orders w hw
  · rintro w (_ | ⟨_, hw⟩) hrunning
    · refine ⟨.scanning 0, ?_, trivial⟩
      dsimp only [Worker.forked]
      rw [hnew]
      exact follows_stages claim
    · dsimp only
      rw [hother w hw]
      exact h.running w hw hrunning

/-- **Every step keeps the seats.** -/
theorem seatInv_step {s' : Seated} {ev : PoolEvent} (h : SeatInv startedMs s)
    (hs : SeatStep startedMs s ev s') : SeatInv startedMs s' := by
  cases hs with
  | fork hsweep hpid hfresh hclock => exact seatInv_fork h hsweep hpid hfresh hclock
  | @other _ pool hev hstep =>
    cases hstep with
    | fork => exact absurd rfl (hev _)
    | @access w rest e k r m' hw hrunning hcode hr =>
      cases e with
      | map e => exact seatInv_map h hw hrunning hcode hr
      | _ =>
        obtain rfl : m' = s.pool.map := hr
        obtain ⟨st, hfollows, hagrees⟩ := h.running w (hw.mem_iff.mpr List.mem_cons_self) hrunning
        obtain ⟨st', hadvance, hrest⟩ := (follows_next hcode).mp hfollows r
        obtain rfl := Option.some.inj hadvance
        exact seatInv_worker h hw rfl fun _ => ⟨_, hrest, hagrees⟩
    | exit hw hrunning hcode => exact seatInv_worker h hw rfl (by simp [Worker.stopped])
    | kill hw hrunning => exact seatInv_worker h hw rfl (by simp [Worker.stopped])
    | @wait w rest hsweep hw hstopped =>
      have hmem := hw.mem_iff.mpr (List.mem_cons_self (a := w))
      have hrest : ∀ v ∈ rest, v ∈ s.pool.workers := fun v hv => hw.mem_iff.mpr (List.mem_cons_of_mem _ hv)
      have hgt := h.pid_gt w hmem
      refine ⟨?_, fun v hv => h.pid_gt v (hrest v hv), fun v hv => h.orders v (hrest v hv), h.claims,
        h.seats, fun v hv => h.running v (hrest v hv), ?_⟩
      · have hpids := h.pids_perm hw rfl
        rw [hsweep] at hpids
        exact hpids
      · rintro sweep ⟨⟩
        have hne : w.pid ≠ 0 := by omega
        exact ⟨hne, (follows_clearPid hgt).mono fun _ _ _ => trivial, trivial⟩
    | @clear sweep e k r m' hsweep hcode hr =>
      obtain ⟨hpid, hfollows, hknown⟩ := h.sweeping sweep hsweep
      obtain ⟨pos', hadvance, hrest⟩ := (follows_next hcode).mp hfollows r
      obtain ⟨hkept, hknown'⟩ := kept_sweep h.seats hpid hknown hadvance hr
      have hpids := h.pids
      rw [hsweep] at hpids
      refine ⟨hpids, h.pid_gt, h.orders, h.claims, hkept.slots, ?_, ?_⟩
      · intro v hv hrunning
        obtain ⟨st, hvfollows, hagrees⟩ := h.running v hv hrunning
        refine ⟨st, hvfollows, hagrees.frame (fun i hi => ?_) fun _ hc => hc⟩
        rw [(h.orders v hv).1] at hi
        refine hkept.others i v.pid ?_ hi
        rintro heq
        have hdisjoint := (List.nodup_cons.mp hpids).1
        exact hdisjoint (List.mem_map.mpr ⟨v, hv, heq⟩)
      · rintro _ ⟨⟩
        simp only [Sweep.after, hadvance, Option.getD_some]
        exact ⟨hpid, hrest, hknown'⟩
    | @forget sweep hsweep hcode =>
      have hpids := h.pids
      rw [hsweep] at hpids
      exact ⟨(List.nodup_cons.mp hpids).2, h.pid_gt, h.orders, h.claims, h.seats, h.running, by simp⟩

/-- **A held slot shows a claim that has won a slot**, whoever was killed wherever. -/
theorem seat_held {ok : Seated → PoolEvent → Prop}
    (h : Reach Seated.Initial ok (SeatStep startedMs) s) {i : Nat} {pid : Int} (hseat : s.seats i = .held pid) :
    ∃ claim ∈ s.claims, claim.pid = pid ∧ claim.Shown (s.map.at i) ∧ startedMs ≤ claim.startMs := by
  have hinv : SeatInv startedMs s := h.inv (fun _ => seatInv_initial) fun _ _ _ hI _ hs => seatInv_step hI hs
  have hslot := hinv.seats i
  rw [hseat] at hslot
  obtain ⟨-, claim, hmem, hpid, hshown⟩ := hslot
  exact ⟨claim, hmem, hpid, hshown, hinv.claims claim hmem⟩

end

end FreeProxy
