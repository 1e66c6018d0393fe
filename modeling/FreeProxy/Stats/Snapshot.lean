import FreeProxy.Stats.Seats

/-!
# The monitor reads the map

`fp_stats_snapshot` of `src/stats.c` beside the daemon and its workers: it takes no lock and reads a row
field by field, so that the slot may be given back, and taken again, between two of its loads.

* `fpStatsSnapshot` is the code, load by load; `Viewing` is how far it has come (`follows_snapshot`).
* `Monitored` is the pool with one monitor, and `undisturbed` the runs in which a row is copied from a held
  slot and no field is stored to that is still to be copied.

Headlines: **`snapshot_actual`**, the rows of an undisturbed snapshot are those of real connections;
`snapshot_torn`, those of another one need not be.

Out of scope: the opening of the map, and the counters of a row.
-/

namespace FreeProxy

open Lib

/-- `struct fp_stats_conn_view`. -/
structure StatsConnView where
  destAddr : Addr
  destPort : BitVec 16
  pid : Int
  bytesUp : BitVec 64
  bytesDown : BitVec 64
  ageMs : BitVec 64
  deriving DecidableEq

/-- `struct fp_stats_snapshot` when it is `available`; `conn_count` is the length of the list. -/
structure StatsSnapshot where
  startedMs : BitVec 64
  uptimeMs : BitVec 64
  totalUp : BitVec 64
  totalDown : BitVec 64
  connections : List StatsConnView
  deriving DecidableEq

/-! ## The code -/

/-- The loads of `fp_stats_snapshot`, with its calls. -/
inductive ViewOp where
  | monotonicMs
  | total (direction : Direction)
  | active (index : Nat)
  | pid (index : Nat)
  | destAddr (index : Nat)
  | destPort (index : Nat)
  | bytes (index : Nat) (direction : Direction)
  | startMs (index : Nat)
  /-- `kill(pid, 0) != 0 && errno == ESRCH` -/
  | gone (pid : Int)
  deriving DecidableEq

/-- What a load gives. -/
abbrev ViewResp : ViewOp → Type
  | .monotonicMs | .total _ | .bytes _ _ | .startMs _ => BitVec 64
  | .active _ | .gone _ => Bool
  | .pid _ => Int
  | .destAddr _ => Addr
  | .destPort _ => BitVec 16

/-- A program that reads the map. -/
abbrev ViewProg (α : Type) := Prog ViewOp ViewResp α

/-- One load. -/
abbrev ViewOp.ask (e : ViewOp) : ViewProg (ViewResp e) := Prog.ask e

/-- `a > b ? a - b : 0` -/
def elapsed (a b : BitVec 64) : BitVec 64 := if a > b then a - b else 0

/-- The assignments to `*view`; `start_ms` is loaded for the comparison and for the difference. -/
def copyRow (now : BitVec 64) (index : Nat) : ViewProg StatsConnView := do
  let destAddr ← ViewOp.ask (.destAddr index)
  let destPort ← ViewOp.ask (.destPort index)
  let pid ← ViewOp.ask (.pid index)
  let bytesUp ← ViewOp.ask (.bytes index .up)
  let bytesDown ← ViewOp.ask (.bytes index .down)
  if now > (← ViewOp.ask (.startMs index)) then do
    let startMs ← ViewOp.ask (.startMs index)
    pure ⟨destAddr, destPort, pid, bytesUp, bytesDown, now - startMs⟩
  else pure ⟨destAddr, destPort, pid, bytesUp, bytesDown, 0⟩

/-- The loop from `index` on, with `remaining` slots to look at. -/
def viewFrom (now : BitVec 64) :
    (remaining index : Nat) → List StatsConnView → ViewProg (List StatsConnView)
  | 0, _, connections => pure connections
  | remaining + 1, index, connections => do
    if !(← ViewOp.ask (.active index)) then viewFrom now remaining (index + 1) connections else do
    if (← ViewOp.ask (.pid index)) ≤ 1 then viewFrom now remaining (index + 1) connections else do
    let pid ← ViewOp.ask (.pid index)
    if ← ViewOp.ask (.gone pid) then viewFrom now remaining (index + 1) connections else do
    if connections.length ≥ fpMaxClients then pure connections else do
    let view ← copyRow now index
    viewFrom now remaining (index + 1) (connections ++ [view])

/-- `fp_stats_snapshot` of a map that was created at `startedMs`; nobody stores to `started_ms`. -/
def fpStatsSnapshot (startedMs : BitVec 64) : ViewProg StatsSnapshot := do
  let now ← ViewOp.ask .monotonicMs
  let totalUp ← ViewOp.ask (.total .up)
  let totalDown ← ViewOp.ask (.total .down)
  let connections ← viewFrom now fpMaxClients 0 []
  pure ⟨startedMs, elapsed now startedMs, totalUp, totalDown, connections⟩

/-! ## How far it has come -/

/-- What of a row has been copied. -/
inductive ViewPos where
  /-- no row has been begun and not ended -/
  | between
  | addr (index : Nat) (destAddr : Addr)
  | port (index : Nat) (destAddr : Addr) (destPort : BitVec 16)
  | pid (index : Nat) (destAddr : Addr) (destPort : BitVec 16) (pid : Int)
  /-- `start_ms` has been loaded for the comparison, and is before `now` -/
  | compared (index : Nat) (destAddr : Addr) (destPort : BitVec 16) (pid : Int)
  deriving DecidableEq

/-- A row without its counters. -/
structure RowKey where
  destAddr : Addr
  destPort : BitVec 16
  pid : Int
  ageMs : BitVec 64
  deriving DecidableEq

/-- The row without its counters. -/
def StatsConnView.key (view : StatsConnView) : RowKey :=
  ⟨view.destAddr, view.destPort, view.pid, view.ageMs⟩

/-- How far a snapshot has come. -/
structure Viewing where
  now : BitVec 64
  rows : List RowKey
  pos : ViewPos
  deriving DecidableEq

namespace Viewing

/-- Nothing has been loaded. -/
def start : Viewing := ⟨0, [], .between⟩

/-- A load of `start_ms`. -/
def startLoaded (v : Viewing) (index : Nat) (startMs : BitVec 64) : Option Viewing :=
  match v.pos with
  | .pid i destAddr destPort pid =>
    if i = index then
      some (if v.now > startMs then { v with pos := .compared i destAddr destPort pid }
        else { v with rows := v.rows ++ [⟨destAddr, destPort, pid, 0⟩], pos := .between })
    else none
  | .compared i destAddr destPort pid =>
    if i = index then
      some { v with rows := v.rows ++ [⟨destAddr, destPort, pid, v.now - startMs⟩], pos := .between }
    else none
  | _ => none

/-- A load of `pid`: for the tests before a row, or for the row. -/
def pidLoaded (v : Viewing) (index : Nat) (pid : Int) : Option Viewing :=
  match v.pos with
  | .between => some v
  | .port i destAddr destPort => if i = index then some { v with pos := .pid i destAddr destPort pid } else none
  | _ => none

/-- The loads in the order of the code. A load out of this order has no next state. -/
def advance (v : Viewing) : (e : ViewOp) → ViewResp e → Option Viewing
  | .monotonicMs, now => if v.pos = .between ∧ v.rows = [] then some { v with now := now } else none
  | .destAddr index, destAddr => if v.pos = .between then some { v with pos := .addr index destAddr } else none
  | .destPort index, destPort =>
    match v.pos with
    | .addr i destAddr => if i = index then some { v with pos := .port i destAddr destPort } else none
    | _ => none
  | .pid index, pid => v.pidLoaded index pid
  | .startMs index, startMs => v.startLoaded index startMs
  | .total _, _ | .active _, _ | .gone _, _ | .bytes _ _, _ => some v

end Viewing

section

variable {v : Viewing}

/-- **A row**, from its first load to its last one. -/
theorem follows_copyRow (index : Nat) (hpos : v.pos = .between) :
    Follows Viewing.advance (copyRow v.now index)
      (fun view v' => v' = { v with rows := v.rows ++ [view.key] }) v := by
  refine follows_bind.mpr (follows_ask.mpr fun destAddr => ⟨_, if_pos hpos, ?_⟩)
  refine follows_bind.mpr (follows_ask.mpr fun destPort => ⟨_, if_pos rfl, ?_⟩)
  refine follows_bind.mpr (follows_ask.mpr fun pid => ⟨_, if_pos rfl, ?_⟩)
  refine follows_bind.mpr (follows_ask.mpr fun bytesUp => ⟨_, rfl, ?_⟩)
  refine follows_bind.mpr (follows_ask.mpr fun bytesDown => ⟨_, rfl, ?_⟩)
  refine follows_bind.mpr (follows_ask.mpr fun startMs => ⟨_, if_pos rfl, ?_⟩)
  by_cases hlater : v.now > startMs
  · rw [if_pos hlater, if_pos hlater]
    refine follows_bind.mpr (follows_ask.mpr fun startMs => ⟨_, if_pos rfl, follows_ret.mpr ?_⟩)
    simp only [StatsConnView.key, hpos]
  · rw [if_neg hlater, if_neg hlater]
    refine follows_ret.mpr ?_
    simp only [StatsConnView.key, hpos]

theorem follows_viewFrom : ∀ remaining index connections {v : Viewing}, v.pos = .between →
    v.rows = connections.map StatsConnView.key →
    Follows Viewing.advance (viewFrom v.now remaining index connections)
      (fun connections v' => v'.now = v.now ∧ v'.rows = connections.map StatsConnView.key) v
  | 0, index, connections, v, hpos, hrows => follows_ret.mpr ⟨rfl, hrows⟩
  | remaining + 1, index, connections, v, hpos, hrows => by
    have hskip := follows_viewFrom remaining (index + 1) connections hpos hrows
    have hpid : ∀ pid, v.pidLoaded index pid = some v := by
      intro pid
      simp only [Viewing.pidLoaded, hpos]
    refine follows_bind.mpr (follows_ask.mpr fun active => ⟨v, rfl, ?_⟩)
    split
    · exact hskip
    refine follows_bind.mpr (follows_ask.mpr fun pid => ⟨v, hpid pid, ?_⟩)
    split
    · exact hskip
    refine follows_bind.mpr (follows_ask.mpr fun pid => ⟨v, hpid pid, ?_⟩)
    refine follows_bind.mpr (follows_ask.mpr fun gone => ⟨v, rfl, ?_⟩)
    split
    · exact hskip
    split
    · exact follows_ret.mpr ⟨rfl, hrows⟩
    refine follows_bind.mpr ((follows_copyRow index hpos).mono ?_)
    rintro view _ rfl
    exact follows_viewFrom remaining (index + 1) (connections ++ [view])
      (v := { v with rows := v.rows ++ [view.key] }) hpos (by simp [hrows])

/-- **The monitor keeps to its loads**, and what it returns are the rows it has copied. -/
theorem follows_snapshot (startedMs : BitVec 64) :
    Follows Viewing.advance (fpStatsSnapshot startedMs)
      (fun snapshot v => snapshot.uptimeMs = elapsed v.now startedMs ∧
        v.rows = snapshot.connections.map StatsConnView.key) .start := by
  refine follows_bind.mpr (follows_ask.mpr fun now =>
    ⟨{ Viewing.start with now := now }, by simp [Viewing.advance, Viewing.start], ?_⟩)
  refine follows_bind.mpr (follows_ask.mpr fun totalUp => ⟨_, rfl, ?_⟩)
  refine follows_bind.mpr (follows_ask.mpr fun totalDown => ⟨_, rfl, ?_⟩)
  have hrows := follows_viewFrom fpMaxClients 0 [] (v := { Viewing.start with now := now }) rfl rfl
  refine follows_bind.mpr (hrows.mono ?_)
  rintro connections v ⟨hnow, hrows⟩
  refine follows_ret.mpr ⟨?_, hrows⟩
  rw [hnow]

end

/-! ## The monitor beside the pool -/

/-- The pool, and the monitor that reads its map. -/
structure Monitored where
  seated : Seated
  /-- what `fp_stats_snapshot` has left to do -/
  code : ViewProg StatsSnapshot
  viewing : Viewing

/-- What happens next. -/
inductive MonitorEvent where
  | pool (ev : PoolEvent)
  /-- one load of the monitor -/
  | view (e : ViewOp)

/-- The answer to a call of the monitor. -/
def viewed (m : StatsMap) : (e : ViewOp) → ViewResp e → Prop
  | .total .up, r => r = m.totalUp
  | .total .down, r => r = m.totalDown
  | .active index, r => r = (m.at index).active
  | .pid index, r => r = (m.at index).pid
  | .destAddr index, r => r = (m.at index).destAddr
  | .destPort index, r => r = (m.at index).destPort
  | .bytes index direction, r => r = (m.at index).bytes direction
  | .startMs index, r => r = (m.at index).startMs
  | .monotonicMs, _ | .gone _, _ => True

/-- One step of the pool or of the monitor. -/
inductive MonitorStep (startedMs : BitVec 64) : Monitored → MonitorEvent → Monitored → Prop
  | pool {s : Monitored} {ev : PoolEvent} {seated : Seated} (h : SeatStep startedMs s.seated ev seated) :
      MonitorStep startedMs s (.pool ev) { s with seated := seated }
  | view {s : Monitored} {e : ViewOp} {k : ViewResp e → ViewProg StatsSnapshot} {r : ViewResp e}
      (hcode : s.code.next = .call e k) (hr : viewed s.seated.map e r) :
      MonitorStep startedMs s (.view e)
        { s with code := k r, viewing := (s.viewing.advance e r).getD s.viewing }

/-- The map has just been created; the snapshot begins whenever the monitor makes its first step. -/
def Monitored.Initial (startedMs : BitVec 64) (s : Monitored) : Prop :=
  s.seated.Initial ∧ s.code = fpStatsSnapshot startedMs ∧ s.viewing = .start

/-! ## What a row should show -/

/-- The row is that of a connection. -/
def RowKey.Actual (claims : List Claim) (row : RowKey) : Prop :=
  ∃ claim ∈ claims, row.pid = claim.pid ∧ row.destAddr = claim.destination.addr ∧
    row.destPort = claim.destination.port

/-- The slot whose row is being copied. -/
def ViewPos.index : ViewPos → Option Nat
  | .between => none
  | .addr i _ | .port i _ _ | .pid i _ _ _ | .compared i _ _ _ => some i

/-- The slot as the row will show it, if no field is stored to. -/
def ViewPos.seen (slot : StatsConn) : ViewPos → StatsConn
  | .between => slot
  | .addr _ destAddr => { slot with destAddr := destAddr }
  | .port _ destAddr destPort => { slot with destAddr := destAddr, destPort := destPort }
  | .pid _ destAddr destPort holder | .compared _ destAddr destPort holder =>
    { slot with destAddr := destAddr, destPort := destPort, pid := holder }

/-- The field is still to be copied for this row. -/
def ViewPos.awaits : ViewPos → SlotStore → Bool
  | .addr _ _, .destPort _ | .addr _ _, .pid _ | .addr _ _, .startMs _ => true
  | .port _ _ _, .pid _ | .port _ _ _, .startMs _ => true
  | .pid _ _ _ _, .startMs _ | .compared _ _ _ _, .startMs _ => true
  | _, _ => false

/-- What the comparison has found. -/
def ViewPos.Later (now startMs : BitVec 64) : ViewPos → Prop
  | .compared _ _ _ _ => now > startMs
  | _ => True

/-- A slot is held when its row is begun, and nobody stores to a field that is still to be copied. -/
def Monitored.undisturbed (s : Monitored) : MonitorEvent → Prop
  | .view (.destAddr index) => ∃ pid, s.seated.seats index = .held pid
  | .pool (.access _ (.map (.store index field))) | .pool (.clear (.store index field)) =>
    s.viewing.pos.index = some index → s.viewing.pos.awaits field = false
  | _ => True

/-- What is known while the monitor copies. -/
structure ViewInv (startedMs : BitVec 64) (s : Monitored) : Prop where
  follows : Follows Viewing.advance s.code
    (fun snapshot v => snapshot.uptimeMs = elapsed v.now startedMs ∧
      v.rows = snapshot.connections.map StatsConnView.key) s.viewing
  rows : ∀ row ∈ s.viewing.rows,
    row.Actual s.seated.claims ∧ row.ageMs ≤ elapsed s.viewing.now startedMs
  current : ∀ i, s.viewing.pos.index = some i → ∃ claim ∈ s.seated.claims, startedMs ≤ claim.startMs ∧
    claim.Shown (s.viewing.pos.seen (s.seated.map.at i)) ∧
    s.viewing.pos.Later s.viewing.now claim.startMs

section

variable {startedMs : BitVec 64} {s : Monitored} {claim : Claim} {claims : List Claim}

theorem viewInv_initial (h : s.Initial startedMs) : ViewInv startedMs s := by
  obtain ⟨-, hcode, hviewing⟩ := h
  refine ⟨?_, ?_, ?_⟩
  · rw [hcode, hviewing]
    exact follows_snapshot startedMs
  · simp [hviewing, Viewing.start]
  · simp [hviewing, Viewing.start, ViewPos.index]

/-! ### The pool -/

/-- A store to a field that is not awaited does not change what the row will show. -/
theorem shown_apply {pos : ViewPos} {field : SlotStore} {slot : StatsConn} {i : Nat}
    (hi : pos.index = some i) (hawaits : pos.awaits field = false) (h : claim.Shown (pos.seen slot)) :
    claim.Shown (pos.seen (field.apply slot)) := by
  obtain ⟨hpid, haddr, hport, hstart⟩ := h
  cases pos with
  | between => simp [ViewPos.index] at hi
  | addr j destAddr =>
    cases field with
    | destPort value => simp [ViewPos.awaits] at hawaits
    | pid value => simp [ViewPos.awaits] at hawaits
    | startMs value => simp [ViewPos.awaits] at hawaits
    | bytes direction value => cases direction <;> exact ⟨hpid, haddr, hport, hstart⟩
    | _ => exact ⟨hpid, haddr, hport, hstart⟩
  | port j destAddr destPort =>
    cases field with
    | pid value => simp [ViewPos.awaits] at hawaits
    | startMs value => simp [ViewPos.awaits] at hawaits
    | bytes direction value => cases direction <;> exact ⟨hpid, haddr, hport, hstart⟩
    | _ => exact ⟨hpid, haddr, hport, hstart⟩
  | pid j destAddr destPort pid =>
    cases field with
    | startMs value => simp [ViewPos.awaits] at hawaits
    | bytes direction value => cases direction <;> exact ⟨hpid, haddr, hport, hstart⟩
    | _ => exact ⟨hpid, haddr, hport, hstart⟩
  | compared j destAddr destPort pid =>
    cases field with
    | startMs value => simp [ViewPos.awaits] at hawaits
    | bytes direction value => cases direction <;> exact ⟨hpid, haddr, hport, hstart⟩
    | _ => exact ⟨hpid, haddr, hport, hstart⟩

/-- A slot that is written, or another one. -/
theorem at_modify_cases (m : StatsMap) (index : Nat) (f : StatsConn → StatsConn) (i : Nat) :
    (m.modify index f).at i = m.at i ∨ (i = index ∧ (m.modify index f).at i = f (m.at i)) := by
  by_cases hindex : index < fpMaxClients
  · rw [at_modify hindex]
    by_cases hi : i = index
    · subst hi
      exact .inr ⟨rfl, if_pos rfl⟩
    · exact .inl (if_neg hi)
  · refine .inl ?_
    have hsame : m.slots.modify index f = m.slots := by
      rw [List.modify_eq_self]
      rw [m.slots_length]
      omega
    unfold StatsMap.at
    rw [StatsMap.modify_slots, hsame]

/-- What an access does to what the row will show. -/
theorem shown_access {m m' : StatsMap} {pos : ViewPos} {e : MapOp} {r : MapResp e} {i : Nat}
    (hi : pos.index = some i)
    (hok : ∀ index field, e = .store index field → pos.index = some index → pos.awaits field = false)
    (hr : mapSem e () m = (r, m')) (h : claim.Shown (pos.seen (m.at i))) :
    claim.Shown (pos.seen (m'.at i)) := by
  cases e with
  | cas index =>
    by_cases hactive : (m.at index).active = true
    · obtain ⟨-, rfl⟩ := Prod.mk.inj ((if_pos hactive).symm.trans hr)
      exact h
    · obtain ⟨-, rfl⟩ := Prod.mk.inj ((if_neg hactive).symm.trans hr)
      rcases at_modify_cases m index (fun slot => { slot with active := true }) i with hat | ⟨-, hat⟩
      · rwa [hat]
      · rw [hat]
        obtain ⟨hpid, haddr, hport, hstart⟩ := h
        cases pos <;> exact ⟨hpid, haddr, hport, hstart⟩
  | store index field =>
    obtain ⟨-, rfl⟩ := Prod.mk.inj hr
    rcases at_modify_cases m index (fun slot => field.apply slot) i with hat | ⟨rfl, hat⟩
    · rwa [hat]
    · rw [hat]
      exact shown_apply hi (hok i field rfl hi) h
  | addTotal direction bytes =>
    obtain ⟨-, rfl⟩ := Prod.mk.inj hr
    cases direction <;> exact h
  | _ =>
    obtain ⟨-, rfl⟩ := Prod.mk.inj hr
    exact h

/-- What a step of the pool does to the map: nothing, or one access. -/
theorem SeatStep.map_cases {s s' : Seated} {ev : PoolEvent} (h : SeatStep startedMs s ev s') :
    s'.map = s.map ∨ ∃ e r, ((∃ pid, ev = .access pid (.map e)) ∨ ev = .clear e) ∧
      mapSem e () s.map = (r, s'.map) := by
  cases h with
  | fork => exact .inl rfl
  | @other _ pool hev h =>
    unfold Seated.map
    rw [Seated.after_pool]
    cases h with
    | @access w rest e k r m' hw hrunning hcode hr =>
      cases e with
      | map e => exact .inr ⟨e, r, .inl ⟨w.pid, rfl⟩, hr⟩
      | _ => exact .inl hr
    | clear hsweep hcode hr => exact .inr ⟨_, _, .inr rfl, hr⟩
    | _ => exact .inl rfl

/-- Claims are kept. -/
theorem SeatStep.claims_mem {s s' : Seated} {ev : PoolEvent} (h : SeatStep startedMs s ev s') :
    ∀ claim ∈ s.claims, claim ∈ s'.claims := by
  cases h with
  | fork => exact fun _ h => h
  | @other _ pool hev h =>
    unfold Seated.after
    split
    · exact claimsAfter_mem _
    · exact fun _ h => h
    · exact fun _ h => h

theorem viewInv_pool {seated : Seated} {ev : PoolEvent} (h : ViewInv startedMs s)
    (hok : s.undisturbed (.pool ev)) (hs : SeatStep startedMs s.seated ev seated) :
    ViewInv startedMs { s with seated := seated } := by
  refine ⟨h.follows, fun row hrow => ?_, fun i hi => ?_⟩
  · obtain ⟨⟨claim, hmem, hrow'⟩, hage⟩ := h.rows row hrow
    exact ⟨⟨claim, hs.claims_mem claim hmem, hrow'⟩, hage⟩
  · obtain ⟨claim, hmem, hstarted, hshown, hlater⟩ := h.current i hi
    refine ⟨claim, hs.claims_mem claim hmem, hstarted, ?_, hlater⟩
    rcases hs.map_cases with hmap | ⟨e, r, hev, hr⟩
    · exact hmap ▸ hshown
    · refine shown_access hi ?_ hr hshown
      rintro index field rfl
      rcases hev with ⟨pid, rfl⟩ | rfl
      · exact hok
      · exact hok

/-! ### The monitor -/

/-- A connection is not older than the map. -/
theorem age_le {now startMs : BitVec 64} (hstarted : startedMs ≤ startMs) (hlater : now > startMs) :
    now - startMs ≤ elapsed now startedMs := by
  unfold elapsed
  rw [if_pos (by bv_omega)]
  bv_omega

/-- What is known of the rows and of the one that is being copied. -/
def Viewing.Sound (startedMs : BitVec 64) (claims : List Claim) (m : StatsMap) (v : Viewing) : Prop :=
  (∀ row ∈ v.rows, row.Actual claims ∧ row.ageMs ≤ elapsed v.now startedMs) ∧
    ∀ i, v.pos.index = some i → ∃ claim ∈ claims, startedMs ≤ claim.startMs ∧
      claim.Shown (v.pos.seen (m.at i)) ∧ v.pos.Later v.now claim.startMs

variable {v v' : Viewing} {m : StatsMap} {i : Nat}

/-- A row is complete. -/
theorem Viewing.Sound.row {destAddr : Addr} {destPort : BitVec 16} {pid : Int} {ageMs : BitVec 64}
    (h : v.Sound startedMs claims m)
    (hclaim : ∃ claim ∈ claims, pid = claim.pid ∧ destAddr = claim.destination.addr ∧
      destPort = claim.destination.port) (hage : ageMs ≤ elapsed v.now startedMs) :
    Viewing.Sound startedMs claims m
      { v with rows := v.rows ++ [⟨destAddr, destPort, pid, ageMs⟩], pos := .between } := by
  refine ⟨fun row hrow => ?_, fun i hi => by simp [ViewPos.index] at hi⟩
  rcases List.mem_append.mp hrow with hrow | hrow
  · exact h.1 row hrow
  · rw [List.mem_singleton.mp hrow]
    exact ⟨hclaim, hage⟩

/-- A load of `pid`. -/
theorem sound_pid {r : Int} (h : v.Sound startedMs claims m) (hr : r = (m.at i).pid)
    (hadvance : v.pidLoaded i r = some v') : v'.Sound startedMs claims m := by
  obtain ⟨now, rows, pos⟩ := v
  cases pos with
  | between =>
    obtain rfl := Option.some.inj hadvance
    exact h
  | port j destAddr destPort =>
    obtain ⟨rfl, hv⟩ := Option.ite_none_right_eq_some.mp hadvance
    obtain rfl := Option.some.inj hv
    obtain ⟨claim, hmem, hstarted, hshown, -⟩ := h.2 j rfl
    refine ⟨h.1, fun i hi => ?_⟩
    obtain rfl : j = i := Option.some.inj hi
    refine ⟨claim, hmem, hstarted, ⟨?_, hshown.addr, hshown.port, hshown.startMs⟩, trivial⟩
    exact hr.trans hshown.pid
  | addr j destAddr => simp [Viewing.pidLoaded] at hadvance
  | pid j destAddr destPort holder => simp [Viewing.pidLoaded] at hadvance
  | compared j destAddr destPort holder => simp [Viewing.pidLoaded] at hadvance

/-- A load of `start_ms`. -/
theorem sound_startMs {r : BitVec 64} (h : v.Sound startedMs claims m) (hr : r = (m.at i).startMs)
    (hadvance : v.startLoaded i r = some v') : v'.Sound startedMs claims m := by
  obtain ⟨now, rows, pos⟩ := v
  cases pos with
  | between => simp [Viewing.startLoaded] at hadvance
  | addr j destAddr => simp [Viewing.startLoaded] at hadvance
  | port j destAddr destPort => simp [Viewing.startLoaded] at hadvance
  | pid j destAddr destPort holder =>
    obtain ⟨rfl, hv⟩ := Option.ite_none_right_eq_some.mp hadvance
    obtain rfl := Option.some.inj hv
    obtain ⟨claim, hmem, hstarted, hshown, -⟩ := h.2 j rfl
    have hstart : r = claim.startMs := hr.trans hshown.startMs
    by_cases hlater : now > r
    · rw [if_pos hlater]
      refine ⟨h.1, fun i hi => ?_⟩
      obtain rfl : j = i := Option.some.inj hi
      exact ⟨claim, hmem, hstarted, hshown, hstart ▸ hlater⟩
    · rw [if_neg hlater]
      exact h.row ⟨claim, hmem, hshown.pid, hshown.addr, hshown.port⟩ (by bv_omega)
  | compared j destAddr destPort holder =>
    obtain ⟨rfl, hv⟩ := Option.ite_none_right_eq_some.mp hadvance
    obtain rfl := Option.some.inj hv
    obtain ⟨claim, hmem, hstarted, hshown, hlater⟩ := h.2 j rfl
    have hstart : r = claim.startMs := hr.trans hshown.startMs
    refine h.row ⟨claim, hmem, hshown.pid, hshown.addr, hshown.port⟩ ?_
    rw [hstart]
    exact age_le hstarted hlater

/-- **A load keeps what is known**; the first one of a row rests on what the slot shows. -/
theorem sound_advance {e : ViewOp} {r : ViewResp e} (h : v.Sound startedMs claims m)
    (hheld : ∀ i, e = .destAddr i → ∃ claim ∈ claims, startedMs ≤ claim.startMs ∧ claim.Shown (m.at i))
    (hadvance : v.advance e r = some v') (hr : viewed m e r) : v'.Sound startedMs claims m := by
  cases e with
  | monotonicMs =>
    obtain ⟨⟨hpos, hrows⟩, hv⟩ := Option.ite_none_right_eq_some.mp hadvance
    obtain rfl := Option.some.inj hv
    exact ⟨by simp [hrows], by simp [hpos, ViewPos.index]⟩
  | destAddr index =>
    obtain ⟨hpos, hv⟩ := Option.ite_none_right_eq_some.mp hadvance
    obtain rfl := Option.some.inj hv
    obtain ⟨claim, hmem, hstarted, hshown⟩ := hheld index rfl
    refine ⟨h.1, fun i hi => ?_⟩
    obtain rfl : index = i := Option.some.inj hi
    refine ⟨claim, hmem, hstarted, ⟨hshown.pid, ?_, hshown.port, hshown.startMs⟩, trivial⟩
    exact hr.trans hshown.addr
  | destPort index =>
    obtain ⟨now, rows, pos⟩ := v
    cases pos with
    | addr j destAddr =>
      obtain ⟨rfl, hv⟩ := Option.ite_none_right_eq_some.mp hadvance
      obtain rfl := Option.some.inj hv
      obtain ⟨claim, hmem, hstarted, hshown, -⟩ := h.2 j rfl
      refine ⟨h.1, fun i hi => ?_⟩
      obtain rfl : j = i := Option.some.inj hi
      refine ⟨claim, hmem, hstarted, ⟨hshown.pid, hshown.addr, ?_, hshown.startMs⟩, trivial⟩
      exact hr.trans hshown.port
    | _ => simp [Viewing.advance] at hadvance
  | pid index => exact sound_pid h hr hadvance
  | startMs index => exact sound_startMs h hr hadvance
  | total direction =>
    obtain rfl := Option.some.inj hadvance
    exact h
  | active index =>
    obtain rfl := Option.some.inj hadvance
    exact h
  | gone pid =>
    obtain rfl := Option.some.inj hadvance
    exact h
  | bytes index direction =>
    obtain rfl := Option.some.inj hadvance
    exact h

/-- **The rows of an undisturbed monitor.** The bookkeeping of the seats says what a held slot shows. -/
theorem viewInv_reach
    (h : Reach (Monitored.Initial startedMs) Monitored.undisturbed (MonitorStep startedMs) s) :
    SeatInv startedMs s.seated ∧ ViewInv startedMs s := by
  refine h.inv (I := fun s => SeatInv startedMs s.seated ∧ ViewInv startedMs s)
    (fun s hs => ⟨seatInv_initial hs.1, viewInv_initial hs⟩) ?_
  rintro s ev s' ⟨hseats, hview⟩ hok hs
  cases hs with
  | pool hs => exact ⟨seatInv_step hseats hs, viewInv_pool hview hok hs⟩
  | @view e k r hcode hr =>
    obtain ⟨v', hadvance, hfollows⟩ := (follows_next hcode).mp hview.follows r
    have hheld : ∀ i, e = .destAddr i → ∃ claim ∈ s.seated.claims, startedMs ≤ claim.startMs ∧
        claim.Shown (s.seated.map.at i) := by
      rintro i rfl
      obtain ⟨pid, hseat⟩ := hok
      have hslot := hseats.seats i
      rw [hseat] at hslot
      obtain ⟨-, claim, hmem, -, hshown⟩ := hslot
      exact ⟨claim, hmem, hseats.claims claim hmem, hshown⟩
    obtain ⟨hrows, hcurrent⟩ := sound_advance ⟨hview.rows, hview.current⟩ hheld hadvance hr
    rw [hadvance, Option.getD_some]
    exact ⟨hseats, hfollows, hrows, hcurrent⟩

/-- **The rows of a snapshot are those of real connections**, and none is older than the map, when no row is
copied while its slot changes. -/
theorem snapshot_actual {snapshot : StatsSnapshot}
    (h : Reach (Monitored.Initial startedMs) Monitored.undisturbed (MonitorStep startedMs) s)
    (hdone : s.code = .ret snapshot) : ∀ view ∈ snapshot.connections,
      (∃ claim ∈ s.seated.claims, view.pid = claim.pid ∧ view.destAddr = claim.destination.addr ∧
        view.destPort = claim.destination.port) ∧ view.ageMs ≤ snapshot.uptimeMs := by
  obtain ⟨-, hfollows, hrows, -⟩ := viewInv_reach h
  rw [hdone, follows_ret] at hfollows
  obtain ⟨huptime, hconnections⟩ := hfollows
  intro view hview
  have hkey : view.key ∈ s.viewing.rows := by
    rw [hconnections]
    exact List.mem_map.mpr ⟨view, hview, rfl⟩
  rw [huptime]
  exact hrows view.key hkey

end

/-! ## Two runs -/

/-- Whose turn it is. -/
inductive MonitorTurn where
  | worker
  | monitor
  deriving DecidableEq

/-- The clock shows 10, and every process is there. -/
def viewAnswer (m : StatsMap) : (e : ViewOp) → ViewResp e
  | .total .up => m.totalUp
  | .total .down => m.totalDown
  | .active index => (m.at index).active
  | .pid index => (m.at index).pid
  | .destAddr index => (m.at index).destAddr
  | .destPort index => (m.at index).destPort
  | .bytes index direction => (m.at index).bytes direction
  | .startMs index => (m.at index).startMs
  | .monotonicMs => 10
  | .gone _ => false

namespace Monitored

/-- The next call of the first worker, or of the monitor; the environment of a worker says yes. -/
def play (s : Monitored) : MonitorTurn → Option (MonitorEvent × Monitored)
  | .worker =>
    match s.seated.pool.workers with
    | [] => none
    | w :: rest =>
      match w.running, w.code.next with
      | true, .call e k =>
        let r := workerSem e () s.seated.map
        some (.pool (.access w.pid e),
          { s with
            seated := s.seated.after
              { s.seated.pool with map := r.2, workers := w.after e r.1 (k r.1) :: rest }
              (.access w.pid e) })
      | _, _ => none
  | .monitor =>
    match s.code.next with
    | .done _ => none
    | .call e k =>
      let r := viewAnswer s.seated.map e
      some (.view e, { s with code := k r, viewing := (s.viewing.advance e r).getD s.viewing })

/-- A run by turns, as long as its steps pass the check. -/
def playAll (ok : Monitored → MonitorEvent → Bool) : List MonitorTurn → Monitored → Option Monitored
  | [], s => some s
  | turn :: turns, s =>
    match s.play turn with
    | some (ev, s') => if ok s ev then playAll ok turns s' else none
    | none => none

end Monitored

section

variable {startedMs : BitVec 64} {s s' : Monitored}

theorem play_step {turn : MonitorTurn} {ev : MonitorEvent} (h : s.play turn = some (ev, s')) :
    MonitorStep startedMs s ev s' := by
  cases turn with
  | worker =>
    unfold Monitored.play at h
    dsimp only at h
    split at h
    · cases h
    rename_i w rest hworkers
    split at h
    · rename_i e k hrunning hcode
      obtain ⟨rfl, rfl⟩ := Prod.mk.inj (Option.some.inj h)
      refine .pool (.other (by simp) (.access (List.Perm.of_eq hworkers) hrunning hcode ?_))
      exact answered_workerSem e _ _ _ ⟨(), rfl⟩
    · cases h
  | monitor =>
    unfold Monitored.play at h
    dsimp only at h
    split at h
    · cases h
    rename_i e k hcode
    obtain ⟨rfl, rfl⟩ := Prod.mk.inj (Option.some.inj h)
    refine .view hcode ?_
    cases e with
    | total direction => cases direction <;> rfl
    | monotonicMs => trivial
    | gone pid => trivial
    | _ => rfl

theorem reach_playAll {check : Monitored → MonitorEvent → Bool} {ok : Monitored → MonitorEvent → Prop}
    (hcheck : ∀ s ev, check s ev = true → ok s ev) {init : Monitored → Prop} :
    ∀ {turns : List MonitorTurn} {s s' : Monitored}, Reach init ok (MonitorStep startedMs) s →
      s.playAll check turns = some s' → Reach init ok (MonitorStep startedMs) s'
  | [], s, s', h, hplay => by
    obtain rfl := Option.some.inj hplay
    exact h
  | turn :: turns, s, s', h, hplay => by
    unfold Monitored.playAll at hplay
    split at hplay
    · rename_i ev s₁ hturn
      split at hplay
      · rename_i hev
        exact reach_playAll hcheck (h.step (hcheck s ev hev) (play_step hturn)) hplay
      · cases hplay
    · cases hplay

end

/-- The check of an undisturbed step. -/
def Monitored.checkUndisturbed (s : Monitored) : MonitorEvent → Bool
  | .view (.destAddr index) =>
    match s.seated.seats index with
    | .held _ => true
    | _ => false
  | .pool (.access _ (.map (.store index field))) | .pool (.clear (.store index field)) =>
    s.viewing.pos.index != some index || !s.viewing.pos.awaits field
  | _ => true

theorem undisturbed_of_check (s : Monitored) (ev : MonitorEvent) (h : s.checkUndisturbed ev = true) :
    s.undisturbed ev := by
  unfold Monitored.checkUndisturbed at h
  unfold Monitored.undisturbed
  split at h
  · split at h
    · rename_i pid hseat
      exact ⟨pid, hseat⟩
    · cases h
  · intro hindex
    simpa [hindex] using h
  · intro hindex
    simpa [hindex] using h
  · trivial

/-- A worker connects to 192.0.2.1:443, five milliseconds after the map was created. -/
def someClaim : Claim := ⟨2, ⟨0xC0000201, 443⟩, 7⟩

/-- It has just been forked. -/
def oneWorker : Monitored where
  seated := {
    pool := ⟨.zero, [.forked someClaim.pid someClaim.destination someClaim.startMs], none, 1⟩
    seats := fun _ => .free
    orders := fun _ => someClaim
    claims := [] }
  code := fpStatsSnapshot 5
  viewing := .start

theorem reach_oneWorker {ok : Monitored → MonitorEvent → Prop} (hok : ∀ s pid, ok s (.pool (.fork pid))) :
    Reach (Monitored.Initial 5) ok (MonitorStep 5) oneWorker := by
  have hinit : Monitored.Initial 5
      { oneWorker with seated := { oneWorker.seated with pool := ⟨.zero, [], none, 0⟩ } } :=
    ⟨⟨⟨rfl, rfl, rfl, rfl⟩, fun _ => rfl, rfl⟩, rfl, rfl⟩
  have hfork : SeatStep 5 { oneWorker.seated with pool := ⟨.zero, [], none, 0⟩ } (.fork 2)
      oneWorker.seated := by
    have hstep : SeatStep 5 { oneWorker.seated with pool := ⟨.zero, [], none, 0⟩ } (.fork someClaim.pid) _ :=
      .fork rfl (by decide) (by simp) (by decide)
    have horders : Function.update oneWorker.seated.orders someClaim.pid someClaim = oneWorker.seated.orders :=
      Function.update_eq_self _ _
    dsimp only at hstep
    rw [horders] at hstep
    exact hstep
  exact (Reach.init hinit).step (hok _ 2) (.pool hfork)

/-- A run by turns that ends with these rows. -/
theorem exists_snapshot (turns : List MonitorTurn) (connections : List StatsConnView)
    {check : Monitored → MonitorEvent → Bool} {ok : Monitored → MonitorEvent → Prop}
    (hcheck : ∀ s ev, check s ev = true → ok s ev) (hfork : ∀ s pid, ok s (.pool (.fork pid)))
    (hplay : ((oneWorker.playAll check turns).any fun s => s.code.result.any fun snapshot =>
      snapshot.connections == connections && s.seated.claims == [someClaim]) = true) :
    ∃ s snapshot, Reach (Monitored.Initial 5) ok (MonitorStep 5) s ∧ s.code = .ret snapshot ∧
      snapshot.connections = connections ∧ s.seated.claims = [someClaim] := by
  cases hs : oneWorker.playAll check turns with
  | none => simp [hs] at hplay
  | some s =>
    cases hresult : s.code.result with
    | none => simp [hs, hresult] at hplay
    | some snapshot =>
      simp only [hs, hresult, Option.any_some, Bool.and_eq_true, beq_iff_eq] at hplay
      exact ⟨s, snapshot, reach_playAll hcheck (reach_oneWorker hfork) hs, Prog.result_eq_some.mp hresult,
        hplay.1, hplay.2⟩

/-- The monitor reads the map when the worker has made its claim. -/
theorem snapshot_actual_calm : ∃ s snapshot,
    Reach (Monitored.Initial 5) Monitored.undisturbed (MonitorStep 5) s ∧ s.code = .ret snapshot ∧
      snapshot.connections = [⟨0xC0000201, 443, 2, 0, 0, 3⟩] ∧ ∀ view ∈ snapshot.connections,
        (∃ claim ∈ s.seated.claims, view.pid = claim.pid ∧ view.destAddr = claim.destination.addr ∧
          view.destPort = claim.destination.port) ∧ view.ageMs ≤ snapshot.uptimeMs := by
  obtain ⟨s, snapshot, hreach, hdone, hconnections, -⟩ :=
    exists_snapshot (List.replicate 8 .worker ++ List.replicate 141 .monitor)
      [⟨0xC0000201, 443, 2, 0, 0, 3⟩] undisturbed_of_check (fun _ _ => trivial) (by decide +kernel)
  exact ⟨s, snapshot, hreach, hdone, hconnections, snapshot_actual hreach hdone⟩

/-- The monitor has found the slot active, with a pid; the worker gives it back before the row is copied: the
row is that of no connection. -/
theorem snapshot_torn : ¬ ∀ startedMs s snapshot, Reach (Monitored.Initial startedMs) anyStep
    (MonitorStep startedMs) s → s.code = .ret snapshot → ∀ view ∈ snapshot.connections,
      (∃ claim ∈ s.seated.claims, view.pid = claim.pid ∧ view.destAddr = claim.destination.addr ∧
        view.destPort = claim.destination.port) ∧ view.ageMs ≤ snapshot.uptimeMs := by
  intro h
  have hany : ∀ s ev, (fun _ _ => true : Monitored → MonitorEvent → Bool) s ev = true → anyStep s ev :=
    fun _ _ _ => trivial
  obtain ⟨s, snapshot, hreach, hdone, hconnections, hclaims⟩ :=
    exists_snapshot (List.replicate 8 .worker ++ List.replicate 7 .monitor ++ List.replicate 12 .worker ++
      List.replicate 134 .monitor) [⟨0, 0, 0, 0, 0, 10⟩] hany (fun _ _ => trivial) (by decide +kernel)
  have hmem : (⟨0, 0, 0, 0, 0, 10⟩ : StatsConnView) ∈ snapshot.connections := by
    rw [hconnections]
    exact List.mem_cons_self
  obtain ⟨⟨claim, hclaim, hpid, -⟩, -⟩ := h 5 s snapshot hreach hdone _ hmem
  rw [hclaims, List.mem_singleton] at hclaim
  rw [hclaim] at hpid
  exact absurd hpid (by decide)

end FreeProxy
