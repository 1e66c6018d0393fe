import FreeProxy.Lib.Protocol
import FreeProxy.Lib.Reach

/-!
# Workers and the death of the daemon

The child branch of `fp_proxy_run` with `handle_client`, in any number of workers, and the daemon
that may die at any moment. A worker asks for the signal `SIGTERM` at its parent's death, and looks
before and after whether it still has the parent it was born to.

The kernel keeps a `Task` for each worker. The signal is sent when the parent dies and it is set at
that moment, and a change of the effective uid or gid takes it back.

* **`no_worker_outlives`**: when the daemon dies while each worker has looked for its parent once and
  has not changed its credentials, every worker has ended, is sent the signal, or exits at its check.
* `worker_outlives`: a worker that has dropped its privileges relays on.

Out of scope: the sockets and the statistics of a worker, and reaping.
-/

namespace FreeProxy.ParentDeath

open Lib

/-! ## The child branch -/

/-- What a worker does for its client; it is answered by whether it succeeds. -/
inductive ServiceOp where
  | setSocketTimeouts
  | getOriginalDst
  | fpStatsClaim
  | connectSocks
  /-- the next bytes that `relay` passes on; not answered with `true` at its end -/
  | relayed
  | fpStatsAdd
  | closeUpstream
  | fpStatsRelease
  deriving DecidableEq

/-- The calls of a forked worker up to its exit. What has nothing to do with its parent is one call, `serve`. -/
inductive ChildOp where
  | getppid
  | closeListener
  /-- `signal(SIGTERM, SIG_DFL)` -/
  | defaultTerm
  /-- `signal(SIGINT, SIG_DFL)` -/
  | defaultInt
  | sigprocmask
  /-- `prctl(PR_SET_PDEATHSIG, SIGTERM)` -/
  | prctl
  | closeClient
  | geteuid
  | setgroups
  | setgid (gid : Nat)
  | setuid (uid : Nat)
  | serve (e : ServiceOp)
  deriving DecidableEq

/-- What a call answers. -/
abbrev ChildResp : ChildOp → Type
  | .getppid => Int
  | .geteuid => Nat
  | .prctl | .setgroups | .setgid _ | .setuid _ | .serve _ => Bool
  | .closeListener | .defaultTerm | .defaultInt | .sigprocmask | .closeClient => Unit

/-- A program of a worker. -/
abbrev ChildProg (α : Type) := Prog ChildOp ChildResp α

/-- One call. -/
abbrev ChildOp.ask (e : ChildOp) : ChildProg (ChildResp e) := Prog.ask e

/-- `drop_client_privileges`. `setuid` clears the parent-death signal. -/
def dropClientPrivileges : ChildProg Bool := do
  if (← ChildOp.ask .geteuid) ≠ 0 then pure true else do
  if !(← ChildOp.ask .setgroups) then pure false else do
  if !(← ChildOp.ask (.setgid 65534)) then pure false else ChildOp.ask (.setuid 65534)

/-- `relay`, as far as its parent matters: it goes round until there is nothing more to pass on. -/
def relay : ChildProg Unit :=
  .loop (.serve .relayed)
    (fun more => bif more then (ChildOp.ask (.serve .fpStatsAdd)).bind fun _ => .ret none
      else .ret (some ()))
    .ret

/-- The end of `handle_client`. -/
def finish : ChildProg Unit := do
  let _ ← ChildOp.ask (.serve .fpStatsRelease)
  ChildOp.ask .closeClient

/-- `handle_client`. -/
def handleClient : ChildProg Unit := do
  if !(← ChildOp.ask (.serve .setSocketTimeouts)) then ChildOp.ask .closeClient else do
  if !(← ChildOp.ask (.serve .getOriginalDst)) then ChildOp.ask .closeClient else do
  let _ ← ChildOp.ask (.serve .fpStatsClaim)
  if !(← dropClientPrivileges) then finish else do
  if ← ChildOp.ask (.serve .connectSocks) then do
    relay
    let _ ← ChildOp.ask (.serve .closeUpstream)
    finish
  else finish

/-- `close(client_fd); _exit(1)`. -/
def reject : ChildProg Nat := do
  ChildOp.ask .closeClient
  pure 1

/-- The child after the fork, up to its exit status. -/
def childBranch : ChildProg Nat := do
  let parentPid ← ChildOp.ask .getppid
  ChildOp.ask .closeListener
  ChildOp.ask .defaultTerm
  ChildOp.ask .defaultInt
  ChildOp.ask .sigprocmask
  if !(← ChildOp.ask .prctl) then reject else do
  if (← ChildOp.ask .getppid) ≠ parentPid then reject else do
  handleClient
  pure 0

/-! ## The kernel -/

/-- What the kernel keeps for a worker. -/
structure Task where
  ppid : Int
  /-- the signal at the parent's death is set -/
  deathSignal : Bool
  euid : Nat
  egid : Nat
  /-- it has called `getppid` -/
  looked : Bool
  /-- its effective uid or gid has changed -/
  changed : Bool
  deriving DecidableEq

/-- New effective ids; a change takes the signal back. -/
def Task.setIds (t : Task) (euid egid : Nat) : Task :=
  if euid = t.euid ∧ egid = t.egid then t
  else { t with euid := euid, egid := egid, deathSignal := false, changed := true }

/-- The calls of a worker; the choice says whether a call succeeds. -/
def taskSem : Sem ChildOp ChildResp Bool Task
  | .getppid, _, t => (t.ppid, { t with looked := true })
  | .prctl, ok, t => (ok, bif ok then { t with deathSignal := true } else t)
  | .geteuid, _, t => (t.euid, t)
  | .setgid gid, ok, t => (ok, bif ok then t.setIds t.euid gid else t)
  | .setuid uid, ok, t => (ok, bif ok then t.setIds uid t.egid else t)
  | .setgroups, ok, t | .serve _, ok, t => (ok, t)
  | .closeListener, _, t | .defaultTerm, _, t | .defaultInt, _, t | .sigprocmask, _, t
  | .closeClient, _, t => ((), t)

/-- What the kernel may answer a worker. -/
abbrev taskRel : Rel ChildOp ChildResp Task := taskSem.rel

/-! ## The daemon and its workers -/

/-- A worker of the daemon. -/
structure Worker where
  /-- what it has left to do -/
  code : ChildProg Nat
  task : Task
  /-- it has exited or has been killed -/
  ended : Bool
  /-- it has been sent `SIGTERM` because of the daemon's death -/
  signalled : Bool

/-- The daemon and its workers. -/
structure State where
  alive : Bool
  pid : Int
  /-- the process that inherits the workers -/
  reaper : Int
  euid : Nat
  egid : Nat
  /-- the workers that were forked, in any order -/
  workers : List Worker

/-- A worker after the fork; the signal is not inherited. -/
def Worker.forked (s : State) : Worker :=
  ⟨childBranch, ⟨s.pid, false, s.euid, s.egid, false, false⟩, false, false⟩

/-- A worker whose parent dies. -/
def Worker.orphaned (reaper : Int) (w : Worker) : Worker :=
  if w.ended then w
  else { w with task.ppid := reaper, signalled := w.signalled || w.task.deathSignal }

/-- What happens next. -/
inductive Event where
  | fork
  /-- the daemon dies, for whatever reason -/
  | die
  /-- one call of a worker -/
  | call (e : ChildOp)
  | exit (status : Nat)
  | kill
  deriving DecidableEq

/-- One step of the daemon or of a worker. -/
inductive Step : State → Event → State → Prop
  | fork {s : State} (halive : s.alive = true) :
      Step s .fork { s with workers := .forked s :: s.workers }
  | die {s : State} (halive : s.alive = true) :
      Step s .die { s with alive := false, workers := s.workers.map (.orphaned s.reaper) }
  | call {s : State} {w : Worker} {rest : List Worker} {e : ChildOp}
      {k : ChildResp e → ChildProg Nat} {r : ChildResp e} {t : Task}
      (hw : s.workers.Perm (w :: rest)) (hended : w.ended = false) (hcode : w.code.next = .call e k)
      (hr : taskRel e w.task r t) :
      Step s (.call e) { s with workers := { w with code := k r, task := t } :: rest }
  | exit {s : State} {w : Worker} {rest : List Worker} {status : Nat}
      (hw : s.workers.Perm (w :: rest)) (hended : w.ended = false) (hcode : w.code = .ret status) :
      Step s (.exit status) { s with workers := { w with ended := true } :: rest }
  | kill {s : State} {w : Worker} {rest : List Worker} (hw : s.workers.Perm (w :: rest))
      (hended : w.ended = false) :
      Step s .kill { s with workers := { w with ended := true } :: rest }

/-- The daemon runs, and has no workers yet. -/
def State.Initial (s : State) : Prop := s.alive = true ∧ s.reaper ≠ s.pid ∧ s.workers = []

/-- The daemon dies only while each worker that has not ended has looked for its parent and still
has its credentials. -/
def diesGuarded (s : State) : Event → Prop
  | .die => ∀ w ∈ s.workers, w.ended = false → w.task.looked = true ∧ w.task.changed = false
  | _ => True

/-- Whatever its calls are answered, it serves nobody any more, and exits with status `1` soon. -/
def Worker.ExitsByCheck (w : Worker) : Prop :=
  ∃ n, ∀ tr q t, Steps taskRel w.code w.task tr q t → tr.length ≤ n ∧
    (∀ ev ∈ tr, ∀ e, ev.1 ≠ .serve e) ∧ ∀ status, q = .ret status → status = 1

/-! ## The phases of a worker -/

/-- How far a worker has come with its parent-death signal. -/
inductive Phase where
  | fresh
  /-- it was told the pid `parent`; so many calls are left before `prctl` -/
  | told (parent : Int) (left : Nat)
  /-- the signal is set; the second `getppid` comes next -/
  | armed (parent : Int)
  | serving
  /-- it has failed the check; so many calls are left -/
  | rejected (left : Nat)
  deriving DecidableEq

namespace Phase

/-- The order of the calls around `prctl`. A call out of this order has no next phase. -/
def advance : Phase → (e : ChildOp) → ChildResp e → Option Phase
  | .fresh, .getppid, ppid => some (.told ppid 4)
  | .told parent (left + 1), .closeListener, _ | .told parent (left + 1), .defaultTerm, _
  | .told parent (left + 1), .defaultInt, _ | .told parent (left + 1), .sigprocmask, _ =>
    some (.told parent left)
  | .told parent 0, .prctl, ok => some (bif ok then .armed parent else .rejected 1)
  | .armed parent, .getppid, ppid => some (if ppid = parent then .serving else .rejected 1)
  | .rejected (left + 1), .closeClient, _ => some (.rejected left)
  | .serving, .closeClient, _ | .serving, .geteuid, _ | .serving, .setgroups, _
  | .serving, .setgid _, _ | .serving, .setuid _, _ | .serving, .serve _, _ => some .serving
  | _, _, _ => none

/-- The exit status that a phase ends with. -/
def Ends (status : Nat) (ph : Phase) : Prop := ph = .serving ∨ status = 1

/-- A worker that has got no signal will notice that its parent is not `parent` any more. -/
def Doomed (ppid : Int) : Phase → Prop
  | .told parent _ | .armed parent => parent ≠ ppid
  | .rejected _ => True
  | .fresh | .serving => False

/-- The calls that a doomed worker still makes. -/
def calls : Phase → Nat
  | .told _ left => left + 3
  | .armed _ => 2
  | .rejected left => left
  | .fresh | .serving => 0

/-- What is known of a worker while the daemon `pid` lives. -/
def Guarded (pid : Int) (t : Task) : Phase → Prop
  | .fresh => t.looked = false
  | .told parent _ => parent = pid
  | .armed parent => parent = pid ∧ t.deathSignal = true
  | .serving => t.changed = false → t.deathSignal = true
  | .rejected _ => True

end Phase

section

variable {Q : Unit → Phase → Prop}

/-- A worker that serves may do anything but ask for the signal or its parent again. -/
theorem follows_finish (h : Q () .serving) : Follows Phase.advance finish Q .serving :=
  follows_bind.mpr (follows_ask.mpr fun _ => ⟨.serving, rfl, follows_ask.mpr fun _ => ⟨.serving, rfl, h⟩⟩)

theorem follows_dropClientPrivileges {Q : Bool → Phase → Prop} (h : ∀ dropped, Q dropped .serving) :
    Follows Phase.advance dropClientPrivileges Q .serving := by
  refine follows_bind.mpr (follows_ask.mpr fun euid => ⟨.serving, rfl, ?_⟩)
  split
  · exact follows_ret.mpr (h true)
  refine follows_bind.mpr (follows_ask.mpr fun grouped => ⟨.serving, rfl, ?_⟩)
  split
  · exact follows_ret.mpr (h false)
  refine follows_bind.mpr (follows_ask.mpr fun gid => ⟨.serving, rfl, ?_⟩)
  split
  · exact follows_ret.mpr (h false)
  · exact follows_ask.mpr fun uid => ⟨.serving, rfl, h uid⟩

theorem follows_relay : Follows Phase.advance relay (fun _ ph => ph = .serving) .serving := by
  refine follows_loop (J := fun ph => ph = .serving) (B := fun _ ph => ph = .serving) ?_
    (fun _ _ h => follows_ret.mpr h) rfl
  rintro ph rfl more
  refine ⟨.serving, rfl, ?_⟩
  cases more with
  | false => exact follows_ret.mpr rfl
  | true => exact follows_bind.mpr (follows_ask.mpr fun _ => ⟨.serving, rfl, follows_ret.mpr rfl⟩)

theorem follows_handleClient (h : Q () .serving) :
    Follows Phase.advance handleClient Q .serving := by
  refine follows_bind.mpr (follows_ask.mpr fun timed => ⟨.serving, rfl, ?_⟩)
  split
  · exact follows_ask.mpr fun _ => ⟨.serving, rfl, h⟩
  refine follows_bind.mpr (follows_ask.mpr fun known => ⟨.serving, rfl, ?_⟩)
  split
  · exact follows_ask.mpr fun _ => ⟨.serving, rfl, h⟩
  refine follows_bind.mpr (follows_ask.mpr fun _ => ⟨.serving, rfl, ?_⟩)
  refine follows_bind.mpr (follows_dropClientPrivileges fun dropped => ?_)
  split
  · exact follows_finish h
  refine follows_bind.mpr (follows_ask.mpr fun connected => ⟨.serving, rfl, ?_⟩)
  split
  · refine follows_bind.mpr (follows_relay.mono ?_)
    rintro _ _ rfl
    exact follows_bind.mpr (follows_ask.mpr fun _ => ⟨.serving, rfl, follows_finish h⟩)
  · exact follows_finish h

theorem follows_reject : Follows Phase.advance reject Phase.Ends (.rejected 1) :=
  follows_bind.mpr (follows_ask.mpr fun _ => ⟨.rejected 0, rfl, follows_ret.mpr (.inr rfl)⟩)

/-- **The worker keeps to its phases.** -/
theorem follows_childBranch : Follows Phase.advance childBranch Phase.Ends .fresh := by
  refine follows_bind.mpr (follows_ask.mpr fun parentPid => ⟨.told parentPid 4, rfl, ?_⟩)
  refine follows_bind.mpr (follows_ask.mpr fun _ => ⟨.told parentPid 3, rfl, ?_⟩)
  refine follows_bind.mpr (follows_ask.mpr fun _ => ⟨.told parentPid 2, rfl, ?_⟩)
  refine follows_bind.mpr (follows_ask.mpr fun _ => ⟨.told parentPid 1, rfl, ?_⟩)
  refine follows_bind.mpr (follows_ask.mpr fun _ => ⟨.told parentPid 0, rfl, ?_⟩)
  refine follows_bind.mpr (follows_ask.mpr fun ok => ⟨_, rfl, ?_⟩)
  cases ok with
  | false => exact follows_reject
  | true =>
    refine follows_bind.mpr (follows_ask.mpr fun ppid => ⟨_, rfl, ?_⟩)
    by_cases hppid : ppid = parentPid
    · rw [if_pos hppid, if_neg (not_not.mpr hppid)]
      exact follows_bind.mpr (follows_handleClient (follows_ret.mpr (.inl rfl)))
    · rw [if_neg hppid, if_pos hppid]
      exact follows_reject

end

section

variable {ph ph' : Phase} {e : ChildOp} {r : ChildResp e} {t t' : Task}

theorem ppid_setIds (t : Task) (euid egid : Nat) : (t.setIds euid egid).ppid = t.ppid := by
  unfold Task.setIds
  split <;> rfl

/-- No call changes the parent. -/
theorem ppid_of_call (hr : taskRel e t r t') : t'.ppid = t.ppid := by
  obtain ⟨ok, hr⟩ := hr
  obtain rfl := (Prod.mk.inj hr).2
  cases e with
  | prctl => cases ok <;> rfl
  | setgid gid =>
    cases ok with
    | false => rfl
    | true => exact ppid_setIds t t.euid gid
  | setuid uid =>
    cases ok with
    | false => rfl
    | true => exact ppid_setIds t uid t.egid
  | _ => rfl

/-- One call of a doomed worker. -/
theorem doomed_step (hdoomed : ph.Doomed t.ppid) (hadvance : ph.advance e r = some ph')
    (hr : taskRel e t r t') :
    ph'.Doomed t'.ppid ∧ ph'.calls < ph.calls ∧ ∀ e', e ≠ .serve e' := by
  rw [ppid_of_call hr]
  cases ph with
  | fresh => exact hdoomed.elim
  | serving => exact hdoomed.elim
  | told parent left =>
    cases left with
    | zero =>
      cases e with
      | prctl =>
        obtain rfl := Option.some.inj hadvance
        cases r with
        | false => exact ⟨trivial, by simp [Phase.calls], by simp⟩
        | true => exact ⟨hdoomed, by simp [Phase.calls], by simp⟩
      | _ => simp [Phase.advance] at hadvance
    | succ left =>
      cases e with
      | closeListener | defaultTerm | defaultInt | sigprocmask =>
        obtain rfl := Option.some.inj hadvance
        exact ⟨hdoomed, by simp [Phase.calls], by simp⟩
      | _ => simp [Phase.advance] at hadvance
  | armed parent =>
    cases e with
    | getppid =>
      -- it is told its new parent
      obtain ⟨_, hr⟩ := hr
      obtain ⟨rfl, -⟩ := Prod.mk.inj hr
      obtain rfl := Option.some.inj hadvance
      rw [if_neg (Ne.symm hdoomed)]
      exact ⟨trivial, by simp [Phase.calls], by simp⟩
    | _ => simp [Phase.advance] at hadvance
  | rejected left =>
    cases left with
    | zero => cases e <;> simp [Phase.advance] at hadvance
    | succ left =>
      cases e with
      | closeClient =>
        obtain rfl := Option.some.inj hadvance
        exact ⟨trivial, by simp [Phase.calls], by simp⟩
      | _ => simp [Phase.advance] at hadvance

end

theorem doomed_steps {p q : ChildProg Nat} {t t' : Task} {tr : List (Ev ChildOp ChildResp)}
    (hs : Steps taskRel p t tr q t') {ph : Phase} (hdoomed : ph.Doomed t.ppid)
    (hf : Follows Phase.advance p Phase.Ends ph) : tr.length ≤ ph.calls ∧
      (∀ ev ∈ tr, ∀ e, ev.1 ≠ .serve e) ∧ ∀ status, q = .ret status → status = 1 := by
  induction hs generalizing ph with
  | refl p t =>
    refine ⟨Nat.zero_le _, by simp, ?_⟩
    rintro status rfl
    rcases follows_ret.mp hf with rfl | hstatus
    · exact hdoomed.elim
    · exact hstatus
  | step hp hr _ ih =>
    obtain ⟨ph', hadvance, hrest⟩ := (follows_next hp).mp hf _
    obtain ⟨hdoomed', hcalls, hserve⟩ := doomed_step hdoomed hadvance hr
    obtain ⟨hlen, hquiet, hstatus⟩ := ih hdoomed' hrest
    refine ⟨?_, ?_, hstatus⟩
    · rw [List.length_cons]
      omega
    · rintro ev (_ | ⟨_, hev⟩)
      · exact hserve
      · exact hquiet ev hev

/-! ## Runs -/

/-- A worker that has not ended is in one of its phases, and is as safe there as it can be. -/
def WorkerInv (s : State) (w : Worker) : Prop :=
  w.ended = false → ∃ ph, Follows Phase.advance w.code Phase.Ends ph ∧
    if s.alive then w.task.ppid = s.pid ∧ ph.Guarded s.pid w.task
    else w.signalled = true ∨ ph.Doomed w.task.ppid

/-- What holds in every state. -/
structure StateInv (s : State) : Prop where
  reaper : s.reaper ≠ s.pid
  workers : ∀ w ∈ s.workers, WorkerInv s w

/-- The signal is taken back by a change of the credentials only. -/
theorem guarded_setIds {pid : Int} {t : Task} (h : Phase.serving.Guarded pid t) (ok : Bool)
    (euid egid : Nat) : Phase.serving.Guarded pid (bif ok then t.setIds euid egid else t) := by
  cases ok with
  | false => exact h
  | true =>
    simp only [cond_true, Task.setIds]
    split
    · exact h
    · intro hchanged
      simp at hchanged

/-- One call of a worker whose parent lives. -/
theorem guarded_step {pid : Int} {ph ph' : Phase} {e : ChildOp} {r : ChildResp e} {t t' : Task}
    (hppid : t.ppid = pid) (hguarded : ph.Guarded pid t) (hadvance : ph.advance e r = some ph')
    (hr : taskRel e t r t') : ph'.Guarded pid t' := by
  obtain ⟨ok, hr⟩ := hr
  obtain ⟨rfl, rfl⟩ := Prod.mk.inj hr
  cases ph with
  | fresh =>
    cases e with
    | getppid =>
      obtain rfl := Option.some.inj hadvance
      exact hppid
    | _ => simp [Phase.advance] at hadvance
  | told parent left =>
    cases left with
    | zero =>
      cases e with
      | prctl =>
        obtain rfl := Option.some.inj hadvance
        cases ok with
        | false => trivial
        | true => exact ⟨hguarded, rfl⟩
      | _ => simp [Phase.advance] at hadvance
    | succ left =>
      cases e with
      | closeListener | defaultTerm | defaultInt | sigprocmask =>
        obtain rfl := Option.some.inj hadvance
        exact hguarded
      | _ => simp [Phase.advance] at hadvance
  | armed parent =>
    cases e with
    | getppid =>
      obtain rfl := Option.some.inj hadvance
      obtain ⟨rfl, hset⟩ := hguarded
      rw [if_pos hppid]
      exact fun _ => hset
    | _ => simp [Phase.advance] at hadvance
  | serving =>
    cases e with
    | setgid gid =>
      obtain rfl := Option.some.inj hadvance
      exact guarded_setIds hguarded ok t.euid gid
    | setuid uid =>
      obtain rfl := Option.some.inj hadvance
      exact guarded_setIds hguarded ok uid t.egid
    | getppid | closeListener | defaultTerm | defaultInt | sigprocmask | prctl =>
      simp [Phase.advance] at hadvance
    | _ =>
      obtain rfl := Option.some.inj hadvance
      exact hguarded
  | rejected left =>
    cases left with
    | zero => cases e <;> simp [Phase.advance] at hadvance
    | succ left =>
      cases e with
      | closeClient =>
        obtain rfl := Option.some.inj hadvance
        trivial
      | _ => simp [Phase.advance] at hadvance

section

variable {s : State} {w : Worker}

/-- The daemon dies. -/
theorem workerInv_die (hreaper : s.reaper ≠ s.pid) (halive : s.alive = true) (h : WorkerInv s w)
    (hok : w.ended = false → w.task.looked = true ∧ w.task.changed = false) (workers : List Worker) :
    WorkerInv { s with alive := false, workers := workers } (w.orphaned s.reaper) := by
  unfold Worker.orphaned
  by_cases hended : w.ended = true
  · rw [if_pos hended]
    intro hrunning
    rw [hended] at hrunning
    simp at hrunning
  rw [if_neg hended]
  rw [Bool.not_eq_true] at hended
  intro _
  obtain ⟨ph, hfollows, hsafe⟩ := h hended
  rw [if_pos halive] at hsafe
  obtain ⟨hlooked, hchanged⟩ := hok hended
  refine ⟨ph, hfollows, ?_⟩
  simp only [Bool.false_eq_true, if_false, Bool.or_eq_true]
  obtain ⟨-, hguarded⟩ := hsafe
  cases ph with
  | fresh => exact absurd (hlooked.symm.trans hguarded) (by simp)
  | told parent left =>
    refine .inr ?_
    obtain rfl : parent = s.pid := hguarded
    exact Ne.symm hreaper
  | armed parent => exact .inl (.inr hguarded.2)
  | serving => exact .inl (.inr (hguarded hchanged))
  | rejected left => exact .inr trivial

/-- One call of a worker. -/
theorem workerInv_call (h : WorkerInv s w) (hended : w.ended = false) {e : ChildOp}
    {k : ChildResp e → ChildProg Nat} {r : ChildResp e} {t : Task} (hcode : w.code.next = .call e k)
    (hr : taskRel e w.task r t) : WorkerInv s { w with code := k r, task := t } := by
  intro _
  obtain ⟨ph, hfollows, hsafe⟩ := h hended
  obtain ⟨ph', hadvance, hrest⟩ := (follows_next hcode).mp hfollows r
  refine ⟨ph', hrest, ?_⟩
  by_cases halive : s.alive = true
  · rw [if_pos halive] at hsafe ⊢
    exact ⟨(ppid_of_call hr).trans hsafe.1, guarded_step hsafe.1 hsafe.2 hadvance hr⟩
  · rw [if_neg halive] at hsafe ⊢
    exact hsafe.imp_right fun hdoomed => (doomed_step hdoomed hadvance hr).1

theorem workerInv_ended (hended : w.ended = true) : WorkerInv s w := by
  intro hrunning
  rw [hended] at hrunning
  simp at hrunning

/-- One worker has moved. -/
theorem stateInv_worker {w' : Worker} {rest : List Worker} (h : StateInv s)
    (hw : s.workers.Perm (w :: rest)) (hw' : WorkerInv s w') :
    StateInv { s with workers := w' :: rest } where
  reaper := h.reaper
  workers := by
    rintro v (_ | ⟨_, hv⟩)
    · exact hw'
    · exact h.workers v (hw.mem_iff.mpr (List.mem_cons_of_mem _ hv))

theorem stateInv_initial (h : s.Initial) : StateInv s := by
  obtain ⟨-, hreaper, hworkers⟩ := h
  refine ⟨hreaper, ?_⟩
  rw [hworkers]
  simp

theorem stateInv_step {s' : State} {ev : Event} (h : StateInv s) (hok : diesGuarded s ev)
    (hs : Step s ev s') : StateInv s' := by
  cases hs with
  | fork halive =>
    refine ⟨h.reaper, ?_⟩
    rintro w (_ | ⟨_, hw⟩)
    · intro _
      refine ⟨.fresh, follows_childBranch, ?_⟩
      rw [if_pos halive]
      exact ⟨rfl, rfl⟩
    · exact h.workers w hw
  | die halive =>
    refine ⟨h.reaper, fun w hw => ?_⟩
    obtain ⟨v, hv, rfl⟩ := List.mem_map.mp hw
    exact workerInv_die h.reaper halive (h.workers v hv) (hok v hv) _
  | @call w rest e k r t hw hended hcode hr =>
    have hmem := hw.mem_iff.mpr (List.mem_cons_self (a := w))
    exact stateInv_worker h hw (workerInv_call (h.workers w hmem) hended hcode hr)
  | exit hw hended hcode => exact stateInv_worker h hw (workerInv_ended rfl)
  | kill hw hended => exact stateInv_worker h hw (workerInv_ended rfl)

end

/-- **No worker outlives the daemon**, when the daemon dies at a moment when all are guarded. -/
theorem no_worker_outlives {s : State} (h : Reach State.Initial diesGuarded Step s)
    (hdead : s.alive = false) :
    ∀ w ∈ s.workers, w.ended = true ∨ w.signalled = true ∨ w.ExitsByCheck := by
  have hinv : StateInv s := h.inv (fun _ => stateInv_initial) fun _ _ _ hI hok hs => stateInv_step hI hok hs
  intro w hw
  by_cases hended : w.ended = true
  · exact .inl hended
  rw [Bool.not_eq_true] at hended
  obtain ⟨ph, hfollows, hsafe⟩ := hinv.workers w hw hended
  rw [if_neg (by simp [hdead])] at hsafe
  rcases hsafe with hsignalled | hdoomed
  · exact .inr (.inl hsignalled)
  · exact .inr (.inr ⟨ph.calls, fun tr q t hs => doomed_steps hs hdoomed hfollows⟩)

/-! ## A death too late, and one in time -/

/-- The daemon `100` of root, with nobody forked yet. -/
def rootDaemon (workers : List Worker) : State := ⟨true, 100, 1, 0, 0, workers⟩

/-- Its worker after `n` calls that all succeed. -/
def workerOf (n : Nat) : Worker :=
  let left := exec taskSem (List.replicate n true) childBranch (Worker.forked (rootDaemon [])).task
  ⟨left.1, left.2, false, false⟩

section

variable {ok : State → Event → Prop}

/-- One worker runs while all others stand still. -/
theorem reach_worker (hok : ∀ s e, ok s (.call e)) {p q : ChildProg Nat} {t t' : Task}
    {tr : List (Ev ChildOp ChildResp)} (hs : Steps taskRel p t tr q t') {s : State}
    {rest : List Worker} (h : Reach State.Initial ok Step { s with workers := ⟨p, t, false, false⟩ :: rest }) :
    Reach State.Initial ok Step { s with workers := ⟨q, t', false, false⟩ :: rest } := by
  induction hs with
  | refl => exact h
  | @step p t e k r t₁ tr q t' hp hr _ ih =>
    have hcall : Step { s with workers := ⟨p, t, false, false⟩ :: rest } (.call e)
        { s with workers := ⟨k r, t₁, false, false⟩ :: rest } :=
      Step.call (w := ⟨p, t, false, false⟩) (List.Perm.refl _) rfl hp hr
    exact ih (h.step (hok _ e) hcall)

theorem reach_workerOf (hok : ∀ s ev, ev ≠ .die → ok s ev) (n : Nat) :
    Reach State.Initial ok Step (rootDaemon [workerOf n]) := by
  have hinit : State.Initial (rootDaemon []) := ⟨rfl, by decide, rfl⟩
  have hfork : Step (rootDaemon []) .fork (rootDaemon [.forked (rootDaemon [])]) := .fork rfl
  have hforked := (Reach.init hinit).step (hok _ .fork (by simp)) hfork
  have hcalls : Steps taskRel childBranch (Worker.forked (rootDaemon [])).task _ (workerOf n).code
      (workerOf n).task := exec_steps _ _ _
  exact reach_worker (s := rootDaemon []) (fun s e => hok s _ (by simp)) hcalls hforked

theorem reach_dead (hok : ∀ s ev, ev ≠ .die → ok s ev) {n : Nat} (hdie : ok (rootDaemon [workerOf n]) .die) :
    Reach State.Initial ok Step ⟨false, 100, 1, 0, 0, [(workerOf n).orphaned 1]⟩ :=
  (reach_workerOf hok n).step hdie (.die rfl)

end

/-- The daemon dies while its worker still has its credentials. -/
theorem no_worker_outlives_root : ((workerOf 10).orphaned 1).ended = true ∨
    ((workerOf 10).orphaned 1).signalled = true ∨ ((workerOf 10).orphaned 1).ExitsByCheck := by
  have hguarded : diesGuarded (rootDaemon [workerOf 10]) .die := by
    rintro w hw -
    rw [List.mem_singleton.mp hw]
    exact ⟨rfl, rfl⟩
  have hok : ∀ s ev, ev ≠ .die → diesGuarded s ev := by
    intro s ev hne
    cases ev with
    | die => exact absurd rfl hne
    | _ => trivial
  exact no_worker_outlives (reach_dead hok hguarded) rfl _ (List.mem_singleton_self _)

/-- A worker that has dropped its privileges is not told, and relays on. -/
theorem worker_outlives : ¬ ∀ s, Reach State.Initial anyStep Step s → s.alive = false →
    ∀ w ∈ s.workers, w.ended = true ∨ w.signalled = true ∨ w.ExitsByCheck := by
  intro h
  have hreach := reach_dead (n := 15) (fun _ _ _ => trivial) trivial
  rcases h _ hreach rfl _ (List.mem_singleton_self _) with hended | hsignalled | ⟨n, hchecked⟩
  · exact absurd hended (by decide)
  · exact absurd hsignalled (by decide)
  · have hrelays : Steps taskRel ((workerOf 15).orphaned 1).code ((workerOf 15).orphaned 1).task
        [⟨.serve .relayed, true⟩] _ _ := .step rfl ⟨true, rfl⟩ (.refl _ _)
    obtain ⟨-, hquiet, -⟩ := hchecked _ _ _ hrelays
    exact hquiet _ (List.mem_singleton_self _) .relayed rfl

end FreeProxy.ParentDeath
