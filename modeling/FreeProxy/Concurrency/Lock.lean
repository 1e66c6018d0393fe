import FreeProxy.Lib.Reach
import Mathlib.Logic.Function.Basic

/-!
# The operation lock

`fp_lock_acquire` and `fp_lock_release` of `src/process.c` with the operations that use them, in
any number of processes and any interleaving. A lock belongs to the inode that was opened; the path
of the lock file is a name that `fp_uninstall` removes after its release.

* **`lock_exclusive`**: in a run in which `fp_uninstall` unlinks the lock file only while no process
  has it open to lock it, at most one process holds the lock.
* `lock_not_exclusive`: without that condition two processes may hold it.

Out of scope: what the operations do under the lock, and the other users of `FP_RUNTIME_DIR`.
-/

namespace FreeProxy

open Lib

/-- The operations that take the lock. -/
inductive LockUser where
  | enableProxy
  | enableSavedProxy
  | setBypass
  | disableProxy
  | uninstall
  deriving DecidableEq

/-- Where a process is. -/
inductive LockPc where
  | idle
  /-- in `ensure_runtime_dir` -/
  | mkdir (op : LockUser)
  /-- before `open(FP_LOCK_PATH, O_RDWR | O_CREAT)` -/
  | opening (op : LockUser)
  /-- in `flock(fd, LOCK_EX)` on the inode -/
  | waiting (op : LockUser) (ino : Nat)
  /-- between `fp_lock_acquire` and `fp_lock_release` -/
  | holding (op : LockUser) (ino : Nat)
  /-- before `close(fd)` -/
  | unlocked (op : LockUser) (ino : Nat)
  /-- `fp_uninstall` before `unlink(FP_LOCK_PATH)` -/
  | released
  /-- `fp_uninstall` before `rmdir(FP_RUNTIME_DIR)` -/
  | unlinked
  deriving DecidableEq

namespace LockPc

/-- The inode a process holds locked. -/
def held : LockPc → Option Nat
  | .holding _ i => some i
  | _ => none

/-- The inode a process holds locked or is about to lock. -/
def wants : LockPc → Option Nat
  | .waiting _ i => some i
  | .holding _ i => some i
  | _ => none

theorem wants_of_held {pc : LockPc} {i : Nat} (h : pc.held = some i) : pc.wants = some i := by
  cases pc <;> simp_all [held, wants]

end LockPc

/-- The processes that use the lock, and the directory it is in. -/
structure LockState where
  pc : Nat → LockPc
  /-- the inode `FP_LOCK_PATH` names -/
  path : Option Nat
  /-- `FP_RUNTIME_DIR` exists -/
  dir : Bool
  /-- the next inode -/
  fresh : Nat
  /-- the process that holds the lock of an inode -/
  owner : Nat → Option Nat

namespace LockState

/-- The process `p` is at another place. -/
def set (s : LockState) (p : Nat) (pc : LockPc) : LockState :=
  { s with pc := Function.update s.pc p pc }

@[simp] theorem set_pc (s : LockState) (p : Nat) (pc : LockPc) : (s.set p pc).pc p = pc := by
  simp [set]

theorem set_pc_ne (s : LockState) {p q : Nat} (h : q ≠ p) (pc : LockPc) :
    (s.set p pc).pc q = s.pc q := by
  simp [set, h]

/-- The locks of `p` are gone. -/
def free (s : LockState) (p : Nat) : LockState :=
  { s with owner := fun i => if s.owner i = some p then none else s.owner i }

/-- At most one process is between its acquire and its release. -/
def Exclusive (s : LockState) : Prop :=
  ∀ p q i j, (s.pc p).held = some i → (s.pc q).held = some j → p = q

end LockState

/-- What a process does next; a process that dies has its descriptors closed. -/
inductive LockAct where
  | call (op : LockUser)
  | mkdir
  | mkdirFails
  | opens
  | creates
  | openFails
  | locks
  | lockFails
  | unlocks
  | closes
  | unlinks
  | rmdir
  | rmdirFails
  | dies
  deriving DecidableEq

/-- One step of the process `p`. -/
inductive LockStep : LockState → Nat × LockAct → LockState → Prop where
  | call {s p} (op) (h : s.pc p = .idle) : LockStep s (p, .call op) (s.set p (.mkdir op))
  | mkdir {s p op} (h : s.pc p = .mkdir op) :
      LockStep s (p, .mkdir) { s.set p (.opening op) with dir := true }
  | mkdirFails {s p op} (h : s.pc p = .mkdir op) : LockStep s (p, .mkdirFails) (s.set p .idle)
  | opens {s p op i} (h : s.pc p = .opening op) (hp : s.path = some i) :
      LockStep s (p, .opens) (s.set p (.waiting op i))
  | creates {s p op} (h : s.pc p = .opening op) (hp : s.path = none) (hd : s.dir = true) :
      LockStep s (p, .creates)
        { s.set p (.waiting op s.fresh) with path := some s.fresh, fresh := s.fresh + 1 }
  | openFails {s p op} (h : s.pc p = .opening op) : LockStep s (p, .openFails) (s.set p .idle)
  | locks {s p op i} (h : s.pc p = .waiting op i) (hfree : s.owner i = none) :
      LockStep s (p, .locks)
        { s.set p (.holding op i) with owner := Function.update s.owner i (some p) }
  | lockFails {s p op i} (h : s.pc p = .waiting op i) : LockStep s (p, .lockFails) (s.set p .idle)
  | unlocks {s p op i} (h : s.pc p = .holding op i) :
      LockStep s (p, .unlocks) ((s.free p).set p (.unlocked op i))
  | closes {s p op i} (h : s.pc p = .unlocked op i) :
      LockStep s (p, .closes) (s.set p (if op = .uninstall then .released else .idle))
  | unlinks {s p} (h : s.pc p = .released) :
      LockStep s (p, .unlinks) { s.set p .unlinked with path := none }
  -- a directory is removed only when it is empty; there may be other files in it
  | rmdir {s p} (h : s.pc p = .unlinked) (hp : s.path = none) :
      LockStep s (p, .rmdir) { s.set p .idle with dir := false }
  | rmdirFails {s p} (h : s.pc p = .unlinked) : LockStep s (p, .rmdirFails) (s.set p .idle)
  | dies {s p} : LockStep s (p, .dies) ((s.free p).set p .idle)

/-- No process runs; the lock file may be there. -/
def LockState.Initial (s : LockState) : Prop :=
  (∀ p, s.pc p = .idle) ∧ (∀ i, s.path = some i → i < s.fresh) ∧ (s.path ≠ none → s.dir = true) ∧
    ∀ i, s.owner i = none

/-- The lock file is unlinked only while no process is about to lock it or holds it. -/
def QuietUnlink (s : LockState) (l : Nat × LockAct) : Prop :=
  l.2 = .unlinks → ∀ p, (s.pc p).wants = none

/-- The file that is open is the file that the path names, and its lock is with its holder. -/
structure LockInv (s : LockState) : Prop where
  path : ∀ p i, (s.pc p).wants = some i → s.path = some i
  owner : ∀ p i, (s.pc p).held = some i → s.owner i = some p

/-- One process has moved, and what the others rely on is still there. -/
theorem LockInv.move {s s' : LockState} (h : LockInv s) (p : Nat)
    (hpc : ∀ q, q ≠ p → s'.pc q = s.pc q)
    (hpath : ∀ i, s.path = some i → s'.path = some i ∨ ∀ q, q ≠ p → (s.pc q).wants = none)
    (howner : ∀ i q, q ≠ p → s.owner i = some q → s'.owner i = some q)
    (hwants : ∀ i, (s'.pc p).wants = some i → s'.path = some i)
    (hheld : ∀ i, (s'.pc p).held = some i → s'.owner i = some p) : LockInv s' := by
  constructor
  · intro q i hq
    by_cases hqp : q = p
    · subst hqp
      exact hwants i hq
    · rw [hpc q hqp] at hq
      rcases hpath i (h.path q i hq) with hp | hnone
      · exact hp
      · rw [hnone q hqp] at hq
        simp at hq
  · intro q i hq
    by_cases hqp : q = p
    · subst hqp
      exact hheld i hq
    · rw [hpc q hqp] at hq
      exact howner i q hqp (h.owner q i hq)

/-- A process has moved to a place where it does not have the lock. -/
theorem LockInv.set {s : LockState} (h : LockInv s) {p : Nat} {pc : LockPc}
    (hwants : ∀ i, pc.wants = some i → s.path = some i) (hheld : pc.held = none) :
    LockInv (s.set p pc) := by
  refine h.move p (fun q hq => s.set_pc_ne hq pc) (fun i hi => .inl hi) (fun i q _ ho => ho)
    (fun i hi => hwants i ?_) (fun i hi => ?_)
  · rwa [LockState.set_pc] at hi
  · rw [LockState.set_pc, hheld] at hi
    simp at hi

/-- A process has lost its lock. -/
theorem LockInv.free {s : LockState} (h : LockInv s) (p : Nat) : LockInv ((s.free p).set p .idle) := by
  refine h.move p (fun q hq => (s.free p).set_pc_ne hq _) (fun i hi => .inl hi) (fun i q hq ho => ?_)
    (by simp [LockPc.wants]) (by simp [LockPc.held])
  have hne : s.owner i ≠ some p := by rw [ho]; simpa using hq
  exact (if_neg hne).trans ho

theorem lockInv_init {s : LockState} (h : s.Initial) : LockInv s := by
  constructor
  · intro p i hp
    rw [h.1 p] at hp
    simp [LockPc.wants] at hp
  · intro p i hp
    rw [h.1 p] at hp
    simp [LockPc.held] at hp

/-- **One step keeps the invariant**, an unlink when it is quiet. -/
theorem lockInv_step {s s' : LockState} {l : Nat × LockAct} (h : LockInv s) (hq : QuietUnlink s l)
    (hs : LockStep s l s') : LockInv s' := by
  cases hs with
  | call op hpc => exact h.set (by simp [LockPc.wants]) rfl
  | @mkdir p op hpc =>
    have h' : LockInv (s.set p (.opening op)) := h.set (by simp [LockPc.wants]) rfl
    exact ⟨h'.path, h'.owner⟩
  | mkdirFails hpc => exact h.set (by simp [LockPc.wants]) rfl
  | opens hpc hp => exact h.set (by simpa [LockPc.wants] using hp) rfl
  | @creates p op hpc hp hd =>
    refine h.move p (fun q hq => s.set_pc_ne hq _) (fun i hi => by simp [hp] at hi)
      (fun i q _ ho => ho) (fun i hi => ?_) (fun i hi => ?_)
    · have hpc' : (s.set p (.waiting op s.fresh)).pc p = .waiting op s.fresh := s.set_pc p _
      simp only [hpc', LockPc.wants] at hi
      exact hi
    · simp [LockPc.held] at hi
  | openFails hpc => exact h.set (by simp [LockPc.wants]) rfl
  | @locks p op i hpc hfree =>
    have hpath : s.path = some i := h.path p i (by rw [hpc]; rfl)
    have hpc' : (s.set p (.holding op i)).pc p = .holding op i := s.set_pc p _
    refine h.move p (fun q hq => s.set_pc_ne hq _) (fun j hj => .inl hj) (fun j q _ ho => ?_)
      (fun j hj => ?_) (fun j hj => ?_)
    · have hne : j ≠ i := by rintro rfl; simp [hfree] at ho
      exact (Function.update_of_ne hne _ _).trans ho
    · simp only [hpc', LockPc.wants] at hj
      exact hpath.trans hj
    · simp only [hpc', LockPc.held, Option.some.injEq] at hj
      subst hj
      exact Function.update_self i _ _
  | lockFails hpc => exact h.set (by simp [LockPc.wants]) rfl
  | @unlocks p op i hpc =>
    have h' : LockInv (((s.free p).set p .idle).set p (.unlocked op i)) :=
      (h.free p).set (by simp [LockPc.wants]) rfl
    simpa only [LockState.set, Function.update_idem] using h'
  | closes hpc => exact h.set (by split <;> simp [LockPc.wants]) (by split <;> rfl)
  | @unlinks p hpc =>
    have hnone := hq rfl
    exact h.move p (fun q hq => s.set_pc_ne hq _) (fun i _ => .inr fun q _ => hnone q)
      (fun i q _ ho => ho) (fun i hi => by simp [LockPc.wants] at hi)
      (fun i hi => by simp [LockPc.held] at hi)
  | @rmdir p hpc hp =>
    have h' : LockInv (s.set p .idle) := h.set (by simp [LockPc.wants]) rfl
    exact ⟨h'.path, h'.owner⟩
  | rmdirFails hpc => exact h.set (by simp [LockPc.wants]) rfl
  | @dies p => exact h.free p

/-- The holder of a lock is one process. -/
theorem LockInv.exclusive {s : LockState} (h : LockInv s) : s.Exclusive := by
  intro p q i j hp hq
  have hi := h.path p i (LockPc.wants_of_held hp)
  have hj := h.path q j (LockPc.wants_of_held hq)
  obtain rfl := Option.some.inj (hi.symm.trans hj)
  exact Option.some.inj ((h.owner p i hp).symm.trans (h.owner q i hq))

/-- **Mutual exclusion**, in every run whose unlinks are quiet. -/
theorem lock_exclusive {s : LockState} (h : Reach LockState.Initial QuietUnlink LockStep s) :
    s.Exclusive :=
  (Reach.inv (I := LockInv) (fun _ hs => lockInv_init hs)
    (fun _ _ _ hs hok hstep => lockInv_step hs hok hstep) h).exclusive

/-- No process runs, the lock file is inode `0`. -/
def lockIdle : LockState := ⟨fun _ => .idle, some 0, true, 1, fun _ => none⟩

theorem lockIdle_initial : lockIdle.Initial := by
  refine ⟨fun _ => rfl, fun i hi => ?_, fun _ => rfl, fun _ => rfl⟩
  obtain rfl := Option.some.inj hi
  decide

/-- Process `1` waits to uninstall while process `0` holds the lock, gets it, and unlinks the path when both are
out. Process `0` then locks a new inode, for which process `2` waits. -/
theorem lock_exclusive_contended :
    (∃ s : LockState, s.pc 0 = .holding .setBypass 0 ∧ s.pc 1 = .waiting .uninstall 0 ∧ s.Exclusive) ∧
    ∃ s : LockState, s.pc 0 = .holding .disableProxy 1 ∧ s.pc 1 = .unlinked ∧
      s.pc 2 = .waiting .enableProxy 1 ∧ s.Exclusive := by
  have hloud : ∀ {s : LockState} {p act}, act ≠ .unlinks → QuietUnlink s (p, act) :=
    fun hne h => absurd h hne
  have h0 : Reach LockState.Initial QuietUnlink LockStep lockIdle := .init lockIdle_initial
  have h1 := Reach.step h0 (hloud (by simp)) (LockStep.call (p := 0) .setBypass rfl)
  have h2 := Reach.step h1 (hloud (by simp)) (LockStep.call (p := 1) .uninstall rfl)
  have h3 := Reach.step h2 (hloud (by simp)) (LockStep.mkdir (p := 1) rfl)
  have h4 := Reach.step h3 (hloud (by simp)) (LockStep.mkdir (p := 0) rfl)
  have h5 := Reach.step h4 (hloud (by simp)) (LockStep.opens (p := 1) rfl rfl)
  have h6 := Reach.step h5 (hloud (by simp)) (LockStep.opens (p := 0) rfl rfl)
  have h7 := Reach.step h6 (hloud (by simp)) (LockStep.locks (p := 0) rfl rfl)
  have h8 := Reach.step h7 (hloud (by simp)) (LockStep.unlocks (p := 0) rfl)
  have h9 := Reach.step h8 (hloud (by simp)) (LockStep.locks (p := 1) rfl rfl)
  have h10 := Reach.step h9 (hloud (by simp)) (LockStep.closes (p := 0) rfl)
  have h11 := Reach.step h10 (hloud (by simp)) (LockStep.unlocks (p := 1) rfl)
  have h12 := Reach.step h11 (hloud (by simp)) (LockStep.closes (p := 1) rfl)
  have h13 := Reach.step h12 (hloud (by simp)) (LockStep.call (p := 0) .disableProxy rfl)
  have h14 := Reach.step h13 (hloud (by simp)) (LockStep.mkdir (p := 0) rfl)
  have h15 := Reach.step h14 (by
    -- process `0` is before its `open`, so nobody has the inode
    rintro - p
    by_cases hp0 : p = 0
    · subst hp0
      rfl
    by_cases hp1 : p = 1
    · subst hp1
      rfl
    simp [LockState.set, LockState.free, Function.update, hp0, hp1, lockIdle, LockPc.wants])
    (LockStep.unlinks (p := 1) rfl)
  have h16 := Reach.step h15 (hloud (by simp)) (LockStep.creates (p := 0) rfl rfl rfl)
  have h17 := Reach.step h16 (hloud (by simp)) (LockStep.call (p := 2) .enableProxy rfl)
  have h18 := Reach.step h17 (hloud (by simp)) (LockStep.mkdir (p := 2) rfl)
  have h19 := Reach.step h18 (hloud (by simp)) (LockStep.opens (p := 2) rfl rfl)
  have h20 := Reach.step h19 (hloud (by simp)) (LockStep.locks (p := 0) rfl rfl)
  exact ⟨⟨_, rfl, rfl, lock_exclusive h7⟩, ⟨_, rfl, rfl, rfl, lock_exclusive h20⟩⟩

/-- **The lock is not exclusive.** Process `0` uninstalls and releases, process `1` locks the inode
it has opened before, process `0` unlinks the path, and process `2` locks a new inode. -/
theorem lock_not_exclusive :
    ¬ ∀ s, Reach LockState.Initial anyStep LockStep s → s.Exclusive := by
  intro h
  have h0 : Reach LockState.Initial anyStep LockStep lockIdle := .init lockIdle_initial
  have h1 := Reach.step h0 trivial (LockStep.call (p := 0) .uninstall rfl)
  have h2 := Reach.step h1 trivial (LockStep.mkdir (p := 0) rfl)
  have h3 := Reach.step h2 trivial (LockStep.opens (p := 0) rfl rfl)
  have h4 := Reach.step h3 trivial (LockStep.locks (p := 0) rfl rfl)
  have h5 := Reach.step h4 trivial (LockStep.call (p := 1) .disableProxy rfl)
  have h6 := Reach.step h5 trivial (LockStep.mkdir (p := 1) rfl)
  have h7 := Reach.step h6 trivial (LockStep.opens (p := 1) rfl rfl)
  have h8 := Reach.step h7 trivial (LockStep.unlocks (p := 0) rfl)
  have h9 := Reach.step h8 trivial (LockStep.closes (p := 0) rfl)
  have h10 := Reach.step h9 trivial (LockStep.locks (p := 1) rfl rfl)
  have h11 := Reach.step h10 trivial (LockStep.unlinks (p := 0) rfl)
  have h12 := Reach.step h11 trivial (LockStep.call (p := 2) .setBypass rfl)
  have h13 := Reach.step h12 trivial (LockStep.mkdir (p := 2) rfl)
  have h14 := Reach.step h13 trivial (LockStep.creates (p := 2) rfl rfl rfl)
  have h15 := Reach.step h14 trivial (LockStep.locks (p := 2) rfl rfl)
  exact absurd (h _ h15 1 2 0 1 rfl rfl) (by decide)

end FreeProxy
