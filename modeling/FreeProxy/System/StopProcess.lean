import FreeProxy.Lib.Terminates
import FreeProxy.System.Process

/-!
# Waiting for a process to die

`stop_process` of `src/process.c`, call by call, and the kernel's part of it: a process dies some calls
after the signal that kills it, a dead child of the caller stays a zombie until `waitpid`, and any other
dead process is gone at once, with the workers of its group. (`System.Process` has the function among the
calls of the whole system, which may answer anything; here it is the waiting that counts.)

A zombie is still found by `kill(-pid, 0)` and in `/proc`. The first loop calls `waitpid` between two
checks, so whatever dies there is seen (`wp_awaitTerm`). The second loop does not, so a child that dies
there is never seen (`wp_awaitKill_child`).

Headline: **`stop_reports_iff`**.

Out of scope: a pid that is used again while it is waited for, and a `kill` that is not allowed.
-/

namespace FreeProxy.Stop

open Lib

/-- `SIGTERM` and `SIGKILL`. -/
inductive Signal where
  | term
  | kill
  deriving DecidableEq

/-- `signal_target`: `pid` or `-pid`. -/
inductive SignalTarget where
  | process
  | group
  deriving DecidableEq

/-- What `kill` answers. -/
inductive KillResult where
  | sent
  | esrch
  /-- any other `errno` -/
  | failed
  deriving DecidableEq

/-- The calls of `stop_process`, all of them about `pid`. -/
inductive StopOp where
  /-- `getsid(pid) == pid && getpgid(pid) == pid` -/
  | isLeader
  /-- `kill`; without a signal it is a probe -/
  | kill (target : SignalTarget) (signal : Option Signal)
  /-- `process_start_time` -/
  | startTime
  /-- `waitpid(pid, NULL, WNOHANG)` -/
  | waitpid
  | nanosleep
  deriving DecidableEq

/-- What a call answers. -/
abbrev StopResp : StopOp → Type
  | .isLeader => Bool
  | .kill _ _ => KillResult
  | .startTime => Option Nat
  | .waitpid | .nanosleep => Unit

/-- A program that stops a process. -/
abbrev StopProg (α : Type) := Prog StopOp StopResp α

/-- One call. -/
abbrev StopOp.ask (e : StopOp) : StopProg (StopResp e) := Prog.ask e

/-! ## The code -/

/-- The attempts of the first loop. -/
def termAttempts : Nat := fpStopTimeoutMs / 100

/-- The attempts of the second loop. -/
def killAttempts : Nat := 10

/-- The check of both loops. -/
def isGone (target : SignalTarget) (startTime : Nat) : StopProg Bool :=
  match target with
  | .group => do
    let probed ← StopOp.ask (.kill .group none)
    pure (probed == .esrch)
  | .process => do
    let actualStartTime ← StopOp.ask .startTime
    pure (actualStartTime != some startTime)

/-- The loop after `SIGTERM`, with the attempts that are left; `true` is `return 0`. -/
def awaitTerm (target : SignalTarget) (startTime : Nat) : Nat → StopProg Bool
  | 0 => pure false
  | attempts + 1 => do
    if ← isGone target startTime then pure true else do
    StopOp.ask .waitpid
    StopOp.ask .nanosleep
    awaitTerm target startTime attempts

/-- The loop after `SIGKILL`. -/
def awaitKill (target : SignalTarget) (startTime : Nat) : Nat → StopProg Bool
  | 0 => pure false
  | attempts + 1 => do
    if ← isGone target startTime then pure true else do
    StopOp.ask .nanosleep
    awaitKill target startTime attempts

/-- `stop_process`. -/
def stopProcess (startTime : Nat) : StopProg Int := do
  let target := if ← StopOp.ask .isLeader then SignalTarget.group else .process
  if (← StopOp.ask (.kill target (some .term))) = .failed then pure (-1) else do
  if ← awaitTerm target startTime termAttempts then pure 0 else do
  if (← StopOp.ask (.kill target (some .kill))) = .failed then pure (-1) else do
  if ← awaitKill target startTime killAttempts then pure 0 else pure (-1)

/-! ## The kernel -/

/-- How far a task is from its end. -/
inductive Phase where
  | running
  | zombie
  /-- waited for -/
  | gone
  deriving DecidableEq

/-- The process that is stopped, with its group. -/
structure Task where
  startTime : Nat
  /-- leader of its session and of its group -/
  leader : Bool
  /-- child of the caller -/
  child : Bool
  /-- the other processes of its group -/
  workers : Nat
  /-- the first signal that kills it -/
  fatal : Signal
  /-- how many calls it survives after that signal -/
  delay : Nat
  phase : Phase
  /-- how many calls it is still to survive, once it was hit -/
  fuse : Option Nat
  deriving DecidableEq

/-- It dies, and its workers with it. -/
def Task.die (s : Task) : Task :=
  { s with phase := if s.child then .zombie else .gone, workers := 0, fuse := none }

/-- It was hit, and survives so many calls. -/
def Task.burning (s : Task) (left : Nat) : Task := { s with fuse := some left }

/-- The time before a call. -/
def Task.tick (s : Task) : Task :=
  match s.fuse with
  | none => s
  | some 0 => s.die
  | some (left + 1) => s.burning left

/-- `waitpid`. -/
def Task.reap (s : Task) : Task :=
  if s.child = true ∧ s.phase = .zombie then { s with phase := .gone } else s

/-- `kill` finds somebody; a zombie is found. -/
def Task.found (s : Task) : SignalTarget → Bool
  | .process => s.phase != .gone
  | .group => s.leader && (s.phase != .gone || s.workers != 0)

/-- A signal arrives; `SIGKILL` kills. -/
def Task.hit (s : Task) (signal : Signal) : Task :=
  if s.phase = .running ∧ s.fuse = none ∧ (signal = .kill ∨ s.fatal = .term) then
    s.burning s.delay
  else s

/-- What a call does. The task may die at the beginning of any call. -/
def stopSem : Sem StopOp StopResp Unit Task
  | .isLeader, _, s => ((s.tick).leader && (s.tick).phase != .gone, s.tick)
  | .kill target signal, _, s =>
    if (s.tick).found target then
      (.sent, match signal with
        | some signal => (s.tick).hit signal
        | none => s.tick)
    else (.esrch, s.tick)
  | .startTime, _, s => (if (s.tick).phase = .gone then none else some s.startTime, s.tick)
  | .waitpid, _, s => ((), (s.tick).reap)
  | .nanosleep, _, s => ((), s.tick)

/-- A process that has not been hit. -/
def Task.start (startTime : Nat) (leader child : Bool) (workers : Nat) (fatal : Signal) (delay : Nat) :
    Task :=
  ⟨startTime, leader, child, workers, fatal, delay, .running, none⟩

/-- A check follows the death, and in the first loop a `waitpid` too, which a child needs. -/
def Seen (child : Bool) (fatal : Signal) (delay : Nat) : Prop :=
  match fatal with
  | .term => child = true → delay ≤ 3 * (termAttempts - 1) + 1
  | .kill => child = false ∧ delay ≤ 2 * (killAttempts - 1)

instance (child : Bool) (fatal : Signal) (delay : Nat) : Decidable (Seen child fatal delay) :=
  match fatal with
  | .term => inferInstanceAs (Decidable (_ → _))
  | .kill => inferInstanceAs (Decidable (_ ∧ _))

/-! ## One call -/

section Calls

variable {α : Type} {s : Task}

/-- A call and what follows it. -/
theorem wp_told {e : StopOp} {k : StopResp e → StopProg α} {Q : α → Task → Prop}
    (h : wp stopSem.rel (fun _ => True) (k (stopSem e () s).1) Q (stopSem e () s).2) :
    wp stopSem.rel (fun _ => True) ((StopOp.ask e).bind k) Q s := by
  rw [wp_bind, wp_ask]
  refine ⟨trivial, ?_⟩
  rintro r s' ⟨_, hc⟩
  rw [hc] at h
  exact ⟨trivial, h⟩

/-- What `stop_process` knows of the process it stops, and what the kernel keeps. -/
structure Meant (target : SignalTarget) (startTime : Nat) (s : Task) : Prop where
  start : s.startTime = startTime
  leads : target = .group → s.leader = true
  alone : s.phase ≠ .running → s.workers = 0 ∧ s.fuse = none
  waited : s.phase = .zombie → s.child = true

variable {target : SignalTarget} {startTime : Nat}

theorem Meant.die (h : Meant target startTime s) : Meant target startTime s.die := by
  refine ⟨h.start, h.leads, fun _ => ⟨rfl, rfl⟩, fun hzombie => ?_⟩
  unfold Task.die at hzombie ⊢
  by_cases hchild : s.child = true
  · exact hchild
  · simp [hchild] at hzombie

theorem Meant.tick (h : Meant target startTime s) : Meant target startTime s.tick := by
  unfold Task.tick
  cases hfuse : s.fuse with
  | none => exact h
  | some left =>
    cases left with
    | zero => exact h.die
    | succ left =>
      refine ⟨h.start, h.leads, fun hphase => ?_, h.waited⟩
      have hnone := (h.alone hphase).2
      rw [hfuse] at hnone
      cases hnone

theorem Meant.reap (h : Meant target startTime s) : Meant target startTime s.reap := by
  unfold Task.reap
  split
  · next hzombie => exact ⟨h.start, h.leads, fun _ => h.alone (by rw [hzombie.2]; exact nofun), nofun⟩
  · exact h

/-- The workers go when it dies, so `kill` finds its group as long as it finds itself. -/
theorem Meant.found (h : Meant target startTime s) : s.found target = (s.phase != .gone) := by
  cases target with
  | process => rfl
  | group =>
    by_cases hgone : s.phase = .gone
    · have hworkers := (h.alone (by rw [hgone]; exact nofun)).1
      simp [Task.found, hgone, hworkers]
    · simp [Task.found, hgone, h.leads rfl]

/-- **Both checks** see the same: whether the process is gone. -/
theorem wp_isGone (h : Meant target startTime s) {k : Bool → StopProg α} {Q : α → Task → Prop}
    (hk : wp stopSem.rel (fun _ => True) (k (s.tick.phase == .gone)) Q s.tick) :
    wp stopSem.rel (fun _ => True) ((isGone target startTime).bind k) Q s := by
  unfold isGone
  rw [wp_bind]
  cases target with
  | group =>
    refine wp_told (wp_ret.mpr ⟨trivial, ?_⟩)
    simp only [stopSem, h.tick.found]
    cases hphase : s.tick.phase <;> rw [hphase] at hk <;> exact hk
  | process =>
    refine wp_told (wp_ret.mpr ⟨trivial, ?_⟩)
    simp only [stopSem, h.start]
    cases hphase : s.tick.phase with
    | gone =>
      rw [hphase] at hk
      exact hk
    | running | zombie =>
      rw [hphase] at hk
      rw [if_neg nofun, bne_self_eq_false]
      exact hk

/-- A signal and what follows it. -/
theorem wp_kill (h : Meant target startTime s) {signal : Signal} {k : KillResult → StopProg α}
    {Q : α → Task → Prop}
    (hsent : s.tick.phase ≠ .gone → wp stopSem.rel (fun _ => True) (k .sent) Q (s.tick.hit signal))
    (hgone : s.tick.phase = .gone → wp stopSem.rel (fun _ => True) (k .esrch) Q s.tick) :
    wp stopSem.rel (fun _ => True) ((StopOp.ask (.kill target (some signal))).bind k) Q s := by
  refine wp_told ?_
  simp only [stopSem, h.tick.found]
  by_cases hphase : s.tick.phase = .gone
  · rw [hphase]
    exact hgone hphase
  · rw [if_pos (bne_iff_ne.mpr hphase)]
    exact hsent hphase

theorem tick_none (h : s.fuse = none) : s.tick = s := by
  unfold Task.tick
  rw [h]

@[simp] theorem burning_zero_tick : (s.burning 0).tick = s.die := rfl

@[simp] theorem burning_succ_tick (left : Nat) : (s.burning (left + 1)).tick = s.burning left := rfl

theorem Meant.burning (h : Meant target startTime s) (hrun : s.phase = .running) (left : Nat) :
    Meant target startTime (s.burning left) :=
  ⟨h.start, h.leads, fun hdead => absurd hrun hdead, h.waited⟩

theorem Meant.tick_dead (h : Meant target startTime s) (hdead : s.phase ≠ .running) : s.tick = s :=
  tick_none (h.alone hdead).2

theorem die_dead : s.die.phase ≠ .running := by
  unfold Task.die
  cases s.child <;> exact nofun

theorem die_other (h : s.child = false) : s.die.phase = .gone := if_neg (by rw [h]; exact nofun)

theorem reap_running (h : s.phase = .running) : s.reap = s := if_neg fun hzombie => by
  rw [h] at hzombie
  cases hzombie.2

theorem burning_reap (h : s.phase = .running) (left : Nat) : (s.burning left).reap = s.burning left :=
  reap_running h

/-- `waitpid` leaves nothing of a dead process. -/
theorem Meant.reap_dead (h : Meant target startTime s) (hdead : s.phase ≠ .running) :
    s.reap.phase = .gone := by
  unfold Task.reap
  cases hphase : s.phase with
  | running => exact absurd hphase hdead
  | zombie => rw [if_pos ⟨h.waited hphase, rfl⟩]
  | gone =>
    rw [if_neg fun hzombie => nomatch hzombie.2]
    exact hphase

end Calls

/-! ## The first loop -/

section Term

variable {target : SignalTarget} {startTime : Nat} {s : Task}

/-- One check of the first loop. -/
theorem wp_awaitTerm_succ (h : Meant target startTime s) {attempts : Nat} {Q : Bool → Task → Prop}
    (hgone : s.tick.phase = .gone → Q true s.tick)
    (hrest : s.tick.phase ≠ .gone →
      wp stopSem.rel (fun _ => True) (awaitTerm target startTime attempts) Q s.tick.tick.reap.tick) :
    wp stopSem.rel (fun _ => True) (awaitTerm target startTime (attempts + 1)) Q s := by
  unfold awaitTerm
  refine wp_isGone h ?_
  by_cases hphase : s.tick.phase = .gone
  · rw [hphase]
    exact wp_ret.mpr ⟨trivial, hgone hphase⟩
  · rw [beq_false_of_ne hphase]
    exact wp_told (wp_told (hrest hphase))

/-- What the first loop leaves of a process that dies before its last `waitpid`. -/
abbrev Over (target : SignalTarget) (startTime : Nat) (seen : Bool) (s : Task) : Prop :=
  seen = true ∨ Meant target startTime s ∧ s.phase = .gone

theorem wp_awaitTerm_gone (h : Meant target startTime s) (hphase : s.phase = .gone) (attempts : Nat) :
    wp stopSem.rel (fun _ => True) (awaitTerm target startTime attempts) (Over target startTime) s := by
  cases attempts with
  | zero => exact wp_ret.mpr ⟨trivial, .inr ⟨h, hphase⟩⟩
  | succ attempts =>
    refine wp_awaitTerm_succ h (fun _ => .inl rfl) fun hne => ?_
    rw [h.tick_dead (by rw [hphase]; exact nofun)] at hne
    exact absurd hphase hne

/-- After the `waitpid` of the loop. -/
theorem wp_awaitTerm_reaped (h : Meant target startTime s) (hdead : s.phase ≠ .running) (attempts : Nat) :
    wp stopSem.rel (fun _ => True) (awaitTerm target startTime attempts) (Over target startTime)
      s.reap.tick := by
  have hgone := h.reap_dead hdead
  rw [h.reap.tick_dead (by rw [hgone]; exact nofun)]
  exact wp_awaitTerm_gone h.reap hgone attempts

/-- A zombie needs one more `waitpid`. -/
theorem wp_awaitTerm_dead (h : Meant target startTime s) (hdead : s.phase ≠ .running) {attempts : Nat}
    (hchild : s.child = true → 0 < attempts) :
    wp stopSem.rel (fun _ => True) (awaitTerm target startTime attempts) (Over target startTime) s := by
  cases attempts with
  | zero =>
    refine wp_awaitTerm_gone h ?_ 0
    cases hphase : s.phase with
    | running => exact absurd hphase hdead
    | zombie => exact absurd (hchild (h.waited hphase)) (Nat.lt_irrefl 0)
    | gone => rfl
  | succ attempts =>
    refine wp_awaitTerm_succ h (fun _ => .inl rfl) fun _ => ?_
    rw [h.tick_dead hdead, h.tick_dead hdead]
    exact wp_awaitTerm_reaped h hdead attempts

/-- **The first loop** sees every death before its last `waitpid`, and every death of a process that
somebody else waits for. -/
theorem wp_awaitTerm (h : Meant target startTime s) (hrun : s.phase = .running) (attempts : Nat)
    {left : Nat} (hleft : left < 3 * attempts) (hchild : s.child = true → left + 1 < 3 * attempts) :
    wp stopSem.rel (fun _ => True) (awaitTerm target startTime attempts) (Over target startTime)
      (s.burning left) := by
  induction attempts generalizing left with
  | zero => omega
  | succ attempts ih =>
    refine wp_awaitTerm_succ (h.burning hrun left) (fun _ => .inl rfl) fun _ => ?_
    match left with
    | 0 =>
      -- it dies before the check
      rw [burning_zero_tick, h.die.tick_dead die_dead]
      exact wp_awaitTerm_reaped h.die die_dead attempts
    | 1 =>
      -- before the `waitpid`
      rw [burning_succ_tick, burning_zero_tick]
      exact wp_awaitTerm_reaped h.die die_dead attempts
    | 2 =>
      -- before the `nanosleep`
      rw [burning_succ_tick, burning_succ_tick, burning_reap hrun _, burning_zero_tick]
      exact wp_awaitTerm_dead h.die die_dead fun hc => by have := hchild hc; omega
    | left + 3 =>
      rw [burning_succ_tick, burning_succ_tick, burning_reap hrun _, burning_succ_tick]
      exact ih (by omega) fun hc => by have := hchild hc; omega

/-- A child that dies in the last `nanosleep` is a zombie. -/
theorem wp_awaitTerm_late (h : Meant target startTime s) (hrun : s.phase = .running) (attempts : Nat)
    {left : Nat} (hleft : left + 1 = 3 * attempts) :
    wp stopSem.rel (fun _ => True) (awaitTerm target startTime attempts)
      (fun seen s' => seen = false ∧ s' = s.die) (s.burning left) := by
  induction attempts generalizing left with
  | zero => omega
  | succ attempts ih =>
    obtain ⟨left, rfl⟩ : ∃ n, left = n + 2 := ⟨left - 2, by omega⟩
    refine wp_awaitTerm_succ (h.burning hrun _) (fun hgone => ?_) fun _ => ?_
    · rw [burning_succ_tick] at hgone
      exact absurd (hrun.symm.trans hgone) nofun
    · rw [burning_succ_tick, burning_succ_tick, burning_reap hrun _]
      cases left with
      | zero =>
        obtain rfl : attempts = 0 := by omega
        exact wp_ret.mpr ⟨trivial, rfl, rfl⟩
      | succ left => exact ih (by omega)

/-- What `SIGTERM` does not kill is still there. -/
theorem wp_awaitTerm_alive (h : Meant target startTime s) (hrun : s.phase = .running)
    (hfuse : s.fuse = none) (attempts : Nat) :
    wp stopSem.rel (fun _ => True) (awaitTerm target startTime attempts)
      (fun seen s' => seen = false ∧ s' = s) s := by
  induction attempts with
  | zero => exact wp_ret.mpr ⟨trivial, rfl, rfl⟩
  | succ attempts ih =>
    refine wp_awaitTerm_succ h (fun hgone => ?_) fun _ => ?_
    · rw [tick_none hfuse, hrun] at hgone
      cases hgone
    · rw [tick_none hfuse, tick_none hfuse, reap_running hrun, tick_none hfuse]
      exact ih

end Term

/-! ## The second loop -/

section Kill

variable {target : SignalTarget} {startTime : Nat} {s : Task}

/-- One check of the second loop. -/
theorem wp_awaitKill_succ (h : Meant target startTime s) {attempts : Nat} {Q : Bool → Task → Prop}
    (hgone : s.tick.phase = .gone → Q true s.tick)
    (hrest : s.tick.phase ≠ .gone →
      wp stopSem.rel (fun _ => True) (awaitKill target startTime attempts) Q s.tick.tick) :
    wp stopSem.rel (fun _ => True) (awaitKill target startTime (attempts + 1)) Q s := by
  unfold awaitKill
  refine wp_isGone h ?_
  by_cases hphase : s.tick.phase = .gone
  · rw [hphase]
    exact wp_ret.mpr ⟨trivial, hgone hphase⟩
  · rw [beq_false_of_ne hphase]
    exact wp_told (hrest hphase)

theorem wp_awaitKill_gone (h : Meant target startTime s) (hgone : s.phase = .gone) (attempts : Nat) :
    wp stopSem.rel (fun _ => True) (awaitKill target startTime attempts)
      (fun seen _ => seen = decide (0 < attempts)) s := by
  cases attempts with
  | zero => exact wp_ret.mpr ⟨trivial, rfl⟩
  | succ attempts =>
    refine wp_awaitKill_succ h (fun _ => by simp) fun hne => ?_
    rw [h.tick_dead (by rw [hgone]; exact nofun)] at hne
    exact absurd hgone hne

/-- Without `waitpid` a child does not go. -/
theorem tick_child (hchild : s.child = true) (hne : s.phase ≠ .gone) :
    s.tick.child = true ∧ s.tick.phase ≠ .gone := by
  unfold Task.tick Task.die
  cases s.fuse with
  | none => exact ⟨hchild, hne⟩
  | some left =>
    cases left with
    | zero => exact ⟨hchild, by rw [if_pos hchild]; exact nofun⟩
    | succ left => exact ⟨hchild, hne⟩

/-- **The second loop** sees no child go. -/
theorem wp_awaitKill_child (h : Meant target startTime s) (hchild : s.child = true)
    (hne : s.phase ≠ .gone) (attempts : Nat) :
    wp stopSem.rel (fun _ => True) (awaitKill target startTime attempts) (fun seen _ => seen = false) s := by
  induction attempts generalizing s with
  | zero => exact wp_ret.mpr ⟨trivial, rfl⟩
  | succ attempts ih =>
    obtain ⟨hchild₁, hne₁⟩ := tick_child hchild hne
    obtain ⟨hchild₂, hne₂⟩ := tick_child hchild₁ hne₁
    exact wp_awaitKill_succ h (fun hgone => absurd hgone hne₁) fun _ => ih h.tick.tick hchild₂ hne₂

/-- **The second loop** sees a process go that somebody else waits for. -/
theorem wp_awaitKill_other (h : Meant target startTime s) (hrun : s.phase = .running)
    (hchild : s.child = false) (attempts left : Nat) :
    wp stopSem.rel (fun _ => True) (awaitKill target startTime attempts)
      (fun seen _ => seen = decide (left + 2 ≤ 2 * attempts)) (s.burning left) := by
  induction attempts generalizing left with
  | zero => exact wp_ret.mpr ⟨trivial, by simp⟩
  | succ attempts ih =>
    refine wp_awaitKill_succ (h.burning hrun left) (fun hgone => ?_) fun hne => ?_
    · cases left with
      | zero => exact (decide_eq_true (by omega)).symm
      | succ left =>
        rw [burning_succ_tick] at hgone
        exact absurd (hrun.symm.trans hgone) nofun
    · match left with
      | 0 =>
        rw [burning_zero_tick] at hne
        exact absurd (die_other hchild) hne
      | 1 =>
        rw [burning_succ_tick, burning_zero_tick]
        refine (wp_awaitKill_gone h.die (die_other hchild) attempts).post ?_
        rintro _ _ - rfl
        exact decide_eq_decide.mpr (by omega)
      | left + 2 =>
        rw [burning_succ_tick, burning_succ_tick]
        refine (ih left).post ?_
        rintro _ _ - rfl
        exact decide_eq_decide.mpr (by omega)

end Kill

/-! ## `stop_process` -/

section Stop

variable {target : SignalTarget} {startTime : Nat} {s : Task}

/-- `stop_process` from `SIGKILL` on. -/
abbrev killRest (target : SignalTarget) (startTime : Nat) : StopProg Int := do
  if (← StopOp.ask (.kill target (some .kill))) = .failed then pure (-1) else do
  if ← awaitKill target startTime killAttempts then pure 0 else pure (-1)

/-- The answer to what the second loop has seen. -/
theorem wp_answer {p : StopProg Bool} {seen : Bool}
    (h : wp stopSem.rel (fun _ => True) p (fun b _ => b = seen) s) :
    wp stopSem.rel (fun _ => True) (p.bind fun b => if b then pure 0 else pure (-1))
      (fun r _ => r = if seen then (0 : Int) else -1) s := by
  refine wp_bind.mpr (h.post ?_)
  rintro seen _ - rfl
  cases seen with
  | true => exact wp_ret.mpr ⟨trivial, rfl⟩
  | false => exact wp_ret.mpr ⟨trivial, rfl⟩

theorem wp_killRest_gone (h : Meant target startTime s) (hgone : s.phase = .gone) :
    wp stopSem.rel (fun _ => True) (killRest target startTime) (fun r _ => r = 0) s := by
  have htick := h.tick_dead (by rw [hgone]; exact nofun)
  refine wp_kill h (fun hne => ?_) fun _ => ?_
  · rw [htick] at hne
    exact absurd hgone hne
  · rw [htick]
    exact wp_answer (wp_awaitKill_gone h hgone killAttempts)

theorem wp_killRest_zombie (h : Meant target startTime s) (hzombie : s.phase = .zombie) :
    wp stopSem.rel (fun _ => True) (killRest target startTime) (fun r _ => r = -1) s := by
  have htick := h.tick_dead (by rw [hzombie]; exact nofun)
  refine wp_kill h (fun _ => ?_) fun hgone => ?_
  · have hhit : s.hit .kill = s := if_neg fun hr => by
      rw [hzombie] at hr
      cases hr.1
    rw [htick, hhit]
    exact wp_answer (wp_awaitKill_child h (h.waited hzombie) (by rw [hzombie]; exact nofun) killAttempts)
  · rw [htick, hzombie] at hgone
    cases hgone

/-- It has survived `SIGTERM`. -/
theorem wp_killRest_alive (h : Meant target startTime s) (hrun : s.phase = .running)
    (hfuse : s.fuse = none) :
    wp stopSem.rel (fun _ => True) (killRest target startTime)
      (fun r _ => r = if s.child = false ∧ s.delay ≤ 2 * (killAttempts - 1) then 0 else -1) s := by
  refine wp_kill h (fun _ => ?_) fun hgone => ?_
  · have hhit : s.hit .kill = s.burning s.delay := if_pos ⟨hrun, hfuse, .inl rfl⟩
    rw [tick_none hfuse, hhit]
    cases hchild : s.child with
    | true =>
      rw [if_neg nofun]
      exact wp_answer (wp_awaitKill_child (h.burning hrun _) hchild
        (fun hgone => nomatch hrun.symm.trans hgone) killAttempts)
    | false =>
      refine (wp_answer (wp_awaitKill_other h hrun hchild killAttempts s.delay)).post ?_
      rintro _ _ - rfl
      have hlast : s.delay + 2 ≤ 2 * killAttempts ↔ s.delay ≤ 2 * (killAttempts - 1) := by
        unfold killAttempts
        omega
      simp only [decide_eq_true_eq, hlast, true_and]
  · rw [tick_none hfuse, hrun] at hgone
    cases hgone

/-- `stop_process` from the first loop on. -/
abbrev termRest (target : SignalTarget) (startTime : Nat) : StopProg Int := do
  if ← awaitTerm target startTime termAttempts then pure 0 else killRest target startTime

/-- What the first loop sees, or what follows it. -/
theorem wp_termRest {Q : Bool → Task → Prop} {Q' : Int → Task → Prop}
    (hloop : wp stopSem.rel (fun _ => True) (awaitTerm target startTime termAttempts) Q s)
    (htrue : ∀ s', Q true s' → Q' 0 s')
    (hfalse : ∀ s', Q false s' → wp stopSem.rel (fun _ => True) (killRest target startTime) Q' s') :
    wp stopSem.rel (fun _ => True) (termRest target startTime) Q' s := by
  refine wp_bind.mpr (hloop.post ?_)
  rintro seen s' - hQ
  cases seen with
  | true => exact wp_ret.mpr ⟨trivial, htrue s' hQ⟩
  | false => exact hfalse s' hQ

/-- It dies on `SIGTERM` during the first loop. -/
theorem wp_termRest_term (h : Meant target startTime s) (hrun : s.phase = .running) {left : Nat}
    (hleft : left < 3 * termAttempts) :
    wp stopSem.rel (fun _ => True) (termRest target startTime)
      (fun r _ => r = if s.child = true → left ≤ 3 * (termAttempts - 1) + 1 then 0 else -1)
      (s.burning left) := by
  by_cases hseen : s.child = true → left ≤ 3 * (termAttempts - 1) + 1
  · rw [if_pos hseen]
    have hchild : s.child = true → left + 1 < 3 * termAttempts := fun hc => by
      have hlast := hseen hc
      unfold termAttempts fpStopTimeoutMs at *
      omega
    refine wp_termRest (wp_awaitTerm h hrun termAttempts hleft hchild) (fun _ _ => rfl) fun s' hover => ?_
    rcases hover with hfalse | ⟨hmeant, hgone⟩
    · cases hfalse
    · exact wp_killRest_gone hmeant hgone
  · rw [if_neg hseen]
    rw [Classical.not_imp] at hseen
    have hlast : left + 1 = 3 * termAttempts := by unfold termAttempts fpStopTimeoutMs at *; omega
    refine wp_termRest (wp_awaitTerm_late h hrun termAttempts hlast) (fun _ hfalse => nomatch hfalse.1) ?_
    rintro _ ⟨-, rfl⟩
    exact wp_killRest_zombie h.die (if_pos hseen.1)

/-- It survives `SIGTERM`. -/
theorem wp_termRest_kill (h : Meant target startTime s) (hrun : s.phase = .running)
    (hfuse : s.fuse = none) :
    wp stopSem.rel (fun _ => True) (termRest target startTime)
      (fun r _ => r = if s.child = false ∧ s.delay ≤ 2 * (killAttempts - 1) then 0 else -1) s := by
  refine wp_termRest (wp_awaitTerm_alive h hrun hfuse termAttempts) (fun _ hfalse => nomatch hfalse.1) ?_
  rintro _ ⟨-, rfl⟩
  exact wp_killRest_alive h hrun hfuse

/-- What the leader of a group is signalled by. -/
def targetOf (leader : Bool) : SignalTarget := if leader = true then .group else .process

theorem Meant.begin (startTime : Nat) (leader child : Bool) (workers : Nat) (fatal : Signal) (delay : Nat) :
    Meant (targetOf leader) startTime (Task.start startTime leader child workers fatal delay) := by
  refine ⟨rfl, fun hgroup => ?_, fun hdead => absurd rfl hdead, nofun⟩
  cases leader with
  | true => rfl
  | false => cases hgroup

theorem wp_stopProcess (startTime : Nat) (leader child : Bool) (workers : Nat) (fatal : Signal) (delay : Nat)
    (h : fatal = .term → delay < 3 * termAttempts) :
    wp stopSem.rel (fun _ => True) (stopProcess startTime)
      (fun r _ => r = if Seen child fatal delay then 0 else -1)
      (Task.start startTime leader child workers fatal delay) := by
  have hmeant := Meant.begin startTime leader child workers fatal delay
  have hleader : (stopSem .isLeader () (Task.start startTime leader child workers fatal delay)) =
      (leader, Task.start startTime leader child workers fatal delay) := by
    cases leader <;> rfl
  refine wp_told ?_
  rw [hleader]
  refine wp_kill hmeant (fun _ => ?_) fun hgone => nomatch hgone
  cases fatal with
  | term => exact wp_termRest_term hmeant rfl (h rfl)
  | kill => exact wp_termRest_kill hmeant rfl rfl

end Stop

theorem loopFree_isGone (target : SignalTarget) (startTime : Nat) : (isGone target startTime).LoopFree := by
  cases target with
  | group => exact fun _ => trivial
  | process => exact fun _ => trivial

theorem loopFree_awaitTerm (target : SignalTarget) (startTime attempts : Nat) :
    (awaitTerm target startTime attempts).LoopFree := by
  induction attempts with
  | zero => trivial
  | succ attempts ih =>
    refine (loopFree_isGone target startTime).bind fun gone => ?_
    cases gone with
    | true => trivial
    | false => exact fun _ _ => ih

theorem loopFree_awaitKill (target : SignalTarget) (startTime attempts : Nat) :
    (awaitKill target startTime attempts).LoopFree := by
  induction attempts with
  | zero => trivial
  | succ attempts ih =>
    refine (loopFree_isGone target startTime).bind fun gone => ?_
    cases gone with
    | true => trivial
    | false => exact fun _ => ih

theorem loopFree_told {α : Type} {e : StopOp} {k : StopResp e → StopProg α} (h : ∀ r, (k r).LoopFree) :
    ((StopOp.ask e).bind k).LoopFree :=
  h

theorem loopFree_killRest (target : SignalTarget) (startTime : Nat) :
    (killRest target startTime).LoopFree := by
  refine loopFree_told fun killed => ?_
  by_cases hkilled : killed = .failed
  · rw [if_pos hkilled]
    trivial
  · rw [if_neg hkilled]
    refine (loopFree_awaitKill target startTime killAttempts).bind fun seen => ?_
    cases seen with
    | true => trivial
    | false => trivial

theorem loopFree_stopProcess (startTime : Nat) : (stopProcess startTime).LoopFree := by
  refine loopFree_told fun leader => loopFree_told fun termed => ?_
  by_cases htermed : termed = .failed
  · rw [if_pos htermed]
    trivial
  · rw [if_neg htermed]
    refine (loopFree_awaitTerm _ startTime termAttempts).bind fun seen => ?_
    cases seen with
    | true => trivial
    | false => exact loopFree_killRest _ startTime

/-- **`stop_process` says that the process is stopped exactly when it can see it.** -/
theorem stop_reports_iff (startTime : Nat) (leader child : Bool) (workers : Nat) (fatal : Signal)
    (delay : Nat) (h : fatal = .term → delay < 3 * termAttempts) :
    (∃ r s', Runs stopSem.rel (stopProcess startTime)
      (Task.start startTime leader child workers fatal delay) r s') ∧
    ∀ r s', Runs stopSem.rel (stopProcess startTime)
      (Task.start startTime leader child workers fatal delay) r s' → (r = 0 ↔ Seen child fatal delay) := by
  constructor
  · exact ((loopFree_stopProcess startTime).terminates _).runs fun e s => ⟨_, _, (), rfl⟩
  · intro r s' hruns
    rw [(wp_stopProcess startTime leader child workers fatal delay h).runs hruns]
    by_cases hseen : Seen child fatal delay
    · simp [hseen]
    · simp [hseen]

/-- A leader that its own parent stops, and that dies just before the last `waitpid`. -/
theorem stop_reports_term :
    ∃ s', Runs stopSem.rel (stopProcess 9) (Task.start 9 true true 2 .term 148) 0 s' := by
  obtain ⟨⟨r, s', hruns⟩, hiff⟩ := stop_reports_iff 9 true true 2 .term 148 fun _ => by decide
  have hr : r = 0 := (hiff r s' hruns).mpr (by decide)
  exact ⟨s', hr ▸ hruns⟩

/-- A leader that its own parent stops, and that `SIGKILL` kills at once: it is dead, and not reported. -/
theorem stop_misses_child :
    ∃ s', Runs stopSem.rel (stopProcess 9) (Task.start 9 true true 0 .kill 0) (-1) s' ∧
      s'.phase = .zombie := by
  have hend :
      let run := exec stopSem (List.replicate 173 ()) (stopProcess 9) (Task.start 9 true true 0 .kill 0)
      run.1.result = some (-1) ∧ run.2.phase = .zombie := by
    decide +kernel
  generalize hrun : exec stopSem (List.replicate 173 ()) (stopProcess 9)
    (Task.start 9 true true 0 .kill 0) = run at hend
  obtain ⟨left, s'⟩ := run
  obtain rfl : left = .ret (-1) := Prog.result_eq_some.mp hend.1
  exact ⟨s', exec_runs hrun, hend.2⟩

end FreeProxy.Stop
