import FreeProxy.Firewall.Install

/-!
# The readiness byte

The start of `fp_proxy_run`, system call by system call: the listener, `fp_stats_create`,
`fp_write_pid`, `fp_firewall_enable`, and the one path that undoes whatever of them has happened;
then what `fp_start_daemon` makes of the byte. Every call may fail.

`Startup` is what the calls act on, with two things that no code sees. `undone` counts the calls that
were not carried out since the listener was closed, which is where the cleanup begins. `kept` says that
a stats file was there and the way to its removal failed, at the `mkdir` or at the `unlink`; while
nothing is counted in `undone` this is a failure of `fp_stats_create`.

* **`ready_truthful`**: the start ends with one byte; `R` means that everything is in place, and
  after `E` nothing is left if the cleanup was carried out, but for a file of `kept`.
* `ready_leaves_stats`: such a file does stay.

Out of scope: the clock `started_ms`, the owner of the stats file, and other processes that use the
same paths.
-/

namespace FreeProxy.Readiness

open Lib

/-! ## System calls -/

/-- The socket of `fp_proxy_run`. -/
inductive Listener where
  | absent
  | opened
  | bound
  | listening
  /-- and whether it was listening before -/
  | closed (listened : Bool)
  deriving DecidableEq

/-- `FP_STATS_PATH`. -/
inductive StatsFile where
  /-- another process has left it -/
  | stale
  /-- `fp_stats_create` has made it; it has its size after `ftruncate` -/
  | created (sized : Bool)
  deriving DecidableEq

/-- What the start of a daemon acts on. -/
structure Startup where
  listener : Listener
  /-- `FP_PID_PATH` -/
  pidFile : Option (List Char)
  statsFile : Option StatsFile
  table : Table
  /-- the bytes in the readiness pipe -/
  ready : List Char
  undone : Nat
  kept : Bool
  deriving DecidableEq

/-- The system calls of the start, and of the parent that waits for it. -/
inductive Call where
  | socket
  | setsockopt
  | bind
  | listen
  | closeListener
  /-- `mkdir(FP_RUNTIME_DIR, 0755)`; a directory that exists is no failure -/
  | mkdir
  | unlinkStats
  /-- `open(FP_STATS_PATH, O_RDWR | O_CREAT | O_EXCL)` -/
  | openStats
  | ftruncate
  | mmap
  | fchown
  | fchmod
  /-- `process_start_time(getpid())` -/
  | startTime
  /-- `fopen(FP_PID_PATH, "w")` -/
  | fopenPid
  | fprintfPid (text : List Char)
  | fclosePid
  | unlinkPid
  | ipt (arguments : Cmd)
  | writeReady (value : Char)
  /-- `poll` on the pipe; answered with `true` when it is readable -/
  | poll
  /-- `read` of one byte -/
  | readReady
  | kill
  | waitpid
  deriving DecidableEq

/-- What a call answers. -/
abbrev Resp : Call → Type
  | .startTime => Option Nat
  | .readReady => Option Char
  | .closeListener | .writeReady _ => Unit
  | _ => Bool

/-- What the caller does not control. -/
structure Choice where
  ok : Bool
  time : Nat
  /-- what a failing write leaves in the file -/
  partly : List Char

/-- What a call does. -/
def system : Sem Call Resp Choice Startup
  | .socket, c, s => (c.ok, if c.ok then { s with listener := .opened } else s)
  | .bind, c, s => (c.ok, if c.ok then { s with listener := .bound } else s)
  | .listen, c, s => (c.ok, if c.ok then { s with listener := .listening } else s)
  | .closeListener, _, s =>
    ((), { s with listener := .closed (s.listener == .listening), undone := 0 })
  | .mkdir, c, s =>
    (c.ok, if c.ok then s else { s with kept := s.kept || s.statsFile == some .stale })
  | .unlinkStats, c, s =>
    (c.ok, if c.ok then { s with statsFile := none }
      else { s with undone := s.undone + 1, kept := s.kept || s.statsFile.isSome })
  | .openStats, c, s =>
    if c.ok ∧ s.statsFile = none then (true, { s with statsFile := some (.created false) })
    else (false, s)
  | .ftruncate, c, s => (c.ok, if c.ok then { s with statsFile := some (.created true) } else s)
  | .startTime, c, s => (if c.ok then some c.time else none, s)
  | .fopenPid, c, s => (c.ok, if c.ok then { s with pidFile := some [] } else s)
  | .fprintfPid text, c, s => (c.ok, { s with pidFile := some (if c.ok then text else c.partly) })
  | .fclosePid, c, s => (c.ok, if c.ok then s else { s with pidFile := some c.partly })
  | .unlinkPid, c, s =>
    (c.ok, if c.ok then { s with pidFile := none } else { s with undone := s.undone + 1 })
  | .ipt e, c, s =>
    let answer := iptables e c.ok s.table
    (answer.1,
      { s with table := answer.2, undone := if c.ok then s.undone else s.undone + 1 })
  | .writeReady value, _, s => ((), { s with ready := s.ready ++ [value] })
  | .readReady, c, s => (if c.ok then s.ready.head? else none, s)
  | .setsockopt, c, s | .mmap, c, s | .fchown, c, s | .fchmod, c, s | .poll, c, s | .kill, c, s
  | .waitpid, c, s => (c.ok, s)

/-- What a caller may see. -/
abbrev systemRel : Rel Call Resp Startup := system.rel

/-- A program of the start. -/
abbrev Start (α : Type) := Prog Call Resp α

/-- One call. -/
abbrev Call.ask (e : Call) : Start (Resp e) := Prog.ask e

/-- A firewall program, run by the daemon. -/
abbrev fw {α : Type} (p : Fw α) : Start α := hoist Call.ipt p

/-! ## The programs -/

/-- `close(listener)` on the first error path of `fp_proxy_run`. -/
def abandonListener : Start Int := do
  Call.ask .closeListener
  pure (-1)

/-- `socket`, `setsockopt`, `bind` and `listen` in `fp_proxy_run`. -/
def openListener : Start Int := do
  if !(← Call.ask .socket) then pure (-1) else do
  if !(← Call.ask .setsockopt) then abandonListener else do
  if !(← Call.ask .bind) then abandonListener else do
  if !(← Call.ask .listen) then abandonListener else pure 0

/-- `close(file_descriptor); (void)unlink(FP_STATS_PATH); return -1;` -/
def discardStats : Start Int := do
  let _ ← Call.ask .unlinkStats
  pure (-1)

/-- `fp_stats_create`, in a process without a map; `stats_owner` is set when it returns `0`. -/
def fpStatsCreate : Start Int := do
  if !(← Call.ask .mkdir) then pure (-1) else do
  let _ ← Call.ask .unlinkStats
  if !(← Call.ask .openStats) then pure (-1) else do
  if !(← Call.ask .ftruncate) then discardStats else do
  if !(← Call.ask .mmap) then discardStats else do
  if ← Call.ask .fchown then pure 0 else do
  let _ ← Call.ask .fchmod
  pure 0

/-- `"%ld %llu %s %u\n"`. -/
def recordText (pid startTime : Nat) (config : Config) : List Char :=
  decimal pid ++ ' ' :: decimal startTime ++ ' ' :: inetNtop config.proxyAddr ++
    ' ' :: decimal config.proxyPort.toNat ++ ['\n']

/-- `fp_write_pid`. -/
def fpWritePid (self : Nat) (config : Config) : Start Int := do
  if !(← Call.ask .mkdir) then pure (-1) else do
  match ← Call.ask .startTime with
  | none => pure (-1)
  | some startTime => do
    if !(← Call.ask .fopenPid) then pure (-1) else do
    if !(← Call.ask (.fprintfPid (recordText self startTime config))) then pure (-1) else do
    if !(← Call.ask .fclosePid) then pure (-1) else pure 0

/-- `fp_remove_pid`. -/
def fpRemovePid : Start Unit := do
  let _ ← Call.ask .unlinkPid

/-- `fp_stats_close`: the file is removed by its owner. -/
def fpStatsClose (owner : Bool) : Start Unit := do
  if owner then do
    let _ ← Call.ask .unlinkStats
  else pure ()

/-- `signal_ready`; without a descriptor nothing is written. -/
def signalReady (readyFd : Int) (value : Char) : Start Unit :=
  if 0 ≤ readyFd then Call.ask (.writeReady value) else pure ()

/-- What `fp_proxy_run` does when a step after `listen` has failed. -/
def abandonStart (owner : Bool) (readyFd : Int) : Start Int := do
  Call.ask .closeListener
  fpRemovePid
  fpStatsClose owner
  let _ ← fw fpFirewallDisable
  signalReady readyFd 'E'
  pure (-1)

/-- `fp_proxy_run` up to its accept loop, in the process `self`. -/
def fpProxyStart (self : Nat) (config : Config) (readyFd : Int) : Start Int := do
  let opened ← openListener
  if opened ≠ 0 then do
    signalReady readyFd 'E'
    pure (-1)
  else do
  let created ← fpStatsCreate
  if created ≠ 0 then abandonStart false readyFd else do
  let installed ← Prog.all [fpWritePid self config, fw (fpFirewallEnable config)]
  if installed ≠ 0 then abandonStart true readyFd else do
  signalReady readyFd 'R'
  pure 0

/-- `kill(pid, SIGTERM); waitpid(pid, NULL, 0); return -1;` -/
def giveUp : Start Int := do
  let _ ← Call.ask .kill
  let _ ← Call.ask .waitpid
  pure (-1)

/-- The end of `fp_start_daemon`, in the parent. -/
def awaitReady : Start Int := do
  if !(← Call.ask .poll) then giveUp else do
  match ← Call.ask .readReady with
  | some 'R' => pure 0
  | _ => giveUp

/-! ## What each function does -/

/-- Every run of `p` from `s` ends with `Q`. -/
abbrev Leads {α : Type} (p : Start α) (Q : α → Startup → Prop) (s : Startup) : Prop :=
  wp systemRel (fun _ => True) p Q s

theorem leads_ret {α : Type} {a : α} {Q : α → Startup → Prop} {s : Startup} (h : Q a s) :
    Leads (.ret a) Q s :=
  wp_ret.mpr ⟨trivial, h⟩

/-- One call: what follows when it is carried out, and when it is not. -/
theorem leads_call {α : Type} {e : Call} {f : Resp e → Start α} {Q : α → Startup → Prop}
    {s : Startup} (h : ∀ ok time partly, Leads (f (system e ⟨ok, time, partly⟩ s).1) Q
      (system e ⟨ok, time, partly⟩ s).2) : Leads ((Call.ask e).bind f) Q s :=
  wp_sem.mpr ⟨trivial, fun c => h c.ok c.time c.partly⟩

theorem leads_abandonListener {Q : Int → Startup → Prop} {s : Startup}
    (h : Q (-1) { s with listener := .closed (s.listener == .listening), undone := 0 }) :
    Leads abandonListener Q s :=
  leads_call fun _ _ _ => leads_ret h

/-- The listener is listening, or it never was. -/
theorem leads_openListener {s : Startup} (hs : s.listener = .absent) :
    Leads openListener (fun code s' => ∃ l n, s' = { s with listener := l, undone := n } ∧
      ((code = 0 ∧ l = .listening) ∨ (code = -1 ∧ l ≠ .listening ∧ l ≠ .closed true))) s := by
  obtain ⟨l, p, f, t, r, n, k⟩ := s
  obtain rfl : l = .absent := hs
  refine leads_call fun socket _ _ => ?_
  cases socket with
  | false => exact leads_ret ⟨.absent, n, rfl, .inr ⟨rfl, by decide, by decide⟩⟩
  | true =>
    refine leads_call fun option _ _ => ?_
    cases option with
    | false => exact leads_abandonListener ⟨_, 0, rfl, .inr ⟨rfl, by simp, by simp [system]⟩⟩
    | true =>
      refine leads_call fun bound _ _ => ?_
      cases bound with
      | false => exact leads_abandonListener ⟨_, 0, rfl, .inr ⟨rfl, by simp, by simp [system]⟩⟩
      | true =>
        refine leads_call fun listening _ _ => ?_
        cases listening with
        | false => exact leads_abandonListener ⟨_, 0, rfl, .inr ⟨rfl, by simp, by simp [system]⟩⟩
        | true => exact leads_ret ⟨.listening, n, rfl, .inl ⟨rfl, rfl⟩⟩

theorem unlinkStats_cases (c : Choice) (s : Startup) : ∃ f n k,
    (system .unlinkStats c s).2 = { s with statsFile := f, undone := n, kept := k } ∧
      s.undone ≤ n ∧ (f = none ∨ k = true) := by
  by_cases hok : c.ok = true
  · exact ⟨none, s.undone, s.kept, by simp [system, hok], Nat.le_refl _, .inl rfl⟩
  · refine ⟨s.statsFile, s.undone + 1, s.kept || s.statsFile.isSome, by simp [system, hok],
      Nat.le_succ _, ?_⟩
    cases s.statsFile with
    | none => exact .inl rfl
    | some f => exact .inr (Bool.or_true s.kept)

theorem openStats_cases (c : Choice) (s : Startup) :
    system .openStats c s = (false, s) ∨
      system .openStats c s = (true, { s with statsFile := some (.created false) }) := by
  simp only [system]
  split
  · exact .inr rfl
  · exact .inl rfl

/-- The stats file is made, or no file is left but one that could not be removed. -/
def StatsMade (s : Startup) (code : Int) (s' : Startup) : Prop :=
  ∃ f n k, s' = { s with statsFile := f, undone := n, kept := k } ∧
    ((code = 0 ∧ f = some (.created true)) ∨ (code = -1 ∧ (f = none ∨ k = true)))

theorem leads_discardStats {s s₀ : Startup} {f : Option StatsFile} {n : Nat} {k : Bool}
    (hs : s = { s₀ with statsFile := f, undone := n, kept := k }) : Leads discardStats (StatsMade s₀) s := by
  refine leads_call fun ok time partly => ?_
  obtain ⟨f, n, k, hunlinked, -, hkept⟩ := unlinkStats_cases ⟨ok, time, partly⟩ s
  rw [hunlinked]
  exact leads_ret ⟨f, n, k, by rw [hs], .inr ⟨rfl, hkept⟩⟩

theorem leads_statsCreate {s : Startup} (hs : s.statsFile = none ∨ s.statsFile = some .stale) :
    Leads fpStatsCreate (StatsMade s) s := by
  refine leads_call fun made _ _ => ?_
  cases made with
  | false =>
    refine leads_ret ⟨_, _, _, rfl, .inr ⟨rfl, ?_⟩⟩
    rcases hs with hs | hs
    · exact .inl hs
    · exact .inr (by simp [hs])
  | true =>
    refine leads_call fun removed time partly => ?_
    change Leads _ _ (system .unlinkStats ⟨removed, time, partly⟩ s).2
    obtain ⟨f, n, k, hunlinked, -, hkept⟩ := unlinkStats_cases ⟨removed, time, partly⟩ s
    rw [hunlinked]
    refine leads_call fun opened time partly => ?_
    rcases openStats_cases ⟨opened, time, partly⟩ { s with statsFile := f, undone := n, kept := k }
      with hopen | hopen
    · rw [hopen]
      exact leads_ret ⟨f, n, k, rfl, .inr ⟨rfl, hkept⟩⟩
    · rw [hopen]
      refine leads_call fun sized _ _ => ?_
      cases sized with
      | false => exact leads_discardStats rfl
      | true =>
        refine leads_call fun mapped _ _ => ?_
        cases mapped with
        | false => exact leads_discardStats rfl
        | true =>
          refine leads_call fun owned _ _ => ?_
          cases owned with
          | true => exact leads_ret ⟨_, n, k, rfl, .inl ⟨rfl, rfl⟩⟩
          | false => exact leads_call fun _ _ _ => leads_ret ⟨_, n, k, rfl, .inl ⟨rfl, rfl⟩⟩

/-- Only the record has changed, and a success has written it. -/
def Recorded (self : Nat) (config : Config) (s : Startup) (code : Int) (s' : Startup) : Prop :=
  ∃ p k, s' = { s with pidFile := p, kept := k } ∧
    ((code = 0 ∧ ∃ time, p = some (recordText self time config)) ∨ code = -1)

theorem leads_writePid (self : Nat) (config : Config) (s : Startup) :
    Leads (fpWritePid self config) (Recorded self config s) s := by
  refine leads_call fun made _ _ => ?_
  cases made with
  | false => exact leads_ret ⟨_, _, rfl, .inr rfl⟩
  | true =>
    refine leads_call fun started time _ => ?_
    cases started with
    | false => exact leads_ret ⟨_, _, rfl, .inr rfl⟩
    | true =>
      refine leads_call fun opened _ _ => ?_
      cases opened with
      | false => exact leads_ret ⟨_, _, rfl, .inr rfl⟩
      | true =>
        refine leads_call fun written _ partly => ?_
        cases written with
        | false => exact leads_ret ⟨_, _, rfl, .inr rfl⟩
        | true =>
          refine leads_call fun closed _ _ => ?_
          cases closed with
          | false => exact leads_ret ⟨_, _, rfl, .inr rfl⟩
          | true => exact leads_ret ⟨_, _, rfl, .inl ⟨rfl, time, rfl⟩⟩

/-! ## The firewall -/

/-- The table, with the calls that were not carried out. -/
def countedLens : Lens Startup (Table × Nat) where
  get s := (s.table, s.undone)
  put s t := { s with table := t.1, undone := t.2 }
  get_put _ _ := rfl
  put_get _ := rfl
  put_put _ _ _ := rfl

theorem ipt_embeds : Embeds Call.ipt (Counted act) systemRel countedLens := by
  rintro e s r s₁ ⟨c, hc⟩
  obtain ⟨rfl, rfl⟩ := Prod.mk.inj hc
  exact ⟨counted_faulty e c.ok s.table s.undone, rfl⟩

/-- A firewall program, run by the daemon, is a run of it on the table. -/
theorem leads_fw {α : Type} (p : Fw α) (s : Startup) :
    Leads (fw p) (fun a s' => ∃ t n, s' = { s with table := t, undone := n } ∧ Runs Ipt p s.table a t) s := by
  have hruns : wp (Counted act) (fun _ => True) p (fun a t => Runs Ipt p s.table a t.1) (countedLens.get s) :=
    wp.comap (I := fun _ => True) (Q := Runs Ipt p s.table) Prod.fst
      (fun _ _ _ _ => Counted.faulty) (wp_runs p s.table)
  refine (wp_hoist ipt_embeds hruns).mono (fun _ _ => trivial) ?_
  rintro a s' ⟨hrun, hs'⟩
  exact ⟨s'.table, s'.undone, hs', hrun⟩

/-- When all its commands are carried out, `fp_firewall_disable` leaves nothing. -/
theorem leads_disable (s : Startup) :
    Leads (fw fpFirewallDisable) (fun _ s' => ∃ t n, s' = { s with table := t, undone := n } ∧
      s.undone ≤ n ∧ (n = s.undone → t = s.table.clean)) s := by
  have hclean := wp_counted (completes_disable s.table) s.undone
  refine (wp_hoist ipt_embeds (l := countedLens) hclean).mono (fun _ _ => trivial) ?_
  rintro code s' ⟨⟨hle, hdone⟩, hs'⟩
  exact ⟨s'.table, s'.undone, hs', hle, fun h => (hdone h).2⟩

/-! ## The readiness byte -/

/-- Everything that `R` promises. -/
structure Serves (self : Nat) (config : Config) (s : Startup) : Prop where
  listening : s.listener = .listening
  recorded : ∃ time, s.pidFile = some (recordText self time config)
  counted : s.statsFile = some (.created true)
  jumps : 1 ≤ s.table.jumps
  policy : ∀ usr d, ∃ l, s.table.chain = some l ∧ chainVerdict usr l d = config.policy d

/-- Nothing that the start has made is left. -/
structure Cleared (s : Startup) : Prop where
  record : s.pidFile = none
  stats : s.statsFile = none ∨ s.kept = true
  jump : .jump ∉ s.table.output
  chain : s.table.chain = none

theorem leads_signalReady {readyFd : Int} (hfd : 0 ≤ readyFd) {value : Char} {α : Type}
    {f : Unit → Start α} {Q : α → Startup → Prop} {s : Startup}
    (h : Leads (f ()) Q { s with ready := s.ready ++ [value] }) :
    Leads ((signalReady readyFd value).bind f) Q s := by
  unfold signalReady
  rw [if_pos hfd]
  exact leads_call fun _ _ _ => h

theorem leads_removePid (s : Startup) : Leads fpRemovePid (fun _ s' => ∃ p n,
    s' = { s with pidFile := p, undone := n } ∧ s.undone ≤ n ∧ (n = s.undone → p = none) ∧
      (p = none ∨ p = s.pidFile)) s := by
  refine leads_call fun ok _ _ => ?_
  cases ok with
  | false => exact leads_ret ⟨_, _, rfl, Nat.le_succ _, fun h => absurd h (Nat.succ_ne_self _), .inr rfl⟩
  | true => exact leads_ret ⟨none, _, rfl, Nat.le_refl _, fun _ => rfl, .inl rfl⟩

/-- `fp_stats_close` removes the file of its process; of another file it is known already. -/
theorem leads_statsClose {owner : Bool} {s : Startup}
    (hs : owner = false → s.statsFile = none ∨ s.kept = true) :
    Leads (fpStatsClose owner) (fun _ s' => ∃ f n k,
      s' = { s with statsFile := f, undone := n, kept := k } ∧ s.undone ≤ n ∧
        (f = none ∨ k = true)) s := by
  cases owner with
  | false => exact leads_ret ⟨_, _, _, rfl, Nat.le_refl _, hs rfl⟩
  | true =>
    refine leads_call fun ok time partly => ?_
    obtain ⟨f, n, k, hunlinked, hle, hkept⟩ := unlinkStats_cases ⟨ok, time, partly⟩ s
    rw [hunlinked]
    exact leads_ret ⟨f, n, k, rfl, hle, hkept⟩

/-- **The cleanup undoes any part of the start.** -/
theorem leads_abandonStart {owner : Bool} {readyFd : Int} (hfd : 0 ≤ readyFd) {s : Startup}
    (hs : owner = false → s.statsFile = none ∨ s.kept = true) :
    Leads (abandonStart owner readyFd) (fun code s' => code = -1 ∧
      s'.ready = s.ready ++ ['E'] ∧ (s'.undone = 0 → Cleared s')) s := by
  refine leads_call fun _ _ _ => ?_
  refine wp_seq (leads_removePid _) (fun _ h => h) fun _ s₁ _ hs₁ => ?_
  obtain ⟨p, n₁, rfl, -, hp, -⟩ := hs₁
  refine wp_seq (leads_statsClose hs) (fun _ h => h) fun _ s₂ _ hs₂ => ?_
  obtain ⟨f, n₂, k, rfl, hle₂, hf⟩ := hs₂
  refine wp_seq (leads_disable _) (fun _ h => h) fun _ s₃ _ hs₃ => ?_
  obtain ⟨t, n₃, rfl, hle₃, ht⟩ := hs₃
  refine leads_signalReady hfd (leads_ret ⟨rfl, rfl, fun h0 => ?_⟩)
  -- when nothing is counted, every removal was carried out
  obtain rfl : n₃ = 0 := h0
  obtain rfl : n₂ = 0 := Nat.le_zero.mp hle₃
  obtain rfl : n₁ = 0 := Nat.le_zero.mp hle₂
  obtain rfl : p = none := hp rfl
  obtain rfl : t = s.table.clean := ht rfl
  exact ⟨rfl, hf, s.table.jump_notMem_userOutput, rfl⟩

/-- The pipe is new, and nothing has been opened; the files and the table are as they were found. -/
def Startup.initial (pidFile : Option (List Char)) (stale : Bool) (table : Table) : Startup :=
  ⟨.absent, pidFile, if stale then some .stale else none, table, [], 0, false⟩

/-- What the start has come to. -/
def Started (self : Nat) (config : Config) (code : Int) (s : Startup) : Prop :=
  (code = 0 ∧ s.ready = ['R'] ∧ Serves self config s) ∨
    (code = -1 ∧ s.ready = ['E'] ∧ (s.listener = .closed true → s.undone = 0 → Cleared s))

theorem leads_install (self : Nat) (config : Config) (s : Startup) :
    Leads (Prog.all [fpWritePid self config, fw (fpFirewallEnable config)]) (fun code s' =>
      ∃ p t n k, s' = { s with pidFile := p, table := t, undone := n, kept := k } ∧
        (code = 0 → (∃ time, p = some (recordText self time config)) ∧
          Runs Ipt (fpFirewallEnable config) s.table 0 t)) s := by
  refine wp_seq (leads_writePid self config s) (fun _ h => h) fun written s₁ _ hs₁ => ?_
  obtain ⟨p, k, rfl, ⟨rfl, hp⟩ | rfl⟩ := hs₁
  swap
  · exact leads_ret ⟨p, _, _, k, rfl, fun h => absurd h (by decide)⟩
  refine wp_seq (leads_fw (fpFirewallEnable config) _) (fun _ h => h) fun enabled s₂ _ hs₂ => ?_
  obtain ⟨t, n, rfl, ht⟩ := hs₂
  by_cases henabled : enabled = 0
  · subst henabled
    exact leads_ret ⟨p, t, n, k, rfl, fun _ => ⟨hp, ht⟩⟩
  · rw [if_neg henabled]
    exact leads_ret ⟨p, t, n, k, rfl, fun h => absurd h (by decide)⟩

/-- **What the start comes to**, whatever fails. -/
theorem leads_start {self : Nat} {config : Config} {readyFd : Int} (hfd : 0 ≤ readyFd)
    (pidFile : Option (List Char)) (stale : Bool) (table : Table) :
    Leads (fpProxyStart self config readyFd) (Started self config)
      (.initial pidFile stale table) := by
  have hfound : (Startup.initial pidFile stale table).statsFile = none ∨
      (Startup.initial pidFile stale table).statsFile = some .stale := by
    cases stale with
    | false => exact .inl rfl
    | true => exact .inr rfl
  have habandon : ∀ {owner : Bool} {s : Startup}, s.ready = [] →
      (owner = false → s.statsFile = none ∨ s.kept = true) →
        Leads (abandonStart owner readyFd) (Started self config) s := by
    intro owner s hready hs
    refine (leads_abandonStart hfd hs).mono (fun _ h => h) ?_
    rintro code s' ⟨hcode, hbyte, hclear⟩
    exact .inr ⟨hcode, by rw [hbyte, hready]; rfl, fun _ => hclear⟩
  refine wp_seq (leads_openListener rfl) (fun _ h => h) fun opened s₁ _ hs₁ => ?_
  obtain ⟨l, n₁, rfl, ⟨rfl, rfl⟩ | ⟨rfl, hl⟩⟩ := hs₁
  swap
  · exact leads_signalReady hfd (leads_ret (.inr ⟨rfl, rfl, fun h => absurd h hl.2⟩))
  refine wp_seq (leads_statsCreate hfound) (fun _ h => h) fun created s₂ _ hs₂ => ?_
  obtain ⟨f, n₂, k, rfl, ⟨rfl, rfl⟩ | ⟨rfl, hkept⟩⟩ := hs₂
  swap
  · exact habandon rfl fun _ => hkept
  refine wp_seq (leads_install self config _) (fun _ h => h) fun installed s₃ _ hs₃ => ?_
  obtain ⟨p, t, n₃, k, rfl, hs₃⟩ := hs₃
  by_cases hinstalled : installed = 0
  · subst hinstalled
    obtain ⟨hp, hrun⟩ := hs₃ rfl
    obtain ⟨hpolicy, hjumps, -⟩ := (enable_installs_policy config table).1 t hrun
    refine leads_signalReady hfd (leads_ret (.inl ⟨rfl, rfl, ⟨rfl, hp, rfl, hjumps, hpolicy⟩⟩))
  · rw [if_pos hinstalled]
    exact habandon rfl fun h => absurd h (by decide)

/-! ## It comes to something -/

theorem loopFree_abandonListener : abandonListener.LoopFree := fun _ => trivial

theorem loopFree_openListener : openListener.LoopFree := by
  rintro (_ | _)
  · trivial
  rintro (_ | _)
  · exact loopFree_abandonListener
  rintro (_ | _)
  · exact loopFree_abandonListener
  rintro (_ | _)
  · exact loopFree_abandonListener
  · trivial

theorem loopFree_discardStats : discardStats.LoopFree := fun _ => trivial

theorem loopFree_statsCreate : fpStatsCreate.LoopFree := by
  rintro (_ | _)
  · trivial
  intro _
  rintro (_ | _)
  · trivial
  rintro (_ | _)
  · exact loopFree_discardStats
  rintro (_ | _)
  · exact loopFree_discardStats
  rintro (_ | _)
  · exact fun _ => trivial
  · trivial

theorem loopFree_writePid (self : Nat) (config : Config) : (fpWritePid self config).LoopFree := by
  rintro (_ | _)
  · trivial
  rintro (_ | startTime)
  · trivial
  rintro (_ | _)
  · trivial
  rintro (_ | _)
  · trivial
  rintro (_ | _)
  · trivial
  · trivial

theorem loopFree_statsClose (owner : Bool) : (fpStatsClose owner).LoopFree := by
  cases owner with
  | false => trivial
  | true => exact fun _ => trivial

theorem loopFree_signalReady (readyFd : Int) (value : Char) :
    (signalReady readyFd value).LoopFree := by
  unfold signalReady
  split
  · exact fun _ => trivial
  · trivial

theorem terminates_signalReady (readyFd : Int) (value : Char) (code : Int) (s : Startup) :
    Terminates systemRel ((signalReady readyFd value).bind fun _ => .ret code) s :=
  ((loopFree_signalReady readyFd value).bind (f := fun _ => .ret code) fun _ => trivial).terminates s

theorem terminates_fw {α : Type} {p : Fw α} {s : Startup} (h : Terminates Ipt p s.table) :
    Terminates systemRel (fw p) s :=
  have hcounted : Terminates (Counted act) p (countedLens.get s) :=
    h.comap Prod.fst fun _ _ _ _ => Counted.faulty
  hcounted.hoist ipt_embeds

theorem terminates_abandonStart (owner : Bool) (readyFd : Int) (s : Startup) :
    Terminates systemRel (abandonStart owner readyFd) s := by
  refine .call rfl fun _ _ _ => .call rfl fun _ s₁ _ => ?_
  refine ((loopFree_statsClose owner).terminates s₁).bind fun _ s₂ _ => ?_
  refine (terminates_fw (terminates_disable _)).bind fun _ s₃ _ => ?_
  exact terminates_signalReady readyFd 'E' (-1) s₃

theorem terminates_start (self : Nat) (config : Config) (readyFd : Int) (s : Startup) :
    Terminates systemRel (fpProxyStart self config readyFd) s := by
  refine (loopFree_openListener.terminates s).bind fun opened s₁ _ => ?_
  split
  · exact terminates_signalReady readyFd 'E' (-1) s₁
  refine (loopFree_statsCreate.terminates s₁).bind fun created s₂ _ => ?_
  split
  · exact terminates_abandonStart false readyFd s₂
  refine Terminates.bind ?_ fun installed s₃ _ => ?_
  · refine ((loopFree_writePid self config).terminates s₂).bind fun written s₃ _ => ?_
    split
    · refine (terminates_fw (terminates_enable config _)).bind fun enabled s₄ _ => ?_
      split
      · exact .ret 0 s₄
      · exact .ret (-1) s₄
    · exact .ret (-1) s₃
  · split
    · exact terminates_abandonStart true readyFd s₃
    · exact terminates_signalReady readyFd 'R' 0 s₃

/-! ## The parent -/

theorem leads_giveUp (s : Startup) : Leads giveUp (fun r _ => r = -1) s :=
  leads_call fun _ _ _ => leads_call fun _ _ _ => leads_ret rfl

/-- The parent believes nothing but `R`. -/
theorem leads_awaitReady {s : Startup} (h : s.ready.head? ≠ some 'R') :
    Leads awaitReady (fun r _ => r = -1) s := by
  refine leads_call fun readable _ _ => ?_
  cases readable with
  | false => exact leads_giveUp s
  | true =>
    refine leads_call fun received _ _ => ?_
    cases received with
    | false => exact leads_giveUp s
    | true =>
      simp only [system, if_true]
      exact leads_giveUp s

/-- **The readiness byte tells the truth.** -/
theorem ready_truthful (self : Nat) (config : Config) {readyFd : Int} (hfd : 0 ≤ readyFd)
    (pidFile : Option (List Char)) (stale : Bool) (table : Table) :
    Terminates systemRel (fpProxyStart self config readyFd) (.initial pidFile stale table) ∧
      ∀ code s, Runs systemRel (fpProxyStart self config readyFd) (.initial pidFile stale table) code s →
        Started self config code s ∧
          (s.ready = ['E'] → ∀ r s', Runs systemRel awaitReady s r s' → r = -1) := by
  refine ⟨terminates_start self config readyFd _, fun code s hrun => ?_⟩
  refine ⟨(leads_start hfd pidFile stale table).runs hrun, fun hbyte r s' hparent => ?_⟩
  have hhead : s.ready.head? ≠ some 'R' := by
    rw [hbyte]
    decide
  exact (leads_awaitReady hhead).runs hparent

/-- Every call is carried out but those with these numbers. -/
def allBut (failing : List Nat) : List Choice :=
  (List.range 40).map fun i => ⟨decide (i ∉ failing), 7, []⟩

/-- `plainConfig`, every call carried out. -/
theorem ready_truthful_plain : ∃ s, Runs systemRel (fpProxyStart 2 plainConfig 4)
    (.initial none true userTable) 0 s ∧ Serves 2 plainConfig s := by
  have hexec : ∃ s, exec system (allBut []) (fpProxyStart 2 plainConfig 4)
      (.initial none true userTable) = (.ret 0, s) := ⟨_, rfl⟩
  obtain ⟨s, hexec⟩ := hexec
  have hrun := exec_runs hexec
  refine ⟨s, hrun, ?_⟩
  rcases ((ready_truthful 2 plainConfig (by decide) none true userTable).2 0 s hrun).1 with
    ⟨-, -, h⟩ | ⟨h, -⟩
  · exact h
  · exact absurd h (by decide)

/-- **A stats file may stay**: one was there, `fp_stats_create` fails to unlink it, its `open` with
`O_EXCL` fails as well, and the cleanup, which is carried out in full, has no file to remove. -/
theorem ready_leaves_stats : ¬ ∀ (self : Nat) (config : Config) (readyFd : Int), 0 ≤ readyFd →
    ∀ pidFile stale table code s, Runs systemRel (fpProxyStart self config readyFd)
      (.initial pidFile stale table) code s → s.ready = ['E'] → s.listener = .closed true →
        s.undone = 0 → s.pidFile = none ∧ s.statsFile = none ∧ s.table.chain = none := by
  intro h
  have hexec : exec system (allBut [5]) (fpProxyStart 2 plainConfig 4)
      (.initial none true userTable) =
        (.ret (-1), ⟨.closed true, none, some .stale, userTable, ['E'], 0, true⟩) := rfl
  have hgone := (h 2 plainConfig 4 (by decide) none true userTable _ _ (exec_runs hexec) rfl rfl rfl).2.1
  exact absurd hgone (by decide)

end FreeProxy.Readiness
