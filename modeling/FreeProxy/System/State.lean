import FreeProxy.Firewall.Enable

/-!
# The system around the daemon

What the processes of free_proxy share: the configuration file, the pid record, the stats file, the
nat table, and the processes themselves with the listener on `127.0.0.1:12345`. `Op` is the set of
the calls that `src/process.c`, `src/proxy.c`, `src/main.c` and `src/operations.c` make on them, and
`sys` what a call does. A `Choice` resolves what the caller does not control: every call may fail,
and some leave something behind when they do.

* The configuration file is what `fp_config_load` makes of it; a save replaces it by a rename.
* The pid record is what `read_process_record` makes of it, so its pid is above `1`.
* A process is what `/proc` shows of it; `listens` is the configuration it was started with, while
  it owns the listener.

Headlines: `ipt_embeds`, the firewall programs act on their part only; **`sysRel_harmless`**, what
all calls but `listen` and the adding iptables commands have in common.

Out of scope: the language file, the unit file, and the clients of the daemon.
-/

namespace FreeProxy

open Lib

/-- `FP_CONFIG_PATH`. -/
inductive ConfigFile where
  | absent
  /-- `fp_config_load` rejects it -/
  | rejected (text : List Char)
  | saved (config : Config)
  deriving DecidableEq

/-- `fp_config_load`. -/
def ConfigFile.load : ConfigFile → Option Config
  | .saved config => some config
  | _ => none

/-- `FP_PID_PATH`. -/
structure Record where
  pid : Nat
  startTime : Nat
  proxyAddr : Addr
  proxyPort : BitVec 16
  pid_gt : 1 < pid
  deriving DecidableEq

/-- A process, as the others see it. -/
structure Proc where
  pid : Nat
  startTime : Nat
  /-- `exe_is_free_proxy` of its executable -/
  exe : Bool
  /-- its first argument is `run` -/
  cmdlineRun : Bool
  /-- it leads its session and its group -/
  leader : Bool
  /-- its parent is process `1` -/
  initChild : Bool
  listens : Option Config
  deriving DecidableEq

/-- What the processes share. -/
structure Sys where
  file : ConfigFile
  record : Option Record
  /-- `FP_STATS_PATH`, by the process that created it -/
  stats : Option Nat
  table : Table
  procs : List Proc
  deriving DecidableEq

namespace Sys

/-- The process with this pid. -/
def find (s : Sys) (pid : Nat) : Option Proc := s.procs.find? fun p => p.pid == pid

/-- A free_proxy daemon owns the listener. -/
def Listening (s : Sys) : Prop := ∃ p ∈ s.procs, p.listens ≠ none

instance (s : Sys) : Decidable s.Listening := by
  unfold Listening
  infer_instance

/-- The process has another listener, or none. -/
def setListens (s : Sys) (pid : Nat) (listens : Option Config) : Sys :=
  { s with procs := s.procs.map fun p => if p.pid = pid then { p with listens := listens } else p }

/-- The process has ended. -/
def remove (s : Sys) (pid : Nat) : Sys :=
  { s with procs := s.procs.filter fun p => p.pid ≠ pid }

end Sys

/-- The calls. `self` is the process that makes the call. -/
inductive Op where
  | ipt (arguments : Cmd)
  /-- `fp_lock_acquire` -/
  | lock
  /-- `fp_lock_release` -/
  | unlock
  | configLoad
  | configSave (config : Config)
  /-- `read_process_record` -/
  | readRecord
  /-- `fp_write_pid` -/
  | writePid (self : Nat) (config : Config)
  /-- `fp_remove_pid` -/
  | removePid
  /-- `fp_stats_create` -/
  | statsCreate (self : Nat)
  /-- `unlink(FP_STATS_PATH)` -/
  | statsUnlink
  /-- `process_start_time` -/
  | startTime (pid : Nat)
  | exeIsFreeProxy (pid : Nat)
  | cmdlineIsRun (pid : Nat)
  /-- `getsid(pid) == pid && getpgid(pid) == pid` -/
  | isLeader (pid : Nat)
  /-- `PPid` in the status file, which may not be readable -/
  | parentIsInit (pid : Nat)
  /-- the entries of `/proc` -/
  | readdir
  | sigterm (pid : Nat)
  | sigkill (pid : Nat)
  /-- `kill(-pid, 0) != 0 && errno == ESRCH` -/
  | groupGone (pid : Nat)
  /-- `listener_is_released` -/
  | tryBind
  /-- `socket`, `setsockopt`, `bind` and `listen` -/
  | listen (self : Nat) (config : Config)
  | closeListener (self : Nat)
  | signalReady (value : Char)
  /-- `pipe2`, `fork`, `setsid` and `execl` -/
  | spawn
  /-- `poll` and `read` of the readiness byte -/
  | awaitReady
  /-- the process has not been killed -/
  | alive
  | exit (self : Nat)
  /-- the accept loop; it ends by a signal or by an error -/
  | serve
  deriving DecidableEq

/-- What a call answers. -/
abbrev Resp : Op → Type
  | .configLoad => Option Config
  | .readRecord => Option Record
  | .startTime _ => Option Nat
  | .parentIsInit _ => Option Bool
  | .readdir => Option (List Nat)
  | .spawn => Option Nat
  | .unlock | .removePid | .statsUnlink | .closeListener _ | .signalReady _ | .exit _ => Unit
  | _ => Bool

/-- What the caller does not control. -/
structure Choice where
  /-- the call is carried out -/
  ok : Bool
  /-- when it is not, nothing is left behind -/
  clean : Bool
  pid : Nat
  time : Nat

/-- The record `fp_write_pid` writes; one with a pid of at most `1` would not be read. -/
def Record.make (pid startTime : Nat) (config : Config) : Option Record :=
  if h : 1 < pid then some ⟨pid, startTime, config.proxyAddr, config.proxyPort, h⟩ else none

/-- The process that `fp_start_daemon` makes. -/
def Proc.spawned (pid startTime : Nat) : Proc := ⟨pid, startTime, true, true, true, false, none⟩

/-- What a call does. -/
def sys : Sem Op Resp Choice Sys
  | .ipt e, c, s =>
    let answer := iptables e c.ok s.table
    (answer.1, { s with table := answer.2 })
  | .lock, c, s => (c.ok, s)
  | .unlock, _, s => ((), s)
  | .configLoad, c, s => (if c.ok then s.file.load else none, s)
  | .configSave config, c, s => if c.ok then (true, { s with file := .saved config }) else (false, s)
  | .readRecord, c, s => (if c.ok then s.record else none, s)
  | .writePid self config, c, s =>
    match s.find self with
    | some p =>
      if c.ok then (true, { s with record := Record.make self p.startTime config })
      else (false, if c.clean then s else { s with record := none })
    | none => (false, s)
  | .removePid, c, s => ((), if c.ok then { s with record := none } else s)
  | .statsCreate self, c, s =>
    if c.ok then (true, { s with stats := some self })
    else (false, if c.clean then s else { s with stats := none })
  | .statsUnlink, c, s => ((), if c.ok then { s with stats := none } else s)
  | .startTime pid, c, s => (if c.ok then (s.find pid).map Proc.startTime else none, s)
  | .exeIsFreeProxy pid, c, s => (c.ok && (s.find pid).any Proc.exe, s)
  | .cmdlineIsRun pid, c, s => (c.ok && (s.find pid).any Proc.cmdlineRun, s)
  | .isLeader pid, c, s => (c.ok && (s.find pid).any Proc.leader, s)
  | .parentIsInit pid, c, s => (if c.ok then (s.find pid).map Proc.initChild else none, s)
  | .readdir, c, s => (if c.ok then some (s.procs.map Proc.pid) else none, s)
  | .sigterm _, c, s => (c.ok, s)
  | .sigkill pid, c, s => if c.ok then (true, s.remove pid) else (false, s)
  -- the workers of a daemon are in its group and may outlive it for a while
  | .groupGone pid, c, s => (c.ok && (s.find pid).isNone, s)
  | .tryBind, c, s => (c.ok && !decide s.Listening, s)
  | .listen self config, c, s =>
    if c.ok ∧ ¬ s.Listening ∧ (s.find self).isSome then (true, s.setListens self (some config))
    else (false, s)
  | .closeListener self, _, s => ((), s.setListens self none)
  | .signalReady _, _, s => ((), s)
  | .spawn, c, s =>
    if c.ok ∧ 1 < c.pid ∧ (s.find c.pid).isNone then
      (some c.pid, { s with procs := s.procs ++ [.spawned c.pid c.time] })
    else (none, s)
  | .awaitReady, c, s => (c.ok, s)
  | .alive, c, s => (c.ok, s)
  | .exit self, _, s => ((), s.remove self)
  | .serve, c, s => (c.ok, s)

/-- What a caller may see. -/
abbrev sysRel : Rel Op Resp Sys := sys.rel

/-- A program of free_proxy. -/
abbrev App (α : Type) := Prog Op Resp α

/-- One call. -/
abbrev Op.ask (e : Op) : App (Resp e) := Prog.ask e

/-! ## The firewall as a part -/

/-- The table is a part of the state. -/
def tableLens : Lens Sys Table where
  get := Sys.table
  put s t := { s with table := t }
  get_put _ _ := rfl
  put_get _ := rfl
  put_put _ _ _ := rfl

/-- A firewall program, run by a process. -/
abbrev fw {α : Type} (p : Fw α) : App α := hoist Op.ipt p

theorem ipt_embeds : Embeds Op.ipt Ipt sysRel tableLens := by
  rintro e s r s₁ ⟨c, h⟩
  have hrel : Sem.rel iptables e s.table (iptables e c.ok s.table).1 (iptables e c.ok s.table).2 :=
    ⟨c.ok, rfl⟩
  rw [faulty_rel] at hrel
  simp only [sys, Prod.mk.injEq] at h
  obtain ⟨rfl, rfl⟩ := h
  exact ⟨hrel, rfl⟩

theorem ipt_lifts {e : Cmd} {s : Sys} {r : Bool} {t : Table} (h : Ipt e s.table r t) :
    sysRel (.ipt e) s r { s with table := t } := by
  have hrel : Sem.rel iptables e s.table r t := by rwa [faulty_rel]
  obtain ⟨b, hb⟩ := hrel
  refine ⟨⟨b, true, 0, 0⟩, ?_⟩
  simp only [sys, hb]

/-- A run of a firewall program is a run of the process that runs it. -/
theorem runs_fw {α : Type} {p : Fw α} {s : Sys} {a : α} {t : Table} (h : Runs Ipt p s.table a t) :
    Runs sysRel (fw p) s a { s with table := t } :=
  runs_hoist (l := tableLens) (fun _ _ _ _ h => ipt_lifts h) h

/-- What a firewall program does to the table, it does to the system and nothing else. -/
theorem wp_fw {α : Type} {I : Table → Prop} {p : Fw α} {Q : α → Table → Prop} {s : Sys}
    (h : wp Ipt I p Q s.table) :
    wp sysRel (fun s' => I s'.table ∧ s' = { s with table := s'.table }) (fw p)
      (fun a s' => Q a s'.table ∧ s' = { s with table := s'.table }) s :=
  wp_hoist (l := tableLens) ipt_embeds h

/-- **The listener is given to one process at a time.** -/
theorem listen_cases {s s' : Sys} {self : Nat} {config : Config} {r : Bool}
    (h : sysRel (.listen self config) s r s') :
    (r = false ∧ s' = s) ∨
      (r = true ∧ ¬ s.Listening ∧ (s.find self).isSome ∧ s' = s.setListens self (some config)) := by
  obtain ⟨c, hc⟩ := h
  simp only [sys] at hc
  by_cases hall : c.ok ∧ ¬ s.Listening ∧ (s.find self).isSome
  · rw [if_pos hall, Prod.mk.injEq] at hc
    exact .inr ⟨hc.1.symm, hall.2.1, hall.2.2, hc.2.symm⟩
  · rw [if_neg hall, Prod.mk.injEq] at hc
    exact .inl ⟨hc.1.symm, hc.2.symm⟩

/-! ## Calls that add nothing -/

/-- All calls but `listen` and the iptables commands that add something. -/
def Op.Harmless : Op → Prop
  | .ipt e => e.Removes
  | .listen _ _ => False
  | _ => True

/-- Every process that listens in `s'` listened in `s`, with the same configuration. -/
def Sys.NoNewListener (s s' : Sys) : Prop :=
  ∀ p' ∈ s'.procs, ∀ c, p'.listens = some c → ∃ p ∈ s.procs, p.listens = some c

theorem noNewListener_refl (s : Sys) : s.NoNewListener s := fun p hp _ hc => ⟨p, hp, hc⟩

theorem noNewListener_close (s : Sys) (pid : Nat) : s.NoNewListener (s.setListens pid none) := by
  intro p' hp' c hc
  obtain ⟨p, hp, rfl⟩ := List.mem_map.mp hp'
  refine ⟨p, hp, ?_⟩
  split at hc
  · simp at hc
  · exact hc

theorem noNewListener_remove (s : Sys) (pid : Nat) : s.NoNewListener (s.remove pid) :=
  fun p' hp' _ hc => ⟨p', List.mem_of_mem_filter hp', hc⟩

theorem noNewListener_spawn (s : Sys) (pid time : Nat) :
    s.NoNewListener { s with procs := s.procs ++ [.spawned pid time] } := by
  intro p' hp' c hc
  rcases List.mem_append.mp hp' with hp | hp
  · exact ⟨p', hp, hc⟩
  · obtain rfl := List.mem_singleton.mp hp
    simp [Proc.spawned] at hc

/-- **What a harmless call may do**: take rules away, and take listeners away. -/
theorem sysRel_harmless {e : Op} {s s' : Sys} {r : Resp e} (he : e.Harmless)
    (h : sysRel e s r s') :
    (s'.table = s.table ∨ ∃ c : Cmd, c.Removes ∧ act c s.table = some s'.table) ∧
      s.NoNewListener s' := by
  have same : ∀ {t : Sys}, t = s' → t.table = s.table → t.procs = s.procs →
      (s'.table = s.table ∨ ∃ c : Cmd, c.Removes ∧ act c s.table = some s'.table) ∧
        s.NoNewListener s' := by
    rintro t rfl ht hp
    refine ⟨.inl ht, ?_⟩
    unfold Sys.NoNewListener
    rw [hp]
    exact noNewListener_refl s
  have hs' : ∀ {c}, sys e c s = (r, s') → (sys e c s).2 = s' := fun h => congrArg Prod.snd h
  obtain ⟨c, h⟩ := h
  have hst := hs' h
  cases e with
  | ipt e =>
    obtain ⟨hrel, hput⟩ := ipt_embeds e s r s' ⟨c, h⟩
    refine ⟨?_, ?_⟩
    · rcases hrel with ⟨-, hact⟩ | ⟨-, ht⟩
      · exact .inr ⟨e, he, hact⟩
      · exact .inl ht
    · rw [hput]
      exact noNewListener_refl s
  | listen => exact he.elim
  | sigkill pid =>
    simp only [sys] at hst
    split at hst
    · exact ⟨.inl (by rw [← hst]; rfl), by rw [← hst]; exact noNewListener_remove s pid⟩
    · exact same hst rfl rfl
  | closeListener pid =>
    rw [← hst]
    exact ⟨.inl rfl, noNewListener_close s pid⟩
  | exit pid =>
    rw [← hst]
    exact ⟨.inl rfl, noNewListener_remove s pid⟩
  | spawn =>
    simp only [sys] at hst
    split at hst
    · exact ⟨.inl (by rw [← hst]), by rw [← hst]; exact noNewListener_spawn s c.pid c.time⟩
    · exact same hst rfl rfl
  | writePid | configSave | removePid | statsCreate | statsUnlink =>
    -- files, whatever is left of them
    simp only [sys] at hst
    refine same hst ?_ ?_
    all_goals repeat' split
    all_goals rfl
  | _ => exact same hst rfl rfl

end FreeProxy
