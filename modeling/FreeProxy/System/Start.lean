import FreeProxy.Firewall.Install
import FreeProxy.Firewall.Removal
import FreeProxy.System.Daemon

/-!
# A start while another daemon runs

`free_proxy run` cannot bind the listener that another daemon owns. What `fp_proxy_run` cleans up on
that exit is its own; `main` then calls `fp_firewall_disable` all the same, and the rules it removes
are those of the other daemon.

**`run_spares_iff`**: exactly when a start next to a live listener leaves the other daemon's state
alone.

Out of scope: what the other daemon does meanwhile.
-/

namespace FreeProxy

open Lib

/-- The jumps, the chain, the pid record and the stats file are as they were. -/
def Sys.SameInstallation (s s' : Sys) : Prop :=
  s'.table.output = s.table.output ∧ s'.table.chain = s.table.chain ∧ s'.record = s.record ∧
    s'.stats = s.stats

/-- A bind to a port on which another process listens fails. -/
theorem listen_listening {s s' : Sys} {self : Nat} {config : Config} {r : Bool} (h : s.Listening)
    (hr : sysRel (.listen self config) s r s') : r = false ∧ s' = s := by
  rcases listen_cases hr with hno | ⟨-, hn, -⟩
  · exact hno
  · exact absurd h hn

theorem signalReady_same {readyFd : Int} {value : Char} {s : Sys} :
    wp sysRel (· = s) (signalReady readyFd value) (fun _ _ => True) s := by
  unfold signalReady
  split
  · refine wp_ask.mpr ⟨rfl, fun _ s₁ hr => ?_⟩
    obtain ⟨c, hc⟩ := hr
    simp only [sys, Prod.mk.injEq] at hc
    exact ⟨hc.2.symm, trivial⟩
  · exact wp_ret.mpr ⟨rfl, trivial⟩

theorem signalReady_runs (readyFd : Int) (value : Char) (s : Sys) :
    Runs sysRel (signalReady readyFd value) s () s := by
  unfold signalReady
  split
  · exact Runs.call ⟨⟨true, true, 0, 0⟩, rfl⟩ (Runs.ret () s)
  · exact Runs.ret () s

/-- The start of `fp_proxy_run` next to a live listener fails and touches nothing. -/
theorem wp_proxyStart_listening {s : Sys} (h : s.Listening) (self : Nat) (config : Config)
    (readyFd : Int) :
    wp sysRel (· = s) (fpProxyStart self config readyFd) (fun code _ => code = -1) s := by
  unfold fpProxyStart
  simp only [Prog.bind_eq, Prog.pure_eq]
  rw [wp_bind, wp_ask]
  refine ⟨rfl, fun bound s₁ hr => ?_⟩
  obtain ⟨rfl, rfl⟩ := listen_listening h hr
  refine ⟨rfl, ?_⟩
  simp only [Bool.not_false, if_true]
  rw [wp_bind]
  refine signalReady_same.post ?_
  rintro _ _ rfl -
  exact wp_ret.mpr ⟨rfl, rfl⟩

theorem proxyStart_runs_listening {s : Sys} (h : s.Listening) (self : Nat) (config : Config)
    (readyFd : Int) : Runs sysRel (fpProxyStart self config readyFd) s (-1) s := by
  have hlisten : sysRel (.listen self config) s false s := by
    refine ⟨⟨true, true, 0, 0⟩, ?_⟩
    simp [sys, h]
  refine Runs.bind (Runs.call hlisten (Runs.ret _ s)) ?_
  exact Runs.bind (signalReady_runs readyFd 'E' s) (Runs.ret (-1) s)

/-- `fp_proxy_run` next to a live listener fails and touches nothing. -/
theorem wp_proxyRun_listening {s : Sys} (h : s.Listening) (self : Nat) (config : Config)
    (readyFd : Int) :
    wp sysRel (· = s) (fpProxyRun self config readyFd) (fun code _ => code = -1) s := by
  unfold fpProxyRun
  simp only [Prog.bind_eq, Prog.pure_eq]
  rw [wp_bind]
  refine (wp_proxyStart_listening h self config readyFd).post ?_
  rintro code _ rfl rfl
  exact wp_ret.mpr ⟨rfl, rfl⟩

theorem proxyRun_runs_listening {s : Sys} (h : s.Listening) (self : Nat) (config : Config)
    (readyFd : Int) : Runs sysRel (fpProxyRun self config readyFd) s (-1) s :=
  Runs.bind (proxyStart_runs_listening h self config readyFd) (Runs.ret (-1) s)

/-- A removal leaves a table without free_proxy's rules as it is. -/
theorem wp_disable_clean {t : Table} (hc : t.chain = none) :
    wp Ipt (· = t) fpFirewallDisable (fun _ t' => t' = t) t := by
  refine wp_calls calls_disable ?_ rfl
  rintro e t₁ r t' he rfl (⟨rfl, hact⟩ | ⟨rfl, rfl⟩)
  · cases e with
    | listChain => exact absurd hc (act_listChain.mp hact).1
    | newChain => exact he.elim
    | flushChain => exact absurd hc (act_flushChain.mp hact).1
    | deleteChain => rw [(act_deleteChain.mp hact).1] at hc; simp at hc
    | checkJump => exact absurd hc (t₁.jump_ok (act_checkJump.mp hact).1)
    | insertJump => exact he.elim
    | deleteJump => exact absurd hc (t₁.jump_ok (act_deleteJump.mp hact).1)
    | rule op spec =>
      cases op with
      | append => exact he.elim
      | check =>
        obtain ⟨l, _, hl, -⟩ := act_check.mp hact
        rw [hl] at hc
        simp at hc
  · rfl

/-- **Every start next to a live listener** returns `1`; it leaves the record and the stats file
alone, and the table when the arguments or the configuration are refused or there is no chain. -/
theorem wp_mainRun_listening {s : Sys} (h : s.Listening) (argv : List (List Char)) (self : Nat) :
    wp sysRel (fun _ => True) (mainRun argv self)
      (fun code s' => code = 1 ∧ s'.record = s.record ∧ s'.stats = s.stats ∧
        (readyArgument argv = none ∨ s.file.load = none ∨ s.table.chain = none →
          s'.table = s.table)) s := by
  have hsame : wp sysRel (fun _ => True) (.ret 1 : App Int)
      (fun code s' => code = 1 ∧ s'.record = s.record ∧ s'.stats = s.stats ∧
        (readyArgument argv = none ∨ s.file.load = none ∨ s.table.chain = none →
          s'.table = s.table)) s := wp_ret.mpr ⟨trivial, rfl, rfl, rfl, fun _ => rfl⟩
  unfold mainRun
  cases hargs : readyArgument argv with
  | none => rw [hargs] at hsame; exact hsame
  | some readyFd =>
    simp only [hargs, Prog.bind_eq, Prog.pure_eq] at hsame ⊢
    rw [wp_bind, wp_ask]
    refine ⟨trivial, fun loaded s₁ hload => ⟨trivial, ?_⟩⟩
    obtain ⟨c, hc⟩ := hload
    simp only [sys, Prod.mk.injEq] at hc
    obtain ⟨hloaded, rfl⟩ := hc
    cases loaded with
    | none =>
      refine wp_seq signalReady_same (fun _ _ => trivial) ?_
      rintro _ _ rfl -
      exact hsame
    | some config =>
      have hfile : s.file.load ≠ none := by
        split at hloaded
        · simp [hloaded]
        · simp at hloaded
      refine wp_seq (wp_proxyRun_listening h self config readyFd) (fun _ _ => trivial) ?_
      rintro result s₁ (hs₁ : s₁ = s) rfl
      rw [hs₁]
      have hdisable : wp Ipt (fun _ => True) fpFirewallDisable
          (fun _ t' => s.table.chain = none → t' = s.table) s.table := by
        by_cases hc : s.table.chain = none
        · exact (wp_disable_clean hc).mono (fun _ _ => trivial) fun _ _ h _ => h
        · exact (wp_runs fpFirewallDisable s.table).mono (fun _ _ => trivial)
            fun _ _ _ h => absurd h hc
      refine wp_seq (wp_fw hdisable) (fun _ _ => trivial) ?_
      rintro _ s₂ - ⟨htable, hput⟩
      refine wp_ret.mpr ⟨trivial, rfl, by rw [hput], by rw [hput], ?_⟩
      rintro (h | h | h)
      · simp at h
      · exact absurd h hfile
      · exact htable h

/-- A start that gets as far as the listener removes the rules of the other daemon. -/
theorem mainRun_runs_listening {s : Sys} (h : s.Listening) {argv : List (List Char)} {readyFd : Int}
    {config : Config} (hargs : readyArgument argv = some readyFd)
    (hfile : s.file.load = some config) (self : Nat) :
    Runs sysRel (mainRun argv self) s 1 { s with table := s.table.clean } := by
  unfold mainRun
  rw [hargs]
  have hload : sysRel .configLoad s (some config) s := ⟨⟨true, true, 0, 0⟩, by simp [sys, hfile]⟩
  refine Runs.bind (Runs.call hload (Runs.ret _ s)) ?_
  refine Runs.bind (proxyRun_runs_listening h self config readyFd) ?_
  exact Runs.bind (runs_fw (completes_disable s.table).runs) (Runs.ret 1 _)

/-- **When a failing start spares the daemon that runs**: with refused arguments, without a
configuration, or without a chain. The record and the stats file it always spares. -/
theorem run_spares_iff {s : Sys} (h : s.Listening) (argv : List (List Char)) (self : Nat) :
    ((∀ code s', Runs sysRel (mainRun argv self) s code s' → code ≠ 0 → s.SameInstallation s') ↔
      (readyArgument argv = none ∨ s.file.load = none ∨ s.table.chain = none)) ∧
    ∀ code s', Runs sysRel (mainRun argv self) s code s' →
      code = 1 ∧ s'.record = s.record ∧ s'.stats = s.stats := by
  have hwp := wp_mainRun_listening h argv self
  refine ⟨⟨fun hall => ?_, fun hcond code s' hrun _ => ?_⟩, fun code s' hrun => ?_⟩
  · by_contra hno
    rw [not_or, not_or] at hno
    obtain ⟨hargs, hfile, hc⟩ := hno
    obtain ⟨readyFd, hargs⟩ := Option.ne_none_iff_exists'.mp hargs
    obtain ⟨config, hfile⟩ := Option.ne_none_iff_exists'.mp hfile
    have hsame := hall 1 _ (mainRun_runs_listening h hargs hfile self) (by decide)
    exact hc hsame.2.1.symm
  · obtain ⟨-, hrecord, hstats, htable⟩ := hwp.runs hrun
    rw [Sys.SameInstallation, htable hcond]
    exact ⟨rfl, rfl, hrecord, hstats⟩
  · obtain ⟨hcode, hrecord, hstats, -⟩ := hwp.runs hrun
    exact ⟨hcode, hrecord, hstats⟩

/-! ## A daemon that runs -/

/-- Process `50` serves with `wideConfig`, its rules, record and stats file in place. -/
def servingSys (file : ConfigFile) : Sys :=
  { file := file
    record := Record.make 50 7 wideConfig
    stats := some 50
    table := userTable.enabled wideConfig
    procs := [{ Proc.spawned 50 7 with listens := some wideConfig }] }

/-- The arguments of `free_proxy run`. -/
def runArgv : List (List Char) := ["free_proxy".toList, "run".toList]

/-- Every call is carried out; a new process has the id `50`. -/
def goodChoice : Choice := ⟨true, true, 50, 7⟩

/-- Nothing is installed, and `plainConfig` is saved. -/
def idleSys : Sys := ⟨.saved plainConfig, none, none, userTable, []⟩

/-- A start without a configuration spares the daemon. -/
theorem run_spares_absent : (servingSys .absent).Listening ∧ (servingSys .absent).table.jumps = 1 ∧
    ∀ code s', Runs sysRel (mainRun runArgv 60) (servingSys .absent) code s' → code ≠ 0 →
      (servingSys .absent).SameInstallation s' :=
  ⟨by decide, rfl, (run_spares_iff (by decide) runArgv 60).1.mpr (.inr (.inl rfl))⟩

/-- **A second `free_proxy run` removes the rules of the first.** -/
theorem run_not_spares : ¬ ∀ (s : Sys) argv self, s.Listening → ∀ code s',
    Runs sysRel (mainRun argv self) s code s' → code ≠ 0 → s.SameInstallation s' := by
  intro h
  have hlistens : (servingSys (.saved wideConfig)).Listening := by decide
  have hargs : readyArgument runArgv = some (-1) := rfl
  have hruns := mainRun_runs_listening hlistens hargs rfl 60
  have hsame := h _ runArgv 60 hlistens 1 _ hruns (by decide)
  exact absurd hsame.2.1 (by decide)

end FreeProxy
