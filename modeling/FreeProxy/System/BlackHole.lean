import FreeProxy.Firewall.Install
import FreeProxy.System.Harmless
import FreeProxy.System.Start

/-!
# Success and the listener

Whether an operation that answers `0` has redirected traffic to a port on which nobody listens.

* `wp_daemonStart_serves`: a daemon that has started serves, with its own chain in place, and an
  enabling operation that answers `0` has started one or has redirected nothing new.
* `updateConfig` goes by the pid record alone, which a killed daemon leaves behind.

**`served_iff`**: the enabling operations keep the property from every state, and exactly when
`fp_set_bypass` does.

Out of scope: processes of other programs that own the port.
-/

namespace FreeProxy

open Lib

/-- What is redirected now and was not before goes to the port of a daemon that listens. -/
def Sys.NewServed (usr : UserRules) (s s' : Sys) : Prop :=
  ∀ d port, s.table.redirected usr d = none → s'.table.redirected usr d = some port →
    port = fpListenPort ∧ s'.Listening

/-- Nothing is redirected that was not before. -/
def Sys.NothingNew (usr : UserRules) (s s' : Sys) : Prop :=
  ∀ d port, s'.table.redirected usr d = some port → s.table.redirected usr d = some port

/-- A daemon listens, and the chain is one that `fp_firewall_enable` has finished. -/
def Sys.Serves (s : Sys) : Prop := s.Listening ∧ ∃ c : Config, s.table.chain = some c.rules

section

variable {usr : UserRules}

/-- A finished chain redirects to the port of the daemon only. -/
theorem port_of_rules {t : Table} {c : Config} (hc : t.chain = some c.rules) {d : Addr} {port : Nat}
    (h : t.redirected usr d = some port) : port = fpListenPort := by
  obtain ⟨-, l, q, hl, hv⟩ := captures_of_redirected h
  have hv' := (outputRedirect_some h).2
  rw [hc, Option.getD_some, chainVerdict_rules] at hv'
  unfold Config.policy at hv'
  by_cases hd : c.Direct d
  · simp [hd] at hv'
  · simpa [hd, eq_comm] using hv'

theorem newServed_of_serves {s s' : Sys} (h : s'.Serves) : s.NewServed usr s' := by
  obtain ⟨hlistens, c, hc⟩ := h
  exact fun d port _ hr => ⟨port_of_rules hc hr, hlistens⟩

theorem newServed_of_nothingNew {s s' : Sys} (h : s.NothingNew usr s') : s.NewServed usr s' := by
  intro d port hnone hr
  rw [h d port hr] at hnone
  simp at hnone

theorem nothingNew_refl (s : Sys) : s.NothingNew usr s := fun _ _ h => h

theorem nothingNew_calms {s s₁ s' : Sys} (h : s.NothingNew usr s₁) (hc : s₁.Calms s') :
    s.NothingNew usr s' := by
  intro d port hr
  refine h d port ?_
  rcases hc.1 with ht | ⟨e, he, hact⟩
  · rwa [← ht]
  · exact redirected_of_removes he hact hr

end

/-! ## A daemon that has started -/

theorem listen_true {s s' : Sys} {self : Nat} {config : Config}
    (h : sysRel (.listen self config) s true s') : s'.Listening ∧ s'.table = s.table := by
  rcases listen_cases h with ⟨hr, -⟩ | ⟨-, -, hself, rfl⟩
  · simp at hr
  obtain ⟨p, hp⟩ := Option.isSome_iff_exists.mp hself
  have hpid : p.pid = self := by simpa using List.find?_some hp
  refine ⟨⟨{ p with listens := some config }, ?_, by simp⟩, rfl⟩
  exact List.mem_map.mpr ⟨p, List.mem_of_find?_eq_some hp, if_pos hpid⟩

theorem listening_of_procs {s s' : Sys} (h : s'.procs = s.procs) (hs : s.Listening) : s'.Listening := by
  unfold Sys.Listening at *
  rwa [h]

theorem wp_proxyInstall (self : Nat) (c : Config) (s : Sys) :
    wp sysRel (fun _ => True) (fpProxyInstall self c)
      (fun r s' => s'.procs = s.procs ∧ (r.2 = 0 → s'.table.chain = some c.rules)) s := by
  have hprog : fpProxyInstall self c = (Op.ask (.statsCreate self)).bind fun created =>
      if (!created) = true then .ret (false, -1) else
        (Op.ask (.writePid self c)).bind fun written =>
          if (!written) = true then .ret (true, -1) else
            (fw (fpFirewallEnable c)).bind fun enabled => .ret (true, enabled) := rfl
  rw [hprog, wp_bind]
  refine wp_aside (e := .statsCreate self) trivial fun created s₁ _ hp₁ _ => ?_
  split
  · exact wp_ret.mpr ⟨trivial, hp₁, by simp⟩
  rw [wp_bind]
  refine wp_aside (e := .writePid self c) trivial fun written s₂ _ hp₂ _ => ?_
  split
  · exact wp_ret.mpr ⟨trivial, hp₂.trans hp₁, by simp⟩
  refine wp_seq (wp_fw (wp_enable_ipt c s₂.table)) (fun _ _ => trivial) ?_
  rintro enabled s₃ ⟨-, hput⟩ ⟨henabled, -⟩
  refine wp_ret.mpr ⟨trivial, ?_, fun h0 => ?_⟩
  · rw [hput]
    exact hp₂.trans hp₁
  · rcases henabled with ⟨-, h⟩ | h
    · exact h.chain
    · rw [show enabled = 0 from h0] at h
      simp at h

theorem wp_proxyStart_serves (self : Nat) (c : Config) (readyFd : Int) (s : Sys) :
    wp sysRel (fun _ => True) (fpProxyStart self c readyFd)
      (fun code s' => code = 0 → s'.Serves) s := by
  have hfail : ∀ s : Sys, wp sysRel (fun _ => True) (.ret (-1) : App Int)
      (fun code s' => code = 0 → s'.Serves) s := fun s => wp_ret.mpr ⟨trivial, by simp⟩
  rw [fpProxyStart_eq, wp_bind, wp_ask]
  refine ⟨trivial, fun bound s₁ hlisten => ⟨trivial, ?_⟩⟩
  split
  swap
  · exact wp_after fun _ => hfail
  rename_i hbound
  subst hbound
  obtain ⟨hlistens, -⟩ := listen_true hlisten
  refine wp_seq (wp_proxyInstall self c s₁) (fun _ _ => trivial) ?_
  rintro installed s₂ - ⟨hprocs, hchain⟩
  split
  swap
  · exact wp_after fun _ => hfail
  rename_i h0
  refine wp_seq signalReady_same (fun _ _ => trivial) ?_
  rintro - s₃ hs₃ -
  rw [hs₃]
  exact wp_ret.mpr ⟨trivial, fun _ => ⟨listening_of_procs hprocs hlistens, c, hchain h0⟩⟩

/-- **A daemon that has started serves.** -/
theorem wp_daemonStart_serves (argv : List (List Char)) (self : Nat) (s : Sys) :
    wp sysRel (fun _ => True) (daemonStart argv self) (fun o s' => o = none → s'.Serves) s := by
  have hfail : ∀ s : Sys, wp sysRel (fun _ => True) (.ret (some 1) : App (Option Int))
      (fun o s' => o = none → s'.Serves) s := fun s => wp_ret.mpr ⟨trivial, by simp⟩
  unfold daemonStart
  cases readyArgument argv with
  | none => exact hfail s
  | some readyFd =>
    refine wp_after fun loaded s₁ => ?_
    cases loaded with
    | none => exact wp_after fun _ => hfail
    | some config =>
      refine wp_seq (wp_proxyStart_serves self config readyFd s₁) (fun _ _ => trivial) ?_
      intro started s₂ _ hserves
      by_cases h0 : started = 0
      · rw [if_pos h0]
        exact wp_ret.mpr ⟨trivial, fun _ => hserves h0⟩
      · rw [if_neg h0]
        exact wp_after fun _ => hfail

theorem wp_runChild_serves (pid : Nat) (s : Sys) :
    wp sysRel (fun _ => True) (runChild pid) (fun code s' => code = 0 → s'.Serves) s := by
  have hfail : ∀ s : Sys, wp sysRel (fun _ => True) (.ret (-1) : App Int)
      (fun code s' => code = 0 → s'.Serves) s := fun s => wp_ret.mpr ⟨trivial, by simp⟩
  have hchild : wp sysRel (fun _ => True) (interrupt Op.alive id (daemonStart childArgv pid))
      (fun o s' => ∀ a, o = some a → a = none → s'.Serves) s :=
    wp_interrupt (fun s r s' h => alive_same h) (wp_daemonStart_serves childArgv pid s)
  refine wp_seq hchild (fun _ _ => trivial) fun o s₁ _ hserves => ?_
  match o with
  | some none =>
    refine wp_bind.mpr (wp_ask.mpr ⟨trivial, fun ready s₂ hready => ⟨trivial, ?_⟩⟩)
    obtain ⟨c, hc⟩ := hready
    obtain rfl : s₁ = s₂ := congrArg Prod.snd hc
    cases ready with
    | true => exact wp_ret.mpr ⟨trivial, fun _ => hserves none rfl rfl⟩
    | false => exact wp_after fun _ _ => wp_after fun _ _ => wp_after fun _ => hfail
  | some (some code) => exact wp_after fun _ _ => wp_after fun _ => hfail
  | none => exact wp_after fun _ _ => wp_after fun _ => hfail

theorem wp_launch_serves (s : Sys) :
    wp sysRel (fun _ => True) launchDaemon (fun code s' => code = 0 → s'.Serves) s := by
  refine wp_after fun _ _ => wp_after fun _ _ => wp_after fun spawned s₁ => ?_
  cases spawned with
  | none => exact wp_ret.mpr ⟨trivial, by simp⟩
  | some pid => exact wp_runChild_serves pid s₁

/-! ## The enabling operations -/

section Enabling

variable {usr : UserRules} {s₀ : Sys}

theorem wp_startDaemon_served (c : Config) {s : Sys} (hs : s₀.NothingNew usr s) :
    wp sysRel (fun _ => True) (fpStartDaemon c) (fun code s' => code = 0 → s₀.NewServed usr s') s := by
  have hlaunch : ∀ s, wp sysRel (fun _ => True) launchDaemon
      (fun code s' => code = 0 → s₀.NewServed usr s') s := fun s =>
    (wp_launch_serves s).post fun _ _ _ hserves h0 => newServed_of_serves (hserves h0)
  have hfail : ∀ s : Sys, wp sysRel (fun _ => True) (.ret (-1) : App Int)
      (fun code s' => code = 0 → s₀.NewServed usr s') s := fun s => wp_ret.mpr ⟨trivial, by simp⟩
  refine wp_harmless_bind (calls_ask (e := Op.readRecord) trivial)
    (fun _ _ => nothingNew_calms) hs fun record s₁ hs₁ => ?_
  cases record with
  | none =>
    refine wp_after fun stopped s₂ => ?_
    split
    · exact hfail s₂
    · exact hlaunch s₂
  | some record =>
    refine wp_harmless_bind (calls_processIsOurs _ _).harmless (fun _ _ => nothingNew_calms) hs₁ ?_
    intro ours s₂ hs₂
    split
    · exact wp_ret.mpr ⟨trivial, fun _ => newServed_of_nothingNew hs₂⟩
    · refine wp_after fun stopped s₃ => ?_
      split
      · exact hfail s₃
      · exact hlaunch s₃

/-- Success without a start leaves the rules as they are, or takes some away. -/
theorem wp_activate_served (c : Config) {s : Sys} (hs : s₀.NothingNew usr s) :
    wp sysRel (fun _ => True) (activateProxyLocked c)
      (fun code s' => code = 0 → s₀.NewServed usr s') s := by
  have hfail : ∀ s : Sys, wp sysRel (fun _ => True) (.ret (-1) : App Int)
      (fun code s' => code = 0 → s₀.NewServed usr s') s := fun s => wp_ret.mpr ⟨trivial, by simp⟩
  refine wp_harmless_bind (calls_isActive c).harmless (fun _ _ => nothingNew_calms) hs fun active s₁ hs₁ => ?_
  split
  · exact wp_ret.mpr ⟨trivial, fun _ => newServed_of_nothingNew hs₁⟩
  refine wp_harmless_bind calls_stopIfRecorded.harmless (fun _ _ => nothingNew_calms) hs₁ ?_
  intro stopped s₂ hs₂
  split
  · exact hfail s₂
  have hstarted : wp sysRel (fun _ => True) (Prog.all [fw fpFirewallDisable, fpStartDaemon c])
      (fun code s' => code = 0 → s₀.NewServed usr s') s₂ := by
    refine wp_harmless_bind calls_fw_disable.harmless (fun _ _ => nothingNew_calms) hs₂ fun removed s₃ hs₃ => ?_
    split
    swap
    · exact hfail s₃
    refine wp_seq (wp_startDaemon_served c hs₃) (fun _ _ => trivial) fun started s₄ _ hserved => ?_
    split
    · rename_i h0
      exact wp_ret.mpr ⟨trivial, fun _ => hserved h0⟩
    · exact hfail s₄
  refine wp_seq hstarted (fun _ _ => trivial) fun started s₃ _ hserved => ?_
  split
  · exact wp_after fun _ => hfail
  · rename_i h0
    exact wp_ret.mpr ⟨trivial, fun _ => hserved (not_not.mp h0)⟩

theorem wp_enableConfig_served (c : Config) (previous : Option Config) {s : Sys}
    (hs : s₀.NothingNew usr s) :
    wp sysRel (fun _ => True) (enableConfig c previous)
      (fun code s' => code = 0 → s₀.NewServed usr s') s := by
  refine wp_harmless_bind calls_readPid.harmless (fun _ _ => nothingNew_calms) hs fun pid s₁ hs₁ => ?_
  refine wp_harmless_bind (p := fpConfigSave c) ⟨trivial, fun _ => trivial⟩
    (fun _ _ => nothingNew_calms) hs₁ fun saved s₂ hs₂ => ?_
  split
  · exact wp_ret.mpr ⟨trivial, by simp⟩
  refine wp_seq (wp_activate_served c hs₂) (fun _ _ => trivial) fun result s₃ _ hserved => ?_
  split
  · rename_i h0
    exact wp_ret.mpr ⟨trivial, fun _ => hserved h0⟩
  · rename_i h0
    exact wp_after fun _ s₄ => wp_ret.mpr ⟨trivial, fun h => absurd h h0⟩

theorem wp_enableProxy_served (proxy : List Char) (s : Sys) :
    wp sysRel (fun _ => True) (fpEnableProxy proxy)
      (fun code s' => code = 0 → s.NewServed usr s') s := by
  refine wp_locked (fun _ _ _ _ h => h) trivial (by simp) ?_
  split
  swap
  · exact wp_ret.mpr ⟨trivial, by simp⟩
  have hs : s.NothingNew usr s := nothingNew_refl s
  refine wp_harmless_bind (calls_ask (e := Op.configLoad) trivial) (fun _ _ => nothingNew_calms) hs ?_
  intro loaded s₁ hs₁
  cases loaded with
  | none => exact wp_enableConfig_served _ none hs₁
  | some previous => exact wp_enableConfig_served _ (some previous) hs₁

theorem wp_enableSaved_served (s : Sys) :
    wp sysRel (fun _ => True) fpEnableSavedProxy
      (fun code s' => code = 0 → s.NewServed usr s') s := by
  refine wp_locked (fun _ _ _ _ h => h) trivial (by simp) ?_
  have hs : s.NothingNew usr s := nothingNew_refl s
  refine wp_harmless_bind (calls_ask (e := Op.configLoad) trivial) (fun _ _ => nothingNew_calms) hs ?_
  intro loaded s₁ hs₁
  cases loaded with
  | none => exact wp_ret.mpr ⟨trivial, by simp⟩
  | some config => exact wp_activate_served config hs₁

end Enabling

/-! ## `fp_set_bypass` -/

theorem updateConfig_eq (config previous : Config) : updateConfig config previous =
    fpReadPid.bind fun pid =>
      (Prog.all [fpConfigSave config, updateRules (decide (pid > 1)) config]).bind fun updated =>
        if updated = 0 then .ret 0
        else (fpConfigSave previous).bind fun _ =>
          (updateRules (decide (pid > 1)) previous).bind fun _ => .ret (-1) := rfl

/-- **A success of `fp_set_bypass`** leaves the table alone, or installs the new list. -/
theorem wp_setBypass (bypassList : List Char) (s : Sys) :
    wp sysRel (fun _ => True) (fpSetBypass bypassList)
      (fun code s' => code = 0 → s'.procs = s.procs ∧ (s'.table = s.table ∨
        s.record ≠ none ∧ ∃ previous config, s.file.load = some previous ∧
          fpParseBypassList bypassList previous = (0, config) ∧ Enabled config s.table s'.table)) s := by
  refine wp_locked (fun _ _ _ _ h => h) trivial (by simp) ?_
  refine wp_seq wp_configLoad (fun _ _ => trivial) ?_
  rintro loaded s₁ hs₁ hload
  rw [hs₁]
  cases loaded with
  | none => exact wp_ret.mpr ⟨trivial, by simp⟩
  | some previous =>
    have hprevious := hload previous rfl
    simp only
    split
    swap
    · exact wp_ret.mpr ⟨trivial, by simp⟩
    rename_i config hparse
    rw [updateConfig_eq]
    refine wp_seq wp_readPid (fun _ _ => trivial) ?_
    rintro pid s₁ hs₁ hpid
    rw [hs₁]
    have hupdate : wp sysRel (fun _ => True)
        (Prog.all [fpConfigSave config, updateRules (decide (pid > 1)) config])
        (fun code s' => code = 0 → s'.procs = s.procs ∧ (s'.table = s.table ∨
          s.record ≠ none ∧ Enabled config s.table s'.table)) s := by
      have hsave : wp sysRel (fun _ => True) (fpConfigSave config)
          (fun _ s' => s'.table = s.table ∧ s'.procs = s.procs) s :=
        wp_seq (wp_aside (e := .configSave config) trivial fun _ _ ht hp _ => ⟨ht, hp⟩)
          (fun _ _ => trivial) fun _ _ _ h => wp_ret.mpr ⟨trivial, h⟩
      refine wp_seq hsave (fun _ _ => trivial) fun saved s₁ _ ⟨ht₁, hp₁⟩ => ?_
      split
      swap
      · exact wp_ret.mpr ⟨trivial, by simp⟩
      by_cases hrunning : pid > 1
      · rw [decide_eq_true hrunning]
        refine wp_seq (wp_fw (wp_enable_ipt config s₁.table)) (fun _ _ => trivial) ?_
        rintro enabled s₂ - ⟨henabled, hput⟩
        split
        swap
        · exact wp_ret.mpr ⟨trivial, by simp⟩
        rename_i h0
        refine wp_ret.mpr ⟨trivial, fun _ => ⟨by rw [hput]; exact hp₁, .inr ⟨hpid hrunning, ?_⟩⟩⟩
        rcases henabled with ⟨-, hen⟩ | h
        · rwa [ht₁] at hen
        · rw [h0] at h
          simp at h
      · rw [decide_eq_false hrunning]
        exact wp_ret.mpr ⟨trivial, fun _ => ⟨hp₁, .inl ht₁⟩⟩
    refine wp_seq hupdate (fun _ _ => trivial) fun updated s₁ _ hdone => ?_
    split
    · rename_i h0
      refine wp_ret.mpr ⟨trivial, fun _ => ⟨(hdone h0).1, ?_⟩⟩
      rcases (hdone h0).2 with ht | ⟨hrecord, hen⟩
      · exact .inl ht
      · exact .inr ⟨hrecord, previous, config, hprevious, hparse, hen⟩
    · exact wp_after fun _ _ => wp_after fun _ _ => wp_ret.mpr ⟨trivial, by simp⟩

/-- An operation that may be carried out may be carried out under the lock. -/
theorem locked_runs {operation : App Int} {s s' : Sys} {code : Int}
    (h : Runs sysRel operation s code s') : Runs sysRel (locked operation) s code s' := by
  have hlock : sysRel .lock s true s := ⟨⟨true, true, 0, 0⟩, rfl⟩
  have hunlock : sysRel .unlock s' () s' := ⟨⟨true, true, 0, 0⟩, rfl⟩
  refine Runs.bind (Runs.call hlock (Runs.ret true s)) (Runs.bind h ?_)
  exact Runs.bind (Runs.call hunlock (Runs.ret () s')) (Runs.ret code s')

/-- With a record, whomever it names, `fp_set_bypass` may install the new list in front. -/
theorem setBypass_runs {bypassList : List Char} {s : Sys} {previous config : Config}
    (hload : s.file.load = some previous) (hparse : fpParseBypassList bypassList previous = (0, config))
    (hrecord : s.record ≠ none) :
    Runs sysRel (fpSetBypass bypassList) s 0
      { s with file := .saved config, table := (s.table.setChain config.rules).addJump (by simp) } := by
  obtain ⟨record, hrecord⟩ := Option.ne_none_iff_exists'.mp hrecord
  have hpid : (record.pid : Int) > 1 := by have := record.pid_gt; omega
  have hread : Runs sysRel fpReadPid s record.pid s := by
    have hr : sysRel .readRecord s (some record) s := ⟨⟨true, true, 0, 0⟩, by simp [sys, hrecord]⟩
    exact Runs.bind (Runs.call hr (Runs.ret _ s)) (Runs.ret _ s)
  have hsave : Runs sysRel (fpConfigSave config) s 0 { s with file := .saved config } := by
    have hr : sysRel (.configSave config) s true { s with file := .saved config } :=
      ⟨⟨true, true, 0, 0⟩, rfl⟩
    exact Runs.bind (Runs.call hr (Runs.ret true _)) (Runs.ret 0 _)
  have hrules : Runs sysRel (updateRules (decide ((record.pid : Int) > 1)) config)
      { s with file := .saved config } 0
      { s with file := .saved config, table := (s.table.setChain config.rules).addJump (by simp) } := by
    rw [decide_eq_true hpid]
    exact runs_fw (runs_enable_again config s.table)
  have hall : Runs sysRel
      (Prog.all [fpConfigSave config, updateRules (decide ((record.pid : Int) > 1)) config]) s 0
      { s with file := .saved config, table := (s.table.setChain config.rules).addJump (by simp) } :=
    hsave.bind (hrules.bind (Runs.ret 0 _))
  have hupdate : Runs sysRel (updateConfig config previous) s 0
      { s with file := .saved config, table := (s.table.setChain config.rules).addJump (by simp) } :=
    hread.bind (hall.bind (Runs.ret 0 _))
  have hr : sysRel .configLoad s (some previous) s := ⟨⟨true, true, 0, 0⟩, by simp [sys, hload]⟩
  refine locked_runs (Runs.bind (Runs.call hr (Runs.ret _ s)) ?_)
  simp only [hparse]
  exact hupdate

/-- **When a success has a listener behind it.** -/
theorem served_iff (usr : UserRules) (s : Sys) :
    (∀ proxy s', Runs sysRel (fpEnableProxy proxy) s 0 s' → s.NewServed usr s') ∧
    (∀ s', Runs sysRel fpEnableSavedProxy s 0 s' → s.NewServed usr s') ∧
    ∀ bypassList, (∀ s', Runs sysRel (fpSetBypass bypassList) s 0 s' → s.NewServed usr s') ↔
      (s.record = none ∨ s.Listening ∨ ∀ previous config, s.file.load = some previous →
        fpParseBypassList bypassList previous = (0, config) →
          ∀ d, ¬ config.Direct d → s.table.redirected usr d ≠ none) := by
  refine ⟨fun proxy s' h => (wp_enableProxy_served proxy s).runs h rfl,
    fun s' h => (wp_enableSaved_served s).runs h rfl, fun bypassList => ⟨fun hall => ?_, ?_⟩⟩
  · by_contra hno
    rw [not_or, not_or] at hno
    obtain ⟨hrecord, hlistens, hno⟩ := hno
    refine hno fun previous config hload hparse d hd hnone => hlistens ?_
    have hruns := setBypass_runs hload hparse hrecord
    have hnew := hall _ hruns d fpListenPort hnone
    refine (hnew (redirected_of_jump rfl rfl ?_)).2
    rw [chainVerdict_rules]
    exact policy_of_not_direct hd
  · rintro hcond s' hrun d port hnone hr
    obtain ⟨hprocs, htable⟩ := (wp_setBypass bypassList s).runs hrun rfl
    rcases htable with ht | ⟨hrecord, previous, config, hload, hparse, hen⟩
    · rw [ht, hnone] at hr
      simp at hr
    refine ⟨port_of_rules hen.chain hr, ?_⟩
    rcases hcond with h | h | h
    · exact absurd h hrecord
    · exact listening_of_procs hprocs h
    · by_cases hd : config.Direct d
      · exact absurd (captures_of_redirected hr)
          (not_captures_of_isPrefix hen.chain (List.prefix_refl _) hd)
      · exact absurd hnone (h previous config hload hparse d hd)

/-- While the daemon listens, the list is cleared and `10.1.2.3` goes to it. -/
theorem served_clear : ∃ s', Runs sysRel (fpSetBypass []) (servingSys (.saved wideConfig)) 0 s' ∧
    s'.table.redirected (fun _ _ => none) 0x0a010203 = some 12345 ∧ s'.Listening := by
  have hruns : Runs sysRel (fpSetBypass []) (servingSys (.saved wideConfig)) 0 _ :=
    setBypass_runs rfl rfl (by decide)
  have hserved := ((served_iff (fun _ _ => none) _).2.2 []).mpr (.inr (.inl (by decide))) _ hruns
    0x0a010203 12345 (by decide) rfl
  exact ⟨_, hruns, rfl, hserved.2⟩

/-- The daemon has been killed and its rules are gone; the record is still there. -/
def killedSys : Sys := ⟨.saved plainConfig, Record.make 50 7 plainConfig, none, userTable, []⟩

/-- **A black hole**: nobody listens, `fp_set_bypass` answers `0`, and `8.8.8.8` is redirected. -/
theorem served_not : ¬ ∀ (usr : UserRules) (s s' : Sys) bypassList,
    Runs sysRel (fpSetBypass bypassList) s 0 s' → s.NewServed usr s' := by
  intro h
  have hruns : Runs sysRel (fpSetBypass []) killedSys 0 _ := setBypass_runs rfl rfl (by decide)
  have hnew := h (fun _ _ => none) _ _ [] hruns 0x08080808 12345 (by decide) rfl
  exact absurd hnew.2 (by decide)

end FreeProxy
