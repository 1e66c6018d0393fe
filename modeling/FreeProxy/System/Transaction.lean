import FreeProxy.System.Update

/-!
# The operations as transactions

`fp_enable_proxy` and `fp_set_bypass` save the new configuration before they put it into force, and
bring the old one back when they fail. The programs here are those of `FreeProxy.System.Operations`
and return, beside the result, what the code has read and the statuses it casts to `void`
(`fpEnableProxy_eq`, `fpSetBypass_eq`).

* **`enable_transaction`**: what the configuration file holds after `fp_enable_proxy`. A file that
  could not be loaded before is not brought back.
* **`setBypass_transaction`**: what the file and the chain hold after `fp_set_bypass`, wherever its
  first `fp_firewall_enable` has failed.

Out of scope: other processes that write the file; the lock keeps the operations apart.
-/

namespace FreeProxy

open Lib

theorem locked_bind {α : Type} (refused : α) (operation : App α) (f : α → Int)
    (hrefused : f refused = -1) :
    locked (operation.bind fun a => .ret (f a)) =
      (lockedAs refused operation).bind fun a => .ret (f a) := by
  refine congrArg (Prog.call (E := Op) .lock) (funext fun acquired => ?_)
  cases acquired with
  | false => simp [hrefused]
  | true =>
    simp only [Prog.bind_eq, Prog.pure_eq, Prog.bind_assoc, Prog.ret_bind, Bool.not_true,
      Bool.false_eq_true, if_false]

/-! ## What leaves the file alone -/

/-- The calls that do not write the configuration file. -/
def Op.NoSave : Op → Prop
  | .configSave _ => False
  | _ => True

theorem Lib.Prog.Calls.noSave_of_noConfig {α : Type} {p : App α} (h : p.Calls Op.NoConfig) :
    p.Calls Op.NoSave := by
  refine h.mono fun e he => ?_
  cases e with
  | configSave => exact he
  | _ => trivial

theorem Lib.Prog.Calls.noSave {α : Type} {p : App α} (h : p.Calls Op.Quiet) : p.Calls Op.NoSave :=
  h.noConfig.noSave_of_noConfig

theorem sysRel_noSave {e : Op} {s s' : Sys} {r : Resp e} (he : e.NoSave) (h : sysRel e s r s') :
    s'.file = s.file := by
  rw [sysRel_file e s r s' h]
  cases e with
  | configSave => exact he.elim
  | _ => rfl

theorem calls_daemonStart_noSave (argv : List (List Char)) (self : Nat) :
    (daemonStart argv self).Calls Op.NoSave := by
  unfold daemonStart
  cases readyArgument argv with
  | none => exact calls_ret _
  | some readyFd =>
    refine calls_bind (calls_ask trivial) fun loaded => ?_
    cases loaded with
    | none => exact calls_bind (calls_signalReady readyFd 'E').noSave fun _ => calls_ret _
    | some config =>
      refine calls_bind (calls_proxyStart_noConfig self config readyFd).noSave_of_noConfig ?_
      intro started
      split
      · exact calls_ret _
      · exact calls_bind calls_fw_disable.noSave fun _ => calls_ret _

theorem calls_runChild_noSave (pid : Nat) : (runChild pid).Calls Op.NoSave := by
  refine calls_bind (calls_interrupt trivial (calls_daemonStart_noSave childArgv pid)) fun o => ?_
  match o with
  | some none =>
    refine calls_bind (calls_ask trivial) fun ready => ?_
    split
    · exact calls_ret _
    · refine calls_bind (calls_ask trivial) fun _ => ?_
      refine calls_bind (calls_interruptedExit pid).noSave fun _ => ?_
      exact calls_bind (calls_ask trivial) fun _ => calls_ret _
  | some (some code) =>
    exact calls_bind (calls_ask trivial) fun _ => calls_bind (calls_ask trivial) fun _ => calls_ret _
  | none =>
    exact calls_bind (calls_ask trivial) fun _ => calls_bind (calls_ask trivial) fun _ => calls_ret _

theorem calls_launch_noSave : launchDaemon.Calls Op.NoSave := by
  refine calls_bind (calls_ask trivial) fun _ => calls_bind (calls_ask trivial) fun _ => ?_
  refine calls_bind (calls_ask trivial) fun spawned => ?_
  cases spawned with
  | none => exact calls_ret _
  | some pid => exact calls_runChild_noSave pid

theorem calls_startDaemon_noSave (c : Config) : (fpStartDaemon c).Calls Op.NoSave := by
  refine calls_bind (calls_ask trivial) fun record => ?_
  cases record with
  | none =>
    refine calls_bind calls_stopUntracked.noSave fun stopped => ?_
    split
    · exact calls_ret _
    · exact calls_launch_noSave
  | some record =>
    refine calls_bind (calls_processIsOurs _ _).noSave fun ours => ?_
    split
    · exact calls_ret _
    refine calls_bind calls_stopDaemon.noSave fun stopped => ?_
    split
    · exact calls_ret _
    · exact calls_launch_noSave

theorem calls_activate_noSave (c : Config) : (activateProxyLocked c).Calls Op.NoSave := by
  refine calls_bind (calls_isActive c).noSave fun active => ?_
  split
  · exact calls_ret _
  refine calls_bind calls_stopIfRecorded.noSave fun stopped => ?_
  split
  · exact calls_ret _
  have hstarted : (Prog.all [fw fpFirewallDisable, fpStartDaemon c]).Calls Op.NoSave := by
    refine calls_all fun p hp => ?_
    rcases List.mem_pair.mp hp with rfl | rfl
    · exact calls_fw_disable.noSave
    · exact calls_startDaemon_noSave c
  refine calls_bind hstarted fun started => ?_
  split
  · exact calls_bind calls_fw_disable.noSave fun _ => calls_ret _
  · exact calls_ret _

/-- `activate_proxy_locked` leaves the configuration file alone, whatever fails in it. -/
theorem wp_activate_file (c : Config) (s : Sys) :
    wp sysRel (fun _ => True) (activateProxyLocked c) (fun _ s' => s'.file = s.file) s := by
  have hkeep : ∀ e t r t', Op.NoSave e → t.file = s.file → sysRel e t r t' → t'.file = s.file :=
    fun e t r t' he ht hr => (sysRel_noSave he hr).trans ht
  exact (wp_calls (calls_activate_noSave c) hkeep rfl).mono (fun _ _ => trivial) fun _ _ h => h

theorem wp_configSave_file (c : Config) (s : Sys) :
    wp sysRel (fun _ => True) (fpConfigSave c)
      (fun code s' => (code = 0 ∧ s' = { s with file := .saved c }) ∨ (code = -1 ∧ s' = s)) s := by
  have hprog : fpConfigSave c =
      (Op.ask (.configSave c)).bind fun saved => .ret (if saved then 0 else -1) := rfl
  rw [hprog, wp_bind, wp_ask]
  refine ⟨trivial, fun saved s₁ hsave => ⟨trivial, wp_ret.mpr ⟨trivial, ?_⟩⟩⟩
  obtain ⟨ch, hc⟩ := hsave
  by_cases hok : ch.ok = true
  · simp only [sys, hok, if_true, Prod.mk.injEq] at hc
    obtain ⟨rfl, rfl⟩ := hc
    exact .inl ⟨rfl, rfl⟩
  · simp only [sys, hok, if_false, Prod.mk.injEq, Bool.false_eq_true] at hc
    obtain ⟨rfl, rfl⟩ := hc
    exact .inr ⟨rfl, rfl⟩

/-! ## `fp_enable_proxy` -/

/-- What `fp_enable_proxy` returns, and what it has seen and ignored on its way. -/
structure EnableLog where
  result : Int
  /-- what `fp_config_load` has made of the file -/
  loaded : Option (Option Config)
  /-- the status of the save of the new configuration -/
  saved : Option Int
  /-- the ignored status of the save that brings the previous configuration back -/
  restored : Option Int

/-- `restoreConfig` with the status of its save. -/
def restoreConfigLog (previous : Option Config) (wasRunning : Bool) : App (Option Int) :=
  match previous with
  | none => pure none
  | some previous => do
    let restored ← fpConfigSave previous
    if wasRunning then do
      let _ ← activateProxyLocked previous
      pure (some restored)
    else pure (some restored)

/-- `enableConfig`, with its log. -/
def enableConfigLog (config : Config) (previous : Option Config) : App EnableLog := do
  let pid ← fpReadPid
  let saved ← fpConfigSave config
  if saved ≠ 0 then pure ⟨-1, some previous, some saved, none⟩ else do
  let result ← activateProxyLocked config
  if result = 0 then pure ⟨0, some previous, some saved, none⟩ else do
  let restored ← restoreConfigLog previous (decide (pid > 1))
  pure ⟨result, some previous, some saved, restored⟩

/-- `fp_enable_proxy`, with its log. -/
def fpEnableProxyLog (proxy : List Char) : App EnableLog := lockedAs ⟨-1, none, none, none⟩ do
  match fpParseProxy proxy .zero with
  | (0, config) => do
    match ← Op.ask .configLoad with
    | some previous => enableConfigLog (config.withBypassOf previous) (some previous)
    | none => enableConfigLog config none
  | _ => pure ⟨-1, none, none, none⟩

theorem restoreConfig_eq (previous : Option Config) (wasRunning : Bool) :
    restoreConfig previous wasRunning =
      (restoreConfigLog previous wasRunning).bind fun _ => .ret () := by
  cases previous with
  | none => rfl
  | some previous =>
    cases wasRunning with
    | false => simp [restoreConfig, restoreConfigLog, Prog.bind_assoc]
    | true => simp [restoreConfig, restoreConfigLog, Prog.bind_assoc]

theorem enableConfig_eq (config : Config) (previous : Option Config) :
    enableConfig config previous =
      (enableConfigLog config previous).bind fun log => .ret log.result := by
  simp only [enableConfig, enableConfigLog, restoreConfig_eq, Prog.bind_eq, Prog.pure_eq,
    Prog.bind_assoc]
  refine congrArg _ (funext fun pid => congrArg _ (funext fun saved => ?_))
  by_cases hsaved : saved = 0
  · simp only [hsaved, ne_eq, not_true_eq_false, if_false, Prog.bind_assoc]
    refine congrArg _ (funext fun result => ?_)
    by_cases hresult : result = 0
    · simp only [hresult, if_true, Prog.ret_bind]
    · simp only [hresult, if_false, Prog.bind_assoc, Prog.ret_bind]
  · simp only [hsaved, ne_eq, not_false_eq_true, if_true, Prog.ret_bind]

/-- The program with the log is `fp_enable_proxy`. -/
theorem fpEnableProxy_eq (proxy : List Char) :
    fpEnableProxy proxy = (fpEnableProxyLog proxy).bind fun log => .ret log.result := by
  unfold fpEnableProxyLog
  rw [← locked_bind _ _ EnableLog.result rfl]
  unfold fpEnableProxy
  refine congrArg locked ?_
  generalize fpParseProxy proxy .zero = parsed
  obtain ⟨(_ | code) | code, config⟩ := parsed
  · refine congrArg (Prog.call (E := Op) .configLoad) (funext fun loaded => ?_)
    cases loaded with
    | none => exact enableConfig_eq _ none
    | some previous => exact enableConfig_eq _ (some previous)
  · rfl
  · rfl

/-- After a failure: the file holds the previous configuration, if there is one to save. -/
theorem wp_restoreConfigLog (previous : Option Config) (wasRunning : Bool) (s : Sys) :
    wp sysRel (fun _ => True) (restoreConfigLog previous wasRunning)
      (fun restored s' => match previous with
        | none => restored = none ∧ s'.file = s.file
        | some previous => ∃ status, restored = some status ∧
            (status = 0 → s'.file = .saved previous)) s := by
  cases previous with
  | none => exact wp_ret.mpr ⟨trivial, rfl, rfl⟩
  | some previous =>
    refine wp_seq (wp_configSave_file previous s) (fun _ _ => trivial) fun status s₁ _ hsaved => ?_
    have hfile : status = 0 → s₁.file = .saved previous := by
      rintro rfl
      rcases hsaved with ⟨-, rfl⟩ | ⟨h, -⟩
      · rfl
      · simp at h
    cases wasRunning with
    | false => exact wp_ret.mpr ⟨trivial, status, rfl, hfile⟩
    | true =>
      refine wp_seq (wp_activate_file previous s₁) (fun _ _ => trivial) fun _ s₂ _ hs₂ => ?_
      exact wp_ret.mpr ⟨trivial, status, rfl, fun h0 => hs₂.trans (hfile h0)⟩

/-- What `fp_enable_proxy` has done to the file when it ends with this log. -/
structure EnableDone (config : Config) (previous : Option Config) (s : Sys) (log : EnableLog)
    (s' : Sys) : Prop where
  loaded : log.loaded = some previous
  success : log.result = 0 → s'.file = .saved config
  /-- a failing save leaves the file, a later failure the configuration that was restored -/
  failure : log.result ≠ 0 → (log.saved = some (-1) ∧ s'.file = s.file) ∨
    (log.saved = some 0 ∧ match previous with
      | none => s'.file = .saved config
      | some previous => ∃ status, log.restored = some status ∧
          (status = 0 → s'.file = .saved previous))

theorem wp_enableConfigLog (config : Config) (previous : Option Config) (s : Sys) :
    wp sysRel (fun _ => True) (enableConfigLog config previous) (EnableDone config previous s) s := by
  refine wp_seq wp_readPid (fun _ _ => trivial) fun pid s₁ hs₁ _ => ?_
  rw [hs₁]
  refine wp_seq (wp_configSave_file config s) (fun _ _ => trivial) fun saved s₁ _ hsaved => ?_
  rcases hsaved with ⟨rfl, rfl⟩ | ⟨rfl, rfl⟩
  swap
  · exact wp_ret.mpr ⟨trivial, rfl, by simp, fun _ => .inl ⟨rfl, rfl⟩⟩
  refine wp_seq (wp_activate_file config _) (fun _ _ => trivial) fun result s₁ _ hs₁ => ?_
  by_cases h0 : result = 0
  · rw [if_pos h0]
    exact wp_ret.mpr ⟨trivial, rfl, fun _ => hs₁, fun h => absurd rfl h⟩
  rw [if_neg h0]
  refine wp_seq (wp_restoreConfigLog previous _ s₁) (fun _ _ => trivial) fun restored s₂ _ hs₂ => ?_
  refine wp_ret.mpr ⟨trivial, rfl, fun h => absurd h h0, fun _ => .inr ⟨rfl, ?_⟩⟩
  cases previous with
  | none => exact hs₂.2.trans hs₁
  | some previous => exact hs₂

/-- The bypass list that `fp_config_load` finds. -/
def ConfigFile.bypass (file : ConfigFile) : List Bypass := (file.load.map Config.bypass).getD []

theorem fpParseProxy_zero_bypass {proxy : List Char} {config : Config}
    (h : fpParseProxy proxy .zero = (0, config)) : config.bypass = [] := by
  have hkept := fpParseProxy_bypass proxy .zero
  rw [h] at hkept
  exact hkept

/-- The configuration that `fp_enable_proxy` makes of what it has parsed and loaded. -/
def Config.withListOf (config : Config) : Option Config → Config
  | some previous => config.withBypassOf previous
  | none => config

theorem wp_enableProxyLog (proxy : List Char) (s : Sys) :
    wp sysRel (fun _ => True) (fpEnableProxyLog proxy)
      (fun log s' => (log.result = -1 ∧ s' = s) ∨ ∃ parsed previous,
        fpParseProxy proxy .zero = (0, parsed) ∧
        EnableDone (parsed.withListOf previous) previous s log s') s := by
  refine wp_lockedAs (fun _ _ _ _ h => h) trivial (.inl ⟨rfl, rfl⟩) ?_
  split
  swap
  · exact wp_ret.mpr ⟨trivial, .inl ⟨rfl, rfl⟩⟩
  rename_i parsed hparse
  refine wp_seq wp_configLoad (fun _ _ => trivial) fun loaded s₁ hs₁ _ => ?_
  rw [hs₁]
  cases loaded with
  | none =>
    exact (wp_enableConfigLog parsed none s).post fun _ _ _ h => .inr ⟨parsed, none, hparse, h⟩
  | some previous =>
    exact (wp_enableConfigLog (parsed.withBypassOf previous) (some previous) s).post
      fun _ _ _ h => .inr ⟨parsed, some previous, hparse, h⟩

/-- **`fp_enable_proxy` as a transaction on the configuration file.** On success the file holds the
new proxy and the list it held before. On failure `fp_config_load` finds what it found before; only
a file that it could not load, once the new configuration has been saved over it, is not brought
back, and the new proxy stays there without a list. -/
theorem enable_transaction (proxy : List Char) :
    (fpEnableProxy proxy = (fpEnableProxyLog proxy).bind fun log => .ret log.result) ∧
    ∀ s log s', Runs sysRel (fpEnableProxyLog proxy) s log s' →
      (∀ loaded, log.loaded = some loaded → loaded = s.file.load) →
      (∀ status, log.restored = some status → status = 0) →
      (log.result = 0 → ∃ parsed config, fpParseProxy proxy .zero = (0, parsed) ∧
        s'.file = .saved config ∧ config.proxyAddr = parsed.proxyAddr ∧
        config.proxyPort = parsed.proxyPort ∧ config.bypass = s.file.bypass) ∧
      (log.result ≠ 0 → s'.file.load = s.file.load ∨
        (s.file.load = none ∧ log.saved = some 0 ∧ ∃ config,
          fpParseProxy proxy .zero = (0, config) ∧ s'.file = .saved config ∧ config.bypass = [])) := by
  refine ⟨fpEnableProxy_eq proxy, fun s log s' hrun hload hrestored => ?_⟩
  rcases (wp_enableProxyLog proxy s).runs hrun with ⟨hresult, rfl⟩ | ⟨parsed, previous, hparse, hdone⟩
  · exact ⟨fun h => by simp [hresult] at h, fun _ => .inl rfl⟩
  have hprevious := hload previous hdone.loaded
  refine ⟨fun h0 => ⟨parsed, _, hparse, hdone.success h0, ?_⟩, fun h0 => ?_⟩
  · unfold ConfigFile.bypass
    rw [← hprevious]
    cases previous with
    | none => exact ⟨rfl, rfl, fpParseProxy_zero_bypass hparse⟩
    | some previous => exact ⟨rfl, rfl, rfl⟩
  · rcases hdone.failure h0 with ⟨-, hfile⟩ | ⟨hsaved, hfile⟩
    · exact .inl (by rw [hfile])
    cases previous with
    | none => exact .inr ⟨hprevious.symm, hsaved, parsed, hparse, hfile, fpParseProxy_zero_bypass hparse⟩
    | some previous =>
      obtain ⟨status, hstatus, hfile⟩ := hfile
      rw [hfile (hrestored status hstatus), ← hprevious]
      exact .inl rfl

/-- Every call succeeds but the fork of a daemon. -/
def noDaemon : List Choice := List.replicate 40 ⟨true, true, 0, 0⟩

/-- `192.0.2.9:1081` over `plainConfig`: no daemon can be started, and the file is what it was. -/
theorem enable_transaction_restored : ∃ log s',
    Runs sysRel (fpEnableProxyLog "192.0.2.9:1081".toList) idleSys log s' ∧ log.result = -1 ∧
    s'.file.load = some plainConfig := by
  have hruns : Runs sysRel (fpEnableProxyLog "192.0.2.9:1081".toList) idleSys
      ⟨-1, some (some plainConfig), some 0, some 0⟩
      (exec sys noDaemon (fpEnableProxyLog "192.0.2.9:1081".toList) idleSys).2 :=
    ⟨_, exec_steps noDaemon _ idleSys⟩
  refine ⟨_, _, hruns, rfl, ?_⟩
  have hload : ∀ loaded, some (some plainConfig) = some loaded → loaded = idleSys.file.load := by
    rintro loaded ⟨⟩
    rfl
  have hrestored : ∀ status : Int, some 0 = some status → status = 0 := by
    rintro status ⟨⟩
    rfl
  rcases ((enable_transaction _).2 _ _ _ hruns hload hrestored).2 (by decide) with h | ⟨h, -⟩
  · exact h
  · exact absurd h (by decide)

/-- **A first configuration stays behind**: there was no file, no daemon can be started, and
`fp_config_load` finds the configuration that could not be put into force. -/
theorem enable_keeps_new : ¬ ∀ proxy s log s', Runs sysRel (fpEnableProxyLog proxy) s log s' →
    (∀ loaded, log.loaded = some loaded → loaded = s.file.load) →
    (∀ status, log.restored = some status → status = 0) → log.result = -1 →
    s'.file.load = s.file.load := by
  intro h
  have hruns : Runs sysRel (fpEnableProxyLog "192.0.2.1:1080".toList)
      { idleSys with file := .absent } ⟨-1, some none, some 0, none⟩
      (exec sys noDaemon (fpEnableProxyLog "192.0.2.1:1080".toList)
        { idleSys with file := .absent }).2 :=
    ⟨_, exec_steps noDaemon _ _⟩
  have hload : ∀ loaded, some none = some loaded → loaded = (ConfigFile.absent).load := by
    rintro loaded ⟨⟩
    rfl
  have hsame := h _ _ _ _ hruns hload (by simp) rfl
  exact absurd hsame (by decide)

/-! ## `fp_set_bypass` -/

/-- What `fp_set_bypass` returns, and what it has seen and ignored on its way. -/
structure BypassLog where
  result : Int
  /-- `was_running` -/
  wasRunning : Option Bool
  /-- the ignored status of the save that brings the previous configuration back -/
  restoredFile : Option Int
  /-- the ignored status of the `fp_firewall_enable` that brings the previous rules back -/
  restoredRules : Option Int

/-- `updateConfig`, with its log. -/
def updateConfigLog (config previous : Config) : App BypassLog := do
  let pid ← fpReadPid
  let updated ← Prog.all [fpConfigSave config, updateRules (decide (pid > 1)) config]
  if updated = 0 then pure ⟨0, some (decide (pid > 1)), none, none⟩ else do
  let restoredFile ← fpConfigSave previous
  let restoredRules ← updateRules (decide (pid > 1)) previous
  pure ⟨-1, some (decide (pid > 1)), some restoredFile, some restoredRules⟩

/-- `fp_set_bypass`, with its log. -/
def fpSetBypassLog (bypassList : List Char) : App BypassLog := lockedAs ⟨-1, none, none, none⟩ do
  match ← Op.ask .configLoad with
  | none => pure ⟨-1, none, none, none⟩
  | some previous =>
    match fpParseBypassList bypassList previous with
    | (0, config) => updateConfigLog config previous
    | _ => pure ⟨-1, none, none, none⟩

theorem updateConfig_eq_log (config previous : Config) : updateConfig config previous =
    (updateConfigLog config previous).bind fun log => .ret log.result := by
  simp only [updateConfig, updateConfigLog, Prog.bind_eq, Prog.pure_eq, Prog.bind_assoc]
  refine congrArg _ (funext fun pid => congrArg _ (funext fun updated => ?_))
  by_cases h0 : updated = 0
  · simp only [h0, if_true, Prog.ret_bind]
  · simp only [h0, if_false, Prog.bind_assoc, Prog.ret_bind]

/-- The program with the log is `fp_set_bypass`. -/
theorem fpSetBypass_eq (bypassList : List Char) :
    fpSetBypass bypassList = (fpSetBypassLog bypassList).bind fun log => .ret log.result := by
  unfold fpSetBypassLog
  rw [← locked_bind _ _ BypassLog.result rfl]
  refine congrArg locked (congrArg (Prog.call (E := Op) .configLoad) (funext fun loaded => ?_))
  cases loaded with
  | none => rfl
  | some previous =>
    simp only [Prog.ret_bind]
    generalize fpParseBypassList bypassList previous = parsed
    obtain ⟨(_ | code) | code, config⟩ := parsed
    · exact updateConfig_eq_log config previous
    · rfl
    · rfl

/-- The chain decides for every destination as this configuration means. -/
def Table.Implements (usr : UserRules) (t : Table) (c : Config) : Prop :=
  ∃ l, t.chain = some l ∧ ∀ d, chainVerdict usr l d = c.policy d

theorem implements_rules {usr : UserRules} {t : Table} {c : Config} (h : t.chain = some c.rules) :
    t.Implements usr c := ⟨c.rules, h, chainVerdict_rules usr c⟩

/-- A rebuild of the rules, when the daemon runs: it may fail anywhere, and leaves the file alone. -/
theorem wp_updateRules (wasRunning : Bool) (c : Config) (s : Sys) :
    wp sysRel (fun _ => True) (updateRules wasRunning c)
      (fun code s' => s'.file = s.file ∧
        (wasRunning = true → code = 0 → s'.table.chain = some c.rules)) s := by
  cases wasRunning with
  | false => exact wp_ret.mpr ⟨trivial, rfl, by simp⟩
  | true =>
    refine (wp_fw (wp_enable_ipt c s.table)).mono (fun _ _ => trivial) ?_
    rintro code s' ⟨henabled, hput⟩
    refine ⟨by rw [hput], fun _ h0 => ?_⟩
    rcases henabled with ⟨-, hen⟩ | h
    · exact hen.chain
    · rw [h0] at h
      simp at h

/-- What `fp_set_bypass` has done to the file and to the chain when it ends with this log. -/
structure BypassDone (config previous : Config) (log : BypassLog) (s' : Sys) : Prop where
  success : log.result = 0 → s'.file = .saved config ∧
    (log.wasRunning = some true → s'.table.chain = some config.rules)
  failure : log.result ≠ 0 → ∃ savedStatus rulesStatus, log.restoredFile = some savedStatus ∧
    log.restoredRules = some rulesStatus ∧ (savedStatus = 0 → s'.file = .saved previous) ∧
    (log.wasRunning = some true → rulesStatus = 0 → s'.table.chain = some previous.rules)
  running : log.wasRunning ≠ none

theorem wp_updateConfigLog (config previous : Config) (s : Sys) :
    wp sysRel (fun _ => True) (updateConfigLog config previous)
      (fun log s' => BypassDone config previous log s') s := by
  refine wp_after fun pid s₁ => ?_
  have hupdate : wp sysRel (fun _ => True)
      (Prog.all [fpConfigSave config, updateRules (decide (pid > 1)) config])
      (fun updated s' => updated = 0 → s'.file = .saved config ∧
        (decide (pid > 1) = true → s'.table.chain = some config.rules)) s₁ := by
    refine wp_seq (wp_configSave_file config s₁) (fun _ _ => trivial) fun saved s₂ _ hsaved => ?_
    rcases hsaved with ⟨rfl, rfl⟩ | ⟨rfl, rfl⟩
    swap
    · exact wp_ret.mpr ⟨trivial, by simp⟩
    rw [if_pos rfl]
    refine wp_seq (wp_updateRules _ config _) (fun _ _ => trivial) ?_
    rintro code s₃ - ⟨hfile, hchain⟩
    by_cases h0 : code = 0
    · rw [if_pos h0]
      exact wp_ret.mpr ⟨trivial, fun _ => ⟨hfile, fun hrunning => hchain hrunning h0⟩⟩
    · rw [if_neg h0]
      exact wp_ret.mpr ⟨trivial, by simp⟩
  refine wp_seq hupdate (fun _ _ => trivial) fun updated s₂ _ hdone => ?_
  by_cases h0 : updated = 0
  · rw [if_pos h0]
    refine wp_ret.mpr ⟨trivial, fun _ => ?_, fun h => absurd rfl h, by simp⟩
    obtain ⟨hfile, hchain⟩ := hdone h0
    exact ⟨hfile, fun hrunning => hchain (Option.some.inj hrunning)⟩
  rw [if_neg h0]
  -- whatever the first rebuild has left, the second one starts from there
  refine wp_seq (wp_configSave_file previous s₂) (fun _ _ => trivial) fun saved s₃ _ hsaved => ?_
  refine wp_seq (wp_updateRules _ previous s₃) (fun _ _ => trivial) ?_
  rintro rules s₄ - ⟨hfile, hchain⟩
  refine wp_ret.mpr ⟨trivial, by simp, fun _ => ⟨saved, rules, rfl, rfl, ?_, ?_⟩, by simp⟩
  · rintro rfl
    rcases hsaved with ⟨-, rfl⟩ | ⟨h, -⟩
    · exact hfile
    · simp at h
  · exact fun hrunning h => hchain (Option.some.inj hrunning) h

/-- A run of `fp_set_bypass` ends before it has changed anything, or with `BypassDone`. -/
theorem wp_setBypassLog (bypassList : List Char) {previous : Config} {s : Sys}
    (hs : s.file.load = some previous) :
    wp sysRel (fun _ => True) (fpSetBypassLog bypassList)
      (fun log s' => (log.result = -1 ∧ s' = s) ∨ ∃ config,
        fpParseBypassList bypassList previous = (0, config) ∧
        BypassDone config previous log s') s := by
  refine wp_lockedAs (fun _ _ _ _ h => h) trivial (.inl ⟨rfl, rfl⟩) ?_
  refine wp_seq wp_configLoad (fun _ _ => trivial) fun loaded s₁ hs₁ hload => ?_
  rw [hs₁]
  cases loaded with
  | none => exact wp_ret.mpr ⟨trivial, .inl ⟨rfl, rfl⟩⟩
  | some loaded =>
    obtain rfl : previous = loaded := Option.some.inj (hs.symm.trans (hload loaded rfl))
    simp only
    split
    swap
    · exact wp_ret.mpr ⟨trivial, .inl ⟨rfl, rfl⟩⟩
    rename_i config hparse
    exact (wp_updateConfigLog config previous s).post fun _ _ _ h => .inr ⟨config, hparse, h⟩

/-- **`fp_set_bypass` as a transaction on the file and the chain.** `running` is whether the daemon
was running, which the pid record has shown. -/
theorem setBypass_transaction (usr : UserRules) (bypassList : List Char) :
    (fpSetBypass bypassList = (fpSetBypassLog bypassList).bind fun log => .ret log.result) ∧
    ∀ (running : Prop) previous s log s', s.file = .saved previous →
      (running → s.table.Implements usr previous) →
      Runs sysRel (fpSetBypassLog bypassList) s log s' →
      (∀ seen, log.wasRunning = some seen → (seen = true ↔ running)) →
      (∀ status, log.restoredFile = some status → status = 0) →
      (∀ status, log.restoredRules = some status → status = 0) →
      (log.result = 0 → ∃ config, fpParseBypassList bypassList previous = (0, config) ∧
        s'.file = .saved config ∧ config.proxyAddr = previous.proxyAddr ∧
        config.proxyPort = previous.proxyPort ∧ (running → s'.table.Implements usr config)) ∧
      (log.result ≠ 0 → s'.file.load = some previous ∧
        (running → s'.table.Implements usr previous)) ∧
      ((fpParseBypassList bypassList previous).1 ≠ 0 → s'.file = s.file ∧ s'.table = s.table) := by
  refine ⟨fpSetBypass_eq bypassList, ?_⟩
  intro running previous s log s' hfile himplements hrun hseen hrestoredFile hrestoredRules
  have hload : s.file.load = some previous := by rw [hfile]; rfl
  rcases (wp_setBypassLog bypassList hload).runs hrun with ⟨hresult, rfl⟩ | ⟨config, hparse, hdone⟩
  · exact ⟨fun h => by simp [hresult] at h, fun _ => ⟨hload, himplements⟩, fun _ => ⟨rfl, rfl⟩⟩
  have hrunning : running → log.wasRunning = some true := by
    intro h
    obtain ⟨seen, hlog⟩ := Option.ne_none_iff_exists'.mp hdone.running
    rw [hlog, (hseen seen hlog).mpr h]
  have hproxy := fpParseBypassList_proxy bypassList previous
  rw [hparse] at hproxy ⊢
  refine ⟨fun h0 => ?_, fun h0 => ?_, fun h => absurd rfl h⟩
  · obtain ⟨hsaved, hchain⟩ := hdone.success h0
    exact ⟨config, rfl, hsaved, hproxy.1, hproxy.2, fun h => implements_rules (hchain (hrunning h))⟩
  · obtain ⟨savedStatus, rulesStatus, hsaved, hrules, hfile', hchain⟩ := hdone.failure h0
    refine ⟨by rw [hfile' (hrestoredFile _ hsaved)]; rfl, fun h => ?_⟩
    exact implements_rules (hchain (hrunning h) (hrestoredRules _ hrules))

/-- The append of the second rule fails, and the rest succeeds. -/
def secondAppendFails : List Choice :=
  List.replicate 7 ⟨true, true, 0, 0⟩ ++ ⟨false, true, 0, 0⟩ :: List.replicate 30 ⟨true, true, 0, 0⟩

/-- The list of a serving daemon is to be cleared; the rebuild fails, removes the chain, and the old
rules are built again. -/
theorem setBypass_transaction_rebuilt : ∃ log s',
    Runs sysRel (fpSetBypassLog []) (servingSys (.saved wideConfig)) log s' ∧ log.result = -1 ∧
    s'.file.load = some wideConfig ∧ s'.table.Implements (fun _ _ => none) wideConfig := by
  have hruns : Runs sysRel (fpSetBypassLog []) (servingSys (.saved wideConfig))
      ⟨-1, some true, some 0, some 0⟩
      (exec sys secondAppendFails (fpSetBypassLog []) (servingSys (.saved wideConfig))).2 :=
    ⟨_, exec_steps secondAppendFails _ _⟩
  have hseen : ∀ seen, some true = some seen → (seen = true ↔ True) := by
    rintro seen ⟨⟩
    simp
  have hrestored : ∀ status : Int, some 0 = some status → status = 0 := by
    rintro status ⟨⟩
    rfl
  have himplements : (servingSys (.saved wideConfig)).table.Implements (fun _ _ => none) wideConfig :=
    implements_rules rfl
  have hkept := ((setBypass_transaction (fun _ _ => none) []).2 True _ _ _ _ rfl
    (fun _ => himplements) hruns hseen hrestored hrestored).2.1 (by decide)
  exact ⟨_, _, hruns, rfl, hkept.1, hkept.2 trivial⟩

end FreeProxy
