import FreeProxy.System.BlackHole
import FreeProxy.System.Crew

/-!
# The daemon's own upstream

The workers of a daemon connect to the proxy it was started with, so `OUTPUT` must never redirect that address, from
the moment at which the daemon reads its configuration until its process is gone. Three things have to agree for it:
the configuration on disk, the one the daemon was started with, and the one the chain was built from.

* `Crew.careful` is the condition: two rebuilds of the chain do not mix, and what the chain is built from leaves
  alone the proxies of the daemons. `fp_set_bypass` builds it from the file, whatever the daemons were started with.
* What a process appends depends on its own calls only (`Alone`): they are the rules of the configuration that it
  had when it reset the chain (`Own.Sound`). `CrewInv` puts the processes together.

Out of scope: the packets themselves, and whether the proxy answers.

Headline: **`upstream_spared`**, in every run that keeps to the condition no reachable state redirects the proxy of a
living daemon.
-/

namespace FreeProxy

open Lib

/-! ## The condition -/

namespace Crew

/-- `c` leaves the proxy of every living daemon alone. -/
def Agrees (s : Crew) (c : Config) : Prop :=
  ∀ t ∈ s.tasks, t.daemon = true → ∀ c', t.own.config = some c' → c.Direct c'.proxyAddr

/-- `OUTPUT` jumps to the chain. -/
def Jumps (s : Crew) : Prop := .jump ∈ s.sys.table.output

/-- The process `t` makes the call `ev`. -/
structure CarefulCall (s : Crew) (t : Task) (ev : Event) : Prop where
  /-- rules are appended by the process that has reset the chain last -/
  orderly : appendsRule ev = true → s.owner = some t.pid
  /-- rules that take effect are those of a configuration that leaves the daemons' proxies alone -/
  agrees : appendsRule ev = true ∧ s.Jumps ∨ insertsJump ev = true → ∀ c, s.maker = some c → s.Agrees c
  /-- a daemon takes no configuration with a proxy that the rules in effect do not leave alone -/
  loads : t.daemon = true → s.Jumps → ∀ c b, configOf ev = some c → s.maker = some b → b.Direct c.proxyAddr

/-- **The condition.** -/
def careful (s : Crew) : CrewEvent → Prop
  | .step t ev => s.CarefulCall t ev
  | _ => True

end Crew

/-! ## One process alone -/

/-- The chain is absent, empty, or a prefix of the rules of `maker`. -/
def BuiltFrom (chain : Option (List Rule)) (maker : Option Config) : Prop :=
  ∀ l, chain = some l → l = [] ∨ ∃ c, maker = some c ∧ l <+: c.rules

/-- What a process has made of the chain comes from the configuration it had when it reset it. -/
def Own.Sound (own : Own) : Prop := BuiltFrom own.rules own.maker

/-- The process has the configuration `c`. -/
def Own.Building (c : Config) (own : Own) : Prop := own.Sound ∧ own.config = some c

/-- The calls of one process, by what it knows of them; any answer may come. -/
def Alone : Rel Op Resp Own := fun e own r own' => own' = own.after ⟨e, r⟩

/-- The same for the commands of a firewall program. -/
def AloneIpt : Rel Cmd (fun _ => Bool) Own := fun e own r own' => own' = own.after ⟨.ipt e, r⟩

theorem chainEffect_reset {ev : Event} (h : resetsChain ev = true) (l : Option (List Rule)) :
    chainEffect l ev = some [] ∨ chainEffect l ev = none := by
  obtain ⟨e, r⟩ := ev
  cases e with
  | ipt e =>
    cases e with
    | newChain | flushChain =>
      obtain rfl : r = true := h
      exact .inl rfl
    | deleteChain =>
      obtain rfl : r = true := h
      exact .inr rfl
    | _ => simp [resetsChain] at h
  | _ => simp [resetsChain] at h

theorem builtFrom_reset {ev : Event} (h : resetsChain ev = true) (l : Option (List Rule))
    (maker : Option Config) : BuiltFrom (chainEffect l ev) maker := by
  intro l' hl'
  rcases chainEffect_reset h l with hc | hc
  · rw [hc] at hl'
    exact .inl (Option.some.inj hl').symm
  · simp [hc] at hl'

/-- Without an append the chain is reset, or stays. -/
theorem BuiltFrom.after {chain : Option (List Rule)} {maker config : Option Config} {ev : Event}
    (h : BuiltFrom chain maker) (ha : appendsRule ev = false) :
    BuiltFrom (chainEffect chain ev) (if resetsChain ev then config else maker) := by
  cases hr : resetsChain ev with
  | true => exact builtFrom_reset hr chain _
  | false =>
    rw [chainEffect_quiet ev chain hr ha]
    exact h

theorem sound_fresh : Own.fresh.Sound := fun _ h => by simp [Own.fresh] at h

/-- The calls that append no rule. -/
def Op.NoRule (e : Op) : Prop := ∀ r : Resp e, appendsRule ⟨e, r⟩ = false

/-- The calls that append no rule and neither read nor write the configuration. -/
def Op.Plain (e : Op) : Prop := ∀ r : Resp e, appendsRule ⟨e, r⟩ = false ∧ configOf ⟨e, r⟩ = none

theorem noRule_harmless {e : Op} (h : e.Harmless) : e.NoRule := by
  intro r
  cases e with
  | ipt e =>
    cases e with
    | rule op spec =>
      cases op with
      | append => exact h.elim
      | check => rfl
    | _ => rfl
  | _ => rfl

theorem plain_removes {e : Cmd} (h : e.Removes) : (Op.ipt e).Plain :=
  fun r => ⟨noRule_harmless (e := .ipt e) h r, rfl⟩

theorem plain_quiet {e : Op} (h : e.Quiet) : e.Plain := by
  intro r
  refine ⟨noRule_harmless (quiet_harmless h) r, ?_⟩
  cases e with
  | configLoad | configSave => exact h.elim
  | _ => rfl

section Alone

variable {α : Type} {c : Config} {own : Own}

theorem sound_after {ev : Event} (h : own.Sound) (ha : appendsRule ev = false) : (own.after ev).Sound :=
  BuiltFrom.after h ha

theorem keeps_sound {p : App α} (hp : p.Calls Op.NoRule) : Keeps Alone Own.Sound p := by
  intro own h
  refine wp_calls hp ?_ h
  rintro e own r _ he h rfl
  exact sound_after h (he r)

theorem building_after {ev : Event} (h : own.Building c) (ha : appendsRule ev = false)
    (hc : configOf ev = none) : (own.after ev).Building c := by
  refine ⟨sound_after h.1 ha, ?_⟩
  simp only [Own.after, hc, Option.none_or]
  exact h.2

theorem keeps_building {p : App α} (hp : p.Calls Op.Plain) : Keeps Alone (Own.Building c) p := by
  intro own h
  refine wp_calls hp ?_ h
  rintro e own r _ he h rfl
  exact building_after h (he r).1 (he r).2

/-- What keeps `Building c` keeps `Sound`, where it begins with `c`. -/
theorem Lib.Keeps.sound {p : App α} (hp : Keeps Alone (Own.Building c) p) (h : own.Building c) :
    wp Alone Own.Sound p (fun _ => Own.Sound) own :=
  (hp own h).mono (fun _ h => h.1) fun _ _ h => h.1

theorem sound_append {l : List Rule} {spec : RuleSpec} {r : Rule} (h : own.Building c)
    (hparse : spec.parse = some r) (hl : l ++ [r] <+: c.rules) (hmaker : own.maker = some c)
    (hrules : own.rules = some l) :
    (own.after ⟨.ipt (.rule .append spec), true⟩).Building c ∧
      (own.after ⟨.ipt (.rule .append spec), true⟩).rules = some (l ++ [r]) := by
  have hrules' : (own.after ⟨.ipt (.rule .append spec), true⟩).rules = some (l ++ [r]) := by
    simp [Own.after, chainEffect, Cmd.chainEffect, hrules, hparse]
  refine ⟨⟨fun l' hl' => .inr ⟨c, hmaker, ?_⟩, h.2⟩, hrules'⟩
  rwa [← Option.some.inj (hrules'.symm.trans hl')]

theorem calls_ensureChain_plain : ensureChain.Calls fun e => (Op.ipt e).Plain := by
  refine ⟨plain_removes trivial, fun present => ?_⟩
  cases present with
  | true => exact calls_ret _
  | false => exact calls_runIptables fun _ => ⟨rfl, rfl⟩

theorem calls_ensureJump_plain : ensureJump.Calls fun e => (Op.ipt e).Plain := by
  refine ⟨plain_removes trivial, fun present => ?_⟩
  cases present with
  | true => exact calls_ret _
  | false => exact calls_runIptables fun _ => ⟨rfl, rfl⟩

/-- **`fp_firewall_enable(c)` appends the rules of `c`** to a chain that it has flushed itself. -/
theorem wp_enable_alone (h : own.Building c) :
    wp AloneIpt (Own.Building c) (fpFirewallEnable c) (fun code _ => code = 0 → True) own := by
  have hplain : ∀ (e : Cmd) own r own', (Op.ipt e).Plain → own.Building c → AloneIpt e own r own' →
      own'.Building c := by
    rintro e own r _ he h rfl
    exact building_after h (he r).1 (he r).2
  refine wp_enable_success c (A := Own.Building c)
    (P := fun l own => own.maker = some c ∧ own.rules = some l) ?_ ?_ ?_ ?_ ?_
  · exact wp_calls calls_ensureChain_plain hplain h
  · exact fun e own r own' he => hplain e own r own' (plain_removes he)
  · rintro own _ h rfl
    exact ⟨h.2, rfl⟩
  · rintro l spec r a own _ hparse hl h ⟨hmaker, hrules⟩ rfl
    cases a with
    | true =>
      obtain ⟨hbuilding, hrules'⟩ := sound_append h hparse hl hmaker hrules
      exact ⟨hbuilding, fun _ => ⟨hmaker, hrules'⟩⟩
    | false => exact ⟨h, by simp⟩
  · intro own h _
    exact (wp_calls calls_ensureJump_plain hplain h).post fun _ _ _ _ _ => trivial

theorem keeps_enable (c : Config) : Keeps Alone (Own.Building c) (fw (fpFirewallEnable c)) := by
  let whole : Lens Own Own := ⟨id, fun _ own => own, fun _ _ => rfl, fun _ => rfl, fun _ _ _ => rfl⟩
  have hembeds : Embeds Op.ipt AloneIpt Alone whole := fun e own r own' hr => ⟨hr, rfl⟩
  intro own h
  refine ((wp_hoist hembeds (wp_enable_alone h)).mono (fun _ h => h.1) fun _ _ _ => trivial).post ?_
  exact fun _ _ h _ => h

end Alone

/-! ## The programs -/

section Programs

variable {own : Own}

theorem sound_ret {α : Type} (a : α) (h : own.Sound) :
    wp Alone Own.Sound (.ret a : App α) (fun _ => Own.Sound) own := wp_ret.mpr ⟨h, h⟩

theorem keeps_proxyRun (self : Nat) (c : Config) (readyFd : Int) :
    Keeps Alone (Own.Building c) (fpProxyRun self c readyFd) := by
  have hready : ∀ value, Keeps Alone (Own.Building c) (signalReady readyFd value) := fun value =>
    keeps_building ((calls_signalReady readyFd value).mono fun _ => plain_quiet)
  have hinstall : Keeps Alone (Own.Building c) (fpProxyInstall self c) := by
    refine keeps_bind (keeps_building (calls_ask (plain_quiet trivial))) fun created => ?_
    split
    · exact keeps_ret _
    refine keeps_bind (keeps_building (calls_ask (plain_quiet trivial))) fun written => ?_
    split
    · exact keeps_ret _
    · exact keeps_bind (keeps_enable c) fun _ => keeps_ret _
  have hstart : Keeps Alone (Own.Building c) (fpProxyStart self c readyFd) := by
    rw [fpProxyStart_eq]
    refine keeps_bind (keeps_building (calls_ask fun _ => ⟨rfl, rfl⟩)) fun bound => ?_
    split
    swap
    · exact keeps_bind (hready 'E') fun _ => keeps_ret _
    refine keeps_bind hinstall fun installed => ?_
    split
    · exact keeps_bind (hready 'R') fun _ => keeps_ret _
    · refine keeps_bind (keeps_building ?_) fun _ => keeps_ret _
      exact (calls_abandonStart self installed.1 readyFd).mono fun _ => plain_quiet
  refine keeps_bind hstart fun started => ?_
  split
  · exact keeps_ret _
  refine keeps_bind (keeps_building (calls_ask (plain_quiet trivial))) fun stopped => ?_
  refine keeps_bind (keeps_building ?_) fun _ => keeps_ret _
  exact (calls_proxyStop self).mono fun _ => plain_quiet

/-- **A daemon** builds the chain from the configuration that it has loaded. -/
theorem sound_daemonProgram (argv : List (List Char)) (pid : Nat) :
    Keeps Alone Own.Sound (daemonProgram argv pid) := by
  have hmain : Keeps Alone Own.Sound (mainRun argv pid) := by
    unfold mainRun
    cases readyArgument argv with
    | none => exact keeps_ret _
    | some readyFd =>
      intro own h
      refine wp_bind.mpr (wp_ask.mpr ⟨h, fun loaded own' hload => ?_⟩)
      obtain rfl : own' = own.after ⟨.configLoad, loaded⟩ := hload
      have h' : (own.after ⟨.configLoad, loaded⟩).Sound := sound_after h rfl
      refine ⟨h', ?_⟩
      cases loaded with
      | none =>
        refine keeps_bind (keeps_sound ?_) (fun _ => keeps_ret _) _ h'
        exact (calls_signalReady readyFd 'E').mono fun _ he => noRule_harmless (quiet_harmless he)
      | some config =>
        refine Keeps.sound (keeps_bind (keeps_proxyRun pid config readyFd) fun _ => ?_) ⟨h', rfl⟩
        refine keeps_bind (keeps_building ?_) fun _ => keeps_ret _
        exact calls_fw_disable.mono fun _ => plain_quiet
  exact keeps_bind hmain fun _ =>
    keeps_bind (keeps_sound (calls_ask (noRule_harmless trivial))) fun _ => keeps_ret _

theorem wp_configSave_alone (c : Config) (h : own.Sound) :
    wp Alone Own.Sound (fpConfigSave c) (fun _ => Own.Building c) own := by
  refine wp_bind.mpr (wp_ask.mpr ⟨h, fun saved own' hsave => ?_⟩)
  obtain rfl : own' = own.after ⟨.configSave c, saved⟩ := hsave
  have h' : (own.after ⟨.configSave c, saved⟩).Sound := sound_after h rfl
  exact ⟨h', wp_ret.mpr ⟨h', h', rfl⟩⟩

theorem wp_updateRules_alone {c : Config} (wasRunning : Bool) (h : own.Building c) :
    wp Alone Own.Sound (updateRules wasRunning c) (fun _ => Own.Sound) own := by
  cases wasRunning with
  | true => exact (keeps_enable c).sound h
  | false => exact sound_ret 0 h.1

/-- **`fp_set_bypass`** builds the chain from the configuration that it has just tried to save. -/
theorem sound_setBypass (bypassList : List Char) : Keeps Alone Own.Sound (fpSetBypass bypassList) := by
  have hask : ∀ {e : Op}, e.Harmless → Keeps Alone Own.Sound (Op.ask e) := fun he =>
    keeps_sound (calls_ask (noRule_harmless he))
  have hupdate : ∀ config previous, Keeps Alone Own.Sound (updateConfig config previous) := by
    intro config previous
    rw [updateConfig_eq]
    refine keeps_bind (keeps_sound ?_) fun pid => ?_
    · exact calls_readPid.mono fun _ he => noRule_harmless (quiet_harmless he)
    have hall : Keeps Alone Own.Sound
        (Prog.all [fpConfigSave config, updateRules (decide (pid > 1)) config]) := by
      intro own h
      refine wp_seq (wp_configSave_alone config h) (fun _ h => h) fun saved own h hbuilding => ?_
      split
      swap
      · exact sound_ret _ h
      refine wp_seq (wp_updateRules_alone _ hbuilding) (fun _ h => h) fun updated own h _ => ?_
      split
      all_goals exact sound_ret _ h
    refine keeps_bind hall fun updated => ?_
    split
    · exact keeps_ret _
    intro own h
    refine wp_seq (wp_configSave_alone previous h) (fun _ h => h) fun _ own _ hbuilding => ?_
    exact wp_seq (wp_updateRules_alone _ hbuilding) (fun _ h => h) fun _ _ h _ => sound_ret _ h
  refine keeps_bind (hask trivial) fun acquired => ?_
  split
  · exact keeps_ret _
  refine keeps_bind ?_ fun result => keeps_bind (hask trivial) fun _ => keeps_ret _
  refine keeps_bind (hask trivial) fun loaded => ?_
  cases loaded with
  | none => exact keeps_ret _
  | some previous =>
    simp only
    split
    · exact hupdate _ previous
    · exact keeps_ret _

end Programs

/-! ## Operations that wait beside the daemon -/

theorem calls_awaitChild (pid : Nat) : (Waits.awaitChild pid).Calls Op.Quiet := by
  refine calls_bind (calls_ask trivial) fun ready => ?_
  split
  · exact calls_ret _
  refine calls_bind (calls_ask trivial) fun _ => ⟨trivial, fun gone => ?_, fun _ => calls_ret _⟩
  exact calls_ret _

theorem calls_launchBeside : Waits.beside.launchDaemon.Calls Op.Quiet := by
  refine calls_bind (calls_ask trivial) fun _ => calls_bind (calls_ask trivial) fun _ => ?_
  refine calls_bind (calls_ask trivial) fun spawned => ?_
  cases spawned with
  | none => exact calls_ret _
  | some pid => exact calls_awaitChild pid

theorem calls_activateBeside (c : Config) : (Waits.beside.activateProxyLocked c).Calls Op.Quiet := by
  have hexits : ∀ pid, (Waits.beside.exits pid).Calls Op.Quiet := fun _ => calls_ret _
  have hstart : (Waits.beside.fpStartDaemon c).Calls Op.Quiet := by
    refine calls_bind (calls_ask trivial) fun record => ?_
    cases record with
    | none =>
      refine calls_bind (Waits.calls_stopUntracked hexits) fun stopped => ?_
      split
      · exact calls_ret _
      · exact calls_launchBeside
    | some record =>
      refine calls_bind (calls_processIsOurs _ _) fun ours => ?_
      split
      · exact calls_ret _
      refine calls_bind (Waits.calls_stopDaemon hexits) fun stopped => ?_
      split
      · exact calls_ret _
      · exact calls_launchBeside
  refine calls_bind (calls_isActive c) fun active => ?_
  split
  · exact calls_ret _
  have hstop : Waits.beside.stopIfRecorded.Calls Op.Quiet := by
    refine calls_bind calls_readPid fun pid => ?_
    split
    · exact Waits.calls_stopDaemon hexits
    · exact calls_ret _
  refine calls_bind hstop fun stopped => ?_
  split
  · exact calls_ret _
  refine calls_bind (calls_all fun p hp => ?_) fun started => ?_
  · rcases List.mem_pair.mp hp with rfl | rfl
    · exact calls_fw_disable
    · exact hstart
  · split
    · exact calls_bind calls_fw_disable fun _ => calls_ret _
    · exact calls_ret _

theorem calls_configSave (c : Config) : (fpConfigSave c).Calls Op.Harmless :=
  calls_bind (calls_ask trivial) fun _ => calls_ret _

theorem calls_enableProxy (proxy : List Char) : (Waits.beside.fpEnableProxy proxy).Calls Op.Harmless := by
  have henable : ∀ config previous, (Waits.beside.enableConfig config previous).Calls Op.Harmless := by
    intro config previous
    refine calls_bind calls_readPid.harmless fun pid => ?_
    refine calls_bind (calls_configSave config) fun saved => ?_
    split
    · exact calls_ret _
    refine calls_bind (calls_activateBeside config).harmless fun result => ?_
    split
    · exact calls_ret _
    refine calls_bind ?_ fun _ => calls_ret _
    cases previous with
    | none => exact calls_ret _
    | some previous =>
      refine calls_bind (calls_configSave previous) fun _ => ?_
      split
      · exact calls_bind (calls_activateBeside previous).harmless fun _ => calls_ret _
      · exact calls_ret _
  refine calls_locked trivial trivial ?_
  split
  swap
  · exact calls_ret _
  refine calls_bind (calls_ask trivial) fun loaded => ?_
  cases loaded with
  | none => exact henable _ none
  | some previous => exact henable _ (some previous)

theorem calls_enableSaved : Waits.beside.fpEnableSavedProxy.Calls Op.Harmless := by
  refine calls_locked trivial trivial (calls_bind (calls_ask trivial) fun loaded => ?_)
  cases loaded with
  | none => exact calls_ret _
  | some config => exact (calls_activateBeside config).harmless

theorem calls_disableBeside : Waits.beside.fpDisableProxy.Calls Op.Quiet := by
  refine calls_locked trivial trivial ?_
  refine calls_bind (Waits.calls_stopDaemon fun _ => calls_ret _) fun daemonResult => ?_
  exact calls_bind calls_fw_disable fun _ => calls_ret _

/-- **Every operation** appends the rules of the configuration that it has. -/
theorem sound_operation (operation : Operation) : Keeps Alone Own.Sound operation.program := by
  have hharmless : ∀ {p : App Int}, p.Calls Op.Harmless → Keeps Alone Own.Sound p := fun hp =>
    keeps_sound (hp.mono fun _ => noRule_harmless)
  cases operation with
  | enableProxy proxy => exact hharmless (calls_enableProxy proxy)
  | enableSavedProxy => exact hharmless calls_enableSaved
  | setBypass bypassList => exact sound_setBypass bypassList
  | disableProxy => exact hharmless calls_disableBeside.harmless

/-! ## All processes -/

/-- **The invariant.** -/
structure CrewInv (s : Crew) : Prop where
  distinct : (s.tasks.map Task.pid).Nodup
  /-- the rules in effect are those of a configuration that leaves the daemons' proxies alone -/
  spared : ∀ t ∈ s.tasks, t.daemon = true → ∀ c, t.own.config = some c → s.Jumps →
    ∀ l, s.sys.table.chain = some l → ∃ b : Config, l <+: b.rules ∧ b.Direct c.proxyAddr
  /-- nobody else has touched the chain since its owner reset it -/
  owned : ∀ t ∈ s.tasks, s.owner = some t.pid → s.sys.table.chain = t.own.rules ∧ s.maker = t.own.maker
  made : BuiltFrom s.sys.table.chain s.maker
  sound : ∀ t ∈ s.tasks, wp Alone Own.Sound t.program (fun _ _ => True) t.own

section Crew

variable {s : Crew} {t : Task}

theorem CrewInv.perm {tasks : List Task} (h : CrewInv s) (hp : s.tasks.Perm tasks) :
    CrewInv { s with tasks := tasks } where
  distinct := (hp.map Task.pid).nodup_iff.mp h.distinct
  spared t ht := h.spared t (hp.mem_iff.mpr ht)
  owned t ht := h.owned t (hp.mem_iff.mpr ht)
  made := h.made
  sound t ht := h.sound t (hp.mem_iff.mpr ht)

/-- Processes go, and the table stays. -/
theorem CrewInv.fewer {tasks : List Task} {sys : Sys} (h : CrewInv s) (ht : tasks.Sublist s.tasks)
    (hsys : sys.table = s.sys.table) : CrewInv { s with sys := sys, tasks := tasks } where
  distinct := h.distinct.sublist (ht.map Task.pid)
  spared t hm hd c hc hj l hl := by
    simp only [Crew.Jumps, hsys] at hj hl
    exact h.spared t (ht.subset hm) hd c hc hj l hl
  owned t hm howner := by
    rw [hsys]
    exact h.owned t (ht.subset hm) howner
  made := by
    rw [hsys]
    exact h.made
  sound t hm := h.sound t (ht.subset hm)

/-- A process begins. -/
theorem CrewInv.join (h : CrewInv s) (hfresh : ∀ t' ∈ s.tasks, t'.pid ≠ t.pid) (hown : t.own = .fresh)
    (hsound : Keeps Alone Own.Sound t.program) : CrewInv (s.join t) where
  distinct := by
    refine List.nodup_cons.mpr ⟨fun hm => ?_, h.distinct⟩
    obtain ⟨t', ht', hpid⟩ := List.mem_map.mp hm
    exact hfresh t' ht' hpid
  spared t' ht' hd c hc hj l hl := by
    rcases List.mem_cons.mp ht' with rfl | ht'
    · simp [hown, Own.fresh] at hc
    · exact h.spared t' ht' hd c hc hj l hl
  owned t' ht' howner := by
    have hold : s.owner = some t'.pid ∧ t'.pid ≠ t.pid := by
      simp only [Crew.join] at howner
      split at howner
      · simp at howner
      · rename_i hne
        exact ⟨howner, fun hpid => hne (howner.trans (congrArg some hpid))⟩
    rcases List.mem_cons.mp ht' with rfl | ht'
    · exact absurd rfl hold.2
    · exact h.owned t' ht' hold.1
  made := h.made
  sound t' ht' := by
    rcases List.mem_cons.mp ht' with rfl | ht'
    · exact (hsound _ (hown ▸ sound_fresh)).mono (fun _ h => h) fun _ _ _ => trivial
    · exact h.sound t' ht'

theorem append_or_insert {ev : Event} (h : appendsRule ev = true ∨ insertsJump ev = true) :
    resetsChain ev = false ∧ configOf ev = none := by
  obtain ⟨e, r⟩ := ev
  cases e with
  | ipt e =>
    refine ⟨?_, rfl⟩
    cases e with
    | newChain | flushChain | deleteChain => simp [appendsRule, insertsJump] at h
    | _ => rfl
  | _ => simp [appendsRule, insertsJump] at h

section Called

variable {rest : List Task} {ev : Event} {program : App Int} {sys : Sys}

/-- A call that does not reset the chain leaves it to its owner. -/
theorem called_keeps (h : resetsChain ev = false) :
    (s.called t rest ev program sys).owner = s.owner ∧ (s.called t rest ev program sys).maker = s.maker := by
  simp [Crew.called, h]

/-- What the calls of the owner make of the chain is what becomes of it. -/
theorem called_mine (h : s.owner = some t.pid → s.sys.table.chain = t.own.rules ∧ s.maker = t.own.maker)
    (hchain : sys.table.chain = chainEffect s.sys.table.chain ev)
    (howner : (s.called t rest ev program sys).owner = some t.pid) :
    sys.table.chain = (t.own.after ev).rules ∧
      (s.called t rest ev program sys).maker = (t.own.after ev).maker := by
  rw [hchain]
  cases hresets : resetsChain ev with
  | true =>
    refine ⟨chainEffect_resets ev _ _ hresets, ?_⟩
    simp [Crew.called, Own.after, hresets]
  | false =>
    rw [(called_keeps hresets).1] at howner
    obtain ⟨hrules, hmaker⟩ := h howner
    rw [(called_keeps hresets).2, hrules, hmaker]
    refine ⟨rfl, ?_⟩
    simp [Own.after, hresets]

theorem called_made (h : CrewInv s) (ht : t ∈ s.tasks) (hsound : (t.own.after ev).Sound)
    (hchain : sys.table.chain = chainEffect s.sys.table.chain ev) (hok : s.CarefulCall t ev) :
    BuiltFrom sys.table.chain (s.called t rest ev program sys).maker := by
  cases happends : appendsRule ev with
  | false =>
    rw [hchain]
    exact h.made.after happends
  | true =>
    have howner : (s.called t rest ev program sys).owner = some t.pid :=
      (called_keeps (append_or_insert (.inl happends)).1).1.trans (hok.orderly happends)
    obtain ⟨hrules, hmaker⟩ := called_mine (h.owned t ht) hchain howner
    rw [hrules, hmaker]
    exact hsound

/-- A daemon has its configuration from before, or by this call. -/
theorem called_config (ht : s.tasks.Perm (t :: rest)) {t' : Task} {c : Config}
    (ht' : t' ∈ (s.called t rest ev program sys).tasks) (hd : t'.daemon = true) (hc : t'.own.config = some c) :
    (∃ t₀ ∈ s.tasks, t₀.daemon = true ∧ t₀.own.config = some c) ∨
      t.daemon = true ∧ configOf ev = some c := by
  rcases List.mem_cons.mp ht' with rfl | ht'
  · rcases Option.or_eq_some_iff.mp hc with hc | ⟨-, hc⟩
    · exact .inr ⟨hd, hc⟩
    · exact .inl ⟨t, ht.mem_iff.mpr List.mem_cons_self, hd, hc⟩
  · exact .inl ⟨t', ht.mem_iff.mpr (List.mem_cons_of_mem t ht'), hd, hc⟩

/-- **What a careful call puts into effect** leaves the daemons' proxies alone. -/
theorem called_spared (h : CrewInv s) (ht : s.tasks.Perm (t :: rest))
    (hmade : BuiltFrom sys.table.chain (s.called t rest ev program sys).maker)
    (hchain : sys.table.chain = chainEffect s.sys.table.chain ev)
    (hjump : .jump ∈ sys.table.output → s.Jumps ∨ insertsJump ev = true) (hok : s.CarefulCall t ev)
    {t' : Task} {c : Config} (ht' : t' ∈ (s.called t rest ev program sys).tasks) (hd : t'.daemon = true)
    (hc : t'.own.config = some c) (hj : .jump ∈ sys.table.output) {l : List Rule}
    (hl : sys.table.chain = some l) : ∃ b : Config, l <+: b.rules ∧ b.Direct c.proxyAddr := by
  by_cases hempty : l = []
  · exact ⟨c, hempty ▸ List.nil_prefix, direct_proxy c⟩
  obtain ⟨b, hmaker, hl'⟩ := (hmade l hl).resolve_left hempty
  have hresets : resetsChain ev = false := by
    by_contra hno
    rw [Bool.not_eq_false] at hno
    rw [hchain] at hl
    rcases chainEffect_reset hno s.sys.table.chain with hnone | hnone
    · exact hempty (Option.some.inj (hl.symm.trans hnone))
    · cases hl.symm.trans hnone
  rw [(called_keeps hresets).2] at hmaker
  rcases called_config ht ht' hd hc with ⟨t₀, ht₀, hd₀, hc₀⟩ | ⟨hd, hc⟩
  · by_cases heffect : appendsRule ev = true ∧ s.Jumps ∨ insertsJump ev = true
    · exact ⟨b, hl', hok.agrees heffect b hmaker t₀ ht₀ hd₀ c hc₀⟩
    · -- the chain and the jump were there before
      rw [not_or] at heffect
      have hold := (hjump hj).resolve_right heffect.2
      have hquiet : appendsRule ev = false := by simpa [hold] using heffect.1
      rw [hchain, chainEffect_quiet ev _ hresets hquiet] at hl
      exact h.spared t₀ ht₀ hd₀ c hc₀ hold l hl
  · have hold : s.Jumps := (hjump hj).resolve_right fun hi => by
      simp [(append_or_insert (.inr hi)).2] at hc
    exact ⟨b, hl', hok.loads hd hold c b hc hmaker⟩

/-- Nobody but the owner appends, so the others leave the chain as it is. -/
theorem called_owned (h : CrewInv s) (ht : s.tasks.Perm (t :: rest))
    (hchain : sys.table.chain = chainEffect s.sys.table.chain ev) (hok : s.CarefulCall t ev)
    {t' : Task} (ht' : t' ∈ rest) (howner : (s.called t rest ev program sys).owner = some t'.pid) :
    sys.table.chain = t'.own.rules ∧ (s.called t rest ev program sys).maker = t'.own.maker := by
  have hother : t'.pid ≠ t.pid := by
    have hdistinct : (t.pid :: rest.map Task.pid).Nodup := (ht.map Task.pid).nodup_iff.mp h.distinct
    exact fun hpid => (List.nodup_cons.mp hdistinct).1 (hpid ▸ List.mem_map_of_mem ht')
  have hresets : resetsChain ev = false := by
    by_contra hno
    rw [Bool.not_eq_false] at hno
    simp only [Crew.called, hno, if_true] at howner
    exact hother (Option.some.inj howner).symm
  rw [(called_keeps hresets).1] at howner
  have hquiet : appendsRule ev = false := by
    by_contra hno
    rw [Bool.not_eq_false] at hno
    exact hother (Option.some.inj (howner.symm.trans (hok.orderly hno)))
  rw [hchain, chainEffect_quiet ev _ hresets hquiet, (called_keeps hresets).2]
  exact h.owned t' (ht.mem_iff.mpr (List.mem_cons_of_mem t ht')) howner

end Called

/-- **A call keeps the invariant**, if it is a careful one. -/
theorem CrewInv.called {rest : List Task} {e : Op} {k : Resp e → App Int} {r : Resp e} {sys : Sys}
    (h : CrewInv s) (ht : s.tasks.Perm (t :: rest)) (hcode : t.program.next = .call e k)
    (hr : sysRel e s.sys r sys) (hok : s.CarefulCall t ⟨e, r⟩) :
    CrewInv (s.called t rest ⟨e, r⟩ (k r) sys) := by
  have hmem : t ∈ s.tasks := ht.mem_iff.mpr List.mem_cons_self
  have hsound := ((wp_next hcode).mp (h.sound t hmem)).2 r (t.own.after ⟨e, r⟩) rfl
  have hchain := sysRel_chain e s.sys r sys hr
  have hmade : BuiltFrom sys.table.chain (s.called t rest ⟨e, r⟩ (k r) sys).maker :=
    called_made h hmem hsound.now hchain hok
  refine ⟨(ht.map Task.pid).nodup_iff.mp h.distinct, fun t' ht' hd c hc hj l hl => ?_, fun t' ht' howner => ?_,
    hmade, fun t' ht' => ?_⟩
  · exact called_spared h ht hmade hchain (sysRel_jump hr) hok ht' hd hc hj hl
  · rcases List.mem_cons.mp ht' with rfl | ht'
    · exact called_mine (h.owned t hmem) hchain howner
    · exact called_owned h ht hchain hok ht' howner
  · rcases List.mem_cons.mp ht' with rfl | ht'
    · exact hsound
    · exact h.sound t' (ht.mem_iff.mpr (List.mem_cons_of_mem t ht'))

/-- **Every step keeps the invariant**, if it is a careful one. -/
theorem CrewInv.step {event : CrewEvent} {s' : Crew} (h : CrewInv s) (hok : s.careful event)
    (hs : CrewStep s event s') : CrewInv s' := by
  cases hs with
  | call operation hfresh => exact h.join hfresh rfl (sound_operation operation)
  | @run pid argv hfresh hpid p hp =>
    have hborn : CrewInv { s with sys := { s.sys with procs := s.sys.procs ++ [p] } } :=
      h.fewer (.refl s.tasks) rfl
    exact hborn.join (t := .run pid argv) hfresh rfl (sound_daemonProgram argv pid)
  | @step t rest e k r sys ht hcode hr hfresh =>
    have hcalled := h.called ht hcode hr hok
    have hjoined : CrewInv ((s.called t rest ⟨e, r⟩ (k r) sys).joinForked (Crew.forked ⟨e, r⟩)) := by
      cases hforked : Crew.forked ⟨e, r⟩ with
      | none => exact hcalled
      | some child =>
        refine hcalled.join (fun t' ht' => ?_) rfl (sound_daemonProgram childArgv child)
        rcases List.mem_cons.mp ht' with rfl | ht'
        · exact hfresh child hforked t (ht.mem_iff.mpr List.mem_cons_self)
        · exact hfresh child hforked t' (ht.mem_iff.mpr (List.mem_cons_of_mem t ht'))
    exact hjoined.fewer List.filter_sublist rfl
  | @kill t rest ht =>
    refine (h.perm ht).fewer (List.sublist_cons_self t rest) ?_
    split <;> rfl

end Crew

/-- **The proxy of a living daemon is never redirected** in a run that keeps to the condition. -/
theorem upstream_spared (usr : UserRules) {s : Crew} (h : Reach Crew.Initial Crew.careful CrewStep s) :
    ∀ t ∈ s.tasks, t.daemon = true → ∀ c, t.own.config = some c →
      ¬ s.sys.table.Captures usr c.proxyAddr := by
  have hinv : CrewInv s := by
    refine Reach.inv (I := CrewInv) (fun s hs => ?_) (fun _ _ _ h hok hs => h.step hok hs) h
    obtain ⟨htasks, howner, -, -, hchain⟩ := hs
    refine ⟨?_, ?_, ?_, ?_, ?_⟩
    all_goals simp [htasks, hchain, BuiltFrom]
  intro t ht hd c hc hcap
  obtain ⟨hj, l, port, hl, -⟩ := id hcap
  obtain ⟨b, hpre, hdirect⟩ := hinv.spared t ht hd c hc hj l hl
  exact not_captures_of_isPrefix hl hpre hdirect hcap

/-! ## Two runs -/

namespace Crew

/-- The check of `Agrees`. -/
def checkAgrees (s : Crew) (c : Config) : Bool :=
  s.tasks.all fun t => !t.daemon || t.own.config.all fun c' => decide (c.Direct c'.proxyAddr)

/-- The check of `careful`. -/
def checkCareful (s : Crew) : CrewEvent → Bool
  | .step t ev =>
    let jumps := decide (.jump ∈ s.sys.table.output)
    (!appendsRule ev || s.owner == some t.pid) &&
      (!(appendsRule ev && jumps || insertsJump ev) || s.maker.all s.checkAgrees) &&
      (!t.daemon || !jumps ||
        (configOf ev).all fun c => s.maker.all fun b => decide (b.Direct c.proxyAddr))
  | _ => true

theorem agrees_of_check {s : Crew} {c : Config} (h : s.checkAgrees c = true) : s.Agrees c := by
  intro t ht hd c' hc
  have hcheck := List.all_eq_true.mp h t ht
  simpa [hd, hc] using hcheck

theorem careful_of_check (s : Crew) (event : CrewEvent) (h : s.checkCareful event = true) :
    s.careful event := by
  cases event with
  | step t ev =>
    simp only [checkCareful, Bool.and_eq_true] at h
    obtain ⟨⟨horderly, hagrees⟩, hloads⟩ := h
    refine ⟨fun happends => ?_, fun heffect c hmaker => ?_, fun hd hj c b hc hmaker => ?_⟩
    · simpa [happends] using horderly
    · refine agrees_of_check ?_
      rcases heffect with ⟨happends, hj⟩ | hinserts
      · simpa [happends, show .jump ∈ s.sys.table.output from hj, hmaker] using hagrees
      · simpa [hinserts, hmaker] using hagrees
    · simpa [hd, show .jump ∈ s.sys.table.output from hj, hc, hmaker] using hloads
  | _ => trivial

/-- A living daemon has the proxy `proxyAddr`. -/
def serves (s : Crew) (proxyAddr : Addr) : Bool :=
  s.tasks.any fun t => t.daemon && t.own.config.any fun c => c.proxyAddr == proxyAddr

theorem exists_of_serves {s : Crew} {proxyAddr : Addr} (h : s.serves proxyAddr = true) :
    ∃ t ∈ s.tasks, t.daemon = true ∧ ∃ c, t.own.config = some c ∧ c.proxyAddr = proxyAddr := by
  obtain ⟨t, ht, h⟩ := List.any_eq_true.mp h
  obtain ⟨hd, h⟩ := Bool.and_eq_true_iff.mp h
  obtain ⟨c, hc, h⟩ := (Option.any_eq_true _ _).mp h
  exact ⟨t, ht, hd, c, hc, beq_iff_eq.mp h⟩

end Crew

/-- Nothing is installed, and nobody is under way. -/
def idleCrew : Crew := ⟨idleSys, [], none, none⟩

theorem idleCrew_initial : idleCrew.Initial := ⟨rfl, rfl, rfl, by decide, rfl⟩

/-- `n` calls of a process, all carried out. -/
def calls (pid n : Nat) : List CrewTurn := List.replicate n (.step pid goodChoice)

/-- `fp_enable_proxy` is killed when it has forked the daemon `50`, which goes on and serves. While `fp_set_bypass`
rebuilds the chain, the daemon is told to stop and closes its listener. -/
def orphanTurns : List CrewTurn :=
  .call 10 (.enableProxy "192.0.2.1:1080".toList) :: calls 10 13 ++ .kill 10 :: calls 50 13 ++
    .call 11 (.setBypass []) :: calls 11 7 ++ calls 50 2 ++ calls 11 4

/-- The daemon is alive without its listener, `OUTPUT` jumps, and its proxy is spared. -/
theorem upstream_spared_orphan : ∃ s, Reach Crew.Initial Crew.careful CrewStep s ∧ ¬ s.sys.Listening ∧
    .jump ∈ s.sys.table.output ∧ ∃ t ∈ s.tasks, t.daemon = true ∧ ∃ c, t.own.config = some c ∧
      c.proxyAddr = 0xc0000201 ∧ ¬ s.sys.table.Captures (fun _ _ => none) c.proxyAddr := by
  have hrun : ((play Crew.move Crew.checkCareful orphanTurns idleCrew).any fun s =>
      decide (¬ s.sys.Listening ∧ .jump ∈ s.sys.table.output) && s.serves 0xc0000201) = true := by
    decide +kernel
  obtain ⟨s, hplay, hs⟩ := (Option.any_eq_true _ _).mp hrun
  obtain ⟨hstate, hserves⟩ := Bool.and_eq_true_iff.mp hs
  obtain ⟨hquiet, hjump⟩ := of_decide_eq_true hstate
  obtain ⟨t, ht, hd, c, hc, haddr⟩ := Crew.exists_of_serves hserves
  have hreach : Reach Crew.Initial Crew.careful CrewStep s :=
    (Reach.init idleCrew_initial).play Crew.move_step Crew.careful_of_check hplay
  exact ⟨s, hreach, hquiet, hjump, t, ht, hd, c, hc, haddr, upstream_spared _ hreach t ht hd c hc⟩

/-- `fp_enable_proxy` with another proxy is killed after it has saved it; then the list is set. -/
def brokenTurns : List CrewTurn :=
  .run 50 runArgv :: calls 50 12 ++ .call 10 (.enableProxy "192.0.2.2:1080".toList) :: calls 10 4 ++
    .kill 10 :: .call 11 (.setBypass []) :: calls 11 11

/-- **A run that redirects the proxy of a living daemon.** -/
theorem upstream_not_spared : ¬ ∀ (usr : UserRules) (s : Crew), Reach Crew.Initial anyStep CrewStep s →
    ∀ t ∈ s.tasks, t.daemon = true → ∀ c, t.own.config = some c →
      ¬ s.sys.table.Captures usr c.proxyAddr := by
  intro h
  have hrun : ((play Crew.move (fun _ _ => true) brokenTurns idleCrew).any fun s =>
      decide (s.sys.table.redirected (fun _ _ => none) 0xc0000201 = some 12345) &&
        s.serves 0xc0000201) = true := by
    decide +kernel
  obtain ⟨s, hplay, hs⟩ := (Option.any_eq_true _ _).mp hrun
  obtain ⟨hredirected, hserves⟩ := Bool.and_eq_true_iff.mp hs
  obtain ⟨t, ht, hd, c, hc, haddr⟩ := Crew.exists_of_serves hserves
  have hreach : Reach Crew.Initial anyStep CrewStep s :=
    (Reach.init idleCrew_initial).play Crew.move_step (fun _ _ _ => trivial) hplay
  refine h (fun _ _ => none) s hreach t ht hd c hc ?_
  rw [haddr]
  exact captures_of_redirected (of_decide_eq_true hredirected)

end FreeProxy
