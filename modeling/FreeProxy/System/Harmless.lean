import FreeProxy.System.Waits

/-!
# The parts that add nothing

All of `src/process.c` but the daemon's own start, and all of `src/operations.c` but its calls of
`fp_firewall_enable` and `fp_start_daemon`, make harmless calls only. **`wp_harmless`**: such a
program keeps whatever one harmless call keeps.
-/

namespace FreeProxy

open Lib

/-- The calls that add no rule and no listener and leave the configuration file alone. -/
def Op.Quiet : Op → Prop
  | .ipt e => e.Removes
  | .listen _ _ | .configLoad | .configSave _ => False
  | _ => True

theorem quiet_harmless {e : Op} (h : e.Quiet) : e.Harmless := by
  cases e with
  | ipt e => exact h
  | listen => exact h
  | _ => trivial

theorem Lib.Prog.Calls.harmless {α : Type} {p : App α} (h : p.Calls Op.Quiet) : p.Calls Op.Harmless :=
  h.mono fun _ => quiet_harmless

theorem calls_fw {α : Type} {p : Fw α} (h : p.Calls Cmd.Removes) : (fw p).Calls Op.Quiet :=
  calls_hoist h

theorem calls_fw_disable : (fw fpFirewallDisable).Calls Op.Quiet := calls_fw calls_disable

theorem calls_ruleCommands (xs : List (RuleSpec × Rule)) :
    (ruleCommands .check xs).Calls Cmd.Removes := by
  refine calls_all fun p hp => ?_
  obtain ⟨x, -, rfl⟩ := List.mem_map.mp hp
  exact calls_runIptables trivial

theorem calls_isEnabled (c : Config) : (fpFirewallIsEnabled c).Calls Cmd.Removes := by
  rw [fpFirewallIsEnabled_eq]
  refine calls_bind calls_chainExists fun present => ?_
  split
  swap
  · exact calls_ret _
  refine calls_bind calls_outputJumpExists fun jump => ?_
  split
  swap
  · exact calls_ret _
  refine calls_bind (calls_ruleCommands _) fun checked => ?_
  split
  · exact calls_bind (calls_ruleCommands _) fun _ => calls_ret _
  · exact calls_ret _

/-! ## The daemon's exit -/

theorem calls_signalReady (readyFd : Int) (value : Char) :
    (signalReady readyFd value).Calls Op.Quiet := by
  unfold signalReady
  split
  · exact calls_ask trivial
  · exact calls_ret _

theorem calls_statsClose (owner : Bool) : (fpStatsClose owner).Calls Op.Quiet := by
  unfold fpStatsClose
  split
  · exact calls_ask trivial
  · exact calls_ret _

theorem calls_abandonStart (self : Nat) (created : Bool) (readyFd : Int) :
    (abandonStart self created readyFd).Calls Op.Quiet :=
  calls_bind (calls_ask trivial) fun _ => calls_bind (calls_ask trivial) fun _ =>
    calls_bind (calls_statsClose created) fun _ => calls_bind calls_fw_disable fun _ =>
      calls_signalReady readyFd 'E'

theorem calls_proxyStop (self : Nat) : (fpProxyStop self).Calls Op.Quiet :=
  calls_bind (calls_ask trivial) fun _ => calls_bind (calls_ask trivial) fun _ =>
    calls_statsClose true

theorem calls_daemonExit (self : Nat) : (daemonExit self).Calls Op.Quiet := by
  refine calls_bind ?_ fun _ => calls_ask trivial
  refine calls_bind (calls_proxyStop self) fun _ => ?_
  exact calls_bind calls_fw_disable fun _ => calls_ret _

theorem calls_interruptedExit (self : Nat) :
    (interrupt Op.alive id (daemonExit self)).Calls Op.Quiet :=
  calls_interrupt trivial (calls_daemonExit self)

/-! ## `src/process.c` -/

theorem calls_processIsOurs (pid startTime : Nat) :
    (processIsOurs pid startTime).Calls Op.Quiet := by
  refine calls_bind (calls_ask trivial) fun actualStartTime => ?_
  split
  · exact calls_ret _
  refine calls_bind (calls_ask trivial) fun exe => ?_
  split
  · exact calls_ret _
  · exact calls_ask trivial

theorem calls_isLegacyDaemon (pid : Nat) : (isLegacyDaemon pid).Calls Op.Quiet := by
  refine calls_bind (calls_ask trivial) fun exe => ?_
  split
  · exact calls_ret _
  refine calls_bind (calls_ask trivial) fun cmdlineRun => ?_
  split
  · exact calls_ret _
  refine calls_bind (calls_ask trivial) fun parent => ?_
  cases parent with
  | none => exact calls_ret _
  | some initChild =>
    refine calls_bind (calls_ask trivial) fun leader => ?_
    split <;> exact calls_ret _

theorem calls_readPid : fpReadPid.Calls Op.Quiet := by
  refine calls_bind (calls_ask trivial) fun record => ?_
  cases record <;> exact calls_ret _

theorem calls_matchesConfig (c : Config) : (fpDaemonMatchesConfig c).Calls Op.Quiet := by
  refine calls_bind (calls_ask trivial) fun record => ?_
  cases record with
  | none => exact calls_ret _
  | some record =>
    refine calls_bind (calls_processIsOurs _ _) fun ours => ?_
    split <;> exact calls_ret _

theorem calls_awaitGone (pid startTime : Nat) (leader : Bool) :
    ∀ attempts, (awaitGone pid startTime leader attempts).Calls Op.Quiet
  | 0 => calls_ret _
  | attempts + 1 => by
    refine calls_bind ?_ fun gone => ?_
    · unfold isGone
      split
      · exact calls_ask trivial
      · exact calls_bind (calls_ask trivial) fun _ => calls_ret _
    · split
      · exact calls_ret _
      · exact calls_awaitGone pid startTime leader attempts

theorem calls_waitReleased : ∀ attempts, (waitListenerReleased attempts).Calls Op.Quiet
  | 0 => calls_ret _
  | attempts + 1 => by
    refine calls_bind (calls_ask trivial) fun released => ?_
    split
    · exact calls_ret _
    · exact calls_waitReleased attempts

namespace Waits

variable {w : Waits} (hexits : ∀ pid, (w.exits pid).Calls Op.Quiet)

include hexits

theorem calls_stopProcess (pid startTime : Nat) : (w.stopProcess pid startTime).Calls Op.Quiet := by
  refine calls_bind (calls_ask trivial) fun leader => ?_
  refine calls_bind (calls_ask trivial) fun signalled => ?_
  split
  · exact calls_ret _
  refine calls_bind (hexits pid) fun _ => ?_
  refine calls_bind (calls_awaitGone _ _ _ _) fun gone => ?_
  split
  · exact calls_ret _
  refine calls_bind (calls_ask trivial) fun killed => ?_
  split
  · exact calls_ret _
  refine calls_bind (calls_awaitGone _ _ _ _) fun gone => ?_
  split <;> exact calls_ret _

theorem calls_stopListed : ∀ entries, (w.stopListed entries).Calls Op.Quiet
  | [] => calls_ret _
  | pid :: entries => by
    refine calls_bind ?_ fun legacy => ?_
    · unfold isUntracked
      split
      · exact calls_isLegacyDaemon pid
      · exact calls_ret _
    split
    · exact calls_stopListed entries
    refine calls_bind (calls_ask trivial) fun startTime => ?_
    cases startTime with
    | none => exact calls_stopListed entries
    | some startTime =>
      refine calls_bind (calls_stopProcess hexits pid startTime) fun stopped => ?_
      split
      · exact calls_ret _
      · exact calls_stopListed entries

theorem calls_stopUntracked : w.stopUntrackedDaemons.Calls Op.Quiet := by
  refine calls_bind (calls_ask trivial) fun entries => ?_
  cases entries with
  | none => exact calls_ret _
  | some entries => exact calls_stopListed hexits entries

theorem calls_stopRecorded : w.stopRecorded.Calls Op.Quiet := by
  refine calls_bind (calls_ask trivial) fun record => ?_
  cases record with
  | none => exact calls_ret _
  | some record =>
    refine calls_bind (calls_ask trivial) fun actualStartTime => ?_
    split
    · exact calls_ret _
    refine calls_bind (calls_processIsOurs _ _) fun ours => ?_
    split
    · exact calls_ret _
    · exact calls_stopProcess hexits _ _

theorem calls_releaseListener : w.releaseListener.Calls Op.Quiet := by
  refine calls_bind (calls_waitReleased 50) fun released => ?_
  split
  · exact calls_ret _
  refine calls_all fun p hp => ?_
  rcases List.mem_pair.mp hp with rfl | rfl
  · exact calls_stopUntracked hexits
  · exact calls_waitReleased 50

theorem calls_stopDaemon : w.fpStopDaemon.Calls Op.Quiet := by
  refine calls_bind (calls_all fun p hp => ?_) fun stopped => ?_
  · rcases List.mem_cons.mp hp with rfl | hp
    · exact calls_stopRecorded hexits
    rcases List.mem_pair.mp hp with rfl | rfl
    · exact calls_stopUntracked hexits
    · exact calls_releaseListener hexits
  split
  · exact calls_ret _
  · exact calls_bind (calls_ask trivial) fun _ => calls_bind (calls_ask trivial) fun _ => calls_ret _

end Waits

theorem calls_stopUntracked : stopUntrackedDaemons.Calls Op.Quiet :=
  Waits.embedded_stopUntrackedDaemons ▸ Waits.calls_stopUntracked calls_interruptedExit

theorem calls_stopDaemon : fpStopDaemon.Calls Op.Quiet :=
  Waits.embedded_fpStopDaemon ▸ Waits.calls_stopDaemon calls_interruptedExit

/-! ## `src/operations.c` -/

theorem calls_isActive (c : Config) : (isActive c).Calls Op.Quiet := by
  refine calls_bind (calls_matchesConfig c) fun matched => ?_
  split
  · exact calls_ret _
  · exact calls_bind (calls_fw (calls_isEnabled c)) fun _ => calls_ret _

theorem calls_stopIfRecorded : stopIfRecorded.Calls Op.Quiet := by
  refine calls_bind calls_readPid fun pid => ?_
  split
  · exact calls_stopDaemon
  · exact calls_ret _

theorem calls_locked {P : Op → Prop} (hlock : P .lock) (hunlock : P .unlock) {operation : App Int}
    (h : operation.Calls P) : (locked operation).Calls P := by
  refine calls_bind (calls_ask hlock) fun acquired => ?_
  split
  · exact calls_ret _
  · exact calls_bind h fun _ => calls_bind (calls_ask hunlock) fun _ => calls_ret _

/-! ## What they keep -/

/-- What one harmless call may make of `s`. -/
def Sys.Calms (s s' : Sys) : Prop :=
  (s'.table = s.table ∨ ∃ c : Cmd, c.Removes ∧ act c s.table = some s'.table) ∧ s.NoNewListener s'

/-- **A program that makes harmless calls keeps what one harmless call keeps.** -/
theorem wp_harmless {α : Type} {p : App α} (hp : p.Calls Op.Harmless) {I : Sys → Prop}
    (hI : ∀ s s', I s → s.Calms s' → I s') {s : Sys} (hs : I s) :
    wp sysRel I p (fun _ => I) s :=
  wp_calls hp (fun _ s _ s' he hIs h => hI s s' hIs (sysRel_harmless he h)) hs

/-- The same for the part of a program that comes first. -/
theorem wp_harmless_bind {α β : Type} {p : App α} (hp : p.Calls Op.Harmless) {I : Sys → Prop}
    (hI : ∀ s s', I s → s.Calms s' → I s') {f : α → App β} {Q : β → Sys → Prop} {s : Sys} (hs : I s)
    (hf : ∀ a s', I s' → wp sysRel (fun _ => True) (f a) Q s') :
    wp sysRel (fun _ => True) (p.bind f) Q s :=
  wp_seq (wp_harmless hp hI hs) (fun _ _ => trivial) fun a s' _ hs' => hf a s' hs'

/-! ## Calls aside -/

/-- The calls that leave the table and the processes alone. -/
def Op.Aside : Op → Prop
  | .ipt _ | .listen _ _ | .closeListener _ | .sigkill _ | .spawn | .exit _ => False
  | _ => True

theorem sysRel_aside {e : Op} {s s' : Sys} {r : Resp e} (he : e.Aside) (h : sysRel e s r s') :
    s'.table = s.table ∧ s'.procs = s.procs := by
  obtain ⟨c, h⟩ := h
  obtain rfl : (sys e c s).2 = s' := congrArg Prod.snd h
  cases e with
  | ipt | listen | closeListener | sigkill | spawn | exit => exact he.elim
  | writePid | configSave | removePid | statsCreate | statsUnlink =>
    simp only [sys]
    constructor
    all_goals repeat' split
    all_goals rfl
  | _ => exact ⟨rfl, rfl⟩

/-- One call aside. -/
theorem wp_aside {e : Op} (he : e.Aside) {Q : Resp e → Sys → Prop} {s : Sys}
    (h : ∀ r s', s'.table = s.table → s'.procs = s.procs → sysRel e s r s' → Q r s') :
    wp sysRel (fun _ => True) (Op.ask e) Q s := by
  refine wp_ask.mpr ⟨trivial, fun r s' hr => ⟨trivial, ?_⟩⟩
  obtain ⟨ht, hp⟩ := sysRel_aside he hr
  exact h r s' ht hp hr

theorem alive_same {s s' : Sys} {r : Bool} (h : sysRel .alive s r s') : s' = s := by
  obtain ⟨c, hc⟩ := h
  exact (congrArg Prod.snd hc).symm

/-- What is loaded is what the file holds. -/
theorem configLoad_cases {s s' : Sys} {loaded : Option Config} (h : sysRel .configLoad s loaded s') :
    s' = s ∧ ∀ config, loaded = some config → s.file.load = some config := by
  obtain ⟨c, hc⟩ := h
  simp only [sys, Prod.mk.injEq] at hc
  obtain ⟨hfile, hs⟩ := hc
  refine ⟨hs.symm, fun config hconfig => ?_⟩
  rw [hconfig] at hfile
  split at hfile
  · exact hfile
  · simp at hfile

theorem wp_configLoad {s : Sys} :
    wp sysRel (· = s) (Op.ask .configLoad)
      (fun loaded _ => ∀ config, loaded = some config → s.file.load = some config) s :=
  wp_ask.mpr ⟨rfl, fun _ _ hload => configLoad_cases hload⟩

theorem wp_readPid {s : Sys} :
    wp sysRel (· = s) fpReadPid (fun pid _ => pid > 1 → s.record ≠ none) s := by
  unfold fpReadPid
  rw [Prog.bind_eq, wp_bind, wp_ask]
  refine ⟨rfl, fun record s₁ hread => ?_⟩
  obtain ⟨c, hc⟩ := hread
  simp only [sys, Prod.mk.injEq] at hc
  obtain ⟨hrecord, hs⟩ := hc
  refine ⟨hs.symm, ?_⟩
  cases record with
  | none => exact wp_ret.mpr ⟨hs.symm, by simp⟩
  | some record =>
    refine wp_ret.mpr ⟨hs.symm, fun _ hnone => ?_⟩
    rw [hnone] at hrecord
    simp at hrecord

/-- `fp_lock_acquire`, an operation of any result, `fp_lock_release`. -/
def lockedAs {α : Type} (refused : α) (operation : App α) : App α := do
  if !(← Op.ask .lock) then pure refused else do
  let result ← operation
  Op.ask .unlock
  pure result

/-- An operation is carried out under the lock, or not at all. -/
theorem wp_lockedAs {rel : Rel Op Resp Sys} (hrel : ∀ e s r s', rel e s r s' → sysRel e s r s')
    {I : Sys → Prop} {α : Type} {refused : α} {operation : App α} {Q : α → Sys → Prop} {s : Sys}
    (hI : I s) (hfail : Q refused s) (h : wp rel I operation Q s) :
    wp rel I (lockedAs refused operation) Q s := by
  have hprog : lockedAs refused operation = (Op.ask .lock).bind fun acquired =>
      if (!acquired) = true then .ret refused else operation.bind fun result =>
        (Op.ask .unlock).bind fun _ => .ret result := rfl
  rw [hprog, wp_bind, wp_ask]
  refine ⟨hI, fun acquired s₁ hlock => ?_⟩
  obtain ⟨c, hc⟩ := hrel _ _ _ _ hlock
  obtain rfl : s = s₁ := congrArg Prod.snd hc
  refine ⟨hI, ?_⟩
  split
  · exact wp_ret.mpr ⟨hI, hfail⟩
  rw [wp_bind]
  refine h.post fun result s₂ hI₂ hQ => ?_
  rw [wp_bind, wp_ask]
  refine ⟨hI₂, fun _ s₃ hunlock => ?_⟩
  obtain ⟨c', hc'⟩ := hrel _ _ _ _ hunlock
  obtain rfl : s₂ = s₃ := congrArg Prod.snd hc'
  exact ⟨hI₂, wp_ret.mpr ⟨hI₂, hQ⟩⟩

theorem wp_locked {rel : Rel Op Resp Sys} (hrel : ∀ e s r s', rel e s r s' → sysRel e s r s')
    {I : Sys → Prop} {operation : App Int} {Q : Int → Sys → Prop} {s : Sys} (hI : I s)
    (hfail : Q (-1) s) (h : wp rel I operation Q s) : wp rel I (locked operation) Q s := by
  have hprog : locked operation = lockedAs (-1) operation := rfl
  rw [hprog]
  exact wp_lockedAs hrel hI hfail h

end FreeProxy
