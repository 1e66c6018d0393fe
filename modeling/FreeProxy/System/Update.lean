import FreeProxy.Lib.Interleave
import FreeProxy.System.BlackHole
import FreeProxy.System.Effects

/-!
# A start beside `fp_set_bypass`

`free_proxy run` reads the configuration and builds the chain without the lock that `fp_set_bypass`
holds. `Inter` is any order of their file operations and commands; the daemon is the left side, the
operation the right one.

The chain is a cell that both write: the commands that reset it and the appends (`chainEffect`). It
is `orderly` when rules are appended only by the side that has reset the chain last, so that the two
rebuilds do not mix.

**`update_kept_iff`**: among the orderly runs in which both succeed, exactly when the chain is that
of the configuration on disk.

Out of scope: a third process.
-/

namespace FreeProxy

open Lib

/-- A call of the daemon (`left`) or of the operation (`right`). -/
abbrev Happening := Turn Op Resp

/-! ## What one side does -/

/-- What the calls of one side alone make of the chain. -/
def built (tr : List Event) : Option (List Rule) := tr.foldl chainEffect none

theorem built_concat (tr : List Event) (ev : Event) :
    built (tr ++ [ev]) = chainEffect (built tr) ev := by
  unfold built
  rw [List.foldl_append]
  rfl

/-- The commands of a firewall program, recorded as calls. -/
def RecordedIpt : Rel Cmd (fun _ => Bool) (List Event) :=
  fun e tr r tr' => tr' = tr ++ [⟨.ipt e, r⟩]

theorem wp_fw_recorded {α : Type} {p : Fw α} {Q : α → List Event → Prop} {tr : List Event}
    (h : wp RecordedIpt (fun _ => True) p Q tr) : wp Recorded (fun _ => True) (fw p) Q tr := by
  let whole : Lens (List Event) (List Event) :=
    ⟨id, fun _ t => t, fun _ _ => rfl, fun _ => rfl, fun _ _ _ => rfl⟩
  have hembeds : Embeds Op.ipt RecordedIpt Recorded whole := fun e tr r tr' hr => ⟨hr, rfl⟩
  exact (wp_hoist hembeds h).mono (fun _ _ => trivial) fun _ _ h => h.1

theorem wp_run_recorded {e : Cmd} {Q : Int → List Event → Prop} {tr : List Event}
    (h0 : Q 0 (tr ++ [⟨.ipt e, true⟩])) (h1 : Q (-1) (tr ++ [⟨.ipt e, false⟩])) :
    wp RecordedIpt (fun _ => True) (runIptables e) Q tr := by
  refine wp_bind.mpr (wp_ask.mpr ⟨trivial, fun exited tr' htr => ⟨trivial, ?_⟩⟩)
  obtain rfl : tr' = tr ++ [(⟨.ipt e, exited⟩ : Event)] := htr
  cases exited with
  | true => exact wp_ret.mpr ⟨trivial, h0⟩
  | false => exact wp_ret.mpr ⟨trivial, h1⟩

/-- The calls have reset the chain and made it `l`. -/
structure Made (l : List Rule) (tr : List Event) : Prop where
  built : built tr = some l
  resets : ∃ ev ∈ tr, resetsChain ev = true

theorem Made.concat {l : List Rule} {tr : List Event} (h : Made l tr) {ev : Event}
    (hev : ∀ o, chainEffect o ev = o) : Made l (tr ++ [ev]) := by
  obtain ⟨hbuilt, ev', hmem, hr⟩ := h
  exact ⟨by rw [built_concat, hev, hbuilt], ev', List.mem_append_left _ hmem, hr⟩

theorem Made.append {l : List Rule} {tr : List Event} (h : Made l tr) {spec : RuleSpec} {r : Rule}
    (hp : spec.parse = some r) : Made (l ++ [r]) (tr ++ [⟨.ipt (.rule .append spec), true⟩]) := by
  obtain ⟨hbuilt, ev', hmem, hr⟩ := h
  refine ⟨?_, ev', List.mem_append_left _ hmem, hr⟩
  rw [built_concat, hbuilt]
  simp [chainEffect, Cmd.chainEffect, hp]

/-- **A success of `fp_firewall_enable(c)` has made the rules of `c`**, whatever the answers were. -/
theorem wp_enable_recorded (c : Config) (tr : List Event) :
    wp RecordedIpt (fun _ => True) (fpFirewallEnable c) (fun code tr' => code = 0 → Made c.rules tr')
      tr := by
  refine wp_enable_success c (A := fun _ => True) (P := Made)
    ((wp_runs _ tr).mono (fun _ h => h) fun _ _ _ => trivial) (fun _ _ _ _ _ _ _ => trivial) ?_ ?_ ?_
  · rintro tr _ - rfl
    refine ⟨?_, ⟨.ipt .flushChain, true⟩, List.mem_append_right _ List.mem_cons_self, rfl⟩
    rw [built_concat]
    rfl
  · rintro l spec r a tr _ hparse - - hmade rfl
    refine ⟨trivial, ?_⟩
    rintro rfl
    exact hmade.append hparse
  · intro tr _ hmade
    refine wp_bind.mpr (wp_run_recorded ?_ ?_)
    · exact wp_ret.mpr ⟨trivial, fun _ => hmade.concat fun _ => rfl⟩
    · refine wp_run_recorded (fun _ => ?_) (by simp)
      exact (hmade.concat fun _ => rfl).concat fun _ => rfl

/-- The calls that do not touch the configuration file. -/
def Op.NoConfig : Op → Prop
  | .configLoad | .configSave _ => False
  | _ => True

theorem calls_fw_noConfig {α : Type} (p : Fw α) : (fw p).Calls Op.NoConfig :=
  calls_hoist (calls_true p)

theorem Lib.Prog.Calls.noConfig {α : Type} {p : App α} (h : p.Calls Op.Quiet) :
    p.Calls Op.NoConfig := by
  refine h.mono fun e he => ?_
  cases e with
  | configLoad | configSave => exact he.elim
  | _ => trivial

theorem calls_proxyStart_noConfig (self : Nat) (c : Config) (readyFd : Int) :
    (fpProxyStart self c readyFd).Calls Op.NoConfig := by
  rw [fpProxyStart_eq]
  refine calls_bind (calls_ask trivial) fun bound => ?_
  split
  swap
  · exact calls_bind (calls_signalReady readyFd 'E').noConfig fun _ => calls_ret _
  have hinstall : (fpProxyInstall self c).Calls Op.NoConfig := by
    refine calls_bind (calls_ask trivial) fun created => ?_
    split
    · exact calls_ret _
    refine calls_bind (calls_ask trivial) fun written => ?_
    split
    · exact calls_ret _
    · exact calls_bind (calls_fw_noConfig _) fun _ => calls_ret _
  refine calls_bind hinstall fun installed => ?_
  split
  · exact calls_bind (calls_signalReady readyFd 'R').noConfig fun _ => calls_ret _
  · exact calls_bind (calls_abandonStart self installed.1 readyFd).noConfig fun _ => calls_ret _

theorem wp_proxyStart_recorded (self : Nat) (c : Config) (readyFd : Int) (tr : List Event) :
    wp Recorded (fun _ => True) (fpProxyStart self c readyFd)
      (fun code tr' => code = 0 → Made c.rules tr') tr := by
  have hfail : ∀ tr : List Event, wp Recorded (fun _ => True) (.ret (-1) : App Int)
      (fun code tr' => code = 0 → Made c.rules tr') tr := fun tr => wp_ret.mpr ⟨trivial, by simp⟩
  have hinstall : ∀ tr, wp Recorded (fun _ => True) (fpProxyInstall self c)
      (fun installed tr' => installed.2 = 0 → Made c.rules tr') tr := by
    intro tr
    refine wp_after fun created tr₁ => ?_
    split
    · exact wp_ret.mpr ⟨trivial, by simp⟩
    refine wp_after fun written tr₂ => ?_
    split
    · exact wp_ret.mpr ⟨trivial, by simp⟩
    refine wp_seq (wp_fw_recorded (wp_enable_recorded c tr₂)) (fun _ _ => trivial) ?_
    exact fun _ _ _ h => wp_ret.mpr ⟨trivial, h⟩
  rw [fpProxyStart_eq]
  refine wp_after fun bound tr₁ => ?_
  split
  swap
  · exact wp_after fun _ => hfail
  refine wp_seq (hinstall tr₁) (fun _ _ => trivial) fun installed tr₂ _ h => ?_
  split
  swap
  · exact wp_after fun _ => hfail
  rename_i h0
  have hready : wp Recorded (fun _ => True) (signalReady readyFd 'R')
      (fun _ tr' => Made c.rules tr') tr₂ := by
    unfold signalReady
    split
    · refine wp_ask.mpr ⟨trivial, fun r tr' htr => ⟨trivial, ?_⟩⟩
      obtain rfl : tr' = tr₂ ++ [(⟨.signalReady 'R', r⟩ : Event)] := htr
      exact (h h0).concat fun _ => rfl
    · exact wp_ret.mpr ⟨trivial, h h0⟩
  exact wp_seq hready (fun _ _ => trivial) fun _ _ _ h => wp_ret.mpr ⟨trivial, fun _ => h⟩

/-- **A daemon that serves** has read a configuration first and made its rules. -/
theorem wp_daemonStart_recorded (argv : List (List Char)) (self : Nat) :
    wp Recorded (fun _ => True) (daemonStart argv self)
      (fun o tr => o = none → ∃ c rest, tr = ⟨.configLoad, some c⟩ :: rest ∧
        (∀ ev ∈ rest, ev.1.NoConfig) ∧ Made c.rules tr) [] := by
  have hfail : ∀ tr : List Event, wp Recorded (fun _ => True) (.ret (some 1) : App (Option Int))
      (fun o tr => o = none → ∃ c rest, tr = ⟨.configLoad, some c⟩ :: rest ∧
        (∀ ev ∈ rest, ev.1.NoConfig) ∧ Made c.rules tr) tr := fun tr => wp_ret.mpr ⟨trivial, by simp⟩
  unfold daemonStart
  cases readyArgument argv with
  | none => exact hfail []
  | some readyFd =>
    refine wp_bind.mpr (wp_ask.mpr ⟨trivial, fun loaded tr htr => ⟨trivial, ?_⟩⟩)
    obtain rfl : tr = [(⟨.configLoad, loaded⟩ : Event)] := htr
    cases loaded with
    | none => exact wp_after fun _ => hfail
    | some c =>
      have hstart := (wp_recorded (calls_proxyStart_noConfig self c readyFd) _).and
        (wp_proxyStart_recorded self c readyFd [⟨.configLoad, some c⟩])
      refine wp_seq hstart (fun _ _ => trivial) ?_
      rintro started tr - ⟨⟨more, rfl, hmore⟩, hmade⟩
      split
      · rename_i h0
        exact wp_ret.mpr ⟨trivial, fun _ => ⟨c, more, rfl, hmore, hmade h0⟩⟩
      · exact wp_after fun _ => hfail

theorem wp_updateRules_recorded (wasRunning : Bool) (c : Config) (tr : List Event) :
    wp Recorded (fun _ => True) (updateRules wasRunning c)
      (fun code tr' => code = 0 → ∃ more, tr' = tr ++ more ∧ (∀ ev ∈ more, ev.1.NoConfig) ∧
        (more = [] ∨ Made c.rules tr')) tr := by
  cases wasRunning with
  | true =>
    have henable := (wp_recorded (calls_fw_noConfig (fpFirewallEnable c)) tr).and
      (wp_fw_recorded (wp_enable_recorded c tr))
    refine henable.mono (fun _ _ => trivial) ?_
    rintro code tr' ⟨⟨more, htr, hmore⟩, hmade⟩ h0
    exact ⟨more, htr, hmore, .inr (hmade h0)⟩
  | false => exact wp_ret.mpr ⟨trivial, fun _ => ⟨[], by simp, by simp, .inl rfl⟩⟩

/-- What a successful `fp_set_bypass` has done. -/
def BypassTrace (bypassList : List Char) (tr : List Event) : Prop :=
  ∃ previous config record rest, fpParseBypassList bypassList previous = (0, config) ∧
    tr = ⟨.lock, true⟩ :: ⟨.configLoad, some previous⟩ :: ⟨.readRecord, record⟩ ::
      ⟨.configSave config, true⟩ :: rest ∧
    (∀ ev ∈ rest, ev.1.NoConfig) ∧ (Made config.rules tr ∨ ∀ ev ∈ tr, resetsChain ev = false)

theorem BypassTrace.concat {bypassList : List Char} {tr : List Event} (h : BypassTrace bypassList tr)
    {ev : Event} (hev : ∀ o, chainEffect o ev = o) (hr : resetsChain ev = false)
    (hno : ev.1.NoConfig) : BypassTrace bypassList (tr ++ [ev]) := by
  obtain ⟨previous, config, record, rest, hparse, rfl, hrest, hmade⟩ := h
  refine ⟨previous, config, record, rest ++ [ev], hparse, rfl, fun x hx => ?_, ?_⟩
  · rcases List.mem_append.mp hx with hx | hx
    · exact hrest x hx
    · rwa [List.mem_singleton.mp hx]
  · refine hmade.imp (fun h => h.concat hev) fun h x hx => ?_
    rcases List.mem_append.mp hx with hx | hx
    · exact h x hx
    · rwa [List.mem_singleton.mp hx]

section

variable {bypassList : List Char}

/-- What failed has nothing to show. -/
theorem wp_fail_recorded (tr : List Event) : wp Recorded (fun _ => True) (.ret (-1) : App Int)
    (fun code tr' => code = 0 → BypassTrace bypassList tr') tr := wp_ret.mpr ⟨trivial, by simp⟩

theorem wp_locked_recorded {operation : App Int}
    (h : wp Recorded (fun _ => True) operation
      (fun code tr => code = 0 → BypassTrace bypassList tr) [⟨.lock, true⟩]) :
    wp Recorded (fun _ => True) (locked operation)
      (fun code tr => code = 0 → BypassTrace bypassList tr) [] := by
  refine wp_bind.mpr (wp_ask.mpr ⟨trivial, fun acquired tr htr => ⟨trivial, ?_⟩⟩)
  obtain rfl : tr = [(⟨.lock, acquired⟩ : Event)] := htr
  cases acquired with
  | false => exact wp_fail_recorded _
  | true =>
    refine wp_seq h (fun _ _ => trivial) fun result tr _ h => ?_
    refine wp_bind.mpr (wp_ask.mpr ⟨trivial, fun r tr' htr => ⟨trivial, ?_⟩⟩)
    obtain rfl : tr' = tr ++ [(⟨.unlock, r⟩ : Event)] := htr
    exact wp_ret.mpr ⟨trivial, fun h0 => (h h0).concat (fun _ => rfl) rfl trivial⟩

theorem wp_readPid_recorded (tr : List Event) :
    wp Recorded (fun _ => True) fpReadPid (fun _ tr' => ∃ record, tr' = tr ++ [⟨.readRecord, record⟩])
      tr := by
  refine wp_bind.mpr (wp_ask.mpr ⟨trivial, fun record tr' htr => ⟨trivial, ?_⟩⟩)
  cases record with
  | none => exact wp_ret.mpr ⟨trivial, none, htr⟩
  | some record => exact wp_ret.mpr ⟨trivial, some record, htr⟩

/-- The file is saved, then the rules are made. -/
theorem wp_update_recorded {previous config : Config} {record : Option Record} {wasRunning : Bool}
    (hparse : fpParseBypassList bypassList previous = (0, config)) :
    wp Recorded (fun _ => True) (Prog.all [fpConfigSave config, updateRules wasRunning config])
      (fun code tr => code = 0 → BypassTrace bypassList tr)
      [⟨.lock, true⟩, ⟨.configLoad, some previous⟩, ⟨.readRecord, record⟩] := by
  refine wp_bind.mpr (wp_bind.mpr (wp_ask.mpr ⟨trivial, fun saved tr htr => ⟨trivial, ?_⟩⟩))
  obtain rfl : tr = [(⟨.lock, true⟩ : Event), ⟨.configLoad, some previous⟩, ⟨.readRecord, record⟩,
    ⟨.configSave config, saved⟩] := htr
  refine wp_ret.mpr ⟨trivial, ?_⟩
  cases saved with
  | false => exact wp_fail_recorded _
  | true =>
    refine wp_seq (wp_updateRules_recorded wasRunning config _) (fun _ _ => trivial) ?_
    intro enabled tr _ h
    split
    swap
    · exact wp_fail_recorded _
    rename_i h0
    obtain ⟨more, rfl, hmore, hmade⟩ := h h0
    refine wp_ret.mpr ⟨trivial, fun _ => ⟨previous, config, record, more, hparse, rfl, hmore, ?_⟩⟩
    rcases hmade with rfl | hmade
    · exact .inr (by simp [resetsChain])
    · exact .inl hmade

theorem wp_setBypass_recorded (bypassList : List Char) :
    wp Recorded (fun _ => True) (fpSetBypass bypassList)
      (fun code tr => code = 0 → BypassTrace bypassList tr) [] := by
  refine wp_locked_recorded ?_
  refine wp_bind.mpr (wp_ask.mpr ⟨trivial, fun loaded tr htr => ⟨trivial, ?_⟩⟩)
  obtain rfl : tr = [(⟨.lock, true⟩ : Event), ⟨.configLoad, loaded⟩] := htr
  cases loaded with
  | none => exact wp_fail_recorded _
  | some previous =>
    simp only
    split
    swap
    · exact wp_fail_recorded _
    rename_i config hparse
    rw [updateConfig_eq]
    refine wp_seq (wp_readPid_recorded _) (fun _ _ => trivial) ?_
    rintro pid _ - ⟨record, rfl⟩
    refine wp_seq (wp_update_recorded hparse) (fun _ _ => trivial) fun updated tr _ h => ?_
    split
    · rename_i h0
      exact wp_ret.mpr ⟨trivial, fun _ => h h0⟩
    · exact wp_after fun _ _ => wp_after fun _ => wp_fail_recorded

end

/-! ## Both sides -/

/-- The daemon has read the configuration after the new one was saved. -/
def LoadsAfterSave (m : List Happening) : Prop :=
  ∃ m₁ m₂ c c', m = m₁ ++ (.left, ⟨.configLoad, some c⟩) :: m₂ ∧
    (.right, ⟨.configSave c', true⟩) ∈ m₁

/-- The file after calls that save nothing but `config`. -/
theorem file_after {config : Config} : ∀ (evs : List Event) (f : ConfigFile),
    (∀ c, (⟨.configSave c, true⟩ : Event) ∈ evs → c = config) →
      (⟨.configSave config, true⟩ ∈ evs → evs.foldl fileEffect f = .saved config) ∧
      (⟨.configSave config, true⟩ ∉ evs → evs.foldl fileEffect f = f)
  | [], f, _ => by simp
  | ev :: evs, f, h => by
    have ih := file_after evs (fileEffect f ev) fun c hc => h c (List.mem_cons_of_mem ev hc)
    rw [List.foldl_cons]
    by_cases hev : ev = ⟨.configSave config, true⟩
    · subst hev
      refine ⟨fun _ => ?_, fun hn => absurd List.mem_cons_self hn⟩
      by_cases hm : (⟨.configSave config, true⟩ : Event) ∈ evs
      · exact ih.1 hm
      · exact ih.2 hm
    · have hsame : fileEffect f ev = f := by
        obtain ⟨e, r⟩ := ev
        cases e with
        | configSave c =>
          cases r with
          | true => exact absurd (by rw [h c List.mem_cons_self]) hev
          | false => rfl
        | _ => rfl
      rw [hsame] at ih ⊢
      refine ⟨fun hm => ih.1 ?_, fun hn => ih.2 fun hm => hn (List.mem_cons_of_mem ev hm)⟩
      exact (List.mem_cons.mp hm).resolve_left fun he => hev he.symm

section Both

variable {s s' : Sys} {p' : App (Option Int)} {q' : App Int} {m : List Happening} {config : Config}
  {argv : List (List Char)} {self : Nat} {bypassList : List Char}

/-- The configuration that a turn loads is the new one after the save, the old one before. -/
theorem load_of_split {x : Side} {c : Config} {m₁ m₂ : List Happening}
    (h : Inter sysRel (daemonStart argv self) (fpSetBypass bypassList) s
      (m₁ ++ (x, ⟨.configLoad, some c⟩) :: m₂) p' q' s')
    (hsaves : ∀ c, (⟨.configSave c, true⟩ : Event) ∈ m₁.map Prod.snd → c = config) :
    (⟨.configSave config, true⟩ ∈ m₁.map Prod.snd → c = config) ∧
      (⟨.configSave config, true⟩ ∉ m₁.map Prod.snd → s.file.load = some c) := by
  obtain ⟨p₁, q₁, s₁, s₂, h₁, hload⟩ := h.split
  have hfile := h₁.observe sysRel_file
  have hc := (configLoad_cases hload).2 c rfl
  obtain ⟨hmem, hnot⟩ := file_after _ s.file hsaves
  constructor
  · intro hm
    rw [hfile, hmem hm] at hc
    exact (Option.some.inj hc).symm
  · intro hn
    rwa [hfile, hnot hn] at hc

/-- The calls of both sides: the daemon loads `c`, the operation loads `previous` and saves `config`,
and after that no side looks at the file. -/
structure BothTraces (m : List Happening) (c previous config : Config) : Prop where
  left : ∃ rest, side .left m = ⟨.configLoad, some c⟩ :: rest ∧ ∀ ev ∈ rest, ev.1.NoConfig
  right : ∃ record rest, side .right m = ⟨.lock, true⟩ :: ⟨.configLoad, some previous⟩ ::
    ⟨.readRecord, record⟩ :: ⟨.configSave config, true⟩ :: rest ∧ ∀ ev ∈ rest, ev.1.NoConfig

section Traces

variable {c previous : Config}

/-- There is one save, and it is the operation's. -/
theorem BothTraces.save_eq (ht : BothTraces m c previous config) {x : Side} {c' : Config}
    (hm : (x, (⟨.configSave c', true⟩ : Event)) ∈ m) : x = .right ∧ c' = config := by
  obtain ⟨⟨rest, hleft, hrest⟩, record, restB, hright, hrestB⟩ := ht
  have hm' := mem_side.mpr hm
  cases x with
  | left =>
    rw [hleft] at hm'
    rcases List.mem_cons.mp hm' with he | he
    · simp at he
    · exact (hrest _ he).elim
  | right =>
    rw [hright] at hm'
    simp only [List.mem_cons, Sigma.mk.injEq, reduceCtorEq, false_and, false_or,
      Op.configSave.injEq] at hm'
    rcases hm' with he | he
    · exact ⟨rfl, he.1⟩
    · exact (hrestB _ he).elim

theorem BothTraces.saved (ht : BothTraces m c previous config) :
    (.right, (⟨.configSave config, true⟩ : Event)) ∈ m := by
  obtain ⟨-, record, rest, hright, -⟩ := ht
  rw [← mem_side, hright]
  simp

theorem BothTraces.saves (ht : BothTraces m c previous config) {m₁ : List Happening}
    (hsub : ∀ y ∈ m₁, y ∈ m) :
    ∀ c', (⟨.configSave c', true⟩ : Event) ∈ m₁.map Prod.snd → c' = config := by
  intro c' hm
  obtain ⟨⟨x, _⟩, hx, rfl⟩ := List.mem_map.mp hm
  exact (ht.save_eq (hsub _ hx)).2

theorem BothTraces.load_eq (ht : BothTraces m c previous config) {c₀ : Config}
    (hm : (.left, (⟨.configLoad, some c₀⟩ : Event)) ∈ m) : c₀ = c := by
  obtain ⟨⟨rest, hleft, hrest⟩, -⟩ := ht
  have hm' := mem_side.mpr hm
  rw [hleft] at hm'
  rcases List.mem_cons.mp hm' with he | he
  · simpa using he
  · exact (hrest _ he).elim

theorem BothTraces.file (ht : BothTraces m c previous config)
    (h : Inter sysRel (daemonStart argv self) (fpSetBypass bypassList) s m p' q' s') :
    s'.file = .saved config := by
  rw [h.observe sysRel_file]
  exact (file_after _ s.file (ht.saves fun _ hy => hy)).1 (List.mem_map.mpr ⟨_, ht.saved, rfl⟩)

/-- The operation loads before it saves. -/
theorem BothTraces.previous_load (ht : BothTraces m c previous config)
    (h : Inter sysRel (daemonStart argv self) (fpSetBypass bypassList) s m p' q' s') :
    s.file.load = some previous := by
  obtain ⟨-, record, rest, hright, -⟩ := id ht
  have hload : side .right m = [⟨.lock, true⟩] ++ (⟨.configLoad, some previous⟩ : Event) :: _ := hright
  obtain ⟨m₁, m₂, rfl, hpre, -⟩ := side_split hload
  refine (load_of_split h (ht.saves fun y hy => List.mem_append_left _ hy)).2 fun hm => ?_
  obtain ⟨⟨x, _⟩, hx, rfl⟩ := List.mem_map.mp hm
  obtain ⟨rfl, -⟩ := ht.save_eq (List.mem_append_left _ hx)
  rw [← mem_side, hpre] at hx
  simp at hx

/-- So does the daemon, or it loads what has been saved. -/
theorem BothTraces.loads (ht : BothTraces m c previous config)
    (h : Inter sysRel (daemonStart argv self) (fpSetBypass bypassList) s m p' q' s')
    {m₁ m₂ : List Happening} (hm : m = m₁ ++ (.left, ⟨.configLoad, some c⟩) :: m₂) :
    ((.right, ⟨.configSave config, true⟩) ∈ m₁ → c = config) ∧
      ((.right, ⟨.configSave config, true⟩) ∉ m₁ → c = previous) := by
  have hprevious := ht.previous_load h
  subst hm
  obtain ⟨hmem, hnot⟩ := load_of_split h (ht.saves fun y hy => List.mem_append_left _ hy)
  refine ⟨fun hm => hmem (List.mem_map.mpr ⟨_, hm, rfl⟩), fun hn => ?_⟩
  refine Option.some.inj ((hnot fun hm => hn ?_).symm.trans hprevious)
  obtain ⟨⟨x, _⟩, hx, rfl⟩ := List.mem_map.mp hm
  obtain ⟨rfl, -⟩ := ht.save_eq (List.mem_append_left _ hx)
  exact hx

theorem BothTraces.loads_iff (ht : BothTraces m c previous config)
    (h : Inter sysRel (daemonStart argv self) (fpSetBypass bypassList) s m p' q' s') :
    (LoadsAfterSave m → c = config) ∧ (¬ LoadsAfterSave m → c = previous) := by
  constructor
  · rintro ⟨m₁, m₂, c₀, c', hm, hc'⟩
    obtain rfl : c₀ = c := by
      refine ht.load_eq ?_
      rw [hm]
      exact List.mem_append_right _ List.mem_cons_self
    obtain ⟨-, rfl⟩ : Side.right = Side.right ∧ c' = config := by
      refine ht.save_eq ?_
      rw [hm]
      exact List.mem_append_left _ hc'
    exact (ht.loads h hm).1 hc'
  · intro hno
    obtain ⟨rest, hleft, -⟩ := ht.left
    have hfirst : side .left m = [] ++ (⟨.configLoad, some c⟩ : Event) :: rest := hleft
    obtain ⟨m₁, m₂, hm, -, -⟩ := side_split hfirst
    exact (ht.loads h hm).2 fun hmem => hno ⟨m₁, m₂, c, config, hm, hmem⟩

end Traces

/-- **Which configuration the chain and the file hold** after an orderly run. -/
theorem update_outcome
    (h : Inter sysRel (daemonStart argv self) (fpSetBypass bypassList) s m (.ret none) (.ret 0) s')
    (hord : orderly resetsChain appendsRule none m = true) :
    ∃ previous config c, s.file.load = some previous ∧
      fpParseBypassList bypassList previous = (0, config) ∧ s'.file = .saved config ∧
      (c = previous ∨ c = config) ∧ (LoadsAfterSave m → c = config) ∧
      (¬ LoadsAfterSave m → c = previous) ∧
      ((owner resetsChain none m = some .left ∧ s'.table.chain = some c.rules) ∨
        (owner resetsChain none m = some .right ∧ s'.table.chain = some config.rules)) := by
  obtain ⟨c, rest, hleft, hrest, hmadeD⟩ := h.left_post (wp_daemonStart_recorded argv self) rfl
  obtain ⟨previous, config, record, restB, hparse, hright, hrestB, hmadeB⟩ :=
    h.right_post (wp_setBypass_recorded bypassList) rfl
  have ht : BothTraces m c previous config := ⟨⟨rest, hleft, hrest⟩, record, restB, hright, hrestB⟩
  obtain ⟨hafter, hbefore⟩ := ht.loads_iff h
  refine ⟨previous, config, c, ht.previous_load h, hparse, ht.file h, ?_, hafter, hbefore, ?_⟩
  · by_cases hl : LoadsAfterSave m
    · exact .inr (hafter hl)
    · exact .inl (hbefore hl)
  -- the owner's rules are the chain
  have hchain : ∀ x, owner resetsChain none m = some x → s'.table.chain = built (side x m) := by
    intro x hx
    rw [h.observe sysRel_chain]
    exact fold_of_owner chainEffect_resets chainEffect_quiet m none _ (fun _ => none) hord
      (by simp) x hx
  obtain ⟨ev, hev, hreset⟩ := hmadeD.resets
  have hsome : owner resetsChain none m ≠ none :=
    owner_ne_none (.inr ⟨_, mem_side.mp hev, hreset⟩)
  obtain ⟨x, hx⟩ := Option.ne_none_iff_exists'.mp hsome
  cases x with
  | left => exact .inl ⟨hx, (hchain _ hx).trans hmadeD.built⟩
  | right =>
    refine .inr ⟨hx, (hchain _ hx).trans (hmadeB.resolve_right fun hno => ?_).built⟩
    obtain ⟨ev', hev', hreset'⟩ := (exists_reset hx).resolve_left (by simp)
    rw [hno ev' hev'] at hreset'
    simp at hreset'

end Both

/-- **When a start and a change of the list do not lose each other's effect.** -/
theorem update_kept_iff (usr : UserRules) {s s' : Sys} {argv : List (List Char)} {self : Nat}
    {bypassList : List Char} {m : List Happening}
    (h : Inter sysRel (daemonStart argv self) (fpSetBypass bypassList) s m (.ret none) (.ret 0) s')
    (hord : orderly resetsChain appendsRule none m = true) :
    (∀ d, ∃ l c, s'.table.chain = some l ∧ s'.file.load = some c ∧
        chainVerdict usr l d = c.policy d) ↔
      (owner resetsChain none m = some .right ∨ LoadsAfterSave m ∨
        ∀ previous config, s.file.load = some previous →
          fpParseBypassList bypassList previous = (0, config) →
            ∀ d, previous.policy d = config.policy d) := by
  obtain ⟨previous, config, c, hprevious, hparse, hfile, hc, hafter, hbefore, hchain⟩ :=
    update_outcome h hord
  rw [hfile]
  constructor
  · intro hall
    by_contra hno
    rw [not_or, not_or] at hno
    obtain ⟨hright, hloads, hno⟩ := hno
    obtain ⟨-, hchain⟩ := hchain.resolve_right fun h => hright h.1
    refine hno fun previous' config' hprevious' hparse' d => ?_
    obtain rfl := Option.some.inj (hprevious.symm.trans hprevious')
    obtain rfl : config = config' := congrArg Prod.snd (hparse.symm.trans hparse')
    obtain ⟨l, c', hl, hc', hverdict⟩ := hall d
    obtain rfl := Option.some.inj (hchain.symm.trans hl)
    obtain rfl : config = c' := Option.some.inj hc'
    rwa [chainVerdict_rules, hbefore hloads] at hverdict
  · intro hcond d
    rcases hchain with ⟨hleft, hchain⟩ | ⟨-, hchain⟩
    · refine ⟨c.rules, config, hchain, rfl, ?_⟩
      rw [chainVerdict_rules]
      rcases hcond with hright | hloads | hagree
      · rw [hleft] at hright
        simp at hright
      · rw [hafter hloads]
      · rcases hc with rfl | rfl
        · exact hagree c config hprevious hparse d
        · rfl
    · exact ⟨config.rules, config, hchain, rfl, chainVerdict_rules usr config d⟩

/-! ## Two orders -/

/-- Process `50` is about to run `free_proxy run`; nothing is installed. -/
def startingSys : Sys := ⟨.saved plainConfig, none, none, userTable, [.spawned 50 7]⟩

/-- A list with one entry. -/
def wideList : List Char := "10.0.0.0/8".toList

/-- The start beside `fp_set_bypass` of `wideList`, by a schedule. -/
def startBeside (schedule : List (Side × Choice)) :
    List Happening × App (Option Int) × App Int × Sys :=
  interleave sys schedule (daemonStart runArgv 50) (fpSetBypass wideList) startingSys

/-- The operation loads the configuration before the daemon has the listener, finds its record, saves the list
while the daemon builds the chain, and builds it again when the daemon has inserted the jump. -/
def inTurn : List (Side × Choice) :=
  let sides : List Side := [.right, .left, .right, .left, .left, .left, .right, .left, .left, .left, .left, .right]
  (sides ++ List.replicate 4 Side.left ++ List.replicate 30 Side.right).map fun x => (x, goodChoice)

/-- The list is set when the daemon has loaded its configuration. -/
def inBetween : List (Side × Choice) :=
  (.left, goodChoice) :: List.replicate 30 (.right, goodChoice) ++ List.replicate 30 (.left, goodChoice)

/-- They take turns: both succeed, and `10.1.2.3` is not redirected. -/
theorem update_kept_inTurn :
    (startBeside inTurn).2.1.result = some none ∧ (startBeside inTurn).2.2.1.result = some 0 ∧
      ∃ l, (startBeside inTurn).2.2.2.table.chain = some l ∧
        chainVerdict (fun _ _ => none) l 0x0a010203 = .ret := by
  have hrun : Inter sysRel (daemonStart runArgv 50) (fpSetBypass wideList) startingSys
      (startBeside inTurn).1 (.ret none) (.ret 0) (startBeside inTurn).2.2.2 :=
    inter_interleave sys inTurn _ _ _
  have hkept := (update_kept_iff (fun _ _ => none) hrun rfl).mpr (.inl rfl)
  obtain ⟨l, c, hl, hc, hverdict⟩ := hkept 0x0a010203
  refine ⟨rfl, rfl, l, hl, hverdict.trans (policy_of_direct ?_)⟩
  obtain rfl := Option.some.inj hc
  decide

/-- **A lost update**: both succeed, the file excludes `10.0.0.0/8`, and the chain redirects it. -/
theorem update_lost : ¬ ∀ (usr : UserRules) (s s' : Sys) argv self bypassList (m : List Happening),
    Inter sysRel (daemonStart argv self) (fpSetBypass bypassList) s m (.ret none) (.ret 0) s' →
      ∀ d, ∃ l c, s'.table.chain = some l ∧ s'.file.load = some c ∧
        chainVerdict usr l d = c.policy d := by
  intro h
  have hrun : Inter sysRel (daemonStart runArgv 50) (fpSetBypass wideList) startingSys
      (startBeside inBetween).1 (.ret none) (.ret 0) (startBeside inBetween).2.2.2 :=
    inter_interleave sys inBetween _ _ _
  obtain ⟨l, c, hl, hc, hverdict⟩ := h (fun _ _ => none) _ _ _ _ _ _ hrun 0x0a010203
  obtain rfl := Option.some.inj hl
  obtain rfl := Option.some.inj hc
  exact absurd hverdict (by decide)

end FreeProxy
