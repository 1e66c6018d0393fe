import FreeProxy.System.Update

/-!
# One daemon after another

The end of one `run` process beside the start of another. `Inter` is any order of their calls; the
old daemon is the left side, from leaving its accept loop on, the new one the right side. The port is
all that keeps the new one out: `listen` fails while the old one listens, and its listener is what the
old one gives up first. The paths of the record and of the stats file, the chain and the jump carry
no owner.

A call on a path counts as made when it opens, creates or unlinks the file.

* **`handover_clean`**: when the old daemon takes nothing away after the new one has made it
  (`timely`), a new daemon that serves has its record, its stats file, its rules and its jump.
* `handover_unclean`: nothing in the code waits for that.

Out of scope: the workers of either daemon, and operations that run beside them.
-/

namespace FreeProxy

open Lib

/-! ## What the new daemon does -/

/-- The commands that take neither the chain nor the jump away. -/
def Cmd.Installs : Cmd → Prop
  | .deleteChain | .deleteJump => False
  | _ => True

/-- The calls of a start that succeeds, with their answers. -/
def Installs (new : Nat) (c : Config) (ev : Event) : Prop :=
  match ev with
  | ⟨.writePid self config, r⟩ => self = new ∧ config = c ∧ r = true
  | ⟨.statsCreate self, r⟩ => self = new ∧ r = true
  | ⟨.ipt e, _⟩ => e.Installs
  | ⟨.configLoad, _⟩ | ⟨.listen _ _, _⟩ | ⟨.signalReady _, _⟩ => True
  | _ => False

/-- The new daemon has written its record. -/
def writesRecord (ev : Event) : Bool :=
  match ev with
  | ⟨.writePid _ _, r⟩ => r
  | _ => false

/-- The new daemon has made its stats file. -/
def createsStats (ev : Event) : Bool :=
  match ev with
  | ⟨.statsCreate _, r⟩ => r
  | _ => false

/-- The new daemon has flushed the chain. -/
def flushesChain (ev : Event) : Bool :=
  match ev with
  | ⟨.ipt .flushChain, r⟩ => r
  | _ => false

/-- `fp_firewall_enable` finds a jump, or inserts one. -/
def findsJump (ev : Event) : Bool :=
  match ev with
  | ⟨.ipt .checkJump, r⟩ | ⟨.ipt .insertJump, r⟩ => r
  | _ => false

/-- `tr'` goes on from `tr` with calls of an installation. -/
def Grows (new : Nat) (c : Config) (tr tr' : List Event) : Prop :=
  ∃ more, tr' = tr ++ more ∧ ∀ ev ∈ more, Installs new c ev

section Trace

variable {new : Nat} {c : Config}

theorem Grows.refl (new : Nat) (c : Config) (tr : List Event) : Grows new c tr tr := ⟨[], by simp, by simp⟩

theorem Grows.concat {tr tr' : List Event} (h : Grows new c tr tr') (ev : Event)
    (hev : Installs new c ev) : Grows new c tr (tr' ++ [ev]) := by
  obtain ⟨more, rfl, hmore⟩ := h
  refine ⟨more ++ [ev], by simp, fun x hx => ?_⟩
  rcases List.mem_append.mp hx with hx | hx
  · exact hmore x hx
  · rwa [List.mem_singleton.mp hx]

theorem Grows.trans {tr tr₁ tr₂ : List Event} (h : Grows new c tr tr₁) (h' : Grows new c tr₁ tr₂) :
    Grows new c tr tr₂ := by
  obtain ⟨more, rfl, hmore⟩ := h
  obtain ⟨more', rfl, hmore'⟩ := h'
  refine ⟨more ++ more', by simp, fun x hx => ?_⟩
  rcases List.mem_append.mp hx with hx | hx
  · exact hmore x hx
  · exact hmore' x hx

theorem Grows.any {tr tr' : List Event} (h : Grows new c tr tr') {f : Event → Bool}
    (hf : tr.any f = true) : tr'.any f = true := by
  obtain ⟨more, rfl, -⟩ := h
  rw [List.any_append, hf, Bool.true_or]

theorem any_concat {tr : List Event} {ev : Event} {f : Event → Bool} (hf : f ev = true) :
    (tr ++ [ev]).any f = true := by
  simp [hf]

theorem wp_grows (new : Nat) (c : Config) {p : Fw Int} (hp : p.Calls Cmd.Installs)
    (tr : List Event) : wp RecordedIpt (fun _ => True) p (fun _ tr' => Grows new c tr tr') tr := by
  refine (wp_calls (I := Grows new c tr) hp ?_ (.refl new c tr)).mono (fun _ _ => trivial) fun _ _ h => h
  rintro e _ r _ he h rfl
  exact h.concat ⟨.ipt e, r⟩ he

theorem calls_ensureChain : ensureChain.Calls Cmd.Installs := by
  refine ⟨trivial, fun present => ?_⟩
  cases present with
  | true => trivial
  | false => exact calls_runIptables trivial

/-- What a successful `fp_firewall_enable` has done to the calls. -/
def EnableTrace (new : Nat) (c : Config) (tr tr' : List Event) : Prop :=
  Grows new c tr tr' ∧ tr'.any flushesChain = true ∧ tr'.any findsJump = true

theorem wp_enable_trace (new : Nat) (c : Config) (tr : List Event) :
    wp RecordedIpt (fun _ => True) (fpFirewallEnable c)
      (fun code tr' => code = 0 → EnableTrace new c tr tr') tr := by
  refine wp_enable_success c (P := fun _ tr' => Grows new c tr tr' ∧ tr'.any flushesChain = true)
    (wp_grows new c calls_ensureChain tr) (fun _ _ _ _ _ _ _ => trivial) ?_ ?_ ?_
  · rintro tr₁ _ h rfl
    exact ⟨h.concat _ trivial, any_concat rfl⟩
  · rintro l spec r a tr₁ _ - - - ⟨h, hflush⟩ rfl
    refine ⟨trivial, fun _ => ⟨h.concat _ trivial, ?_⟩⟩
    rw [List.any_append, hflush, Bool.true_or]
  · rintro tr₁ - ⟨h, hflush⟩
    refine wp_bind.mpr (wp_run_recorded ?_ ?_)
    · have hfound := h.concat ⟨.ipt .checkJump, true⟩ trivial
      refine wp_ret.mpr ⟨trivial, fun _ => ⟨hfound, ?_, any_concat rfl⟩⟩
      rw [List.any_append, hflush, Bool.true_or]
    · have hinserted :=
        (h.concat ⟨.ipt .checkJump, false⟩ trivial).concat ⟨.ipt .insertJump, true⟩ trivial
      refine wp_run_recorded (fun _ => ⟨hinserted, ?_, any_concat rfl⟩) (by simp)
      rw [List.any_append, List.any_append, hflush, Bool.true_or, Bool.true_or]

/-- **The calls of a daemon that serves.** -/
structure StartTrace (new : Nat) (c : Config) (tr : List Event) : Prop where
  loaded : ⟨.configLoad, some c⟩ ∈ tr
  installs : ∀ ev ∈ tr, Installs new c ev
  created : tr.any createsStats = true
  recorded : tr.any writesRecord = true
  flushed : tr.any flushesChain = true
  jump : tr.any findsJump = true
  built : built tr = some c.rules

theorem wp_install_trace (tr : List Event) : wp Recorded (fun _ => True) (fpProxyInstall new c)
    (fun installed tr' => installed.2 = 0 → EnableTrace new c tr tr' ∧ tr'.any createsStats = true ∧
      tr'.any writesRecord = true ∧ built tr' = some c.rules) tr := by
  refine wp_bind.mpr (wp_ask.mpr ⟨trivial, fun created tr₁ htr₁ => ⟨trivial, ?_⟩⟩)
  obtain rfl : tr₁ = tr ++ [(⟨.statsCreate new, created⟩ : Event)] := htr₁
  cases created with
  | false => exact wp_ret.mpr ⟨trivial, by simp⟩
  | true =>
    refine wp_bind.mpr (wp_ask.mpr ⟨trivial, fun written tr₂ htr₂ => ⟨trivial, ?_⟩⟩)
    obtain rfl : tr₂ = tr ++ [(⟨.statsCreate new, true⟩ : Event)] ++
      [(⟨.writePid new c, written⟩ : Event)] := htr₂
    cases written with
    | false => exact wp_ret.mpr ⟨trivial, by simp⟩
    | true =>
      have hstart := ((Grows.refl new c tr).concat ⟨.statsCreate new, true⟩ ⟨rfl, rfl⟩).concat
        ⟨.writePid new c, true⟩ ⟨rfl, rfl, rfl⟩
      have henable := (wp_fw_recorded (wp_enable_trace new c
        (tr ++ [⟨.statsCreate new, true⟩] ++ [⟨.writePid new c, true⟩]))).and
          (wp_fw_recorded (wp_enable_recorded c
            (tr ++ [⟨.statsCreate new, true⟩] ++ [⟨.writePid new c, true⟩])))
      refine wp_seq henable (fun _ _ => trivial) fun code tr₃ _ h => wp_ret.mpr ⟨trivial, fun h0 => ?_⟩
      obtain ⟨hgrows, hflush, hjump⟩ := h.1 h0
      refine ⟨⟨hstart.trans hgrows, hflush, hjump⟩, hgrows.any ?_, hgrows.any (any_concat rfl),
        (h.2 h0).built⟩
      rw [List.any_append, any_concat rfl, Bool.true_or]

theorem StartTrace.concat {tr : List Event} (h : StartTrace new c tr) {ev : Event}
    (hev : Installs new c ev) (hchain : ∀ o, chainEffect o ev = o) : StartTrace new c (tr ++ [ev]) where
  loaded := List.mem_append_left _ h.loaded
  installs x hx := by
    rcases List.mem_append.mp hx with hx | hx
    · exact h.installs x hx
    · rwa [List.mem_singleton.mp hx]
  created := by rw [List.any_append, h.created, Bool.true_or]
  recorded := by rw [List.any_append, h.recorded, Bool.true_or]
  flushed := by rw [List.any_append, h.flushed, Bool.true_or]
  jump := by rw [List.any_append, h.jump, Bool.true_or]
  built := by rw [built_concat, hchain, h.built]

theorem wp_proxyStart_trace (readyFd : Int) :
    wp Recorded (fun _ => True) (fpProxyStart new c readyFd)
      (fun code tr => code = 0 → StartTrace new c tr) [⟨.configLoad, some c⟩] := by
  have hfail : ∀ tr : List Event, wp Recorded (fun _ => True) (.ret (-1) : App Int)
      (fun code tr => code = 0 → StartTrace new c tr) tr := fun tr => wp_ret.mpr ⟨trivial, by simp⟩
  rw [fpProxyStart_eq]
  refine wp_bind.mpr (wp_ask.mpr ⟨trivial, fun bound tr₁ htr₁ => ⟨trivial, ?_⟩⟩)
  split
  swap
  · exact wp_after fun _ => hfail
  have hgrows : Grows new c [] tr₁ := by
    have hload := (Grows.refl new c []).concat ⟨.configLoad, some c⟩ trivial
    rw [htr₁]
    exact hload.concat ⟨.listen new c, bound⟩ trivial
  have hload : (⟨.configLoad, some c⟩ : Event) ∈ tr₁ := by
    rw [htr₁]
    exact List.mem_cons_self
  refine wp_seq (wp_install_trace tr₁) (fun _ _ => trivial) fun installed tr₂ _ h => ?_
  split
  swap
  · exact wp_after fun _ => hfail
  rename_i h0
  obtain ⟨⟨hgrows₂, hflush, hjump⟩, hcreated, hrecorded, hbuilt⟩ := h h0
  have hstart : StartTrace new c tr₂ := by
    obtain ⟨all, rfl, hinstalls⟩ := hgrows.trans hgrows₂
    obtain ⟨more, htr₂, -⟩ := hgrows₂
    exact ⟨by rw [htr₂]; exact List.mem_append_left _ hload, hinstalls, hcreated, hrecorded, hflush,
      hjump, hbuilt⟩
  have hready : wp Recorded (fun _ => True) (signalReady readyFd 'R')
      (fun _ tr => StartTrace new c tr) tr₂ := by
    unfold signalReady
    split
    · refine wp_ask.mpr ⟨trivial, fun r tr₃ htr₃ => ⟨trivial, ?_⟩⟩
      rw [htr₃]
      exact hstart.concat trivial fun _ => rfl
    · exact wp_ret.mpr ⟨trivial, hstart⟩
  exact wp_seq hready (fun _ _ => trivial) fun _ _ _ h => wp_ret.mpr ⟨trivial, fun _ => h⟩

theorem wp_start_trace (argv : List (List Char)) (new : Nat) :
    wp Recorded (fun _ => True) (daemonStart argv new)
      (fun o tr => o = none → ∃ c, StartTrace new c tr) [] := by
  have hfail : ∀ tr : List Event, wp Recorded (fun _ => True) (.ret (some 1) : App (Option Int))
      (fun o tr => o = none → ∃ c, StartTrace new c tr) tr := fun tr => wp_ret.mpr ⟨trivial, by simp⟩
  unfold daemonStart
  cases readyArgument argv with
  | none => exact hfail []
  | some readyFd =>
    refine wp_bind.mpr (wp_ask.mpr ⟨trivial, fun loaded tr htr => ⟨trivial, ?_⟩⟩)
    obtain rfl : tr = [(⟨.configLoad, loaded⟩ : Event)] := htr
    cases loaded with
    | none => exact wp_after fun _ => hfail
    | some c =>
      refine wp_seq (wp_proxyStart_trace readyFd) (fun _ _ => trivial) fun started tr _ h => ?_
      split
      · rename_i h0
        exact wp_ret.mpr ⟨trivial, fun _ => ⟨c, h h0⟩⟩
      · exact wp_after fun _ => hfail

end Trace

/-! ## What the old daemon takes away -/

/-- The calls of a daemon that stops. -/
def Op.Releases : Op → Prop
  | .closeListener _ | .removePid | .statsUnlink => True
  | .ipt e => e.Removes
  | _ => False

theorem calls_daemonStop (old : Nat) (stopped : Bool) :
    (daemonStop old stopped).Calls Op.Releases := by
  have hstop : (fpProxyStop old).Calls Op.Releases :=
    calls_bind (calls_ask trivial) fun _ => calls_bind (calls_ask trivial) fun _ => calls_ask trivial
  exact calls_bind hstop fun _ => calls_bind (calls_hoist calls_disable) fun _ => calls_ret _

/-- With the calls `done` of the new daemon before it, a call of the old one takes away what they have
made. -/
def takesAway (done : List Event) (ev : Event) : Bool :=
  match ev with
  | ⟨.removePid, _⟩ => done.any writesRecord
  | ⟨.statsUnlink, _⟩ => done.any createsStats
  | ⟨.ipt .flushChain, r⟩ => r && done.any appendsRule
  | ⟨.ipt .deleteJump, r⟩ => r && done.any findsJump
  | _ => false

/-- What the new daemon has made is there. From its flush on the chain is what its own commands have
made of it; while that is empty the old daemon may still remove the chain. -/
structure KeepsRules (done : List Event) (t : Table) : Prop where
  chain : done.any flushesChain = true → ∃ l, built done = some l ∧
    (t.chain = some l ∨ (l = [] ∧ t.chain = none)) ∧ (l ≠ [] → done.any appendsRule = true)
  jump : done.any findsJump = true → .jump ∈ t.output

/-- What the new daemon has made is there. -/
structure KeepsAll (new : Nat) (c : Config) (done : List Event) (s : Sys) : Prop where
  record : done.any writesRecord = true → ∃ startTime, s.record = Record.make new startTime c
  stats : done.any createsStats = true → s.stats = some new
  rules : KeepsRules done s.table

/-- A command of the old daemon that takes nothing away. -/
theorem KeepsRules.released {done : List Event} {t t' : Table} {e : Cmd} {r : Bool}
    (h : KeepsRules done t) (he : e.Removes) (hlate : takesAway done ⟨.ipt e, r⟩ = false)
    (hr : Ipt e t r t') : KeepsRules done t' := by
  rcases hr with ⟨rfl, hact⟩ | ⟨-, rfl⟩
  swap
  · exact h
  cases e with
  | newChain | insertJump => exact he.elim
  | listChain =>
    obtain ⟨-, rfl⟩ := act_listChain.mp hact
    exact h
  | checkJump =>
    obtain ⟨-, rfl⟩ := act_checkJump.mp hact
    exact h
  | rule op spec =>
    cases op with
    | append => exact he.elim
    | check =>
      obtain ⟨_, _, -, -, -, rfl⟩ := act_check.mp hact
      exact h
  | flushChain =>
    obtain ⟨-, rfl⟩ := act_flushChain.mp hact
    refine ⟨fun hflush => ?_, h.jump⟩
    obtain ⟨l, hbuilt, -, happend⟩ := h.chain hflush
    have hnone : done.any appendsRule = false := by simpa [takesAway] using hlate
    obtain rfl : l = [] := by
      by_contra hl
      rw [happend hl] at hnone
      exact absurd hnone (by decide)
    exact ⟨[], hbuilt, .inl rfl, happend⟩
  | deleteChain =>
    obtain ⟨hempty, hj, rfl⟩ := act_deleteChain.mp hact
    refine ⟨fun hflush => ?_, h.jump⟩
    obtain ⟨l, hbuilt, hl | ⟨hl, -⟩, happend⟩ := h.chain hflush
    · obtain rfl : [] = l := Option.some.inj (hempty.symm.trans hl)
      exact ⟨[], hbuilt, .inr ⟨rfl, rfl⟩, happend⟩
    · exact ⟨l, hbuilt, .inr ⟨hl, rfl⟩, happend⟩
  | deleteJump =>
    obtain ⟨-, rfl⟩ := act_deleteJump.mp hact
    refine ⟨h.chain, fun hjump => ?_⟩
    have hnone : done.any findsJump = false := by simpa [takesAway] using hlate
    rw [hjump] at hnone
    exact absurd hnone (by decide)

theorem any_concat_iff {f : Event → Bool} {done : List Event} {ev : Event} :
    (done ++ [ev]).any f = true ↔ done.any f = true ∨ f ev = true := by
  simp

/-- A call of the new daemon that leaves the chain as it is. -/
theorem KeepsRules.concat {done : List Event} {t t' : Table} (h : KeepsRules done t) {ev : Event}
    (heffect : ∀ o, chainEffect o ev = o) (hflush : flushesChain ev = false)
    (hc : t'.chain = t.chain) (hj : .jump ∈ t.output ∨ findsJump ev = true → .jump ∈ t'.output) :
    KeepsRules (done ++ [ev]) t' where
  chain hflushed := by
    have hbefore := (any_concat_iff.mp hflushed).resolve_right (by simp [hflush])
    obtain ⟨l, hbuilt, hl, happend⟩ := h.chain hbefore
    refine ⟨l, by rw [built_concat, heffect, hbuilt], by rwa [hc], fun hne => ?_⟩
    exact any_concat_iff.mpr (.inl (happend hne))
  jump hjump := hj ((any_concat_iff.mp hjump).imp_left h.jump)

/-- A command of the new daemon. -/
theorem KeepsRules.installed {done : List Event} {t t' : Table} {e : Cmd} {r : Bool}
    (h : KeepsRules done t) (he : e.Installs) (hr : Ipt e t r t') :
    KeepsRules (done ++ [⟨.ipt e, r⟩]) t' := by
  rcases hr with ⟨rfl, hact⟩ | ⟨rfl, rfl⟩
  swap
  · refine h.concat (fun _ => rfl) ?_ rfl fun hj => hj.resolve_right ?_
    · cases e <;> rfl
    · cases e <;> simp [findsJump]
  cases e with
  | deleteChain | deleteJump => exact he.elim
  | listChain =>
    obtain ⟨-, rfl⟩ := act_listChain.mp hact
    exact h.concat (fun _ => rfl) rfl rfl fun hj => hj.resolve_right (by simp [findsJump])
  | checkJump =>
    obtain ⟨hjump, rfl⟩ := act_checkJump.mp hact
    exact h.concat (fun _ => rfl) rfl rfl fun _ => hjump
  | insertJump =>
    obtain ⟨_, rfl⟩ := act_insertJump.mp hact
    exact h.concat (fun _ => rfl) rfl rfl fun _ => List.mem_cons_self
  | newChain =>
    obtain ⟨-, rfl⟩ := act_newChain.mp hact
    refine ⟨fun _ => ⟨[], by rw [built_concat]; rfl, .inl rfl, fun hne => absurd rfl hne⟩, fun hj => ?_⟩
    exact h.jump ((any_concat_iff.mp hj).resolve_right (by simp [findsJump]))
  | flushChain =>
    obtain ⟨-, rfl⟩ := act_flushChain.mp hact
    refine ⟨fun _ => ⟨[], by rw [built_concat]; rfl, .inl rfl, fun hne => absurd rfl hne⟩, fun hj => ?_⟩
    exact h.jump ((any_concat_iff.mp hj).resolve_right (by simp [findsJump]))
  | rule op spec =>
    cases op with
    | check =>
      obtain ⟨_, _, -, -, -, rfl⟩ := act_check.mp hact
      exact h.concat (fun _ => rfl) rfl rfl fun hj => hj.resolve_right (by simp [findsJump])
    | append =>
      obtain ⟨held, rule, hheld, hrule, rfl⟩ := act_append.mp hact
      refine ⟨fun hflush => ?_, fun hj => ?_⟩
      · have hbefore := (any_concat_iff.mp hflush).resolve_right (by simp [flushesChain])
        obtain ⟨l, hbuilt, hl, -⟩ := h.chain hbefore
        -- a rule was appended, so the chain was there
        obtain rfl : l = held := by
          rcases hl with hl | ⟨-, hnone⟩
          · exact Option.some.inj (hl.symm.trans hheld)
          · rw [hnone] at hheld
            exact absurd hheld (by simp)
        refine ⟨l ++ [rule], ?_, .inl rfl, fun _ => any_concat rfl⟩
        rw [built_concat, hbuilt]
        simp [chainEffect, Cmd.chainEffect, hrule]
      · exact h.jump ((any_concat_iff.mp hj).resolve_right (by simp [findsJump]))

section Steps

variable {new : Nat} {c : Config} {done : List Event} {s s' : Sys}

theorem statsCreate_true {self : Nat} (h : sysRel (.statsCreate self) s true s') :
    s' = { s with stats := some self } := by
  obtain ⟨⟨ok, _, _, _⟩, hc⟩ := h
  cases ok with
  | true => exact (congrArg Prod.snd hc).symm
  | false => exact absurd (congrArg Prod.fst hc) (by simp [sys])

theorem writePid_true {self : Nat} {config : Config} (h : sysRel (.writePid self config) s true s') :
    ∃ startTime, s' = { s with record := Record.make self startTime config } := by
  obtain ⟨⟨ok, _, _, _⟩, hc⟩ := h
  simp only [sys] at hc
  split at hc
  · rename_i p _
    cases ok with
    | true => exact ⟨p.startTime, (congrArg Prod.snd hc).symm⟩
    | false => exact absurd (congrArg Prod.fst hc) (by simp)
  · exact absurd (congrArg Prod.fst hc) (by simp)

/-- A call of the old daemon that takes nothing away. -/
theorem KeepsAll.released {ev : Event} (h : KeepsAll new c done s) (he : ev.1.Releases)
    (hlate : takesAway done ev = false) (hr : sysRel ev.1 s ev.2 s') : KeepsAll new c done s' := by
  obtain ⟨e, r⟩ := ev
  cases e with
  | ipt e =>
    obtain ⟨hipt, hput⟩ := ipt_embeds e s r s' hr
    rw [hput]
    exact ⟨h.record, h.stats, h.rules.released he hlate hipt⟩
  | closeListener pid =>
    obtain ⟨ch, hch⟩ := hr
    obtain rfl : s.setListens pid none = s' := congrArg Prod.snd hch
    exact ⟨h.record, h.stats, h.rules⟩
  | removePid =>
    have hnone : done.any writesRecord = false := hlate
    have hrecord : ∀ {r : Option Record}, done.any writesRecord = true →
        ∃ startTime, r = Record.make new startTime c := fun hw => absurd hw (by simp [hnone])
    obtain ⟨⟨ok, _, _, _⟩, hch⟩ := hr
    cases ok with
    | false =>
      obtain rfl : s = s' := congrArg Prod.snd hch
      exact h
    | true =>
      obtain rfl : { s with record := none } = s' := congrArg Prod.snd hch
      exact ⟨hrecord, h.stats, h.rules⟩
  | statsUnlink =>
    have hnone : done.any createsStats = false := hlate
    obtain ⟨⟨ok, _, _, _⟩, hch⟩ := hr
    cases ok with
    | false =>
      obtain rfl : s = s' := congrArg Prod.snd hch
      exact h
    | true =>
      obtain rfl : { s with stats := none } = s' := congrArg Prod.snd hch
      exact ⟨h.record, fun hc => absurd hc (by simp [hnone]), h.rules⟩
  | _ => exact he.elim

/-- A call of the new daemon that writes no file and runs no command. -/
theorem KeepsAll.quiet {ev : Event} (h : KeepsAll new c done s) (hw : writesRecord ev = false)
    (hc : createsStats ev = false) (hf : flushesChain ev = false) (hj : findsJump ev = false)
    (heffect : ∀ o, chainEffect o ev = o) (hrecord : s'.record = s.record)
    (hstats : s'.stats = s.stats) (htable : s'.table = s.table) : KeepsAll new c (done ++ [ev]) s' where
  record hwrites := by
    rw [hrecord]
    exact h.record ((any_concat_iff.mp hwrites).resolve_right (by simp [hw]))
  stats hcreates := by
    rw [hstats]
    exact h.stats ((any_concat_iff.mp hcreates).resolve_right (by simp [hc]))
  rules := by
    rw [htable]
    exact h.rules.concat heffect hf rfl fun hjump => hjump.resolve_right (by simp [hj])

theorem KeepsAll.installed {ev : Event} (h : KeepsAll new c done s) (he : Installs new c ev)
    (hr : sysRel ev.1 s ev.2 s') : KeepsAll new c (done ++ [ev]) s' := by
  obtain ⟨e, r⟩ := ev
  cases e with
  | ipt e =>
    obtain ⟨hipt, hput⟩ := ipt_embeds e s r s' hr
    rw [hput]
    refine ⟨fun hw => h.record ?_, fun hc => h.stats ?_, h.rules.installed he hipt⟩
    · exact (any_concat_iff.mp hw).resolve_right (by simp [writesRecord])
    · exact (any_concat_iff.mp hc).resolve_right (by simp [createsStats])
  | configLoad =>
    obtain ⟨ch, hch⟩ := hr
    obtain rfl : s = s' := congrArg Prod.snd hch
    exact h.quiet rfl rfl rfl rfl (fun _ => rfl) rfl rfl rfl
  | signalReady value =>
    obtain ⟨ch, hch⟩ := hr
    obtain rfl : s = s' := congrArg Prod.snd hch
    exact h.quiet rfl rfl rfl rfl (fun _ => rfl) rfl rfl rfl
  | listen self config =>
    rcases listen_cases hr with ⟨-, rfl⟩ | ⟨-, -, -, rfl⟩
    · exact h.quiet rfl rfl rfl rfl (fun _ => rfl) rfl rfl rfl
    · exact h.quiet rfl rfl rfl rfl (fun _ => rfl) rfl rfl rfl
  | statsCreate self =>
    obtain ⟨rfl, rfl⟩ := he
    obtain rfl := statsCreate_true hr
    refine ⟨fun hw => h.record ?_, fun _ => rfl, ?_⟩
    · exact (any_concat_iff.mp hw).resolve_right (by simp [writesRecord])
    · exact h.rules.concat (fun _ => rfl) rfl rfl fun hj => hj.resolve_right (by simp [findsJump])
  | writePid self config =>
    obtain ⟨rfl, rfl, rfl⟩ := he
    obtain ⟨startTime, rfl⟩ := writePid_true hr
    refine ⟨fun _ => ⟨startTime, rfl⟩, fun hc => h.stats ?_, ?_⟩
    · exact (any_concat_iff.mp hc).resolve_right (by simp [createsStats])
    · exact h.rules.concat (fun _ => rfl) rfl rfl fun hj => hj.resolve_right (by simp [findsJump])
  | _ => exact he.elim

end Steps

/-! ## The hand-over -/

/-- **A clean hand-over.** -/
theorem handover_clean {old new : Nat} {stopped : Bool} {argv : List (List Char)} {s s' : Sys}
    {m : List Happening} {p' : App Int}
    (h : Inter sysRel (daemonStop old stopped) (daemonStart argv new) s m p' (.ret none) s')
    (hm : timely takesAway [] m = true) :
    ∃ c startTime, ⟨.configLoad, some c⟩ ∈ side .right m ∧
      s'.record = Record.make new startTime c ∧ s'.stats = some new ∧
      s'.table.chain = some c.rules ∧ .jump ∈ s'.table.output := by
  obtain ⟨c, htrace⟩ := h.right_post (wp_start_trace argv new) rfl
  have hinit : KeepsAll new c [] s := ⟨by simp, by simp, ⟨by simp, by simp⟩⟩
  have hkept : KeepsAll new c ([] ++ side .right m) s' :=
    h.timely_keeps (fun _ _ _ _ he hlate hJ hr => hJ.released he hlate hr)
      (fun _ _ _ _ he hJ hr => hJ.installed he hr) (calls_daemonStop old stopped) htrace.installs
      hm hinit
  rw [List.nil_append] at hkept
  obtain ⟨startTime, hrecord⟩ := hkept.record htrace.recorded
  obtain ⟨l, hbuilt, hchain, -⟩ := hkept.rules.chain htrace.flushed
  obtain rfl : c.rules = l := Option.some.inj (htrace.built.symm.trans hbuilt)
  refine ⟨c, startTime, htrace.loaded, hrecord, hkept.stats htrace.created, ?_,
    hkept.rules.jump htrace.jump⟩
  exact hchain.resolve_right fun hempty => absurd hempty.1 (by simp [Config.rules])

/-- Process `50` serves with `plainConfig`, and `60` is about to run `free_proxy run`. -/
def changingSys : Sys :=
  { file := .saved plainConfig
    record := Record.make 50 7 plainConfig
    stats := some 50
    table := userTable.enabled plainConfig
    procs := [{ Proc.spawned 50 7 with listens := some plainConfig }, .spawned 60 8] }

/-- The end of `50` beside the start of `60`, by a schedule. -/
def stopBeside (schedule : List (Side × Choice)) :
    List Happening × App Int × App (Option Int) × Sys :=
  interleave sys schedule (daemonStop 50 true) (daemonStart runArgv 60) changingSys

/-- The old daemon clears its files one call ahead of the new one, and its rules before the new one looks for the
chain. -/
def oneCallAhead : List (Side × Choice) :=
  (List.replicate 4 [(.left, goodChoice), (.right, goodChoice)]).flatten ++
    List.replicate 30 (.left, goodChoice) ++ List.replicate 30 (.right, goodChoice)

/-- The new daemon starts when the old one has closed its listener. -/
def whileStopping : List (Side × Choice) :=
  (.left, goodChoice) :: List.replicate 30 (.right, goodChoice) ++ List.replicate 30 (.left, goodChoice)

/-- The two take turns, and what the new daemon has made is there. -/
theorem handover_clean_oneCallAhead : (stopBeside oneCallAhead).2.1.result = some 0 ∧
    (stopBeside oneCallAhead).2.2.1.result = some none ∧ (stopBeside oneCallAhead).2.2.2.stats = some 60 ∧
      .jump ∈ (stopBeside oneCallAhead).2.2.2.table.output := by
  have hrun : Inter sysRel (daemonStop 50 true) (daemonStart runArgv 60) changingSys
      (stopBeside oneCallAhead).1 (.ret 0) (.ret none) (stopBeside oneCallAhead).2.2.2 :=
    inter_interleave sys oneCallAhead _ _ _
  obtain ⟨c, startTime, -, -, hstats, -, hjump⟩ := handover_clean hrun rfl
  exact ⟨rfl, rfl, hstats, hjump⟩

/-- **The old daemon takes away what the new one has made**: both succeed, and no record, no stats
file and no chain is left. -/
theorem handover_unclean : ¬ ∀ (old new : Nat) stopped argv (s s' : Sys) (m : List Happening) code,
    old ≠ new → 1 < new → (∃ p ∈ s.procs, p.pid = old ∧ p.listens ≠ none) →
      Inter sysRel (daemonStop old stopped) (daemonStart argv new) s m (.ret code) (.ret none) s' →
        s'.record ≠ none ∧ s'.stats = some new ∧ s'.table.chain ≠ none := by
  intro h
  have hrun : Inter sysRel (daemonStop 50 true) (daemonStart runArgv 60) changingSys
      (stopBeside whileStopping).1 (.ret 0) (.ret none) (stopBeside whileStopping).2.2.2 :=
    inter_interleave sys whileStopping _ _ _
  have hclean := h 50 60 true runArgv _ _ _ 0 (by decide) (by decide) (by decide) hrun
  exact absurd hclean.1 (by decide)

end FreeProxy
