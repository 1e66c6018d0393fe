import FreeProxy.System.BlackHole
import FreeProxy.System.Readiness

/-!
# The start of the daemon, at two grains

`Readiness` has the start of `fp_proxy_run` system call by system call, `Daemon` has it with one call each for the
listener, `fp_stats_create`, `fp_write_pid` and the byte of `signal_ready`. `Shows` says which state of the first is
which state of the second, and every run of the first is a run of the second between such states.

* A pid file that a failing write has left incomplete is no record in the coarse state.
* A stats file that could not be removed (`kept`) may be no file there.

Out of scope: the bytes in the pipe, which the coarse state does not have.

Headlines: **`fpProxyStart_refines`**, `fpProxyStart_refines_initial`.
-/

namespace FreeProxy.Readiness

open Lib

/-- The fine state `s` of the process `pid` is the coarse state `S`. -/
structure Shows (pid : Nat) (s : Startup) (S : Sys) : Prop where
  table : S.table = s.table
  alive : (S.find pid).isSome
  /-- nobody else has the listener -/
  only : ∀ p ∈ S.procs, p.listens ≠ none → p.pid = pid ∧ s.listener = .listening
  listening : s.listener = .listening → S.Listening
  record : ∀ r, S.record = some r → ∃ time config,
    s.pidFile = some (recordText r.pid time config) ∧ r.matches config = true
  owned : S.stats = some pid → s.statsFile = some (.created true)
  unowned : S.stats = none → s.statsFile = none ∨ s.kept = true

variable {self : Nat} {config : Config} {readyFd : Int} {s : Startup} {S : Sys}

theorem find_setListens {listens : Option Config} (h : (S.find self).isSome) :
    ((S.setListens self listens).find self).isSome := by
  obtain ⟨p, hp⟩ := Option.isSome_iff_exists.mp h
  have hpid : p.pid = self := by simpa using List.find?_some hp
  refine List.find?_isSome.mpr ⟨{ p with listens := listens }, ?_, by simp [hpid]⟩
  exact List.mem_map.mpr ⟨p, List.mem_of_find?_eq_some hp, if_pos hpid⟩

theorem mem_setListens {listens : Option Config} {p : Proc} (hp : p ∈ (S.setListens self listens).procs)
    (h : p.listens ≠ none) : p.pid = self ∧ p.listens = listens ∨ p ∈ S.procs ∧ p.pid ≠ self := by
  obtain ⟨q, hq, rfl⟩ := List.mem_map.mp hp
  split
  · exact .inl ⟨‹_›, rfl⟩
  · exact .inr ⟨hq, ‹_›⟩

theorem not_listening (h : Shows self s S) (hs : s.listener ≠ .listening) : ¬ S.Listening := by
  rintro ⟨p, hp, hl⟩
  exact hs (h.only p hp hl).2

/-! ## The calls -/

theorem shows_ready (h : Shows self s S) (ready : List Char) : Shows self { s with ready := ready } S :=
  { h with }

theorem shows_table (h : Shows self s S) (t : Table) (n : Nat) :
    Shows self { s with table := t, undone := n } { S with table := t } :=
  { h with table := rfl }

theorem shows_closed (h : Shows self s S) (listened : Bool) (n : Nat) :
    Shows self { s with listener := .closed listened, undone := n } (S.setListens self none) :=
  { h with
    alive := find_setListens h.alive
    only := fun p hp hl => by
      rcases mem_setListens hp hl with ⟨-, hnone⟩ | ⟨hp, hother⟩
      · exact absurd hnone hl
      · exact absurd (h.only p hp hl).1 hother
    listening := fun hl => by cases hl }

/-- `socket`, `setsockopt`, `bind` and `listen` are the call `listen`. -/
theorem openListener_refines (config : Config) (h : Shows self s S) (hs : s.listener = .absent) :
    Leads openListener (fun code s' => ∃ S', sysRel (.listen self config) S (decide (code = 0)) S' ∧
      Shows self s' S' ∧ s'.statsFile = s.statsFile) s := by
  have hfree : ¬ S.Listening := not_listening h (by simp [hs])
  refine (leads_openListener hs).mono (fun _ h => h) ?_
  rintro code s' ⟨l, n, rfl, ⟨rfl, rfl⟩ | ⟨rfl, hl, -⟩⟩
  · refine ⟨S.setListens self (some config), ⟨⟨true, true, 0, 0⟩, ?_⟩, ?_, rfl⟩
    · simp [sys, hfree, h.alive]
    · have hcall : sysRel (.listen self config) S true (S.setListens self (some config)) :=
        ⟨⟨true, true, 0, 0⟩, by simp [sys, hfree, h.alive]⟩
      refine { h with
        alive := find_setListens h.alive
        only := fun p hp hl => ?_
        listening := fun _ => (listen_true hcall).1 }
      rcases mem_setListens hp hl with ⟨hpid, -⟩ | ⟨hp, -⟩
      · exact ⟨hpid, rfl⟩
      · exact absurd ⟨p, hp, hl⟩ hfree
  · refine ⟨S, ⟨⟨false, true, 0, 0⟩, by simp [sys]⟩, ?_, rfl⟩
    exact { h with
      only := fun p hp hl => absurd ⟨p, hp, hl⟩ hfree
      listening := fun hl' => absurd hl' hl }

/-- `fp_stats_create`, which leaves the process the owner of the file when it succeeds. -/
theorem fpStatsCreate_refines (h : Shows self s S) (hs : s.statsFile = none ∨ s.statsFile = some .stale) :
    Leads fpStatsCreate (fun code s' => ∃ S', sysRel (.statsCreate self) S (decide (code = 0)) S' ∧
      Shows self s' S' ∧ (code = 0 → S'.stats = some self)) s := by
  refine (leads_statsCreate hs).mono (fun _ h => h) ?_
  rintro code s' ⟨f, n, k, rfl, ⟨rfl, rfl⟩ | ⟨rfl, hf⟩⟩
  · refine ⟨{ S with stats := some self }, ⟨⟨true, true, 0, 0⟩, by simp [sys]⟩, ?_, fun _ => rfl⟩
    exact { h with
      owned := fun _ => rfl
      unowned := fun hnone => by cases hnone }
  · refine ⟨{ S with stats := none }, ⟨⟨false, false, 0, 0⟩, by simp [sys]⟩, ?_, by simp⟩
    exact { h with
      owned := fun hsome => by cases hsome
      unowned := fun _ => hf }

/-- `fp_write_pid`, in the process that owns the stats file. -/
theorem fpWritePid_refines (config : Config) (h : Shows self s S) (hS : S.stats = some self) :
    Leads (fpWritePid self config) (fun code s' => ∃ S', sysRel (.writePid self config) S (decide (code = 0)) S' ∧
      Shows self s' S' ∧ S'.stats = some self) s := by
  obtain ⟨p, hp⟩ : ∃ p, S.find self = some p := Option.isSome_iff_exists.mp h.alive
  refine (leads_writePid self config s).mono (fun _ h => h) ?_
  rintro code s' ⟨file, k, rfl, ⟨rfl, time, rfl⟩ | rfl⟩
  · refine ⟨{ S with record := Record.make self p.startTime config }, ⟨⟨true, true, 0, 0⟩, ?_⟩, ?_, hS⟩
    · simp [sys, hp]
    · refine { h with
        record := fun r hr => ⟨time, config, ?_⟩
        unowned := fun hnone => ?_ }
      · unfold Record.make at hr
        split at hr
        · obtain rfl := Option.some.inj hr
          exact ⟨rfl, by simp [Record.matches]⟩
        · cases hr
      · cases hS.symm.trans hnone
  · refine ⟨{ S with record := none }, ⟨⟨false, false, 0, 0⟩, by simp [sys, hp]⟩, ?_, hS⟩
    exact { h with
      record := fun r hr => by cases hr
      unowned := fun hnone => by cases hS.symm.trans hnone }

/-! ## The cleanup -/

theorem leads_ask {e : Call} {Q : Resp e → Startup → Prop} {s : Startup}
    (h : ∀ c, Q (system e c s).1 (system e c s).2) : Leads (Call.ask e) Q s := by
  refine wp_ask.mpr ⟨trivial, fun r s' ⟨c, hc⟩ => ⟨trivial, ?_⟩⟩
  obtain ⟨rfl, rfl⟩ := Prod.mk.inj hc
  exact h c

/-- What `p` comes to from `s`, `P` comes to from the coarse state `S`. -/
abbrev LeadsTo {α : Type} (self : Nat) (p : Start α) (P : App α) (s : Startup) (S : Sys) : Prop :=
  Leads p (fun a s' => ∃ S', Runs sysRel P S a S' ∧ Shows self s' S') s

/-- `p` is `P`, from every pair of states that belong together. -/
def Refines {α : Type} (self : Nat) (p : Start α) (P : App α) : Prop :=
  ∀ s S, Shows self s S → LeadsTo self p P s S

theorem Refines.bind {α β : Type} {p : Start α} {P : App α} {f : α → Start β} {F : α → App β}
    (hp : Refines self p P) (hf : ∀ a, Refines self (f a) (F a)) : Refines self (p.bind f) (P.bind F) := by
  intro s S h
  refine wp_seq (hp s S h) (fun _ h => h) fun a s' _ ⟨S', hrun, h'⟩ => ?_
  refine (hf a s' S' h').mono (fun _ h => h) ?_
  rintro b s'' ⟨S'', hrun', h''⟩
  exact ⟨S'', hrun.bind hrun', h''⟩

theorem refines_ret {α : Type} (a : α) : Refines self (.ret a) (.ret a) :=
  fun _ S h => leads_ret ⟨S, .ret a S, h⟩

theorem refines_fw {α : Type} (p : Fw α) : Refines self (fw p) (FreeProxy.fw p) := by
  intro s S h
  refine (leads_fw p s).mono (fun _ h => h) ?_
  rintro a s' ⟨t, n, rfl, hrun⟩
  exact ⟨{ S with table := t }, runs_fw (h.table ▸ hrun), shows_table h t n⟩

theorem refines_signalReady (value : Char) :
    Refines self (signalReady readyFd value) (FreeProxy.signalReady readyFd value) := by
  intro s S h
  unfold signalReady FreeProxy.signalReady
  split
  · refine leads_ask fun c => ⟨S, ?_, shows_ready h (s.ready ++ [value])⟩
    exact .call ⟨⟨true, true, 0, 0⟩, rfl⟩ (.ret () S)
  · exact leads_ret ⟨S, .ret () S, h⟩

theorem refines_closeListener :
    Refines self (Call.ask .closeListener) (Op.ask (.closeListener self)) := by
  intro s S h
  refine leads_ask fun c => ⟨S.setListens self none, ?_, shows_closed h (s.listener == .listening) 0⟩
  exact .call ⟨⟨true, true, 0, 0⟩, rfl⟩ (.ret () _)

theorem refines_removePid : Refines self fpRemovePid (Op.ask .removePid) := by
  intro s S h
  refine (leads_removePid s).mono (fun _ h => h) ?_
  rintro _ s' ⟨p, n, rfl, -, -, rfl | rfl⟩
  · refine ⟨{ S with record := none }, .call ⟨⟨true, true, 0, 0⟩, rfl⟩ (.ret () _), ?_⟩
    exact { h with record := fun r hr => by cases hr }
  · exact ⟨S, .call ⟨⟨false, true, 0, 0⟩, rfl⟩ (.ret () S), { h with }⟩

theorem refines_statsClose (owner : Bool) : Refines self (fpStatsClose owner) (FreeProxy.fpStatsClose owner) := by
  intro s S h
  cases owner with
  | false => exact leads_ret ⟨S, .ret () S, h⟩
  | true =>
    refine (leads_statsClose (fun h => by cases h)).mono (fun _ h => h) ?_
    rintro _ s' ⟨f, n, k, rfl, -, hf⟩
    refine ⟨{ S with stats := none }, .call ⟨⟨true, true, 0, 0⟩, rfl⟩ (.ret () _), ?_⟩
    exact { h with
      owned := fun hsome => by cases hsome
      unowned := fun _ => hf }

theorem refines_abandonStart (owner : Bool) : Refines self (abandonStart owner readyFd)
    ((FreeProxy.abandonStart self owner readyFd).bind fun _ => .ret (-1)) := by
  unfold FreeProxy.abandonStart
  simp only [Prog.bind_eq, Prog.bind_assoc]
  refine refines_closeListener.bind fun _ => refines_removePid.bind fun _ => ?_
  refine (refines_statsClose owner).bind fun _ => (refines_fw _).bind fun _ => ?_
  exact (refines_signalReady 'E').bind fun _ => refines_ret (-1)

/-! ## The start -/

theorem leadsTo_call {α : Type} {e : Op} {r : FreeProxy.Resp e} {p : Start α} {F : FreeProxy.Resp e → App α} {S' : Sys}
    (hcall : sysRel e S r S') (h : LeadsTo self p (F r) s S') : LeadsTo self p ((Op.ask e).bind F) s S := by
  refine h.mono (fun _ h => h) ?_
  rintro a s' ⟨S'', hrun, hshows⟩
  exact ⟨S'', .call hcall hrun, hshows⟩

theorem fpProxyInstall_bind {α : Type} (G : Bool × Int → App α) : (fpProxyInstall self config).bind G =
    (Op.ask (.statsCreate self)).bind fun created =>
      if created = true then (Op.ask (.writePid self config)).bind fun written =>
        if written = true then (FreeProxy.fw (fpFirewallEnable config)).bind fun enabled => G (true, enabled)
        else G (true, -1)
      else G (false, -1) := by
  unfold fpProxyInstall
  simp only [Prog.bind_eq, Prog.pure_eq, Prog.bind_assoc]
  refine congrArg _ (funext fun created => ?_)
  cases created with
  | false => rfl
  | true =>
    refine congrArg (Prog.call (E := Op) (.writePid self config)) (funext fun written => ?_)
    cases written with
    | false => rfl
    | true =>
      exact Prog.bind_assoc (FreeProxy.fw (fpFirewallEnable config)) (fun enabled => .ret (true, enabled)) G

theorem all_pair_bind {α : Type} (p q : Start Int) (K : Int → Start α) : (Prog.all [p, q]).bind K =
    p.bind fun r => if r = 0 then q.bind fun r => if r = 0 then K 0 else K (-1) else K (-1) := by
  unfold Prog.all Prog.all Prog.all
  rw [Prog.bind_assoc]
  refine congrArg _ (funext fun r => ?_)
  by_cases hr : r = 0
  · rw [if_pos hr, if_pos hr, Prog.bind_assoc]
    refine congrArg _ (funext fun r => ?_)
    split <;> rfl
  · rw [if_neg hr, if_neg hr]
    rfl

/-- **The start, system call by system call, is the start of `Daemon`.** -/
theorem fpProxyStart_refines (h : Shows self s S) (hlistener : s.listener = .absent)
    (hstats : s.statsFile = none ∨ s.statsFile = some .stale) {code : Int} {s' : Startup}
    (hrun : Runs systemRel (fpProxyStart self config readyFd) s code s') :
    ∃ S', Runs sysRel (FreeProxy.fpProxyStart self config readyFd) S code S' ∧ Shows self s' S' := by
  suffices hleads : LeadsTo self (fpProxyStart self config readyFd)
      (FreeProxy.fpProxyStart self config readyFd) s S from hleads.runs hrun
  have hready : ∀ value (code : Int), Refines self ((signalReady readyFd value).bind fun _ => .ret code)
      ((FreeProxy.signalReady readyFd value).bind fun _ => .ret code) := fun value code =>
    (refines_signalReady value).bind fun _ => refines_ret code
  rw [fpProxyStart_eq]
  unfold fpProxyStart
  refine wp_seq (openListener_refines config h hlistener) (fun _ h => h) ?_
  rintro opened s₁ - ⟨S₁, hlisten, h₁, hfound⟩
  refine leadsTo_call hlisten ?_
  by_cases hopened : opened = 0
  swap
  · simp only [hopened, ne_eq, not_false_eq_true, decide_false, Bool.false_eq_true, if_true, if_false]
    exact hready 'E' (-1) s₁ S₁ h₁
  simp only [hopened, ne_eq, not_true_eq_false, decide_true, if_true, if_false]
  rw [fpProxyInstall_bind]
  refine wp_seq (fpStatsCreate_refines h₁ (hfound ▸ hstats)) (fun _ h => h) ?_
  rintro created s₂ - ⟨S₂, hcreate, h₂, howner⟩
  refine leadsTo_call hcreate ?_
  by_cases hcreated : created = 0
  swap
  · simp only [hcreated, not_false_eq_true, decide_false, Bool.false_eq_true, if_true, if_false]
    exact refines_abandonStart false s₂ S₂ h₂
  simp only [hcreated, not_true_eq_false, decide_true, if_true, if_false]
  rw [Prog.bind_eq, all_pair_bind]
  refine wp_seq (fpWritePid_refines config h₂ (howner hcreated)) (fun _ h => h) ?_
  rintro written s₃ - ⟨S₃, hwrite, h₃, -⟩
  refine leadsTo_call hwrite ?_
  by_cases hwritten : written = 0
  swap
  · simp only [hwritten, decide_false, Bool.false_eq_true, if_false]
    exact refines_abandonStart true s₃ S₃ h₃
  simp only [hwritten, decide_true, if_true]
  refine (refines_fw (fpFirewallEnable config)).bind (fun enabled => ?_) s₃ S₃ h₃
  by_cases henabled : enabled = 0
  · simp only [henabled, if_true]
    exact hready 'R' 0
  · simp only [henabled, if_false]
    exact refines_abandonStart true

/-- A start in a system in which nobody listens and no record is left; another process may have left its stats file. -/
theorem shows_initial {stale : Bool} (hself : (S.find self).isSome) (hfree : ¬ S.Listening)
    (hrecord : S.record = none) (hstats : S.stats ≠ some self) (hstale : S.stats = none → stale = false) :
    Shows self (.initial none stale S.table) S where
  table := rfl
  alive := hself
  only p hp hl := absurd ⟨p, hp, hl⟩ hfree
  listening hl := by cases hl
  record r hr := by cases hrecord.symm.trans hr
  owned h := absurd h hstats
  unowned h := by simp [Startup.initial, hstale h]

/-- **Every run of the start** of `Readiness` is one of `Daemon`, from the states in which it begins. -/
theorem fpProxyStart_refines_initial {stale : Bool} (hself : (S.find self).isSome) (hfree : ¬ S.Listening)
    (hrecord : S.record = none) (hstats : S.stats ≠ some self) (hstale : S.stats = none → stale = false)
    {code : Int} {s' : Startup}
    (hrun : Runs systemRel (fpProxyStart self config readyFd) (.initial none stale S.table) code s') :
    ∃ S', Runs sysRel (FreeProxy.fpProxyStart self config readyFd) S code S' ∧ Shows self s' S' := by
  refine fpProxyStart_refines (shows_initial hself hfree hrecord hstats hstale) rfl ?_ hrun
  cases stale with
  | false => exact .inl rfl
  | true => exact .inr rfl

/-- Process `2` has been forked, and another one has left its stats file. -/
def forkedSys : Sys := ⟨.saved plainConfig, none, some 9, userTable, [.spawned 2 7]⟩

/-- A start with a failing write of the record, which is undone. -/
theorem fpProxyStart_refines_initial_undone :
    let run := exec system (allBut [13]) (fpProxyStart 2 plainConfig 4) (.initial none true forkedSys.table)
    run.2.ready = ['E'] ∧ run.2.statsFile = none ∧
      ∃ S', Runs sysRel (FreeProxy.fpProxyStart 2 plainConfig 4) forkedSys (-1) S' ∧ Shows 2 run.2 S' := by
  intro run
  have hrun : run.1 = .ret (-1) := rfl
  have hruns : Runs systemRel (fpProxyStart 2 plainConfig 4) (.initial none true forkedSys.table) (-1) run.2 :=
    exec_runs (Prod.ext hrun rfl)
  exact ⟨rfl, rfl, fpProxyStart_refines_initial (by decide) (by decide) rfl (by decide) (by decide) hruns⟩

end FreeProxy.Readiness
