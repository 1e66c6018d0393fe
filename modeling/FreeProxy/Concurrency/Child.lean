import FreeProxy.Firewall.Removal
import FreeProxy.Lib.Reach

/-!
# The iptables children of the daemon

While `fp_proxy_run` programs the firewall it runs one iptables child at a time, and its `SIGCHLD`
handler `reap_clients` waits for any child. The steps are the fork and the wait of `run_iptables`,
the exit of the child and the delivery of the signal, which may come at any point after an exit. They
take the one command of `runIptables` apart; what a call returns is what `runIptables` makes of the
answer that the wait gives (`returnedBy`).

* **`child_status`**: in every run a call of `run_iptables` gives `0` exactly when its child exited
  with `0`, unless the handler has taken that status; in a run in which the handler never runs
  between the exit of a successful child and the `waitpid` for it, every call does.
* `child_status_stolen`: without that condition a successful command is reported as failed.
* `daemon_refines`: with that condition the commands have the effects and the answers that
  `Ipt` gives them.

Out of scope: the client workers, which the handler waits for as well; there are none before the
accept loop.
-/

namespace FreeProxy

open Lib

/-- What `fp_proxy_run` does to the firewall when the listener, the stats and the record are there;
when one of them fails it is `fpFirewallDisable` alone. -/
def daemonFirewall (config : Config) : Fw Int := do
  let enabled ← fpFirewallEnable config
  if enabled ≠ 0 then
    let _ ← fpFirewallDisable
    pure (-1)
  else pure 0

/-- The iptables child. -/
inductive Child where
  | none
  | running (arguments : Cmd)
  /-- it has exited, with status `0` or not -/
  | zombie (success : Bool)
  /-- the handler has waited for it -/
  | reaped (success : Bool)
  deriving DecidableEq

/-- `waitpid(-1, NULL, WNOHANG)` until it yields nothing. -/
def Child.reap : Child → Child
  | .zombie success => .reaped success
  | child => child

/-- A command is answered whether its child has exited with status `0`, as far as the parent can tell. -/
def answering : Sem Cmd (fun _ => Bool) Bool Unit := fun _ exited s => (exited, s)

/-- What `run_iptables` returns when its child has, or has not, exited with status `0`. -/
def returnedBy (arguments : Cmd) (exited : Bool) : Option Int :=
  (exec answering [exited] (runIptables arguments) ()).1.result

/-- A completed call of `run_iptables`. -/
structure ChildCall where
  /-- there was a child, and it exited with status `0` -/
  success : Bool
  /-- the handler took the status -/
  stolen : Bool
  /-- the value of the call -/
  returned : Option Int
  deriving DecidableEq

/-- The daemon between two steps. -/
structure DaemonState where
  /-- where the parent is; its next call is the command `run_iptables` was given -/
  prog : Fw Int
  table : Table
  child : Child
  /-- `SIGCHLD` is pending -/
  pending : Bool
  /-- the calls of `run_iptables` so far -/
  log : List ChildCall

/-- What happens. -/
inductive DaemonAct where
  | fork
  | forkFails
  /-- the child executes its command, or `execvp` fails, and exits -/
  | exits (executed : Bool)
  /-- `reap_clients` -/
  | handler
  /-- `waitpid(pid, &status, 0)` -/
  | waits
  deriving DecidableEq

/-- One step of the daemon, of its child or of the handler. -/
inductive DaemonStep : DaemonState → DaemonAct → DaemonState → Prop where
  | fork {s e k} (hp : s.prog.next = .call e k) (hc : s.child = .none) :
      DaemonStep s .fork { s with child := .running e }
  | forkFails {s e k} (hp : s.prog.next = .call e k) (hc : s.child = .none) :
      DaemonStep s .forkFails
        { s with prog := k false, log := s.log ++ [⟨false, false, returnedBy e false⟩] }
  | exits {s e} (executed : Bool) (hc : s.child = .running e) :
      DaemonStep s (.exits executed)
        { s with
          child := .zombie (iptables e executed s.table).1
          table := (iptables e executed s.table).2
          pending := true }
  | handler {s} (hp : s.pending = true) :
      DaemonStep s .handler { s with child := s.child.reap, pending := false }
  | waits {s e k success} (hp : s.prog.next = .call e k) (hc : s.child = .zombie success) :
      DaemonStep s .waits
        { s with
          prog := k success
          child := .none
          log := s.log ++ [⟨success, false, returnedBy e success⟩] }
  -- `waitpid` on a child that is gone fails
  | waitsInVain {s e k success} (hp : s.prog.next = .call e k) (hc : s.child = .reaped success) :
      DaemonStep s .waits
        { s with
          prog := k false
          child := .none
          log := s.log ++ [⟨success, true, returnedBy e false⟩] }

/-- The firewall part of `fp_proxy_run` begins, on any table. -/
def DaemonState.Initial (c : Config) (s : DaemonState) : Prop :=
  (s.prog = daemonFirewall c ∨ s.prog = fpFirewallDisable) ∧ s.child = .none ∧ s.log = []

/-- The handler does not run between the exit of a successful child and the wait for it. -/
def HandlerLate (s : DaemonState) (l : DaemonAct) : Prop := l = .handler → s.child ≠ .zombie true

/-- `run_iptables` returned `0` if and only if the child exited with status `0`. -/
def ChildCall.Right (call : ChildCall) : Prop := call.returned = some 0 ↔ call.success = true

/-! ## What a call returns -/

theorem returnedBy_eq (arguments : Cmd) (exited : Bool) :
    returnedBy arguments exited = some (if exited then 0 else -1) := by
  cases exited <;> rfl

/-- A call that gets the status of its child is right. -/
theorem right_waited (e : Cmd) (success : Bool) : (⟨success, false, returnedBy e success⟩ : ChildCall).Right := by
  unfold ChildCall.Right
  rw [returnedBy_eq]
  cases success <;> simp

/-- A call that does not get it is right unless the child has succeeded. -/
theorem right_denied (e : Cmd) (success stolen : Bool) :
    (⟨success, stolen, returnedBy e false⟩ : ChildCall).Right ↔ success = false := by
  unfold ChildCall.Right
  rw [returnedBy_eq]
  cases success <;> simp

/-! ## The log -/

/-- Every call in the log is right unless its status was stolen from a success. -/
theorem daemon_log {c : Config} {ok : DaemonState → DaemonAct → Prop} {s : DaemonState}
    (h : Reach (DaemonState.Initial c) ok DaemonStep s) :
    ∀ call ∈ s.log, call.Right ↔ ¬ (call.stolen = true ∧ call.success = true) := by
  refine Reach.inv (I := fun s : DaemonState => ∀ call ∈ s.log,
    call.Right ↔ ¬ (call.stolen = true ∧ call.success = true)) ?_ ?_ h
  · rintro s ⟨-, -, hlog⟩ call hcall
    simp [hlog] at hcall
  · intro s l s' ih _ hs call hcall
    cases hs with
    | fork | exits | handler => exact ih call hcall
    | forkFails =>
      rcases List.mem_append.mp hcall with hcall | hcall
      · exact ih call hcall
      · obtain rfl := List.mem_singleton.mp hcall
        simp [right_denied]
    | waits =>
      rcases List.mem_append.mp hcall with hcall | hcall
      · exact ih call hcall
      · obtain rfl := List.mem_singleton.mp hcall
        simp [right_waited]
    | waitsInVain =>
      rcases List.mem_append.mp hcall with hcall | hcall
      · exact ih call hcall
      · obtain rfl := List.mem_singleton.mp hcall
        simp [right_denied]

/-- With a late handler no success is stolen, in the log or from the child at hand. -/
theorem daemon_late {c : Config} {s : DaemonState}
    (h : Reach (DaemonState.Initial c) HandlerLate DaemonStep s) :
    s.child ≠ .reaped true ∧ ∀ call ∈ s.log, ¬ (call.stolen = true ∧ call.success = true) := by
  refine Reach.inv (I := fun s : DaemonState => s.child ≠ .reaped true ∧
    ∀ call ∈ s.log, ¬ (call.stolen = true ∧ call.success = true)) ?_ ?_ h
  · rintro s ⟨-, hchild, hlog⟩
    simp [hchild, hlog]
  · rintro s l s' ⟨hchild, hlog⟩ hok hs
    cases hs with
    | fork | exits => exact ⟨by simp, hlog⟩
    | forkFails =>
      refine ⟨hchild, fun call hcall => ?_⟩
      rcases List.mem_append.mp hcall with hcall | hcall
      · exact hlog call hcall
      · obtain rfl := List.mem_singleton.mp hcall
        simp
    | handler =>
      refine ⟨?_, hlog⟩
      have hzombie := hok rfl
      show s.child.reap ≠ .reaped true
      cases hc : s.child with
      | zombie success => rw [hc] at hzombie; simpa [Child.reap] using hzombie
      | reaped success => rw [hc] at hchild; exact hchild
      | none | running => simp [Child.reap]
    | waits =>
      refine ⟨by simp, fun call hcall => ?_⟩
      rcases List.mem_append.mp hcall with hcall | hcall
      · exact hlog call hcall
      · obtain rfl := List.mem_singleton.mp hcall
        simp
    | waitsInVain hp hc =>
      refine ⟨by simp, fun call hcall => ?_⟩
      rcases List.mem_append.mp hcall with hcall | hcall
      · exact hlog call hcall
      · obtain rfl := List.mem_singleton.mp hcall
        rw [hc] at hchild
        simpa using hchild

/-- **`run_iptables` and the status of its child.** -/
theorem child_status (c : Config) (s : DaemonState) :
    (Reach (DaemonState.Initial c) HandlerLate DaemonStep s → ∀ call ∈ s.log, call.Right) ∧
      (Reach (DaemonState.Initial c) anyStep DaemonStep s →
        ∀ call ∈ s.log, call.Right ↔ ¬ (call.stolen = true ∧ call.success = true)) :=
  ⟨fun h call hcall => (daemon_log h call hcall).mpr ((daemon_late h).2 call hcall), daemon_log⟩

/-- The firewall part of a daemon begins on the user's table. -/
def sampleDaemon : DaemonState := ⟨daemonFirewall wideConfig, userTable, .none, false, []⟩

theorem sampleDaemon_initial : sampleDaemon.Initial wideConfig := ⟨.inl rfl, rfl, rfl⟩

/-- `-S` fails, and the handler takes that status; `-N` succeeds, the parent waits for it, and then the
handler runs again; the fork for `-F` fails. -/
theorem child_status_kept : ∃ s : DaemonState,
    s.log = [⟨false, true, some (-1)⟩, ⟨true, false, some 0⟩, ⟨false, false, some (-1)⟩] ∧
      s.pending = false ∧ ∀ call ∈ s.log, call.Right := by
  have h0 : Reach (DaemonState.Initial wideConfig) HandlerLate DaemonStep sampleDaemon :=
    .init sampleDaemon_initial
  have h1 := Reach.step h0 (by simp [HandlerLate]) (DaemonStep.fork rfl rfl)
  have h2 := Reach.step h1 (by simp [HandlerLate]) (DaemonStep.exits true rfl)
  have h3 := Reach.step h2 (fun _ => by decide) (DaemonStep.handler rfl)
  have h4 := Reach.step h3 (by simp [HandlerLate]) (DaemonStep.waitsInVain rfl rfl)
  have h5 := Reach.step h4 (by simp [HandlerLate]) (DaemonStep.fork rfl rfl)
  have h6 := Reach.step h5 (by simp [HandlerLate]) (DaemonStep.exits true rfl)
  have h7 := Reach.step h6 (by simp [HandlerLate]) (DaemonStep.waits rfl rfl)
  have h8 := Reach.step h7 (by simp [HandlerLate]) (DaemonStep.handler rfl)
  have h9 := Reach.step h8 (by simp [HandlerLate]) (DaemonStep.forkFails rfl rfl)
  exact ⟨_, rfl, rfl, (child_status wideConfig _).1 h9⟩

/-- **The handler steals a status**: `-N` succeeds, the signal is delivered before the parent waits,
and `run_iptables` returns `-1`. -/
theorem child_status_stolen : ¬ ∀ (c : Config) (s : DaemonState),
    Reach (DaemonState.Initial c) anyStep DaemonStep s → ∀ call ∈ s.log, call.Right := by
  intro h
  have h0 : Reach (DaemonState.Initial wideConfig) anyStep DaemonStep sampleDaemon :=
    .init sampleDaemon_initial
  have h1 := Reach.step h0 trivial (DaemonStep.fork rfl rfl)
  have h2 := Reach.step h1 trivial (DaemonStep.exits true rfl)
  have h3 := Reach.step h2 trivial (DaemonStep.waits rfl rfl)
  have h4 := Reach.step h3 trivial (DaemonStep.fork rfl rfl)
  have h5 := Reach.step h4 trivial (DaemonStep.exits true rfl)
  have h6 := Reach.step h5 trivial (DaemonStep.handler rfl)
  have h7 := Reach.step h6 trivial (DaemonStep.waitsInVain rfl rfl)
  have hright := (h wideConfig _ h7 ⟨true, true, some (-1)⟩ (by decide)).mpr rfl
  simp at hright

/-! ## The commands, one by one -/

/-- What the child at hand has made of the table since the last call of `p` was over. -/
def Child.Effect (p : Fw Int) (t t' : Table) : Child → Prop
  | .none => t' = t
  | .running e => t' = t ∧ ∃ k, p.next = .call e k
  | .zombie success | .reaped success => ∃ e k, p.next = .call e k ∧ Ipt e t success t'

/-- The parent has come from the start of `p` on `t`, and the child at hand has had its effect. -/
def Refines (p : Fw Int) (t : Table) (s : DaemonState) : Prop :=
  ∃ tr t₀, Steps Ipt p t tr s.prog t₀ ∧ s.child.Effect s.prog t₀ s.table

theorem iptables_ipt (e : Cmd) (executed : Bool) (t : Table) :
    Ipt e t (iptables e executed t).1 (iptables e executed t).2 := by
  have hrel : Sem.rel iptables e t (iptables e executed t).1 (iptables e executed t).2 := ⟨executed, rfl⟩
  rwa [faulty_rel] at hrel

/-- A child that has not succeeded has left the table alone. -/
theorem ipt_denied {e : Cmd} {t t' : Table} {success : Bool} (h : Ipt e t success t')
    (hs : success ≠ true) : Ipt e t false t' := by
  rcases h with ⟨rfl, -⟩ | ⟨-, rfl⟩
  · exact absurd rfl hs
  · exact .inr ⟨rfl, rfl⟩

theorem refines_step {p : Fw Int} {t : Table} {s s' : DaemonState} {l : DaemonAct} (h : Refines p t s)
    (hchild : s.child ≠ .reaped true) (hs : DaemonStep s l s') : Refines p t s' := by
  obtain ⟨tr, t₀, hsteps, hmatch⟩ := h
  cases hs with
  | fork hp hc =>
    rw [hc] at hmatch
    exact ⟨tr, t₀, hsteps, hmatch, _, hp⟩
  | forkFails hp hc =>
    rw [hc] at hmatch
    refine ⟨_, t₀, hsteps.append (.step hp (.inr ⟨rfl, rfl⟩) (.refl _ _)), ?_⟩
    change s.child.Effect _ _ _
    rw [hc]
    exact hmatch
  | @exits e executed hc =>
    rw [hc] at hmatch
    obtain ⟨htable, k, hp⟩ := hmatch
    refine ⟨tr, t₀, hsteps, e, k, hp, ?_⟩
    rw [← htable]
    exact iptables_ipt e executed s.table
  | handler =>
    refine ⟨tr, t₀, hsteps, ?_⟩
    change s.child.reap.Effect _ _ _
    cases hc : s.child <;> rw [hc] at hmatch <;> exact hmatch
  | @waits e k success hp hc =>
    rw [hc] at hmatch
    obtain ⟨e', k', hp', hipt⟩ := hmatch
    rw [hp, Next.call.injEq] at hp'
    obtain ⟨rfl, -⟩ := hp'
    exact ⟨_, s.table, hsteps.append (.step hp hipt (.refl _ _)), rfl⟩
  | @waitsInVain e k success hp hc =>
    rw [hc] at hmatch hchild
    obtain ⟨e', k', hp', hipt⟩ := hmatch
    rw [hp, Next.call.injEq] at hp'
    obtain ⟨rfl, -⟩ := hp'
    have hdenied := ipt_denied hipt fun htrue => hchild (by rw [htrue])
    exact ⟨_, s.table, hsteps.append (.step hp hdenied (.refl _ _)), rfl⟩

/-- **With a late handler the commands are those of the firewall programs**, each with the effect and the
answer that it has when it is run alone. -/
theorem daemon_refines {c : Config} {s : DaemonState} (h : Reach (DaemonState.Initial c) HandlerLate DaemonStep s) :
    ∃ p t, (p = daemonFirewall c ∨ p = fpFirewallDisable) ∧ Refines p t s := by
  induction h with
  | @init s hinit =>
    obtain ⟨hprog, hchild, -⟩ := hinit
    refine ⟨s.prog, s.table, hprog, [], s.table, .refl _ _, ?_⟩
    rw [hchild]
    rfl
  | step hreach _ hs ih =>
    obtain ⟨p, t, hp, hrefines⟩ := ih
    exact ⟨p, t, hp, refines_step hrefines (daemon_late hreach).1 hs⟩

end FreeProxy
