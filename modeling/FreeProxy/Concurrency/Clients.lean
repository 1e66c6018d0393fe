import FreeProxy.Concurrency.Child
import FreeProxy.Stats.Map

/-!
# The client count

`fp_proxy_run` from the first iptables command on: the loop that accepts and forks, and
`reap_clients`, which interrupts it wherever `SIGCHLD` is not blocked. One signal may stand for any
number of exits, so the handler waits until `waitpid` yields nothing, and during start-up it may find
an iptables child. `active_clients` is written by both, by the loop in two accesses.

What is known at each place of the loop is `AtPc`.

* **`client_count`**: whenever the signal is not blocked and the handler does not run, the count is
  the number of workers that were forked and not reaped. It is never negative, and there are never
  more than `FP_MAX_CLIENTS` of them.

Out of scope: what a worker does with its client, and its slot of the statistics.
-/

namespace FreeProxy

open Lib

/-- Where the daemon is. -/
inductive LoopPc where
  /-- programming the firewall; with a result other than `0` it returns -/
  | startup (prog : Fw Int)
  /-- before `poll` -/
  | poll
  | accept
  /-- before the comparison with `FP_MAX_CLIENTS` -/
  | check
  /-- before `sigprocmask(SIG_BLOCK)` -/
  | block
  /-- before `fork`; `previous` is `previous_signal_mask` -/
  | fork (previous : Bool)
  /-- before the load of `++active_clients` -/
  | load (previous : Bool)
  /-- before its store; `value` was loaded -/
  | store (previous : Bool) (value : Int)
  /-- before `sigprocmask(SIG_SETMASK)` -/
  | restore (previous : Bool)
  | stopped

/-- Where `reap_clients` is. -/
inductive HandlerPc where
  | idle
  /-- before `waitpid(-1, NULL, WNOHANG)` -/
  | waiting
  /-- it has reaped a child, which it has not counted off yet -/
  | counting
  deriving DecidableEq

/-- A worker that has been forked and not reaped. -/
structure Forked where
  pid : Int
  exited : Bool
  deriving DecidableEq

/-- The daemon, its signal handler and its children. -/
structure ClientState where
  pc : LoopPc
  activeClients : Int
  /-- `SIGCHLD` is in the mask -/
  blocked : Bool
  pending : Bool
  handler : HandlerPc
  /-- the iptables child -/
  helper : Child
  workers : List Forked

/-- Who makes a step. -/
inductive ClientAct where
  | main
  | exits
  | deliver
  | handler
  deriving DecidableEq

/-- One step of the daemon, of its handler or of a child. The loop stands still while the handler
runs. -/
inductive ClientStep : ClientState → ClientAct → ClientState → Prop where
  -- `run_iptables`
  | spawn {s prog e k} (hidle : s.handler = .idle) (hpc : s.pc = .startup prog)
      (hp : prog.next = .call e k) (hh : s.helper = .none) :
      ClientStep s .main { s with helper := .running e }
  | spawnFails {s prog e k} (hidle : s.handler = .idle) (hpc : s.pc = .startup prog)
      (hp : prog.next = .call e k) (hh : s.helper = .none) :
      ClientStep s .main { s with pc := .startup (k false) }
  | waits {s prog e k success} (hidle : s.handler = .idle) (hpc : s.pc = .startup prog)
      (hp : prog.next = .call e k) (hh : s.helper = .zombie success) :
      ClientStep s .main { s with pc := .startup (k success), helper := .none }
  | waitsInVain {s prog e k success} (hidle : s.handler = .idle) (hpc : s.pc = .startup prog)
      (hp : prog.next = .call e k) (hh : s.helper = .reaped success) :
      ClientStep s .main { s with pc := .startup (k false), helper := .none }
  | started {s result} (hidle : s.handler = .idle) (hpc : s.pc = .startup (.ret result)) :
      ClientStep s .main { s with pc := if result = 0 then .poll else .stopped }
  -- the loop; `poll` and `accept` may be interrupted or fail, and `keep_running` may be cleared
  | again {s} (hidle : s.handler = .idle) (hpc : s.pc = .poll ∨ s.pc = .accept) :
      ClientStep s .main { s with pc := .poll }
  | stops {s} (hidle : s.handler = .idle) (hpc : s.pc = .poll ∨ s.pc = .accept) :
      ClientStep s .main { s with pc := .stopped }
  | polled {s} (hidle : s.handler = .idle) (hpc : s.pc = .poll) :
      ClientStep s .main { s with pc := .accept }
  | accepted {s} (hidle : s.handler = .idle) (hpc : s.pc = .accept) :
      ClientStep s .main { s with pc := .check }
  | checks {s} (hidle : s.handler = .idle) (hpc : s.pc = .check) :
      ClientStep s .main
        { s with pc := if s.activeClients ≥ fpMaxClients then .poll else .block }
  | blocks {s} (hidle : s.handler = .idle) (hpc : s.pc = .block) :
      ClientStep s .main { s with pc := .fork s.blocked, blocked := true }
  | blockFails {s} (hidle : s.handler = .idle) (hpc : s.pc = .block) :
      ClientStep s .main { s with pc := .poll }
  | forks {s previous} (hidle : s.handler = .idle) (hpc : s.pc = .fork previous) (pid : Int)
      (hfresh : ∀ w ∈ s.workers, w.pid ≠ pid) :
      ClientStep s .main { s with pc := .load previous, workers := ⟨pid, false⟩ :: s.workers }
  | forkFails {s previous} (hidle : s.handler = .idle) (hpc : s.pc = .fork previous) :
      ClientStep s .main { s with pc := .restore previous }
  | loads {s previous} (hidle : s.handler = .idle) (hpc : s.pc = .load previous) :
      ClientStep s .main { s with pc := .store previous s.activeClients }
  | stores {s previous value} (hidle : s.handler = .idle) (hpc : s.pc = .store previous value) :
      ClientStep s .main { s with pc := .restore previous, activeClients := value + 1 }
  | restores {s previous} (hidle : s.handler = .idle) (hpc : s.pc = .restore previous) :
      ClientStep s .main { s with pc := .poll, blocked := previous }
  | restoreFails {s previous} (hidle : s.handler = .idle) (hpc : s.pc = .restore previous) :
      ClientStep s .main { s with pc := .poll }
  -- the children
  | workerExits {s pid rest} (hw : s.workers.Perm (⟨pid, false⟩ :: rest)) :
      ClientStep s .exits { s with workers := ⟨pid, true⟩ :: rest, pending := true }
  | helperExits {s e} (success : Bool) (hh : s.helper = .running e) :
      ClientStep s .exits { s with helper := .zombie success, pending := true }
  -- the handler, in which `SIGCHLD` is blocked
  | deliver {s} (hidle : s.handler = .idle) (hblocked : s.blocked = false) (hp : s.pending = true) :
      ClientStep s .deliver { s with handler := .waiting, pending := false }
  | reapsWorker {s pid rest} (hwaiting : s.handler = .waiting)
      (hw : s.workers.Perm (⟨pid, true⟩ :: rest)) :
      ClientStep s .handler { s with workers := rest, handler := .counting }
  | reapsHelper {s success} (hwaiting : s.handler = .waiting) (hh : s.helper = .zombie success) :
      ClientStep s .handler { s with helper := .reaped success, handler := .counting }
  | counts {s} (hcounting : s.handler = .counting) :
      ClientStep s .handler
        { s with
          activeClients := if s.activeClients > 0 then s.activeClients - 1 else s.activeClients
          handler := .waiting }
  | returns {s} (hwaiting : s.handler = .waiting) (hw : ∀ w ∈ s.workers, w.exited = false)
      (hh : ∀ success, s.helper ≠ .zombie success) :
      ClientStep s .handler { s with handler := .idle }

/-- The firewall part of `fp_proxy_run` begins; when the stats or the record are missing, it only
removes the rules. -/
def ClientState.Initial (c : Config) (s : ClientState) : Prop :=
  (s.pc = .startup (daemonFirewall c) ∨ s.pc = .startup (fpFirewallDisable.bind fun _ => .ret (-1))) ∧
    s.activeClients = 0 ∧ s.handler = .idle ∧ s.helper = .none ∧ s.workers = []

/-! ## What is known -/

namespace ClientState

/-- The count is that of the workers, and of the one that the handler has reaped. -/
def Counted (s : ClientState) : Prop :=
  s.helper = .none ∧ s.activeClients = s.workers.length + if s.handler = .counting then 1 else 0

/-- What is known at a place of the loop. -/
def AtPc (s : ClientState) : LoopPc → Prop
  | .startup prog => s.activeClients = 0 ∧ s.workers = [] ∧
      (s.helper = .none ∨ ∃ e k, prog.next = .call e k)
  | .poll | .accept | .check | .stopped => s.Counted
  | .block => s.Counted ∧ s.workers.length < fpMaxClients
  | .fork _ => s.blocked = true ∧ s.Counted ∧ s.workers.length < fpMaxClients
  | .load _ =>
    s.blocked = true ∧ s.helper = .none ∧ 0 ≤ s.activeClients ∧
      s.activeClients + 1 = s.workers.length
  | .store _ value =>
    s.blocked = true ∧ s.helper = .none ∧ 0 ≤ s.activeClients ∧
      s.activeClients + 1 = s.workers.length ∧ value = s.activeClients
  | .restore _ => s.blocked = true ∧ s.Counted

end ClientState

/-- What holds in every state. -/
structure ClientInv (s : ClientState) : Prop where
  place : s.AtPc s.pc
  /-- the handler has not interrupted a place where it is blocked -/
  unblocked : s.handler ≠ .idle → s.blocked = false
  cap : s.workers.length ≤ fpMaxClients

theorem clientInv_initial {c : Config} {s : ClientState} (h : s.Initial c) : ClientInv s := by
  obtain ⟨hpc, hactive, hhandler, hhelper, hworkers⟩ := h
  refine ⟨?_, fun hne => absurd hhandler hne, by simp [hworkers]⟩
  rcases hpc with hpc | hpc
  · rw [hpc]
    exact ⟨hactive, hworkers, .inl hhelper⟩
  · rw [hpc]
    exact ⟨hactive, hworkers, .inl hhelper⟩

/-- A step of the loop, in which the handler does not run. -/
theorem clientInv_main {s s' : ClientState} (h : ClientInv s) (hs : ClientStep s .main s') :
    ClientInv s' := by
  have hcap := h.cap
  have hplace := h.place
  cases hs with
  | spawn hidle hpc hp hh =>
    rw [hpc] at hplace
    refine ⟨?_, h.unblocked, hcap⟩
    simp only [hpc]
    exact ⟨hplace.1, hplace.2.1, .inr ⟨_, _, hp⟩⟩
  | spawnFails hidle hpc hp hh =>
    rw [hpc] at hplace
    exact ⟨⟨hplace.1, hplace.2.1, .inl hh⟩, h.unblocked, hcap⟩
  | waits hidle hpc hp hh =>
    rw [hpc] at hplace
    exact ⟨⟨hplace.1, hplace.2.1, .inl rfl⟩, h.unblocked, hcap⟩
  | waitsInVain hidle hpc hp hh =>
    rw [hpc] at hplace
    exact ⟨⟨hplace.1, hplace.2.1, .inl rfl⟩, h.unblocked, hcap⟩
  | @started result hidle hpc =>
    rw [hpc] at hplace
    obtain ⟨hactive, hworkers, hhelper⟩ := hplace
    have hnone : s.helper = .none := by
      rcases hhelper with hnone | ⟨e, k, hcall⟩
      · exact hnone
      · simp [Prog.next] at hcall
    have hcounted : s.Counted := ⟨hnone, by simp [hactive, hworkers, hidle]⟩
    refine ⟨?_, h.unblocked, hcap⟩
    by_cases hresult : result = 0
    · simp only [if_pos hresult]
      exact hcounted
    · simp only [if_neg hresult]
      exact hcounted
  | again hidle hpc | stops hidle hpc =>
    refine ⟨?_, h.unblocked, hcap⟩
    rcases hpc with hpc | hpc
    · rw [hpc] at hplace
      exact hplace
    · rw [hpc] at hplace
      exact hplace
  | polled hidle hpc | accepted hidle hpc =>
    rw [hpc] at hplace
    exact ⟨hplace, h.unblocked, hcap⟩
  | checks hidle hpc =>
    rw [hpc] at hplace
    refine ⟨?_, h.unblocked, hcap⟩
    by_cases hfull : s.activeClients ≥ fpMaxClients
    · simp only [if_pos hfull]
      exact hplace
    · simp only [if_neg hfull]
      refine ⟨hplace, ?_⟩
      obtain ⟨-, hcount⟩ := hplace
      simp only [hidle, if_false, reduceCtorEq] at hcount
      simp only
      omega
  | blocks hidle hpc =>
    rw [hpc] at hplace
    exact ⟨⟨rfl, hplace⟩, fun hne => absurd hidle hne, hcap⟩
  | blockFails hidle hpc =>
    rw [hpc] at hplace
    exact ⟨hplace.1, h.unblocked, hcap⟩
  | forks hidle hpc pid hfresh =>
    rw [hpc] at hplace
    obtain ⟨hblocked, ⟨hhelper, hcount⟩, hroom⟩ := hplace
    simp only [hidle, if_false, reduceCtorEq] at hcount
    refine ⟨⟨hblocked, hhelper, by simp only; omega, ?_⟩, fun hne => absurd hidle hne, ?_⟩
    · simp only [List.length_cons]
      omega
    · simp only [List.length_cons]
      omega
  | forkFails hidle hpc =>
    rw [hpc] at hplace
    exact ⟨⟨hplace.1, hplace.2.1⟩, h.unblocked, hcap⟩
  | loads hidle hpc =>
    rw [hpc] at hplace
    exact ⟨⟨hplace.1, hplace.2.1, hplace.2.2.1, hplace.2.2.2, rfl⟩, h.unblocked, hcap⟩
  | stores hidle hpc =>
    rw [hpc] at hplace
    obtain ⟨hblocked, hhelper, -, hcount, hvalue⟩ := hplace
    refine ⟨⟨hblocked, hhelper, ?_⟩, h.unblocked, hcap⟩
    simp only [hidle, if_false, reduceCtorEq]
    omega
  | restores hidle hpc =>
    rw [hpc] at hplace
    exact ⟨hplace.2, fun hne => absurd hidle hne, hcap⟩
  | restoreFails hidle hpc =>
    rw [hpc] at hplace
    exact ⟨hplace.2, h.unblocked, hcap⟩

section

variable {s s' : ClientState}

/-- What is known at a place depends on the counts, not on who has exited. -/
theorem ClientState.AtPc.congr {pc : LoopPc} (h : s.AtPc pc)
    (hactive : s'.activeClients = s.activeClients) (hlen : s'.workers.length = s.workers.length)
    (hblocked : s'.blocked = s.blocked) (hhelper : s.helper = .none → s'.helper = .none)
    (hcounting : s'.handler = .counting ↔ s.handler = .counting) : s'.AtPc pc := by
  have hcounted : s.Counted → s'.Counted := by
    rintro ⟨hnone, hcount⟩
    refine ⟨hhelper hnone, ?_⟩
    simp only [hactive, hlen, hcounting]
    exact hcount
  cases pc with
  | startup prog =>
    obtain ⟨hzero, hworkers, hchild⟩ := h
    refine ⟨hactive.trans hzero, ?_, hchild.imp_left hhelper⟩
    rw [hworkers] at hlen
    exact List.eq_nil_of_length_eq_zero hlen
  | poll | accept | check | stopped => exact hcounted h
  | block => exact ⟨hcounted h.1, hlen ▸ h.2⟩
  | fork previous => exact ⟨hblocked.trans h.1, hcounted h.2.1, hlen ▸ h.2.2⟩
  | load previous =>
    refine ⟨hblocked.trans h.1, hhelper h.2.1, ?_⟩
    rw [hactive, hlen]
    exact h.2.2
  | store previous value =>
    refine ⟨hblocked.trans h.1, hhelper h.2.1, ?_⟩
    rw [hactive, hlen]
    exact h.2.2
  | restore previous => exact ⟨hblocked.trans h.1, hcounted h.2⟩

/-- Where the handler may have interrupted the daemon: during start-up, or where everything has
been counted. -/
theorem interrupted (h : ClientInv s) (hrun : s.handler ≠ .idle) :
    (∃ prog, s.pc = .startup prog) ∨
      (s.Counted ∧ ∀ s' : ClientState, s'.Counted → s'.workers.length ≤ s.workers.length → s'.AtPc s.pc) := by
  have hplace := h.place
  have hopen := h.unblocked hrun
  cases hpc : s.pc with
  | startup prog => exact .inl ⟨prog, rfl⟩
  | poll | accept | check | stopped =>
    rw [hpc] at hplace
    exact .inr ⟨hplace, fun _ hcounted _ => hcounted⟩
  | block =>
    rw [hpc] at hplace
    exact .inr ⟨hplace.1, fun _ hcounted hlen => ⟨hcounted, hlen.trans_lt hplace.2⟩⟩
  | fork | load | store | restore =>
    -- `SIGCHLD` is blocked there
    rw [hpc] at hplace
    exact absurd (hplace.1.symm.trans hopen) (by simp)

/-- A child exits. -/
theorem clientInv_exits (h : ClientInv s) (hs : ClientStep s .exits s') : ClientInv s' := by
  cases hs with
  | workerExits hw =>
    have hlen := hw.length_eq
    rw [List.length_cons] at hlen
    refine ⟨h.place.congr rfl hlen.symm rfl (fun hnone => hnone) Iff.rfl, h.unblocked, ?_⟩
    rw [List.length_cons, ← hlen]
    exact h.cap
  | helperExits success hh =>
    refine ⟨h.place.congr rfl rfl rfl (fun hnone => ?_) Iff.rfl, h.unblocked, h.cap⟩
    simp [hnone] at hh

/-- A step of the handler. -/
theorem clientInv_handler (h : ClientInv s) (hs : ClientStep s .handler s') : ClientInv s' := by
  have hplace := h.place
  cases hs with
  | @reapsWorker pid rest hwaiting hw =>
    have hrun : s.handler ≠ .idle := by simp [hwaiting]
    have hlen := hw.length_eq
    rw [List.length_cons] at hlen
    have hcap := h.cap
    refine ⟨?_, fun _ => h.unblocked hrun, by simp only; omega⟩
    rcases interrupted h hrun with ⟨prog, hpc⟩ | ⟨⟨hhelper, hcount⟩, hkeep⟩
    · rw [hpc] at hplace
      simp [hplace.2.1] at hlen
    · refine hkeep _ ⟨hhelper, ?_⟩ (by simp only; omega)
      simp only [hwaiting, if_false, reduceCtorEq] at hcount
      simp only [if_true]
      omega
  | reapsHelper hwaiting hh =>
    have hrun : s.handler ≠ .idle := by simp [hwaiting]
    refine ⟨?_, fun _ => h.unblocked hrun, h.cap⟩
    rcases interrupted h hrun with ⟨prog, hpc⟩ | ⟨⟨hhelper, -⟩, -⟩
    · rw [hpc] at hplace
      obtain ⟨hactive, hworkers, hchild⟩ := hplace
      simp only [hpc]
      refine ⟨hactive, hworkers, .inr ?_⟩
      rcases hchild with hnone | hcall
      · simp [hnone] at hh
      · exact hcall
    · simp [hhelper] at hh
  | counts hcounting =>
    have hrun : s.handler ≠ .idle := by simp [hcounting]
    refine ⟨?_, fun _ => h.unblocked hrun, h.cap⟩
    rcases interrupted h hrun with ⟨prog, hpc⟩ | ⟨⟨hhelper, hcount⟩, hkeep⟩
    · rw [hpc] at hplace
      obtain ⟨hactive, hworkers, hchild⟩ := hplace
      simp only [hpc]
      -- the child that was reaped is no worker, and the count stays
      exact ⟨by simp [hactive], hworkers, hchild⟩
    · refine hkeep _ ⟨hhelper, ?_⟩ (Nat.le_refl _)
      rw [if_pos hcounting] at hcount
      rw [if_pos (by omega)]
      simp only [if_false, reduceCtorEq]
      omega
  | returns hwaiting hw hh =>
    refine ⟨hplace.congr rfl rfl rfl (fun hnone => hnone) (by simp [hwaiting]), ?_, h.cap⟩
    exact fun hne => absurd rfl hne

theorem clientInv_step {a : ClientAct} (h : ClientInv s) (hs : ClientStep s a s') : ClientInv s' := by
  cases a with
  | main => exact clientInv_main h hs
  | exits => exact clientInv_exits h hs
  | handler => exact clientInv_handler h hs
  | deliver =>
    cases hs with
    | deliver hidle hblocked hp =>
      exact ⟨h.place.congr rfl rfl rfl (fun hnone => hnone) (by simp [hidle]), fun _ => hblocked, h.cap⟩

/-- The count is exact where everything has been counted. -/
theorem count_of_unblocked (h : ClientInv s) (hblocked : s.blocked = false) (hidle : s.handler = .idle) :
    s.activeClients = s.workers.length := by
  have hplace := h.place
  have hexact : s.Counted → s.activeClients = s.workers.length := by
    rintro ⟨-, hcount⟩
    simpa [hidle] using hcount
  cases hpc : s.pc with
  | startup prog =>
    rw [hpc] at hplace
    simp [hplace.1, hplace.2.1]
  | poll | accept | check | stopped =>
    rw [hpc] at hplace
    exact hexact hplace
  | block =>
    rw [hpc] at hplace
    exact hexact hplace.1
  | fork previous | load previous | store previous value | restore previous =>
    rw [hpc] at hplace
    exact absurd (hplace.1.symm.trans hblocked) (by simp)

theorem count_nonneg (h : ClientInv s) : 0 ≤ s.activeClients := by
  have hplace := h.place
  have hexact : s.Counted → 0 ≤ s.activeClients := by
    rintro ⟨-, hcount⟩
    split at hcount <;> omega
  cases hpc : s.pc with
  | startup prog =>
    rw [hpc] at hplace
    exact hplace.1.ge
  | poll | accept | check | stopped =>
    rw [hpc] at hplace
    exact hexact hplace
  | block =>
    rw [hpc] at hplace
    exact hexact hplace.1
  | fork previous =>
    rw [hpc] at hplace
    exact hexact hplace.2.1
  | load previous | store previous value =>
    rw [hpc] at hplace
    exact hplace.2.2.1
  | restore previous =>
    rw [hpc] at hplace
    exact hexact hplace.2

end

/-- **The client cap is exact.** -/
theorem client_count {c : Config} {s : ClientState}
    (h : Reach (ClientState.Initial c) anyStep ClientStep s) :
    (s.blocked = false → s.handler = .idle → s.activeClients = s.workers.length) ∧
      0 ≤ s.activeClients ∧ s.workers.length ≤ fpMaxClients := by
  have hinv : ClientInv s := h.inv (fun _ => clientInv_initial) fun _ _ _ hI _ hs => clientInv_step hI hs
  exact ⟨count_of_unblocked hinv, count_nonneg hinv, hinv.cap⟩

/-- The daemon with nothing but its own workers. -/
def loopAt (pc : LoopPc) (activeClients : Int) (blocked : Bool) (workers : List Forked) : ClientState :=
  ⟨pc, activeClients, blocked, true, .idle, .none, workers⟩

/-- The start-up with this left to do. -/
def startingAt (prog : Fw Int) : ClientState := loopAt (.startup prog) 0 false []

/-- Every command succeeds. -/
def succeeding : Sem Cmd (fun _ => Bool) Unit Unit := fun _ _ _ => (true, ())

/-- Commands that all succeed, one after the other. -/
theorem reach_startingAt {c : Config} {p q : Fw Int} {u u' : Unit} {tr : List (Ev Cmd fun _ => Bool)}
    (hs : Steps succeeding.rel p u tr q u')
    (h : Reach (ClientState.Initial c) anyStep ClientStep (startingAt p)) :
    Reach (ClientState.Initial c) anyStep ClientStep (startingAt q) := by
  induction hs with
  | refl => exact h
  | @step p _ e k r _ tr q _ hp hr _ ih =>
    obtain ⟨_, hr⟩ := hr
    obtain ⟨rfl, -⟩ := Prod.mk.inj hr
    have hspawn := h.step trivial (.spawn rfl rfl hp rfl)
    have hexit := hspawn.step trivial (.helperExits true rfl)
    exact ih (hexit.step trivial (.waits rfl rfl hp rfl))

section Merged

variable {c : Config} {n : Int} {workers : List Forked}

/-- A client is accepted and its worker forked. -/
theorem reach_load (pid : Int) (hcap : n < fpMaxClients) (hfresh : ∀ w ∈ workers, w.pid ≠ pid)
    (h : Reach (ClientState.Initial c) anyStep ClientStep (loopAt .poll n false workers)) :
    Reach (ClientState.Initial c) anyStep ClientStep (loopAt (.load false) n true (⟨pid, false⟩ :: workers)) := by
  have h1 : Reach (ClientState.Initial c) anyStep ClientStep (loopAt .check n false workers) :=
    (h.step trivial (.polled rfl rfl)).step trivial (.accepted rfl rfl)
  have hchecks : ClientStep (loopAt .check n false workers) .main (loopAt .block n false workers) := by
    have hroom : ¬ (loopAt .check n false workers).activeClients ≥ fpMaxClients := Int.not_le.mpr hcap
    have hstep := ClientStep.checks (s := loopAt .check n false workers) rfl rfl
    rwa [if_neg hroom] at hstep
  have h2 : Reach (ClientState.Initial c) anyStep ClientStep (loopAt (.fork false) n true workers) :=
    (h1.step trivial hchecks).step trivial (.blocks rfl rfl)
  exact h2.step trivial (.forks rfl rfl pid hfresh)

/-- It is counted, and the loop goes round; workers may have exited meanwhile. -/
theorem reach_poll (h : Reach (ClientState.Initial c) anyStep ClientStep (loopAt (.load false) n true workers)) :
    Reach (ClientState.Initial c) anyStep ClientStep (loopAt .poll (n + 1) false workers) := by
  have h1 : Reach (ClientState.Initial c) anyStep ClientStep (loopAt (.store false n) n true workers) :=
    h.step trivial (.loads rfl rfl)
  have h2 : Reach (ClientState.Initial c) anyStep ClientStep (loopAt (.restore false) (n + 1) true workers) :=
    h1.step trivial (.stores rfl rfl)
  exact h2.step trivial (.restores rfl rfl)

end Merged

/-- Two workers have exited while the third was forked, and there is one signal for both. -/
def mergedState : ClientState := loopAt .poll 3 false [⟨3, true⟩, ⟨2, true⟩, ⟨4, false⟩]

/-- The handler has reaped both. -/
def reapedState : ClientState := ⟨.poll, 1, false, false, .idle, .none, [⟨4, false⟩]⟩

/-- Two exits that are merged into one signal are both counted off. -/
theorem client_count_merged : Reach (ClientState.Initial wideConfig) anyStep ClientStep mergedState ∧
    Reach (· = mergedState) anyStep ClientStep reapedState ∧
    mergedState.activeClients = mergedState.workers.length ∧
    reapedState.activeClients = reapedState.workers.length := by
  have hcommands : Steps succeeding.rel (daemonFirewall wideConfig) () _ (.ret 0) _ :=
    exec_steps (List.replicate 20 ()) _ _
  have hinit : ClientState.Initial wideConfig (startingAt (daemonFirewall wideConfig)) :=
    ⟨.inl rfl, rfl, rfl, rfl, rfl⟩
  let Reached := Reach (ClientState.Initial wideConfig) anyStep ClientStep
  have h0 : Reached (loopAt .poll 0 false []) :=
    (reach_startingAt hcommands (.init hinit)).step trivial (@ClientStep.started _ 0 rfl rfl)
  have h1 : Reached (loopAt .poll 1 false [⟨2, false⟩]) := reach_poll (reach_load 2 (by decide) (by simp) h0)
  have h2 : Reached (loopAt .poll 2 false [⟨3, false⟩, ⟨2, false⟩]) :=
    reach_poll (reach_load 3 (by decide) (by simp) h1)
  have h3 : Reached (loopAt (.load false) 2 true [⟨4, false⟩, ⟨3, false⟩, ⟨2, false⟩]) :=
    reach_load 4 (by decide) (by simp) h2
  -- `SIGCHLD` is blocked while they exit
  have hsecondLast : List.Perm [⟨4, false⟩, ⟨3, false⟩, ⟨2, false⟩]
      [(⟨2, false⟩ : Forked), ⟨4, false⟩, ⟨3, false⟩] := by decide
  have hlast : List.Perm [⟨2, true⟩, ⟨4, false⟩, ⟨3, false⟩]
      [(⟨3, false⟩ : Forked), ⟨2, true⟩, ⟨4, false⟩] := by decide
  have h4 : Reached (loopAt (.load false) 2 true [⟨2, true⟩, ⟨4, false⟩, ⟨3, false⟩]) :=
    h3.step trivial (.workerExits hsecondLast)
  have h5 : Reached (loopAt (.load false) 2 true [⟨3, true⟩, ⟨2, true⟩, ⟨4, false⟩]) :=
    h4.step trivial (.workerExits hlast)
  have hmerged : Reached mergedState := reach_poll h5
  let Reaps := Reach (· = mergedState) anyStep ClientStep
  have hwaiting : Reaps ⟨.poll, 3, false, false, .waiting, .none, [⟨3, true⟩, ⟨2, true⟩, ⟨4, false⟩]⟩ :=
    .step (.init rfl) trivial (ClientStep.deliver (s := mergedState) rfl rfl rfl)
  have hfirst : Reaps ⟨.poll, 2, false, false, .waiting, .none, [⟨2, true⟩, ⟨4, false⟩]⟩ :=
    (hwaiting.step trivial (.reapsWorker rfl (.refl _))).step trivial (.counts rfl)
  have hsecond : Reaps ⟨.poll, 1, false, false, .waiting, .none, [⟨4, false⟩]⟩ :=
    (hfirst.step trivial (.reapsWorker rfl (.refl _))).step trivial (.counts rfl)
  have hreaped : Reaps reapedState := hsecond.step trivial (.returns rfl (by simp) (by simp))
  refine ⟨hmerged, hreaped, (client_count hmerged).1 rfl rfl, (client_count (c := wideConfig) ?_).1 rfl rfl⟩
  exact hmerged.trans hreaped

end FreeProxy
