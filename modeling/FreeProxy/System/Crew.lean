import FreeProxy.Lib.Reach
import FreeProxy.System.Effects
import FreeProxy.System.Waits

/-!
# The processes of free_proxy

A `Crew` is the system and the processes that use it: operations, and daemons that run `main` by themselves. Any
number of them may be under way, each may make its next call at any moment, and each may be killed before any
call (`CrewStep`). A daemon that an operation has forked goes on when the operation is killed, beside whatever is
called next, and a daemon that has closed its listener lives until it exits.

* `Own` is what one process has read and done, by its calls and their answers.
* `fp_lock_acquire` may be answered in any way, so more runs are allowed than the lock leaves.

Out of scope: the client workers, `fp_uninstall`, and what a signal does to a daemon but that its accept loop
may end at any moment and that it may be killed at any moment.
-/

namespace FreeProxy

open Lib

/-! ## Processes -/

/-- What may be called. -/
inductive Operation where
  | enableProxy (proxy : List Char)
  | enableSavedProxy
  | setBypass (bypassList : List Char)
  | disableProxy

/-- The program of an operation. -/
def Operation.program : Operation → App Int
  | enableProxy proxy => Waits.beside.fpEnableProxy proxy
  | enableSavedProxy => Waits.beside.fpEnableSavedProxy
  | setBypass bypassList => fpSetBypass bypassList
  | disableProxy => Waits.beside.fpDisableProxy

/-- `free_proxy run` as the process `pid`, to its end. -/
def daemonProgram (argv : List (List Char)) (pid : Nat) : App Int := do
  let code ← mainRun argv pid
  Op.ask (.exit pid)
  pure code

/-- What one process has read and done so far. -/
structure Own where
  /-- the configuration that it has loaded, or tried to save, last -/
  config : Option Config
  /-- that configuration when it reset the chain last -/
  maker : Option Config
  /-- what its calls alone have made of the chain -/
  rules : Option (List Rule)

/-- A process that has made no call. -/
def Own.fresh : Own := ⟨none, none, none⟩

/-- The configuration that a call reads or writes; a save counts even when it fails. -/
def configOf (ev : Event) : Option Config :=
  match ev with
  | ⟨.configLoad, loaded⟩ => loaded
  | ⟨.configSave config, _⟩ => some config
  | _ => none

/-- After one more call. -/
def Own.after (own : Own) (ev : Event) : Own where
  config := (configOf ev).or own.config
  maker := if resetsChain ev then own.config else own.maker
  rules := chainEffect own.rules ev

/-- A process of free_proxy. -/
structure Task where
  pid : Nat
  /-- it runs `free_proxy run` -/
  daemon : Bool
  /-- what it has left to do -/
  program : App Int
  own : Own

/-- A process that begins an operation. -/
def Task.operation (pid : Nat) (operation : Operation) : Task := ⟨pid, false, operation.program, .fresh⟩

/-- A process that begins `free_proxy run`. -/
def Task.run (pid : Nat) (argv : List (List Char)) : Task := ⟨pid, true, daemonProgram argv pid, .fresh⟩

/-- A daemon lives as long as the system has its process. -/
def Task.alive (s : Sys) (t : Task) : Bool := !t.daemon || (s.find t.pid).isSome

/-- The system and the processes of free_proxy. -/
structure Crew where
  sys : Sys
  tasks : List Task
  /-- the process that has created, flushed or deleted the chain last -/
  owner : Option Nat
  /-- the configuration it had then: the rules in the chain are those of this configuration -/
  maker : Option Config

namespace Crew

/-- A new process. -/
def join (s : Crew) (t : Task) : Crew :=
  { s with tasks := t :: s.tasks, owner := if s.owner = some t.pid then none else s.owner }

/-- The daemon that a call has forked. -/
def forked (ev : Event) : Option Nat :=
  match ev with
  | ⟨.spawn, child⟩ => child
  | _ => none

/-- The forked daemon joins. -/
def joinForked (s : Crew) : Option Nat → Crew
  | some child => s.join (.run child childArgv)
  | none => s

/-- Daemons whose process is gone make no more calls. -/
def bury (s : Crew) : Crew := { s with tasks := s.tasks.filter fun t => t.alive s.sys }

/-- The process `t`, beside `rest`, has made a call. -/
def called (s : Crew) (t : Task) (rest : List Task) (ev : Event) (program : App Int) (sys : Sys) : Crew where
  sys := sys
  tasks := { t with program := program, own := t.own.after ev } :: rest
  owner := if resetsChain ev then some t.pid else s.owner
  maker := if resetsChain ev then t.own.config else s.maker

/-- No process is under way, and `FPROXY_OUT` does not exist. -/
def Initial (s : Crew) : Prop :=
  s.tasks = [] ∧ s.owner = none ∧ s.maker = none ∧ ¬ s.sys.Listening ∧ s.sys.table.chain = none

end Crew

/-- What happens next. -/
inductive CrewEvent where
  /-- an operation begins -/
  | call (pid : Nat) (operation : Operation)
  /-- `free_proxy run` begins -/
  | run (pid : Nat) (argv : List (List Char))
  /-- a process makes a call -/
  | step (t : Task) (ev : Event)
  | kill (pid : Nat)

/-- One step of any process. -/
inductive CrewStep : Crew → CrewEvent → Crew → Prop
  | call {s : Crew} {pid : Nat} (operation : Operation) (hfresh : ∀ t ∈ s.tasks, t.pid ≠ pid) :
      CrewStep s (.call pid operation) (s.join (.operation pid operation))
  | run {s : Crew} {pid : Nat} (argv : List (List Char)) (hfresh : ∀ t ∈ s.tasks, t.pid ≠ pid)
      (hpid : 1 < pid ∧ s.sys.find pid = none) (p : Proc) (hp : p.pid = pid ∧ p.listens = none) :
      CrewStep s (.run pid argv)
        ({ s with sys := { s.sys with procs := s.sys.procs ++ [p] } }.join (.run pid argv))
  | step {s : Crew} {t : Task} {rest : List Task} {e : Op} {k : Resp e → App Int} {r : Resp e} {sys : Sys}
      (ht : s.tasks.Perm (t :: rest)) (hcode : t.program.next = .call e k) (hr : sysRel e s.sys r sys)
      (hfresh : ∀ child, Crew.forked ⟨e, r⟩ = some child → ∀ t ∈ s.tasks, t.pid ≠ child) :
      CrewStep s (.step t ⟨e, r⟩)
        ((s.called t rest ⟨e, r⟩ (k r) sys).joinForked (Crew.forked ⟨e, r⟩)).bury
  | kill {s : Crew} {t : Task} {rest : List Task} (ht : s.tasks.Perm (t :: rest)) :
      CrewStep s (.kill t.pid)
        { s with sys := if t.daemon then s.sys.remove t.pid else s.sys, tasks := rest }

/-! ## Runs by turns -/

/-- Whose turn it is; a call is answered by a choice. -/
inductive CrewTurn where
  | call (pid : Nat) (operation : Operation)
  | run (pid : Nat) (argv : List (List Char))
  | step (pid : Nat) (choice : Choice)
  | kill (pid : Nat)

namespace Crew

/-- The process with this pid, and the others. -/
def pick (pid : Nat) : List Task → Option (Task × List Task)
  | [] => none
  | t :: tasks =>
    if t.pid = pid then some (t, tasks) else (pick pid tasks).map fun x => (x.1, t :: x.2)

/-- No process has this pid. -/
def Fresh (s : Crew) (pid : Nat) : Prop := ∀ t ∈ s.tasks, t.pid ≠ pid

instance (s : Crew) (pid : Nat) : Decidable (s.Fresh pid) := by
  unfold Fresh
  infer_instance

/-- One turn. -/
def move (s : Crew) : CrewTurn → Option (CrewEvent × Crew)
  | .call pid operation =>
    if s.Fresh pid then some (.call pid operation, s.join (.operation pid operation)) else none
  | .run pid argv =>
    if s.Fresh pid ∧ 1 < pid ∧ s.sys.find pid = none then
      some (.run pid argv,
        { s with sys := { s.sys with procs := s.sys.procs ++ [Proc.spawned pid 7] } }.join (.run pid argv))
    else none
  | .step pid choice => (pick pid s.tasks).bind fun x =>
    match x.1.program.next with
    | .call e k =>
      let answer := FreeProxy.sys e choice s.sys
      let ev : Event := ⟨e, answer.1⟩
      if ∀ child ∈ forked ev, s.Fresh child then
        some (.step x.1 ev, ((s.called x.1 x.2 ev (k answer.1) answer.2).joinForked (forked ev)).bury)
      else none
    | .done _ => none
  | .kill pid => (pick pid s.tasks).map fun x =>
    (.kill x.1.pid, { s with sys := if x.1.daemon then s.sys.remove x.1.pid else s.sys, tasks := x.2 })

theorem pick_perm {pid : Nat} : ∀ {tasks : List Task} {x : Task × List Task}, pick pid tasks = some x →
    tasks.Perm (x.1 :: x.2)
  | [], _, h => by cases h
  | t :: tasks, x, h => by
    unfold pick at h
    split at h
    · obtain rfl := Option.some.inj h
      exact .refl _
    · obtain ⟨y, hy, rfl⟩ := Option.map_eq_some_iff.mp h
      exact ((pick_perm hy).cons t).trans (.swap y.1 t y.2)

theorem move_step (s : Crew) (turn : CrewTurn) (event : CrewEvent) (s' : Crew)
    (h : s.move turn = some (event, s')) : CrewStep s event s' := by
  cases turn with
  | call pid operation =>
    simp only [move] at h
    split at h
    · obtain ⟨rfl, rfl⟩ := Prod.mk.inj (Option.some.inj h)
      exact .call operation ‹_›
    · cases h
  | run pid argv =>
    simp only [move] at h
    split at h
    · rename_i hrun
      obtain ⟨rfl, rfl⟩ := Prod.mk.inj (Option.some.inj h)
      exact .run argv hrun.1 hrun.2 _ ⟨rfl, rfl⟩
    · cases h
  | step pid choice =>
    obtain ⟨x, hx, h⟩ := Option.bind_eq_some_iff.mp h
    split at h
    · rename_i e k hcode
      simp only at h
      split at h
      · rename_i hfresh
        obtain ⟨rfl, rfl⟩ := Prod.mk.inj (Option.some.inj h)
        exact .step (pick_perm hx) hcode ⟨choice, rfl⟩ fun child hchild => hfresh child hchild
      · cases h
    · cases h
  | kill pid =>
    obtain ⟨x, hx, h⟩ := Option.map_eq_some_iff.mp h
    obtain ⟨rfl, rfl⟩ := Prod.mk.inj h
    exact .kill (pick_perm hx)

end Crew

end FreeProxy
