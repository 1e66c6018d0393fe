import FreeProxy.Lib.Protocol
import FreeProxy.Lib.Reach
import FreeProxy.Lib.Transfer

/-!
# The resolver thread

`resolve_ipv4` of `src/test.c` with its thread `resolver_main`. They share a job; the caller may give up
while `getaddrinfo` is under way, and then the thread has to destroy the job, otherwise the caller does.
Either side finds out which it is under the mutex, by the flag of the other.

* `Shared` is the job with what has been allocated and freed. Both sides make one call after the other, in
  any order (`ResolveStep`), and `pthread_cond_timedwait` is two calls, its release of the mutex and its return.
* `CallerPhase` and `ResolverPhase` are how far the two have come (`follows_resolveIpv4`,
  `follows_resolverMain`). `beside` says which phases they may be in at one time, and `Owned` what the shared
  state is then.

Headline: **`resolver_owned_once`**: in every run the job is freed once and not used after that, and the
address list is freed once or returned.

Out of scope: the addresses themselves, and the memory order of the flag.
-/

namespace FreeProxy.Resolver

open Lib

/-- The two users of a resolver job. -/
inductive Party where
  | caller
  | resolver
  deriving DecidableEq

/-- The calls; `job->` is left out. -/
inductive ResolveOp where
  /-- `cancelled(cancel_flag)` -/
  | cancelled
  /-- `calloc`; `false` is `NULL` -/
  | calloc
  /-- `free(job)` -/
  | free
  | mutexInit
  | condInit
  | mutexDestroy
  | condDestroy
  /-- `pthread_create(&resolver, NULL, resolver_main, job)` -/
  | create
  | lock
  | unlock
  | loadDone
  | loadAbandoned
  /-- `abandoned = 1` -/
  | storeAbandoned
  /-- `status` and `result`; `false` is `NULL` -/
  | loadAnswer
  /-- `result = …; status = …; done = 1` -/
  | storeAnswer (status : Int) (result : Bool)
  /-- `clock_gettime` -/
  | clock
  /-- `pthread_cond_timedwait` releases the mutex -/
  | waitBegin
  /-- it returns, with the mutex -/
  | waitEnd
  | signal
  | detach
  | join
  | getaddrinfo
  | freeaddrinfo
  deriving DecidableEq

/-- What a call answers. -/
abbrev ResolveResp : ResolveOp → Type
  | .cancelled | .calloc | .mutexInit | .condInit | .create | .loadDone | .loadAbandoned | .clock => Bool
  | .waitEnd => Int
  | .loadAnswer | .getaddrinfo => Int × Bool
  | .free | .mutexDestroy | .condDestroy | .lock | .unlock | .storeAbandoned | .storeAnswer _ _
  | .waitBegin | .signal | .detach | .join | .freeaddrinfo => Unit

/-- A program of one of the two. -/
abbrev ResolveProg (α : Type) := Prog ResolveOp ResolveResp α

/-- One call. -/
abbrev ResolveOp.ask (e : ResolveOp) : ResolveProg (ResolveResp e) := Prog.ask e

/-! ## The code -/

/-- `destroy_resolver_job`. -/
def destroyResolverJob : ResolveProg Unit := do
  ResolveOp.ask .condDestroy
  ResolveOp.ask .mutexDestroy
  ResolveOp.ask .free

/-- `if (result != NULL) freeaddrinfo(result);` -/
def freeResult (result : Bool) : ResolveProg Unit :=
  if result then ResolveOp.ask .freeaddrinfo else pure ()

/-- `resolver_main`. Whoever finds the other one gone frees the job. -/
def resolverMain : ResolveProg Unit := do
  let (status, result) ← ResolveOp.ask .getaddrinfo
  ResolveOp.ask .lock
  if ← ResolveOp.ask .loadAbandoned then do
    ResolveOp.ask .unlock
    freeResult result
    destroyResolverJob
  else do
    ResolveOp.ask (.storeAnswer status result)
    ResolveOp.ask .signal
    ResolveOp.ask .unlock

/-- `ETIMEDOUT`. -/
def etimedout : Int := 110

/-- The loop of `resolve_ipv4`. Once a wait has failed, its condition is evaluated for the last time. -/
def awaitDone : ResolveProg Unit :=
  .loop .loadDone (fun done => do
    if done then pure (some ()) else do
    if ← ResolveOp.ask .cancelled then pure (some ()) else do
    if !(← ResolveOp.ask .clock) then pure (some ()) else do
    ResolveOp.ask .waitBegin
    let status ← ResolveOp.ask .waitEnd
    if status ≠ 0 ∧ status ≠ etimedout then do
      if ← ResolveOp.ask .loadDone then pure (some ()) else do
      let _ ← ResolveOp.ask .cancelled
      pure (some ())
    else pure none) .ret

/-- What `resolve_ipv4` returns, whether `*result` is an address list then, and `*resolver_error`. -/
structure Answer where
  code : Int
  result : Bool
  resolverError : Int
  deriving DecidableEq

/-- `return code;`, with no address list. -/
def Answer.failed (code : Int) : Answer := ⟨code, false, 0⟩

/-- The end of `resolve_ipv4`, after the job. -/
def settle (status : Int) (result : Bool) : ResolveProg Answer := do
  if ← ResolveOp.ask .cancelled then do
    freeResult result
    pure ⟨-2, false, status⟩
  else if status ≠ 0 ∧ result = true then do
    ResolveOp.ask .freeaddrinfo
    pure ⟨-1, false, status⟩
  else pure ⟨if status = 0 ∧ result = true then 0 else -1, result, status⟩

/-- `resolve_ipv4` once the thread is there. -/
def awaitResolver : ResolveProg Answer := do
  ResolveOp.ask .lock
  awaitDone
  if !(← ResolveOp.ask .loadDone) then do
    ResolveOp.ask .storeAbandoned
    ResolveOp.ask .unlock
    ResolveOp.ask .detach
    if ← ResolveOp.ask .cancelled then pure (.failed (-2)) else pure (.failed (-1))
  else do
    let (status, result) ← ResolveOp.ask .loadAnswer
    ResolveOp.ask .unlock
    ResolveOp.ask .join
    destroyResolverJob
    settle status result

/-- `sizeof(job->host)`. -/
def hostSize : Nat := 256

/-- `sizeof(job->service)`. -/
def serviceSize : Nat := 8

/-- `resolve_ipv4`: a thread asks `getaddrinfo`, and the caller waits for it no longer than it is allowed to. -/
def resolveIpv4 (host service : List Byte) : ResolveProg Answer := do
  if ← ResolveOp.ask .cancelled then pure (.failed (-2)) else do
  if !(← ResolveOp.ask .calloc) then pure (.failed (-1)) else do
  if host.length ≥ hostSize ∨ service.length ≥ serviceSize then do
    ResolveOp.ask .free
    pure (.failed (-1))
  else do
  if !(← ResolveOp.ask .mutexInit) then do
    ResolveOp.ask .free
    pure (.failed (-1))
  else do
  if !(← ResolveOp.ask .condInit) then do
    ResolveOp.ask .mutexDestroy
    ResolveOp.ask .free
    pure (.failed (-1))
  else do
  if !(← ResolveOp.ask .create) then do
    destroyResolverJob
    pure (.failed (-1))
  else awaitResolver

/-! ## The job and its two users -/

/-- What both can see, and what has become of the jobs so far. -/
structure Shared where
  /-- the cancel flag -/
  raised : Bool
  /-- how many jobs were allocated, and how many freed -/
  allocs : Nat
  frees : Nat
  /-- a job was used that had not been allocated or had been freed -/
  stale : Bool
  mutex : Option Party
  done : Bool
  abandoned : Bool
  status : Int
  result : Bool
  /-- how many address lists were made, and how many freed -/
  lists : Nat
  listFrees : Nat
  deriving DecidableEq

/-- A use of the job. -/
def Shared.use (x : Shared) : Shared := { x with stale := x.stale || decide (x.allocs ≤ x.frees) }

/-- What a call may be answered. -/
def Answered (x : Shared) : (e : ResolveOp) → ResolveResp e → Prop
  | .cancelled, r => r = x.raised
  | .loadDone, r => r = x.done
  | .loadAbandoned, r => r = x.abandoned
  | .loadAnswer, r => r = (x.status, x.result)
  | .lock, _ | .waitEnd, _ => x.mutex = none
  | _, _ => True

/-- What a call does. -/
def effect (who : Party) (x : Shared) : (e : ResolveOp) → ResolveResp e → Shared
  | .calloc, true =>
    { x with allocs := x.allocs + 1, done := false, abandoned := false, status := 0, result := false }
  | .free, _ => { x.use with frees := x.frees + 1 }
  | .mutexInit, _ | .condInit, _ | .mutexDestroy, _ | .condDestroy, _ | .signal, _ => x.use
  | .lock, _ | .waitEnd, _ => { x.use with mutex := some who }
  | .unlock, _ | .waitBegin, _ => { x.use with mutex := none }
  | .loadDone, _ | .loadAbandoned, _ | .loadAnswer, _ => x.use
  | .storeAbandoned, _ => { x.use with abandoned := true }
  | .storeAnswer status result, _ => { x.use with status := status, result := result, done := true }
  | .getaddrinfo, answer => { x.use with lists := x.lists + answer.2.toNat }
  | .freeaddrinfo, _ => { x with listFrees := x.listFrees + 1 }
  | .calloc, false | .cancelled, _ | .create, _ | .clock, _ | .detach, _ | .join, _ => x

/-- A call of one of the two, its answer and its effect. -/
def resolveRel (who : Party) : Rel ResolveOp ResolveResp Shared :=
  fun e x r x' => Answered x e r ∧ x' = effect who x e r

/-- The caller, the thread and what they share. -/
structure Resolving where
  caller : ResolveProg Answer
  /-- the thread, once it is created -/
  resolver : Option (ResolveProg Unit)
  shared : Shared

/-- What happens next. -/
inductive ResolveEvent where
  | call (who : Party) (e : ResolveOp)
  /-- somebody raises the cancel flag -/
  | raise

/-- One step of the caller, of the thread, or of whoever cancels. -/
inductive ResolveStep : Resolving → ResolveEvent → Resolving → Prop where
  | create {s : Resolving} {k : Bool → ResolveProg Answer} (hp : s.caller.next = .call .create k) (r : Bool) :
      ResolveStep s (.call .caller .create)
        { s with caller := k r, resolver := if r then some resolverMain else s.resolver }
  | caller {s : Resolving} {e : ResolveOp} {k : ResolveResp e → ResolveProg Answer} {r : ResolveResp e}
      {x : Shared} (hp : s.caller.next = .call e k) (he : e ≠ .create)
      -- `pthread_join` waits for the end of the thread
      (hjoin : e = .join → s.resolver = some (.ret ())) (hr : resolveRel .caller e s.shared r x) :
      ResolveStep s (.call .caller e) { s with caller := k r, shared := x }
  | resolver {s : Resolving} {p : ResolveProg Unit} {e : ResolveOp} {k : ResolveResp e → ResolveProg Unit}
      {r : ResolveResp e} {x : Shared} (hs : s.resolver = some p) (hp : p.next = .call e k)
      (hr : resolveRel .resolver e s.shared r x) :
      ResolveStep s (.call .resolver e) { s with resolver := some (k r), shared := x }
  | raise {s : Resolving} : ResolveStep s .raise { s with shared := { s.shared with raised := true } }

/-- `resolve_ipv4` is called; the flag may be raised already. -/
def Resolving.Initial (host service : List Byte) (s : Resolving) : Prop :=
  s.caller = resolveIpv4 host service ∧ s.resolver = none ∧ s.shared.allocs = 0 ∧ s.shared.frees = 0 ∧
    s.shared.stale = false ∧ s.shared.mutex = none ∧ s.shared.done = false ∧ s.shared.abandoned = false ∧
    s.shared.lists = 0 ∧ s.shared.listFrees = 0

/-! ## How far the two have come -/

/-- How far the caller has come with its job. -/
inductive CallerPhase where
  /-- there is no job -/
  | start
  /-- the job is the caller's alone -/
  | owner
  /-- the caller has freed a job that the thread never saw -/
  | refused
  /-- the thread is there; the caller is outside the mutex -/
  | outside
  /-- it has the mutex, and may have loaded `done` -/
  | inside (known : Option Bool)
  /-- it has the mutex and has given up -/
  | abandoning
  /-- the job is not the caller's any more -/
  | left
  /-- it has the mutex and the answer of the thread -/
  | taking (result : Bool)
  /-- it waits for the end of the thread -/
  | joining (result : Bool)
  /-- the job is the caller's alone again -/
  | joined (result : Bool)
  /-- the job is freed, the address list is not -/
  | settled (result : Bool)
  /-- both are freed -/
  | over
  deriving DecidableEq

/-- The calls that the caller may make in a phase. Another call has no next phase. -/
def CallerPhase.advance : CallerPhase → (e : ResolveOp) → ResolveResp e → Option CallerPhase
  | .start, .cancelled, _ => some .start
  | .start, .calloc, allocated => some (if allocated then .owner else .start)
  | .owner, .mutexInit, _ | .owner, .condInit, _ | .owner, .mutexDestroy, _ | .owner, .condDestroy, _ =>
    some .owner
  | .owner, .create, created => some (if created then .outside else .owner)
  | .owner, .free, _ => some .refused
  | .outside, .lock, _ | .outside, .waitEnd, _ => some (.inside none)
  | .inside _, .loadDone, done => some (.inside (some done))
  | .inside known, .cancelled, _ | .inside known, .clock, _ => some (.inside known)
  | .inside _, .waitBegin, _ => some .outside
  | .inside (some false), .storeAbandoned, _ => some .abandoning
  | .abandoning, .unlock, _ => some .left
  | .left, .detach, _ | .left, .cancelled, _ => some .left
  | .inside (some true), .loadAnswer, answer => some (.taking answer.2)
  | .taking result, .unlock, _ => some (.joining result)
  | .joining result, .join, _ => some (.joined result)
  | .joined result, .condDestroy, _ | .joined result, .mutexDestroy, _ => some (.joined result)
  | .joined result, .free, _ => some (.settled result)
  | .settled result, .cancelled, _ => some (.settled result)
  | .settled true, .freeaddrinfo, _ => some .over
  | _, _, _ => none

/-- How far the thread has come with its job. -/
inductive ResolverPhase where
  /-- there is no thread -/
  | absent
  /-- `getaddrinfo` is under way -/
  | resolving
  /-- `getaddrinfo` has answered -/
  | resolved (result : Bool)
  /-- it has the mutex -/
  | locked (result : Bool)
  /-- it has the mutex, and the caller has not given up -/
  | storing (result : Bool)
  /-- it has the mutex and has stored its answer -/
  | stored (result : Bool)
  /-- the job is the caller's -/
  | finished (result : Bool)
  /-- it has the mutex, and the caller has given up -/
  | dropping (result : Bool)
  /-- the job is the thread's alone, and there is an address list -/
  | dropped
  /-- the address list is freed, when there was one -/
  | emptied (result : Bool)
  /-- the job is freed -/
  | gone (result : Bool)
  deriving DecidableEq

/-- The calls that the thread may make in a phase. Another call has no next phase. -/
def ResolverPhase.advance : ResolverPhase → (e : ResolveOp) → ResolveResp e → Option ResolverPhase
  | .resolving, .getaddrinfo, answer => some (.resolved answer.2)
  | .resolved result, .lock, _ => some (.locked result)
  | .locked result, .loadAbandoned, abandoned => some (if abandoned then .dropping result else .storing result)
  | .storing result, .storeAnswer _ answer, _ => if answer = result then some (.stored result) else none
  | .stored result, .signal, _ => some (.stored result)
  | .stored result, .unlock, _ => some (.finished result)
  | .dropping result, .unlock, _ => some (if result then .dropped else .emptied false)
  | .dropped, .freeaddrinfo, _ => some (.emptied true)
  | .emptied result, .condDestroy, _ | .emptied result, .mutexDestroy, _ => some (.emptied result)
  | .emptied result, .free, _ => some (.gone result)
  | _, _, _ => none

/-- The thread ends when it has handed the job over or freed it. -/
def ResolverEnds (_ : Unit) (ph : ResolverPhase) : Prop :=
  ∃ result, ph = .finished result ∨ ph = .gone result

/-- What the caller returns at the end. -/
def CallerEnds (answer : Answer) (ph : CallerPhase) : Prop :=
  (answer.code = 0 ∧ answer.result = true ∧ ph = .settled true) ∨
    (answer.code ≠ 0 ∧ answer.result = false ∧ ph ∈ [.start, .refused, .left, .settled false, .over])

theorem follows_resolverMain : Follows ResolverPhase.advance resolverMain ResolverEnds .resolving := by
  have hdestroy : ∀ result, Follows ResolverPhase.advance destroyResolverJob ResolverEnds (.emptied result) :=
    fun result => follows_call.mpr fun _ => ⟨_, rfl, follows_call.mpr fun _ => ⟨_, rfl,
      follows_call.mpr fun _ => ⟨_, rfl, follows_ret.mpr ⟨result, .inr rfl⟩⟩⟩⟩
  refine follows_call.mpr fun answer => ⟨_, rfl, follows_call.mpr fun _ => ⟨_, rfl, ?_⟩⟩
  refine follows_call.mpr fun abandoned => ⟨_, rfl, ?_⟩
  rw [Prog.ret_bind]
  cases abandoned with
  | true =>
    refine follows_call.mpr fun _ => ⟨_, rfl, ?_⟩
    cases answer.2 with
    | true => exact follows_call.mpr fun _ => ⟨_, rfl, hdestroy true⟩
    | false => exact hdestroy false
  | false =>
    refine follows_call.mpr fun _ => ⟨_, if_pos rfl, ?_⟩
    refine follows_call.mpr fun _ => ⟨_, rfl, follows_call.mpr fun _ => ⟨_, rfl, ?_⟩⟩
    exact follows_ret.mpr ⟨_, .inl rfl⟩

/-- The loop ends with the mutex. -/
theorem follows_awaitDone : Follows CallerPhase.advance awaitDone (fun _ ph => ∃ known, ph = .inside known)
    (.inside none) := by
  refine follows_loop (J := fun ph => ∃ known, ph = .inside known)
    (B := fun _ ph => ∃ known, ph = .inside known) ?_ (fun _ _ h => follows_ret.mpr h) ⟨none, rfl⟩
  rintro _ ⟨known, rfl⟩ done
  refine ⟨_, rfl, ?_⟩
  cases done with
  | true => exact follows_ret.mpr ⟨_, rfl⟩
  | false =>
    refine follows_call.mpr fun flag => ⟨_, rfl, ?_⟩
    cases flag with
    | true => exact follows_ret.mpr ⟨_, rfl⟩
    | false =>
      refine follows_call.mpr fun clock => ⟨_, rfl, ?_⟩
      cases clock with
      | false => exact follows_ret.mpr ⟨_, rfl⟩
      | true =>
        refine follows_call.mpr fun _ => ⟨_, rfl, follows_call.mpr fun status => ⟨_, rfl, ?_⟩⟩
        rw [Prog.ret_bind]
        split
        · refine follows_call.mpr fun done => ⟨_, rfl, ?_⟩
          cases done with
          | true => exact follows_ret.mpr ⟨_, rfl⟩
          | false => exact follows_call.mpr fun _ => ⟨_, rfl, follows_ret.mpr ⟨_, rfl⟩⟩
        · exact follows_ret.mpr ⟨_, rfl⟩

theorem follows_settle (status : Int) (result : Bool) :
    Follows CallerPhase.advance (settle status result) CallerEnds (.settled result) := by
  refine follows_call.mpr fun flag => ⟨_, rfl, ?_⟩
  cases flag with
  | true =>
    cases result with
    | true => exact follows_call.mpr fun _ => ⟨_, rfl, follows_ret.mpr (.inr ⟨by simp, rfl, by simp⟩)⟩
    | false => exact follows_ret.mpr (.inr ⟨by simp, rfl, by simp⟩)
  | false =>
    rw [Prog.ret_bind, if_neg Bool.false_ne_true]
    by_cases hfailed : status ≠ 0 ∧ result = true
    · rw [if_pos hfailed]
      obtain ⟨-, rfl⟩ := hfailed
      exact follows_call.mpr fun _ => ⟨_, rfl, follows_ret.mpr (.inr ⟨by simp, rfl, by simp⟩)⟩
    · rw [if_neg hfailed]
      refine follows_ret.mpr ?_
      cases result with
      | true =>
        have hstatus : status = 0 := by simpa using hfailed
        exact .inl ⟨by simp [hstatus], rfl, rfl⟩
      | false => exact .inr ⟨by simp, rfl, by simp⟩

theorem follows_awaitResolver : Follows CallerPhase.advance awaitResolver CallerEnds .outside := by
  refine follows_call.mpr fun _ => ⟨.inside none, rfl, ?_⟩
  rw [Prog.ret_bind]
  refine follows_bind.mpr (follows_awaitDone.mono ?_)
  rintro _ _ ⟨known, rfl⟩
  refine follows_call.mpr fun done => ⟨_, rfl, ?_⟩
  cases done with
  | false =>
    refine follows_call.mpr fun _ => ⟨_, rfl, follows_call.mpr fun _ => ⟨_, rfl, ?_⟩⟩
    refine follows_call.mpr fun _ => ⟨_, rfl, follows_call.mpr fun flag => ⟨_, rfl, ?_⟩⟩
    cases flag <;> exact follows_ret.mpr (.inr ⟨by simp [Answer.failed], rfl, by simp⟩)
  | true =>
    refine follows_call.mpr fun answer => ⟨_, rfl, follows_call.mpr fun _ => ⟨_, rfl, ?_⟩⟩
    refine follows_call.mpr fun _ => ⟨_, rfl, follows_call.mpr fun _ => ⟨_, rfl, ?_⟩⟩
    refine follows_call.mpr fun _ => ⟨_, rfl, follows_call.mpr fun _ => ⟨_, rfl, ?_⟩⟩
    exact follows_settle answer.1 answer.2

theorem follows_resolveIpv4 (host service : List Byte) :
    Follows CallerPhase.advance (resolveIpv4 host service) CallerEnds .start := by
  have hstart : ∀ code ≠ 0, CallerEnds (.failed code) .start := fun code hcode => .inr ⟨hcode, rfl, by simp⟩
  have hrefused : CallerEnds (.failed (-1)) .refused := .inr ⟨by simp [Answer.failed], rfl, by simp⟩
  refine follows_call.mpr fun flag => ⟨_, rfl, ?_⟩
  cases flag with
  | true => exact follows_ret.mpr (hstart (-2) (by decide))
  | false =>
  refine follows_call.mpr fun allocated => ⟨_, rfl, ?_⟩
  cases allocated with
  | false => exact follows_ret.mpr (hstart (-1) (by decide))
  | true =>
  rw [Prog.ret_bind, if_neg (by simp)]
  split
  · exact follows_call.mpr fun _ => ⟨_, rfl, follows_ret.mpr hrefused⟩
  refine follows_call.mpr fun initialized => ⟨_, rfl, ?_⟩
  cases initialized with
  | false => exact follows_call.mpr fun _ => ⟨_, rfl, follows_ret.mpr hrefused⟩
  | true =>
  refine follows_call.mpr fun initialized => ⟨_, rfl, ?_⟩
  cases initialized with
  | false =>
    refine follows_call.mpr fun _ => ⟨_, rfl, follows_call.mpr fun _ => ⟨_, rfl, ?_⟩⟩
    exact follows_ret.mpr hrefused
  | true =>
  refine follows_call.mpr fun created => ⟨_, rfl, ?_⟩
  cases created with
  | false =>
    refine follows_call.mpr fun _ => ⟨_, rfl, follows_call.mpr fun _ => ⟨_, rfl, ?_⟩⟩
    exact follows_call.mpr fun _ => ⟨_, rfl, follows_ret.mpr hrefused⟩
  | true => exact follows_awaitResolver

/-! ## Who owns the job -/

namespace CallerPhase

/-- The caller has the mutex. -/
def holds : CallerPhase → Bool
  | .inside _ | .abandoning | .taking _ => true
  | _ => false

/-- The caller may use the job. -/
def uses : CallerPhase → Bool
  | .owner | .outside | .inside _ | .abandoning | .taking _ | .joining _ | .joined _ => true
  | _ => false

/-- The caller does not wait any more. -/
def gaveUp : CallerPhase → Bool
  | .abandoning | .left => true
  | _ => false

/-- How many jobs the caller has allocated. -/
def allocs : CallerPhase → Nat
  | .start => 0
  | _ => 1

/-- How many jobs the caller has freed. -/
def frees : CallerPhase → Nat
  | .refused | .settled _ | .over => 1
  | _ => 0

/-- How many address lists the caller has freed. -/
def listFrees : CallerPhase → Nat
  | .over => 1
  | _ => 0

/-- The answer that it has taken. -/
def took : CallerPhase → Option Bool
  | .taking result | .joining result | .joined result | .settled result => some result
  | .over => some true
  | _ => none

end CallerPhase

namespace ResolverPhase

/-- The thread has the mutex. -/
def holds : ResolverPhase → Bool
  | .locked _ | .storing _ | .stored _ | .dropping _ => true
  | _ => false

/-- The thread may use the job. -/
def uses : ResolverPhase → Bool
  | .absent | .finished _ | .gone _ => false
  | _ => true

/-- The answer that it has stored. -/
def answer : ResolverPhase → Option Bool
  | .stored result | .finished result => some result
  | _ => none

/-- How many jobs the thread has freed. -/
def frees : ResolverPhase → Nat
  | .gone _ => 1
  | _ => 0

/-- How many address lists the thread has been given. -/
def lists : ResolverPhase → Nat
  | .absent | .resolving => 0
  | .resolved result | .locked result | .storing result | .stored result | .finished result
  | .dropping result | .emptied result | .gone result => result.toNat
  | .dropped => 1

/-- How many address lists the thread has freed. -/
def listFrees : ResolverPhase → Nat
  | .emptied result | .gone result => result.toNat
  | _ => 0

end ResolverPhase

/-- Which phases the two may be in at one time. -/
def beside : CallerPhase → ResolverPhase → Bool
  | .start, .absent | .owner, .absent | .refused, .absent => true
  | .outside, .resolving | .outside, .resolved _ | .outside, .locked _ | .outside, .storing _
  | .outside, .stored _ | .outside, .finished _ => true
  | .inside known, .resolving | .inside known, .resolved _ => known != some true
  | .inside known, .finished _ => known != some false
  | .abandoning, .resolving | .abandoning, .resolved _ => true
  | .left, .resolving | .left, .resolved _ | .left, .locked _ | .left, .dropping _ | .left, .dropped
  | .left, .emptied _ | .left, .gone _ => true
  | .taking result, .finished answer | .joining result, .finished answer
  | .joined result, .finished answer | .settled result, .finished answer => answer == result
  | .over, .finished answer => answer
  | _, _ => false

/-- The shared state, read off the two phases. -/
structure Owned (cp : CallerPhase) (rp : ResolverPhase) (x : Shared) : Prop where
  beside : beside cp rp = true
  fresh : x.stale = false
  allocs : x.allocs = cp.allocs
  frees : x.frees = cp.frees + rp.frees
  mutex : x.mutex = if cp.holds then some .caller else if rp.holds then some .resolver else none
  done : x.done = rp.answer.isSome
  result : ∀ result ∈ rp.answer, x.result = result
  abandoned : x.abandoned = cp.gaveUp
  lists : x.lists = rp.lists
  listFrees : x.listFrees = cp.listFrees + rp.listFrees

section

variable {cp cp' : CallerPhase} {rp rp' : ResolverPhase} {x x' : Shared}

/-- **The job is there** for a side that may use it. -/
theorem live_of_uses (h : beside cp rp = true) (huses : cp.uses = true ∨ rp.uses = true) :
    cp.allocs = 1 ∧ cp.frees = 0 ∧ rp.frees = 0 := by
  cases cp <;> cases rp <;> simp_all [Resolver.beside, CallerPhase.uses, ResolverPhase.uses,
    CallerPhase.allocs, CallerPhase.frees, ResolverPhase.frees]

theorem Owned.use_eq (h : Owned cp rp x) (huses : cp.uses = true ∨ rp.uses = true) : x.use = x := by
  obtain ⟨hallocs, hfrees, hfrees'⟩ := live_of_uses h.beside huses
  have hlive : ¬ x.allocs ≤ x.frees := by
    rw [h.allocs, h.frees]
    omega
  simp [Shared.use, hlive]

/-- The thread has the mutex or nobody has, when the caller has not. -/
theorem Owned.not_holds (h : Owned cp rp x) (hmutex : x.mutex = none) :
    cp.holds = false ∧ rp.holds = false := by
  have hwho := h.mutex.symm.trans hmutex
  split at hwho
  · simp at hwho
  · split at hwho
    · simp at hwho
    · simp_all

/-- A call that only uses the job. -/
theorem Owned.used (h : Owned cp rp x) (huses : cp.uses = true ∨ rp.uses = true) : Owned cp rp x.use := by
  rw [h.use_eq huses]
  exact h

/-- As long as the caller is alone, there is no thread. -/
theorem Owned.absent (h : Owned cp rp x) (hcp : cp = .start ∨ cp = .owner) : rp = .absent := by
  have hbeside := h.beside
  rcases hcp with rfl | rfl <;> cases rp <;> first | rfl | exact absurd hbeside Bool.false_ne_true

/-- A caller with the answer has it from a thread that has done its work. -/
theorem Owned.finished {result : Bool} (h : Owned cp rp x) (htook : cp.took = some result) :
    rp = .finished result := by
  have hbeside := h.beside
  cases cp <;> cases htook <;> cases rp <;>
    first | rfl | exact absurd hbeside Bool.false_ne_true | simp_all [Resolver.beside]

/-- The caller takes the mutex when the thread has not got it. -/
theorem Owned.enters (h : Owned .outside rp x) (hmutex : x.mutex = none) :
    Owned (.inside none) rp { x.use with mutex := some .caller } := by
  rw [h.use_eq (.inl rfl)]
  have hfree := (h.not_holds hmutex).2
  have hbeside := h.beside
  refine { h with beside := ?_, mutex := rfl }
  cases rp <;> first | rfl | exact absurd hbeside Bool.false_ne_true |
    exact absurd hfree.symm Bool.false_ne_true

/-- Nobody has the mutex when the caller has given it back. -/
theorem Owned.leaves (h : Owned cp rp x) (hholds : cp.holds = true) : x.use = x ∧ rp.holds = false := by
  have hbeside := h.beside
  cases cp <;> cases hholds <;> refine ⟨h.use_eq (.inl rfl), ?_⟩ <;>
    cases rp <;> first | rfl | exact absurd hbeside Bool.false_ne_true

/-- **The calls of the caller** keep the job owned. -/
theorem Owned.caller {e : ResolveOp} {r : ResolveResp e} (h : Owned cp rp x) (hr : Answered x e r)
    (ha : cp.advance e r = some cp') (he : e ≠ .create) : Owned cp' rp (effect .caller x e r) := by
  have hbeside := h.beside
  unfold CallerPhase.advance at ha
  split at ha <;> cases ha
  -- `cancelled` and `calloc` at the start
  case h_1.refl => exact h
  case h_2.refl allocated =>
    obtain rfl := h.absent (.inl rfl)
    cases allocated with
    | true =>
      have hallocs : x.allocs + 1 = 1 := by rw [h.allocs, CallerPhase.allocs]
      exact { h with
        beside := rfl, allocs := hallocs, done := rfl, abandoned := rfl
        result := fun _ hresult => absurd hresult (by simp [ResolverPhase.answer]) }
    | false => exact h
  -- what is made and destroyed while the caller is alone, and its `free`
  case h_3.refl => exact h.used (.inl rfl)
  case h_4.refl => exact h.used (.inl rfl)
  case h_5.refl => exact h.used (.inl rfl)
  case h_6.refl => exact h.used (.inl rfl)
  case h_7.refl => exact absurd rfl he
  case h_8.refl =>
    obtain rfl := h.absent (.inr rfl)
    simp only [effect, h.use_eq (.inl rfl)]
    exact { h with beside := rfl, frees := congrArg (· + 1) h.frees }
  -- the loop
  case h_9.refl => exact h.enters hr
  case h_10.refl => exact h.enters hr
  case h_11.refl known done =>
    obtain rfl := hr
    refine { h.used (.inl rfl) with beside := ?_ }
    rw [h.done]
    cases rp <;> first | rfl | exact absurd hbeside Bool.false_ne_true
  case h_12.refl => exact h
  case h_13.refl => exact h
  case h_14.refl =>
    obtain ⟨huse, hfree⟩ := h.leaves rfl
    simp only [effect, huse]
    refine { h with beside := ?_, mutex := by simp [CallerPhase.holds, hfree] }
    cases rp <;> first | rfl | exact absurd hbeside Bool.false_ne_true
  -- the caller gives up
  case h_15.refl =>
    simp only [effect, h.use_eq (.inl rfl)]
    refine { h with beside := ?_, abandoned := rfl }
    cases rp <;> first | rfl | exact absurd hbeside Bool.false_ne_true
  case h_16.refl =>
    obtain ⟨huse, hfree⟩ := h.leaves rfl
    simp only [effect, huse]
    refine { h with beside := ?_, mutex := by simp [CallerPhase.holds, hfree] }
    cases rp <;> first | rfl | exact absurd hbeside Bool.false_ne_true
  case h_17.refl => exact h
  case h_18.refl => exact h
  -- it takes the answer
  case h_19.refl =>
    obtain rfl := hr
    refine { h.used (.inl rfl) with beside := ?_ }
    cases rp with
    | finished result =>
      rw [h.result result rfl]
      exact beq_self_eq_true result
    | _ => cases hbeside
  case h_20.refl =>
    obtain rfl := h.finished rfl
    simp only [effect, (h.leaves rfl).1]
    exact { h with mutex := rfl }
  case h_21.refl =>
    obtain rfl := h.finished rfl
    exact { h with beside := hbeside }
  case h_22.refl => exact h.used (.inl rfl)
  case h_23.refl => exact h.used (.inl rfl)
  case h_24.refl =>
    obtain rfl := h.finished rfl
    simp only [effect, h.use_eq (.inl rfl)]
    exact { h with frees := congrArg (· + 1) h.frees }
  case h_25.refl => exact h
  case h_26.refl =>
    obtain rfl := h.finished rfl
    exact { h with listFrees := congrArg (· + 1) h.listFrees }

/-- What the thread may find when nobody has the mutex. -/
theorem Owned.locks {result : Bool} (h : Owned cp (.resolved result) x) (hmutex : x.mutex = none) :
    cp = .outside ∨ cp = .left := by
  have hbeside := h.beside
  have hfree := (h.not_holds hmutex).1
  cases cp with
  | outside => exact .inl rfl
  | left => exact .inr rfl
  | inside known => cases hfree
  | abandoning => cases hfree
  | _ => cases hbeside

/-- The thread has the mutex. -/
theorem Owned.unlocks (h : Owned cp rp x) (hholds : rp.holds = true) : x.use = x ∧ cp.holds = false := by
  have hbeside := h.beside
  cases rp <;> cases hholds <;> refine ⟨h.use_eq (.inr rfl), ?_⟩ <;>
    cases cp <;> first | rfl | exact absurd hbeside Bool.false_ne_true

/-- **The calls of the thread** keep the job owned. -/
theorem Owned.resolver {e : ResolveOp} {r : ResolveResp e} (h : Owned cp rp x) (hr : Answered x e r)
    (ha : rp.advance e r = some rp') : Owned cp rp' (effect .resolver x e r) := by
  have hbeside := h.beside
  unfold ResolverPhase.advance at ha
  split at ha
  case h_1 answer =>
    cases ha
    simp only [effect, h.use_eq (.inr rfl)]
    have hlists : x.lists = 0 := h.lists
    refine { h with beside := ?_, lists := ?_ }
    · cases cp <;> first | rfl | exact absurd hbeside Bool.false_ne_true | exact hbeside
    · rw [hlists, Nat.zero_add]
      rfl
  case h_2 result _ =>
    cases ha
    simp only [effect, h.use_eq (.inr rfl)]
    obtain rfl | rfl := h.locks hr
    · exact { h with beside := rfl, mutex := rfl }
    · exact { h with beside := rfl, mutex := rfl }
  case h_3 result abandoned =>
    cases ha
    obtain rfl := hr
    rw [h.abandoned]
    cases cp with
    | outside => exact { h.used (.inr rfl) with beside := rfl }
    | left => exact { h.used (.inr rfl) with beside := rfl }
    | _ => cases hbeside
  case h_4 result _ answer _ =>
    split at ha <;> cases ha
    have hanswer : answer = result := ‹_›
    simp only [effect, h.use_eq (.inr rfl)]
    refine { h with beside := ?_, done := rfl, result := ?_ }
    · cases cp <;> first | rfl | exact absurd hbeside Bool.false_ne_true
    · rintro _ ⟨⟩
      exact hanswer
  case h_5 result _ =>
    cases ha
    exact h.used (.inr rfl)
  case h_6 result _ =>
    cases ha
    obtain ⟨huse, hfree⟩ := h.unlocks rfl
    simp only [effect, huse]
    refine { h with beside := ?_, mutex := by simp [hfree, ResolverPhase.holds] }
    cases cp <;> first | rfl | exact absurd hbeside Bool.false_ne_true
  -- the caller has left
  case h_7 result _ =>
    cases ha
    simp only [effect, (h.unlocks rfl).1]
    cases cp with
    | left =>
      cases result with
      | true => exact { h with beside := rfl, mutex := rfl }
      | false => exact { h with beside := rfl, mutex := rfl }
    | _ => cases hbeside
  case h_8 =>
    cases ha
    cases cp with
    | left => exact { h with beside := rfl, listFrees := congrArg (· + 1) h.listFrees }
    | _ => cases hbeside
  case h_9 result _ =>
    cases ha
    exact h.used (.inr rfl)
  case h_10 result _ =>
    cases ha
    exact h.used (.inr rfl)
  case h_11 result _ =>
    cases ha
    simp only [effect, h.use_eq (.inr rfl)]
    cases cp with
    | left => exact { h with beside := rfl, frees := congrArg (· + 1) h.frees }
    | _ => cases hbeside
  case h_12 => cases ha

/-- The caller may create the thread only while it has the job alone. -/
theorem advance_create {created : Bool} (ha : cp.advance .create created = some cp') :
    cp = .owner ∧ cp' = if created then .outside else .owner := by
  cases cp with
  | owner => exact ⟨rfl, (Option.some.inj ha).symm⟩
  | _ => simp [CallerPhase.advance] at ha

theorem Owned.create (h : Owned .owner rp x) : Owned .outside .resolving x := by
  obtain rfl := h.absent (.inr rfl)
  exact { h with beside := rfl }

theorem owned_initial {host service : List Byte} {s : Resolving} (h : s.Initial host service) :
    Owned .start .absent s.shared := by
  obtain ⟨-, -, hallocs, hfrees, hfresh, hmutex, hdone, habandoned, hlists, hlistFrees⟩ := h
  exact ⟨rfl, hfresh, hallocs, hfrees, hmutex, hdone, fun _ h => (by cases h), habandoned, hlists, hlistFrees⟩

end

/-! ## Every run -/

/-- The thread, when there is one, is in this phase. -/
def ThreadIn (rp : ResolverPhase) : Option (ResolveProg Unit) → Prop
  | none => rp = .absent
  | some p => Follows ResolverPhase.advance p ResolverEnds rp

/-- The caller and the thread are in phases that own the job. -/
def Resolving.Inv (s : Resolving) : Prop :=
  ∃ cp rp, Follows CallerPhase.advance s.caller CallerEnds cp ∧ ThreadIn rp s.resolver ∧ Owned cp rp s.shared

theorem Resolving.Inv.step {s s' : Resolving} {e : ResolveEvent} (h : s.Inv) (hs : ResolveStep s e s') :
    s'.Inv := by
  obtain ⟨cp, rp, hcaller, hresolver, howned⟩ := h
  cases hs with
  | @create k hp created =>
    obtain ⟨cp', ha, hcaller'⟩ := (follows_next hp).mp hcaller created
    obtain ⟨rfl, rfl⟩ := advance_create ha
    cases created with
    | true => exact ⟨_, .resolving, hcaller', follows_resolverMain, howned.create⟩
    | false => exact ⟨_, rp, hcaller', hresolver, howned⟩
  | @caller e k r x hp he hjoin hr =>
    obtain ⟨cp', ha, hcaller'⟩ := (follows_next hp).mp hcaller r
    exact ⟨cp', rp, hcaller', hresolver, hr.2 ▸ howned.caller hr.1 ha he⟩
  | @resolver p e k r x hs hp hr =>
    rw [hs] at hresolver
    obtain ⟨rp', ha, hresolver'⟩ := (follows_next hp).mp hresolver r
    exact ⟨cp, rp', hcaller, hresolver', hr.2 ▸ howned.resolver hr.1 ha⟩
  | raise => exact ⟨cp, rp, hcaller, hresolver, { howned with }⟩

theorem reach_inv {host service : List Byte} {s : Resolving}
    (h : Reach (Resolving.Initial host service) anyStep ResolveStep s) : s.Inv := by
  refine h.inv ?_ fun _ _ _ hinv _ hs => hinv.step hs
  rintro s hinit
  refine ⟨.start, .absent, ?_, ?_, owned_initial hinit⟩
  · rw [hinit.1]
    exact follows_resolveIpv4 host service
  · rw [hinit.2.1]
    rfl

/-! ## Nobody waits for ever -/

/-- Only the cancel flag may still be raised. -/
def Resolving.Blocked (s : Resolving) : Prop := ∀ e s', ResolveStep s e s' → e = .raise

/-- Both have ended, and `resolve_ipv4` has returned this. -/
def Resolving.Ended (s : Resolving) (answer : Answer) : Prop :=
  s.caller = .ret answer ∧ (s.resolver = none ∨ s.resolver = some (.ret ()))

/-- An answer; the calls that may fail succeed when `ok`. -/
def reply (x : Shared) (ok : Bool) : (e : ResolveOp) → ResolveResp e
  | .cancelled => x.raised
  | .loadDone => x.done
  | .loadAbandoned => x.abandoned
  | .loadAnswer => (x.status, x.result)
  | .calloc | .mutexInit | .condInit | .create | .clock => ok
  | .waitEnd => if ok then 0 else etimedout
  | .getaddrinfo => (if ok then 0 else -2, ok)
  | .free | .mutexDestroy | .condDestroy | .lock | .unlock | .storeAbandoned | .storeAnswer _ _
  | .waitBegin | .signal | .detach | .join | .freeaddrinfo => ()

/-- The mutex is free for the calls that take it. -/
def Free (e : ResolveOp) (x : Shared) : Prop := e = .lock ∨ e = .waitEnd → x.mutex = none

theorem answered_reply {e : ResolveOp} {x : Shared} (ok : Bool) (hfree : Free e x) :
    Answered x e (reply x ok e) := by
  cases e with
  | lock => exact hfree (.inl rfl)
  | waitEnd => exact hfree (.inr rfl)
  | cancelled | loadDone | loadAbandoned | loadAnswer => rfl
  | _ => trivial

section

variable {s : Resolving} {cp cp' : CallerPhase} {rp rp' : ResolverPhase} {e : ResolveOp}

/-- What a thread that cannot go on waits for. -/
theorem blocked_resolver (hb : s.Blocked) {p : ResolveProg Unit} {k : ResolveResp e → ResolveProg Unit}
    (hs : s.resolver = some p) (hp : p.next = .call e k) : ¬ Free e s.shared := by
  intro hfree
  have hr := answered_reply true hfree
  exact ResolveEvent.noConfusion (hb _ _ (.resolver hs hp ⟨hr, rfl⟩))

/-- What a caller that cannot go on waits for. -/
theorem blocked_caller (hb : s.Blocked) {k : ResolveResp e → ResolveProg Answer}
    (hp : s.caller.next = .call e k) :
    ¬ Free e s.shared ∨ e = .join ∧ s.resolver ≠ some (.ret ()) := by
  by_cases hcreate : e = .create
  · subst hcreate
    exact ResolveEvent.noConfusion (hb _ _ (.create hp true))
  by_contra hgo
  obtain ⟨hfree, hjoin⟩ := not_or.mp hgo
  have hr := answered_reply true (Classical.not_not.mp hfree)
  have hended : e = .join → s.resolver = some (.ret ()) := fun he =>
    Classical.not_not.mp fun hresolver => hjoin ⟨he, hresolver⟩
  exact ResolveEvent.noConfusion (hb _ _ (.caller hp hcreate hended ⟨hr, rfl⟩))

theorem waits_of_not_free {x : Shared} (h : ¬ Free e x) : (e = .lock ∨ e = .waitEnd) ∧ x.mutex ≠ none := by
  unfold Free at h
  exact Classical.not_imp.mp h

/-- A caller with the mutex does not wait. -/
theorem caller_not_holds {r : ResolveResp e} (he : e = .lock ∨ e = .waitEnd ∨ e = .join)
    (ha : cp.advance e r = some cp') : cp.holds = false := by
  rcases he with rfl | rfl | rfl <;> cases cp <;> first | rfl | simp [CallerPhase.advance] at ha

/-- A thread with the mutex does not wait. -/
theorem resolver_not_holds {r : ResolveResp e} (he : e = .lock ∨ e = .waitEnd)
    (ha : rp.advance e r = some rp') : rp.holds = false := by
  rcases he with rfl | rfl <;> cases rp <;> first | rfl | simp [ResolverPhase.advance] at ha

theorem callerEnds_not_holds {answer : Answer} (h : CallerEnds answer cp) : cp.holds = false := by
  obtain ⟨-, -, rfl⟩ | ⟨-, -, hph⟩ := h
  · rfl
  · simp only [List.mem_cons, List.not_mem_nil, or_false] at hph
    rcases hph with rfl | rfl | rfl | rfl | rfl <;> rfl

theorem resolverEnds_not_holds (h : ResolverEnds () rp) : rp.holds = false := by
  obtain ⟨result, rfl | rfl⟩ := h <;> rfl

/-- **Who has the mutex goes on**, so when none can go on nobody has it. -/
theorem blocked_mutex (hb : s.Blocked) (hcaller : Follows CallerPhase.advance s.caller CallerEnds cp)
    (hresolver : ThreadIn rp s.resolver) (howned : Owned cp rp s.shared) : s.shared.mutex = none := by
  have hcp : cp.holds = false := by
    cases hn : s.caller.next with
    | done answer =>
      rw [Prog.next_done.mp hn, follows_ret] at hcaller
      exact callerEnds_not_holds hcaller
    | call e k =>
      obtain ⟨_, ha, -⟩ := (follows_next hn).mp hcaller (reply s.shared true e)
      rcases blocked_caller hb hn with hfree | ⟨he, -⟩
      · rcases (waits_of_not_free hfree).1 with he | he
        · exact caller_not_holds (.inl he) ha
        · exact caller_not_holds (.inr (.inl he)) ha
      · exact caller_not_holds (.inr (.inr he)) ha
  have hrp : rp.holds = false := by
    cases hs : s.resolver with
    | none =>
      rw [hs] at hresolver
      obtain rfl := hresolver
      rfl
    | some p =>
      rw [hs] at hresolver
      cases hn : p.next with
      | done a =>
        rw [Prog.next_done.mp hn] at hresolver
        exact resolverEnds_not_holds (follows_ret.mp hresolver)
      | call e k =>
        obtain ⟨_, ha, -⟩ := (follows_next hn).mp hresolver (reply s.shared true e)
        exact resolver_not_holds (waits_of_not_free (blocked_resolver hb hs hn)).1 ha
  rw [howned.mutex, hcp, hrp]
  rfl

/-- When none can go on, the thread has ended. -/
theorem blocked_thread (hb : s.Blocked) (hmutex : s.shared.mutex = none) :
    s.resolver = none ∨ s.resolver = some (.ret ()) := by
  cases hs : s.resolver with
  | none => exact .inl rfl
  | some p =>
    cases hn : p.next with
    | done a => exact .inr (congrArg some (Prog.next_done.mp hn))
    | call e k => exact absurd (fun _ => hmutex) (blocked_resolver hb hs hn)

/-- **Both come to an end** when none can go on. -/
theorem Resolving.Inv.ended (h : s.Inv) (hb : s.Blocked) : ∃ answer, s.Ended answer := by
  obtain ⟨cp, rp, hcaller, hresolver, howned⟩ := h
  have hmutex := blocked_mutex hb hcaller hresolver howned
  have hthread := blocked_thread hb hmutex
  cases hn : s.caller.next with
  | done answer => exact ⟨answer, Prog.next_done.mp hn, hthread⟩
  | call e k =>
    obtain hfree | ⟨rfl, hwaits⟩ := blocked_caller hb hn
    · exact absurd (fun _ => hmutex) hfree
    -- it waits for the thread that it has the answer of
    obtain ⟨_, ha, -⟩ := (follows_next hn).mp hcaller ()
    cases cp with
    | joining result =>
      rw [howned.finished rfl, hthread.resolve_right hwaits] at hresolver
      cases hresolver
    | _ => simp [CallerPhase.advance] at ha

end

/-! ## What has been freed -/

section

variable {cp : CallerPhase} {rp : ResolverPhase} {x : Shared}

theorem Owned.bounds (h : Owned cp rp x) :
    x.frees ≤ x.allocs ∧ x.allocs ≤ 1 ∧ x.listFrees ≤ x.lists ∧ x.lists ≤ 1 := by
  have hbeside := h.beside
  rw [h.frees, h.allocs, h.listFrees, h.lists]
  cases cp <;> cases rp <;> first
    | exact absurd hbeside Bool.false_ne_true
    | simp_all [Resolver.beside, CallerPhase.frees, ResolverPhase.frees, CallerPhase.allocs,
        CallerPhase.listFrees, ResolverPhase.listFrees, ResolverPhase.lists, Bool.toNat_le]

/-- **When both have ended** the job is freed, and the address list is freed or the caller's. -/
theorem Owned.ended {answer : Answer} (h : Owned cp rp x) (hcp : CallerEnds answer cp)
    (hrp : rp = .absent ∨ ResolverEnds () rp) :
    x.frees = x.allocs ∧ x.lists = x.listFrees + answer.result.toNat := by
  have hbeside := h.beside
  rw [h.frees, h.allocs, h.listFrees, h.lists]
  obtain ⟨-, hresult, rfl⟩ | ⟨-, hresult, hph⟩ := hcp
  · rw [h.finished rfl, hresult]
    exact ⟨rfl, rfl⟩
  rw [hresult]
  simp only [List.mem_cons, List.not_mem_nil, or_false] at hph
  rcases hph with rfl | rfl | rfl | rfl | rfl
  · rw [h.absent (.inl rfl)]
    exact ⟨rfl, rfl⟩
  · cases rp with
    | absent => exact ⟨rfl, rfl⟩
    | _ => cases hbeside
  · obtain rfl | ⟨result, rfl | rfl⟩ := hrp
    · cases hbeside
    · cases hbeside
    · exact ⟨rfl, (Nat.zero_add result.toNat).symm⟩
  · rw [h.finished rfl]
    exact ⟨rfl, rfl⟩
  · rw [h.finished rfl]
    exact ⟨rfl, rfl⟩

end

/-- **A job is owned exactly once.** In every run, no job is used that is not there or has been freed, and
the two never wait for each other for ever. When both have ended the job has been freed once, and the
address list has been freed once or is the caller's, which it is when `resolve_ipv4` returns `0`. -/
theorem resolver_owned_once {host service : List Byte} {s : Resolving}
    (h : Reach (Resolving.Initial host service) anyStep ResolveStep s) :
    s.shared.stale = false ∧
      (s.shared.frees ≤ s.shared.allocs ∧ s.shared.allocs ≤ 1) ∧
      (s.shared.listFrees ≤ s.shared.lists ∧ s.shared.lists ≤ 1) ∧
      (s.Blocked → ∃ answer, s.Ended answer) ∧
      ∀ answer, s.Ended answer →
        s.shared.frees = s.shared.allocs ∧ (answer.result = true ↔ answer.code = 0) ∧
          s.shared.lists = s.shared.listFrees + answer.result.toNat := by
  have hinv := reach_inv h
  obtain ⟨cp, rp, hcaller, hresolver, howned⟩ := reach_inv h
  obtain ⟨hfrees, hallocs, hlistFrees, hlists⟩ := howned.bounds
  refine ⟨howned.fresh, ⟨hfrees, hallocs⟩, ⟨hlistFrees, hlists⟩, hinv.ended, ?_⟩
  rintro answer ⟨hret, hthread⟩
  rw [hret, follows_ret] at hcaller
  have hrp : rp = .absent ∨ ResolverEnds () rp := by
    rcases hthread with hs | hs
    · rw [hs] at hresolver
      exact .inl hresolver
    · rw [hs] at hresolver
      exact .inr (follows_ret.mp hresolver)
  obtain ⟨hfreed, hhanded⟩ := howned.ended hcaller hrp
  refine ⟨hfreed, ?_, hhanded⟩
  obtain ⟨hcode, hresult, -⟩ | ⟨hcode, hresult, -⟩ := hcaller
  · simp [hcode, hresult]
  · simp [hcode, hresult]

/-! ## A run -/

/-- One side, its calls answered by `reply`. -/
def replies (who : Party) : Sem ResolveOp ResolveResp Bool Shared :=
  fun e ok x => (reply x ok e, effect who x e (reply x ok e))

/-- This call does not depend on the other side, nor does it wait. -/
def alone (e : ResolveOp) (x : Shared) : Bool :=
  e != .create && e != .join && (x.mutex == none || (e != .lock && e != .waitEnd))

theorem alone_answered {e : ResolveOp} {x : Shared} (ok : Bool) (h : alone e x = true) :
    e ≠ .create ∧ e ≠ .join ∧ Answered x e (reply x ok e) := by
  simp only [alone, Bool.and_eq_true, Bool.or_eq_true, bne_iff_ne, beq_iff_eq] at h
  obtain ⟨⟨hcreate, hjoin⟩, hfree⟩ := h
  refine ⟨hcreate, hjoin, answered_reply ok ?_⟩
  rintro (rfl | rfl)
  · exact hfree.resolve_right fun h => h.1 rfl
  · exact hfree.resolve_right fun h => h.2 rfl

/-- The calls of one side that do not depend on the other. -/
def aloneRel (who : Party) : Rel ResolveOp ResolveResp Shared := fun e x r x' =>
  e ≠ .create ∧ e ≠ .join ∧ resolveRel who e x r x'

theorem steps_alone {α : Type} (who : Party) (cs : List Bool) {p q : ResolveProg α} {x x' : Shared}
    (hcs : checked (replies who) alone cs p x = true) (hexec : exec (replies who) cs p x = (q, x')) :
    ∃ tr, Steps (aloneRel who) p x tr q x' := by
  have hsteps : Steps (aloneRel who) p x _ _ _ := exec_checked (fun e ok x hx =>
    have ⟨hcreate, hjoin, hr⟩ := alone_answered ok hx
    ⟨hcreate, hjoin, hr, rfl⟩) cs p x hcs
  rw [hexec] at hsteps
  exact ⟨_, hsteps⟩

section

variable {host service : List Byte} {x x' : Shared}

/-- The caller goes on alone. -/
theorem reach_caller {p q : ResolveProg Answer} {resolver : Option (ResolveProg Unit)}
    (hs : ∃ tr, Steps (aloneRel .caller) p x tr q x')
    (h : Reach (Resolving.Initial host service) anyStep ResolveStep ⟨p, resolver, x⟩) :
    Reach (Resolving.Initial host service) anyStep ResolveStep ⟨q, resolver, x'⟩ := by
  obtain ⟨tr, hs⟩ := hs
  induction hs with
  | refl => exact h
  | step hp hr _ ih =>
    obtain ⟨hcreate, hjoin, hr⟩ := hr
    exact ih (h.step trivial (.caller hp hcreate (fun he => absurd he hjoin) hr))

/-- The thread goes on alone. -/
theorem reach_resolver {p q : ResolveProg Unit} {caller : ResolveProg Answer}
    (hs : ∃ tr, Steps (aloneRel .resolver) p x tr q x')
    (h : Reach (Resolving.Initial host service) anyStep ResolveStep ⟨caller, some p, x⟩) :
    Reach (Resolving.Initial host service) anyStep ResolveStep ⟨caller, some q, x'⟩ := by
  obtain ⟨tr, hs⟩ := hs
  induction hs with
  | refl => exact h
  | step hp hr _ ih => exact ih (h.step trivial (.resolver rfl hp hr.2.2))

end

/-- The shared state before `resolve_ipv4` is called. -/
def untouched : Shared := ⟨false, 0, 0, false, none, false, false, 0, false, 0, 0⟩

/-- `clock_gettime` fails before the thread has its answer: the caller gives up, and the thread cleans up. -/
theorem resolver_owned_once_abandoned : ∃ s : Resolving, s.Ended (.failed (-1)) ∧ s.shared.allocs = 1 ∧
    s.shared.frees = s.shared.allocs ∧ s.shared.lists = s.shared.listFrees + false.toNat := by
  let Reached := Reach (Resolving.Initial [] []) anyStep ResolveStep
  have h0 : Reached ⟨resolveIpv4 [] [], none, untouched⟩ :=
    .init ⟨rfl, rfl, rfl, rfl, rfl, rfl, rfl, rfl, rfl, rfl⟩
  have h1 : Reached _ := reach_caller (steps_alone .caller [true, true, true, true] rfl rfl) h0
  have h2 : Reached _ := h1.step trivial (.create rfl true)
  have h3 : Reached _ := reach_caller
    (steps_alone .caller [true, true, true, false, true, true, true, true, true] rfl rfl) h2
  have h4 : Reached _ := reach_resolver (steps_alone .resolver (List.replicate 8 true) rfl rfl) h3
  obtain ⟨-, -, -, -, hended⟩ := resolver_owned_once h4
  obtain ⟨hfrees, -, hlists⟩ := hended (.failed (-1)) ⟨rfl, .inr rfl⟩
  exact ⟨_, ⟨rfl, .inr rfl⟩, rfl, hfrees, hlists⟩

end FreeProxy.Resolver
