import FreeProxy.Firewall.Table
import FreeProxy.Lib.Wp
import Mathlib.Logic.Function.Basic

/-!
# `fp_uninstall`

`fp_uninstall` of `src/operations.c` with `fp_autostart_remove` of `src/systemd.c`: the service, the daemons,
the firewall rules and the files are removed, whatever fails on the way, and the answer sums it up.

* `Faults` says which steps fail and what they leave. That `fp_stop_daemon` and `fp_firewall_disable` answer
  `0` only when they have done their work is a field of theirs.
* The results of three removals are not looked at: those of the pid record, of the configuration and of the
  language file (`unchecked`). A file that is left there is not reported.

Headlines: **`fpUninstall_truthful_iff`**; `fpUninstall_false_success`.

Out of scope: what is in the directories, and operations that run at the same time.
-/

namespace FreeProxy.Uninstall

open Lib

/-- The files of an installation. -/
inductive InstalledFile where
  /-- `FP_PID_PATH` -/
  | pid
  /-- `FP_CONFIG_PATH` -/
  | config
  /-- `FP_UI_LANGUAGE_PATH` -/
  | uiLanguage
  /-- `FP_LOCK_PATH` -/
  | lock
  /-- `FP_UNIT_PATH` -/
  | unit
  /-- `FP_INSTALLED_BINARY` -/
  | binary
  deriving DecidableEq

/-- The directories of an installation. -/
inductive InstalledDir where
  /-- `FP_RUNTIME_DIR` -/
  | runtime
  /-- `FP_CONFIG_DIR` -/
  | config
  deriving DecidableEq

/-- What `systemctl` is asked for. -/
inductive SystemctlAction where
  | disable
  | stop
  | daemonReload
  deriving DecidableEq

/-- The calls of `fp_uninstall`. -/
inductive UninstallOp where
  /-- `fp_lock_acquire` -/
  | lock
  /-- `fp_lock_release` -/
  | unlock
  | systemctlAvailable
  /-- the child of `run_systemctl` or `reload_systemd` -/
  | systemctl (action : SystemctlAction)
  /-- `fp_stop_daemon` -/
  | stopDaemon
  /-- `fp_firewall_disable` -/
  | firewallDisable
  | unlink (file : InstalledFile)
  | errno
  /-- `access(file, F_OK) == 0` -/
  | access (file : InstalledFile)
  | rmdir (dir : InstalledDir)
  deriving DecidableEq

/-- What a call answers. -/
abbrev UninstallResp : UninstallOp → Type
  | .lock | .systemctlAvailable | .systemctl _ | .unlink _ | .access _ => Bool
  | .stopDaemon | .firewallDisable | .errno => Int
  | .unlock | .rmdir _ => Unit

/-- A program that uninstalls. -/
abbrev UninstallProg (α : Type) := Prog UninstallOp UninstallResp α

/-- One call. -/
abbrev UninstallOp.ask (e : UninstallOp) : UninstallProg (UninstallResp e) := Prog.ask e

/-! ## The code -/

/-- `ENOENT`. -/
def enoent : Int := 2

/-- `run_systemctl`, and `reload_systemd` -/
def runSystemctl (action : SystemctlAction) : UninstallProg Int := do
  if !(← UninstallOp.ask .systemctlAvailable) then pure (-1) else do
  let exited ← UninstallOp.ask (.systemctl action)
  pure (if exited then 0 else -1)

/-- `unlink(file) != 0 && access(file, F_OK) == 0` -/
def unlinkLeaves (file : InstalledFile) : UninstallProg Bool := do
  if ← UninstallOp.ask (.unlink file) then pure false else UninstallOp.ask (.access file)

/-- `unlink(FP_UNIT_PATH) != 0 && errno != ENOENT && access(FP_UNIT_PATH, F_OK) == 0` -/
def unitLeft : UninstallProg Bool := do
  if ← UninstallOp.ask (.unlink .unit) then pure false else do
  if (← UninstallOp.ask .errno) = enoent then pure false else UninstallOp.ask (.access .unit)

/-- `if (systemctl_available()) { … }` -/
def withSystemctl (body : UninstallProg Unit) : UninstallProg Unit := do
  if ← UninstallOp.ask .systemctlAvailable then body else pure ()

/-- `fp_autostart_remove`. -/
def fpAutostartRemove : UninstallProg Int := do
  withSystemctl do
    let _ ← runSystemctl .disable
    let _ ← runSystemctl .stop
    pure ()
  if ← unitLeft then pure (-1) else do
  withSystemctl do
    let _ ← runSystemctl .daemonReload
    pure ()
  pure 0

/-- `if (result != 0) result = step();` -/
def retry (result : Int) (step : UninstallProg Int) : UninstallProg Int :=
  if result ≠ 0 then step else pure result

/-- `fp_uninstall` behind the lock. -/
def uninstallLocked : UninstallProg Int := do
  let serviceResult ← fpAutostartRemove
  let stopResult ← UninstallOp.ask .stopDaemon
  let firewallResult ← UninstallOp.ask .firewallDisable
  let stopResult ← retry stopResult (UninstallOp.ask .stopDaemon)
  let firewallResult ← retry firewallResult (UninstallOp.ask .firewallDisable)
  let _ ← UninstallOp.ask (.unlink .pid)
  let _ ← UninstallOp.ask (.unlink .config)
  let _ ← UninstallOp.ask (.unlink .uiLanguage)
  UninstallOp.ask .unlock
  let _ ← UninstallOp.ask (.unlink .lock)
  UninstallOp.ask (.rmdir .runtime)
  UninstallOp.ask (.rmdir .config)
  let binaryResult : Int := if ← unlinkLeaves .binary then -1 else 0
  pure (if serviceResult = 0 ∧ stopResult = 0 ∧ firewallResult = 0 ∧ binaryResult = 0 then 0 else -1)

/-- `fp_uninstall`. -/
def fpUninstall : UninstallProg Int := do
  if !(← UninstallOp.ask .lock) then pure (-1) else uninstallLocked

/-! ## What may fail -/

/-- No rule of free_proxy is left. -/
def Bare (t : Table) : Prop := .jump ∉ t.output ∧ t.chain = none

/-- What an uninstallation acts on. -/
structure Installation where
  /-- `systemctl` is there -/
  systemctl : Bool
  /-- the daemons of free_proxy that are running -/
  daemons : List Nat
  table : Table
  files : InstalledFile → Bool

/-- An attempt to stop the daemons. A daemon that ends takes its rules and the pid record with it. -/
structure Stopping where
  code : Int
  survives : Nat → Bool
  keepsRecord : Bool
  table : Table → Table
  keeps : ∀ t, Bare t → Bare (table t)
  stopped : code = 0 → ∀ pid, survives pid = false

/-- An attempt to remove the firewall rules. -/
structure Removal where
  code : Int
  table : Table → Table
  removed : code = 0 → ∀ t, Bare (table t)

/-- A failure of `unlink` other than that there is no such file. -/
structure UnlinkError where
  errno : Int
  errno_ne : errno ≠ enoent

/-- What may fail. -/
structure Faults where
  /-- the lock is acquired -/
  locked : Bool
  /-- `systemctl` exits with `0` -/
  systemctl : SystemctlAction → Bool
  /-- what `systemctl stop` does -/
  serviceStop : Stopping
  /-- the calls of `fp_stop_daemon` -/
  stop : Nat → Stopping
  /-- the calls of `fp_firewall_disable` -/
  removal : Nat → Removal
  unlink : InstalledFile → Option UnlinkError

/-- The installation during an uninstallation. -/
structure Attempt where
  now : Installation
  /-- the calls of `fp_stop_daemon` so far -/
  stops : Nat
  /-- the calls of `fp_firewall_disable` so far -/
  removals : Nat
  errno : Int

/-- The daemons are stopped as far as the attempt goes. -/
def Stopping.apply (x : Stopping) (s : Installation) : Installation :=
  { s with
    daemons := s.daemons.filter x.survives
    table := x.table s.table
    files := Function.update s.files .pid (s.files .pid && x.keepsRecord) }

/-- The rules are removed as far as the attempt goes. -/
def Removal.apply (x : Removal) (s : Installation) : Installation := { s with table := x.table s.table }

/-- The file is there, or is not. -/
def Installation.setFile (s : Installation) (file : InstalledFile) (present : Bool) : Installation :=
  { s with files := Function.update s.files file present }

/-- `unlink`, which fails with this error. -/
def Attempt.unlink (s : Attempt) (file : InstalledFile) : Option UnlinkError → Bool × Attempt
  | some error => (false, { s with errno := error.errno })
  | none =>
    if s.now.files file then (true, { s with now := s.now.setFile file false })
    else (false, { s with errno := enoent })

/-- What a call does. -/
def perform (faults : Faults) : (e : UninstallOp) → Attempt → UninstallResp e × Attempt
  | .lock, s =>
    (faults.locked, { s with now := if faults.locked then s.now.setFile .lock true else s.now })
  | .unlock, s => ((), s)
  | .systemctlAvailable, s => (s.now.systemctl, s)
  | .systemctl .stop, s => (faults.systemctl .stop, { s with now := faults.serviceStop.apply s.now })
  | .systemctl action, s => (faults.systemctl action, s)
  | .stopDaemon, s =>
    ((faults.stop s.stops).code,
      { s with now := (faults.stop s.stops).apply s.now, stops := s.stops + 1 })
  | .firewallDisable, s =>
    ((faults.removal s.removals).code,
      { s with now := (faults.removal s.removals).apply s.now, removals := s.removals + 1 })
  | .unlink file, s => s.unlink file (faults.unlink file)
  | .errno, s => (s.errno, s)
  | .access file, s => (s.now.files file, s)
  | .rmdir _, s => ((), s)

/-- What a call does, when these faults occur. -/
def performed (faults : Faults) : Sem UninstallOp UninstallResp Unit Attempt := fun e _ s =>
  perform faults e s

/-- Nothing has been attempted. -/
def Installation.start (s : Installation) : Attempt := ⟨s, 0, 0, 0⟩

/-! ## What should be left -/

/-- Nothing is left. -/
structure Installation.Gone (s : Installation) : Prop where
  daemons : s.daemons = []
  table : Bare s.table
  pid : s.files .pid = false
  config : s.files .config = false
  uiLanguage : s.files .uiLanguage = false
  unit : s.files .unit = false
  binary : s.files .binary = false

/-- The steps that an uninstallation consists of. -/
def cleanupSteps : List UninstallOp :=
  [.unlink .unit, .stopDaemon, .firewallDisable, .unlink .pid, .unlink .config, .unlink .uiLanguage,
    .unlink .lock, .rmdir .runtime, .rmdir .config, .unlink .binary]

/-- The files whose removal is not looked at. -/
def unchecked : List InstalledFile := [.pid, .config, .uiLanguage]

/-- The pid record is still there when `fp_remove_pid` is called. -/
def recordKept (faults : Faults) (s : Installation) : Bool :=
  s.files .pid && (!s.systemctl || faults.serviceStop.keepsRecord) && (faults.stop 0).keepsRecord &&
    ((faults.stop 0).code == 0 || (faults.stop 1).keepsRecord)

/-- The file is there when it should be removed, and its `unlink` fails. -/
def fails (faults : Faults) (s : Installation) (file : InstalledFile) : Bool :=
  (faults.unlink file).isSome && match file with
    | .pid => recordKept faults s
    | .lock => true
    | file => s.files file

/-- A failure that `fp_uninstall` looks at. -/
def reported (faults : Faults) (s : Installation) : Bool :=
  !faults.locked || fails faults s .unit || fails faults s .binary ||
    ((faults.stop 0).code != 0 && (faults.stop 1).code != 0) ||
    ((faults.removal 0).code != 0 && (faults.removal 1).code != 0)

/-! ## The steps -/

section

variable {faults : Faults} {s : Attempt} {α : Type} {Q : α → Attempt → Prop}

theorem wp_perform {e : UninstallOp} {k : UninstallResp e → UninstallProg α}
    (h : ∀ r s', perform faults e s = (r, s') → wp (performed faults).rel (fun _ => True) (k r) Q s') :
    wp (performed faults).rel (fun _ => True) ((UninstallOp.ask e).bind k) Q s :=
  wp_call.mpr ⟨trivial, fun r s' hr => h r s' (by obtain ⟨_, hr⟩ := hr; exact hr)⟩

theorem wp_performed {e : UninstallOp} {Q : UninstallResp e → Attempt → Prop}
    (h : Q (perform faults e s).1 (perform faults e s).2) :
    wp (performed faults).rel (fun _ => True) (UninstallOp.ask e) Q s :=
  wp_ask.mpr ⟨trivial, fun r s' hr => ⟨trivial, by
    obtain ⟨_, hr⟩ := hr
    rwa [show perform faults e s = (r, s') from hr] at h⟩⟩

/-- The file after its `unlink`. -/
def Installation.swept (faults : Faults) (s : Installation) (file : InstalledFile) : Installation :=
  s.setFile file (s.files file && (faults.unlink file).isSome)

/-- Nothing but the installation has changed, and the last error. -/
def Becomes (s : Attempt) (now : Installation) (s' : Attempt) : Prop :=
  s' = { s with now := now, errno := s'.errno }

theorem Becomes.now {now : Installation} {s' : Attempt} (h : Becomes s now s') : s'.now = now := by
  rw [h]

theorem setFile_self (s : Installation) (file : InstalledFile) : s.setFile file (s.files file) = s := by
  unfold Installation.setFile
  rw [Function.update_eq_self]

theorem swept_here (faults : Faults) (s : Installation) (file : InstalledFile) :
    (s.swept faults file).files file = (s.files file && (faults.unlink file).isSome) :=
  Function.update_self ..

theorem unlink_cases {file : InstalledFile} {fault : Option UnlinkError} {r : Bool} {s' : Attempt}
    (h : s.unlink file fault = (r, s')) :
    (r = true ∧ fault = none ∧ s' = { s with now := s.now.setFile file false }) ∨
      (r = false ∧ fault = none ∧ s.now.files file = false ∧ s' = { s with errno := enoent }) ∨
      ∃ error, fault = some error ∧ r = false ∧ s' = { s with errno := error.errno } := by
  cases fault with
  | some error =>
    obtain ⟨rfl, rfl⟩ := Prod.mk.inj h
    exact .inr (.inr ⟨error, rfl, rfl, rfl⟩)
  | none =>
    simp only [Attempt.unlink] at h
    split at h
    · obtain ⟨rfl, rfl⟩ := Prod.mk.inj h
      exact .inl ⟨rfl, rfl, rfl⟩
    · rename_i habsent
      obtain ⟨rfl, rfl⟩ := Prod.mk.inj h
      exact .inr (.inl ⟨rfl, rfl, Bool.eq_false_iff.mpr habsent, rfl⟩)

/-- What an `unlink` answers and leaves. -/
theorem wp_unlink {file : InstalledFile} {k : Bool → UninstallProg α}
    (h : ∀ r s', Becomes s (s.now.swept faults file) s' →
      (r = true → (s.now.swept faults file).files file = false) →
      (r = false → (s'.errno = enoent ↔ (faults.unlink file).isSome = false)) →
      wp (performed faults).rel (fun _ => True) (k r) Q s') :
    wp (performed faults).rel (fun _ => True) ((UninstallOp.ask (.unlink file)).bind k) Q s := by
  refine wp_perform fun r s' hr => ?_
  have hself := setFile_self s.now file
  rcases unlink_cases hr with ⟨rfl, hfault, rfl⟩ | ⟨rfl, hfault, habsent, rfl⟩ | ⟨error, hfault, rfl, rfl⟩
  · exact h _ _ (by simp [Becomes, Installation.swept, hfault]) (fun _ => by simp [swept_here, hfault])
      (by simp)
  · rw [habsent] at hself
    refine h _ _ ?_ (by simp) (fun _ => ?_) <;> simp [Becomes, Installation.swept, hfault, hself]
  · refine h _ _ ?_ (by simp) (fun _ => ?_) <;>
      simp [Becomes, Installation.swept, hfault, hself, error.errno_ne]

/-- An `unlink` whose result is not looked at. -/
theorem wp_unlinkThen {file : InstalledFile} {k : Bool → UninstallProg α}
    (h : ∀ r s', Becomes s (s.now.swept faults file) s' →
      wp (performed faults).rel (fun _ => True) (k r) Q s') :
    wp (performed faults).rel (fun _ => True) ((UninstallOp.ask (.unlink file)).bind k) Q s :=
  wp_unlink fun r s' hbecomes _ _ => h r s' hbecomes

theorem wp_unitLeft : wp (performed faults).rel (fun _ => True) unitLeft
    (fun r s' => Becomes s (s.now.swept faults .unit) s' ∧ r = (s.now.swept faults .unit).files .unit) s := by
  refine wp_unlink fun r s' hbecomes htrue hfalse => ?_
  cases r with
  | true => exact wp_ret.mpr ⟨trivial, hbecomes, (htrue rfl).symm⟩
  | false =>
    refine wp_perform fun errno s'' hr => ?_
    obtain ⟨rfl, rfl⟩ := Prod.mk.inj hr
    split
    · rename_i herrno
      refine wp_ret.mpr ⟨trivial, hbecomes, ?_⟩
      rw [swept_here, (hfalse rfl).mp herrno, Bool.and_false]
    · refine wp_performed ⟨hbecomes, ?_⟩
      rw [hbecomes]
      rfl

theorem wp_unlinkLeaves (file : InstalledFile) : wp (performed faults).rel (fun _ => True) (unlinkLeaves file)
    (fun r s' => Becomes s (s.now.swept faults file) s' ∧ r = (s.now.swept faults file).files file) s := by
  refine wp_unlink fun r s' hbecomes htrue _ => ?_
  cases r with
  | true => exact wp_ret.mpr ⟨trivial, hbecomes, (htrue rfl).symm⟩
  | false =>
    refine wp_performed ⟨hbecomes, ?_⟩
    rw [hbecomes]
    rfl

/-- What `systemctl` does to the installation, when it is there. -/
def Installation.systemctled (faults : Faults) (s : Installation) : SystemctlAction → Installation
  | .stop => if s.systemctl then faults.serviceStop.apply s else s
  | _ => s

theorem wp_runSystemctl {action : SystemctlAction} {k : Int → UninstallProg α}
    (h : ∀ r, wp (performed faults).rel (fun _ => True) (k r) Q
      { s with now := s.now.systemctled faults action }) :
    wp (performed faults).rel (fun _ => True) ((runSystemctl action).bind k) Q s := by
  refine wp_bind.mpr (wp_perform fun available s' hr => ?_)
  obtain ⟨rfl, rfl⟩ := Prod.mk.inj hr
  split
  · rename_i hmissing
    have hnow : s.now.systemctled faults action = s.now := by
      cases action <;> simp_all [Installation.systemctled]
    rw [hnow] at h
    exact wp_ret.mpr ⟨trivial, h _⟩
  · rename_i hpresent
    refine wp_perform fun exited s' hr => wp_ret.mpr ⟨trivial, ?_⟩
    cases action with
    | stop =>
      obtain ⟨rfl, rfl⟩ := Prod.mk.inj hr
      have hnow : s.now.systemctled faults .stop = faults.serviceStop.apply s.now := by
        simp_all [Installation.systemctled]
      rw [hnow] at h
      exact h _
    | _ =>
      obtain ⟨rfl, rfl⟩ := Prod.mk.inj hr
      exact h _

theorem wp_withSystemctl {body : UninstallProg Unit} {k : Unit → UninstallProg α}
    (hbody : s.now.systemctl = true →
      wp (performed faults).rel (fun _ => True) body
        (fun a => wp (performed faults).rel (fun _ => True) (k a) Q) s)
    (hk : s.now.systemctl = false → wp (performed faults).rel (fun _ => True) (k ()) Q s) :
    wp (performed faults).rel (fun _ => True) ((withSystemctl body).bind k) Q s := by
  refine wp_bind.mpr (wp_perform fun available s' hr => ?_)
  obtain ⟨hsystemctl, rfl⟩ := Prod.mk.inj hr
  cases available with
  | false => exact wp_ret.mpr ⟨trivial, hk hsystemctl⟩
  | true => exact hbody hsystemctl

theorem wp_fpAutostartRemove : wp (performed faults).rel (fun _ => True) fpAutostartRemove
    (fun r s' => ∃ now, now = (s.now.systemctled faults .stop).swept faults .unit ∧ Becomes s now s' ∧
      (r = 0 ↔ now.files .unit = false)) s := by
  have hunit : ∀ {s₁ : Attempt}, s₁ = { s with now := s.now.systemctled faults .stop } →
      wp (performed faults).rel (fun _ => True)
        (unitLeft.bind fun left => if left = true then .ret (-1) else
          (withSystemctl do
            let _ ← runSystemctl .daemonReload
            pure ()).bind fun _ => .ret 0)
        (fun r s' => ∃ now, now = (s.now.systemctled faults .stop).swept faults .unit ∧ Becomes s now s' ∧
          (r = 0 ↔ now.files .unit = false)) s₁ := by
    rintro _ rfl
    refine wp_seq wp_unitLeft (fun _ _ => trivial) ?_
    rintro left s₂ - ⟨hbecomes, rfl⟩
    have hs : Becomes s _ s₂ := hbecomes
    split
    · rename_i hleft
      exact wp_ret.mpr ⟨trivial, _, rfl, hs, by simp [hleft]⟩
    · rename_i hleft
      rw [Bool.not_eq_true] at hleft
      refine wp_withSystemctl (fun _ => wp_runSystemctl fun _ => ?_) fun _ => ?_
      · exact wp_ret.mpr ⟨trivial, wp_ret.mpr ⟨trivial, _, rfl, hs, by simp [hleft]⟩⟩
      · exact wp_ret.mpr ⟨trivial, _, rfl, hs, by simp [hleft]⟩
  refine wp_withSystemctl (fun hsystemctl => ?_) fun hsystemctl => hunit ?_
  · exact wp_runSystemctl fun _ => wp_runSystemctl fun _ => wp_ret.mpr ⟨trivial, hunit rfl⟩
  · simp [Installation.systemctled, hsystemctl]

/-- A second attempt to stop the daemons, when the first one has failed. -/
theorem wp_retryStop {result : Int} {k : Int → UninstallProg α}
    (h : ∀ r s', (r = 0 ↔ result = 0 ∨ (faults.stop s.stops).code = 0) →
      s'.now.files = Function.update s.now.files .pid
        (s.now.files .pid && (result == 0 || (faults.stop s.stops).keepsRecord)) →
      ((result = 0 → s.now.daemons = []) → r = 0 → s'.now.daemons = []) →
      (Bare s.now.table → Bare s'.now.table) → s'.removals = s.removals →
      wp (performed faults).rel (fun _ => True) (k r) Q s') :
    wp (performed faults).rel (fun _ => True) ((retry result (UninstallOp.ask .stopDaemon)).bind k) Q s := by
  unfold retry
  split
  · rename_i hfailed
    refine wp_perform fun r s' hr => ?_
    obtain ⟨rfl, rfl⟩ := Prod.mk.inj hr
    refine h _ _ (by simp [hfailed]) ?_ (fun _ hcode => ?_) ((faults.stop s.stops).keeps _) rfl
    · rw [beq_eq_false_iff_ne.mpr hfailed, Bool.false_or]
      rfl
    · simp [Stopping.apply, (faults.stop s.stops).stopped hcode]
  · rename_i hdone
    rw [ne_eq, not_not] at hdone
    exact h _ _ (by simp [hdone]) (by simp [hdone]) (fun hdaemons _ => hdaemons hdone) id rfl

theorem wp_retryRemoval {result : Int} {k : Int → UninstallProg α}
    (h : ∀ r s', (r = 0 ↔ result = 0 ∨ (faults.removal s.removals).code = 0) →
      s'.now.files = s.now.files → s'.now.daemons = s.now.daemons →
      ((result = 0 → Bare s.now.table) → r = 0 → Bare s'.now.table) →
      wp (performed faults).rel (fun _ => True) (k r) Q s') :
    wp (performed faults).rel (fun _ => True)
      ((retry result (UninstallOp.ask .firewallDisable)).bind k) Q s := by
  unfold retry
  split
  · rename_i hfailed
    refine wp_perform fun r s' hr => ?_
    obtain ⟨rfl, rfl⟩ := Prod.mk.inj hr
    refine h _ _ (by simp [hfailed]) rfl rfl fun _ hcode => ?_
    exact (faults.removal s.removals).removed hcode _
  · rename_i hdone
    rw [ne_eq, not_not] at hdone
    exact h _ _ (by simp [hdone]) rfl rfl fun hbare _ => hbare hdone

/-- The attempts to stop the daemons and to remove the rules. -/
theorem wp_stopsThen {k : Int → Int → UninstallProg α} (hstops : s.stops = 0) (hremovals : s.removals = 0)
    (h : ∀ stopResult firewallResult s',
      (stopResult = 0 ↔ (faults.stop 0).code = 0 ∨ (faults.stop 1).code = 0) →
      (firewallResult = 0 ↔ (faults.removal 0).code = 0 ∨ (faults.removal 1).code = 0) →
      s'.now.files = Function.update s.now.files .pid (s.now.files .pid && (faults.stop 0).keepsRecord &&
        ((faults.stop 0).code == 0 || (faults.stop 1).keepsRecord)) →
      (stopResult = 0 → s'.now.daemons = []) → (firewallResult = 0 → Bare s'.now.table) →
      wp (performed faults).rel (fun _ => True) (k stopResult firewallResult) Q s') :
    wp (performed faults).rel (fun _ => True)
      ((UninstallOp.ask .stopDaemon).bind fun stopResult =>
        (UninstallOp.ask .firewallDisable).bind fun firewallResult =>
        (retry stopResult (UninstallOp.ask .stopDaemon)).bind fun stopResult =>
        (retry firewallResult (UninstallOp.ask .firewallDisable)).bind fun firewallResult =>
        k stopResult firewallResult) Q s := by
  refine wp_perform fun stopResult s₁ hr => ?_
  obtain ⟨rfl, hs₁⟩ := Prod.mk.inj hr
  refine wp_perform fun firewallResult s₂ hr => ?_
  obtain ⟨rfl, hs₂⟩ := Prod.mk.inj hr
  have hstops₂ : s₂.stops = 1 := by simp [← hs₂, ← hs₁, hstops]
  have hremovals₁ : s₁.removals = 0 := by simp [← hs₁, hremovals]
  have hremovals₂ : s₂.removals = 1 := by simp [← hs₂, hremovals₁]
  have hfiles₂ : s₂.now.files = Function.update s.now.files .pid
      (s.now.files .pid && (faults.stop 0).keepsRecord) := by
    simp [← hs₂, ← hs₁, Removal.apply, Stopping.apply, hstops]
  have hdaemons₂ : (faults.stop 0).code = 0 → s₂.now.daemons = [] := fun hcode => by
    simp [← hs₂, ← hs₁, Removal.apply, Stopping.apply, hstops, (faults.stop 0).stopped hcode]
  have hbare₂ : (faults.removal 0).code = 0 → Bare s₂.now.table := fun hcode => by
    rw [← hs₂, hremovals₁]
    exact (faults.removal 0).removed hcode _
  rw [hstops, hremovals₁]
  refine wp_retryStop fun stopResult s₃ hstop hfiles₃ hdaemons₃ hbare₃ hremovals₃ => ?_
  refine wp_retryRemoval fun firewallResult s₄ hremoval hfiles₄ hdaemons₄ hbare₄ => ?_
  rw [hstops₂] at hstop hfiles₃
  rw [hremovals₃, hremovals₂] at hremoval
  refine h stopResult firewallResult s₄ hstop hremoval ?_ ?_ ?_
  · rw [hfiles₄, hfiles₃, hfiles₂, Function.update_idem, Function.update_self]
  · rw [hdaemons₄]
    exact hdaemons₃ hdaemons₂
  · exact hbare₄ fun hcode => hbare₃ (hbare₂ hcode)

/-- The files that are removed at the end. -/
theorem wp_filesThen {k : Bool → UninstallProg α}
    (h : ∀ left s', left = (s.now.files .binary && (faults.unlink .binary).isSome) →
      s'.now.daemons = s.now.daemons → s'.now.table = s.now.table →
      (∀ file, s'.now.files file = if file = .unit then s.now.files .unit
        else s.now.files file && (faults.unlink file).isSome) →
      wp (performed faults).rel (fun _ => True) (k left) Q s') :
    wp (performed faults).rel (fun _ => True)
      ((UninstallOp.ask (.unlink .pid)).bind fun _ => (UninstallOp.ask (.unlink .config)).bind fun _ =>
        (UninstallOp.ask (.unlink .uiLanguage)).bind fun _ => (UninstallOp.ask .unlock).bind fun _ =>
        (UninstallOp.ask (.unlink .lock)).bind fun _ => (UninstallOp.ask (.rmdir .runtime)).bind fun _ =>
        (UninstallOp.ask (.rmdir .config)).bind fun _ => (unlinkLeaves .binary).bind k) Q s := by
  refine wp_unlinkThen fun _ s₁ h₁ => wp_unlinkThen fun _ s₂ h₂ => wp_unlinkThen fun _ s₃ h₃ => ?_
  refine wp_perform fun _ _ hr => ?_
  obtain ⟨-, rfl⟩ := Prod.mk.inj hr
  refine wp_unlinkThen fun _ s₄ h₄ => wp_perform fun _ _ hr => ?_
  obtain ⟨-, rfl⟩ := Prod.mk.inj hr
  refine wp_perform fun _ _ hr => ?_
  obtain ⟨-, rfl⟩ := Prod.mk.inj hr
  refine wp_seq (wp_unlinkLeaves .binary) (fun _ _ => trivial) ?_
  rintro left s₅ - ⟨h₅, hleft⟩
  have hnow : s₅.now = ((((s.now.swept faults .pid).swept faults .config).swept faults .uiLanguage).swept
      faults .lock).swept faults .binary := by
    rw [h₅.now, h₄.now, h₃.now, h₂.now, h₁.now]
  refine h left s₅ ?_ (by rw [hnow]; rfl) (by rw [hnow]; rfl) fun file => ?_
  · rw [hleft, swept_here, h₄.now, h₃.now, h₂.now, h₁.now]
    simp [Installation.swept, Installation.setFile]
  · rw [hnow]
    cases file <;> simp [Installation.swept, Installation.setFile]

end

/-! ## The whole -/

section

variable {faults : Faults}

/-- What `fp_uninstall` leaves and answers, with the lock. -/
theorem wp_uninstallLocked (s : Attempt) (hstops : s.stops = 0) (hremovals : s.removals = 0) :
    wp (performed faults).rel (fun _ => True) uninstallLocked
      (fun code s' => (∀ file, file ≠ .lock → s'.now.files file = fails faults s.now file) ∧
        (code = 0 ↔ fails faults s.now .unit = false ∧
          ((faults.stop 0).code = 0 ∨ (faults.stop 1).code = 0) ∧
          ((faults.removal 0).code = 0 ∨ (faults.removal 1).code = 0) ∧
          fails faults s.now .binary = false) ∧
        (code = 0 → s'.now.daemons = [] ∧ Bare s'.now.table)) s := by
  refine wp_seq wp_fpAutostartRemove (fun _ _ => trivial) ?_
  rintro serviceResult s₁ - ⟨now, hnow, hbecomes, hservice⟩
  have hfiles₁ : s₁.now.files = Function.update (Function.update s.now.files .pid
      (s.now.files .pid && (!s.now.systemctl || faults.serviceStop.keepsRecord))) .unit
        (s.now.files .unit && (faults.unlink .unit).isSome) := by
    rw [hbecomes.now, hnow]
    simp only [Installation.swept, Installation.setFile, Installation.systemctled]
    cases s.now.systemctl with
    | false => simp
    | true => simp [Stopping.apply]
  have hstops₁ : s₁.stops = 0 := by rw [hbecomes, hstops]
  have hremovals₁ : s₁.removals = 0 := by rw [hbecomes, hremovals]
  have hunit : serviceResult = 0 ↔ fails faults s.now .unit = false := by
    rw [hservice, ← hbecomes.now, hfiles₁, Function.update_self, Bool.and_comm]
    rfl
  refine wp_stopsThen hstops₁ hremovals₁
    fun stopResult firewallResult s₂ hstop hremoval hfiles₂ hdaemons hbare => ?_
  refine wp_filesThen fun left s₃ hleft hdaemons₃ htable₃ hfiles₃ => ?_
  have hfiles : ∀ file, file ≠ .lock → s₃.now.files file = fails faults s.now file := by
    intro file hfile
    rw [hfiles₃, hfiles₂, hfiles₁]
    cases file with
    | lock => exact absurd rfl hfile
    | pid => simp [fails, recordKept, Bool.and_comm, Bool.and_assoc]
    | _ => simp [fails, Bool.and_comm]
  have hbinary : left = fails faults s.now .binary := by
    rw [hleft, ← hfiles .binary (by decide), hfiles₃]
    rfl
  have hcode : ∀ service stop firewall : Int, (if service = 0 ∧ stop = 0 ∧ firewall = 0 ∧
      (if left = true then (-1 : Int) else 0) = 0 then (0 : Int) else -1) = 0 ↔
        service = 0 ∧ stop = 0 ∧ firewall = 0 ∧ left = false := by
    intro service stop firewall
    cases left <;> simp
  refine wp_ret.mpr ⟨trivial, hfiles, ?_, fun h => ?_⟩
  · rw [← hunit, ← hstop, ← hremoval, ← hbinary]
    exact hcode _ _ _
  · obtain ⟨-, hstopped, hremoved, -⟩ := (hcode _ _ _).mp h
    rw [hdaemons₃, htable₃]
    exact ⟨hdaemons hstopped, hbare hremoved⟩

/-- **No cleanup step is left out.** -/
theorem uninstallLocked_makes : ∀ step ∈ cleanupSteps, uninstallLocked.Makes (· = step) := by
  have hleft : unitLeft.Makes (· = .unlink .unit) := .inl rfl
  have hunit : fpAutostartRemove.Makes (· = .unlink .unit) := makes_after (fun _ => makes_bind hleft) _
  intro step hstep
  simp only [cleanupSteps, List.mem_cons, List.not_mem_nil, or_false] at hstep
  rcases hstep with rfl | hstep
  · exact makes_bind hunit
  refine makes_after (fun _ => ?_) _
  -- the steps follow one another
  rcases hstep with rfl | rfl | rfl | rfl | rfl | rfl | rfl | rfl | rfl
  all_goals
    repeat first
      | exact .inl rfl
      | refine makes_after (fun _ => ?_) _

theorem fails_lock (s : Installation) {file : InstalledFile} (h : file ≠ .lock) :
    fails faults (s.setFile .lock true) file = fails faults s file := by
  cases file with
  | lock => exact absurd rfl h
  | _ => simp [fails, recordKept, Installation.setFile]

theorem reported_eq_false (hlocked : faults.locked = true) (s : Installation) :
    reported faults s = false ↔ fails faults s .unit = false ∧
      ((faults.stop 0).code = 0 ∨ (faults.stop 1).code = 0) ∧
      ((faults.removal 0).code = 0 ∨ (faults.removal 1).code = 0) ∧ fails faults s .binary = false := by
  simp only [reported, hlocked, Bool.not_true, Bool.false_or, Bool.or_eq_false_iff, Bool.and_eq_false_iff,
    bne_eq_false_iff_eq]
  tauto

/-- **When the success of an uninstallation is true.** With the lock every step is attempted. The answer `0`
means that nothing is left iff a failure is reported or no file is left of those that are not looked at. -/
theorem fpUninstall_truthful_iff (faults : Faults) (s : Installation) (code : Int) (s' : Attempt)
    (tr : List (Ev UninstallOp UninstallResp))
    (h : Steps (performed faults).rel fpUninstall s.start tr (.ret code) s') :
    (faults.locked = true → ∀ step ∈ cleanupSteps, ∃ ev ∈ tr, ev.1 = step) ∧
      ((code = 0 → s'.now.Gone) ↔
        (reported faults s = true ∨ ∀ file ∈ unchecked, fails faults s file = false)) := by
  obtain ⟨locked, s₁, tr₁, rfl, ⟨_, hlock⟩, hrest⟩ := steps_call h
  obtain ⟨rfl, rfl⟩ := Prod.mk.inj hlock
  cases hlocked : faults.locked with
  | false =>
    rw [hlocked] at hrest
    obtain ⟨-, hcode, rfl⟩ := steps_ret hrest
    obtain rfl : code = -1 := by simpa using hcode
    exact ⟨by simp, by simp [reported, hlocked]⟩
  | true =>
    rw [hlocked] at hrest
    obtain ⟨hfiles, hcode, hstopped⟩ := (wp_uninstallLocked _ rfl rfl).runs ⟨tr₁, hrest⟩
    simp only [if_true, Installation.start] at hfiles hcode
    have hleft : ∀ file, file ≠ .lock → s'.now.files file = fails faults s file := fun file hfile =>
      (hfiles file hfile).trans (fails_lock s hfile)
    rw [fails_lock s (by simp), fails_lock s (by simp), ← reported_eq_false hlocked] at hcode
    refine ⟨fun _ step hstep => ?_, fun hclean => ?_, fun hcondition h0 => ?_⟩
    · obtain ⟨ev, hev, hstep⟩ := (uninstallLocked_makes step hstep).steps hrest
      exact ⟨ev, List.mem_cons_of_mem _ hev, hstep⟩
    · cases hreported : reported faults s with
      | true => exact .inl rfl
      | false =>
        have hgone := hclean (hcode.mpr hreported)
        refine .inr fun file hfile => ?_
        simp only [unchecked, List.mem_cons, List.not_mem_nil, or_false] at hfile
        rcases hfile with rfl | rfl | rfl <;> rw [← hleft _ (by decide)]
        exacts [hgone.pid, hgone.config, hgone.uiLanguage]
    · have hreported := hcode.mp h0
      have hunchecked := hcondition.resolve_left (by simp [hreported])
      obtain ⟨hunit, -, -, hbinary⟩ := (reported_eq_false hlocked s).mp hreported
      obtain ⟨hdaemons, htable⟩ := hstopped h0
      exact
        { daemons := hdaemons
          table := htable
          pid := (hleft .pid (by decide)).trans (hunchecked .pid (by decide))
          config := (hleft .config (by decide)).trans (hunchecked .config (by decide))
          uiLanguage := (hleft .uiLanguage (by decide)).trans (hunchecked .uiLanguage (by decide))
          unit := (hleft .unit (by decide)).trans hunit
          binary := (hleft .binary (by decide)).trans hbinary }

end

/-! ## A success that is false -/

/-- An attempt that does its work. -/
def Stopping.complete : Stopping where
  code := 0
  survives _ := false
  keepsRecord := false
  table t := t
  keeps _ h := h
  stopped _ _ := rfl

/-- An attempt that does nothing. -/
def Stopping.failed : Stopping where
  code := -1
  survives _ := true
  keepsRecord := true
  table t := t
  keeps _ h := h
  stopped h := by simp at h

/-- A table without rules. -/
def emptyTable : Table := ⟨[], none, [], by simp⟩

/-- An attempt that removes all rules. -/
def Removal.complete : Removal := ⟨0, fun _ => emptyTable, fun _ _ => ⟨by simp [emptyTable], rfl⟩⟩

/-- The first attempt to stop the daemon fails, and so does the `unlink` of the configuration, or does not. -/
def someFaults (config : Option UnlinkError) : Faults where
  locked := true
  systemctl _ := true
  serviceStop := .failed
  stop n := if n = 0 then .failed else .complete
  removal _ := .complete
  unlink file := if file = .config then config else none

/-- Everything is installed, and a daemon is running. -/
def installed : Installation := ⟨true, [4242], emptyTable, fun _ => true⟩

/-- The second attempt makes up for the first. -/
theorem fpUninstall_truthful_iff_retry : ∃ s' tr,
    Steps (performed (someFaults none)).rel fpUninstall installed.start tr (.ret 0) s' ∧ s'.now.Gone := by
  have hsteps : Steps (performed (someFaults none)).rel fpUninstall installed.start _ _ _ :=
    exec_steps (List.replicate 30 ()) _ _
  exact ⟨_, _, hsteps, ((fpUninstall_truthful_iff _ _ _ _ _ hsteps).2.mpr (.inr (by decide))) rfl⟩

/-- **The configuration is still there after a successful uninstallation.** -/
theorem fpUninstall_false_success : ¬ ∀ faults s code s' tr,
    Steps (performed faults).rel fpUninstall (Installation.start s) tr (.ret code) s' → code = 0 →
      s'.now.Gone := by
  intro h
  have hsteps : Steps (performed (someFaults (some ⟨30, by decide⟩))).rel fpUninstall installed.start _ _ _ :=
    exec_steps (List.replicate 30 ()) _ _
  exact absurd (h _ _ _ _ _ hsteps rfl).config (by decide)

end FreeProxy.Uninstall
