import FreeProxy.Forwarder.Diagnose

/-!
# What a diagnosis reports

* `Check` is a check that was made, with its calls and its outcome, `InOrder` that the checks are made stage by
  stage and none after a failed one, and `Consists` that the calls of a run are theirs, the events and the
  reads of the flag.
* `Concluded` is what a finished report and its events should be, and `Diagnosed` what the report says of the
  checks.
* `Reached k` is what a report is during the stage `k`, and `Running` says that the events and the calls so far
  are its own (`wp_stage`).

Headline: **`fpDiagnosticRun_concluded`**.

Out of scope: the texts with which the page shows a reason.
-/

namespace FreeProxy.Diagnose

open Lib

/-! ## The checks of a run -/

/-- A call and its answer. -/
abbrev DiagnosticEv := Ev DiagnosticOp DiagnosticResp

/-- What the checks have found for those after them. -/
structure Inputs where
  config : Config
  addresses : List AddrInfo
  destination : Destination

/-- Before the first check; each of the three is written before it is read. -/
def Inputs.initial : Inputs := ⟨.zero, [], ⟨0, 0⟩⟩

/-- A check with what it finds put into the inputs. -/
def finding {α : Type} (check : DiagnosticProg (Except Failure α)) (put : α → Inputs) :
    DiagnosticProg (Except Failure Inputs) :=
  check.bind fun outcome => .ret (outcome.map put)

/-- The check of a stage. -/
def Stage.check (given : Inputs) : Stage → DiagnosticProg (Except Failure Inputs)
  | config => finding checkConfig fun config => { given with config := config }
  | daemon => finding (checkDaemon given.config) fun _ => given
  | listener => finding checkListener fun _ => given
  | firewall => finding (checkFirewall given.config) fun _ => given
  | proxyTcp => finding (checkProxyTcp given.config) fun _ => given
  | socks5 => finding checkSocks5 fun _ => given
  | dns => finding checkDns fun addresses => { given with addresses := addresses }
  | socksConnect => finding (checkSocksConnect given.config given.addresses) fun destination =>
      { given with destination := destination }
  | transparent => finding (checkTransparent given.destination) fun _ => given

/-- A check that was made: the calls it has made with their answers, and what has come of it. -/
structure Check where
  stage : Stage
  given : Inputs
  calls : List DiagnosticEv
  outcome : Except Failure Inputs
  made : ∃ s s', Steps answered (stage.check given) s calls (.ret outcome) s'

/-- The check has not failed. -/
def Check.passed (check : Check) : Bool := check.outcome.isOk

/-- The checks are made in the order of their stages, each on what those before it have found, and none after
one that has failed. `last` is what the last of them has come to. -/
inductive InOrder : List Check → Except Failure Inputs → Prop where
  | none : InOrder [] (.ok .initial)
  | next {checks : List Check} {check : Check} (before : InOrder checks (.ok check.given))
      (here : check.stage.index = checks.length) : InOrder (checks ++ [check]) check.outcome

/-- The calls of a diagnosis: those of its checks in their order, the events, and reads of the flag. -/
inductive Consists : List DiagnosticEv → List Check → Prop where
  | none : Consists [] []
  | told {calls : List DiagnosticEv} {checks : List Check} (h : Consists calls checks)
      (event : DiagnosticEvent) : Consists (calls ++ [⟨.onEvent event, ()⟩]) checks
  | asked {calls : List DiagnosticEv} {checks : List Check} (h : Consists calls checks) (flag : Bool) :
      Consists (calls ++ [⟨.sock .cancelled, flag⟩]) checks
  | check {calls : List DiagnosticEv} {checks : List Check} (h : Consists calls checks) (check : Check) :
      Consists (calls ++ check.calls) (checks ++ [check])

/-! ## What a finished diagnosis should be -/

/-- What a listener knows of the items after one more event. -/
def listen (items : Stage → DiagnosticItem) (event : DiagnosticEvent) : Stage → DiagnosticItem :=
  match event.item.step with
  | .stage index => Function.update items index event.item
  | .done => items

/-- The items that a listener has after these events. -/
def replay (events : List DiagnosticEvent) : Stage → DiagnosticItem :=
  events.foldl listen initialReport.items

/-- The stages before `k` are OK, the stage `k` has come to nothing, and those after it were not begun. -/
structure StopsAt (k : Nat) (report : DiagnosticReport) : Prop where
  le : k ≤ fpDiagnosticStepCount
  before : ∀ i : Stage, i.index < k → (report.items i).state = .ok
  here : ∀ i : Stage, i.index = k →
    ((report.items i).state = .fail ∨ (report.items i).state = .cancelled) ∧
      (report.items i).reason ≠ .none ∧
      ((report.items i).reason = .cancelled ↔ (report.items i).state = .cancelled)
  after : ∀ i : Stage, k < i.index → (report.items i).state = .pending
  cancelled : report.cancelled = true ↔ ∃ i : Stage, i.index = k ∧ (report.items i).state = .cancelled

/-- The last event is the only one that ends the diagnosis, and it says how. -/
structure Closed (report : DiagnosticReport) (events : List DiagnosticEvent) (last : DiagnosticEvent) :
    Prop where
  stages : ∀ event ∈ events, event.item.step ≠ .done
  done : last.item.step = .done
  cancelled : last.item.state = .cancelled ↔ report.cancelled = true
  ok : last.item.state = .ok ↔ report.success = true
  fail : last.item.state = .fail ↔ report.cancelled = false ∧ report.success = false

/-- What a report says in the end, and that the listener has been told the same. -/
structure Concluded (listening : Bool) (code : Int) (report : DiagnosticReport)
    (events : List DiagnosticEvent) : Prop where
  stops : ∃ k, StopsAt k report
  completed : report.completed = Stage.all.countP fun i => (report.items i).state ≠ .pending
  success : report.success = true ↔ (∀ i, (report.items i).state = .ok) ∧ code = 0
  uncancelled : report.success = true → report.cancelled = false
  code : code = 0 ∨ code = -1
  told : listening = true → replay events = report.items ∧
    ∃ stages last, events = stages ++ [last] ∧ Closed report stages last
  silent : listening = false → events = []

/-- **What the report says of the checks that were made**: a stage is OK when its check has passed, the diagnosis
stops at the first whose check has failed or that was cancelled, and no check behind it is made. -/
structure Diagnosed (checks : List Check) (raised : Bool) (report : DiagnosticReport) : Prop where
  order : ∃ last, InOrder checks last
  ok : ∀ i, (report.items i).state = .ok ↔ ∃ check ∈ checks, check.stage = i ∧ check.passed = true
  stops : StopsAt (checks.countP Check.passed) report
  stopped : ∀ check ∈ checks, check.passed = false → check.stage.index = checks.countP Check.passed
  asked : ∀ check ∈ checks, check.stage.index ≤ checks.countP Check.passed
  /-- a stage that has failed, and with what -/
  fail : ∀ i, (report.items i).state = .fail → ∃ check ∈ checks, check.stage = i ∧
    ∃ failure, check.outcome = .error failure ∧
      report.items i = ⟨.stage i, .fail, failure.reason, failure.errorCode, failure.detailCode⟩
  cancelled : report.cancelled = true → raised = true

/-! ## Stages -/

theorem Stage.index_lt (i : Stage) : i.index < fpDiagnosticStepCount := by cases i <;> decide

theorem Stage.index_inj {i j : Stage} (h : i.index = j.index) : i = j := by
  cases i <;> cases j <;> first | rfl | cases h

theorem countP_index {p : Stage → Bool} {k : Nat} (hk : k ≤ fpDiagnosticStepCount)
    (hp : ∀ i, p i = true ↔ i.index < k) : Stage.all.countP p = k := by
  have hall : ∀ k ≤ fpDiagnosticStepCount, Stage.all.countP (fun i => decide (i.index < k)) = k := by
    decide
  rw [← hall k hk]
  exact List.countP_congr fun i _ => by simp [hp i]

/-! ## The order of the checks -/

theorem InOrder.passed {checks : List Check} {last : Except Failure Inputs} (h : InOrder checks last) :
    last.isOk = true → ∀ check ∈ checks, check.passed = true := by
  induction h with
  | none => simp
  | @next checks check _ _ ih =>
    intro hlast other hother
    rcases List.mem_append.mp hother with hother | hother
    · exact ih rfl other hother
    · rw [List.mem_singleton.mp hother]
      exact hlast

/-- The stages of the checks are the first ones. -/
theorem InOrder.index_lt_iff {checks : List Check} {last : Except Failure Inputs} (h : InOrder checks last)
    (i : Stage) : i.index < checks.length ↔ ∃ check ∈ checks, check.stage = i := by
  induction h with
  | none => simp
  | @next checks check _ here ih =>
    rw [List.length_append, List.length_singleton, Nat.lt_succ_iff_lt_or_eq, ih]
    constructor
    · rintro (⟨other, hother, hstage⟩ | heq)
      · exact ⟨other, List.mem_append_left _ hother, hstage⟩
      · exact ⟨check, by simp, Stage.index_inj (here.trans heq.symm)⟩
    · rintro ⟨other, hother, rfl⟩
      rcases List.mem_append.mp hother with hother | hother
      · exact .inl ⟨other, hother, rfl⟩
      · rw [List.mem_singleton.mp hother]
        exact .inr here

theorem InOrder.countP {checks : List Check} {given : Inputs} (h : InOrder checks (.ok given)) :
    checks.countP Check.passed = checks.length :=
  List.countP_eq_length.mpr (h.passed rfl)

/-- A finished report after checks that have all passed, and at most one more that has not. -/
theorem InOrder.diagnosed {before rest : List Check} {given : Inputs} {last : Except Failure Inputs}
    {raised : Bool} {report : DiagnosticReport} (h : InOrder before (.ok given))
    (hall : InOrder (before ++ rest) last)
    (hrest : ∀ check ∈ rest, check.stage.index = before.length ∧ check.passed = false)
    (hstops : StopsAt before.length report)
    (hfail : ∀ i, (report.items i).state = .fail → ∃ check ∈ rest, check.stage = i ∧
      ∃ failure, check.outcome = .error failure ∧
        report.items i = ⟨.stage i, .fail, failure.reason, failure.errorCode, failure.detailCode⟩)
    (hcancelled : report.cancelled = true → raised = true) :
    Diagnosed (before ++ rest) raised report := by
  have hcount : (before ++ rest).countP Check.passed = before.length := by
    rw [List.countP_append, h.countP, List.countP_eq_zero.mpr fun check hcheck => ?_, Nat.add_zero]
    simp [(hrest check hcheck).2]
  have hok : ∀ i, (report.items i).state = .ok ↔ i.index < before.length := by
    intro i
    refine ⟨fun hstate => ?_, hstops.before i⟩
    rcases Nat.lt_trichotomy i.index before.length with hlt | heq | hgt
    · exact hlt
    · rcases (hstops.here i heq).1 with hhere | hhere <;> rw [hhere] at hstate <;> cases hstate
    · rw [hstops.after i hgt] at hstate
      cases hstate
  refine ⟨⟨last, hall⟩, fun i => ?_, ?_, ?_, ?_, fun i hi => ?_, hcancelled⟩
  · rw [hok, h.index_lt_iff]
    constructor
    · rintro ⟨check, hcheck, hstage⟩
      exact ⟨check, List.mem_append_left _ hcheck, hstage, h.passed rfl check hcheck⟩
    · rintro ⟨check, hcheck, hstage, hpassed⟩
      rcases List.mem_append.mp hcheck with hcheck | hcheck
      · exact ⟨check, hcheck, hstage⟩
      · rw [(hrest check hcheck).2] at hpassed
        cases hpassed
  · rw [hcount]
    exact hstops
  · intro check hcheck hfailed
    rw [hcount]
    rcases List.mem_append.mp hcheck with hcheck | hcheck
    · rw [h.passed rfl check hcheck] at hfailed
      cases hfailed
    · exact (hrest check hcheck).1
  · intro check hcheck
    rw [hcount]
    rcases List.mem_append.mp hcheck with hcheck | hcheck
    · exact ((h.index_lt_iff check.stage).mpr ⟨check, hcheck, rfl⟩).le
    · exact (hrest check hcheck).1.le
  · obtain ⟨check, hcheck, hrest⟩ := hfail i hi
    exact ⟨check, List.mem_append_right _ hcheck, hrest⟩

/-! ## Events -/

/-- The cancel flag, what the caller was told, and the calls so far. -/
abbrev Recorded := World × List DiagnosticEv

section

variable {listening : Bool} {base : List DiagnosticEvent} {report : DiagnosticReport} {s : World}

/-- The report after `diagnostic_emit`. -/
def emitted (report : DiagnosticReport) (index : Stage) (state : DiagnosticState) (reason : DiagnosticReason)
    (errorCode detailCode : Int) : DiagnosticReport :=
  { report with
    items := Function.update report.items index ⟨.stage index, state, reason, errorCode, detailCode⟩
    completed :=
      if state = .ok ∨ state = .fail ∨ state = .cancelled then index.index + 1 else report.completed }

/-- The events since `base` are those of the report. -/
def Telling (listening : Bool) (base : List DiagnosticEvent) (report : DiagnosticReport) (s : World) : Prop :=
  ∃ events, s.events = base ++ events ∧ (∀ event ∈ events, event.item.step ≠ .done) ∧
    (listening = true → replay events = report.items) ∧ (listening = false → events = [])

theorem Telling.start (listening : Bool) (s : World) : Telling listening s.events initialReport s :=
  ⟨[], (List.append_nil _).symm, by simp, fun _ => rfl, fun _ => rfl⟩

theorem Telling.same {s' : World} (h : Telling listening base report s) (hs : s'.events = s.events) :
    Telling listening base report s' := by
  obtain ⟨events, hevents, hrest⟩ := h
  exact ⟨events, hs.trans hevents, hrest⟩

theorem replay_concat (events : List DiagnosticEvent) (event : DiagnosticEvent) :
    replay (events ++ [event]) = listen (replay events) event := by
  simp [replay]

/-- Nobody listens. -/
theorem Telling.silent (h : Telling false base report s) (report' : DiagnosticReport) :
    Telling false base report' s := by
  obtain ⟨events, hevents, hstages, -, hsilent⟩ := h
  exact ⟨events, hevents, hstages, by simp, hsilent⟩

/-- One more event. -/
theorem Telling.concat {s' : World} {event : DiagnosticEvent} {report' : DiagnosticReport}
    (h : Telling true base report s) (hs : s'.events = s.events ++ [event])
    (hevent : event.item.step ≠ .done) (hreport : listen report.items event = report'.items) :
    Telling true base report' s' := by
  obtain ⟨events, hevents, hstages, hreplay, -⟩ := h
  refine ⟨events ++ [event], ?_, ?_, ?_, ?_⟩
  · rw [hs, hevents, List.append_assoc]
  · intro other hother
    rcases List.mem_append.mp hother with hother | hother
    · exact hstages other hother
    · rw [List.mem_singleton.mp hother]
      exact hevent
  · intro _
    rw [replay_concat, hreplay rfl, hreport]
  · simp

end

section

variable {listening : Bool} {base : Recorded} {report : DiagnosticReport} {checks : List Check}
  {given : Inputs} {s : Recorded}

/-- The calls since `base` are those of these checks. -/
def Recording (base : Recorded) (checks : List Check) (s : Recorded) : Prop :=
  ∃ calls, s.2 = base.2 ++ calls ∧ Consists calls checks

theorem Recording.start (s : Recorded) : Recording s [] s := ⟨[], (List.append_nil _).symm, .none⟩

theorem Recording.told {s' : Recorded} (h : Recording base checks s) {event : DiagnosticEvent}
    (hs : s'.2 = s.2 ++ [⟨.onEvent event, ()⟩]) : Recording base checks s' := by
  obtain ⟨calls, hcalls, hconsists⟩ := h
  exact ⟨_, by rw [hs, hcalls, List.append_assoc], hconsists.told event⟩

theorem Recording.asked {s' : Recorded} (h : Recording base checks s) {flag : Bool}
    (hs : s'.2 = s.2 ++ [⟨.sock .cancelled, flag⟩]) : Recording base checks s' := by
  obtain ⟨calls, hcalls, hconsists⟩ := h
  exact ⟨_, by rw [hs, hcalls, List.append_assoc], hconsists.asked flag⟩

theorem Recording.check {s' : Recorded} (h : Recording base checks s) (check : Check)
    (hs : s'.2 = s.2 ++ check.calls) : Recording base (checks ++ [check]) s' := by
  obtain ⟨calls, hcalls, hconsists⟩ := h
  exact ⟨_, by rw [hs, hcalls, List.append_assoc], hconsists.check check⟩

/-- A run so far: its events are those of the report, its calls are those of the checks. -/
structure Running (listening : Bool) (base : Recorded) (report : DiagnosticReport) (checks : List Check)
    (s : Recorded) : Prop where
  telling : Telling listening base.1.events report s.1
  recording : Recording base checks s

theorem wp_onEvent {α : Type} {event : DiagnosticEvent} {k : Unit → DiagnosticProg α}
    {Q : α → Recorded → Prop}
    (h : ∀ s', (s.1.raised = true → s'.1.raised = true) → s'.1.events = s.1.events ++ [event] →
      s'.2 = s.2 ++ [⟨.onEvent event, ()⟩] → wp (Traced answered) (fun _ => True) (k ()) Q s') :
    wp (Traced answered) (fun _ => True) ((DiagnosticOp.ask (.onEvent event)).bind k) Q s :=
  wp_call.mpr ⟨trivial, fun _ s' hs => h s' hs.1.1 hs.1.2 hs.2⟩

/-- `diagnostic_emit` tells what it writes. -/
theorem wp_diagnosticEmit (h : Running listening base report checks s) (index : Stage)
    (state : DiagnosticState) (reason : DiagnosticReason) (errorCode detailCode : Int) :
    wp (Traced answered) (fun _ => True)
      (diagnosticEmit listening report index state reason errorCode detailCode)
      (fun r s' => r = emitted report index state reason errorCode detailCode ∧
        (s.1.raised = true → s'.1.raised = true) ∧ Running listening base r checks s') s := by
  cases listening with
  | false => exact wp_ret.mpr ⟨trivial, rfl, id, h.telling.silent _, h.recording⟩
  | true =>
    refine wp_onEvent fun s' hraised htold hcalls => wp_ret.mpr ⟨trivial, rfl, hraised, ?_, ?_⟩
    · exact h.telling.concat htold (by simp) rfl
    · exact h.recording.told hcalls

/-! ## Reports -/

/-- The report during the stage `k`. -/
structure Reached (k : Nat) (report : DiagnosticReport) : Prop where
  before : ∀ i : Stage, i.index < k → (report.items i).state = .ok
  after : ∀ i : Stage, k < i.index → (report.items i).state = .pending
  success : report.success = false
  cancelled : report.cancelled = false

theorem reached_initial : Reached 0 initialReport :=
  ⟨fun _ h => absurd h (Nat.not_lt_zero _), fun _ _ => rfl, rfl, rfl⟩

variable {index : Stage} {state : DiagnosticState} {reason : DiagnosticReason} {errorCode detailCode : Int}

theorem emitted_here : (emitted report index state reason errorCode detailCode).items index =
    ⟨.stage index, state, reason, errorCode, detailCode⟩ :=
  Function.update_self ..

theorem emitted_elsewhere {i : Stage} (h : i ≠ index) :
    (emitted report index state reason errorCode detailCode).items i = report.items i :=
  Function.update_of_ne h ..

/-- A stage writes to its own item. -/
theorem Reached.emitted (h : Reached index.index report) :
    Reached index.index (emitted report index state reason errorCode detailCode) := by
  refine ⟨fun i hi => ?_, fun i hi => ?_, h.success, h.cancelled⟩
  · rw [emitted_elsewhere fun heq => by simp [heq] at hi]
    exact h.before i hi
  · rw [emitted_elsewhere fun heq => by simp [heq] at hi]
    exact h.after i hi

theorem Reached.next (h : Reached index.index report) :
    Reached (index.index + 1) (Diagnose.emitted report index .ok .none 0 0) := by
  refine ⟨fun i hi => ?_, fun i hi => ?_, h.success, h.cancelled⟩
  · by_cases heq : i = index
    · rw [heq, emitted_here]
    · rw [emitted_elsewhere heq]
      refine h.before i (lt_of_le_of_ne (Nat.le_of_lt_succ hi) fun hindex => ?_)
      exact heq (Stage.index_inj hindex)
  · rw [emitted_elsewhere fun heq => by simp [heq] at hi]
    exact h.after i (Nat.lt_of_succ_lt hi)

/-- The report that a stage leaves that has come to nothing. -/
theorem Reached.stops (h : Reached index.index report) (hstate : state = .fail ∨ state = .cancelled)
    (hne : reason ≠ .none) (hreason : reason = .cancelled ↔ state = .cancelled) {c : Bool}
    (hc : c = true ↔ state = .cancelled) :
    StopsAt index.index
      (Diagnose.emitted { report with cancelled := c } index state reason errorCode detailCode) := by
  have hreached : Reached index.index { report with cancelled := false } :=
    ⟨h.before, h.after, h.success, rfl⟩
  refine ⟨index.index_lt.le, ?_, ?_, ?_, ?_⟩
  · exact hreached.emitted.before
  · intro i hi
    rw [Stage.index_inj hi, emitted_here]
    exact ⟨hstate, hne, hreason⟩
  · exact hreached.emitted.after
  · rw [show (Diagnose.emitted { report with cancelled := c } index state reason errorCode
      detailCode).cancelled = c from rfl, hc]
    constructor
    · intro hcancelled
      exact ⟨index, rfl, by rw [emitted_here]; exact hcancelled⟩
    · rintro ⟨i, hi, hcancelled⟩
      rw [Stage.index_inj hi, emitted_here] at hcancelled
      exact hcancelled

theorem StopsAt.completed (h : StopsAt index.index report) :
    Stage.all.countP (fun i => (report.items i).state ≠ .pending) = index.index + 1 := by
  refine countP_index index.index_lt fun i => ?_
  rw [decide_eq_true_eq, Nat.lt_succ_iff]
  constructor
  · intro hbegun
    by_contra hlater
    exact hbegun (h.after i (Nat.lt_of_not_le hlater))
  · intro hle
    rcases Nat.lt_or_eq_of_le hle with hlt | heq
    · rw [h.before i hlt]
      simp
    · rcases (h.here i heq).1 with hfail | hfail <;> rw [hfail] <;> simp

/-- No stage has failed while one is running. -/
theorem Reached.unfailed (h : Reached index.index report) {c : Bool} (i : Stage) :
    ((Diagnose.emitted { report with cancelled := c } index .cancelled reason errorCode detailCode).items i).state
      ≠ .fail := by
  intro hi
  by_cases hindex : i = index
  · rw [hindex, emitted_here] at hi
    cases hi
  · rw [emitted_elsewhere hindex] at hi
    rcases Nat.lt_trichotomy i.index index.index with hlt | heq | hgt
    · exact absurd ((h.before i hlt).symm.trans hi) (by simp)
    · exact hindex (Stage.index_inj heq)
    · exact absurd ((h.after i hgt).symm.trans hi) (by simp)

/-- A report of which every stage is OK stops behind the last. -/
theorem Reached.stopsAll (h : Reached fpDiagnosticStepCount report) :
    StopsAt fpDiagnosticStepCount { report with success := true } := by
  refine ⟨le_refl _, h.before, fun i hi => absurd hi (ne_of_lt i.index_lt), h.after, ?_⟩
  rw [show ({ report with success := true } : DiagnosticReport).cancelled = report.cancelled from rfl,
    h.cancelled]
  simp only [Bool.false_eq_true, false_iff]
  rintro ⟨i, hi, -⟩
  exact absurd hi (ne_of_lt i.index_lt)

/-! ## The end of a diagnosis -/

/-- What was told until the end. -/
structure Said (listening : Bool) (report : DiagnosticReport) (events : List DiagnosticEvent) : Prop where
  told : listening = true → replay events = report.items ∧
    ∃ stages last, events = stages ++ [last] ∧ Closed report stages last
  silent : listening = false → events = []

theorem closed_doneEvent {events : List DiagnosticEvent}
    (hstages : ∀ event ∈ events, event.item.step ≠ .done)
    (huncancelled : report.success = true → report.cancelled = false) :
    Closed report events (doneEvent report) := by
  cases hc : report.cancelled <;> cases hs : report.success <;> constructor <;>
    simp_all [doneEvent]

theorem wp_diagnosticDone (report : DiagnosticReport) {α : Type} {k : Unit → DiagnosticProg α}
    {Q : α → Recorded → Prop} (h : Running listening base report checks s)
    (huncancelled : report.success = true → report.cancelled = false)
    (hk : ∀ s' events, (s.1.raised = true → s'.1.raised = true) → s'.1.events = base.1.events ++ events →
      Said listening report events → Recording base checks s' →
      wp (Traced answered) (fun _ => True) (k ()) Q s') :
    wp (Traced answered) (fun _ => True) ((diagnosticDone listening report).bind k) Q s := by
  obtain ⟨events, hevents, hstages, hreplay, hsilent⟩ := h.telling
  cases listening with
  | false => exact hk s events id hevents ⟨by simp, hsilent⟩ h.recording
  | true =>
    refine wp_onEvent fun s' hraised htold hcalls =>
      hk s' (events ++ [doneEvent report]) hraised ?_ ⟨fun _ => ⟨?_, ?_⟩, by simp⟩ (h.recording.told hcalls)
    · rw [htold, hevents, List.append_assoc]
    · rw [replay_concat, hreplay rfl]
      rfl
    · exact ⟨events, _, rfl, closed_doneEvent hstages huncancelled⟩

/-- The diagnosis has ended as it should, and its report is that of the checks that were made. -/
def Ends (listening : Bool) (base : Recorded) (r : Int × DiagnosticReport) (s : Recorded) : Prop :=
  ∃ events checks, s.1.events = base.1.events ++ events ∧ Concluded listening r.1 r.2 events ∧
    Recording base checks s ∧ Diagnosed checks s.1.raised r.2

theorem StopsAt.concluded {events : List DiagnosticEvent} (h : StopsAt index.index report)
    (hcompleted : report.completed = index.index + 1) (hsuccess : report.success = false)
    (hsaid : Said listening report events) : Concluded listening (-1) report events where
  stops := ⟨_, h⟩
  completed := hcompleted.trans h.completed.symm
  success := by simp [hsuccess]
  uncancelled := by simp [hsuccess]
  code := .inr rfl
  told := hsaid.told
  silent := hsaid.silent

/-- `diagnostic_emit` with the state of an end, and `diagnostic_done`. -/
theorem wp_conclude (hreached : Reached index.index report) {c : Bool}
    (hrunning : Running listening base { report with cancelled := c } checks s)
    (hstate : state = .fail ∨ state = .cancelled) (hne : reason ≠ .none)
    (hreason : reason = .cancelled ↔ state = .cancelled) (hc : c = true ↔ state = .cancelled)
    (hdiagnosed : ∀ raised, (s.1.raised = true → raised = true) →
      Diagnosed checks raised (emitted { report with cancelled := c } index state reason errorCode detailCode))
    {α : Type} {k : DiagnosticReport → DiagnosticProg α} {Q : α → Recorded → Prop}
    (hk : ∀ report s', Ends listening base (-1, report) s' →
      wp (Traced answered) (fun _ => True) (k report) Q s') :
    wp (Traced answered) (fun _ => True)
      ((diagnosticEmit listening { report with cancelled := c } index state reason errorCode detailCode).bind
        fun report => (diagnosticDone listening report).bind fun _ => k report) Q s := by
  refine wp_seq (wp_diagnosticEmit hrunning index state reason errorCode detailCode) (fun _ _ => trivial) ?_
  rintro _ s₁ - ⟨rfl, hraised₁, hrunning₁⟩
  have hsuccess : (emitted { report with cancelled := c } index state reason errorCode
      detailCode).success = false := hreached.success
  refine wp_diagnosticDone _ hrunning₁ (by simp [hsuccess]) fun s₂ events hraised₂ hevents hsaid hrecording =>
    hk _ _ ⟨events, checks, hevents, ?_, hrecording, hdiagnosed _ fun h => hraised₂ (hraised₁ h)⟩
  refine (hreached.stops hstate hne hreason hc).concluded (if_pos ?_) hsuccess hsaid
  exact .inr hstate

/-- A stage whose check has failed. -/
theorem wp_diagnosticFail (hreached : Reached index.index report) (horder : InOrder checks (.ok given))
    (hlength : checks.length = index.index) {check : Check} (hstage : check.stage = index)
    (hgiven : check.given = given) {failure : Failure} (houtcome : check.outcome = .error failure)
    (hrunning : Running listening base report (checks ++ [check]) s) (hreason : failure.reason ≠ .cancelled) :
    wp (Traced answered) (fun _ => True) (diagnosticFail listening report index failure)
      (Ends listening base) s := by
  have hreport : { report with cancelled := false } = report := by rw [← hreached.cancelled]
  unfold diagnosticFail
  rw [← hreport] at hrunning ⊢
  refine wp_conclude hreached hrunning (.inl rfl) failure.reason_ne (by simp [hreason]) (by simp)
    (fun raised _ => ?_) fun report s' hends => wp_ret.mpr ⟨trivial, hends⟩
  refine horder.diagnosed (.next (hgiven ▸ horder) (by rw [hstage, hlength])) ?_ ?_ ?_ (by simp [emitted])
  · simp [hstage, hlength, Check.passed, houtcome, Except.isOk, Except.toBool]
  · rw [hlength]
    exact hreached.stops (.inl rfl) failure.reason_ne (by simp [hreason]) (by simp)
  · intro i hi
    refine ⟨check, by simp, ?_⟩
    by_cases hindex : i = index
    · subst hindex
      exact ⟨hstage, failure, houtcome, emitted_here⟩
    · rw [emitted_elsewhere hindex] at hi
      rcases Nat.lt_trichotomy i.index index.index with hlt | heq | hgt
      · exact absurd ((hreached.before i hlt).symm.trans hi) (by simp)
      · exact absurd (Stage.index_inj heq) hindex
      · exact absurd ((hreached.after i hgt).symm.trans hi) (by simp)

/-- The flag is asked for: what follows runs only when it is not raised. -/
theorem wp_unlessCancelled (index : Stage) (hreached : Reached index.index report)
    (horder : InOrder checks (.ok given)) (hlength : checks.length = index.index) {rest : List Check}
    {last : Except Failure Inputs} (hall : InOrder (checks ++ rest) last)
    (hrest : ∀ check ∈ rest, check.stage.index = checks.length ∧ check.passed = false)
    (hrunning : Running listening base report (checks ++ rest) s)
    {next : DiagnosticProg (Int × DiagnosticReport)}
    (hnext : ∀ s', s.1.raised = false → Running listening base report (checks ++ rest) s' →
      wp (Traced answered) (fun _ => True) next (Ends listening base) s') :
    wp (Traced answered) (fun _ => True) (unlessCancelled listening report index next)
      (Ends listening base) s := by
  refine wp_bind.mpr (wp_call.mpr ⟨trivial, ?_⟩)
  rintro flag s₁ ⟨⟨hraised, hflag, hevents⟩, hcalls⟩
  have hrunning₁ : Running listening base report (checks ++ rest) s₁ :=
    ⟨hrunning.telling.same hevents, hrunning.recording.asked hcalls⟩
  cases flag with
  | false =>
    refine wp_ret.mpr ⟨trivial, hnext s₁ ?_ hrunning₁⟩
    by_contra hs
    exact absurd (hflag.trans (hraised (by simpa using hs))) (by simp)
  | true =>
    refine wp_conclude hreached (c := true) ⟨hrunning₁.telling, hrunning₁.recording⟩ (.inr rfl) (by simp)
      (by simp) (by simp) (fun raised hkept => ?_) fun report s' hends =>
        wp_ret.mpr ⟨trivial, wp_ret.mpr ⟨trivial, hends⟩⟩
    refine horder.diagnosed hall hrest ?_ ?_ fun _ => hkept hflag.symm
    · rw [hlength]
      exact hreached.stops (.inr rfl) (by simp) (by simp) (by simp)
    · intro i hi
      exact absurd hi (hreached.unfailed i)

/-- **One stage.** Its check is the one of the stage, `hput`, on what the checks before it have found. -/
theorem wp_stage (index : Stage) {α : Type} {mayCancel : Bool} {check : DiagnosticProg (Except Failure α)}
    {put : α → Inputs} (hput : index.check given = finding check put)
    {next : α → DiagnosticReport → DiagnosticProg (Int × DiagnosticReport)}
    (hcheck : ∀ s, wp answered (fun _ => True) check (Checks mayCancel s) s)
    (hreached : Reached index.index report) (horder : InOrder checks (.ok given))
    (hlength : checks.length = index.index) (hrunning : Running listening base report checks s)
    (hnext : ∀ a report checks s, Reached (index.index + 1) report → report.completed = index.index + 1 →
      InOrder checks (.ok (put a)) → checks.length = index.index + 1 →
      Running listening base report checks s →
      wp (Traced answered) (fun _ => True) (next a report) (Ends listening base) s) :
    wp (Traced answered) (fun _ => True) (stage listening index mayCancel check report next)
      (Ends listening base) s := by
  refine wp_seq (wp_diagnosticEmit hrunning index .running .none 0 0) (fun _ _ => trivial) ?_
  rintro _ s₁ - ⟨rfl, -, hrunning₁⟩
  have hreached₁ : Reached index.index (emitted report index .running .none 0 0) := hreached.emitted
  refine wp_seq (hcheck s₁.1).traced_run (fun _ _ => trivial) ?_
  rintro outcome s₂ - ⟨⟨hevents, hfailure⟩, calls, hsteps, hcalls⟩
  -- the calls just made are those of the stage's own check
  have hmade : Steps answered (index.check given) s₁.1 calls (.ret (outcome.map put)) s₂.1 := by
    rw [hput]
    exact hsteps.bind fun outcome => .ret (outcome.map put)
  let made : Check := ⟨index, given, calls, outcome.map put, _, _, hmade⟩
  have hstage : made.stage = index := rfl
  have hgiven : made.given = given := rfl
  have hall : InOrder (checks ++ [made]) (outcome.map put) := InOrder.next horder hlength.symm
  have hrunning₂ : Running listening base (emitted report index .running .none 0 0) (checks ++ [made]) s₂ :=
    ⟨hrunning₁.telling.same hevents, hrunning₁.recording.check made hcalls⟩
  cases outcome with
  | error failure =>
    have hfail : ∀ {s}, Running listening base (emitted report index .running .none 0 0) (checks ++ [made]) s →
        failure.reason ≠ .cancelled → wp (Traced answered) (fun _ => True)
          (diagnosticFail listening (emitted report index .running .none 0 0) index failure)
          (Ends listening base) s :=
      fun hrunning hreason =>
        wp_diagnosticFail hreached₁ horder hlength hstage hgiven rfl hrunning hreason
    dsimp only
    split
    · refine wp_unlessCancelled index hreached₁ horder hlength hall ?_ hrunning₂ ?_
      · simp [made, hlength, Check.passed, Except.map, Except.isOk, Except.toBool]
      intro s₃ hraised hrunning₃
      refine hfail hrunning₃ fun hreason => ?_
      rw [(hfailure failure rfl hreason).2] at hraised
      cases hraised
    · exact hfail hrunning₂ fun hreason => absurd (hfailure failure rfl hreason).1 ‹_›
  | ok a =>
    refine wp_seq (wp_diagnosticEmit hrunning₂ index .ok .none 0 0) (fun _ _ => trivial) ?_
    rintro _ s₃ - ⟨rfl, -, hrunning₃⟩
    exact hnext a _ _ s₃ hreached₁.next rfl hall (by simp [hlength]) hrunning₃

/-! ## Headline -/

/-- The end of a diagnosis in which every stage was OK. -/
theorem Reached.concluded {events : List DiagnosticEvent}
    (h : Reached fpDiagnosticStepCount report) (hcompleted : report.completed = fpDiagnosticStepCount)
    (hsaid : Said listening { report with success := true } events) :
    Concluded listening 0 { report with success := true } events where
  stops := ⟨fpDiagnosticStepCount, h.stopsAll⟩
  completed := by
    rw [countP_index (le_refl fpDiagnosticStepCount) fun i => ?_]
    · exact hcompleted
    · simp only [decide_eq_true_eq, iff_true_right i.index_lt]
      rw [show ({ report with success := true } : DiagnosticReport).items i = report.items i from rfl,
        h.before i i.index_lt]
      simp
  success := by simpa using fun i => h.before i i.index_lt
  uncancelled := fun _ => h.cancelled
  code := .inl rfl
  told := hsaid.told
  silent := hsaid.silent

theorem wp_fpDiagnosticRun (listening : Bool) (s : Recorded) :
    wp (Traced answered) (fun _ => True) (fpDiagnosticRun listening) (Ends listening s) s := by
  refine wp_stage .config rfl wp_checkConfig reached_initial .none rfl
    ⟨.start listening s.1, .start s⟩ ?_
  intro config report checks s₁ hreached _ horder hlength hrunning
  have hall := horder
  rw [← List.append_nil checks] at hall hrunning
  refine wp_unlessCancelled .daemon hreached horder hlength hall (by simp) hrunning fun s₂ _ hrunning => ?_
  rw [List.append_nil] at hrunning
  refine wp_stage .daemon rfl (wp_checkDaemon config) hreached horder hlength hrunning ?_
  intro _ report checks s₃ hreached _ horder hlength hrunning
  refine wp_stage .listener rfl wp_checkListener hreached horder hlength hrunning ?_
  intro _ report checks s₄ hreached _ horder hlength hrunning
  refine wp_stage .firewall rfl (wp_checkFirewall config) hreached horder hlength hrunning ?_
  intro _ report checks s₅ hreached _ horder hlength hrunning
  refine wp_stage .proxyTcp rfl (wp_checkProxyTcp config) hreached horder hlength hrunning ?_
  intro _ report checks s₆ hreached _ horder hlength hrunning
  refine wp_stage .socks5 rfl wp_checkSocks5 hreached horder hlength hrunning ?_
  intro _ report checks s₇ hreached _ horder hlength hrunning
  refine wp_stage .dns rfl wp_checkDns hreached horder hlength hrunning ?_
  intro addresses report checks s₈ hreached _ horder hlength hrunning
  refine wp_stage .socksConnect rfl (wp_checkSocksConnect config addresses) hreached horder hlength hrunning ?_
  intro destination report checks s₉ hreached _ horder hlength hrunning
  refine wp_stage .transparent rfl (wp_checkTransparent destination) hreached horder hlength hrunning ?_
  intro _ report checks s₁₀ hreached hcompleted horder hlength hrunning
  refine wp_diagnosticDone { report with success := true } ⟨hrunning.telling, hrunning.recording⟩
    (fun _ => hreached.cancelled) ?_
  intro s₁₁ events _ hevents hsaid hrecording
  have hconcluded := hreached.concluded hcompleted hsaid
  refine wp_ret.mpr ⟨trivial, events, checks, hevents, hconcluded, hrecording, ?_⟩
  have hall := horder
  rw [← List.append_nil checks] at hall ⊢
  refine horder.diagnosed hall (by simp) ?_ ?_ ?_
  · rw [hlength]
    exact hreached.stopsAll
  · intro i hi
    exact absurd ((hreached.before i i.index_lt).symm.trans hi) (by simp)
  · exact fun hc => absurd (hreached.cancelled.symm.trans hc) (by simp)

/-- **A diagnosis stops at the first stage whose check fails or that is cancelled, and its events are its
report.** The checks are those that the run has made. -/
theorem fpDiagnosticRun_concluded (listening : Bool) (s s' : World) (calls : List DiagnosticEv) (code : Int)
    (report : DiagnosticReport)
    (h : Steps answered (fpDiagnosticRun listening) s calls (.ret (code, report)) s') :
    ∃ events checks, s'.events = s.events ++ events ∧ Concluded listening code report events ∧
      Consists calls checks ∧ Diagnosed checks s'.raised report := by
  obtain ⟨events, checks, hevents, hconcluded, ⟨calls', hcalls, hconsists⟩, hdiagnosed⟩ :=
    (wp_traced (wp_fpDiagnosticRun listening (s, [])) h).2 _ rfl
  obtain rfl : calls = calls' := hcalls
  exact ⟨events, checks, hevents, hconcluded, hconsists, hdiagnosed⟩

end

/-- What an installation answers: a choice says whether a call goes well, and whether the flag is raised. The
proxy of its configuration says nothing. -/
def installed : Sem DiagnosticOp DiagnosticResp (Bool × Bool) World := fun e c s =>
  let s : World := { s with raised := s.raised || c.2 }
  match e with
  | .configExists => (c.1, s)
  | .configLoad => (if c.1 then some .zero else none, s)
  | .daemonMatches _ | .firewallIsEnabled _ => (c.1, s)
  | .readPid => (0, s)
  | .sock .cancelled => (s.raised, s)
  | .sock .socket | .sock (.connect _ _ _) | .sock (.setTimeouts _) => (c.1, s)
  | .sock (.send _) | .sock (.recv _ _ _) => (.failed Socks.econnreset, s)
  | .sock .errno => (Socks.econnreset, s)
  | .sock (.setErrno _) | .sock .close | .freeaddrinfo => ((), s)
  | .resolve => (⟨-1, [], 0⟩, s)
  | .transparentHttp _ => ((-1, none), s)
  | .onEvent event => ((), { s with events := s.events ++ [event] })

theorem answered_installed (e : DiagnosticOp) (s : World) (r : DiagnosticResp e) (s' : World)
    (h : installed.rel e s r s') : answered e s r s' := by
  obtain ⟨c, hc⟩ := h
  cases e with
  | sock e => cases e <;> (obtain ⟨rfl, rfl⟩ := Prod.mk.inj hc) <;> simp +contextual [answered]
  | _ =>
    obtain ⟨rfl, rfl⟩ := Prod.mk.inj hc
    simp +contextual [answered]

/-- A diagnosis by choices is one of the diagnoses. -/
theorem steps_installed {choices : List (Bool × Bool)} {code : Int} {report : DiagnosticReport} {s' : World}
    (h : exec installed choices (fpDiagnosticRun true) ⟨false, []⟩ = (.ret (code, report), s')) :
    Steps answered (fpDiagnosticRun true) ⟨false, []⟩
      (trace installed choices (fpDiagnosticRun true) ⟨false, []⟩) (.ret (code, report)) s' := by
  have hsteps : Steps installed.rel (fpDiagnosticRun true) ⟨false, []⟩ _ _ _ := exec_steps choices _ _
  rw [h] at hsteps
  exact hsteps.map id answered_installed

/-- A diagnosis that is cancelled while the configuration is checked, and one that finds no rules: four of the
nine checks are made, and the last of them fails. -/
theorem fpDiagnosticRun_concluded_cancelled :
    (∃ calls report s', Steps answered (fpDiagnosticRun true) ⟨false, []⟩ calls (.ret (-1, report)) s' ∧
      (report.items .daemon).state = .cancelled ∧ s'.events.length = 4 ∧
      ∃ events checks, s'.events = [] ++ events ∧ Concluded true (-1) report events ∧
        Consists calls checks ∧ Diagnosed checks s'.raised report) ∧
    ∃ calls report s', Steps answered (fpDiagnosticRun true) ⟨false, []⟩ calls (.ret (-1, report)) s' ∧
      (report.items .listener).state = .ok ∧ (report.items .firewall).state = .fail ∧ s'.events.length = 9 ∧
      ∃ events checks, s'.events = [] ++ events ∧ Concluded true (-1) report events ∧
        Consists calls checks ∧ Diagnosed checks s'.raised report := by
  let well := (true, false)
  refine ⟨?_, ?_⟩
  · have hexec : exec installed [well, (true, true), well, well, well, well, well] (fpDiagnosticRun true)
      ⟨false, []⟩ = (.ret (-1, _), _) := rfl
    have hsteps := steps_installed hexec
    exact ⟨_, _, _, hsteps, rfl, rfl, fpDiagnosticRun_concluded _ _ _ _ _ _ hsteps⟩
  · have hexec : exec installed (List.replicate 14 well ++ [(false, false), well, well]) (fpDiagnosticRun true)
      ⟨false, []⟩ = (.ret (-1, _), _) := rfl
    have hsteps := steps_installed hexec
    exact ⟨_, _, _, hsteps, rfl, rfl, rfl, fpDiagnosticRun_concluded _ _ _ _ _ _ hsteps⟩

end FreeProxy.Diagnose
