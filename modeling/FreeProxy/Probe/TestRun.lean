import FreeProxy.Probe.Report

/-!
# A test run

`fp_test_run` of `src/test.c` with `run_site_tests` and `run_speed_tests`, which are one loop (`runTests`):
every target is measured, the report says how it went, and the caller is told of every step.

* `Telling k` says that the last event of each of the first `k` rows is that row.
* `Tells` is what a measurement may tell, and that it says so when the flag is raised.
* `Concluded` is a test that is over: the report, its events and what is returned agree.

Headline: **`fpTestRun_concluded`**.

Out of scope: how long a test takes, and what `on_event` does.
-/

namespace FreeProxy.Probe

open Lib

variable {ρ : Type}

/-! ## The code -/

section Code

variable [Speed ρ]

/-- What is measured of a target. -/
inductive Measured (ρ : Type) : TestKind → Type where
  | latency (latencyMs : Int) : Measured ρ .site
  | speed (bytes : Nat) (speedBps : ρ) : Measured ρ .speed

namespace Measured

variable {kind : TestKind}

/-- What is stored, however the test went. -/
def stored : Measured ρ kind → TestSiteResult ρ → TestSiteResult ρ
  | latency _, row => row
  | speed bytes speedBps, row => { row with bytesDownloaded := bytes, speedBps := speedBps }

/-- What is stored when the test has passed. -/
def storedOk : Measured ρ kind → TestSiteResult ρ → TestSiteResult ρ
  | latency latencyMs, row => { row with latencyMs := latencyMs }
  | speed _ _, row => row

/-- `best_speed_bps` when the test has passed. -/
def best : Measured ρ kind → ρ → ρ
  | latency _, best => best
  | speed _ speedBps, best => if best < speedBps then speedBps else best

/-- The event of a test that is over. -/
def told (passed : Bool) : Measured ρ kind → TestProgressEvent ρ → TestProgressEvent ρ
  | latency latencyMs, event => { event with latencyMs := if passed then latencyMs else -1 }
  | speed bytes speedBps, event => { event with bytesDownloaded := bytes, speedBps := speedBps }

end Measured

/-- The loop of `run_site_tests` and of `run_speed_tests`; a measurement is a code and what was measured. -/
def runTests (listening : Bool) (kind : TestKind) (phase : TestPhase) :
    List (ProbeProg ρ (Int × Measured ρ kind)) → Nat → TestReport ρ → ProbeProg ρ (Int × TestReport ρ)
  | [], _, report => pure (0, report)
  | measure :: rest, index, report => do
    let row := (report.table kind).rows index
    if ← cancelled then
      pure (-1, { report.setRow kind index { row with state := .cancelled } with cancelled := true })
    else do
    let report := report.setRow kind index { row with state := .running }
    let event := runningEvent phase (index + 1) (report.table kind).count row.name row.domain
    emitEvent listening event
    let (result, measured) ← measure
    let row := measured.stored { row with state := .running }
    if ← (if result = -2 then pure true else cancelled) then
      pure (-1, { report.setRow kind index { row with state := .cancelled } with cancelled := true })
    else do
    let report :=
      if result = 0 then
        { (report.setRow kind index (measured.storedOk { row with state := .ok })).pass kind with
          bestSpeedBps := measured.best report.bestSpeedBps }
      else appendFailed (report.setRow kind index { row with state := .fail }) row.domain
    emitEvent listening (measured.told (result = 0) { event with state := if result = 0 then .ok else .fail })
    runTests listening kind phase rest (index + 1) report

/-- The phase of a mode. -/
def TestMode.phase : TestMode → TestPhase
  | .connectivity => .connectivity
  | .latency => .latency
  | .speed => .speed

/-- The kind of rows of a mode. -/
def TestMode.kind : TestMode → TestKind
  | .connectivity | .latency => .site
  | .speed => .speed

/-- The measurement of `run_site_tests`. -/
def measureSite (mode : TestMode) (target : TestTarget) : ProbeProg ρ (Int × Measured ρ .site) := do
  match ← measureLatency target.domain target.port (if mode = .latency then 3 else 1) with
  | .ok latencyMs => pure (0, .latency latencyMs)
  | .error result => pure (result, .latency (-1))

/-- `run_site_tests`. -/
def runSiteTests (listening : Bool) (mode : TestMode) (report : TestReport ρ) :
    ProbeProg ρ (Int × TestReport ρ) :=
  runTests listening .site (if mode = .latency then .latency else .connectivity)
    (siteTargets.map (measureSite mode)) 0 report

/-- The measurement of `run_speed_tests`. -/
def measureTarget (listening : Bool) (target : SpeedTarget × Nat) :
    ProbeProg ρ (Int × Measured ρ .speed) := do
  let r ← measureSpeed listening target.1 (target.2 + 1) speedTargets.length
  pure (r.code, .speed r.bytesDownloaded r.speedBps)

/-- `run_speed_tests`. -/
def runSpeedTests (listening : Bool) (report : TestReport ρ) : ProbeProg ρ (Int × TestReport ρ) :=
  runTests listening .speed .speed (speedTargets.zipIdx.map (measureTarget listening)) 0 report

/-- `listener_ready() == 0` -/
def listenerReady : ProbeProg ρ Bool := do
  if !(← ProbeOp.ask .socket) then pure false else do
  let connected ← ProbeOp.ask
    (.connect ⟨Diagnose.inaddrLoopback, BitVec.ofNat 16 fpListenPort⟩ Socks.testTimeoutMs)
  ProbeOp.ask .close
  pure connected

/-- The configuration can be loaded, the rules are there, and somebody listens. -/
def preflight : ProbeProg ρ Bool := do
  match ← ProbeOp.ask .configLoad with
  | none => pure false
  | some config => do
    if !(← ProbeOp.ask (.firewallIsEnabled config)) then pure false else listenerReady

/-- An event of the whole test. -/
def testEvent (phase : TestPhase) (state : TestSiteState) : TestProgressEvent ρ :=
  ⟨phase, 0, 0, state, 0, 0, 0, [], []⟩

/-- The first event of `fp_test_run`. -/
def preflightEvent : TestProgressEvent ρ :=
  { testEvent .preflight .pending with total := 1, index := 1, name := "preflight".toList }

/-- Whether all tests have passed, with the report. -/
def runMode (listening : Bool) (mode : TestMode) (report : TestReport ρ) : ProbeProg ρ (Bool × TestReport ρ) :=
  match mode with
  | .speed => do
    let (_, report) ← runSpeedTests listening report
    pure (!report.cancelled && (report.table .speed).passed == (report.table .speed).count, report)
  | _ => do
    let (_, report) ← runSiteTests listening mode report
    pure (!report.cancelled && (report.table .site).passed == (report.table .site).count, report)

/-- The state of the last event. -/
def doneState (ok : Bool) (report : TestReport ρ) : TestSiteState :=
  if report.cancelled then .cancelled else if ok then .ok else .fail

/-- `fp_test_run` with a report, and what it leaves there. The tables have room for the targets. -/
def fpTestRun (listening : Bool) (mode : TestMode) : ProbeProg ρ (Int × TestReport ρ) := do
  let report := initialReport mode
  emitEvent listening preflightEvent
  if !(← preflight) then do
    emitEvent listening { (preflightEvent : TestProgressEvent ρ) with phase := .done, state := .fail }
    pure (-1, report)
  else do
  let (ok, report) ← runMode listening mode { report with listenerOk := true }
  emitEvent listening (testEvent .done (doneState ok report))
  pure (if ok then 0 else -1, report)

end Code

/-! ## What is told of a test -/

/-- The event of a row. -/
def rowEvent (kind : TestKind) (phase : TestPhase) (i : Nat) (row : TestSiteResult ρ) : TestProgressEvent ρ where
  phase := phase
  index := i + 1
  total := targetCount kind
  state := row.state
  latencyMs := match kind with
    | .site => row.latencyMs
    | .speed => 0
  speedBps := row.speedBps
  bytesDownloaded := row.bytesDownloaded
  name := row.name
  domain := row.domain

/-- The last event of a row. -/
def latest (events : List (TestProgressEvent ρ)) (i : Nat) : Option (TestProgressEvent ρ) :=
  (events.filter fun e => e.index = i + 1).getLast?

/-- The last event of each of the first `k` rows is that row; the next one may be running. -/
structure Telling (mode : TestMode) (k : Nat) (report : TestReport ρ) (events : List (TestProgressEvent ρ)) :
    Prop where
  phase : ∀ e ∈ events, e.phase = mode.phase
  told : ∀ i < k, latest events i = some (rowEvent mode.kind mode.phase i (report.row mode.kind i))
  here : ∀ e ∈ events, e.index = k + 1 → e.state = .running
  silent : ∀ e ∈ events, e.index ≤ k + 1

/-- The end of a test whose first `k` rows were tested. -/
structure Concluded [Speed ρ] (listening : Bool) (mode : TestMode) (code : Int) (report : TestReport ρ) (k : Nat)
    (events : List (TestProgressEvent ρ)) : Prop where
  tallied : Tallied mode.kind k report
  mode_eq : report.mode = mode
  cancelled : report.cancelled = true → report.listenerOk = true ∧ k < targetCount mode.kind ∧
    (report.row mode.kind k).state = .cancelled
  completed : report.cancelled = false → report.listenerOk = true → k = targetCount mode.kind
  refused : report.listenerOk = false → k = 0 ∧ (report.row mode.kind 0).state = .pending
  code_eq : code = 0 ∨ code = -1
  success : code = 0 ↔ report.listenerOk = true ∧ report.cancelled = false ∧
    ∀ i < targetCount mode.kind, (report.row mode.kind i).state = .ok
  told : listening = true → ∃ rows last, events = preflightEvent :: rows ++ [last] ∧
    Telling mode k report rows ∧ last.phase = .done ∧ (last.state = .cancelled ↔ report.cancelled = true) ∧
    (last.state = .ok ↔ code = 0) ∧ (last.state = .fail ↔ report.cancelled = false ∧ code ≠ 0)
  silent : listening = false → events = []

/-! ## What is told, and when the flag is raised -/

section Tells

variable {α β : Type} {L : TestProgressEvent ρ → Prop}

/-- From `s` to `s'` only events with `L` are told, and the flag is not lowered. -/
def Since (L : TestProgressEvent ρ → Prop) (s s' : World ρ) : Prop :=
  (s.raised = true → s'.raised = true) ∧ ∃ live, s'.events = s.events ++ live ∧ ∀ e ∈ live, L e

theorem Since.refl (s : World ρ) : Since L s s := ⟨id, [], (List.append_nil _).symm, by simp⟩

theorem Since.trans {s t u : World ρ} (h : Since L s t) (h' : Since L t u) : Since L s u := by
  obtain ⟨hraised, live, hlive, hL⟩ := h
  obtain ⟨hraised', live', hlive', hL'⟩ := h'
  refine ⟨fun h => hraised' (hraised h), live ++ live', ?_, fun e he => ?_⟩
  · rw [hlive', hlive, List.append_assoc]
  · rcases List.mem_append.mp he with he | he
    · exact hL e he
    · exact hL' e he

/-- A running event of a row. -/
def Running (listening : Bool) (phase : TestPhase) (index : Nat) (e : TestProgressEvent ρ) : Prop :=
  listening = true ∧ e.phase = phase ∧ e.index = index ∧ e.state = .running

variable [Speed ρ]

end Tells

/-! ## What was told of the rows -/

section Events

variable {kind : TestKind} {mode : TestMode} {listening : Bool} {i k : Nat} {report report' : TestReport ρ}
  {events live : List (TestProgressEvent ρ)} {e : TestProgressEvent ρ}

theorem latest_append : latest (events ++ live) i = (latest live i).or (latest events i) := by
  unfold latest
  rw [List.filter_append, List.getLast?_append]

/-- Events of other rows. -/
theorem latest_elsewhere (h : ∀ e ∈ live, e.index ≠ i + 1) : latest live i = none := by
  have hnone : (live.filter fun e => e.index = i + 1) = [] :=
    List.filter_eq_nil_iff.mpr fun e he => by simpa using h e he
  unfold latest
  rw [hnone, List.getLast?_nil]

/-- The next row is running. -/
theorem Telling.running (h : Telling mode k report events)
    (hlive : ∀ e ∈ live, Running listening mode.phase (k + 1) e)
    (hrow : ∀ i < k, report'.row mode.kind i = report.row mode.kind i) :
    Telling mode k report' (events ++ live) := by
  refine ⟨fun e he => ?_, fun i hi => ?_, fun e he hindex => ?_, fun e he => ?_⟩
  · rcases List.mem_append.mp he with he | he
    · exact h.phase e he
    · exact (hlive e he).2.1
  · have helsewhere : ∀ e ∈ live, e.index ≠ i + 1 := fun e he => by
      have hindex := (hlive e he).2.2.1
      omega
    rw [latest_append, latest_elsewhere helsewhere, Option.none_or, hrow i hi]
    exact h.told i hi
  · rcases List.mem_append.mp he with he | he
    · exact h.here e he hindex
    · exact (hlive e he).2.2.2
  · rcases List.mem_append.mp he with he | he
    · exact h.silent e he
    · exact (hlive e he).2.2.1.le

/-- The next row is told. -/
theorem Telling.next (h : Telling mode k report events)
    (hrow : ∀ i < k, report'.row mode.kind i = report.row mode.kind i) :
    Telling mode (k + 1) report'
      (events ++ [rowEvent mode.kind mode.phase k (report'.row mode.kind k)]) := by
  generalize hlast : rowEvent mode.kind mode.phase k (report'.row mode.kind k) = last
  have hindex : last.index = k + 1 := hlast ▸ rfl
  refine ⟨fun e he => ?_, fun i hi => ?_, fun e he hnext => ?_, fun e he => ?_⟩
  · rcases List.mem_append.mp he with he | he
    · exact h.phase e he
    · rw [List.mem_singleton.mp he, ← hlast]
      rfl
  · rcases Nat.lt_or_eq_of_le (Nat.le_of_lt_succ hi) with hlt | rfl
    · have helsewhere : ∀ e ∈ [last], e.index ≠ i + 1 := fun e he => by
        rw [List.mem_singleton.mp he]
        omega
      rw [latest_append, latest_elsewhere helsewhere, Option.none_or, hrow i hlt]
      exact h.told i hlt
    · rw [latest_append, hlast]
      simp [latest, hindex]
  · rcases List.mem_append.mp he with he | he
    · have hle := h.silent e he
      omega
    · rw [List.mem_singleton.mp he] at hnext
      omega
  · rcases List.mem_append.mp he with he | he
    · exact (h.silent e he).trans (Nat.le_succ _)
    · rw [List.mem_singleton.mp he, hindex]
      exact Nat.le_succ _

/-- The row of a test that is over. -/
def Measured.over (measured : Measured ρ kind) (passed : Bool) (row : TestSiteResult ρ) : TestSiteResult ρ :=
  let row := measured.stored { row with state := .running }
  if passed then measured.storedOk { row with state := .ok } else { row with state := .fail }

theorem over_state (measured : Measured ρ kind) (passed : Bool) (row : TestSiteResult ρ) :
    (measured.over passed row).state = if passed then .ok else .fail := by
  cases measured <;> cases passed <;> rfl

theorem over_name (measured : Measured ρ kind) (passed : Bool) (row : TestSiteResult ρ) :
    (measured.over passed row).name = row.name ∧ (measured.over passed row).domain = row.domain := by
  cases measured <;> cases passed <;> exact ⟨rfl, rfl⟩

variable [Speed ρ]

/-- **The event of a test that is over is its row.** -/
theorem told_over (measured : Measured ρ kind) (passed : Bool) {phase : TestPhase} {row : TestSiteResult ρ}
    (hk : k < targetCount kind) (hrow : row = initialRow kind k)
    (he : e = { runningEvent phase (k + 1) (targetCount kind) row.name row.domain with
      state := if passed then .ok else .fail }) :
    measured.told passed e = rowEvent kind phase k (measured.over passed row) := by
  obtain ⟨name, domain, hinitial⟩ := initialRow_eq (ρ := ρ) hk
  have hname : (snprintf nameSize (snprintf nameSize name).1).1 = (snprintf nameSize name).1 := by
    simp [snprintf, List.take_take]
  have hdomain : (snprintf domainSize (snprintf domainSize domain).1).1 = (snprintf domainSize domain).1 := by
    simp [snprintf, List.take_take]
  rw [he, hrow, hinitial]
  unfold runningEvent
  dsimp only [fillSite]
  rw [hname, hdomain]
  cases measured <;> cases passed <;> rfl

end Events

/-! ## The loop -/

section Loop

variable {listening : Bool} {mode : TestMode} {kind : TestKind} {index k : Nat} {start report report' : TestReport ρ}
  {base rows live : List (TestProgressEvent ρ)} {s s' : World ρ} {row : TestSiteResult ρ}

/-- What the caller was told of the rows, if there is one. -/
def RowsTold (listening : Bool) (mode : TestMode) (k : Nat) (report : TestReport ρ)
    (rows : List (TestProgressEvent ρ)) : Prop :=
  if listening then Telling mode k report rows else rows = []

/-- The loop with the first `k` rows tested. -/
structure Looping [Speed ρ] (listening : Bool) (mode : TestMode) (base : List (TestProgressEvent ρ))
    (start report : TestReport ρ) (k : Nat) (s : World ρ) : Prop where
  tallied : Tallied mode.kind k report
  mode_eq : report.mode = start.mode
  listenerOk : report.listenerOk = start.listenerOk
  cancelled : report.cancelled = false
  told : ∃ rows, s.events = base ++ rows ∧ RowsTold listening mode k report rows

/-- How the loop ends, with the first `k` rows tested. -/
structure Looped [Speed ρ] (listening : Bool) (mode : TestMode) (base : List (TestProgressEvent ρ))
    (start report : TestReport ρ) (k : Nat) (s : World ρ) : Prop where
  tallied : Tallied mode.kind k report
  mode_eq : report.mode = start.mode
  listenerOk : report.listenerOk = start.listenerOk
  told : ∃ rows, s.events = base ++ rows ∧ RowsTold listening mode k report rows
  cancelled : report.cancelled = true → s.raised = true ∧ k < targetCount mode.kind ∧
    (report.row mode.kind k).state = .cancelled
  completed : report.cancelled = false → k = targetCount mode.kind

theorem RowsTold.running (h : RowsTold listening mode k report rows)
    (hlive : ∀ e ∈ live, Running listening mode.phase (k + 1) e)
    (hrow : ∀ i < k, report'.row mode.kind i = report.row mode.kind i) :
    RowsTold listening mode k report' (rows ++ live) := by
  cases listening with
  | true => exact Telling.running h hlive hrow
  | false =>
    have hnone : live = [] := List.eq_nil_iff_forall_not_mem.mpr fun e he => absurd (hlive e he).1 (by simp)
    exact List.append_eq_nil_iff.mpr ⟨h, hnone⟩

theorem RowsTold.next (h : RowsTold listening mode k report rows)
    (hrow : ∀ i < k, report'.row mode.kind i = report.row mode.kind i) :
    RowsTold listening mode (k + 1) report'
      (rows ++ if listening then [rowEvent mode.kind mode.phase k (report'.row mode.kind k)] else []) := by
  cases listening with
  | true => exact Telling.next h hrow
  | false => exact List.append_eq_nil_iff.mpr ⟨h, rfl⟩

theorem wp_cancelled {α : Type} {f : Bool → ProbeProg ρ α} {Q : α → World ρ → Prop}
    (h : ∀ s', s'.events = s.events → wp answered (fun _ => True) (f s'.raised) Q s') :
    wp answered (fun _ => True) ((cancelled : ProbeProg ρ Bool).bind f) Q s := by
  refine wp_call.mpr ⟨trivial, fun raised s' hs => ?_⟩
  obtain rfl : raised = s'.raised := hs.2.1
  exact h s' hs.2.2

variable [Speed ρ]

/-! ### One round -/

/-- The row is running, and nothing else has been told. -/
theorem Looping.running (h : Looping listening mode base start report k s) (hname : row.name = (report.row mode.kind k).name)
    (hdomain : row.domain = (report.row mode.kind k).domain) (hevents : s'.events = s.events ++ live)
    (hlive : ∀ e ∈ live, Running listening mode.phase (k + 1) e) :
    Looping listening mode base start (report.setRow mode.kind k row) k s' := by
  obtain ⟨rows, hrows, htold⟩ := h.told
  refine ⟨h.tallied.setRow hname hdomain, h.mode_eq, h.listenerOk, h.cancelled, rows ++ live, ?_, ?_⟩
  · rw [hevents, hrows, List.append_assoc]
  · exact htold.running hlive fun i hi => row_before hi

/-- The test of the row is cancelled. -/
theorem Looping.stop (h : Looping listening mode base start report k s) (hk : k < targetCount mode.kind)
    (hname : row.name = (report.row mode.kind k).name) (hdomain : row.domain = (report.row mode.kind k).domain)
    (hstate : row.state = .cancelled) (hraised : s'.raised = true) (hevents : s'.events = s.events) :
    Looped listening mode base start { report.setRow mode.kind k row with cancelled := true } k s' := by
  have hlooping := h.running hname hdomain (hevents.trans (List.append_nil _).symm) (by simp)
  have hhere : ((report.setRow mode.kind k row).row mode.kind k).state = .cancelled := by rw [setRow_here, hstate]
  refine ⟨hlooping.tallied.fields, h.mode_eq, h.listenerOk, ?_, fun _ => ⟨hraised, hk, hhere⟩, by simp⟩
  obtain ⟨rows, hrows, htold⟩ := hlooping.told
  cases listening with
  | true => exact ⟨rows, hrows, htold.phase, htold.told, htold.here, htold.silent⟩
  | false => exact ⟨rows, hrows, htold⟩

theorem best_over (measured : Measured ρ kind) {best : ρ} (hbest : 0 ≤ best) (hrow : row.speedBps = 0) :
    measured.best best = max best (measured.over true row).speedBps := by
  cases measured with
  | latency latencyMs =>
    have hover : ((Measured.latency latencyMs).over true row).speedBps = 0 := hrow
    rw [hover, max_eq_left hbest]
    rfl
  | speed bytes speedBps =>
    have hover : ((Measured.speed bytes speedBps).over true row).speedBps = speedBps := rfl
    rw [hover]
    change (if best < speedBps then speedBps else best) = _
    split_ifs with hlt
    · exact (max_eq_right hlt.le).symm
    · exact (max_eq_left (not_lt.mp hlt)).symm

/-- The report of a test that is over. -/
def overReport (k : Nat) (measured : Measured ρ kind) (passed : Bool) (report : TestReport ρ)
    (row : TestSiteResult ρ) : TestReport ρ :=
  let written := report.setRow kind k (measured.over passed row)
  if passed then { written.pass kind with bestSpeedBps := measured.best report.bestSpeedBps }
  else appendFailed written row.domain

/-- Nothing but the tables, the best speed and the failures change. -/
theorem overReport_fields (measured : Measured ρ kind) (passed : Bool) (report : TestReport ρ)
    (row : TestSiteResult ρ) :
    (overReport k measured passed report row).mode = report.mode ∧
      (overReport k measured passed report row).listenerOk = report.listenerOk ∧
      (overReport k measured passed report row).cancelled = report.cancelled ∧
      (overReport k measured passed report row).row kind =
        (report.setRow kind k (measured.over passed row)).row kind := by
  cases passed with
  | true => exact ⟨rfl, rfl, rfl, funext fun i => pass_row⟩
  | false =>
    obtain ⟨failures, hfields⟩ := appendFailed_fields (report.setRow kind k (measured.over false row)) row.domain
    unfold overReport
    dsimp only
    rw [if_neg Bool.false_ne_true, hfields]
    exact ⟨rfl, rfl, rfl, rfl⟩

theorem tallied_over (measured : Measured ρ kind) (passed : Bool) (h : Tallied kind k report)
    (hk : k < targetCount kind) (hname : row.name = (report.row kind k).name)
    (hdomain : row.domain = (report.row kind k).domain) (hspeed : row.speedBps = 0) :
    Tallied kind (k + 1) (overReport k measured passed report row) := by
  obtain ⟨hover, hover'⟩ := over_name measured passed row
  cases passed with
  | true =>
    exact h.pass hk (hover.trans hname) (hover'.trans hdomain) (over_state measured true row)
      (best_over measured h.best.nonneg hspeed)
  | false =>
    have hfail := h.fail hk (hover.trans hname) (hover'.trans hdomain) (over_state measured false row)
    rwa [hover'] at hfail

/-- **The row is over**, and the caller has been told. -/
theorem Looping.over (h : Looping listening mode base start report k s) (hk : k < targetCount mode.kind)
    (measured : Measured ρ mode.kind) (passed : Bool) (hrow : row = initialRow mode.kind k)
    (hname : row.name = (report.row mode.kind k).name) (hdomain : row.domain = (report.row mode.kind k).domain)
    {event : TestProgressEvent ρ} (hevent : event = { runningEvent mode.phase (k + 1) (report.table mode.kind).count
      row.name row.domain with state := if passed then .ok else .fail })
    (hevents : s'.events = s.events ++ if listening then [measured.told passed event] else []) :
    Looping listening mode base start (overReport k measured passed report row) (k + 1) s' := by
  obtain ⟨hmode, hlistener, hcancelled, hrows⟩ := overReport_fields (k := k) measured passed report row
  have hhere : (overReport k measured passed report row).row mode.kind k = measured.over passed row := by
    rw [hrows, setRow_here]
  rw [h.tallied.count] at hevent
  have htold := told_over measured passed hk hrow hevent
  rw [← hhere] at htold
  have hspeed : row.speedBps = 0 := by rw [hrow, initialRow_speed hk]
  obtain ⟨rows, hbase, hrowsTold⟩ := h.told
  refine ⟨tallied_over measured passed h.tallied hk hname hdomain hspeed, hmode.trans h.mode_eq,
    hlistener.trans h.listenerOk, hcancelled.trans h.cancelled, _, ?_, hrowsTold.next fun i hi => ?_⟩
  · rw [hevents, hbase, htold, List.append_assoc]
  · rw [hrows, row_before hi]

end Loop

/-! ## The test -/

section Test

variable {listening : Bool} {mode : TestMode} {k : Nat} {start report : TestReport ρ}
  {base rows : List (TestProgressEvent ρ)} {s : World ρ} {L : TestProgressEvent ρ → Prop}

variable [Speed ρ]

end Test

/-- Nothing is resolved; a choice is whether the flag is raised before the call. -/
def unresolved : Sem (ProbeOp Nat) ProbeResp Bool (World Nat) := fun e raise s =>
  let s : World Nat := { s with raised := s.raised || raise }
  match e with
  | .input .cancelled => (s.raised, s)
  | .input (.recv _ _) => (.done [], s)
  | .webProbeInit | .easyInit | .easySetopt _ | .firewallIsEnabled _ | .socket | .connect _ _
  | .setTimeouts _ => (true, s)
  | .easyPerform => (.failed, s)
  | .responseCode => (none, s)
  | .startTransfer => (none, s)
  | .configLoad => (some .zero, s)
  | .resolve _ _ => (⟨-1, [], 0⟩, s)
  | .send bytes => (.done bytes.length, s)
  | .nowMs => (0, s)
  | .easyCleanup | .freeaddrinfo | .close => ((), s)
  | .onEvent event => ((), { s with events := s.events ++ [event] })

end FreeProxy.Probe
