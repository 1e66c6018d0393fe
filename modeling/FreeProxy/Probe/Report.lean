import FreeProxy.Probe.Speed
import Mathlib.Algebra.Order.BigOperators.Group.List
import Mathlib.Data.List.GetD

/-!
# The report of a test

The targets of `src/test.c`, and `struct fp_test_report` with `fill_site` and `append_failed`.

`Tallied k` is a report of which `k` rows are tested: it counts those that have passed, names those that have
not, and keeps the highest speed. A row that has passed (`Tallied.pass`) and one that has failed
(`Tallied.fail`) keep it so. `append_failed` cuts what does not fit; the domains of all targets fit.

Out of scope: how a report is drawn.
-/

namespace FreeProxy.Probe

open Lib

/-! ## The targets -/

/-- `struct test_target`. -/
structure TestTarget where
  name : List Char
  domain : List Char
  port : Nat

/-- `SITE_TARGETS`. -/
def siteTargets : List TestTarget :=
  [⟨"GitHub".toList, "github.com".toList, 443⟩,
    ⟨"GitLab".toList, "gitlab.com".toList, 443⟩,
    ⟨"OpenAI API".toList, "api.openai.com".toList, 443⟩,
    ⟨"ChatGPT".toList, "chatgpt.com".toList, 443⟩,
    ⟨"Google".toList, "www.google.com".toList, 443⟩,
    ⟨"YouTube".toList, "www.youtube.com".toList, 443⟩,
    ⟨"Wikipedia".toList, "en.wikipedia.org".toList, 443⟩,
    ⟨"X".toList, "x.com".toList, 443⟩,
    ⟨"Reddit".toList, "www.reddit.com".toList, 443⟩,
    ⟨"Discord".toList, "discord.com".toList, 443⟩,
    ⟨"Telegram".toList, "web.telegram.org".toList, 443⟩,
    ⟨"Cloudflare".toList, "www.cloudflare.com".toList, 443⟩,
    ⟨"Microsoft".toList, "www.microsoft.com".toList, 443⟩,
    ⟨"Apple".toList, "www.apple.com".toList, 443⟩,
    ⟨"Amazon".toList, "www.amazon.com".toList, 443⟩,
    ⟨"Netflix".toList, "www.netflix.com".toList, 443⟩,
    ⟨"Spotify".toList, "www.spotify.com".toList, 443⟩,
    ⟨"Docker Hub".toList, "hub.docker.com".toList, 443⟩,
    ⟨"npm".toList, "registry.npmjs.org".toList, 443⟩,
    ⟨"PyPI".toList, "pypi.org".toList, 443⟩,
    ⟨"Hugging Face".toList, "huggingface.co".toList, 443⟩,
    ⟨"Stack Overflow".toList, "stackoverflow.com".toList, 443⟩,
    ⟨"Vercel".toList, "vercel.com".toList, 443⟩,
    ⟨"Ubuntu".toList, "archive.ubuntu.com".toList, 80⟩,
    ⟨"Ubuntu Security".toList, "security.ubuntu.com".toList, 80⟩]

/-- `SPEED_TARGETS`. -/
def speedTargets : List SpeedTarget :=
  [⟨"Tele2 10MB".toList, "speedtest.tele2.net".toList, 80, "/10MB.zip".toList⟩,
    ⟨"OVH 10MB".toList, "proof.ovh.net".toList, 80, "/files/10Mb.dat".toList⟩,
    ⟨"CacheFly 10MB".toList, "cachefly.cachefly.net".toList, 80, "/10mb.test".toList⟩]

/-- `FP_TEST_MAX_SITES`. -/
def fpTestMaxSites : Nat := 25

/-- `FP_TEST_MAX_SPEED`. -/
def fpTestMaxSpeed : Nat := 3

/-- `FP_TEST_FAILURES_SIZE`. -/
def fpTestFailuresSize : Nat := 1024

/-! ## The report -/

/-- `struct fp_test_site_result`. -/
structure TestSiteResult (ρ : Type) where
  name : List Char
  domain : List Char
  state : TestSiteState
  latencyMs : Int
  speedBps : ρ
  bytesDownloaded : Nat

/-- The two tables of a report. -/
inductive TestKind where
  /-- `sites`, `site_count` and `sites_passed` -/
  | site
  /-- `speed`, `speed_count` and `speed_passed` -/
  | speed
  deriving DecidableEq

/-- The rows of one kind of test, with their counters. -/
structure TestTable (ρ : Type) where
  rows : Nat → TestSiteResult ρ
  count : Nat
  passed : Nat

/-- `struct fp_test_report`. -/
structure TestReport (ρ : Type) where
  mode : TestMode
  listenerOk : Bool
  cancelled : Bool
  table : TestKind → TestTable ρ
  bestSpeedBps : ρ
  failures : List Char

variable {ρ : Type}

/-- `report->sites[index] = row`, or `report->speed[index] = row`. -/
def TestReport.setRow (report : TestReport ρ) (kind : TestKind) (index : Nat) (row : TestSiteResult ρ) :
    TestReport ρ :=
  let rows := Function.update (report.table kind).rows index row
  { report with table := Function.update report.table kind { report.table kind with rows := rows } }

/-- `++report->sites_passed`, or `++report->speed_passed`. -/
def TestReport.pass (report : TestReport ρ) (kind : TestKind) : TestReport ρ :=
  let passed := (report.table kind).passed + 1
  { report with table := Function.update report.table kind { report.table kind with passed := passed } }

/-- `append_failed`: the name goes behind those that are there, cut to what is left of the buffer. -/
def appendFailed (report : TestReport ρ) (name : List Char) : TestReport ρ :=
  let used := report.failures.length
  if used < fpTestFailuresSize then
    let separator := if used = 0 then [] else [',', ' ']
    { report with failures := report.failures ++ (snprintf (fpTestFailuresSize - used) (separator ++ name)).1 }
  else report

section Initial

variable [Speed ρ]

/-- `fill_site`. -/
def fillSite (name domain : List Char) : TestSiteResult ρ where
  name := (snprintf nameSize name).1
  domain := (snprintf domainSize domain).1
  state := .pending
  latencyMs := -1
  speedBps := 0
  bytesDownloaded := 0

/-- A row that `memset` has left. -/
def blankRow : TestSiteResult ρ := ⟨[], [], .pending, 0, 0, 0⟩

/-- A table with a row for each target. -/
def filledTable (rows : List (TestSiteResult ρ)) : TestTable ρ := ⟨fun i => rows.getD i blankRow, rows.length, 0⟩

/-- The rows of the site tests before their first test. -/
def siteRows : List (TestSiteResult ρ) := siteTargets.map fun target => fillSite target.name target.domain

/-- The rows of the speed tests before their first test. -/
def speedRows : List (TestSiteResult ρ) := speedTargets.map fun target => fillSite target.name target.host

/-- The rows of a kind of test before their first test. -/
def initialRows : TestKind → List (TestSiteResult ρ)
  | .site => siteRows
  | .speed => speedRows

/-- The report before the first event. -/
def initialReport (mode : TestMode) : TestReport ρ where
  mode := mode
  listenerOk := false
  cancelled := false
  table kind := filledTable (initialRows kind)
  bestSpeedBps := 0
  failures := []

end Initial

/-- The early return of `fp_test_run` is not taken. -/
theorem targets_fit : siteTargets.length ≤ fpTestMaxSites ∧ speedTargets.length ≤ fpTestMaxSpeed := by
  decide

/-! ## What a finished test should be -/

/-- A row of the report. -/
abbrev TestReport.row (report : TestReport ρ) (kind : TestKind) (i : Nat) : TestSiteResult ρ :=
  (report.table kind).rows i

/-- `site_count` and `speed_count`. -/
def targetCount : TestKind → Nat
  | .site => siteTargets.length
  | .speed => speedTargets.length

/-- `", "` between the names. -/
def failuresText (names : List (List Char)) : List Char := [',', ' '].intercalate names

/-- The domains of the first `k` rows that have failed. -/
def failedDomains (k : Nat) (row : Nat → TestSiteResult ρ) : List (List Char) :=
  ((List.range k).filter fun i => (row i).state = .fail).map fun i => (row i).domain

section Spec

variable [Speed ρ]

/-- The row of a target before its test. -/
def initialRow (kind : TestKind) (i : Nat) : TestSiteResult ρ := (initialRows kind).getD i blankRow

/-- `best` is the highest speed of the first `k` rows that have passed. -/
structure Best (k : Nat) (row : Nat → TestSiteResult ρ) (best : ρ) : Prop where
  nonneg : 0 ≤ best
  le : ∀ i < k, (row i).state = .ok → (row i).speedBps ≤ best
  attained : best = 0 ∨ ∃ i < k, (row i).state = .ok ∧ (row i).speedBps = best

/-- The first `k` rows of a report are tested, and those behind the next one are as they were. -/
structure Tallied (kind : TestKind) (k : Nat) (report : TestReport ρ) : Prop where
  le : k ≤ targetCount kind
  count : (report.table kind).count = targetCount kind
  named : ∀ i, (report.row kind i).name = (initialRow kind i : TestSiteResult ρ).name ∧
    (report.row kind i).domain = (initialRow kind i : TestSiteResult ρ).domain
  tested : ∀ i < k, (report.row kind i).state = .ok ∨ (report.row kind i).state = .fail
  pending : ∀ i, k < i → report.row kind i = initialRow kind i
  passed : (report.table kind).passed = (List.range k).countP fun i => (report.row kind i).state = .ok
  failures : report.failures = failuresText (failedDomains k (report.row kind))
  best : Best k (report.row kind) report.bestSpeedBps
  other : ∀ other, other ≠ kind → report.table other = filledTable (initialRows other)

end Spec

/-! ## Rows -/

section Rows

variable {kind other : TestKind} {report : TestReport ρ} {i j : Nat} {row : TestSiteResult ρ}

@[simp] theorem setRow_here : (report.setRow kind i row).row kind i = row := by
  simp [TestReport.setRow, TestReport.row]

theorem setRow_elsewhere (h : j ≠ i) : (report.setRow kind i row).row kind j = report.row kind j := by
  simp [TestReport.setRow, TestReport.row, h]

theorem setRow_other (h : other ≠ kind) : (report.setRow kind i row).table other = report.table other := by
  simp [TestReport.setRow, h]

@[simp] theorem setRow_count : ((report.setRow kind i row).table kind).count = (report.table kind).count := by
  simp [TestReport.setRow]

@[simp] theorem setRow_passed : ((report.setRow kind i row).table kind).passed = (report.table kind).passed := by
  simp [TestReport.setRow]

@[simp] theorem pass_row : (report.pass kind).row kind i = report.row kind i := by
  simp [TestReport.pass, TestReport.row]

theorem pass_other (h : other ≠ kind) : (report.pass kind).table other = report.table other := by
  simp [TestReport.pass, h]

@[simp] theorem pass_count : ((report.pass kind).table kind).count = (report.table kind).count := by
  simp [TestReport.pass]

@[simp] theorem pass_passed : ((report.pass kind).table kind).passed = (report.table kind).passed + 1 := by
  simp [TestReport.pass]

/-- Nothing but the failures changes. -/
theorem appendFailed_fields (report : TestReport ρ) (name : List Char) : ∃ failures, appendFailed report name =
    { report with failures := failures } := by
  unfold appendFailed
  by_cases h : report.failures.length < fpTestFailuresSize
  · exact ⟨_, if_pos h⟩
  · exact ⟨_, if_neg h⟩

end Rows

/-! ## The failures -/

section Failures

theorem failuresText_concat {names : List (List Char)} (h : names ≠ []) (name : List Char) :
    failuresText (names ++ [name]) = failuresText names ++ ([',', ' '] ++ name) := by
  induction names with
  | nil => exact absurd rfl h
  | cons first rest ih =>
    cases rest with
    | nil => simp [failuresText, List.intercalate]
    | cons second rest =>
      have hrest := ih (by simp)
      unfold failuresText at hrest ⊢
      rw [List.cons_append, List.cons_append, List.intercalate_cons_cons, ← List.cons_append, hrest,
        List.intercalate_cons_cons]
      simp

theorem failuresText_eq_nil {names : List (List Char)} (hne : ∀ name ∈ names, name ≠ []) :
    failuresText names = [] ↔ names = [] := by
  constructor
  · intro h
    cases names with
    | nil => rfl
    | cons first rest =>
      have hfirst := hne first List.mem_cons_self
      cases rest with
      | nil => simp [failuresText, List.intercalate] at h; exact absurd h hfirst
      | cons second rest =>
        unfold failuresText at h
        rw [List.intercalate_cons_cons] at h
        simp at h
  · rintro rfl
    rfl

theorem failuresText_length (names : List (List Char)) :
    (failuresText names).length ≤ (names.map fun name => name.length + 2).sum := by
  induction names with
  | nil => exact Nat.zero_le _
  | cons first rest ih =>
    cases rest with
    | nil => simp [failuresText, List.intercalate]
    | cons second rest =>
      unfold failuresText at ih ⊢
      rw [List.intercalate_cons_cons, List.length_append, List.length_append, List.map_cons, List.sum_cons]
      simp only [List.length_cons, List.length_nil]
      omega

/-- **A failure is appended whole**, while there is room. -/
theorem appendFailed_failures {report : TestReport ρ} {names : List (List Char)} {name : List Char}
    (h : report.failures = failuresText names) (hne : ∀ name ∈ names, name ≠ [])
    (hroom : (failuresText (names ++ [name])).length < fpTestFailuresSize) :
    appendFailed report name = { report with failures := failuresText (names ++ [name]) } := by
  unfold appendFailed
  by_cases hnil : names = []
  · subst hnil
    have hempty : report.failures = [] := h
    have hname : failuresText ([] ++ [name]) = name := by simp [failuresText, List.intercalate]
    rw [hname] at hroom ⊢
    rw [hempty]
    simp only [List.length_nil, if_true, List.nil_append, Nat.sub_zero]
    rw [if_pos (by decide), snprintf_fits hroom]
  · rw [failuresText_concat hnil] at hroom ⊢
    rw [List.length_append] at hroom
    have hused : report.failures.length ≠ 0 := by
      rw [h]
      exact fun hzero => hnil ((failuresText_eq_nil hne).mp (List.length_eq_zero_iff.mp hzero))
    simp only [if_neg hused]
    rw [h, if_pos (by omega), snprintf_fits (by omega)]

end Failures

/-! ## The targets have room -/

section Targets

variable {kind : TestKind} {i k : Nat} [Speed ρ]

/-- The domains of the rows. -/
def targetDomains : TestKind → List (List Char)
  | .site => siteTargets.map fun target => (snprintf domainSize target.domain).1
  | .speed => speedTargets.map fun target => (snprintf domainSize target.host).1

theorem initialRow_domain (kind : TestKind) (i : Nat) :
    (initialRow kind i : TestSiteResult ρ).domain = (targetDomains kind).getD i [] := by
  have hmap : targetDomains kind = (initialRows kind : List (TestSiteResult ρ)).map TestSiteResult.domain := by
    cases kind with
    | site => simp [targetDomains, initialRows, siteRows, fillSite]
    | speed => simp [targetDomains, initialRows, speedRows, fillSite]
  rw [hmap, show ([] : List Char) = (blankRow : TestSiteResult ρ).domain from rfl, List.getD_map]
  rfl

theorem domain_ne_nil (h : i < targetCount kind) : (initialRow kind i : TestSiteResult ρ).domain ≠ [] := by
  rw [initialRow_domain]
  have hall : ∀ kind, ∀ i < targetCount kind, (targetDomains kind).getD i [] ≠ [] := by
    intro kind
    cases kind <;> decide +kernel
  exact hall kind i h

/-- A row of a target. -/
theorem initialRow_eq (h : i < targetCount kind) : ∃ name domain,
    (initialRow kind i : TestSiteResult ρ) = fillSite name domain := by
  cases kind with
  | site =>
    have hlt : i < siteTargets.length := h
    exact ⟨siteTargets[i].name, siteTargets[i].domain, by simp [initialRow, initialRows, siteRows, hlt]⟩
  | speed =>
    have hlt : i < speedTargets.length := h
    exact ⟨speedTargets[i].name, speedTargets[i].host, by simp [initialRow, initialRows, speedRows, hlt]⟩

theorem initialRow_speed (h : i < targetCount kind) : (initialRow kind i : TestSiteResult ρ).speedBps = 0 := by
  obtain ⟨name, domain, hrow⟩ := initialRow_eq (ρ := ρ) h
  rw [hrow]
  rfl

/-- All domains fit into the failures. -/
theorem targetDomains_fit (kind : TestKind) :
    ((List.range (targetCount kind)).map fun i => ((targetDomains kind).getD i []).length + 2).sum <
      fpTestFailuresSize := by
  cases kind <;> decide +kernel

/-- The failures of tested rows fit. -/
theorem failures_fit {row : Nat → TestSiteResult ρ} (hk : k ≤ targetCount kind)
    (hrow : ∀ i, (row i).domain = (initialRow kind i : TestSiteResult ρ).domain) :
    (failuresText (failedDomains k row)).length < fpTestFailuresSize := by
  have hall : ((failedDomains k row).map fun name => name.length + 2) =
      ((List.range k).filter fun i => (row i).state = .fail).map
        fun i => ((targetDomains kind).getD i []).length + 2 := by
    simp only [failedDomains, List.map_map, Function.comp_def, hrow, initialRow_domain]
  calc (failuresText (failedDomains k row)).length
      ≤ ((failedDomains k row).map fun name => name.length + 2).sum := failuresText_length _
    _ ≤ ((List.range (targetCount kind)).map fun i => ((targetDomains kind).getD i []).length + 2).sum := by
        rw [hall]
        refine List.Sublist.sum_le_sum (List.Sublist.map _ ?_) fun _ _ => Nat.zero_le _
        exact List.filter_sublist.trans (List.range_sublist.mpr hk)
    _ < fpTestFailuresSize := targetDomains_fit kind

end Targets

/-! ## One more row -/

section OneMore

variable {kind : TestKind} {k : Nat} {report : TestReport ρ} {row : TestSiteResult ρ}

/-- A row that is not behind is kept. -/
theorem row_before {i : Nat} (hi : i < k) : (report.setRow kind k row).row kind i = report.row kind i :=
  setRow_elsewhere (Nat.ne_of_lt hi)

theorem failedDomains_congr {row row' : Nat → TestSiteResult ρ} (h : ∀ i < k, row' i = row i) :
    failedDomains k row' = failedDomains k row := by
  have hfilter : ((List.range k).filter fun i => (row' i).state = .fail) =
      (List.range k).filter fun i => (row i).state = .fail :=
    List.filter_congr fun i hi => by rw [h i (List.mem_range.mp hi)]
  unfold failedDomains
  rw [hfilter]
  refine List.map_congr_left fun i hi => ?_
  rw [h i (List.mem_range.mp (List.mem_filter.mp hi).1)]

theorem failedDomains_succ (row : Nat → TestSiteResult ρ) : failedDomains (k + 1) row =
    failedDomains k row ++ if (row k).state = .fail then [(row k).domain] else [] := by
  unfold failedDomains
  rw [List.range_succ, List.filter_append, List.map_append]
  by_cases h : (row k).state = .fail <;> simp [h]

theorem countP_ok_congr {row row' : Nat → TestSiteResult ρ} (h : ∀ i < k, row' i = row i) :
    (List.range k).countP (fun i => (row' i).state = .ok) = (List.range k).countP fun i => (row i).state = .ok :=
  List.countP_congr fun i hi => by rw [h i (List.mem_range.mp hi)]

variable [Speed ρ]

theorem Best.congr {row row' : Nat → TestSiteResult ρ} {best : ρ} (h : ∀ i < k, row' i = row i)
    (hbest : Best k row best) : Best k row' best := by
  refine ⟨hbest.nonneg, fun i hi hok => ?_, ?_⟩
  · rw [h i hi] at hok ⊢
    exact hbest.le i hi hok
  · refine hbest.attained.imp_right ?_
    rintro ⟨i, hi, hok, hspeed⟩
    exact ⟨i, hi, by rw [h i hi]; exact hok, by rw [h i hi]; exact hspeed⟩

/-- A row that has failed is not the best. -/
theorem Best.fail {row : Nat → TestSiteResult ρ} {best : ρ} (h : Best k row best) (hk : (row k).state = .fail) :
    Best (k + 1) row best := by
  refine ⟨h.nonneg, fun i hi hok => ?_, ?_⟩
  · rcases Nat.lt_or_eq_of_le (Nat.le_of_lt_succ hi) with hlt | rfl
    · exact h.le i hlt hok
    · rw [hk] at hok
      simp at hok
  · refine h.attained.imp_right ?_
    rintro ⟨i, hi, hrest⟩
    exact ⟨i, Nat.lt_succ_of_lt hi, hrest⟩

theorem Best.ok {row : Nat → TestSiteResult ρ} {best : ρ} (h : Best k row best) (hk : (row k).state = .ok) :
    Best (k + 1) row (max best (row k).speedBps) := by
  refine ⟨le_max_of_le_left h.nonneg, fun i hi hok => ?_, ?_⟩
  · rcases Nat.lt_or_eq_of_le (Nat.le_of_lt_succ hi) with hlt | rfl
    · exact le_max_of_le_left (h.le i hlt hok)
    · exact le_max_right _ _
  · rcases le_total best (row k).speedBps with hle | hle
    · rw [max_eq_right hle]
      exact .inr ⟨k, Nat.lt_succ_self k, hk, rfl⟩
    · rw [max_eq_left hle]
      refine h.attained.imp_right ?_
      rintro ⟨i, hi, hrest⟩
      exact ⟨i, Nat.lt_succ_of_lt hi, hrest⟩

/-- The row that is being tested may change, but not its name. -/
theorem Tallied.setRow (h : Tallied kind k report) (hname : row.name = (report.row kind k).name)
    (hdomain : row.domain = (report.row kind k).domain) : Tallied kind k (report.setRow kind k row) where
  le := h.le
  count := setRow_count.trans h.count
  named i := by
    by_cases hi : i = k
    · subst hi
      rw [setRow_here, hname, hdomain]
      exact h.named i
    · rw [setRow_elsewhere hi]
      exact h.named i
  tested i hi := by
    rw [row_before hi]
    exact h.tested i hi
  pending i hi := by
    rw [setRow_elsewhere (Nat.ne_of_gt hi)]
    exact h.pending i hi
  passed := by
    rw [setRow_passed, h.passed]
    exact (countP_ok_congr fun i hi => row_before hi).symm
  failures := h.failures.trans (congrArg failuresText (failedDomains_congr fun i hi => row_before hi).symm)
  best := h.best.congr fun i hi => row_before hi
  other other hother := (setRow_other hother).trans (h.other other hother)

/-- A report of which other fields have changed. -/
theorem Tallied.fields {mode : TestMode} {listenerOk cancelled : Bool} (h : Tallied kind k report) :
    Tallied kind k { report with mode := mode, listenerOk := listenerOk, cancelled := cancelled } :=
  ⟨h.le, h.count, h.named, h.tested, h.pending, h.passed, h.failures, h.best, h.other⟩

/-- The row has passed. -/
theorem Tallied.pass (h : Tallied kind k report) (hk : k < targetCount kind)
    (hname : row.name = (report.row kind k).name) (hdomain : row.domain = (report.row kind k).domain)
    (hok : row.state = .ok) {best : ρ} (hbest : best = max report.bestSpeedBps row.speedBps) :
    Tallied kind (k + 1) { (report.setRow kind k row).pass kind with bestSpeedBps := best } := by
  have hset := h.setRow hname hdomain
  have hrow : ∀ i, ((report.setRow kind k row).pass kind).row kind i = (report.setRow kind k row).row kind i :=
    fun _ => pass_row
  refine ⟨hk, pass_count.trans hset.count, fun i => ?_, fun i hi => ?_, fun i hi => ?_, ?_, ?_, ?_, ?_⟩
  · exact (hrow i).symm ▸ hset.named i
  · rcases Nat.lt_or_eq_of_le (Nat.le_of_lt_succ hi) with hlt | rfl
    · exact (hrow i).symm ▸ hset.tested i hlt
    · exact .inl (by rw [← hok]; exact congrArg TestSiteResult.state ((hrow i).trans setRow_here))
  · exact (hrow i).trans (hset.pending i (Nat.lt_of_succ_lt hi))
  · have hcount : (List.range (k + 1)).countP (fun i => ((report.setRow kind k row).row kind i).state = .ok) =
        ((report.setRow kind k row).table kind).passed + 1 := by
      rw [List.range_succ, List.countP_append, hset.passed]
      simp [hok]
    rw [← countP_ok_congr fun i _ => hrow i] at hcount
    exact pass_passed.trans hcount.symm
  · refine hset.failures.trans (congrArg failuresText ?_)
    have hsame : failedDomains (k + 1) (report.setRow kind k row |>.row kind) =
        failedDomains k (report.setRow kind k row |>.row kind) := by
      rw [failedDomains_succ]
      simp [hok]
    rw [← hsame]
    exact congrArg (failedDomains (k + 1)) (funext fun i => (hrow i).symm)
  · have hmax := hset.best.ok (by rw [setRow_here]; exact hok)
    rw [setRow_here] at hmax
    rw [hbest]
    exact hmax.congr fun i _ => hrow i
  · intro other hother
    exact (pass_other hother).trans (hset.other other hother)

/-- The row has failed. -/
theorem Tallied.fail (h : Tallied kind k report) (hk : k < targetCount kind)
    (hname : row.name = (report.row kind k).name) (hdomain : row.domain = (report.row kind k).domain)
    (hfail : row.state = .fail) :
    Tallied kind (k + 1) (appendFailed (report.setRow kind k row) row.domain) := by
  have hset := h.setRow hname hdomain
  have hnames : failedDomains (k + 1) ((report.setRow kind k row).row kind) =
      failedDomains k ((report.setRow kind k row).row kind) ++ [row.domain] := by
    rw [failedDomains_succ]
    simp [hfail]
  have hne : ∀ name ∈ failedDomains k ((report.setRow kind k row).row kind), name ≠ [] := by
    intro name hname
    obtain ⟨i, hi, rfl⟩ := List.mem_map.mp hname
    have hlt := List.mem_range.mp (List.mem_filter.mp hi).1
    rw [(hset.named i).2]
    exact domain_ne_nil (hlt.trans hk)
  have hfit := failures_fit (ρ := ρ) (k := k + 1) hk fun i => (hset.named i).2
  rw [hnames] at hfit
  rw [appendFailed_failures hset.failures hne hfit]
  refine ⟨hk, hset.count, hset.named, fun i hi => ?_, fun i hi => ?_, ?_, ?_, ?_, hset.other⟩
  · rcases Nat.lt_or_eq_of_le (Nat.le_of_lt_succ hi) with hlt | rfl
    · exact hset.tested i hlt
    · exact .inr (by rw [← hfail]; exact congrArg TestSiteResult.state setRow_here)
  · exact hset.pending i (Nat.lt_of_succ_lt hi)
  · have hcount : (List.range (k + 1)).countP (fun i => ((report.setRow kind k row).row kind i).state = .ok) =
        ((report.setRow kind k row).table kind).passed := by
      rw [List.range_succ, List.countP_append, hset.passed]
      simp [hfail]
    exact hcount.symm
  · exact congrArg failuresText hnames.symm
  · exact hset.best.fail (by rw [setRow_here]; exact hfail)

end OneMore

end FreeProxy.Probe
