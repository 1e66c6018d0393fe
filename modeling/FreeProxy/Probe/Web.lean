import FreeProxy.Forwarder.Diagnose
import FreeProxy.Forwarder.Headers
import FreeProxy.System.Status

/-!
# Web probes

`fp_web_probe` of `src/web_probe.c`, and `measure_latency` of `src/test.c` over it. A probe is one request
over a fresh connection that is made by libcurl; what libcurl answers is a call (`ProbeOp`), and so is every
other call of `fp_test_run`.

* `Probed` is what a probe returns: it writes a latency when it returns `0`, and only then.
* `answered` is any outcome of any call, with a cancel flag that is not lowered again.

Headline: **`measureLatency_median`**, three samples give the median of three first bytes, and one sample
gives its own.

Out of scope: libcurl itself, and the headers and the body of an answer but for its status.
-/

namespace FreeProxy.Probe

open Lib
open Diagnose (Resolution)
open Headers (HeaderOp HeaderResp)

/-! ## Progress -/

/-- `enum fp_test_mode`. -/
inductive TestMode where
  | connectivity
  | latency
  | speed
  deriving DecidableEq

/-- `enum fp_test_phase`. -/
inductive TestPhase where
  | preflight
  | connectivity
  | latency
  | speed
  | done
  deriving DecidableEq

/-- `enum fp_test_site_state`. -/
inductive TestSiteState where
  | pending
  | running
  | ok
  | fail
  | cancelled
  deriving DecidableEq

/-- A speed is a `double`. -/
class Speed (ρ : Type) extends LinearOrder ρ, Zero ρ where
  /-- `(double)bytes * 1000.0 / (double)ms` -/
  rate : Nat → Int → ρ

/-- `struct fp_test_progress_event`. -/
structure TestProgressEvent (ρ : Type) where
  phase : TestPhase
  index : Nat
  total : Nat
  state : TestSiteState
  latencyMs : Int
  speedBps : ρ
  bytesDownloaded : Nat
  name : List Char
  domain : List Char

/-! ## The calls -/

/-- The options of `curl_easy_setopt`. -/
inductive CurlOption where
  | url (url : List Char)
  | nobody (on : Int)
  | followlocation (on : Int)
  | connecttimeoutMs (ms : Nat)
  | timeoutMs (ms : Nat)
  | nosignal (on : Int)
  | ipresolveV4
  | proxy (proxy : List Char)
  | freshConnect (on : Int)
  | forbidReuse (on : Int)
  | dnsCacheTimeout (s : Int)
  | sslVerifypeer (on : Int)
  | sslVerifyhost (level : Int)
  | useragent (agent : List Char)
  /-- `discard_response` -/
  | writefunction
  /-- `probe_progress` -/
  | xferinfofunction
  | xferinfodata
  | noprogress (on : Int)
  deriving DecidableEq

/-- What `curl_easy_perform` returns. -/
inductive Performed where
  /-- `CURLE_OK` -/
  | ok
  /-- `CURLE_ABORTED_BY_CALLBACK` -/
  | aborted
  | failed
  deriving DecidableEq

/-- `first_byte_seconds`. -/
inductive FirstByte where
  /-- negative, or more than `INT_MAX` milliseconds -/
  | outOfRange
  /-- `(int)(first_byte_seconds * 1000.0 + 0.5)` -/
  | millis (latencyMs : Int)
  deriving DecidableEq

/-- The calls of `fp_test_run`. -/
inductive ProbeOp (ρ : Type) where
  /-- a read of the cancel flag or of the socket -/
  | input (e : HeaderOp)
  /-- `fp_web_probe_init() == 0` -/
  | webProbeInit
  /-- `curl_easy_init`; `false` is `NULL` -/
  | easyInit
  | easySetopt (option : CurlOption)
  | easyPerform
  /-- `CURLINFO_RESPONSE_CODE` -/
  | responseCode
  /-- `CURLINFO_STARTTRANSFER_TIME` -/
  | startTransfer
  | easyCleanup
  /-- `fp_config_load(&config)`; `none` is a failure -/
  | configLoad
  | firewallIsEnabled (config : Config)
  /-- `resolve_ipv4(host, port_text, &result, …)` -/
  | resolve (host : List Char) (port : Nat)
  | freeaddrinfo
  | socket
  /-- `connect_with_timeout` -/
  | connect (addr : Destination) (timeoutMs : Nat)
  /-- `set_socket_timeouts` -/
  | setTimeouts (timeoutMs : Nat)
  | send (bytes : List Byte)
  | close
  /-- `now_ms` -/
  | nowMs
  /-- `on_event(event, context)` -/
  | onEvent (event : TestProgressEvent ρ)

/-- What a call answers. -/
abbrev ProbeResp {ρ : Type} : ProbeOp ρ → Type
  | .input e => HeaderResp e
  | .webProbeInit | .easyInit | .easySetopt _ | .firewallIsEnabled _ | .socket | .connect _ _
  | .setTimeouts _ => Bool
  | .easyPerform => Performed
  | .responseCode => Option Int
  | .startTransfer => Option FirstByte
  | .configLoad => Option Config
  | .resolve _ _ => Resolution
  | .send _ => Transfer Nat
  | .nowMs => Int
  | .easyCleanup | .freeaddrinfo | .close | .onEvent _ => Unit

variable {ρ : Type}

/-- A program of the test. -/
abbrev ProbeProg (ρ : Type) (α : Type) := Prog (ProbeOp ρ) ProbeResp α

/-- One call. -/
abbrev ProbeOp.ask (e : ProbeOp ρ) : ProbeProg ρ (ProbeResp e) := Prog.ask e

/-- `cancelled(cancel_flag)` -/
abbrev cancelled : ProbeProg ρ Bool := ProbeOp.ask (.input .cancelled)

/-! ## The code -/

/-- What a probe returns; `ok` is `0`, with what is written to `*latency_ms`. -/
abbrev Probed := Except Int Int

/-- `sizeof(url)`. -/
def urlSize : Nat := 384

/-- The URL of a probe. -/
def urlText (domain : List Char) (port : Nat) : List Char :=
  (if port = 443 then "https".toList else "http".toList) ++ "://".toList ++ domain ++ ':' :: decimal port ++ ['/']

/-- The options, in their order. -/
def curlOptions (url : List Char) : List CurlOption :=
  [.url url, .nobody 1, .followlocation 0, .connecttimeoutMs Socks.testTimeoutMs,
    .timeoutMs Socks.testTimeoutMs, .nosignal 1, .ipresolveV4, .proxy [], .freshConnect 1, .forbidReuse 1,
    .dnsCacheTimeout 0, .sslVerifypeer 1, .sslVerifyhost 2, .useragent "free_proxy/1.0".toList,
    .writefunction, .xferinfofunction, .xferinfodata, .noprogress 0]

/-- One `curl_easy_setopt` after the other, until one fails. -/
def easySetopts : List CurlOption → ProbeProg ρ Bool
  | [] => pure true
  | option :: rest => do
    if !(← ProbeOp.ask (.easySetopt option)) then pure false else easySetopts rest

/-- What is done with the handle. -/
def request (url : List Char) : ProbeProg ρ Probed := do
  if !(← easySetopts (curlOptions url)) then pure (.error (-1)) else do
  match ← ProbeOp.ask .easyPerform with
  | .aborted => do
    if ← cancelled then pure (.error (-2)) else pure (.error (-1))
  | .failed => pure (.error (-1))
  | .ok => do
    match ← ProbeOp.ask .responseCode with
    | none => pure (.error (-1))
    | some code => do
      match ← ProbeOp.ask .startTransfer with
      | some (.millis latencyMs) =>
        if code < 100 ∨ 600 ≤ code then pure (.error (-1)) else pure (.ok latencyMs)
      | _ => pure (.error (-1))

/-- `fp_web_probe`. The handle is given back on every way out. -/
def fpWebProbe (domain : List Char) (port : Nat) : ProbeProg ρ Probed :=
  if domain = [] ∨ port = 0 then pure (.error (-1)) else do
  if !(← ProbeOp.ask .webProbeInit) then pure (.error (-1)) else do
  if ← cancelled then pure (.error (-2)) else do
  let written := snprintf urlSize (urlText domain port)
  if urlSize ≤ written.2 then pure (.error (-1)) else do
  if !(← ProbeOp.ask .easyInit) then pure (.error (-1)) else do
  let probed ← request written.1
  ProbeOp.ask .easyCleanup
  pure probed

/-- `FP_LATENCY_SAMPLE_COUNT`. -/
def fpLatencySampleCount : Nat := 3

/-- The loop of `measure_latency`, with the samples that it leaves. -/
def takeSamples (domain : List Char) (port : Nat) : Nat → ProbeProg ρ (Except Int (List Int))
  | 0 => pure (.ok [])
  | n + 1 => do
    match ← fpWebProbe domain port with
    | .error result => pure (.error result)
    | .ok latencyMs => do
      match ← takeSamples domain port n with
      | .error result => pure (.error result)
      | .ok samples => pure (.ok (latencyMs :: samples))

/-- `if (samples[i] > samples[i + 1])`, and the exchange. -/
def exchange (a b : Int) : Int × Int := if b < a then (b, a) else (a, b)

/-- `samples[1]` after the three exchanges. -/
def middle (a b c : Int) : Int :=
  let (a, b) := exchange a b
  let (b, _) := exchange b c
  (exchange a b).2

/-- `measure_latency`: one sample, or the middle of three. -/
def measureLatency (domain : List Char) (port : Nat) (sampleTotal : Nat) : ProbeProg ρ Probed :=
  if sampleTotal ≠ 1 ∧ sampleTotal ≠ fpLatencySampleCount then pure (.error (-1)) else do
  match ← takeSamples domain port sampleTotal with
  | .error result => pure (.error result)
  | .ok [a, b, c] => pure (.ok (middle a b c))
  | .ok samples => pure (.ok (samples.headD 0))

/-! ## What a call may be answered -/

/-- The cancel flag and what the caller was told. -/
structure World (ρ : Type) where
  raised : Bool
  events : List (TestProgressEvent ρ)

/-- Any outcome of any call; a flag that is raised stays so. -/
def answered : Rel (ProbeOp ρ) ProbeResp (World ρ) := fun e s r s' =>
  (s.raised = true → s'.raised = true) ∧ match e, r with
    | .input .cancelled, r => r = s'.raised ∧ s'.events = s.events
    | .onEvent event, _ => s'.events = s.events ++ [event]
    | _, _ => s'.events = s.events

/-! ## The samples -/

/-- The first bytes that were timed. -/
def firstByteOf : Ev (ProbeOp ρ) ProbeResp → Option Int
  | ⟨.startTransfer, some (.millis latencyMs)⟩ => some latencyMs
  | _ => none

/-- At least half of the samples are at most `m`, and at least half are at least `m`. -/
structure Median (samples : List Int) (m : Int) : Prop where
  mem : m ∈ samples
  below : samples.length ≤ 2 * samples.countP (· ≤ m)
  above : samples.length ≤ 2 * samples.countP (m ≤ ·)

theorem median_single (a : Int) : Median [a] a := ⟨List.mem_cons_self, by simp, by simp⟩

theorem exchange_eq (a b : Int) : exchange a b = (min a b, max a b) := by
  unfold exchange
  by_cases h : b < a
  · rw [if_pos h, min_eq_right h.le, max_eq_left h.le]
  · rw [if_neg h, min_eq_left (not_lt.mp h), max_eq_right (not_lt.mp h)]

theorem middle_eq (a b c : Int) : middle a b c = max (min a b) (min (max a b) c) := by
  simp only [middle, exchange_eq]

/-- **Three exchanges bring the median to the middle.** -/
theorem median_middle (a b c : Int) : Median [a, b, c] (middle a b c) := by
  rw [middle_eq]
  refine ⟨?_, ?_, ?_⟩
  · simp only [List.mem_cons, List.not_mem_nil, or_false]
    omega
  · simp only [List.countP_cons, List.countP_nil, List.length_cons, List.length_nil, decide_eq_true_eq]
    split_ifs <;> omega
  · simp only [List.countP_cons, List.countP_nil, List.length_cons, List.length_nil, decide_eq_true_eq]
    split_ifs <;> omega

section Samples

variable {S : Type} {rel : Rel (ProbeOp ρ) ProbeResp S} {α : Type} {s : S}
  {tr : List (Ev (ProbeOp ρ) ProbeResp)}

/-- When there is a result, `base` and the samples of the result are what was timed so far. -/
def Timed (base : List Int) (samples : List Int) (x : S × List (Ev (ProbeOp ρ) ProbeResp)) : Prop :=
  x.2.filterMap firstByteOf = base ++ samples

/-- One call, and what follows it. -/
theorem wp_recorded {e : ProbeOp ρ} {k : ProbeResp e → ProbeProg ρ α}
    {Q : α → S × List (Ev (ProbeOp ρ) ProbeResp) → Prop}
    (h : ∀ r s', wp (Traced rel) (fun _ => True) (k r) Q (s', tr ++ [⟨e, r⟩])) :
    wp (Traced rel) (fun _ => True) ((ProbeOp.ask e).bind k) Q (s, tr) := by
  refine wp_call.mpr ⟨trivial, ?_⟩
  rintro r ⟨s', tr'⟩ ⟨-, rfl⟩
  exact h r s'

/-- A call that times nothing, and what follows it. -/
theorem wp_untimed {e : ProbeOp ρ} {k : ProbeResp e → ProbeProg ρ α} {base samples : List Int}
    {Q : α → S × List (Ev (ProbeOp ρ) ProbeResp) → Prop} (he : ∀ r, firstByteOf ⟨e, r⟩ = none)
    (h : ∀ r x, Timed base samples x → wp (Traced rel) (fun _ => True) (k r) Q x)
    {x : S × List (Ev (ProbeOp ρ) ProbeResp)} (hx : Timed base samples x) :
    wp (Traced rel) (fun _ => True) ((ProbeOp.ask e).bind k) Q x := by
  refine wp_recorded fun r s' => h r _ ?_
  unfold Timed at hx ⊢
  rw [List.filterMap_append, hx]
  simp [he r]

/-- A failure promises nothing. -/
theorem wp_unmeasured {β : Type} {result : Int} {Q : β → S × List (Ev (ProbeOp ρ) ProbeResp) → Prop}
    {x : S × List (Ev (ProbeOp ρ) ProbeResp)} :
    wp (Traced rel) (fun _ => True) (.ret (.error result) : ProbeProg ρ (Except Int β))
      (fun r x => ∀ b, r = .ok b → Q b x) x :=
  wp_ret.mpr ⟨trivial, by simp⟩

variable {base : List Int} {x : S × List (Ev (ProbeOp ρ) ProbeResp)}

theorem wp_easySetopts (options : List CurlOption) (hx : Timed base [] x) :
    wp (Traced rel) (fun _ => True) (easySetopts options) (fun _ x => Timed base [] x) x := by
  induction options generalizing x with
  | nil => exact wp_ret.mpr ⟨trivial, hx⟩
  | cons option rest ih =>
    refine wp_untimed (fun _ => rfl) (fun done x hx => ?_) hx
    cases done with
    | false => exact wp_ret.mpr ⟨trivial, hx⟩
    | true => exact ih hx

/-- The first byte is the last thing that is asked. -/
theorem wp_request (url : List Char) (hx : Timed base [] x) :
    wp (Traced rel) (fun _ => True) (request url)
      (fun probed x => ∀ latencyMs, probed = .ok latencyMs → Timed base [latencyMs] x) x := by
  refine wp_bind.mpr ((wp_easySetopts _ hx).post fun done x _ hx => ?_)
  cases done with
  | false => exact wp_unmeasured
  | true =>
  refine wp_untimed (fun _ => rfl) (fun performed x hx => ?_) hx
  cases performed with
  | aborted =>
    refine wp_untimed (fun _ => rfl) (fun raised x _ => ?_) hx
    cases raised with
    | false => exact wp_unmeasured
    | true => exact wp_unmeasured
  | failed => exact wp_unmeasured
  | ok =>
  refine wp_untimed (fun _ => rfl) (fun code x hx => ?_) hx
  cases code with
  | none => exact wp_unmeasured
  | some code =>
  refine wp_recorded fun first s' => ?_
  rcases first with _ | _ | latencyMs
  · exact wp_unmeasured
  · exact wp_unmeasured
  dsimp only
  split_ifs
  · exact wp_unmeasured
  · refine wp_ret.mpr ⟨trivial, fun m hm => ?_⟩
    obtain rfl := Except.ok.inj hm
    unfold Timed at hx ⊢
    rw [List.filterMap_append, hx, List.append_nil]
    rfl

theorem wp_fpWebProbe (domain : List Char) (port : Nat) (hx : Timed base [] x) :
    wp (Traced rel) (fun _ => True) (fpWebProbe domain port)
      (fun probed x => ∀ latencyMs, probed = .ok latencyMs → Timed base [latencyMs] x) x := by
  unfold fpWebProbe
  split_ifs
  · exact wp_unmeasured
  refine wp_untimed (fun _ => rfl) (fun ready x hx => ?_) hx
  cases ready with
  | false => exact wp_unmeasured
  | true =>
  refine wp_untimed (fun _ => rfl) (fun raised x hx => ?_) hx
  cases raised with
  | true => exact wp_unmeasured
  | false =>
  change wp _ _ (if urlSize ≤ (snprintf urlSize (urlText domain port)).2 then _ else _) _ _
  split_ifs
  · exact wp_unmeasured
  refine wp_untimed (fun _ => rfl) (fun made x hx => ?_) hx
  cases made with
  | false => exact wp_unmeasured
  | true =>
  refine wp_bind.mpr ((wp_request _ hx).post fun probed x _ hprobed => ?_)
  refine wp_recorded fun _ s' => wp_ret.mpr ⟨trivial, fun latencyMs hok => ?_⟩
  have htimed := hprobed latencyMs hok
  unfold Timed at htimed ⊢
  rw [List.filterMap_append, htimed]
  exact List.append_nil _

theorem wp_takeSamples (domain : List Char) (port : Nat) (n : Nat) (hx : Timed base [] x) :
    wp (Traced rel) (fun _ => True) (takeSamples domain port n)
      (fun r x => ∀ samples, r = .ok samples → samples.length = n ∧ Timed base samples x) x := by
  induction n generalizing base x with
  | zero =>
    refine wp_ret.mpr ⟨trivial, fun samples hok => ?_⟩
    obtain rfl := Except.ok.inj hok
    exact ⟨rfl, hx⟩
  | succ n ih =>
    refine wp_bind.mpr ((wp_fpWebProbe domain port hx).post fun probed x _ hprobed => ?_)
    cases probed with
    | error result => exact wp_unmeasured
    | ok latencyMs =>
      -- the sample joins what was timed before the others
      have hbase : Timed (base ++ [latencyMs]) [] x := by
        unfold Timed
        rw [List.append_nil]
        exact hprobed latencyMs rfl
      refine wp_bind.mpr ((ih hbase).post fun r x _ hrest => ?_)
      cases r with
      | error result => exact wp_unmeasured
      | ok samples =>
        obtain ⟨hlength, htimed⟩ := hrest samples rfl
        refine wp_ret.mpr ⟨trivial, fun all hok => ?_⟩
        obtain rfl := Except.ok.inj hok
        refine ⟨by rw [List.length_cons, hlength], ?_⟩
        unfold Timed at htimed ⊢
        rw [htimed, List.append_assoc, List.singleton_append]

theorem wp_measureLatency (domain : List Char) (port sampleTotal : Nat) (hx : Timed base [] x) :
    wp (Traced rel) (fun _ => True) (measureLatency domain port sampleTotal)
      (fun r x => ∀ latencyMs, r = .ok latencyMs → ∃ samples, Timed base samples x ∧
        samples.length = sampleTotal ∧ Median samples latencyMs) x := by
  unfold measureLatency
  split_ifs with htotal
  · exact wp_unmeasured
  refine wp_bind.mpr ((wp_takeSamples domain port sampleTotal hx).post fun r x _ hr => ?_)
  cases r with
  | error result => exact wp_unmeasured
  | ok samples =>
    obtain ⟨hlength, htimed⟩ := hr samples rfl
    have hcases : sampleTotal = 1 ∨ sampleTotal = 3 := by
      unfold fpLatencySampleCount at htotal
      omega
    rcases samples with _ | ⟨a, _ | ⟨b, _ | ⟨c, _ | ⟨d, rest⟩⟩⟩⟩
    · simp only [List.length_nil] at hlength
      omega
    · refine wp_ret.mpr ⟨trivial, fun m hm => ?_⟩
      obtain rfl := Except.ok.inj hm
      exact ⟨[a], htimed, hlength, median_single a⟩
    · simp only [List.length_cons, List.length_nil] at hlength
      omega
    · refine wp_ret.mpr ⟨trivial, fun m hm => ?_⟩
      obtain rfl := Except.ok.inj hm
      exact ⟨[a, b, c], htimed, hlength, median_middle a b c⟩
    · simp only [List.length_cons] at hlength
      omega

end Samples

/-- **A latency is the median of its samples.** In any environment, when `measure_latency` succeeds, as many
first bytes were timed as samples were asked for, and the latency is their median. -/
theorem measureLatency_median {S : Type} {rel : Rel (ProbeOp ρ) ProbeResp S} (domain : List Char)
    (port sampleTotal : Nat) {s s' : S} {tr : List (Ev (ProbeOp ρ) ProbeResp)} {latencyMs : Int}
    (h : Steps rel (measureLatency domain port sampleTotal) s tr (.ret (.ok latencyMs)) s') :
    (tr.filterMap firstByteOf).length = sampleTotal ∧ Median (tr.filterMap firstByteOf) latencyMs := by
  have hstart : Timed [] [] ((s, []) : S × List (Ev (ProbeOp ρ) ProbeResp)) := rfl
  obtain ⟨samples, htimed, hlength, hmedian⟩ :=
    (wp_traced (wp_measureLatency domain port sampleTotal hstart) h).2 _ rfl latencyMs rfl
  unfold Timed at htimed
  rw [htimed, List.nil_append]
  exact ⟨hlength, hmedian⟩

/-- Every request is answered, after the next of the times. -/
def punctual : Sem (ProbeOp Nat) ProbeResp Unit (List Int) := fun e _ times =>
  match e with
  | .input .cancelled => (false, times)
  | .input (.recv _ _) => (.done [], times)
  | .webProbeInit | .easyInit | .easySetopt _ | .firewallIsEnabled _ | .socket | .connect _ _
  | .setTimeouts _ => (true, times)
  | .easyPerform => (.ok, times)
  | .responseCode => (some 200, times)
  | .startTransfer => (times.head?.map .millis, times.tail)
  | .configLoad => (some .zero, times)
  | .resolve _ _ => (⟨-1, [], 0⟩, times)
  | .send bytes => (.done bytes.length, times)
  | .nowMs => (0, times)
  | .easyCleanup | .freeaddrinfo | .close | .onEvent _ => ((), times)

/-- Three requests to one site. -/
theorem measureLatency_median_punctual :
    let tr := trace punctual (List.replicate 75 ()) (measureLatency "x.com".toList 443 3) [30, 10, 20]
    (tr.filterMap firstByteOf).length = 3 ∧ Median (tr.filterMap firstByteOf) 20 := by
  intro tr
  have hexec : exec punctual (List.replicate 75 ()) (measureLatency "x.com".toList 443 3) [30, 10, 20] =
      (.ret (.ok 20), []) := by
    rfl
  have hsteps : Steps punctual.rel _ _ tr _ _ := exec_steps (List.replicate 75 ()) _ _
  rw [hexec] at hsteps
  exact measureLatency_median _ _ _ hsteps

end FreeProxy.Probe
