import FreeProxy.Forwarder.Socks
import FreeProxy.Lib.Occurrence
import Mathlib.Data.List.TakeWhile

/-!
# The headers of a response

`skip_http_headers` of `src/test.c` with `http_response_success`: the speed test reads a response until its
first empty line, and the bytes that came with it are the beginning of the body.

* `HeadersEnd` and `StatusOk` say what a stream is, `Skips` what should be made of it.
* The loop ends one byte before the buffer is full (`used + 1 < capacity`), but `recv` may fill the buffer.
  So headers that end with the buffer are found only by a read that does not stop one byte before.

Headlines: `wp_skipHttpHeaders`, what every run returns; **`skipHttpHeaders_segmentation`**, when the result
is a function of the stream.

Out of scope: time, and what the headers say but for the status.
-/

namespace FreeProxy.Headers

open Lib Socks

/-! ## The code -/

/-- The calls of `skip_http_headers`. -/
inductive HeaderOp where
  | cancelled
  | recv (offset length : Nat)
  deriving DecidableEq

/-- What a call answers. -/
abbrev HeaderResp : HeaderOp → Type
  | .cancelled => Bool
  | .recv _ _ => Transfer (List Byte)

/-- A program that reads a response. -/
abbrev HeaderProg (α : Type) := Prog HeaderOp HeaderResp α

/-- A carriage return. -/
def cr : Byte := 13
/-- A line feed. -/
def lf : Byte := 10
/-- A space. -/
def blank : Byte := 32

/-- `memcmp(buffer, "HTTP/", 5)` compares with these. -/
def http : List Byte := [72, 84, 84, 80, 47]

/-- A decimal digit. -/
def isDigit (c : Byte) : Bool := 48 ≤ c && c ≤ 57

/-- `c - '0'` -/
def digitValue (c : Byte) : Nat := c.toNat - 48

/-- `buffer[index]` -/
def byteAt (buffer : List Byte) (index : Nat) : Byte := buffer.getD index 0

/-- The index at which the scan of `http_response_success` stops. -/
def versionEnd (buffer : List Byte) (headerLength : Nat) : Nat :=
  5 + (((buffer.take headerLength).drop 5).takeWhile fun c => c != blank && c != cr).length

/-- `http_response_success`: the three digits behind the version are `200` to `299`. -/
def httpResponseSuccess (buffer : List Byte) (headerLength : Nat) : Bool :=
  if headerLength < 12 ∨ buffer.take 5 ≠ http then false else
  let index := versionEnd buffer headerLength
  if index + 3 ≥ headerLength ∨ byteAt buffer index ≠ blank ∨ ¬ isDigit (byteAt buffer (index + 1)) ∨
      ¬ isDigit (byteAt buffer (index + 2)) ∨ ¬ isDigit (byteAt buffer (index + 3)) then false else
  let status := digitValue (byteAt buffer (index + 1)) * 100 + digitValue (byteAt buffer (index + 2)) * 10 +
    digitValue (byteAt buffer (index + 3))
  200 ≤ status && status < 300

/-- The four comparisons of the inner loop. -/
def emptyLineAt (buffer : List Byte) (index : Nat) : Bool :=
  byteAt buffer index == cr && byteAt buffer (index + 1) == lf && byteAt buffer (index + 2) == cr &&
    byteAt buffer (index + 3) == lf

/-- The inner loop: `index + 3 < used`. -/
def findEmptyLine (buffer : List Byte) : Option Nat :=
  (List.range (buffer.length - 3)).find? (emptyLineAt buffer)

/-- What is returned and what is written. -/
structure Skipped where
  code : Int
  /-- what is written to `*body_offset` -/
  bodyOffset : Option Nat
  /-- what is written to `*buffered` -/
  buffered : Option Nat
  /-- the bytes of `buffer` that were received -/
  buffer : List Byte
  deriving DecidableEq

/-- The loop of `skip_http_headers`, with the first `used` bytes of the buffer. -/
def skipLoop (capacity : Nat) (buffer : List Byte) : HeaderProg Skipped :=
  if buffer.length + 1 < capacity then
    .loop .cancelled
      (fun stop =>
        if stop then .ret (some none) else
        .call (.recv buffer.length (capacity - buffer.length)) fun r => .ret (r.settled.map some))
      fun
      | none => .ret ⟨-2, none, none, buffer⟩
      | some (.failed _) => .ret ⟨-1, none, none, buffer⟩
      | some (.done received) =>
        if received = [] then .ret ⟨-1, none, none, buffer⟩ else
        match findEmptyLine (buffer ++ received) with
        | some index =>
          if httpResponseSuccess (buffer ++ received) (index + 4) then
            .ret ⟨0, some (index + 4), some (buffer ++ received).length, buffer ++ received⟩
          else .ret ⟨-1, none, none, buffer ++ received⟩
        | none => skipLoop capacity (buffer ++ received)
  else .ret ⟨-1, none, none, buffer⟩
termination_by capacity - buffer.length
decreasing_by
  have hpos := List.length_pos_of_ne_nil ‹received ≠ []›
  rw [List.length_append]
  omega

/-- `skip_http_headers`. -/
def skipHttpHeaders (capacity : Nat) : HeaderProg Skipped := skipLoop capacity []

/-- The answers of the server's stream. -/
def headerSem : Sem HeaderOp HeaderResp Outcome Peer
  | .cancelled, c, s => (!c.ok, s)
  | .recv _ length, c, s => s.interruptible c.interrupted (s.recv length c)

/-- Nobody cancels. -/
def going : Rel HeaderOp HeaderResp Peer := fun e s r s' => ∃ c, c.ok = true ∧ headerSem e c s = (r, s')

/-! ## What a stream is -/

/-- What ends the headers. -/
def emptyLine : List Byte := [cr, lf, cr, lf]

/-- The first empty line of the stream ends before the index `n`. -/
def HeadersEnd (stream : List Byte) (n : Nat) : Prop :=
  ∃ index, FirstAt emptyLine stream index ∧ n = index + 4

/-- The status line is `HTTP/`, a version, a blank and a status of the 200s. -/
def StatusOk (stream : List Byte) : Prop :=
  ∃ version c₁ c₂ c₃ rest, stream = http ++ version ++ blank :: c₁ :: c₂ :: c₃ :: rest ∧
    (∀ c ∈ version, c ≠ blank ∧ c ≠ cr) ∧
    isDigit c₁ = true ∧ isDigit c₂ = true ∧ isDigit c₃ = true ∧
    200 ≤ digitValue c₁ * 100 + digitValue c₂ * 10 + digitValue c₃ ∧
    digitValue c₁ * 100 + digitValue c₂ * 10 + digitValue c₃ < 300

/-- The headers end within the buffer, and the status is a success. -/
def Accepted (capacity : Nat) (stream : List Byte) (n : Nat) : Prop :=
  HeadersEnd stream n ∧ n ≤ capacity ∧ StatusOk stream

section Scan

variable {buffer stream : List Byte} {n index : Nat}

theorem byteAt_drop (buffer : List Byte) (index j : Nat) :
    byteAt buffer (index + j) = byteAt (buffer.drop index) j := by
  unfold byteAt
  rw [List.getD_eq_getElem?_getD, List.getD_eq_getElem?_getD, List.getElem?_drop]

theorem byteAt_take (h : index < n) : byteAt (buffer.take n) index = byteAt buffer index := by
  unfold byteAt
  rw [List.getD_eq_getElem?_getD, List.getD_eq_getElem?_getD, List.getElem?_take_of_lt h]

/-- The four comparisons find an empty line; a byte behind the received ones is not compared. -/
theorem emptyLineAt_iff : emptyLineAt buffer index = true ↔ OccursAt emptyLine buffer index := by
  have hhere : byteAt buffer index = byteAt (buffer.drop index) 0 := byteAt_drop buffer index 0
  unfold emptyLineAt
  rw [occursAt_iff, hhere, byteAt_drop, byteAt_drop, byteAt_drop]
  generalize hrest : buffer.drop index = rest
  match rest with
  | [] | [_] | [_, _] | [_, _, _] => simp [byteAt, emptyLine, cr, lf]
  | a :: b :: c :: d :: rest =>
    have hle : index ≤ buffer.length := by
      have hlength := congrArg List.length hrest
      rw [List.length_drop, List.length_cons] at hlength
      omega
    simp only [byteAt, List.getD_cons_zero, List.getD_cons_succ, Bool.and_eq_true, beq_iff_eq, emptyLine,
      List.cons_prefix_cons, List.nil_prefix, and_true, hle, true_and, and_assoc]
    rw [eq_comm, @eq_comm _ b, @eq_comm _ c, @eq_comm _ d]

theorem emptyLine_lt (h : OccursAt emptyLine buffer index) : index < buffer.length - 3 := by
  have hle := h.le
  simp only [emptyLine, List.length_cons, List.length_nil] at hle
  omega

/-- **The inner loop finds the first empty line.** -/
theorem findEmptyLine_eq_some : findEmptyLine buffer = some index ↔ FirstAt emptyLine buffer index :=
  find?_firstAt (fun _ => emptyLineAt_iff) fun _ => emptyLine_lt

theorem findEmptyLine_eq_none (h : findEmptyLine buffer = none) (index : Nat) :
    ¬ OccursAt emptyLine buffer index :=
  find?_firstAt_none (fun _ => emptyLineAt_iff) (fun _ => emptyLine_lt) h index

/-- The end of the headers is the same in every beginning of the stream that contains it. -/
theorem headersEnd_append (more : List Byte) (hn : n ≤ buffer.length) :
    HeadersEnd (buffer ++ more) n ↔ HeadersEnd buffer n := by
  constructor
  · rintro ⟨index, hfirst, rfl⟩
    exact ⟨index, (firstAt_append hn).mp hfirst, rfl⟩
  · rintro ⟨index, hfirst, rfl⟩
    exact ⟨index, (firstAt_append hn).mpr hfirst, rfl⟩

theorem HeadersEnd.unique {m : Nat} (hn : HeadersEnd stream n) (hm : HeadersEnd stream m) : n = m := by
  obtain ⟨i, hi, rfl⟩ := hn
  obtain ⟨j, hj, rfl⟩ := hm
  rw [hi.unique hj]

theorem HeadersEnd.le (h : HeadersEnd stream n) : n ≤ stream.length := by
  obtain ⟨index, hfirst, rfl⟩ := h
  exact hfirst.1.le

/-- No empty line, no end of the headers. -/
theorem not_headersEnd (h : ∀ index, ¬ OccursAt emptyLine stream index) : ¬ HeadersEnd stream n := by
  rintro ⟨index, hfirst, -⟩
  exact h index hfirst.1

end Scan

/-! ## The status line -/

section Status

variable {buffer head stream : List Byte} {n : Nat}

/-- Only the headers are looked at. -/
theorem httpResponseSuccess_take (buffer : List Byte) (n : Nat) :
    httpResponseSuccess buffer n = httpResponseSuccess (buffer.take n) n := by
  unfold httpResponseSuccess
  by_cases hshort : n < 12
  · rw [if_pos (.inl hshort), if_pos (.inl hshort)]
  have hversion : versionEnd (buffer.take n) n = versionEnd buffer n := by
    unfold versionEnd
    rw [List.take_take, Nat.min_self]
  rw [List.take_take, Nat.min_eq_left (by omega : 5 ≤ n), hversion]
  by_cases hend : versionEnd buffer n + 3 ≥ n
  · simp only [hend, true_or, if_true]
  · simp only [byteAt_take (show versionEnd buffer n < n by omega),
      byteAt_take (show versionEnd buffer n + 1 < n by omega),
      byteAt_take (show versionEnd buffer n + 2 < n by omega),
      byteAt_take (show versionEnd buffer n + 3 < n by omega)]

/-- The version is what stands before the first blank. -/
theorem versionEnd_version {version rest : List Byte} (hversion : ∀ c ∈ version, c ≠ blank ∧ c ≠ cr) :
    versionEnd (http ++ version ++ blank :: rest) (http ++ version ++ blank :: rest).length =
      (http ++ version).length := by
  unfold versionEnd
  rw [List.take_length, List.append_assoc, show (5 : Nat) = http.length from rfl, List.drop_left,
    List.takeWhile_append_of_pos (by simpa using hversion), List.length_append]
  simp

/-- Where the scan stops, a version stands before it. -/
theorem exists_version (h : head.take 5 = http) : ∃ version rest, head = http ++ version ++ rest ∧
    (∀ c ∈ version, c ≠ blank ∧ c ≠ cr) ∧ versionEnd head head.length = (http ++ version).length := by
  refine ⟨(head.drop 5).takeWhile fun c => c != blank && c != cr,
    (head.drop 5).dropWhile fun c => c != blank && c != cr, ?_, ?_, ?_⟩
  · rw [List.append_assoc, List.takeWhile_append_dropWhile, ← h, List.take_append_drop]
  · intro c hc
    simpa using List.mem_takeWhile_imp hc
  · unfold versionEnd
    rw [List.take_length, List.length_append]
    rfl

/-- A blank and three digits of a successful status. -/
def SuccessfulStatus (rest : List Byte) : Prop :=
  ∃ c₁ c₂ c₃ more, rest = blank :: c₁ :: c₂ :: c₃ :: more ∧
    isDigit c₁ = true ∧ isDigit c₂ = true ∧ isDigit c₃ = true ∧
    200 ≤ digitValue c₁ * 100 + digitValue c₂ * 10 + digitValue c₃ ∧
    digitValue c₁ * 100 + digitValue c₂ * 10 + digitValue c₃ < 300

/-- What is compared behind the version. -/
theorem httpResponseSuccess_version {version rest : List Byte} (hhead : head = http ++ version ++ rest)
    (hend : versionEnd head head.length = (http ++ version).length) (hlength : 12 ≤ head.length) :
    httpResponseSuccess head head.length = true ↔ SuccessfulStatus rest := by
  have hhttp : head.take 5 = http := by
    rw [hhead, List.append_assoc]
    rfl
  have hbyte : ∀ j, byteAt head ((http ++ version).length + j) = byteAt rest j := by
    intro j
    rw [byteAt_drop, hhead, List.drop_left]
  have hstop : byteAt head (http ++ version).length = byteAt rest 0 := hbyte 0
  have hroom : head.length = (http ++ version).length + rest.length := by
    rw [hhead, List.length_append]
  unfold httpResponseSuccess SuccessfulStatus
  rw [if_neg (by simp [hhttp, hlength])]
  dsimp only
  rw [hend, hstop, hbyte, hbyte, hbyte, hroom]
  match rest with
  | [] | [_] | [_, _] | [_, _, _] => simp
  | c :: c₁ :: c₂ :: c₃ :: more =>
    simp only [byteAt, List.getD_cons_zero, List.getD_cons_succ, List.cons.injEq]
    constructor
    · intro h
      split at h
      · cases h
      rename_i hdigits
      push Not at hdigits
      obtain ⟨-, hblank, h₁, h₂, h₃⟩ := hdigits
      rw [Bool.and_eq_true, decide_eq_true_eq, decide_eq_true_eq] at h
      exact ⟨c₁, c₂, c₃, more, ⟨hblank, rfl, rfl, rfl, rfl⟩, h₁, h₂, h₃, h⟩
    · rintro ⟨_, _, _, _, ⟨rfl, rfl, rfl, rfl, rfl⟩, h₁, h₂, h₃, hle, hlt⟩
      rw [if_neg (by simp [h₁, h₂, h₃])]
      simp [hle, hlt]

/-- **`http_response_success` recognises the status line** of headers that are not too short. -/
theorem httpResponseSuccess_iff (hlength : 12 ≤ head.length) :
    httpResponseSuccess head head.length = true ↔ StatusOk head := by
  constructor
  · intro h
    have hhttp : head.take 5 = http := by
      by_contra hne
      unfold httpResponseSuccess at h
      rw [if_pos (.inr hne)] at h
      cases h
    obtain ⟨version, rest, hhead, hversion, hend⟩ := exists_version hhttp
    obtain ⟨c₁, c₂, c₃, more, rfl, hstatus⟩ := (httpResponseSuccess_version hhead hend hlength).mp h
    exact ⟨version, c₁, c₂, c₃, more, hhead, hversion, hstatus⟩
  · rintro ⟨version, c₁, c₂, c₃, more, hhead, hversion, hstatus⟩
    have hend : versionEnd head head.length = (http ++ version).length := by
      rw [hhead]
      exact versionEnd_version hversion
    exact (httpResponseSuccess_version hhead hend hlength).mpr ⟨c₁, c₂, c₃, more, rfl, hstatus⟩

theorem isDigit_ne_cr {c : Byte} (h : isDigit c = true) : c ≠ cr := by
  rintro rfl
  exact absurd h (by decide)

/-- A status line holds no carriage return, so the headers end behind it. -/
theorem StatusOk.before_end (h : StatusOk stream) (hend : HeadersEnd stream n) :
    ∃ status rest, stream = status ++ rest ∧ StatusOk status ∧ 9 ≤ status.length ∧ status.length + 4 ≤ n := by
  obtain ⟨version, c₁, c₂, c₃, rest, rfl, hversion, h₁, h₂, h₃, hstatus⟩ := h
  refine ⟨http ++ version ++ [blank, c₁, c₂, c₃], rest, by simp,
    ⟨version, c₁, c₂, c₃, [], by simp, hversion, h₁, h₂, h₃, hstatus⟩, by simp [http], ?_⟩
  obtain ⟨index, ⟨⟨before, after, hat, rfl⟩, -⟩, rfl⟩ := hend
  -- the empty line begins with a carriage return
  have hcr : (http ++ version ++ blank :: c₁ :: c₂ :: c₃ :: rest)[before.length]? = some cr := by
    rw [hat, List.append_assoc, List.getElem?_append_right (Nat.le_refl _), Nat.sub_self]
    rfl
  by_contra hlt
  have hsplit : http ++ version ++ blank :: c₁ :: c₂ :: c₃ :: rest =
      (http ++ version ++ [blank, c₁, c₂, c₃]) ++ rest := by simp
  rw [hsplit, List.getElem?_append_left (by omega)] at hcr
  have hmem := List.mem_of_getElem? hcr
  simp only [List.mem_append, List.mem_cons, List.not_mem_nil, or_false] at hmem
  rcases hmem with (hmem | hmem) | hmem | hmem | hmem | hmem
  · exact absurd hmem (by decide)
  · exact (hversion cr hmem).2 rfl
  · exact absurd hmem (by decide)
  · exact isDigit_ne_cr h₁ hmem.symm
  · exact isDigit_ne_cr h₂ hmem.symm
  · exact isDigit_ne_cr h₃ hmem.symm

theorem StatusOk.append (h : StatusOk head) (more : List Byte) : StatusOk (head ++ more) := by
  obtain ⟨version, c₁, c₂, c₃, rest, rfl, hstatus⟩ := h
  exact ⟨version, c₁, c₂, c₃, rest ++ more, by simp, hstatus⟩

/-- **The headers show the status of the stream.** -/
theorem success_iff_statusOk (hend : HeadersEnd buffer n) :
    httpResponseSuccess buffer n = true ↔ StatusOk buffer := by
  have hlength : (buffer.take n).length = n := List.length_take_of_le hend.le
  rw [httpResponseSuccess_take]
  constructor
  · intro h
    have hlong : 12 ≤ n := by
      by_contra hshort
      unfold httpResponseSuccess at h
      rw [if_pos (.inl (by omega))] at h
      cases h
    have hstatus : StatusOk (buffer.take n) :=
      (httpResponseSuccess_iff (by omega)).mp (by rw [hlength]; exact h)
    have hbuffer := hstatus.append (buffer.drop n)
    rwa [List.take_append_drop] at hbuffer
  · intro h
    obtain ⟨status, rest, hbuffer, hstatus, hlong, hle⟩ := h.before_end hend
    have htake : StatusOk (buffer.take n) := by
      rw [hbuffer, List.take_append, List.take_of_length_le (by omega)]
      exact hstatus.append _
    have hsuccess := (httpResponseSuccess_iff (by omega)).mpr htake
    rwa [hlength] at hsuccess

/-- The status of a stream is the one of every beginning that contains the headers. -/
theorem statusOk_append (hend : HeadersEnd buffer n) (more : List Byte) :
    StatusOk (buffer ++ more) ↔ StatusOk buffer := by
  constructor
  · intro h
    obtain ⟨status, rest, hsplit, hstatus, -, hle⟩ := h.before_end ((headersEnd_append more hend.le).mpr hend)
    have hlength := hend.le
    obtain ⟨rest, rfl⟩ : List.IsPrefix status buffer :=
      List.prefix_of_prefix_length_le ⟨rest, hsplit.symm⟩ ⟨more, rfl⟩ (by omega)
    exact hstatus.append rest
  · exact fun h => h.append more

end Status

/-! ## The loop -/

section Loop

variable {capacity : Nat} {stream buffer : List Byte}

/-- What is made of a stream: its headers are skipped, or they are not accepted. Headers that end with the
buffer are left open. -/
def Skips (capacity : Nat) (stream : List Byte) (r : Skipped) : Prop :=
  r.buffer = stream.take r.buffer.length ∧
    ((r.code = 0 ∧ r.buffer.length ≤ capacity ∧ r.buffered = some r.buffer.length ∧
        ∃ n, Accepted capacity stream n ∧ n ≤ r.buffer.length ∧ r.bodyOffset = some n) ∨
      (r.code = -1 ∧ r.buffered = none ∧ r.bodyOffset = none ∧
        ∀ n, Accepted capacity stream n → n = capacity))

/-- An answer is an interrupt, the end of the stream, or its next bytes. -/
theorem recv_cases {offset length : Nat} {s s' : Peer} {r : Transfer (List Byte)}
    (h : going (.recv offset length) s r s') :
    (r = .failed eintr ∧ s'.stream = s.stream ∧ s'.interrupts < s.interrupts) ∨
      (s.stream = [] ∧ (r = .done [] ∨ ∃ errno, r = .failed errno ∧ errno ≠ eintr)) ∨
      (0 < length → ∃ received, r = .done received ∧ received ≠ [] ∧ received.length ≤ length ∧
        s.stream = received ++ s'.stream) := by
  obtain ⟨c, hok, hc⟩ := h
  rcases interruptible_cases hc with ⟨rfl, hstream, -, hlt⟩ | hcall
  · exact .inl ⟨rfl, hstream, hlt⟩
  right
  unfold Peer.recv at hcall
  by_cases hempty : s.stream = []
  · rw [if_pos hempty] at hcall
    cases hending : s.ending with
    | closed =>
      rw [hending] at hcall
      exact .inl ⟨hempty, .inl (Prod.mk.inj hcall).1.symm⟩
    | failed errno herrno =>
      rw [hending] at hcall
      exact .inl ⟨hempty, .inr ⟨errno, (Prod.mk.inj hcall).1.symm, herrno⟩⟩
  · rw [if_neg hempty] at hcall
    obtain ⟨rfl, rfl⟩ := Prod.mk.inj hcall
    refine .inr fun hlength => ⟨_, rfl, ?_, ?_, (List.take_append_drop _ _).symm⟩
    · intro htake
      rcases List.take_eq_nil_iff.mp htake with hzero | hnil
      · omega
      · exact hempty hnil
    · rw [List.length_take]
      omega

theorem cancelled_cases {s s' : Peer} {stop : Bool} (h : going .cancelled s stop s') :
    stop = false ∧ s' = s := by
  obtain ⟨c, hok, hc⟩ := h
  obtain ⟨rfl, rfl⟩ := Prod.mk.inj hc
  exact ⟨by rw [hok]; rfl, rfl⟩

/-- Headers that are not in the first part of the stream end behind it. -/
theorem lt_of_headersEnd {more : List Byte} {n : Nat} (hnone : ∀ index, ¬ OccursAt emptyLine buffer index)
    (hend : HeadersEnd (buffer ++ more) n) : buffer.length < n := by
  by_contra hle
  exact not_headersEnd hnone ((headersEnd_append _ (by omega)).mp hend)

/-- What is made of the stream when an answer has been appended to the buffer. -/
theorem skips_found {index : Nat} (more : List Byte) (hle : buffer.length ≤ capacity)
    (hfound : findEmptyLine buffer = some index) :
    Skips capacity (buffer ++ more)
      (if httpResponseSuccess buffer (index + 4) then
        ⟨0, some (index + 4), some buffer.length, buffer⟩ else ⟨-1, none, none, buffer⟩) := by
  have hend : HeadersEnd buffer (index + 4) := ⟨index, findEmptyLine_eq_some.mp hfound, rfl⟩
  have hstream := (headersEnd_append more hend.le).mpr hend
  by_cases hsuccess : httpResponseSuccess buffer (index + 4) = true
  · rw [if_pos hsuccess]
    have hstatus := (statusOk_append hend more).mpr ((success_iff_statusOk hend).mp hsuccess)
    refine ⟨List.take_left.symm, .inl ⟨rfl, hle, rfl, index + 4, ⟨hstream, ?_, hstatus⟩, hend.le, rfl⟩⟩
    exact Nat.le_trans hend.le hle
  · rw [if_neg hsuccess]
    refine ⟨List.take_left.symm, .inr ⟨rfl, rfl, rfl, ?_⟩⟩
    rintro n ⟨-, -, hstatus⟩
    exact absurd ((success_iff_statusOk hend).mpr ((statusOk_append hend more).mp hstatus)) hsuccess

/-- The stream or the buffer ends before the headers do. -/
theorem skips_short {more : List Byte} (hnone : ∀ index, ¬ OccursAt emptyLine buffer index)
    (hshort : more = [] ∨ capacity ≤ buffer.length + 1) :
    Skips capacity (buffer ++ more) ⟨-1, none, none, buffer⟩ := by
  refine ⟨List.take_left.symm, .inr ⟨rfl, rfl, rfl, ?_⟩⟩
  rintro n ⟨hend, hle, -⟩
  have hlt := lt_of_headersEnd hnone hend
  rcases hshort with rfl | hfull
  · have hn := hend.le
    rw [List.append_nil] at hn
    omega
  · omega

/-- How the stream goes on once `recv` is not interrupted. -/
def Received (capacity : Nat) (stream buffer rest : List Byte) : Option (Transfer (List Byte)) → Prop
  | none => False
  | some (.failed _) | some (.done []) => stream = buffer
  | some (.done received) => buffer.length + received.length ≤ capacity ∧
      stream = (buffer ++ received) ++ rest

/-- **Every run of the loop.** -/
theorem wp_skipLoop (hle : buffer.length ≤ capacity)
    (hnone : ∀ index, ¬ OccursAt emptyLine buffer index) {s : Peer} (hs : stream = buffer ++ s.stream) :
    wp going (fun _ => True) (skipLoop capacity buffer) (fun r _ => Skips capacity stream r) s := by
  induction hroom : capacity - buffer.length using Nat.strongRecOn generalizing buffer s with
  | ind room ih =>
    subst hroom
    rw [skipLoop]
    by_cases hmore : buffer.length + 1 < capacity
    swap
    · rw [if_neg hmore, hs]
      exact wp_ret.mpr ⟨trivial, skips_short hnone (.inr (by omega))⟩
    rw [if_pos hmore]
    -- an interrupted call leaves the stream as it is
    refine wp_loop (J := fun x => stream = buffer ++ x.stream)
      (B := fun o x => Received capacity stream buffer x.stream o) (fun _ _ => trivial) ?_ ?_ hs
    · intro x hx stop x₁ hstop
      obtain ⟨rfl, rfl⟩ := cancelled_cases hstop
      refine wp_call.mpr ⟨trivial, fun r x₂ hr => wp_ret.mpr ⟨trivial, ?_⟩⟩
      rcases recv_cases hr with ⟨rfl, hstream, -⟩ | ⟨hempty, hr⟩ | hr
      · simpa [Transfer.settled, hstream] using hx
      · rw [hempty, List.append_nil] at hx
        rcases hr with rfl | ⟨errno, rfl, herrno⟩
        · exact hx
        · simpa [Transfer.settled, herrno, Received] using hx
      · obtain ⟨received, rfl, hne, hlength, hstream⟩ := hr (by omega)
        obtain ⟨c, received, rfl⟩ := List.exists_cons_of_ne_nil hne
        refine ⟨by omega, ?_⟩
        rw [List.append_assoc, ← hstream]
        exact hx
    · rintro (_ | errno | received) x hx
      · exact hx.elim
      · obtain rfl : stream = buffer := hx
        have hshort : Skips capacity (stream ++ []) _ := skips_short hnone (.inl rfl)
        rw [List.append_nil] at hshort
        exact wp_ret.mpr ⟨trivial, hshort⟩
      · cases received with
        | nil =>
          obtain rfl : stream = buffer := hx
          have hshort : Skips capacity (stream ++ []) _ := skips_short hnone (.inl rfl)
          rw [List.append_nil] at hshort
          exact wp_ret.mpr ⟨trivial, hshort⟩
        | cons c received =>
          obtain ⟨hlength, hstream⟩ := hx
          rw [← List.length_append] at hlength
          simp only [reduceCtorEq, if_false]
          cases hfound : findEmptyLine (buffer ++ c :: received) with
          | some index =>
            have hskips := skips_found x.stream hlength hfound
            rw [← hstream] at hskips
            dsimp only
            rw [← apply_ite Prog.ret]
            exact wp_ret.mpr ⟨trivial, hskips⟩
          | none =>
            refine ih _ ?_ hlength (findEmptyLine_eq_none hfound) hstream rfl
            rw [List.length_append, List.length_cons] at hlength ⊢
            omega

theorem wp_skipHttpHeaders (capacity : Nat) (s : Peer) :
    wp going (fun _ => True) (skipHttpHeaders capacity) (fun r _ => Skips capacity s.stream r) s :=
  wp_skipLoop (Nat.zero_le _) (fun _ h => absurd h.le (by simp [emptyLine])) rfl

/-- Interrupts and bytes run out. -/
theorem terminates_skipLoop (capacity : Nat) (buffer : List Byte) (s : Peer) :
    Terminates going (skipLoop capacity buffer) s := by
  induction hroom : capacity - buffer.length using Nat.strongRecOn generalizing buffer s with
  | ind room ih =>
    subst hroom
    induction hinterrupts : s.interrupts using Nat.strongRecOn generalizing s with
    | ind interrupts again =>
      subst hinterrupts
      rw [skipLoop]
      by_cases hmore : buffer.length + 1 < capacity
      swap
      · rw [if_neg hmore]
        exact .ret _ _
      rw [if_pos hmore]
      refine .call rfl fun stop s₁ hstop => ?_
      obtain ⟨rfl, rfl⟩ := cancelled_cases hstop
      refine .call rfl fun r s₂ hr => ?_
      rcases recv_cases hr with ⟨rfl, -, hlt⟩ | ⟨-, hr⟩ | hr
      · have hagain := again _ hlt s₂ rfl
        rw [skipLoop, if_pos hmore] at hagain
        exact hagain
      · rcases hr with rfl | ⟨errno, rfl, herrno⟩
        · exact .ret _ _
        · simp only [Transfer.settled, herrno, if_false]
          exact .ret _ _
      · obtain ⟨received, rfl, hne, -, -⟩ := hr (by omega)
        have hpos := List.length_pos_of_ne_nil hne
        simp only [Transfer.settled, Option.map_some, Prog.ret_bind, Prog.again, if_neg hne]
        split
        · split
          · exact .ret _ _
          · exact .ret _ _
        · refine ih _ ?_ _ _ rfl
          rw [List.length_append]
          omega

end Loop

/-! ## Headlines -/

section

variable {capacity : Nat} {stream : List Byte}

/-- The result does not depend on how the stream is cut and interrupted, and it is the right one. -/
def Independent (capacity : Nat) (stream : List Byte) : Prop :=
  ∀ s t : Peer, s.stream = stream → t.stream = stream →
    Terminates going (skipHttpHeaders capacity) s ∧ Terminates going (skipHttpHeaders capacity) t ∧
      ∀ r s' r' t', Runs going (skipHttpHeaders capacity) s r s' →
        Runs going (skipHttpHeaders capacity) t r' t' →
        r.code = r'.code ∧ r.bodyOffset = r'.bodyOffset ∧
        (r.code = 0 ↔ ∃ n, Accepted capacity stream n) ∧
        (r.code = 0 → ∃ n m, HeadersEnd stream n ∧ r.bodyOffset = some n ∧ r.buffered = some m ∧
          n ≤ m ∧ m ≤ capacity ∧ r.buffer.length = m ∧ r.buffer = stream.take m)

/-- What a run makes of a stream whose headers do not end with the buffer. -/
theorem Skips.outcome {r : Skipped} (h : Skips capacity stream r)
    (hopen : ¬ Accepted capacity stream capacity) :
    (∀ n, Accepted capacity stream n → r.code = 0 ∧ r.bodyOffset = some n ∧
      r.buffered = some r.buffer.length ∧ n ≤ r.buffer.length ∧ r.buffer.length ≤ capacity ∧
      r.buffer = stream.take r.buffer.length) ∧
    ((∀ n, ¬ Accepted capacity stream n) → r.code = -1 ∧ r.bodyOffset = none) := by
  obtain ⟨hbuffer, ⟨hcode, hle, hbuffered, n, haccepted, hn, hoffset⟩ | ⟨hcode, -, hoffset, hnone⟩⟩ := h
  · constructor
    · intro m hm
      obtain rfl := hm.1.unique haccepted.1
      exact ⟨hcode, hoffset, hbuffered, hn, hle, hbuffer⟩
    · exact fun hno => absurd haccepted (hno n)
  · constructor
    · intro m hm
      obtain rfl := hnone m hm
      exact absurd hm hopen
    · exact fun _ => ⟨hcode, hoffset⟩

theorem independent_of_not_accepted (hopen : ¬ Accepted capacity stream capacity) :
    Independent capacity stream := by
  rintro s t rfl ht
  refine ⟨terminates_skipLoop capacity [] s, terminates_skipLoop capacity [] t, ?_⟩
  intro r s' r' t' hr hr'
  have hskips := (wp_skipHttpHeaders capacity t).runs hr'
  rw [ht] at hskips
  obtain ⟨hfound, hnone⟩ := ((wp_skipHttpHeaders capacity s).runs hr).outcome hopen
  obtain ⟨hfound', hnone'⟩ := hskips.outcome hopen
  by_cases haccepted : ∃ n, Accepted capacity s.stream n
  · obtain ⟨n, hn⟩ := haccepted
    obtain ⟨hcode, hoffset, hbuffered, hle, hcapacity, hbuffer⟩ := hfound n hn
    obtain ⟨hcode', hoffset', -⟩ := hfound' n hn
    exact ⟨hcode.trans hcode'.symm, hoffset.trans hoffset'.symm, ⟨fun _ => ⟨n, hn⟩, fun _ => hcode⟩,
      fun _ => ⟨n, _, hn.1, hoffset, hbuffered, hle, hcapacity, rfl, hbuffer⟩⟩
  · have hno : ∀ n, ¬ Accepted capacity s.stream n := fun n hn => haccepted ⟨n, hn⟩
    obtain ⟨hcode, hoffset⟩ := hnone hno
    obtain ⟨hcode', hoffset'⟩ := hnone' hno
    have hfails : r.code ≠ 0 := by rw [hcode]; decide
    exact ⟨hcode.trans hcode'.symm, hoffset.trans hoffset'.symm,
      ⟨fun h => absurd h hfails, fun h => absurd h haccepted⟩, fun h => absurd h hfails⟩

/-- A connection that is never interrupted. -/
def quiet (stream : List Byte) : Peer := ⟨stream, .closed, 0, [], 0⟩

/-- The run whose first read takes `count` bytes, when it ends with them. -/
theorem exists_run {count : Nat} (hcapacity : 1 < capacity) (hpos : 1 ≤ count) (hle : count ≤ capacity)
    (hlength : count ≤ stream.length) {r : Skipped}
    (hr : (match findEmptyLine (stream.take count) with
      | some index =>
        if httpResponseSuccess (stream.take count) (index + 4) then
          .ret ⟨0, some (index + 4), some (stream.take count).length, stream.take count⟩
        else .ret ⟨-1, none, none, stream.take count⟩
      | none => skipLoop capacity (stream.take count)) = (.ret r : HeaderProg Skipped)) :
    ∃ s', Runs going (skipHttpHeaders capacity) (quiet stream) r s' := by
  have hne : stream ≠ [] := by
    rintro rfl
    rw [List.length_nil] at hlength
    omega
  have hcount : min (max 1 count) capacity = count := by omega
  have hrecv : going (.recv 0 capacity) (quiet stream) (.done (stream.take count))
      { quiet stream with stream := stream.drop count } := by
    refine ⟨⟨true, false, count, 0⟩, rfl, ?_⟩
    simp [headerSem, Peer.interruptible, Peer.recv, quiet, hne, hcount]
  refine ⟨{ quiet stream with stream := stream.drop count },
    [⟨.cancelled, false⟩, ⟨.recv 0 capacity, .done (stream.take count)⟩], ?_⟩
  unfold skipHttpHeaders
  rw [skipLoop, if_pos (by simpa using hcapacity)]
  refine .step rfl ⟨⟨true, false, 0, 0⟩, rfl, rfl⟩ (.step rfl hrecv ?_)
  have htake : stream.take count ≠ [] := by
    intro h
    rcases List.take_eq_nil_iff.mp h with hzero | hnil
    · omega
    · exact hne hnil
  simp only [Transfer.settled, Option.map_some, Prog.ret_bind, Prog.again, if_neg htake, List.nil_append]
  rw [hr]
  exact .refl _ _

/-- A first read that stops one byte before headers that end with the buffer. -/
theorem exists_short_run (hend : HeadersEnd stream capacity) :
    ∃ s', Runs going (skipHttpHeaders capacity) (quiet stream)
      ⟨-1, none, none, stream.take (capacity - 1)⟩ s' := by
  obtain ⟨index, hfirst, hcapacity⟩ := hend
  have hle : index + 4 ≤ stream.length := hfirst.1.le
  have hlength : (stream.take (capacity - 1)).length = capacity - 1 := List.length_take_of_le (by omega)
  have hnone : findEmptyLine (stream.take (capacity - 1)) = none := by
    cases hfound : findEmptyLine (stream.take (capacity - 1)) with
    | none => rfl
    | some j =>
      have hj := findEmptyLine_eq_some.mp hfound
      have hshort : j + 4 ≤ (stream.take (capacity - 1)).length := hj.1.le
      have hstream := (firstAt_append (m := stream.drop (capacity - 1)) hj.1.le).mpr hj
      rw [List.take_append_drop] at hstream
      have hsame := hfirst.unique hstream
      omega
  refine @exists_run capacity stream (capacity - 1) (by omega) (by omega) (by omega) (by omega) _ ?_
  rw [hnone]
  dsimp only
  rw [skipLoop, if_neg (by omega)]

/-- A first read that takes the accepted headers. -/
theorem exists_full_run (haccepted : Accepted capacity stream capacity) :
    ∃ s', Runs going (skipHttpHeaders capacity) (quiet stream)
      ⟨0, some capacity, some capacity, stream.take capacity⟩ s' := by
  obtain ⟨hend, -, hstatus⟩ := haccepted
  have hlength : (stream.take capacity).length = capacity := List.length_take_of_le hend.le
  have hhead : HeadersEnd (stream.take capacity) capacity := by
    rw [← List.take_append_drop capacity stream] at hend
    exact (headersEnd_append _ (by omega)).mp hend
  have hsuccess : httpResponseSuccess (stream.take capacity) capacity = true := by
    rw [success_iff_statusOk hhead, ← statusOk_append hhead (stream.drop capacity),
      List.take_append_drop]
    exact hstatus
  have hle := hend.le
  obtain ⟨index, hfirst, hcapacity⟩ := hhead
  refine exists_run (by omega) (by omega) (Nat.le_refl _) (by omega) ?_
  rw [findEmptyLine_eq_some.mpr hfirst]
  dsimp only
  rw [← hcapacity, if_pos hsuccess, hlength]

/-- **When header skipping depends on the stream alone**: unless accepted headers end exactly with the
buffer. -/
theorem skipHttpHeaders_segmentation (capacity : Nat) (stream : List Byte) :
    Independent capacity stream ↔ ¬ (HeadersEnd stream capacity ∧ StatusOk stream) := by
  constructor
  · rintro hindependent ⟨hend, hstatus⟩
    obtain ⟨s', hrun⟩ := exists_short_run hend
    obtain ⟨-, -, hruns⟩ := hindependent (quiet stream) (quiet stream) rfl rfl
    obtain ⟨-, -, hcode, -⟩ := hruns _ _ _ _ hrun hrun
    have hzero : (-1 : Int) = 0 := hcode.mpr ⟨capacity, hend, Nat.le_refl _, hstatus⟩
    exact absurd hzero (by decide)
  · intro hopen
    exact independent_of_not_accepted fun h => hopen ⟨h.1, h.2.2⟩

/-- Headers without a carriage return end with the first empty line. -/
theorem headersEnd_of_not_mem {before : List Byte} (hcr : cr ∉ before) (after : List Byte) :
    HeadersEnd (before ++ emptyLine ++ after) (before.length + 4) := by
  refine ⟨before.length, ⟨⟨before, after, rfl, rfl⟩, ?_⟩, rfl⟩
  rintro j hj ⟨before', after', hsplit, rfl⟩
  have hat : (before ++ emptyLine ++ after)[before'.length]? = some cr := by
    rw [hsplit, List.append_assoc, List.getElem?_append_right (Nat.le_refl _), Nat.sub_self]
    rfl
  rw [List.append_assoc, List.getElem?_append_left hj] at hat
  exact hcr (List.mem_of_getElem? hat)

/-- Headers that fill the buffer of `measure_speed`, by a long reason phrase. -/
def fullHeaders : List Byte := http ++ [49, 46, 49, 32, 50, 48, 48, 32] ++ List.replicate 16367 79

/-- Headers that fill the buffer, and their end. -/
def fullResponse : List Byte := fullHeaders ++ emptyLine

theorem headersEnd_fullResponse : HeadersEnd fullResponse 16384 := by
  have hlength : fullHeaders.length + 4 = 16384 := by
    unfold fullHeaders
    rw [List.length_append, List.length_replicate]
    rfl
  have hcr : cr ∉ fullHeaders := by
    unfold fullHeaders
    rw [List.mem_append, not_or]
    constructor
    · decide
    · exact fun h => absurd (List.eq_of_mem_replicate h) (by decide)
  have hend := headersEnd_of_not_mem hcr []
  rwa [List.append_nil, hlength] at hend

theorem statusOk_fullResponse : StatusOk fullResponse := by
  refine ⟨[49, 46, 49], 50, 48, 48, 32 :: (List.replicate 16367 79 ++ emptyLine), ?_, by decide⟩
  unfold fullResponse fullHeaders
  rw [List.append_assoc, List.append_assoc]
  rfl

/-- One read takes all of the headers, another one stops one byte before their end. -/
theorem segmentation_at_capacity : ∃ s' t',
    HeadersEnd fullResponse 16384 ∧ StatusOk fullResponse ∧
      Runs going (skipHttpHeaders 16384) (quiet fullResponse)
        ⟨0, some 16384, some 16384, fullResponse.take 16384⟩ s' ∧
      Runs going (skipHttpHeaders 16384) (quiet fullResponse)
        ⟨-1, none, none, fullResponse.take 16383⟩ t' := by
  obtain ⟨s', hfull⟩ := exists_full_run ⟨headersEnd_fullResponse, Nat.le_refl _, statusOk_fullResponse⟩
  obtain ⟨t', hshort⟩ := exists_short_run headersEnd_fullResponse
  exact ⟨s', t', headersEnd_fullResponse, statusOk_fullResponse, hfull, hshort⟩

end

end FreeProxy.Headers
