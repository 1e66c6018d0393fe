import FreeProxy.Config.Text
import FreeProxy.Lib.Tokens
import FreeProxy.System.Cmdline
import FreeProxy.System.Readiness

/-!
# The daemon by its record

`read_process_record`, `process_start_time` and `fp_daemon_matches_config` of `src/process.c`, on the text of
`FP_PID_PATH` and of `/proc/<pid>/stat`. The record is what `fp_write_pid` prints (`recordText`).

* `scanInteger` is what `fscanf` and `strtoull` read of a number; `%15s` is `scanWord`.
* A `Stat` is a line of `/proc/<pid>/stat`. The name of the process is any string without a newline, so it
  may look like the rest of the line; `strrchr` finds its end because no field has a parenthesis.

Headline: **`identity_roundTrip`**.

Out of scope: a pid file that something other than `fp_write_pid` has written.
-/

namespace FreeProxy.Identity

open Lib Readiness

/-! ## Numbers and words -/

/-- The integer at the beginning of a text: blanks, a sign, digits; and the rest. -/
def scanInteger (s : List Char) : Option ((Bool × Nat) × List Char) :=
  let signed := strtolSign (s.dropWhile isSpace)
  let digits := signed.2.takeWhile Char.isDigit
  if digits = [] then none
  else some ((signed.1, Nat.ofDigitChars 10 digits 0), signed.2.drop digits.length)

/-- The nearest `long`. -/
def toLong (negative : Bool) (magnitude : Nat) : Int :=
  max strtolMin (min strtolMax (if negative then -magnitude else magnitude))

/-- The `unsigned long long`, the greatest one when it is out of range. -/
def toUnsigned (negative : Bool) (magnitude : Nat) : Nat :=
  if 2 ^ 64 ≤ magnitude then 2 ^ 64 - 1 else if negative then (2 ^ 64 - magnitude) % 2 ^ 64 else magnitude

/-- `%ld` -/
def scanLong (s : List Char) : Option (Int × List Char) :=
  (scanInteger s).map fun (number, rest) => (toLong number.1 number.2, rest)

/-- `%llu` -/
def scanUnsignedLong (s : List Char) : Option (Nat × List Char) :=
  (scanInteger s).map fun (number, rest) => (toUnsigned number.1 number.2, rest)

/-- `%u`, read as an `unsigned long` and cut to an `unsigned int`. -/
def scanUnsigned (s : List Char) : Option (Nat × List Char) :=
  (scanInteger s).map fun (number, rest) => (toUnsigned number.1 number.2 % 2 ^ 32, rest)

/-- `%15s`, with this width. -/
def scanWord (width : Nat) (s : List Char) : Option (List Char × List Char) :=
  let s := s.dropWhile isSpace
  let word := (s.takeWhile fun c => !isSpace c).take width
  if word = [] then none else some (word, s.drop word.length)

/-- What `strtoull` gives. -/
structure Strtoull where
  value : Nat
  /-- `*end` -/
  rest : List Char
  /-- `errno == ERANGE` -/
  erange : Bool

/-- `strtoull(s, &end, 10)`; without digits nothing is read and the value is `0`. -/
def strtoull (s : List Char) : Strtoull :=
  match scanInteger s with
  | none => ⟨0, s, false⟩
  | some (number, rest) => ⟨toUnsigned number.1 number.2, rest, decide (2 ^ 64 ≤ number.2)⟩

/-- A string in memory ends at the first `nul`. -/
def cString (s : List Char) : List Char := s.takeWhile (· != Cmdline.nul)

/-! ## The code -/

/-- What `read_process_record` gives. -/
structure ProcessRecord where
  pid : BitVec 32
  startTime : Nat
  proxyAddr : Addr
  proxyPort : BitVec 16
  deriving DecidableEq

/-- `fscanf(file, "%ld %llu %15s %u", ...)`, when it converts all four. -/
def scanRecord (text : List Char) : Option (Int × Nat × List Char × Nat) := do
  let (parsedPid, rest) ← scanLong text
  let (startTime, rest) ← scanUnsignedLong rest
  let (address, rest) ← scanWord (inetAddrstrlen - 1) rest
  let (port, _) ← scanUnsigned rest
  pure (parsedPid, startTime, address, port)

/-- `read_process_record`; `file` is `FP_PID_PATH`, when it can be opened. -/
def readProcessRecord (file : Option (List Char)) : Option ProcessRecord := do
  let text ← file
  let (parsedPid, startTime, address, port) ← scanRecord text
  if parsedPid ≤ 1 ∨ 65535 < port then none else do
  let proxyAddr ← inetPton (cString address)
  pure ⟨BitVec.ofInt 32 parsedPid, startTime, proxyAddr, BitVec.ofNat 16 port⟩

/-- The loop of `process_start_time` over the tokens that are left. -/
def scanFields : Nat → List (List Char) → Option Nat
  | _, [] => none
  | field, token :: rest =>
    if field = 22 then
      let number := strtoull token
      if number.erange = false ∧ number.rest ≠ token then some number.value else none
    else scanFields (field + 1) rest

/-- `sizeof(line)`. -/
def statLineSize : Nat := 1024

/-- `process_start_time`; `stat` is `/proc/<pid>/stat`, when it can be opened. -/
def processStartTime (stat : Option (List Char)) : Option Nat := do
  let text ← stat
  let line := (fgets (statLineSize - 1) text).1
  if line = [] then none else
  match cutLast ')' (cString line) with
  | some (_, ' ' :: cursor) => scanFields 3 (tokens ' ' cursor)
  | _ => none

/-- What `/proc` shows of a process. -/
structure ProcText where
  stat : Option (List Char)
  exe : Option (List Char)
  cmdline : Option (List Char)

/-- What the code reads of it. -/
def ProcText.files (p : ProcText) : Cmdline.ProcFiles := ⟨processStartTime p.stat, p.exe, p.cmdline⟩

/-- `fp_daemon_matches_config`; `memory` is the stack, of which `cmdline_is_run` may read. -/
def fpDaemonMatchesConfig (memory : Nat → Char) (pidFile : Option (List Char)) (proc : BitVec 32 → ProcText)
    (config : Config) : Bool :=
  match readProcessRecord pidFile with
  | none => false
  | some running =>
    Cmdline.processIsOurs memory (proc running.pid).files running.startTime &&
      (running.proxyPort == config.proxyPort && running.proxyAddr == config.proxyAddr)

/-! ## The line of a process -/

/-- The name of a process is a string; it may have blanks and parentheses. -/
structure Comm where
  text : List Char
  noNul : Cmdline.nul ∉ text
  oneLine : '\n' ∉ text

/-- A number, which may have a sign, or a letter. -/
structure Field where
  text : List Char
  ne : text ≠ []
  plain : ∀ c ∈ text, c ≠ Cmdline.nul ∧ c ≠ '\n' ∧ c ≠ ' ' ∧ c ≠ ')'

/-- `/proc/<pid>/stat`. -/
structure Stat where
  pid : Field
  comm : Comm
  /-- the fields from 3 to 21 -/
  before : List Field
  before_length : before.length = 19
  startTime : Nat
  startTime_lt : startTime < 2 ^ 64
  /-- the fields behind the 22nd -/
  after : List Field

/-- Fields, with a blank before each. -/
def fieldsText (fields : List Field) : List Char := (fields.map Field.text).flatMap (' ' :: ·)

namespace Stat

/-- What stands before the name's end. -/
def front (stat : Stat) : List Char := stat.pid.text ++ ' ' :: '(' :: stat.comm.text

/-- The line up to the 22nd field. -/
def head (stat : Stat) : List Char :=
  stat.front ++ ')' :: (fieldsText stat.before ++ ' ' :: decimal stat.startTime)

/-- The line. -/
def text (stat : Stat) : List Char := stat.head ++ fieldsText stat.after ++ ['\n']

/-- `fgets` reads the 22nd field to its end. -/
def Fits (stat : Stat) : Prop := stat.head.length ≤ statLineSize - 1

end Stat

/-! ## What is printed, read back -/

section Scan

variable {n : Nat} {s t : List Char}

/-- Digits that no digit follows. -/
theorem scanInteger_decimal (ht : ∀ c ∈ t.head?, c.isDigit = false) :
    scanInteger (decimal n ++ t) = some ((false, n), t) := by
  have hall : ∀ c ∈ decimal n, c.isDigit = true := fun c hc => isDigit_of_mem_decimal hc
  have hne : decimal n ≠ [] := Nat.toDigits_ne_nil
  have hstop : t.takeWhile Char.isDigit = [] := by
    cases t with
    | nil => rfl
    | cons c t => exact List.takeWhile_cons_of_neg (by simpa using ht c rfl)
  have htake : (decimal n ++ t).takeWhile Char.isDigit = decimal n := by
    rw [List.takeWhile_append_of_pos hall, hstop, List.append_nil]
  unfold scanInteger
  simp only [strtolSign_decimal n t, htake, if_neg hne, List.drop_left]
  exact congrArg (fun m => some ((false, m), t)) Nat.ofDigitChars_ten_toDigits

theorem scanInteger_blank : scanInteger (' ' :: s) = scanInteger s := by
  unfold scanInteger
  rw [List.dropWhile_cons_of_pos rfl]

theorem toLong_of_le (h : (n : Int) ≤ strtolMax) : toLong false n = n := by
  unfold toLong strtolMin strtolMax at *
  simp only [Bool.false_eq_true, if_false]
  omega

theorem toUnsigned_of_lt (h : n < 2 ^ 64) : toUnsigned false n = n := by
  unfold toUnsigned
  rw [if_neg (Nat.not_le.mpr h)]
  rfl

/-- A word that a blank follows, when it is not too long. -/
theorem scanWord_word {width : Nat} (hne : s ≠ []) (hs : ∀ c ∈ s, isSpace c = false)
    (hlen : s.length ≤ width) : scanWord width (' ' :: (s ++ ' ' :: t)) = some (s, ' ' :: t) := by
  have hskip : (' ' :: (s ++ ' ' :: t)).dropWhile isSpace = s ++ ' ' :: t := by
    obtain ⟨c, rest, rfl⟩ := List.exists_cons_of_ne_nil hne
    have hc := hs c List.mem_cons_self
    rw [List.dropWhile_cons_of_pos rfl, List.cons_append, List.dropWhile_cons_of_neg (by simp [hc])]
  have htake : (s ++ ' ' :: t).takeWhile (fun c => !isSpace c) = s := by
    rw [List.takeWhile_append_of_pos fun c hc => by simp [hs c hc], List.takeWhile_cons_of_neg (by decide),
      List.append_nil]
  unfold scanWord
  simp only [hskip, htake, List.take_of_length_le hlen, if_neg hne, List.drop_left]

theorem strtoull_decimal (hn : n < 2 ^ 64) (ht : ∀ c ∈ t.head?, c.isDigit = false) :
    strtoull (decimal n ++ t) = ⟨n, t, false⟩ := by
  unfold strtoull
  rw [scanInteger_decimal ht]
  simp only [toUnsigned_of_lt hn, decide_eq_false (Nat.not_le.mpr hn)]

end Scan

theorem notSpace_inetNtop (a : Addr) : ∀ c ∈ inetNtop a, isSpace c = false := by
  intro c hc
  rcases plain_inetNtop a c hc with h | rfl | rfl
  · exact isDigit_not_isSpace h
  · rfl
  · rfl

theorem cString_of_notMem {s : List Char} (h : Cmdline.nul ∉ s) : cString s = s := by
  refine List.takeWhile_eq_self_iff.mpr fun c hc => ?_
  rw [bne_iff_ne]
  rintro rfl
  exact h hc

theorem scanRecord_recordText {pid startTime : Nat} (config : Config) (hpid : pid < 2 ^ 31)
    (hstart : startTime < 2 ^ 64) : scanRecord (recordText pid startTime config) =
      some ((pid : Int), startTime, inetNtop config.proxyAddr, config.proxyPort.toNat) := by
  have hport := config.proxyPort.isLt
  have hblank : ∀ {s : List Char}, ∀ c ∈ (' ' :: s).head?, c.isDigit = false := by
    rintro s c ⟨⟩
    rfl
  have hnewline : ∀ c ∈ ['\n'].head?, c.isDigit = false := by
    rintro c ⟨⟩
    rfl
  have hne : inetNtop config.proxyAddr ≠ [] := by simp [inetNtop]
  have hlen : (inetNtop config.proxyAddr).length ≤ inetAddrstrlen - 1 := Nat.le_pred_of_lt (length_inetNtop _)
  have hlong : toLong false pid = pid := toLong_of_le (by unfold strtolMax; omega)
  have hunsigned : toUnsigned false config.proxyPort.toNat % 2 ^ 32 = config.proxyPort.toNat := by
    rw [toUnsigned_of_lt (by omega)]
    exact Nat.mod_eq_of_lt (by omega)
  simp only [recordText, scanRecord, scanLong, scanUnsignedLong, scanUnsigned, List.append_assoc,
    List.cons_append, scanInteger_decimal hblank, scanInteger_decimal hnewline, scanInteger_blank,
    scanWord_word hne (notSpace_inetNtop _) hlen, Option.map_some, Option.bind_eq_bind, Option.bind_some,
    hlong, toUnsigned_of_lt hstart, hunsigned]
  rfl

/-- **`read_process_record` reads what `fp_write_pid` prints.** -/
theorem readProcessRecord_recordText {pid : BitVec 32} {startTime : Nat} (config : Config)
    (hpid : 1 < pid.toInt) (hstart : startTime < 2 ^ 64) :
    readProcessRecord (some (recordText pid.toNat startTime config)) =
      some ⟨pid, startTime, config.proxyAddr, config.proxyPort⟩ := by
  have hport := config.proxyPort.isLt
  have hpos : pid.toNat < 2 ^ 31 ∧ pid.toInt = pid.toNat := by
    rw [BitVec.toInt_eq_toNat_cond] at hpid ⊢
    split at hpid <;> omega
  have hcast : BitVec.ofInt 32 (pid.toNat : Int) = pid := by
    rw [← hpos.2, BitVec.ofInt_toInt]
  have hrange : ¬ ((pid.toNat : Int) ≤ 1 ∨ 65535 < config.proxyPort.toNat) := by omega
  have hnul : Cmdline.nul ∉ inetNtop config.proxyAddr := notMem_inetNtop rfl (by decide)
  simp only [readProcessRecord, scanRecord_recordText config hpos.1 hstart, Option.bind_eq_bind,
    Option.bind_some, if_neg hrange, cString_of_notMem hnul, inetPton_inetNtop, hcast,
    BitVec.ofNat_toNat, BitVec.setWidth_eq]
  rfl

/-! ## The 22nd field -/

theorem fgets_append {s t : List Char} (h : '\n' ∉ s) : ∀ {room : Nat}, s.length ≤ room →
    (fgets room (s ++ t)).1 = s ++ (fgets (room - s.length) t).1 := by
  induction s with
  | nil => exact fun _ => rfl
  | cons c s ih =>
    intro room hroom
    rw [List.mem_cons, not_or] at h
    obtain ⟨room, rfl⟩ : ∃ n, room = n + 1 := ⟨room - 1, by simp at hroom; omega⟩
    rw [List.cons_append, fgets, if_neg (Ne.symm h.1), ih h.2 (by simpa using hroom), List.length_cons,
      Nat.add_sub_add_right, List.cons_append]

theorem fgets_isPrefix : ∀ (room : Nat) (t : List Char), (fgets room t).1 <+: t
  | 0, _ => List.nil_prefix
  | _ + 1, [] => List.nil_prefix
  | room + 1, c :: t => by
    unfold fgets
    split
    · exact List.prefix_append [c] t
    · exact List.cons_prefix_cons.mpr ⟨rfl, fgets_isPrefix room t⟩

/-- The tokens before the 22nd are passed over. -/
theorem scanFields_append : ∀ {ws rest : List (List Char)} {field : Nat}, field + ws.length = 22 →
    scanFields field (ws ++ rest) = scanFields 22 rest
  | [], _, _, h => by
    rw [List.length_nil, Nat.add_zero] at h
    rw [h, List.nil_append]
  | w :: ws, rest, field, h => by
    rw [List.length_cons] at h
    have hfield : field ≠ 22 := by omega
    rw [List.cons_append, scanFields, if_neg hfield, scanFields_append (by omega)]

theorem Field.word (f : Field) : Word ' ' f.text := ⟨f.ne, fun h => (f.plain _ h).2.2.1 rfl⟩

theorem plain_fieldsText {fields : List Field} {c : Char} (h : c ∈ fieldsText fields) :
    c ≠ Cmdline.nul ∧ c ≠ '\n' ∧ c ≠ ')' := by
  obtain ⟨w, hw, hc⟩ := List.mem_flatMap.mp h
  obtain ⟨f, -, rfl⟩ := List.mem_map.mp hw
  rcases List.mem_cons.mp hc with rfl | hc
  · exact ⟨by decide, by decide, by decide⟩
  · obtain ⟨hnul, hnewline, -, hparen⟩ := f.plain c hc
    exact ⟨hnul, hnewline, hparen⟩

theorem plain_decimal_field {n : Nat} {c : Char} (h : c ∈ decimal n) :
    c ≠ Cmdline.nul ∧ c ≠ '\n' ∧ c ≠ ')' := by
  refine ⟨?_, ?_, ?_⟩ <;> rintro rfl <;> exact notMem_decimal rfl h

/-- The fields up to the 22nd, behind the name. -/
def fieldsHead (stat : Stat) : List Char := fieldsText stat.before ++ ' ' :: decimal stat.startTime

theorem plain_fieldsHead {stat : Stat} {c : Char} (h : c ∈ fieldsHead stat) :
    c ≠ Cmdline.nul ∧ c ≠ '\n' ∧ c ≠ ')' := by
  rcases List.mem_append.mp h with h | h
  · exact plain_fieldsText h
  rcases List.mem_cons.mp h with rfl | h
  · exact ⟨by decide, by decide, by decide⟩
  · exact plain_decimal_field h

theorem plain_head {stat : Stat} {c : Char} (h : c ∈ stat.head) : c ≠ Cmdline.nul ∧ c ≠ '\n' := by
  rcases List.mem_append.mp h with h | h
  · rcases List.mem_append.mp h with h | h
    · obtain ⟨hnul, hnewline, -⟩ := stat.pid.plain c h
      exact ⟨hnul, hnewline⟩
    rcases List.mem_cons.mp h with rfl | h
    · exact ⟨by decide, by decide⟩
    rcases List.mem_cons.mp h with rfl | h
    · exact ⟨by decide, by decide⟩
    constructor
    · rintro rfl
      exact stat.comm.noNul h
    · rintro rfl
      exact stat.comm.oneLine h
  rcases List.mem_cons.mp h with rfl | h
  · exact ⟨by decide, by decide⟩
  · obtain ⟨hnul, hnewline, -⟩ := plain_fieldsHead h
    exact ⟨hnul, hnewline⟩

/-- What may stand behind the 22nd field in the line that is read. -/
structure Behind (tail : List Char) : Prop where
  plain : ∀ c ∈ tail, c ≠ Cmdline.nul ∧ c ≠ ')'
  start : ∀ c ∈ tail.head?, c = ' ' ∨ c = '\n'

theorem behind_of_isPrefix {fields : List Field} {tail : List Char} (h : tail <+: fieldsText fields ++ ['\n']) :
    Behind tail := by
  constructor
  · intro c hc
    rcases List.mem_append.mp (h.subset hc) with hc | hc
    · obtain ⟨hnul, -, hparen⟩ := plain_fieldsText hc
      exact ⟨hnul, hparen⟩
    · obtain rfl := List.mem_singleton.mp hc
      exact ⟨by decide, by decide⟩
  · intro c hc
    cases tail with
    | nil => cases hc
    | cons d tail =>
      obtain rfl : d = c := by simpa using hc
      obtain ⟨rest, hrest⟩ := h
      cases fields with
      | nil => exact .inr (List.cons.inj hrest).1
      | cons f fields => exact .inl (List.cons.inj hrest).1

/-- **The line that is read**: the name ends at its last parenthesis. -/
theorem cutLast_line (stat : Stat) {tail : List Char} (h : Behind tail) :
    cutLast ')' (cString (stat.head ++ tail)) = some (stat.front, fieldsHead stat ++ tail) := by
  have hnul : Cmdline.nul ∉ stat.head ++ tail := by
    intro hmem
    rcases List.mem_append.mp hmem with hmem | hmem
    · exact (plain_head hmem).1 rfl
    · exact (h.plain _ hmem).1 rfl
  have hparen : ')' ∉ fieldsHead stat ++ tail := by
    intro hmem
    rcases List.mem_append.mp hmem with hmem | hmem
    · exact (plain_fieldsHead hmem).2.2 rfl
    · exact (h.plain _ hmem).2 rfl
  have hline : stat.head ++ tail = stat.front ++ ')' :: (fieldsHead stat ++ tail) := List.append_assoc _ _ _
  rw [cString_of_notMem hnul, hline]
  exact cutLast_append hparen

theorem fieldsHead_blank (stat : Stat) : ∃ cursor, fieldsHead stat = ' ' :: cursor := by
  have hlength := stat.before_length
  unfold fieldsHead
  cases hbefore : stat.before with
  | nil => simp [hbefore] at hlength
  | cons f fields => exact ⟨_, rfl⟩

/-- **The 22nd token** is the start time. -/
theorem scanFields_line (stat : Stat) {tail : List Char} (h : Behind tail) :
    scanFields 3 (tokens ' ' (fieldsHead stat ++ tail)) = some stat.startTime := by
  have hwords : ∀ w ∈ stat.before.map Field.text, Word ' ' w := by
    intro w hw
    obtain ⟨f, -, rfl⟩ := List.mem_map.mp hw
    exact f.word
  have hlast : Word ' ' (decimal stat.startTime) := ⟨Nat.toDigits_ne_nil, notMem_decimal rfl⟩
  have hlength : 3 + (stat.before.map Field.text).length = 22 := by
    rw [List.length_map, stat.before_length]
  -- what is left of the line up to the next blank is no digit
  have hend : ∀ c ∈ (tail.takeWhile (· != ' ')).head?, c.isDigit = false := by
    intro c hc
    cases tail with
    | nil => cases hc
    | cons d tail =>
      rcases h.start d rfl with rfl | rfl
      · cases hc
      · obtain rfl : '\n' = c := by simpa using hc
        rfl
  have hsplit : fieldsHead stat ++ tail =
      (stat.before.map Field.text).flatMap (' ' :: ·) ++ ' ' :: (decimal stat.startTime ++ tail) :=
    List.append_assoc _ _ _
  rw [hsplit, tokens_words hwords, tokens_append hlast, scanFields_append hlength, scanFields, if_pos rfl,
    strtoull_decimal stat.startTime_lt hend]
  exact if_pos ⟨rfl, fun hrest => hlast.1 (List.self_eq_append_left.mp hrest)⟩

/-- **`process_start_time` returns the 22nd field**, whatever the name looks like. -/
theorem processStartTime_text {stat : Stat} (h : stat.Fits) :
    processStartTime (some stat.text) = some stat.startTime := by
  have hnewline : '\n' ∉ stat.head := fun hmem => (plain_head hmem).2 rfl
  have hline : (fgets (statLineSize - 1) stat.text).1 =
      stat.head ++ (fgets (statLineSize - 1 - stat.head.length) (fieldsText stat.after ++ ['\n'])).1 := by
    rw [Stat.text, List.append_assoc]
    exact fgets_append hnewline h
  have hbehind := behind_of_isPrefix (fgets_isPrefix (statLineSize - 1 - stat.head.length)
    (fieldsText stat.after ++ ['\n']))
  have hne : stat.head ≠ [] := by simp [Stat.head]
  unfold processStartTime
  simp only [Option.bind_eq_bind, Option.bind_some, hline, if_neg (List.append_ne_nil_of_left_ne_nil hne _),
    cutLast_line stat hbehind]
  obtain ⟨cursor, hcursor⟩ := fieldsHead_blank stat
  have hscan := scanFields_line stat hbehind
  rw [hcursor, List.cons_append, tokens_skip] at hscan
  rw [hcursor, List.cons_append]
  exact hscan

/-! ## The daemon -/

/-- What `fp_write_pid` has printed when it returns `0`. -/
theorem writePid_record {self : Nat} {config : Config} {s s' : Startup} {tr : List (Ev Call Resp)}
    (h : Steps systemRel (fpWritePid self config) s tr (.ret 0) s') :
    ∃ startTime, ⟨.startTime, some startTime⟩ ∈ tr ∧
      s'.pidFile = some (recordText self startTime config) := by
  obtain ⟨made, s₁, tr₁, rfl, -, h⟩ := steps_call h
  rw [Prog.ret_bind] at h
  cases made with
  | false => cases (steps_ret h).2.1
  | true =>
  obtain ⟨time, s₂, tr₂, rfl, -, h⟩ := steps_call h
  rw [Prog.ret_bind] at h
  cases time with
  | none => cases (steps_ret h).2.1
  | some startTime =>
  obtain ⟨opened, s₃, tr₃, rfl, -, h⟩ := steps_call h
  rw [Prog.ret_bind] at h
  cases opened with
  | false => cases (steps_ret h).2.1
  | true =>
  obtain ⟨printed, s₄, tr₄, rfl, ⟨c, hprinted⟩, h⟩ := steps_call h
  rw [Prog.ret_bind] at h
  cases printed with
  | false => cases (steps_ret h).2.1
  | true =>
  obtain ⟨closed, s₅, tr₅, rfl, ⟨c', hclosed⟩, h⟩ := steps_call h
  rw [Prog.ret_bind] at h
  cases closed with
  | false => cases (steps_ret h).2.1
  | true =>
  obtain ⟨-, -, rfl⟩ := steps_ret h
  refine ⟨startTime, by simp, ?_⟩
  obtain ⟨hok, rfl⟩ := Prod.mk.inj hprinted
  obtain ⟨hok', rfl⟩ := Prod.mk.inj hclosed
  simp only [hok, hok', if_true]

/-- A daemon that has recorded itself and is still there. -/
structure Live (pid : BitVec 32) (startTime : Nat) (daemon : Config) (memory : Nat → Char)
    (pidFile : Option (List Char)) (proc : BitVec 32 → ProcText) : Prop where
  pid_gt : 1 < pid.toInt
  /-- its `fp_write_pid` has returned `0`; `stat` is what it has read of itself -/
  recorded : ∃ (stat : Stat) (s s' : Startup) (tr : List (Ev Call Resp)),
    stat.Fits ∧ stat.startTime = startTime ∧
      Steps systemRel (fpWritePid pid.toNat daemon) s tr (.ret 0) s' ∧
      (∀ time, ⟨.startTime, time⟩ ∈ tr → time = processStartTime (some stat.text)) ∧
      pidFile = s'.pidFile
  /-- only its start time is what it was -/
  shown : ∃ stat : Stat, stat.Fits ∧ stat.startTime = startTime ∧ (proc pid).stat = some stat.text
  exe : ∃ exe, (proc pid).exe = some exe ∧
    Cmdline.exeIsFreeProxy (exe.take (Cmdline.targetSize - 1)) = true
  cmdline : (Cmdline.cmdlineIsRun memory (proc pid).cmdline).1 = true

section

variable {pid : BitVec 32} {startTime : Nat} {daemon : Config} {memory : Nat → Char}
  {pidFile : Option (List Char)} {proc : BitVec 32 → ProcText}

/-- The record of a live daemon. -/
theorem Live.record (h : Live pid startTime daemon memory pidFile proc) :
    readProcessRecord pidFile = some ⟨pid, startTime, daemon.proxyAddr, daemon.proxyPort⟩ := by
  obtain ⟨stat, s, s', tr, hfits, rfl, hrun, htime, rfl⟩ := h.recorded
  obtain ⟨startTime, hmem, hfile⟩ := writePid_record hrun
  have hread : some startTime = some stat.startTime := (htime _ hmem).trans (processStartTime_text hfits)
  obtain rfl := Option.some.inj hread
  rw [hfile]
  exact readProcessRecord_recordText daemon h.pid_gt stat.startTime_lt

/-- It is recognised by its start time. -/
theorem Live.isOurs (h : Live pid startTime daemon memory pidFile proc) :
    Cmdline.processIsOurs memory (proc pid).files startTime = true := by
  obtain ⟨stat, hfits, rfl, hstat⟩ := h.shown
  obtain ⟨exe, hexe, hname⟩ := h.exe
  unfold Cmdline.processIsOurs ProcText.files
  rw [hstat, processStartTime_text hfits, if_neg (not_not_intro rfl), hexe]
  simp only [hname, h.cmdline, Bool.and_self]

end

/-- **The record round-trips.** What `fp_write_pid` prints is read as it was; the start time is the 22nd
field of the line, whatever the name of the process looks like; and so a live daemon matches the
configurations with its own proxy, and no others. -/
theorem identity_roundTrip :
    (∀ (pid : BitVec 32) (startTime : Nat) (config : Config), 1 < pid.toInt → startTime < 2 ^ 64 →
      readProcessRecord (some (recordText pid.toNat startTime config)) =
        some ⟨pid, startTime, config.proxyAddr, config.proxyPort⟩) ∧
      (∀ stat : Stat, stat.Fits → processStartTime (some stat.text) = some stat.startTime) ∧
      ∀ (pid : BitVec 32) (startTime : Nat) (daemon : Config) (memory : Nat → Char)
        (pidFile : Option (List Char)) (proc : BitVec 32 → ProcText),
        Live pid startTime daemon memory pidFile proc → ∀ config : Config,
          (fpDaemonMatchesConfig memory pidFile proc config = true ↔
            config.proxyAddr = daemon.proxyAddr ∧ config.proxyPort = daemon.proxyPort) := by
  refine ⟨fun pid startTime config => readProcessRecord_recordText config,
    fun stat => processStartTime_text, ?_⟩
  intro pid startTime daemon memory pidFile proc h config
  unfold fpDaemonMatchesConfig
  rw [h.record]
  simp only [h.isOurs, Bool.true_and, Bool.and_eq_true, beq_iff_eq]
  constructor
  · rintro ⟨hport, haddr⟩
    exact ⟨haddr.symm, hport.symm⟩
  · rintro ⟨haddr, hport⟩
    exact ⟨hport.symm, haddr.symm⟩

/-- A number in a line. -/
def Field.number (n : Nat) : Field where
  text := decimal n
  ne := Nat.toDigits_ne_nil
  plain c hc := by
    obtain ⟨hnul, hnewline, hparen⟩ := plain_decimal_field hc
    refine ⟨hnul, hnewline, ?_, hparen⟩
    rintro rfl
    exact notMem_decimal rfl hc

/-- A letter in a line. -/
def Field.letter (c : Char) (h : c.isAlpha = true) : Field where
  text := [c]
  ne := List.cons_ne_nil c []
  plain d hd := by
    obtain rfl := List.mem_singleton.mp hd
    refine ⟨?_, ?_, ?_, ?_⟩ <;> rintro rfl <;> cases h

/-- A daemon whose name looks like the end of its name and some fields. -/
def oddStat : Stat where
  pid := .number 50
  comm := ⟨[')', ' ', 'S', ' ', '1', ' ', '('], by decide, by decide⟩
  before := Field.letter 'R' rfl :: List.replicate 18 (.number 7)
  before_length := rfl
  startTime := 98765
  startTime_lt := by decide
  after := [.number 0]

theorem oddStat_fits : oddStat.Fits := by
  unfold Stat.Fits
  decide

/-- What `/proc` shows of it: `/free_proxy`, run with `run`. -/
def oddProc : ProcText :=
  ⟨some oddStat.text, some ('/' :: Cmdline.freeProxyText),
    some (Cmdline.image [⟨Cmdline.freeProxyText, by decide⟩, Cmdline.runArg])⟩

/-- A stack of zeroes. -/
def noMemory : Nat → Char := fun _ => Cmdline.nul

/-- The calls of its `fp_write_pid`. -/
def oddCalls : List (Ev Call Resp) :=
  [⟨.mkdir, true⟩, ⟨.startTime, some 98765⟩, ⟨.fopenPid, true⟩,
    ⟨.fprintfPid (recordText 50 98765 wideConfig), true⟩, ⟨.fclosePid, true⟩]

theorem live_odd :
    Live 50 98765 wideConfig noMemory (some (recordText 50 98765 wideConfig)) fun _ => oddProc := by
  have hstart : processStartTime (some oddStat.text) = some 98765 := processStartTime_text oddStat_fits
  have hsteps : Steps systemRel (fpWritePid 50 wideConfig) (.initial none false userTable) oddCalls _ _ :=
    exec_steps (List.replicate 5 (⟨true, 98765, []⟩ : Choice)) _ _
  refine ⟨by decide, ⟨oddStat, _, _, _, oddStat_fits, rfl, hsteps, ?_, rfl⟩,
    ⟨oddStat, oddStat_fits, rfl, rfl⟩, ⟨_, rfl, by decide⟩, by decide⟩
  intro time hmem
  rw [hstart]
  simpa [oddCalls] using hmem

/-- It is recognised, and its name does not matter. -/
theorem identity_roundTrip_odd :
    readProcessRecord (some (recordText 50 98765 wideConfig)) =
        some ⟨50, 98765, wideConfig.proxyAddr, wideConfig.proxyPort⟩ ∧
      processStartTime (some oddStat.text) = some 98765 ∧
      fpDaemonMatchesConfig noMemory (some (recordText 50 98765 wideConfig)) (fun _ => oddProc)
        wideConfig = true := by
  obtain ⟨hrecord, hstart, hmatches⟩ := identity_roundTrip
  refine ⟨hrecord 50 98765 wideConfig (by decide) (by decide), hstart oddStat oddStat_fits, ?_⟩
  exact (hmatches _ _ _ _ _ _ live_odd wideConfig).mpr ⟨rfl, rfl⟩

end FreeProxy.Identity
