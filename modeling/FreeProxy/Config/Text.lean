import FreeProxy.Config
import Mathlib.Data.List.TakeWhile

/-!
# The text of the configuration file

The reader and the writer of `FP_CONFIG_PATH` in `src/config.c`. They share no code: `fp_config_save`
prints a dotted quad and the stored entry texts, `fp_config_load` cuts the file into pieces of at most
127 characters, cuts each piece at its line end, and parses.

* `fgets` and `readLines` cut the file, `loadLine` is the body of the loop of `fp_config_load`.
* `Produced` says where a bypass list comes from. Such lists have no entry twice, and that is what
  makes the reader, which drops duplicates, keep all of them.

Headlines: **`load_configText`**, what is written is read back; `produced_distinct`; `load_good`, whatever
is loaded can be written and read back.

Out of scope: why a file cannot be opened, and read errors, which end the loop as the end of the file
does.
-/

namespace FreeProxy

open Lib

/-! ## Reading -/

/-- `fgets`: a piece of the file of at most `room` characters, which a newline ends, and the rest. -/
def fgets : Nat → List Char → List Char × List Char
  | 0, text => ([], text)
  | _ + 1, [] => ([], [])
  | room + 1, c :: rest =>
    if c = '\n' then ([c], rest) else (c :: (fgets room rest).1, (fgets room rest).2)

/-- `sizeof(line) - 1` of `fp_config_load`. -/
def lineRoom : Nat := 127

theorem fgets_length : ∀ (room : Nat) (text : List Char), (fgets room text).2.length ≤ text.length
  | 0, _ => le_refl _
  | _ + 1, [] => le_refl _
  | room + 1, c :: rest => by
    unfold fgets
    split
    · exact Nat.le_succ _
    · exact (fgets_length room rest).trans (Nat.le_succ _)

/-- A piece is not empty, so the loop of `fp_config_load` ends. -/
theorem fgets_lt {text : List Char} (h : text ≠ []) :
    (fgets lineRoom text).2.length < text.length := by
  obtain ⟨c, rest, rfl⟩ := List.exists_cons_of_ne_nil h
  unfold lineRoom fgets
  split
  · exact Nat.lt_succ_self _
  · exact Nat.lt_succ_of_le (fgets_length _ rest)

/-- What `fgets` gives until it gives `NULL`. -/
def readLines (text : List Char) : List (List Char) :=
  if _h : text = [] then [] else (fgets lineRoom text).1 :: readLines (fgets lineRoom text).2
termination_by text.length
decreasing_by exact fgets_lt _h

/-- `line[strcspn(line, "\r\n")] = '\0'`, the string up to its NUL. -/
def cutLine (line : List Char) : List Char :=
  line.takeWhile fun c => !(c == '\r' || c == '\n' || c.toNat == 0)

/-- `proxy=` -/
def proxyKey : List Char := ['p', 'r', 'o', 'x', 'y', '=']

/-- `bypass=` -/
def bypassKey : List Char := ['b', 'y', 'p', 'a', 's', 's', '=']

/-- The variables of `fp_config_load`. -/
structure Loading where
  config : Config
  result : Int
  invalid : Bool

/-- The body of the loop of `fp_config_load`. -/
def loadLine (st : Loading) (piece : List Char) : Loading :=
  let line := cutLine piece
  if proxyKey.isPrefixOf line then
    let parsed := fpParseProxy (line.drop 6) st.config
    { config := parsed.2
      result := parsed.1
      invalid := st.invalid || decide (parsed.1 ≠ 0) }
  else if bypassKey.isPrefixOf line then
    let appended := appendBypass (line.drop 7) st.config
    { st with config := appended.2, invalid := st.invalid || decide (appended.1 ≠ 0) }
  else st

/-- `fp_config_load`; `none` is a file that cannot be opened. -/
def fpConfigLoad (file : Option (List Char)) (config : Config) : Int × Config :=
  match file with
  | none => (-1, config)
  | some text =>
    let st := (readLines text).foldl loadLine ⟨.zero, -1, false⟩
    (if st.result = 0 ∧ st.invalid = false then 0 else -1, st.config)

/-! ## Writing -/

/-- `proxy=%s:%u` and a newline. -/
def proxyLine (config : Config) : List Char :=
  proxyKey ++ (inetNtop config.proxyAddr ++ ':' :: decimal config.proxyPort.toNat) ++ ['\n']

/-- `bypass=%s` and a newline. -/
def bypassLine (entry : Bypass) : List Char := bypassKey ++ entry.text ++ ['\n']

/-- What a complete `fp_config_save` writes. -/
def configText (config : Config) : List Char :=
  proxyLine config ++ config.bypass.flatMap bypassLine

/-! ## Numbers and addresses, read back -/

/-- The text has digits, dots and slashes only. -/
def Plain (s : List Char) : Prop := ∀ c ∈ s, c.isDigit = true ∨ c = '.' ∨ c = '/'

theorem plain_decimal (n : Nat) : Plain (decimal n) := fun _ hc => .inl (isDigit_of_mem_decimal hc)

theorem Plain.append {s t : List Char} (hs : Plain s) (ht : Plain t) : Plain (s ++ t) := by
  intro c hc
  rcases List.mem_append.mp hc with h | h
  · exact hs c h
  · exact ht c h

theorem Plain.cons {c : Char} {s : List Char} (hc : c = '.' ∨ c = '/') (hs : Plain s) :
    Plain (c :: s) := by
  intro d hd
  rcases List.mem_cons.mp hd with rfl | hd
  · exact .inr hc
  · exact hs d hd

theorem plain_inetNtop (a : Addr) : Plain (inetNtop a) := by
  unfold inetNtop
  have hp : ∀ i, Plain (decimal (octetOf a i)) := fun i => plain_decimal _
  exact (hp 3).append (.cons (.inl rfl) ((hp 2).append (.cons (.inl rfl)
    ((hp 1).append (.cons (.inl rfl) (hp 0))))))

theorem plain_text (n : Cidr) : Plain n.text := by
  unfold Cidr.text
  split
  · exact plain_inetNtop _
  · exact (plain_inetNtop _).append (.cons (.inr rfl) (plain_decimal _))

theorem Plain.notMem {s : List Char} (hs : Plain s) {c : Char} (hd : c.isDigit = false)
    (h1 : c ≠ '.') (h2 : c ≠ '/') : c ∉ s := by
  intro hc
  rcases hs c hc with h | h | h
  · rw [hd] at h; exact Bool.noConfusion h
  · exact h1 h
  · exact h2 h

theorem length_decimal_octet (a : Addr) (i : Nat) : (decimal (octetOf a i)).length ≤ 3 :=
  (Nat.length_toDigits_le_iff (by decide) (by decide)).mpr
    ((octetOf_lt a i).trans (by decide))

/-- A dotted quad fits its buffer. -/
theorem length_inetNtop (a : Addr) : (inetNtop a).length < inetAddrstrlen := by
  have h3 := length_decimal_octet a 3
  have h2 := length_decimal_octet a 2
  have h1 := length_decimal_octet a 1
  have h0 := length_decimal_octet a 0
  simp only [inetNtop, inetAddrstrlen, List.length_append, List.length_cons]
  omega

/-- An entry's text fits its buffer. -/
theorem length_text (n : Cidr) : n.text.length < inetAddrstrlen + 3 := by
  have ha := length_inetNtop n.network
  unfold Cidr.text
  split
  · omega
  · have hl : (decimal n.len).length ≤ 2 :=
      (Nat.length_toDigits_le_iff (by decide) (by decide)).mpr (n.len_le.trans_lt (by decide))
    rw [List.length_append, List.length_cons]
    omega

theorem text_ne_nil (n : Cidr) : n.text ≠ [] := by
  have hd : inetNtop n.network ≠ [] := by simp [inetNtop]
  unfold Cidr.text
  split
  · exact hd
  · simp

theorem isDigit_not_isSpace {c : Char} (h : c.isDigit = true) : isSpace c = false := by
  unfold Char.isDigit at h
  unfold isSpace
  simp only [Bool.and_eq_true, decide_eq_true_eq] at h
  have hlo : 48 ≤ c.toNat := h.1
  simp only [Bool.or_eq_false_iff, beq_eq_false_iff_ne, ne_eq, Bool.and_eq_false_iff,
    decide_eq_false_iff_not]
  refine ⟨?_, .inr (by omega)⟩
  rintro rfl
  exact absurd hlo (by decide)

/-- A decimal starts with a digit, so nothing before it is skipped and it has no sign. -/
theorem strtolSign_decimal (n : Nat) (t : List Char) :
    strtolSign ((decimal n ++ t).dropWhile isSpace) = (false, decimal n ++ t) := by
  have hne : decimal n ≠ [] := Nat.toDigits_ne_nil
  obtain ⟨c, s, hs⟩ := List.exists_cons_of_ne_nil hne
  have hc : c.isDigit = true := isDigit_of_mem_decimal (hs ▸ List.mem_cons_self : c ∈ decimal n)
  rw [hs, List.cons_append,
    List.dropWhile_cons_of_neg (by rw [isDigit_not_isSpace hc]; exact Bool.false_ne_true)]
  unfold strtolSign
  split
  · rename_i heq
    obtain rfl := (List.cons.inj heq).1
    cases hc
  · rename_i heq
    obtain rfl := (List.cons.inj heq).1
    cases hc
  · rfl

/-- **`strtol` reads what `%u` writes.** -/
theorem strtol_decimal {n : Nat} (h : (n : Int) ≤ strtolMax) : strtol (decimal n) = ⟨n, [], false⟩ := by
  have hne : decimal n ≠ [] := Nat.toDigits_ne_nil
  have htake : (decimal n).takeWhile Char.isDigit = decimal n :=
    List.takeWhile_eq_self_iff.mpr fun c hc => isDigit_of_mem_decimal hc
  have hsign : strtolSign ((decimal n).dropWhile isSpace) = (false, decimal n) := by
    simpa only [List.append_nil] using strtolSign_decimal n []
  have hval : Nat.ofDigitChars 10 (decimal n) 0 = n := Nat.ofDigitChars_ten_toDigits
  have hmin : ¬ (n : Int) < strtolMin := by unfold strtolMin; omega
  unfold strtol
  simp only [hsign, htake, if_neg hne, hval, Bool.false_eq_true, if_false,
    if_neg (not_lt.mpr h), if_neg hmin, List.drop_length]

/-! ## Lines, read back -/

theorem fgets_line {line : List Char} (h : '\n' ∉ line) (rest : List Char) : ∀ {room : Nat},
    line.length < room → fgets room (line ++ '\n' :: rest) = (line ++ ['\n'], rest) := by
  induction line with
  | nil =>
    intro room hroom
    obtain ⟨room, rfl⟩ : ∃ n, room = n + 1 := ⟨room - 1, by simp at hroom; omega⟩
    simp [fgets]
  | cons c line ih =>
    intro room hroom
    rw [List.mem_cons, not_or] at h
    obtain ⟨room, rfl⟩ : ∃ n, room = n + 1 := ⟨room - 1, by simp at hroom; omega⟩
    simp only [List.cons_append, fgets, if_neg (Ne.symm h.1), ih h.2 (by simpa using hroom)]

theorem readLines_line {line : List Char} (h : '\n' ∉ line) (hlen : line.length < lineRoom)
    (rest : List Char) :
    readLines (line ++ '\n' :: rest) = (line ++ ['\n']) :: readLines rest := by
  rw [readLines, dif_neg (by simp), fgets_line h rest hlen]

theorem readLines_nil : readLines [] = [] := by
  rw [readLines, dif_pos rfl]

/-- A line without a line end or a NUL in it. -/
def OneLine (line : List Char) : Prop := ∀ c ∈ line, c ≠ '\r' ∧ c ≠ '\n' ∧ c.toNat ≠ 0

theorem OneLine.notMem {line : List Char} (h : OneLine line) : '\n' ∉ line :=
  fun hc => (h _ hc).2.1 rfl

theorem cutLine_line {line : List Char} (h : OneLine line) : cutLine (line ++ ['\n']) = line := by
  unfold cutLine
  rw [List.takeWhile_append_of_pos]
  · simp
  · intro c hc
    obtain ⟨h1, h2, h3⟩ := h c hc
    simp [h1, h2, h3]

theorem OneLine.append {s t : List Char} (hs : OneLine s) (ht : OneLine t) : OneLine (s ++ t) := by
  intro c hc
  rcases List.mem_append.mp hc with h | h
  · exact hs c h
  · exact ht c h

theorem Plain.oneLine {s : List Char} (hs : Plain s) : OneLine s := by
  intro c hc
  rcases hs c hc with h | rfl | rfl
  · refine ⟨?_, ?_, ?_⟩
    · rintro rfl; exact absurd h (by decide)
    · rintro rfl; exact absurd h (by decide)
    · intro h0
      have hspace := isDigit_not_isSpace h
      unfold Char.isDigit at h
      simp only [Bool.and_eq_true, decide_eq_true_eq] at h
      have hlo : 48 ≤ c.toNat := h.1
      omega
  · decide
  · decide

theorem oneLine_proxyKey : OneLine proxyKey := by simp [OneLine, proxyKey]

theorem oneLine_bypassKey : OneLine bypassKey := by simp [OneLine, bypassKey]

/-- What `fp_parse_proxy` is given for a saved proxy. -/
def proxyText (config : Config) : List Char :=
  inetNtop config.proxyAddr ++ ':' :: decimal config.proxyPort.toNat

theorem oneLine_proxyText (config : Config) : OneLine (proxyText config) := by
  refine (plain_inetNtop _).oneLine.append fun c hc => ?_
  rcases List.mem_cons.mp hc with rfl | hc
  · decide
  · exact (plain_decimal _).oneLine c hc

theorem length_proxyText (config : Config) : (proxyText config).length ≤ 21 := by
  have ha := length_inetNtop config.proxyAddr
  have hp : (decimal config.proxyPort.toNat).length ≤ 5 :=
    (Nat.length_toDigits_le_iff (by decide) (by decide)).mpr
      (config.proxyPort.isLt.trans (by decide))
  unfold inetAddrstrlen at ha
  unfold proxyText
  rw [List.length_append, List.length_cons]
  omega

/-- **The reader sees the lines that were written.** -/
theorem readLines_configText (config : Config) :
    readLines (configText config) = proxyLine config :: config.bypass.map bypassLine := by
  have hentries : ∀ entries : List Bypass,
      readLines (entries.flatMap bypassLine) = entries.map bypassLine := by
    intro entries
    induction entries with
    | nil => exact readLines_nil
    | cons b entries ih =>
      have hplain : Plain b.text := b.text_eq ▸ plain_text b.cidr
      have hline : OneLine (bypassKey ++ b.text) := oneLine_bypassKey.append hplain.oneLine
      have hlen : (bypassKey ++ b.text).length < lineRoom := by
        have := length_text b.cidr
        rw [b.text_eq, List.length_append]
        unfold inetAddrstrlen at this
        simp only [bypassKey, lineRoom, List.length_cons, List.length_nil]
        omega
      rw [List.flatMap_cons, List.map_cons, bypassLine, List.append_assoc, List.singleton_append,
        readLines_line hline.notMem hlen, ih]
  have hlen : (proxyKey ++ proxyText config).length < lineRoom := by
    have := length_proxyText config
    rw [List.length_append]
    simp only [proxyKey, lineRoom, List.length_cons, List.length_nil]
    omega
  have hline : OneLine (proxyKey ++ proxyText config) :=
    oneLine_proxyKey.append (oneLine_proxyText config)
  have htext : configText config =
      (proxyKey ++ proxyText config) ++ '\n' :: config.bypass.flatMap bypassLine := by
    simp [configText, proxyLine, proxyText]
  rw [htext, readLines_line hline.notMem hlen, hentries]
  rfl

/-! ## The values, read back -/

theorem Config.ext' {c d : Config} (ha : c.proxyAddr = d.proxyAddr) (hp : c.proxyPort = d.proxyPort)
    (hb : c.bypass = d.bypass) : c = d := by
  obtain ⟨_, _, _, _⟩ := c
  obtain ⟨_, _, _, _⟩ := d
  simp only at ha hp hb
  subst ha hp hb
  rfl

theorem strtol_port (p : BitVec 16) : strtol (decimal p.toNat) = ⟨p.toNat, [], false⟩ := by
  have hp := p.isLt
  refine strtol_decimal ?_
  unfold strtolMax
  omega

/-- `fp_parse_proxy` reads the proxy that was written, unless its port is `0`. -/
theorem fpParseProxy_text {c : Config} (hport : c.proxyPort ≠ 0) (d : Config) :
    fpParseProxy (proxyText c) d =
      (0, { d with proxyAddr := c.proxyAddr, proxyPort := c.proxyPort }) := by
  have hcolon : ':' ∉ decimal c.proxyPort.toNat := notMem_decimal rfl
  have hne : inetNtop c.proxyAddr ≠ [] := by simp [inetNtop]
  have hp := c.proxyPort.isLt
  have h0 : c.proxyPort.toNat ≠ 0 := fun h => hport (BitVec.eq_of_toNat_eq h)
  have haddr : ¬ (inetNtop c.proxyAddr = [] ∨ inetAddrstrlen ≤ (inetNtop c.proxyAddr).length) := by
    have := length_inetNtop c.proxyAddr
    rintro (h | h)
    · exact hne h
    · omega
  have hvalue : ¬ ((1 : Int) > c.proxyPort.toNat ∨ (65535 : Int) < c.proxyPort.toNat) := by omega
  unfold fpParseProxy proxyText
  simp only [cutLast_append hcolon, if_neg haddr, strtol_port, Bool.false_eq_true, ne_eq,
    not_true_eq_false, false_or, inetPton_inetNtop]
  rw [if_neg hvalue]
  simp

theorem trimBlanks_plain {s : List Char} (hs : Plain s) : trimBlanks s = s := by
  have hblank : ∀ t : List Char, (∀ c ∈ t, c ∈ s) → t.dropWhile isBlank = t := by
    intro t ht
    cases t with
    | nil => rfl
    | cons c t =>
      refine List.dropWhile_cons_of_neg ?_
      have hc := hs c (ht c List.mem_cons_self)
      unfold isBlank
      simp only [Bool.or_eq_true, beq_iff_eq]
      rintro (rfl | rfl)
      · exact absurd hc (by decide)
      · exact absurd hc (by decide)
  unfold trimBlanks
  rw [hblank s fun _ h => h, hblank s.reverse fun _ h => List.mem_reverse.mp h, List.reverse_reverse]

/-- The address and the length of an entry that was written. -/
theorem entryPrefix_text (n : Cidr) :
    entryPrefix n.text = some (inetNtop n.network, ⟨n.len, n.len_le⟩) := by
  have hslash : '/' ∉ inetNtop n.network := notMem_inetNtop rfl (by decide)
  unfold entryPrefix Cidr.text
  by_cases h : n.len = 32
  · rw [if_pos h, cutFirst_none hslash]
    simp [h]
  · have hle := n.len_le
    have hlen : strtol (decimal n.len) = ⟨n.len, [], false⟩ :=
      strtol_decimal (by unfold strtolMax; omega)
    rw [if_neg h, cutFirst_append hslash]
    simp only [hlen]
    rw [dif_pos ⟨trivial, Nat.toDigits_ne_nil, trivial, by omega, by omega⟩]
    simp

/-- `append_bypass` takes an entry that was written, when there is room and it is new. -/
theorem appendBypass_text {b : Bypass} {config : Config}
    (hroom : config.bypass.length < fpMaxBypass) (hnew : ∀ e ∈ config.bypass, e.cidr ≠ b.cidr) :
    ∃ h, appendBypass b.text config =
      (0, { config with bypass := config.bypass ++ [b], bypass_le := h }) := by
  obtain ⟨n, text, rfl⟩ := b
  have hlen := length_text n
  have htoken : ¬ (n.text = [] ∨ inetAddrstrlen + 4 ≤ n.text.length) := by
    rintro (h | h)
    · exact text_ne_nil n h
    · omega
  have hany : config.bypass.any (fun e => e.cidr == n) = false := by
    rw [List.any_eq_false]
    intro e he
    simpa using hnew e he
  refine ⟨by rw [List.length_append, List.length_singleton]; omega, ?_⟩
  unfold appendBypass
  simp only [trimBlanks_plain (plain_text n), if_neg htoken, dif_neg (not_le.mpr hroom),
    entryPrefix_text, inetPton_inetNtop, Cidr.of_self, hany, Bool.false_eq_true, if_false]
  rfl

/-! ## Where bypass lists come from -/

/-- The list was made by `fp_parse_bypass_list` or by `fp_config_load`. -/
def Config.Produced (config : Config) : Prop :=
  (∃ value previous, config.bypass = (fpParseBypassList value previous).2.bypass) ∨
    ∃ text previous, config.bypass = (fpConfigLoad (some text) previous).2.bypass

/-- No network twice. -/
def Config.Distinct (config : Config) : Prop := (config.bypass.map Bypass.cidr).Nodup

theorem appendBypass_distinct (value : List Char) {config : Config} (h : config.Distinct) :
    (appendBypass value config).2.Distinct := by
  unfold appendBypass
  simp only
  split
  · exact h
  split
  · exact h
  split
  · exact h
  split
  · exact h
  split
  · exact h
  rename_i hany
  -- the entry is new
  unfold Config.Distinct
  rw [List.map_append, List.nodup_append]
  refine ⟨h, List.nodup_singleton _, fun n hn m hm => ?_⟩
  obtain ⟨e, he, rfl⟩ := List.mem_map.mp hn
  obtain rfl := List.mem_singleton.mp hm
  rintro heq
  exact hany (List.any_eq_true.mpr ⟨e, he, by simpa [Bypass.ofCidr] using heq⟩)

theorem distinct_of_nil {config : Config} (h : config.bypass = []) : config.Distinct := by
  unfold Config.Distinct
  rw [h]
  exact List.nodup_nil

theorem parseEntries_distinct : ∀ (rest token : List Char) (config : Config), config.Distinct →
    (parseEntries token rest config).2.Distinct
  | [], token, config, h => by
    have happend := appendBypass_distinct token h
    unfold parseEntries
    split
    · rename_i heq; rw [heq] at happend; exact happend
    · exact distinct_of_nil rfl
  | c :: rest, token, config, h => by
    unfold parseEntries
    by_cases hc : c = ','
    · rw [if_pos hc]
      have happend := appendBypass_distinct token h
      split
      · rename_i heq
        rw [heq] at happend
        exact parseEntries_distinct rest [] _ happend
      · exact distinct_of_nil rfl
    · rw [if_neg hc]
      exact parseEntries_distinct rest (token ++ [c]) config h

/-- What a line of the file keeps: no entry twice, and a port once the proxy has been read. -/
structure Loading.Good (st : Loading) : Prop where
  distinct : st.config.Distinct
  port : st.result = 0 → st.config.proxyPort ≠ 0

theorem fpParseProxy_port {value : List Char} {config : Config}
    (h : (fpParseProxy value config).1 = 0) : (fpParseProxy value config).2.proxyPort ≠ 0 := by
  unfold fpParseProxy at h ⊢
  split at h
  · simp at h
  simp only at h ⊢
  split at h
  · simp at h
  rename_i haddr
  split at h
  · simp at h
  rename_i hvalue
  split at h
  · simp at h
  rw [if_neg haddr, if_neg hvalue]
  simp only [not_or, not_lt] at hvalue
  obtain ⟨-, -, hlo, hhi⟩ := hvalue
  intro h0
  have hnat := congrArg BitVec.toNat h0
  have hzero : (0 : BitVec 16).toNat = 0 := rfl
  rw [BitVec.toNat_ofInt, hzero] at hnat
  omega

theorem loadLine_good {st : Loading} (h : st.Good) (piece : List Char) : (loadLine st piece).Good := by
  unfold loadLine
  simp only
  split
  · refine ⟨?_, fun h0 => fpParseProxy_port h0⟩
    show (fpParseProxy _ st.config).2.Distinct
    unfold Config.Distinct
    rw [fpParseProxy_bypass]
    exact h.distinct
  split
  · refine ⟨appendBypass_distinct _ h.distinct, fun h0 => ?_⟩
    show (appendBypass _ st.config).2.proxyPort ≠ 0
    rw [(appendBypass_proxy _ st.config).2]
    exact h.port h0
  · exact h

theorem foldl_good (pieces : List (List Char)) : ∀ {st : Loading}, st.Good →
    (pieces.foldl loadLine st).Good := by
  induction pieces with
  | nil => exact fun h => h
  | cons piece pieces ih => exact fun h => ih (loadLine_good h piece)

theorem good_start : Loading.Good ⟨.zero, -1, false⟩ := ⟨distinct_of_nil rfl, by simp⟩

/-- **A produced list has no entry twice.** -/
theorem produced_distinct {config : Config} (h : config.Produced) : config.Distinct := by
  rcases h with ⟨value, previous, h⟩ | ⟨text, previous, h⟩
  · unfold Config.Distinct
    rw [h]
    unfold fpParseBypassList
    split
    · exact List.nodup_nil
    · exact parseEntries_distinct value [] _ (distinct_of_nil rfl)
  · unfold Config.Distinct
    rw [h]
    exact (foldl_good _ good_start).distinct

/-- **Whatever is loaded** has a port, and its list was produced. -/
theorem load_good {file : Option (List Char)} {previous config : Config}
    (h : fpConfigLoad file previous = (0, config)) :
    config.proxyPort ≠ 0 ∧ config.Produced := by
  cases file with
  | none => simp [fpConfigLoad] at h
  | some text =>
    have hgood : ((readLines text).foldl loadLine ⟨.zero, -1, false⟩).Good := foldl_good _ good_start
    have hconfig : config = ((readLines text).foldl loadLine ⟨.zero, -1, false⟩).config :=
      (congrArg Prod.snd h).symm
    refine ⟨?_, .inr ⟨text, previous, (congrArg (fun x => x.2.bypass) h).symm⟩⟩
    rw [hconfig]
    refine hgood.port ?_
    have hcode := congrArg Prod.fst h
    simp only [fpConfigLoad] at hcode
    split at hcode
    · rename_i hok; exact hok.1
    · simp at hcode

/-! ## The round trip -/

theorem loadLine_proxyLine {c : Config} (hport : c.proxyPort ≠ 0) {st : Loading}
    (hst : st.invalid = false) :
    loadLine st (proxyLine c) =
      ⟨{ st.config with proxyAddr := c.proxyAddr, proxyPort := c.proxyPort }, 0, false⟩ := by
  have hcut : cutLine (proxyLine c) = proxyKey ++ proxyText c :=
    cutLine_line (oneLine_proxyKey.append (oneLine_proxyText c))
  have hkey : proxyKey.isPrefixOf (proxyKey ++ proxyText c) = true :=
    List.isPrefixOf_iff_prefix.mpr (List.prefix_append _ _)
  have hdrop : (proxyKey ++ proxyText c).drop 6 = proxyText c := rfl
  unfold loadLine
  simp only [hcut, hkey, hdrop, fpParseProxy_text hport, hst, if_true]
  rfl

theorem loadLine_bypassLine {b : Bypass} {st : Loading} (hst : st.invalid = false)
    (hroom : st.config.bypass.length < fpMaxBypass) (hnew : ∀ e ∈ st.config.bypass, e.cidr ≠ b.cidr) :
    ∃ h, loadLine st (bypassLine b) =
      ⟨{ st.config with bypass := st.config.bypass ++ [b], bypass_le := h }, st.result, false⟩ := by
  obtain ⟨h, happend⟩ := appendBypass_text hroom hnew
  refine ⟨h, ?_⟩
  have hplain : Plain b.text := b.text_eq ▸ plain_text b.cidr
  have hcut : cutLine (bypassLine b) = bypassKey ++ b.text :=
    cutLine_line (oneLine_bypassKey.append hplain.oneLine)
  have hproxy : proxyKey.isPrefixOf (bypassKey ++ b.text) = false := rfl
  have hkey : bypassKey.isPrefixOf (bypassKey ++ b.text) = true :=
    List.isPrefixOf_iff_prefix.mpr (List.prefix_append _ _)
  have hdrop : (bypassKey ++ b.text).drop 7 = b.text := rfl
  unfold loadLine
  simp only [hcut, hproxy, hkey, hdrop, happend, hst, if_true, Bool.false_eq_true, if_false]
  rfl

/-- The entries that were written are taken one after the other. -/
theorem foldl_bypassLines : ∀ (entries : List Bypass) (st : Loading), st.invalid = false →
    (st.config.bypass ++ entries).length ≤ fpMaxBypass →
    ((st.config.bypass ++ entries).map Bypass.cidr).Nodup →
    ∃ h, (entries.map bypassLine).foldl loadLine st =
      ⟨{ st.config with bypass := st.config.bypass ++ entries, bypass_le := h }, st.result, false⟩
  | [], ⟨config, result, invalid⟩, hst, _, _ => by
    obtain rfl : invalid = false := hst
    refine ⟨by simpa using config.bypass_le, ?_⟩
    rw [List.map_nil, List.foldl_nil]
    congr 1
    exact Config.ext' rfl rfl (by simp)
  | b :: entries, st, hst, hlen, hnodup => by
    have hroom : st.config.bypass.length < fpMaxBypass := by
      rw [List.length_append, List.length_cons] at hlen
      omega
    have hnew : ∀ e ∈ st.config.bypass, e.cidr ≠ b.cidr := by
      intro e he
      rw [List.map_append, List.nodup_append] at hnodup
      exact hnodup.2.2 _ (List.mem_map_of_mem he) _ (List.mem_map_of_mem List.mem_cons_self)
    obtain ⟨h, hline⟩ := loadLine_bypassLine hst hroom hnew
    rw [List.append_cons] at hlen hnodup
    obtain ⟨h', hrest⟩ := foldl_bypassLines entries
      ⟨{ st.config with bypass := st.config.bypass ++ [b], bypass_le := h }, st.result, false⟩ rfl
      hlen hnodup
    refine ⟨by rw [List.append_cons]; exact hlen, ?_⟩
    rw [List.map_cons, List.foldl_cons, hline, hrest]
    congr 1
    exact Config.ext' rfl rfl (List.append_cons _ _ _).symm

/-- **What is written is read back.** -/
theorem load_configText {c : Config} (hport : c.proxyPort ≠ 0) (hc : c.Distinct) (previous : Config) :
    fpConfigLoad (some (configText c)) previous = (0, c) := by
  have hstart : (⟨.zero, -1, false⟩ : Loading).invalid = false := rfl
  have hproxy := loadLine_proxyLine hport hstart
  obtain ⟨h, hrest⟩ := foldl_bypassLines c.bypass
    ⟨{ Config.zero with proxyAddr := c.proxyAddr, proxyPort := c.proxyPort }, 0, false⟩ rfl
    (by simpa [Config.zero] using c.bypass_le) (by simpa [Config.zero, Config.Distinct] using hc)
  simp only [fpConfigLoad, readLines_configText, List.foldl_cons, hproxy, hrest, and_self, if_true,
    Prod.mk.injEq, true_and]
  exact Config.ext' rfl rfl (by simp [Config.zero])

end FreeProxy
