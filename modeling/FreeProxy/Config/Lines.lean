import FreeProxy.Config.Syntax

/-!
# Pieces and lines of the configuration file

`fp_config_load` calls `fgets` with a buffer of 128 bytes and takes every piece for a line. A longer line
comes in several pieces, and a piece that starts with `proxy=` or `bypass=` is a directive wherever it was
cut.

* `Reading` is the file read line by line, directive by directive. `fpConfigLoad_eq` says that the code
  does the same with the directives of the pieces.
* `pieceDirectives_lines`: the pieces of a file are the pieces of its lines.
* A `Directive` counts by its `setting` only (`Reading.take_setting`). `Harmless` says of a line that its
  pieces set what it sets.

Headline: **`lines_read_whole`**, files of harmless lines are read line by line, and no other line is read
as a line wherever it stands.
-/

namespace FreeProxy

open Lib

/-! ## The file, line by line -/

/-- A line that counts, by what stands behind its key. -/
inductive Directive where
  | proxy (value : List Char)
  | bypass (value : List Char)
  deriving DecidableEq

/-- What a line directs; other lines are ignored. -/
def directive (line : List Char) : Option Directive :=
  if proxyKey.isPrefixOf line then some (.proxy (line.drop 6))
  else if bypassKey.isPrefixOf line then some (.bypass (line.drop 7))
  else none

/-- What has been read so far. -/
structure Reading where
  config : Config
  /-- there is a proxy line -/
  proxy : Bool
  /-- every directive is valid -/
  valid : Bool

/-- Before the first line. -/
def Reading.start : Reading := ⟨.zero, false, true⟩

/-- One more directive. -/
def Reading.take (r : Reading) : Directive → Reading
  | .proxy value =>
    let parsed := fpParseProxy value r.config
    ⟨parsed.2, true, r.valid && parsed.1 == 0⟩
  | .bypass value =>
    let appended := appendBypass value r.config
    ⟨appended.2, r.proxy, r.valid && appended.1 == 0⟩

/-- The directives, one after the other. -/
def Reading.run (r : Reading) (directives : List Directive) : Reading := directives.foldl Reading.take r

/-- Success is a proxy line and no invalid directive. -/
def Reading.outcome (r : Reading) : Int × Config := (if r.proxy && r.valid then 0 else -1, r.config)

/-- The directives of the lines, each cut at its first carriage return. -/
def lineDirectives (lines : List (List Char)) : List Directive :=
  lines.filterMap fun line => directive (line.takeWhile fun c => !(c == '\r'))

/-- The file read line by line. -/
def readWhole (text : List Char) : Int × Config :=
  (Reading.start.run (lineDirectives (text.splitOn '\n'))).outcome

/-! ## The file, piece by piece -/

/-- The directives of the pieces. -/
def pieceDirectives (text : List Char) : List Directive :=
  (readLines text).filterMap fun piece => directive (cutLine piece)

theorem loadLine_eq (st : Loading) (piece : List Char) : loadLine st piece =
    match directive (cutLine piece) with
    | none => st
    | some (.proxy value) =>
      let parsed := fpParseProxy value st.config
      ⟨parsed.2, parsed.1, st.invalid || decide (parsed.1 ≠ 0)⟩
    | some (.bypass value) =>
      let appended := appendBypass value st.config
      ⟨appended.2, st.result, st.invalid || decide (appended.1 ≠ 0)⟩ := by
  unfold loadLine directive
  simp only
  by_cases hproxy : proxyKey.isPrefixOf (cutLine piece) = true
  · rw [if_pos hproxy, if_pos hproxy]
  rw [if_neg hproxy, if_neg hproxy]
  by_cases hbypass : bypassKey.isPrefixOf (cutLine piece) = true
  · rw [if_pos hbypass, if_pos hbypass]
  · rw [if_neg hbypass, if_neg hbypass]

/-- The variables of the code, and the reading. -/
structure Reads (st : Loading) (r : Reading) : Prop where
  config : st.config = r.config
  invalid : st.invalid = !r.valid
  result : r.valid = true → (st.result = 0 ↔ r.proxy = true)

theorem reads_start : Reads ⟨.zero, -1, false⟩ .start := ⟨rfl, rfl, fun _ => by decide⟩

theorem reads_piece {st : Loading} {r : Reading} (h : Reads st r) (piece : List Char) :
    Reads (loadLine st piece) (r.run (directive (cutLine piece)).toList) := by
  obtain ⟨hconfig, hinvalid, hresult⟩ := h
  rw [loadLine_eq]
  cases directive (cutLine piece) with
  | none => exact ⟨hconfig, hinvalid, hresult⟩
  | some d =>
    cases d with
    | proxy value =>
      simp only [Option.toList, Reading.run, List.foldl_cons, List.foldl_nil, Reading.take]
      rw [hconfig, hinvalid]
      refine ⟨rfl, ?_, ?_⟩
      · by_cases hzero : (fpParseProxy value r.config).1 = 0 <;> simp [hzero]
      · intro hvalid
        simp only [Bool.and_eq_true, beq_iff_eq] at hvalid
        exact ⟨fun _ => rfl, fun _ => hvalid.2⟩
    | bypass value =>
      simp only [Option.toList, Reading.run, List.foldl_cons, List.foldl_nil, Reading.take]
      rw [hconfig, hinvalid]
      refine ⟨rfl, ?_, ?_⟩
      · by_cases hzero : (appendBypass value r.config).1 = 0 <;> simp [hzero]
      · intro hvalid
        simp only [Bool.and_eq_true] at hvalid
        exact hresult hvalid.1

theorem reads_pieces (pieces : List (List Char)) : ∀ {st : Loading} {r : Reading}, Reads st r →
    Reads (pieces.foldl loadLine st) (r.run (pieces.filterMap fun piece => directive (cutLine piece))) := by
  induction pieces with
  | nil => exact fun h => h
  | cons piece pieces ih =>
    intro st r h
    have hnext := ih (reads_piece h piece)
    rw [List.foldl_cons, List.filterMap_cons]
    cases hd : directive (cutLine piece) with
    | none =>
      rw [hd] at hnext
      exact hnext
    | some d =>
      rw [hd] at hnext
      exact hnext

/-- **The code follows the directives of the pieces.** -/
theorem fpConfigLoad_eq (text : List Char) (config : Config) :
    fpConfigLoad (some text) config = (Reading.start.run (pieceDirectives text)).outcome := by
  obtain ⟨hconfig, hinvalid, hresult⟩ := reads_pieces (readLines text) reads_start
  unfold fpConfigLoad Reading.outcome pieceDirectives
  simp only [hconfig, hinvalid]
  generalize Reading.start.run _ = r at hresult
  cases hvalid : r.valid with
  | false => simp
  | true =>
    have hproxy := hresult hvalid
    simp [hproxy]

/-! ## The pieces of a line -/

theorem fgets_inside {line : List Char} (h : '\n' ∉ line) (rest : List Char) : ∀ {room : Nat},
    room ≤ line.length → fgets room (line ++ rest) = (line.take room, line.drop room ++ rest) := by
  induction line with
  | nil =>
    intro room hroom
    obtain rfl : room = 0 := Nat.le_zero.mp hroom
    rfl
  | cons c line ih =>
    intro room hroom
    rw [List.mem_cons, not_or] at h
    cases room with
    | zero => rfl
    | succ room =>
      rw [List.cons_append, fgets, if_neg (Ne.symm h.1), ih h.2 (by simpa using hroom)]
      rfl

theorem fgets_last {line : List Char} (h : '\n' ∉ line) : ∀ {room : Nat},
    line.length ≤ room → fgets room line = (line, []) := by
  induction line with
  | nil =>
    intro room _
    cases room <;> rfl
  | cons c line ih =>
    intro room hroom
    rw [List.mem_cons, not_or] at h
    cases room with
    | zero => exact absurd hroom (by simp)
    | succ room => rw [fgets, if_neg (Ne.symm h.1), ih h.2 (by simpa using hroom)]

theorem cutLine_newline (line : List Char) : cutLine (line ++ ['\n']) = cutLine line := by
  unfold cutLine
  induction line with
  | nil => rfl
  | cons c line ih =>
    rw [List.cons_append, List.takeWhile_cons, List.takeWhile_cons, ih]

theorem pieceDirectives_cons {text : List Char} (h : text ≠ []) : pieceDirectives text =
    (directive (cutLine (fgets lineRoom text).1)).toList ++ pieceDirectives (fgets lineRoom text).2 := by
  unfold pieceDirectives
  conv => lhs; rw [readLines, dif_neg h]
  rw [List.filterMap_cons]
  cases directive (cutLine (fgets lineRoom text).1) <;> rfl

theorem pieceDirectives_nil : pieceDirectives [] = [] := by
  rw [pieceDirectives, readLines_nil, List.filterMap_nil]

/-- A short line is one piece. -/
theorem pieceDirectives_short {line : List Char} (h : '\n' ∉ line) (hlength : line.length ≤ lineRoom) :
    pieceDirectives line = (directive (cutLine line)).toList := by
  by_cases hnil : line = []
  · rw [hnil, pieceDirectives_nil]
    rfl
  · rw [pieceDirectives_cons hnil, fgets_last h hlength, pieceDirectives_nil, List.append_nil]

/-- A line is cut by itself, whatever is behind it. -/
theorem pieceDirectives_line (line rest : List Char) (h : '\n' ∉ line) :
    pieceDirectives (line ++ '\n' :: rest) = pieceDirectives line ++ pieceDirectives rest := by
  induction hlength : line.length using Nat.strongRecOn generalizing line with
  | ind n ih =>
    subst hlength
    by_cases hshort : line.length < lineRoom
    · rw [pieceDirectives_cons (by simp), fgets_line h rest hshort, cutLine_newline,
        pieceDirectives_short h (Nat.le_of_lt hshort)]
    · have hlong : lineRoom ≤ line.length := Nat.le_of_not_lt hshort
      have hne : line ≠ [] := by
        rintro rfl
        exact absurd hlong (by decide)
      have hdrop : (line.drop lineRoom).length < line.length := by
        rw [List.length_drop]
        unfold lineRoom at hlong ⊢
        omega
      have hrest := ih _ hdrop (line.drop lineRoom) (fun hmem => h (List.mem_of_mem_drop hmem)) rfl
      have hpiece := fgets_inside h [] hlong
      rw [List.append_nil, List.append_nil] at hpiece
      rw [pieceDirectives_cons (by simp), fgets_inside h ('\n' :: rest) hlong, hrest,
        pieceDirectives_cons hne, hpiece, List.append_assoc]

/-- **The pieces of a file are the pieces of its lines.** -/
theorem pieceDirectives_lines {lines : List (List Char)} (hne : lines ≠ [])
    (h : ∀ line ∈ lines, '\n' ∉ line) :
    pieceDirectives (['\n'].intercalate lines) = lines.flatMap pieceDirectives := by
  induction lines with
  | nil => exact absurd rfl hne
  | cons line lines ih =>
    cases lines with
    | nil => simp
    | cons next lines =>
      rw [List.intercalate_cons_cons, List.append_assoc, List.singleton_append,
        pieceDirectives_line _ _ (h line List.mem_cons_self),
        ih (List.cons_ne_nil _ _) fun l hl => h l (List.mem_cons_of_mem _ hl)]
      rfl

theorem newline_notMem {text : List Char} : ∀ {line : List Char}, line ∈ text.splitOn '\n' → '\n' ∉ line := by
  induction text with
  | nil =>
    intro line hline
    rw [List.splitOn_nil, List.mem_singleton] at hline
    rw [hline]
    exact List.not_mem_nil
  | cons c text ih =>
    intro line hline
    rw [List.splitOn_cons_eq_if_modifyHead] at hline
    by_cases hc : c = '\n'
    · rw [if_pos (beq_iff_eq.mpr hc)] at hline
      rcases List.mem_cons.mp hline with rfl | hline
      · exact List.not_mem_nil
      · exact ih hline
    · rw [if_neg fun heq => hc (beq_iff_eq.mp heq)] at hline
      obtain ⟨first, others, hsplit⟩ := List.exists_cons_of_ne_nil (List.splitOn_ne_nil '\n' text)
      rw [hsplit, List.modifyHead_cons] at hline
      rw [hsplit] at ih
      rcases List.mem_cons.mp hline with rfl | hline
      · rw [List.mem_cons, not_or]
        exact ⟨Ne.symm hc, ih List.mem_cons_self⟩
      · exact ih (List.mem_cons_of_mem _ hline)

/-! ## What a directive sets -/

/-- What a valid directive sets. -/
inductive Setting where
  | proxy (addr : Addr) (port : BitVec 16)
  | bypass (net : Cidr)

/-- What a directive sets; an invalid one sets nothing. -/
def Directive.setting : Directive → Option Setting
  | .proxy value =>
    let parsed := fpParseProxy value .zero
    if parsed.1 = 0 then some (.proxy parsed.2.proxyAddr parsed.2.proxyPort) else none
  | .bypass value => (entryNet value).map .bypass

/-- Whether a proxy is valid does not depend on the configuration. -/
theorem fpParseProxy_uniform (value : List Char) :
    (∃ a port, port ≠ 0 ∧ ∀ config : Config,
      fpParseProxy value config = (0, { config with proxyAddr := a, proxyPort := port })) ∨
    ∀ config, fpParseProxy value config = (-1, config) := by
  by_cases hform : ∃ a lead p n, value = inetNtop a ++ ':' :: (lead ++ p) ∧ Lead lead false ∧
      parseDecimal p = some n ∧ 1 ≤ n ∧ n ≤ 65535
  · obtain ⟨a, lead, p, n, rfl, hlead, hp, hlo, hhi⟩ := hform
    refine .inl ⟨a, BitVec.ofNat 16 n, ?_, fpParseProxy_lead hlead hp hlo hhi⟩
    intro hzero
    have htoNat := congrArg BitVec.toNat hzero
    rw [BitVec.toNat_ofNat, Nat.mod_eq_of_lt (by omega)] at htoNat
    exact absurd htoNat (Nat.ne_of_gt hlo)
  · refine .inr fun config => ?_
    rcases fpParseProxy_accepts value config with ⟨a, lead, p, n, hvalue, hlead, hp, hlo, hhi, -⟩ | heq
    · exact absurd ⟨a, lead, p, n, hvalue, hlead, hp, hlo, hhi⟩ hform
    · exact heq

theorem take_invalid {d : Directive} (h : d.setting = none) (r : Reading) :
    (r.take d).config = r.config ∧ (r.take d).valid = false := by
  cases d with
  | proxy value =>
    rcases fpParseProxy_uniform value with ⟨a, port, -, heq⟩ | heq
    · simp [Directive.setting, heq] at h
    · simp [Reading.take, heq]
  | bypass value =>
    simp only [Directive.setting, Option.map_eq_none_iff] at h
    rcases appendBypass_cases value r.config with ⟨-, heq⟩ | ⟨-, n, hn, -⟩
    · simp [Reading.take, heq]
    · rw [h] at hn
      cases hn

theorem take_proxy {d : Directive} {a : Addr} {port : BitVec 16} (h : d.setting = some (.proxy a port)) :
    port ≠ 0 ∧ ∀ r : Reading,
      r.take d = ⟨{ r.config with proxyAddr := a, proxyPort := port }, true, r.valid⟩ := by
  cases d with
  | proxy value =>
    rcases fpParseProxy_uniform value with ⟨a', port', hport, heq⟩ | heq
    · simp only [Directive.setting, heq, if_true, Option.some.injEq, Setting.proxy.injEq] at h
      obtain ⟨rfl, rfl⟩ := h
      refine ⟨hport, fun r => ?_⟩
      simp [Reading.take, heq]
    · simp [Directive.setting, heq] at h
  | bypass value => simp [Directive.setting] at h

/-- Everything a valid bypass line does. -/
theorem take_bypass {d : Directive} {n : Cidr} (h : d.setting = some (.bypass n)) (r : Reading) :
    (fpMaxBypass ≤ r.config.bypassNets.length ∧ r.take d = { r with valid := false }) ∨
      r.config.bypassNets.length < fpMaxBypass ∧
        ((n ∈ r.config.bypassNets ∧ r.take d = r) ∨
          (n ∉ r.config.bypassNets ∧ ∃ config', Entered r.config n config' ∧
            r.take d = { r with config := config' })) := by
  cases d with
  | proxy value =>
    unfold Directive.setting at h
    simp only at h
    split at h
    · simp at h
    · cases h
  | bypass value =>
    obtain ⟨m, hm, heq⟩ := Option.map_eq_some_iff.mp h
    obtain rfl := Setting.bypass.inj heq
    rcases appendBypass_cases value r.config with ⟨hbad, heq⟩ | ⟨hroom, n, hn, hcase⟩
    · refine .inl ⟨hbad.resolve_right (by rw [hm]; simp), ?_⟩
      simp [Reading.take, heq]
    · obtain rfl := Option.some.inj (hm.symm.trans hn)
      refine .inr ⟨hroom, ?_⟩
      rcases hcase with ⟨hmem, heq⟩ | ⟨hnew, config', heq, hentered⟩
      · refine .inl ⟨hmem, ?_⟩
        simp [Reading.take, heq]
      · refine .inr ⟨hnew, config', hentered, ?_⟩
        simp [Reading.take, heq]

/-- **A valid directive counts by its setting.** -/
theorem Reading.take_setting {d d' : Directive} {setting : Setting} (h : d.setting = some setting)
    (h' : d'.setting = some setting) (r : Reading) : r.take d = r.take d' := by
  cases setting with
  | proxy a port => rw [(take_proxy h).2, (take_proxy h').2]
  | bypass n =>
    rcases take_bypass h r with ⟨hfull, heq⟩ | ⟨hroom, hcase⟩
    · rcases take_bypass h' r with ⟨-, heq'⟩ | ⟨hroom', -⟩
      · rw [heq, heq']
      · omega
    · rcases take_bypass h' r with ⟨hfull', -⟩ | ⟨-, hcase'⟩
      · omega
      rcases hcase with ⟨hmem, heq⟩ | ⟨hnew, config, hentered, heq⟩
      · rcases hcase' with ⟨-, heq'⟩ | ⟨hnew', -⟩
        · rw [heq, heq']
        · exact absurd hmem hnew'
      · rcases hcase' with ⟨hmem', -⟩ | ⟨-, config', hentered', heq'⟩
        · exact absurd hmem' hnew
        · have hsame : config = config' := Config.ext_nets (hentered.addr.trans hentered'.addr.symm)
            (hentered.port.trans hentered'.port.symm) (hentered.nets.trans hentered'.nets.symm)
          rw [heq, heq', hsame]

/-! ## Harmless lines -/

/-- The directives set what the line sets. -/
def SetsAlike (line : Option Directive) (pieces : List Directive) : Prop :=
  match line.map Directive.setting with
  | none => pieces = []
  | some none => pieces ≠ [] ∧ ∀ p ∈ pieces, p.setting = none
  | some (some (.bypass n)) => ∃ p, pieces = [p] ∧ p.setting = some (.bypass n)
  | some (some (.proxy a port)) =>
    (∀ p ∈ pieces, ∃ a port, p.setting = some (.proxy a port)) ∧
      ∃ p ∈ pieces.getLast?, p.setting = some (.proxy a port)

/-- What a whole line directs; it ends at its first carriage return. -/
def lineDirective (line : List Char) : Option Directive :=
  directive (line.takeWhile fun c => !(c == '\r'))

/-- The pieces of the line set what the line sets. -/
def Harmless (line : List Char) : Prop := SetsAlike (lineDirective line) (pieceDirectives line)

theorem setsAlike_self (d : Option Directive) : SetsAlike d d.toList := by
  unfold SetsAlike
  cases d with
  | none => rfl
  | some d =>
    simp only [Option.map_some, Option.toList_some]
    cases hsetting : d.setting with
    | none => exact ⟨List.cons_ne_nil _ _, fun p hp => by rw [List.mem_singleton.mp hp, hsetting]⟩
    | some setting =>
      cases setting with
      | proxy a port =>
        exact ⟨fun p hp => ⟨a, port, by rw [List.mem_singleton.mp hp, hsetting]⟩, d, rfl, hsetting⟩
      | bypass n => exact ⟨d, rfl, hsetting⟩

/-- A short line is harmless. -/
theorem harmless_short {line : List Char} (h : OneLine line) (hlength : line.length ≤ lineRoom) :
    Harmless line := by
  have hcut : cutLine line = line := List.takeWhile_eq_self_iff.mpr fun c hc => by
    obtain ⟨hr, hn, h0⟩ := h c hc
    simp [hr, hn, h0]
  have hline : line.takeWhile (fun c => !(c == '\r')) = line := List.takeWhile_eq_self_iff.mpr fun c hc => by
    simp [(h c hc).1]
  unfold Harmless lineDirective
  rw [pieceDirectives_short h.notMem hlength, hcut, hline]
  exact setsAlike_self _

/-- Readings that differ only where it does not matter any more. -/
structure Reading.Same (r r' : Reading) : Prop where
  config : r.config = r'.config
  valid : r.valid = r'.valid
  proxy : r.valid = true → r.proxy = r'.proxy

theorem Reading.Same.outcome {r r' : Reading} (h : r.Same r') : r.outcome = r'.outcome := by
  obtain ⟨hconfig, hvalid, hproxy⟩ := h
  unfold Reading.outcome
  rw [hconfig, ← hvalid]
  cases hv : r.valid with
  | false => simp
  | true => rw [hproxy hv]

theorem Reading.Same.take {r r' : Reading} (h : r.Same r') (d : Directive) :
    (r.take d).Same (r'.take d) := by
  obtain ⟨hconfig, hvalid, hproxy⟩ := h
  cases d with
  | proxy value =>
    simp only [Reading.take, hconfig, hvalid]
    exact ⟨rfl, rfl, fun _ => rfl⟩
  | bypass value =>
    simp only [Reading.take, hconfig, hvalid]
    refine ⟨rfl, rfl, fun h => hproxy ?_⟩
    rw [hvalid]
    exact (Bool.and_eq_true_iff.mp h).1

theorem run_invalid {pieces : List Directive} (h : ∀ p ∈ pieces, p.setting = none) : ∀ (r : Reading),
    (r.run pieces).config = r.config ∧ ((r.run pieces).valid = true → pieces = []) := by
  induction pieces using List.reverseRecOn with
  | nil => exact fun r => ⟨rfl, fun _ => rfl⟩
  | append_singleton pieces p ih =>
    intro r
    obtain ⟨hconfig, -⟩ := ih (fun q hq => h q (List.mem_append_left _ hq)) r
    obtain ⟨hconfig', hvalid⟩ := take_invalid (h p (by simp)) (r.run pieces)
    have hrun : r.run (pieces ++ [p]) = (r.run pieces).take p := List.foldl_concat ..
    rw [hrun]
    exact ⟨hconfig'.trans hconfig, fun htrue => by rw [hvalid] at htrue; cases htrue⟩

theorem run_proxies {pieces : List Directive} (h : ∀ p ∈ pieces, ∃ a port, p.setting = some (.proxy a port)) :
    ∀ (r : Reading), (r.run pieces).config.bypass = r.config.bypass ∧ (r.run pieces).valid = r.valid := by
  induction pieces with
  | nil => exact fun r => ⟨rfl, rfl⟩
  | cons p pieces ih =>
    intro r
    obtain ⟨a, port, hp⟩ := h p List.mem_cons_self
    obtain ⟨hbypass, hvalid⟩ := ih (fun q hq => h q (List.mem_cons_of_mem _ hq)) (r.take p)
    rw [(take_proxy hp).2 r] at hbypass hvalid
    have hrun : r.run (p :: pieces) = (r.take p).run pieces := rfl
    rw [hrun, (take_proxy hp).2 r]
    exact ⟨hbypass, hvalid⟩

/-- **Harmless pieces do what the line does.** -/
theorem same_of_alike {line : Option Directive} {pieces : List Directive} (h : SetsAlike line pieces)
    {r r' : Reading} (hr : r.Same r') : (r.run pieces).Same (r'.run line.toList) := by
  unfold SetsAlike at h
  cases line with
  | none =>
    obtain rfl : pieces = [] := h
    exact hr
  | some d =>
    have hline : r'.run (some d).toList = r'.take d := rfl
    rw [hline]
    simp only [Option.map_some] at h
    cases hsetting : d.setting with
    | none =>
      rw [hsetting] at h
      obtain ⟨hne, hall⟩ := h
      obtain ⟨hconfig, hvalid⟩ := take_invalid hsetting r'
      obtain ⟨hconfig', hvalid'⟩ := run_invalid hall r
      have hfalse : (r.run pieces).valid = false := by
        cases hv : (r.run pieces).valid with
        | false => rfl
        | true => exact absurd (hvalid' hv) hne
      refine ⟨by rw [hconfig', hconfig, hr.config], by rw [hfalse, hvalid], ?_⟩
      intro htrue
      rw [hfalse] at htrue
      cases htrue
    | some setting =>
      rw [hsetting] at h
      cases setting with
      | bypass n =>
        obtain ⟨p, rfl, hp⟩ := h
        have hpiece : r.run [p] = r.take d := Reading.take_setting hp hsetting r
        rw [hpiece]
        exact hr.take d
      | proxy a port =>
        obtain ⟨hall, p, hlast, hp⟩ := h
        obtain ⟨init, rfl⟩ : ∃ init, pieces = init ++ [p] :=
          ⟨_, (List.dropLast_append_getLast? p hlast).symm⟩
        obtain ⟨hbypass, hvalid⟩ := run_proxies (fun q hq => hall q (List.mem_append_left _ hq)) r
        have hrun : r.run (init ++ [p]) = (r.run init).take p := List.foldl_concat ..
        rw [hrun, (take_proxy hp).2, (take_proxy hsetting).2]
        refine ⟨Config.ext' rfl rfl ?_, ?_, fun _ => rfl⟩
        · rw [hbypass, hr.config]
        · rw [hvalid, hr.valid]

theorem run_append (r : Reading) (ds ds' : List Directive) : r.run (ds ++ ds') = (r.run ds).run ds' :=
  List.foldl_append

theorem lineDirectives_cons (line : List Char) (lines : List (List Char)) :
    lineDirectives (line :: lines) = (lineDirective line).toList ++ lineDirectives lines := by
  unfold lineDirectives lineDirective
  rw [List.filterMap_cons]
  cases directive (line.takeWhile fun c => !(c == '\r')) <;> rfl

theorem same_of_harmless (lines : List (List Char)) : ∀ {r r' : Reading},
    (∀ line ∈ lines, Harmless line) → r.Same r' →
    (r.run (lines.flatMap pieceDirectives)).Same (r'.run (lineDirectives lines)) := by
  induction lines with
  | nil => exact fun _ hr => hr
  | cons line lines ih =>
    intro r r' h hr
    rw [List.flatMap_cons, lineDirectives_cons, run_append, run_append]
    exact ih (fun l hl => h l (List.mem_cons_of_mem _ hl))
      (same_of_alike (h line List.mem_cons_self) hr)

/-- A file of harmless lines is read line by line. -/
theorem load_of_harmless {text : List Char} (h : ∀ line ∈ text.splitOn '\n', Harmless line)
    (config : Config) : fpConfigLoad (some text) config = readWhole text := by
  have hpieces := pieceDirectives_lines (List.splitOn_ne_nil '\n' text) fun line => newline_notMem
  rw [List.intercalate_splitOn] at hpieces
  rw [fpConfigLoad_eq, hpieces, readWhole]
  exact (same_of_harmless _ h ⟨rfl, rfl, fun _ => rfl⟩).outcome

/-! ## Every other line does harm -/

section Harm

variable {d : Directive} {ds : List Directive} {r : Reading}

/-- What a directive does to the configuration. -/
theorem take_config (d : Directive) (r : Reading) :
    (r.take d).config = r.config ∨
      (∃ a port, port ≠ 0 ∧ (r.take d).config = { r.config with proxyAddr := a, proxyPort := port }) ∨
      ∃ n, Entered r.config n (r.take d).config := by
  cases hsetting : d.setting with
  | none => exact .inl (take_invalid hsetting r).1
  | some setting =>
    cases setting with
    | proxy a port =>
      obtain ⟨hport, heq⟩ := take_proxy hsetting
      exact .inr (.inl ⟨a, port, hport, by rw [heq]⟩)
    | bypass n =>
      rcases take_bypass hsetting r with ⟨-, heq⟩ | ⟨-, ⟨-, heq⟩ | ⟨-, config', hentered, heq⟩⟩
      · exact .inl (by rw [heq])
      · exact .inl (by rw [heq])
      · exact .inr (.inr ⟨n, by rw [heq]; exact hentered⟩)

/-- What a directive never undoes. -/
theorem take_keeps (d : Directive) (r : Reading) :
    (∀ n ∈ r.config.bypassNets, n ∈ (r.take d).config.bypassNets) ∧
      (r.config.proxyPort ≠ 0 → (r.take d).config.proxyPort ≠ 0) ∧
      ((r.take d).valid = true → r.valid = true) ∧ (r.proxy = true → (r.take d).proxy = true) := by
  have hvalid : (r.take d).valid = true → r.valid = true := by
    cases d with
    | proxy value => exact fun h => (Bool.and_eq_true_iff.mp h).1
    | bypass value => exact fun h => (Bool.and_eq_true_iff.mp h).1
  have hproxy : r.proxy = true → (r.take d).proxy = true := by
    cases d with
    | proxy value => exact fun _ => rfl
    | bypass value => exact fun h => h
  refine ⟨?_, ?_, hvalid, hproxy⟩
  · rcases take_config d r with heq | ⟨a, port, -, heq⟩ | ⟨m, hentered⟩
    · rw [heq]
      exact fun n hn => hn
    · rw [heq]
      exact fun n hn => hn
    · rw [hentered.nets]
      exact fun n hn => List.mem_append_left _ hn
  · rcases take_config d r with heq | ⟨a, port, hport, heq⟩ | ⟨m, hentered⟩
    · rw [heq]
      exact fun h => h
    · rw [heq]
      exact fun _ => hport
    · rw [hentered.port]
      exact fun h => h

/-- A valid bypass line leaves its network, if there is room. -/
theorem mem_take_bypass {n : Cidr} (h : d.setting = some (.bypass n))
    (hroom : r.config.bypassNets.length < fpMaxBypass) : n ∈ (r.take d).config.bypassNets := by
  rcases take_bypass h r with ⟨hfull, -⟩ | ⟨-, ⟨hmem, heq⟩ | ⟨-, config', hentered, heq⟩⟩
  · exact absurd hroom (Nat.not_lt.mpr hfull)
  · rw [heq]
    exact hmem
  · rw [heq]
    show n ∈ config'.bypassNets
    rw [hentered.nets]
    exact List.mem_append_right _ List.mem_cons_self

theorem run_keeps (ds : List Directive) : ∀ (r : Reading),
    (∀ n ∈ r.config.bypassNets, n ∈ (r.run ds).config.bypassNets) ∧
      (r.config.proxyPort ≠ 0 → (r.run ds).config.proxyPort ≠ 0) ∧
      ((r.run ds).valid = true → r.valid = true) ∧ (r.proxy = true → (r.run ds).proxy = true) := by
  induction ds with
  | nil => exact fun r => ⟨fun _ h => h, fun h => h, fun h => h, fun h => h⟩
  | cons d ds ih =>
    intro r
    obtain ⟨hnets, hport, hvalid, hproxy⟩ := take_keeps d r
    obtain ⟨hnets', hport', hvalid', hproxy'⟩ := ih (r.take d)
    exact ⟨fun n hn => hnets' n (hnets n hn), fun h => hport' (hport h), fun h => hvalid (hvalid' h),
      fun h => hproxy' (hproxy h)⟩

theorem run_of_mem (h : d ∈ ds) : ∃ before after, ∀ r : Reading,
    r.run ds = ((r.run before).take d).run after := by
  obtain ⟨before, after, rfl⟩ := List.append_of_mem h
  exact ⟨before, after, fun r => by rw [run_append]; rfl⟩

/-- A valid run has valid directives only, and all their networks. -/
theorem valid_of_run (hvalid : (r.run ds).valid = true) (h : d ∈ ds) :
    ∃ setting, d.setting = some setting ∧ ∀ n, setting = .bypass n → n ∈ (r.run ds).config.bypassNets := by
  obtain ⟨before, after, hrun⟩ := run_of_mem h
  rw [hrun] at hvalid ⊢
  obtain ⟨hnets, -, hbefore, -⟩ := run_keeps after ((r.run before).take d)
  have hvalid := hbefore hvalid
  cases hsetting : d.setting with
  | none =>
    rw [(take_invalid hsetting _).2] at hvalid
    cases hvalid
  | some setting =>
    refine ⟨setting, rfl, ?_⟩
    rintro n rfl
    refine hnets n (mem_take_bypass hsetting (Nat.lt_of_not_le fun hfull => ?_))
    rcases take_bypass hsetting (r.run before) with ⟨-, heq⟩ | ⟨hroom, -⟩
    · rw [heq] at hvalid
      cases hvalid
    · exact absurd hroom (Nat.not_lt.mpr hfull)

/-- A valid run that leaves no network has read proxies only. -/
theorem proxies_of_run (hvalid : (r.run ds).valid = true) (hnets : (r.run ds).config.bypassNets = []) :
    ∀ p ∈ ds, ∃ a port, p.setting = some (.proxy a port) := by
  intro p hp
  obtain ⟨setting, hsetting, hmem⟩ := valid_of_run hvalid hp
  cases setting with
  | proxy a port => exact ⟨a, port, hsetting⟩
  | bypass n =>
    have hn := hmem n rfl
    rw [hnets] at hn
    cases hn

/-- A valid proxy leaves a port and the mark that there was one. -/
theorem port_of_run {a : Addr} {port : BitVec 16} (h : d ∈ ds) (hd : d.setting = some (.proxy a port)) :
    (r.run ds).config.proxyPort ≠ 0 ∧ (r.run ds).proxy = true := by
  obtain ⟨before, after, hrun⟩ := run_of_mem h
  obtain ⟨-, hport, -, hproxy⟩ := run_keeps after ((r.run before).take d)
  rw [hrun]
  rw [(take_proxy hd).2] at hport hproxy ⊢
  exact ⟨hport (take_proxy hd).1, hproxy rfl⟩

/-- A valid bypass line leaves a network. -/
theorem nets_of_run {n : Cidr} (h : d ∈ ds) (hd : d.setting = some (.bypass n)) :
    (r.run ds).config.bypassNets ≠ [] := by
  obtain ⟨before, after, hrun⟩ := run_of_mem h
  obtain ⟨hnets, -⟩ := run_keeps after ((r.run before).take d)
  rw [hrun]
  have hmem : ∃ m, m ∈ ((r.run before).take d).config.bypassNets := by
    by_cases hroom : (r.run before).config.bypassNets.length < fpMaxBypass
    · exact ⟨n, mem_take_bypass hd hroom⟩
    · have hfull : 0 < (r.run before).config.bypassNets.length :=
        Nat.lt_of_lt_of_le (by decide) (Nat.le_of_not_lt hroom)
      obtain ⟨m, hm⟩ := List.exists_mem_of_length_pos hfull
      exact ⟨m, (take_keeps d _).1 m hm⟩
  obtain ⟨m, hm⟩ := hmem
  exact List.ne_nil_of_mem (hnets m hm)

end Harm

/-- The reading behind a configuration that was written. -/
def Reading.after (c : Config) : Reading := ⟨c, true, true⟩

theorem Reading.outcome_eq_zero {r : Reading} {c : Config} :
    r.outcome = (0, c) ↔ r.proxy = true ∧ r.valid = true ∧ r.config = c := by
  unfold Reading.outcome
  cases r.proxy <;> cases r.valid <;> simp

/-- A list with room for one network, which is new. -/
theorem exists_almost_full (n : Cidr) :
    ∃ nets : List Cidr, nets.length + 1 = fpMaxBypass ∧ nets.Nodup ∧ n ∉ nets := by
  let hosts := (List.range 32).map fun i => Cidr.host (BitVec.ofNat 32 i)
  have hnodup : hosts.Nodup := by decide +kernel
  have hlength : 31 ≤ (hosts.erase n).length := by
    rw [List.length_erase]
    split <;> simp [hosts]
  refine ⟨(hosts.erase n).take 31, ?_, (hnodup.erase n).sublist (List.take_sublist _ _), ?_⟩
  · rw [List.length_take_of_le hlength]
    rfl
  · exact fun hmem => hnodup.not_mem_erase (List.mem_of_mem_take hmem)

/-- A list without room after `n`. -/
theorem run_repetition {p q : Directive} {ds : List Directive} {n : Cidr} {c : Config}
    (hp : p.setting = some (.bypass n)) (hq : q.setting = some (.bypass n))
    (hlength : c.bypassNets.length + 1 = fpMaxBypass) (hnew : n ∉ c.bypassNets) :
    ((Reading.after c).run (p :: q :: ds)).valid = false := by
  have hrun : (Reading.after c).run (p :: q :: ds) = (((Reading.after c).take p).take q).run ds := rfl
  have hsecond : (((Reading.after c).take p).take q).valid = false := by
    rcases take_bypass hp (.after c) with ⟨hfull, -⟩ | ⟨-, ⟨hmem, -⟩ | ⟨-, config', hentered, heq⟩⟩
    · have : fpMaxBypass ≤ c.bypassNets.length := hfull
      omega
    · exact absurd hmem hnew
    · have hnets : config'.bypassNets.length = fpMaxBypass := by
        rw [hentered.nets, List.length_append, List.length_singleton]
        exact hlength
      rw [heq]
      rcases take_bypass hq { Reading.after c with config := config' } with ⟨-, heq'⟩ | ⟨hroom, -⟩
      · rw [heq']
      · exact absurd hroom (Nat.not_lt.mpr (le_of_eq hnets.symm))
  cases hvalid : ((Reading.after c).run (p :: q :: ds)).valid with
  | false => rfl
  | true =>
    rw [hrun] at hvalid
    rw [(run_keeps ds _).2.2.1 hvalid] at hsecond
    cases hsecond

section Agree

variable {d : Directive} {pieces : List Directive}

/-- A configuration with a proxy and no bypass list. -/
def oneProxy : Config := .make 1 1 [] (by decide)

/-- The pieces of a line that is ignored are ignored. -/
theorem nil_of_agree (hstart : (Reading.start.run pieces).outcome = Reading.start.outcome)
    (hone : ((Reading.after oneProxy).run pieces).outcome = (Reading.after oneProxy).outcome) :
    pieces = [] := by
  obtain ⟨-, hvalid, hconfig⟩ := Reading.outcome_eq_zero.mp hone
  have hall := proxies_of_run hvalid (congrArg Config.bypassNets hconfig)
  cases pieces with
  | nil => rfl
  | cons p pieces =>
    obtain ⟨a, port, hp⟩ := hall p List.mem_cons_self
    have hfst := congrArg Prod.fst hstart
    simp only [Reading.outcome, (port_of_run List.mem_cons_self hp).2, (run_proxies hall .start).2] at hfst
    exact absurd hfst (by decide)

/-- The pieces of an invalid line are invalid, and there are some. -/
theorem invalid_of_agree (hsetting : d.setting = none)
    (hstart : (Reading.start.run pieces).outcome = (Reading.start.take d).outcome)
    (hone : ((Reading.after oneProxy).run pieces).outcome = ((Reading.after oneProxy).take d).outcome) :
    pieces ≠ [] ∧ ∀ p ∈ pieces, p.setting = none := by
  have hzero : (Reading.start.run pieces).config = .zero :=
    (congrArg Prod.snd hstart).trans (take_invalid hsetting .start).1
  constructor
  · rintro rfl
    have hfst := congrArg Prod.fst hone
    simp only [Reading.outcome, (take_invalid hsetting _).2, Bool.and_false] at hfst
    exact absurd hfst (by decide)
  · intro p hp
    cases hpset : p.setting with
    | none => rfl
    | some setting =>
      cases setting with
      | proxy a port =>
        obtain ⟨hport, -⟩ := port_of_run (r := .start) hp hpset
        rw [hzero] at hport
        exact absurd rfl hport
      | bypass n =>
        have hnets := nets_of_run (r := .start) hp hpset
        rw [hzero] at hnets
        exact absurd rfl hnets

/-- The pieces of a valid proxy line are valid proxies, and the last one is the line's. -/
theorem proxies_of_agree {a : Addr} {port : BitVec 16} (hsetting : d.setting = some (.proxy a port))
    (hstart : (Reading.start.run pieces).outcome = (Reading.start.take d).outcome) :
    (∀ p ∈ pieces, ∃ a port, p.setting = some (.proxy a port)) ∧
      ∃ p ∈ pieces.getLast?, p.setting = some (.proxy a port) := by
  rw [(take_proxy hsetting).2] at hstart
  obtain ⟨hproxy, hvalid, hconfig⟩ := Reading.outcome_eq_zero.mp
    (hstart.trans (Reading.outcome_eq_zero.mpr ⟨rfl, rfl, rfl⟩))
  have hall := proxies_of_run hvalid (congrArg Config.bypassNets hconfig)
  refine ⟨hall, ?_⟩
  rcases List.eq_nil_or_concat pieces with rfl | ⟨init, p, rfl⟩
  · cases hproxy
  rw [List.concat_eq_append] at hall hconfig ⊢
  obtain ⟨a', port', hp⟩ := hall p (by simp)
  have hrun : Reading.start.run (init ++ [p]) = (Reading.start.run init).take p := List.foldl_concat ..
  rw [hrun, (take_proxy hp).2] at hconfig
  have haddr : a' = a := congrArg Config.proxyAddr hconfig
  have hport : port' = port := congrArg Config.proxyPort hconfig
  exact ⟨p, by simp, by rw [hp, haddr, hport]⟩

/-- A new network is entered, if there is room. -/
theorem take_new {n : Cidr} (hsetting : d.setting = some (.bypass n)) {c : Config}
    (hroom : c.bypassNets.length < fpMaxBypass) (hnew : n ∉ c.bypassNets) :
    ∃ config', Entered c n config' ∧
      ((Reading.after c).take d).outcome = (0, config') := by
  rcases take_bypass hsetting (.after c) with ⟨hfull, -⟩ | ⟨-, ⟨hmem, -⟩ | ⟨-, config', hentered, heq⟩⟩
  · exact absurd hroom (Nat.not_lt.mpr hfull)
  · exact absurd hmem hnew
  · exact ⟨config', hentered, by rw [heq]; rfl⟩

/-- A bypass line sets no proxy. -/
theorem take_bypass_port {n : Cidr} (hsetting : d.setting = some (.bypass n)) (r : Reading) :
    (r.take d).config.proxyPort = r.config.proxyPort := by
  rcases take_bypass hsetting r with ⟨-, heq⟩ | ⟨-, ⟨-, heq⟩ | ⟨-, config', hentered, heq⟩⟩
  · rw [heq]
  · rw [heq]
  · rw [heq]
    exact hentered.port

/-- A valid bypass line has one piece, which means its network: a second one would not fit a list that
the first one fills. -/
theorem bypass_of_agree {n : Cidr} (hsetting : d.setting = some (.bypass n))
    (hstart : (Reading.start.run pieces).outcome = (Reading.start.take d).outcome)
    (hafter : ∀ c : Config, c.proxyPort ≠ 0 → c.Distinct →
      ((Reading.after c).run pieces).outcome = ((Reading.after c).take d).outcome) :
    ∃ p, pieces = [p] ∧ p.setting = some (.bypass n) := by
  obtain ⟨config', hentered, hline⟩ := take_new (c := oneProxy) hsetting (by decide) List.not_mem_nil
  obtain ⟨-, hvalid, hconfig⟩ := Reading.outcome_eq_zero.mp
    ((hafter oneProxy (by decide) List.nodup_nil).trans hline)
  have hnets : config'.bypassNets = [n] := hentered.nets
  have hport : (Reading.start.run pieces).config.proxyPort = 0 :=
    (congrArg (fun o => o.2.proxyPort) hstart).trans (take_bypass_port hsetting .start)
  have hall : ∀ p ∈ pieces, p.setting = some (.bypass n) := by
    intro p hp
    obtain ⟨setting, hpset, hmem⟩ := valid_of_run hvalid hp
    cases setting with
    | proxy a port => exact absurd hport (port_of_run hp hpset).1
    | bypass m =>
      have hm := hmem m rfl
      rw [hconfig, hnets] at hm
      rw [hpset, List.mem_singleton.mp hm]
  match pieces with
  | [] =>
    have hempty := congrArg Config.bypassNets hconfig
    rw [hnets] at hempty
    cases hempty
  | [p] => exact ⟨p, rfl, hall p List.mem_cons_self⟩
  | p :: q :: ds =>
    obtain ⟨nets, hlength, hnodup, hnew⟩ := exists_almost_full n
    let full : Config := .make 1 1 nets (by omega)
    have hfull : full.bypassNets = nets := by
      simp [full, Config.bypassNets, Config.make, Bypass.ofCidr, Function.comp_def]
    rw [← hfull] at hlength hnodup hnew
    obtain ⟨config', -, hline⟩ := take_new (c := full) hsetting (by omega) hnew
    obtain ⟨-, hvalid, -⟩ := Reading.outcome_eq_zero.mp
      ((hafter full (show (1 : BitVec 16) ≠ 0 by decide) hnodup).trans hline)
    rw [run_repetition (hall p (by simp)) (hall q (by simp)) hlength hnew] at hvalid
    cases hvalid

/-- **Pieces that do what the line does wherever it stands are harmless.** -/
theorem setsAlike_of_agree {line : Option Directive}
    (hstart : (Reading.start.run pieces).outcome = (Reading.start.run line.toList).outcome)
    (hafter : ∀ c : Config, c.proxyPort ≠ 0 → c.Distinct →
      ((Reading.after c).run pieces).outcome = ((Reading.after c).run line.toList).outcome) :
    SetsAlike line pieces := by
  have hone := hafter oneProxy (by decide) List.nodup_nil
  unfold SetsAlike
  cases line with
  | none => exact nil_of_agree hstart hone
  | some d =>
    simp only [Option.map_some]
    cases hsetting : d.setting with
    | none => exact invalid_of_agree hsetting hstart hone
    | some setting =>
      cases setting with
      | proxy a port => exact proxies_of_agree hsetting hstart
      | bypass n => exact bypass_of_agree hsetting hstart hafter

end Agree

/-! ## Headline -/

/-- The lines, each ended by a newline. -/
def fileOf (lines : List (List Char)) : List Char := lines.flatMap fun line => line ++ ['\n']

theorem fileOf_eq (lines : List (List Char)) : fileOf lines = ['\n'].intercalate (lines ++ [[]]) := by
  induction lines with
  | nil => rfl
  | cons line lines ih =>
    have hcons : fileOf (line :: lines) = line ++ ['\n'] ++ fileOf lines := List.flatMap_cons
    rw [hcons, ih, List.cons_append, List.intercalate_cons_of_ne_nil (by simp)]

/-- The lines of a file are read, and its pieces are theirs. -/
theorem fileOf_reads {lines : List (List Char)} (h : ∀ line ∈ lines, '\n' ∉ line) :
    pieceDirectives (fileOf lines) = lines.flatMap pieceDirectives ∧
      readWhole (fileOf lines) = (Reading.start.run (lineDirectives lines)).outcome := by
  have hlines : ∀ line ∈ lines ++ [[]], '\n' ∉ line := by
    intro line hline
    rcases List.mem_append.mp hline with hline | hline
    · exact h line hline
    · rw [List.mem_singleton.mp hline]
      exact List.not_mem_nil
  have hempty : lineDirectives [[]] = [] := rfl
  constructor
  · rw [fileOf_eq, pieceDirectives_lines (by simp) hlines, List.flatMap_append, List.flatMap_singleton,
      pieceDirectives_nil, List.append_nil]
  · unfold readWhole
    rw [fileOf_eq, List.splitOn_intercalate '\n' hlines (by simp), lineDirectives, List.filterMap_append]
    exact congrArg (fun ds => (Reading.start.run ds).outcome) (List.append_nil _)

/-- The lines of a configuration that was written. -/
def configLines (c : Config) : List (List Char) :=
  (proxyKey ++ proxyText c) :: c.bypass.map fun b => bypassKey ++ b.text

theorem fileOf_configLines (c : Config) : fileOf (configLines c) = configText c := by
  simp [fileOf, configLines, configText, proxyLine, proxyText, List.flatMap_map]
  rfl

theorem configLines_harmless (c : Config) : ∀ line ∈ configLines c, '\n' ∉ line ∧ Harmless line := by
  intro line hline
  have hshort : OneLine line ∧ line.length ≤ lineRoom := by
    rcases List.mem_cons.mp hline with rfl | hline
    · have hlength := length_proxyText c
      refine ⟨oneLine_proxyKey.append (oneLine_proxyText c), ?_⟩
      rw [List.length_append]
      simp only [proxyKey, lineRoom, List.length_cons, List.length_nil]
      omega
    · obtain ⟨b, -, rfl⟩ := List.mem_map.mp hline
      have hlength := length_text b.cidr
      have hplain : Plain b.text := b.text_eq ▸ plain_text b.cidr
      refine ⟨oneLine_bypassKey.append hplain.oneLine, ?_⟩
      rw [b.text_eq, List.length_append]
      unfold inetAddrstrlen at hlength
      simp only [bypassKey, lineRoom, List.length_cons, List.length_nil]
      omega
  exact ⟨hshort.1.notMem, harmless_short hshort.1 hshort.2⟩

/-- A line is harmless when it is read as a line among harmless lines. -/
theorem harmless_iff {line : List Char} (hline : '\n' ∉ line) :
    Harmless line ↔ ∀ before after config,
      (∀ other ∈ before ++ after, '\n' ∉ other ∧ Harmless other) →
        fpConfigLoad (some (fileOf (before ++ line :: after))) config =
          readWhole (fileOf (before ++ line :: after)) := by
  constructor
  · intro h before after config hothers
    have hall : ∀ other ∈ before ++ line :: after, '\n' ∉ other ∧ Harmless other := by
      intro other hother
      rcases List.mem_append.mp hother with hmem | hmem
      · exact hothers other (List.mem_append_left _ hmem)
      rcases List.mem_cons.mp hmem with rfl | hmem
      · exact ⟨hline, h⟩
      · exact hothers other (List.mem_append_right _ hmem)
    obtain ⟨hpieces, hwhole⟩ := fileOf_reads fun other hother => (hall other hother).1
    rw [fpConfigLoad_eq, hpieces, hwhole]
    exact (same_of_harmless _ (fun other hother => (hall other hother).2) ⟨rfl, rfl, fun _ => rfl⟩).outcome
  · intro h
    -- the line behind a list of harmless lines
    have hbehind : ∀ before : List (List Char), (∀ other ∈ before, '\n' ∉ other ∧ Harmless other) →
        ((Reading.start.run (before.flatMap pieceDirectives)).run (pieceDirectives line)).outcome =
          ((Reading.start.run (lineDirectives before)).run (lineDirective line).toList).outcome := by
      intro before hbefore
      have hload := h before [] .zero (by simpa using hbefore)
      have hnewline : ∀ other ∈ before ++ [line], '\n' ∉ other := by
        intro other hother
        rcases List.mem_append.mp hother with hmem | hmem
        · exact (hbefore other hmem).1
        · rw [List.mem_singleton.mp hmem]
          exact hline
      obtain ⟨hpieces, hwhole⟩ := fileOf_reads hnewline
      have hlast : lineDirectives (before ++ [line]) =
          lineDirectives before ++ (lineDirective line).toList := by
        have hsingle := lineDirectives_cons line []
        rw [lineDirectives, List.filterMap_append]
        exact congrArg (lineDirectives before ++ ·) (hsingle.trans (List.append_nil _))
      rw [fpConfigLoad_eq, hpieces, hwhole, hlast, List.flatMap_append, List.flatMap_singleton, run_append,
        run_append] at hload
      exact hload
    refine setsAlike_of_agree (hbehind [] (by simp)) ?_
    intro c hport hdistinct
    have hlines := configLines_harmless c
    have hcontext := hbehind (configLines c) hlines
    have hload := load_configText hport hdistinct .zero
    obtain ⟨hpieces, -⟩ := fileOf_reads fun other hother => (hlines other hother).1
    rw [fpConfigLoad_eq, ← fileOf_configLines, hpieces] at hload
    have hstart : Reading.start.Same .start := ⟨rfl, rfl, fun _ => rfl⟩
    have hsame := same_of_harmless (configLines c) (fun other hother => (hlines other hother).2) hstart
    have hafter : ∀ {r : Reading}, r.outcome = (0, c) → r = .after c := by
      intro r hr
      obtain ⟨hproxy, hvalid, hconfig⟩ := Reading.outcome_eq_zero.mp hr
      obtain ⟨config, proxy, valid⟩ := r
      simp only at hproxy hvalid hconfig
      rw [hproxy, hvalid, hconfig]
      rfl
    rw [hafter hload, hafter (hsame.outcome.symm.trans hload)] at hcontext
    exact hcontext

/-- **What `fp_config_load` reads as whole lines.** A file of harmless lines is read line by line, and a
line that is not harmless is not read as a line in some file whose other lines are. -/
theorem lines_read_whole (text line : List Char) (config : Config) :
    ((∀ other ∈ text.splitOn '\n', Harmless other) → fpConfigLoad (some text) config = readWhole text) ∧
    ('\n' ∉ line → (Harmless line ↔ ∀ before after config,
      (∀ other ∈ before ++ after, '\n' ∉ other ∧ Harmless other) →
        fpConfigLoad (some (fileOf (before ++ line :: after))) config =
          readWhole (fileOf (before ++ line :: after)))) :=
  ⟨fun h => load_of_harmless h config, harmless_iff⟩

/-- A proxy line. -/
def proxyTail : List Char := proxyKey ++ ['1', '.', '2', '.', '3', '.', '4', ':', '8', '0']

/-- A comment directs nothing. -/
theorem directive_comment (rest : List Char) : directive ('#' :: rest) = none := by
  simp [directive, proxyKey, bypassKey]

/-- A line of nothing but `#`. -/
def ruler (n : Nat) : List Char := List.replicate n '#'

theorem newline_notMem_ruler (n : Nat) : '\n' ∉ ruler n :=
  fun h => absurd (List.eq_of_mem_replicate h) (by decide)

theorem directive_ruler (n : Nat) : directive (cutLine (ruler n)) = none := by
  cases n with
  | zero => rfl
  | succ n =>
    rw [ruler, List.replicate_succ, cutLine, List.takeWhile_cons_of_pos (by decide)]
    exact directive_comment _

/-- `fgets` with room for the ruler reads it. -/
theorem fgets_ruler (room : Nat) (rest : List Char) : fgets room (ruler room ++ rest) = (ruler room, rest) := by
  have hlength : (ruler room).length = room := List.length_replicate
  have hinside := fgets_inside (newline_notMem_ruler room) rest hlength.ge
  rwa [List.take_of_length_le hlength.le, List.drop_eq_nil_of_le hlength.le, List.nil_append] at hinside

/-- However long it is, none of its pieces directs anything. -/
theorem pieceDirectives_ruler (n : Nat) : pieceDirectives (ruler n) = [] := by
  induction n using Nat.strongRecOn with
  | ind n ih =>
    by_cases hshort : n ≤ lineRoom
    · rw [pieceDirectives_short (newline_notMem_ruler n) (by rwa [ruler, List.length_replicate]), directive_ruler]
      rfl
    · obtain ⟨m, rfl⟩ : ∃ m, n = lineRoom + m := ⟨n - lineRoom, by omega⟩
      have hroom : 0 < lineRoom := by decide
      have hsplit : ruler (lineRoom + m) = ruler lineRoom ++ ruler m := List.replicate_add lineRoom m '#'
      have hne : ruler (lineRoom + m) ≠ [] := fun hnil => by
        have hlength := congrArg List.length hnil
        rw [ruler, List.length_replicate, List.length_nil] at hlength
        omega
      rw [pieceDirectives_cons hne, hsplit, fgets_ruler, directive_ruler, ih m (by omega)]
      rfl

theorem harmless_ruler (n : Nat) : Harmless (ruler n) := by
  have hline : lineDirective (ruler n) = none := by
    cases n with
    | zero => rfl
    | succ n =>
      rw [lineDirective, ruler, List.replicate_succ, List.takeWhile_cons_of_pos (by decide)]
      exact directive_comment _
  unfold Harmless
  rw [hline, pieceDirectives_ruler]
  rfl

/-- A ruler of three pieces before the proxy line does no harm. -/
theorem lines_read_whole_ruler : 2 * lineRoom < (ruler 300).length ∧ ∀ config,
    fpConfigLoad (some (fileOf [ruler 300, proxyTail])) config = readWhole (fileOf [ruler 300, proxyTail]) ∧
      (fpConfigLoad (some (fileOf [ruler 300, proxyTail])) config).1 = 0 := by
  refine ⟨by rw [ruler, List.length_replicate]; decide, fun config => ?_⟩
  have hline : OneLine proxyTail := by
    have hall : proxyTail.all (fun c => c != '\r' && c != '\n' && c.toNat != 0) = true := by decide
    intro c hc
    simpa [and_assoc] using List.all_eq_true.mp hall c hc
  have hproxy : ∀ other ∈ [] ++ [proxyTail], '\n' ∉ other ∧ Harmless other := by
    intro other hother
    obtain rfl := List.mem_singleton.mp hother
    exact ⟨hline.notMem, harmless_short hline (by decide)⟩
  have hload := ((lines_read_whole [] (ruler 300) config).2 (newline_notMem_ruler 300)).mp (harmless_ruler 300)
    [] [proxyTail] config hproxy
  refine ⟨hload, ?_⟩
  rw [List.nil_append] at hload
  rw [hload]
  decide +kernel

/-- A comment of 127 characters, and a proxy behind it. -/
def longComment : List Char := List.replicate 127 '#' ++ proxyTail

theorem longComment_eq : longComment = '#' :: (List.replicate 126 '#' ++ proxyTail) := by
  rw [longComment, List.replicate_succ, List.cons_append]

theorem newline_notMem_longComment : '\n' ∉ longComment := by
  unfold longComment
  rw [List.mem_append, not_or]
  exact ⟨newline_notMem_ruler 127, by decide⟩

/-- The pieces are the comment and the proxy line. -/
theorem pieceDirectives_longComment :
    pieceDirectives longComment = (directive (cutLine proxyTail)).toList := by
  have hlast : '\n' ∉ proxyTail := fun h => newline_notMem_longComment (List.mem_append_right _ h)
  have hpiece : fgets lineRoom longComment = (ruler 127, proxyTail) := fgets_ruler lineRoom proxyTail
  rw [pieceDirectives_cons (by rw [longComment_eq]; exact List.cons_ne_nil _ _), hpiece, directive_ruler,
    pieceDirectives_short hlast (by decide)]
  rfl

/-- The line is the comment. -/
theorem lineDirectives_longComment : lineDirectives (longComment.splitOn '\n') = [] := by
  have hnone : directive (longComment.takeWhile fun c => !(c == '\r')) = none := by
    rw [longComment_eq, List.takeWhile_cons_of_pos (by decide)]
    exact directive_comment _
  rw [List.splitOn_eq_singleton newline_notMem_longComment, lineDirectives, List.filterMap_cons, hnone]
  rfl

/-- The end of a long comment is taken for a proxy line. -/
theorem comment_read : ¬ ∀ text config, (∀ c ∈ text, c.toNat ≠ 0) →
    fpConfigLoad (some text) config = readWhole text := by
  intro h
  have htail : proxyTail.all (fun c => c.toNat != 0) = true := by decide
  have hnul : ∀ c ∈ longComment, c.toNat ≠ 0 := by
    intro c hc
    rcases List.mem_append.mp hc with hc | hc
    · rw [List.eq_of_mem_replicate hc]
      decide
    · exact bne_iff_ne.mp (List.all_eq_true.mp htail c hc)
  have hload := h longComment .zero hnul
  rw [fpConfigLoad_eq, pieceDirectives_longComment, readWhole, lineDirectives_longComment] at hload
  exact absurd (congrArg Prod.fst hload) (by decide +kernel)

end FreeProxy
