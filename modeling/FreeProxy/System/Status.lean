import FreeProxy.Config.Bypass

/-!
# The status, and its text as input

`fp_collect_status` of `src/operations.c` prints the configuration into buffers of fixed size, and the
bypass prompt of `src/tui.c` offers the printed list for editing. What the other calls find is a
`StatusEnv`; `snprintf` cuts what does not fit.

* `printBypass_all` and `status_loaded`: nothing is cut, for any configuration that can be loaded.
* `parse_entriesText`: entries that are different are read back in their order.

Headline: **`status_editable`**.

Out of scope: the keys of the prompt, which may change the text before it is read.
-/

namespace FreeProxy

open Lib

/-- `FP_BYPASS_TEXT_SIZE`. -/
def fpBypassTextSize : Nat := fpMaxBypass * 20

/-- `sizeof(status->proxy)`. -/
def statusProxySize : Nat := inetAddrstrlen + 7

/-- `struct fp_status`. -/
structure Status where
  configPresent : Bool
  configValid : Bool
  daemonRunning : Bool
  firewallEnabled : Bool
  autostartEnabled : Bool
  daemonPid : Int
  proxy : List Char
  bypass : List Char
  deriving DecidableEq

/-- `memset(status, 0, sizeof(*status))` -/
def Status.zero : Status := ⟨false, false, false, false, false, 0, [], []⟩

/-- What `fp_collect_status` finds. -/
structure StatusEnv where
  /-- `fp_config_exists` -/
  configExists : Bool
  /-- the file that `fp_config_load` reads -/
  file : Option (List Char)
  /-- `fp_read_pid` -/
  pid : Int
  /-- `kill(pid, 0) == 0` -/
  alive : Int → Bool
  /-- `fp_autostart_is_enabled` -/
  autostart : Bool
  /-- `fp_firewall_is_enabled` -/
  firewall : Config → Bool

/-! ## The code -/

/-- `snprintf` into a buffer: what is written, and the length that was needed. -/
def snprintf (size : Nat) (text : List Char) : List Char × Nat := (text.take (size - 1), text.length)

/-- `inet_ntop` into a buffer; `none` is `NULL`. -/
def inetNtopInto (size : Nat) (a : Addr) : Option (List Char) :=
  if (inetNtop a).length < size then some (inetNtop a) else none

/-- `none` -/
def noneText : List Char := ['n', 'o', 'n', 'e']

/-- The loop of `fp_collect_status` from `index` on; `text` is what has been printed. -/
def printBypass : Nat → List Bypass → List Char → List Char
  | _, [], text => text
  | index, entry :: entries, text =>
    let separator := if index = 0 then [] else [',']
    printBypass (index + 1) entries
      (text ++ (snprintf (fpBypassTextSize - text.length) (separator ++ entry.text)).1)

/-- `fp_collect_status`. -/
def fpCollectStatus (env : StatusEnv) : Status :=
  let status := { Status.zero with
    configPresent := env.configExists
    daemonPid := env.pid
    daemonRunning := decide (1 < env.pid) && env.alive env.pid
    autostartEnabled := env.autostart }
  -- the local `config` is cleared by the load
  let loaded := fpConfigLoad env.file .zero
  if status.configPresent = true ∧ loaded.1 = 0 then
    match inetNtopInto inetAddrstrlen loaded.2.proxyAddr with
    | none => status
    | some proxy =>
      let available := statusProxySize - proxy.length
      let printed := snprintf available (':' :: decimal loaded.2.proxyPort.toNat)
      { status with
        proxy := proxy ++ printed.1
        configValid := decide (0 < printed.2) && decide (printed.2 < available)
        firewallEnabled := env.firewall loaded.2
        bypass :=
          if loaded.2.bypass = [] then (snprintf fpBypassTextSize noneText).1
          else printBypass 0 loaded.2.bypass [] }
  else status

/-- What the bypass prompt of `fp_tui_run` starts with. -/
def bypassPrompt (status : Status) : List Char :=
  if status.configValid = true ∧ status.bypass ≠ noneText then (snprintf fpBypassTextSize status.bypass).1
  else []

/-! ## Nothing is cut -/

theorem snprintf_fits {size : Nat} {text : List Char} (h : text.length < size) :
    snprintf size text = (text, text.length) := by
  unfold snprintf
  rw [List.take_of_length_le (by omega)]

/-- The texts of the entries, with a comma between two of them. -/
def entriesText (entries : List Bypass) : List Char := joined (entries.map Bypass.text)

theorem length_entryText (entry : Bypass) : entry.text.length ≤ 18 := by
  have hlength := length_text entry.cidr
  rw [entry.text_eq]
  unfold inetAddrstrlen at hlength
  omega

/-- What is printed behind the entries so far. -/
def moreText (entries : List Bypass) : List Char := entries.flatMap fun entry => ',' :: entry.text

theorem length_moreText (entries : List Bypass) : (moreText entries).length ≤ 19 * entries.length := by
  induction entries with
  | nil => exact Nat.zero_le _
  | cons entry entries ih =>
    have hentry := length_entryText entry
    unfold moreText at ih ⊢
    rw [List.flatMap_cons, List.length_append, List.length_cons, List.length_cons]
    omega

theorem entriesText_cons (entry : Bypass) (entries : List Bypass) :
    entriesText (entry :: entries) = entry.text ++ moreText entries := by
  induction entries generalizing entry with
  | nil => simp [entriesText, joined, moreText]
  | cons next entries ih =>
    have hnext := ih next
    unfold entriesText joined moreText at hnext ⊢
    simp only [List.map_cons, List.intercalate_cons_cons, List.flatMap_cons] at hnext ⊢
    rw [hnext]
    simp

/-- The loop prints what still fits. -/
theorem printBypass_more (entries : List Bypass) : ∀ {index : Nat} {text : List Char}, index ≠ 0 →
    text.length + 19 * entries.length < fpBypassTextSize →
    printBypass index entries text = text ++ moreText entries := by
  induction entries with
  | nil =>
    intro index text _ _
    simp [printBypass, moreText]
  | cons entry entries ih =>
    intro index text hindex hroom
    have hentry := length_entryText entry
    rw [List.length_cons] at hroom
    have hfits : ([','] ++ entry.text).length < fpBypassTextSize - text.length := by
      rw [List.length_append, List.length_singleton]
      omega
    unfold printBypass
    simp only [if_neg hindex]
    rw [snprintf_fits hfits, ih (Nat.succ_ne_zero index) (by simp; omega)]
    simp [moreText]

/-- **The list is printed completely.** -/
theorem printBypass_all {entries : List Bypass} (hne : entries ≠ []) (hle : entries.length ≤ fpMaxBypass) :
    printBypass 0 entries [] = entriesText entries ∧ (entriesText entries).length < fpBypassTextSize := by
  obtain ⟨entry, entries, rfl⟩ := List.exists_cons_of_ne_nil hne
  have hentry := length_entryText entry
  have hmore := length_moreText entries
  rw [List.length_cons] at hle
  have hroom : entry.text.length + 19 * entries.length < fpBypassTextSize := by
    unfold fpBypassTextSize
    unfold fpMaxBypass at hle ⊢
    omega
  rw [entriesText_cons]
  refine ⟨?_, ?_⟩
  · unfold printBypass
    simp only [if_true, List.nil_append, List.length_nil, Nat.sub_zero]
    rw [snprintf_fits (by omega)]
    exact printBypass_more entries (by decide) hroom
  · rw [List.length_append]
    omega

/-! ## The text is read back -/

/-- **Entries are read back in their order**, when none of them is there twice. -/
theorem parse_entriesText {config : Config} (h : config.Distinct) (other : Config) :
    fpParseBypassList (entriesText config.bypass) other =
      (0, { other with bypass := config.bypass, bypass_le := config.bypass_le }) := by
  by_cases hnil : config.bypass = []
  · have htext : entriesText config.bypass = [] := by
      rw [hnil]
      rfl
    rw [htext, fpParseBypassList, if_pos rfl]
    exact Prod.ext rfl (Config.ext' rfl rfl hnil.symm)
  have hnodup : config.bypassNets.Nodup := h
  have hnets : entryNets (config.bypass.map Bypass.text) = some config.bypassNets := by
    rw [entryNets_eq_some, Config.bypassNets, List.map_map, List.map_map]
    refine List.map_congr_left fun b _ => ?_
    rw [Function.comp_apply, b.text_eq, entryNet_text, Function.comp_apply]
  have hcomma : ∀ text ∈ config.bypass.map Bypass.text, ',' ∉ text := by
    intro text htext
    obtain ⟨b, -, rfl⟩ := List.mem_map.mp htext
    rw [b.text_eq]
    exact (plain_text b.cidr).notMem rfl (by decide) (by decide)
  have hsplit : (entriesText config.bypass).splitOn ',' = config.bypass.map Bypass.text :=
    List.splitOn_intercalate ',' hcomma (by simpa using hnil)
  have hne : entriesText config.bypass ≠ [] := by
    obtain ⟨b, entries, hcons⟩ := List.exists_cons_of_ne_nil hnil
    rw [hcons, entriesText_cons, b.text_eq]
    exact fun heq => text_ne_nil _ (List.append_eq_nil_iff.mp heq).1
  have hroom : config.bypassNets.dropLast.eraseDups.length < fpMaxBypass := by
    have hpos := List.length_pos_of_ne_nil hnil
    have hle := config.bypass_le
    rw [eraseDups_of_nodup (hnodup.sublist (List.dropLast_sublist _)), List.length_dropLast,
      config.length_bypassNets]
    omega
  rw [fpParseBypassList_eq hne, hsplit]
  refine (appendAll_eq_zero _).mpr ⟨rfl, rfl, config.bypassNets, hnets, ?_⟩
  exact collect_nil_eq_some.mpr ⟨(eraseDups_of_nodup hnodup).symm, .inr hroom⟩

/-- A list starts with a digit. -/
theorem entriesText_ne_none {entries : List Bypass} (h : entries ≠ []) : entriesText entries ≠ noneText := by
  obtain ⟨b, entries, rfl⟩ := List.exists_cons_of_ne_nil h
  obtain ⟨c, text, htext⟩ := List.exists_cons_of_ne_nil (text_ne_nil b.cidr)
  have hc := plain_text b.cidr c (by rw [htext]; exact List.mem_cons_self)
  rw [entriesText_cons, b.text_eq, htext]
  intro heq
  rw [List.cons_append] at heq
  obtain ⟨rfl, -⟩ := List.cons.inj heq
  exact absurd hc (by decide)

/-- The status of a configuration that can be loaded. -/
theorem status_loaded {env : StatusEnv} {config : Config} (hexists : env.configExists = true)
    (hload : fpConfigLoad env.file .zero = (0, config)) :
    (fpCollectStatus env).proxy = proxyText config ∧ (fpCollectStatus env).configValid = true ∧
      (fpCollectStatus env).bypass =
        if config.bypass = [] then noneText else entriesText config.bypass := by
  have haddr := length_inetNtop config.proxyAddr
  have htext := length_proxyText config
  have hinto : inetNtopInto inetAddrstrlen config.proxyAddr = some (inetNtop config.proxyAddr) := if_pos haddr
  have hfits : (':' :: decimal config.proxyPort.toNat).length <
      statusProxySize - (inetNtop config.proxyAddr).length := by
    unfold proxyText at htext
    rw [List.length_append] at htext
    unfold statusProxySize inetAddrstrlen
    omega
  have hpos : 0 < (':' :: decimal config.proxyPort.toNat).length := Nat.succ_pos _
  unfold fpCollectStatus
  simp only [hexists, hload, and_self, if_true, hinto, snprintf_fits hfits, decide_eq_true hpos,
    decide_eq_true hfits, Bool.and_self]
  refine ⟨rfl, trivial, ?_⟩
  by_cases hnil : config.bypass = []
  · rw [if_pos hnil, if_pos hnil]
    rfl
  · rw [if_neg hnil, if_neg hnil]
    exact (printBypass_all hnil config.bypass_le).1

/-- **The status can be edited.** For a configuration that can be loaded, the list is printed completely,
the prompt takes it as it is, and the parsers give back the same entries in the same order and the same
proxy. -/
theorem status_editable (env : StatusEnv) (config other : Config) (hexists : env.configExists = true)
    (hload : fpConfigLoad env.file .zero = (0, config)) :
    let status := fpCollectStatus env
    status.bypass = (if config.bypass = [] then noneText else entriesText config.bypass) ∧
      (bypassPrompt status).length < fpBypassTextSize ∧
      fpParseBypassList (bypassPrompt status) other =
        (0, { other with bypass := config.bypass, bypass_le := config.bypass_le }) ∧
      fpParseProxy status.proxy other =
        (0, { other with proxyAddr := config.proxyAddr, proxyPort := config.proxyPort }) := by
  obtain ⟨hproxy, hvalid, hbypass⟩ := status_loaded hexists hload
  obtain ⟨hport, hproduced⟩ := load_good hload
  intro status
  have hprompt : bypassPrompt status = entriesText config.bypass ∧
      (entriesText config.bypass).length < fpBypassTextSize := by
    unfold bypassPrompt
    by_cases hnil : config.bypass = []
    · rw [if_pos hnil] at hbypass
      rw [if_neg fun h => h.2 hbypass, hnil]
      exact ⟨rfl, by decide⟩
    · rw [if_neg hnil] at hbypass
      obtain ⟨-, hfits⟩ := printBypass_all hnil config.bypass_le
      rw [if_pos ⟨hvalid, by rw [hbypass]; exact entriesText_ne_none hnil⟩, hbypass, snprintf_fits hfits]
      exact ⟨rfl, hfits⟩
  refine ⟨hbypass, ?_, ?_, ?_⟩
  · rw [hprompt.1]
    exact hprompt.2
  · rw [hprompt.1]
    exact parse_entriesText (produced_distinct hproduced) other
  · rw [hproxy]
    exact fpParseProxy_text hport other

/-- A proxy, a host and a network that was written with host bits. -/
def listedConfig : Config :=
  .make 1 80 [.host 2, .of 0x0a000001 8 Cidr.octet_le] (by decide)

/-- Both entries are read back. -/
theorem status_editable_listed :
    fpParseBypassList (bypassPrompt (fpCollectStatus
      ⟨true, some (configText listedConfig), 0, fun _ => false, false, fun _ => false⟩)) .zero =
      (0, { Config.zero with bypass := listedConfig.bypass, bypass_le := listedConfig.bypass_le }) := by
  have hload : fpConfigLoad (some (configText listedConfig)) .zero = (0, listedConfig) :=
    load_configText (by decide) (by unfold Config.Distinct; decide) .zero
  exact (status_editable ⟨true, some (configText listedConfig), 0, fun _ => false, false, fun _ => false⟩
    listedConfig .zero rfl hload).2.2.1

end FreeProxy
