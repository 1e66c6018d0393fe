import FreeProxy.Config.Text
import FreeProxy.Lib.Distinct
import Mathlib.Data.Finset.Dedup

/-!
# What a bypass list means

`fp_parse_bypass_list` cuts its argument at the commas and appends one entry after the other. An entry
denotes a network on its own (`entryNet`), and the list is what `Lib.collect` collects of these networks:
the room is checked before an entry is looked for, so an entry that the list has needs room too.

* `appendBypass_cases` is everything `append_bypass` does; `appendAll_eq_zero` is the whole loop.
* `Written` says what an entry says, in terms of its text; `entryNet_written` that it is understood.

Headlines: **`parseBypassList_means`**, an accepted list means what was written; **`lists_agree_iff`**, when
the order and the repetitions of the entries do not matter.
-/

namespace FreeProxy

open Lib

/-- The networks of the list. -/
def Config.bypassNets (config : Config) : List Cidr := config.bypass.map Bypass.cidr

theorem Config.length_bypassNets (config : Config) : config.bypassNets.length = config.bypass.length :=
  List.length_map _

theorem bypass_ext {b c : Bypass} (h : b.cidr = c.cidr) : b = c := by
  obtain ⟨n, text, rfl⟩ := b
  obtain ⟨m, text, rfl⟩ := c
  obtain rfl : n = m := h
  rfl

theorem Config.ext_nets {c d : Config} (ha : c.proxyAddr = d.proxyAddr) (hp : c.proxyPort = d.proxyPort)
    (hn : c.bypassNets = d.bypassNets) : c = d :=
  Config.ext' ha hp ((List.map_injective_iff.mpr fun _ _ h => bypass_ext h) hn)

/-! ## One entry -/

/-- The network that `append_bypass` stores for an entry, if it accepts it. -/
def entryNet (value : List Char) : Option Cidr :=
  let token := trimBlanks value
  if token = [] ∨ inetAddrstrlen + 4 ≤ token.length then none
  else (entryPrefix token).bind fun entry =>
    (inetPton entry.1).map fun parsed => Cidr.of parsed entry.2.1 entry.2.2

/-- `append_bypass` has entered a network that the list did not have. -/
structure Entered (config : Config) (n : Cidr) (config' : Config) : Prop where
  addr : config'.proxyAddr = config.proxyAddr
  port : config'.proxyPort = config.proxyPort
  nets : config'.bypassNets = config.bypassNets ++ [n]

/-- **Everything `append_bypass` does.** The list is full, or the entry is invalid; or its network is in
the list; or it is entered. -/
theorem appendBypass_cases (value : List Char) (config : Config) :
    (fpMaxBypass ≤ config.bypassNets.length ∨ entryNet value = none) ∧ appendBypass value config = (-1, config) ∨
      config.bypassNets.length < fpMaxBypass ∧ ∃ n, entryNet value = some n ∧
        ((n ∈ config.bypassNets ∧ appendBypass value config = (0, config)) ∨
          (n ∉ config.bypassNets ∧ ∃ config', appendBypass value config = (0, config') ∧
            Entered config n config')) := by
  rw [config.length_bypassNets]
  unfold appendBypass entryNet
  simp only
  by_cases htoken : trimBlanks value = [] ∨ inetAddrstrlen + 4 ≤ (trimBlanks value).length
  · rw [if_pos htoken, if_pos htoken]
    exact .inl ⟨.inr rfl, rfl⟩
  rw [if_neg htoken, if_neg htoken]
  by_cases hroom : fpMaxBypass ≤ config.bypass.length
  · rw [dif_pos hroom]
    exact .inl ⟨.inl hroom, rfl⟩
  rw [dif_neg hroom]
  cases hentry : entryPrefix (trimBlanks value) with
  | none => exact .inl ⟨.inr rfl, rfl⟩
  | some entry =>
    obtain ⟨address, len⟩ := entry
    cases hparsed : inetPton address with
    | none =>
      refine .inl ⟨.inr ?_, ?_⟩
      · simp [hparsed]
      · simp only [hparsed]
    | some parsed =>
      refine .inr ⟨Nat.lt_of_not_le hroom, Cidr.of parsed len.1 len.2, by simp [hparsed], ?_⟩
      simp only [hparsed]
      by_cases hany : config.bypass.any (fun b => b.cidr == Cidr.of parsed len.1 len.2) = true
      · rw [if_pos hany]
        obtain ⟨b, hb, hcidr⟩ := List.any_eq_true.mp hany
        exact .inl ⟨List.mem_map.mpr ⟨b, hb, eq_of_beq hcidr⟩, rfl⟩
      · rw [if_neg hany]
        refine .inr ⟨?_, _, rfl, rfl, rfl, ?_⟩
        · intro hmem
          obtain ⟨b, hb, hcidr⟩ := List.mem_map.mp hmem
          exact hany (List.any_eq_true.mpr ⟨b, hb, beq_iff_eq.mpr hcidr⟩)
        · simp [Config.bypassNets, Bypass.ofCidr]

/-- The text of a network is an entry for it. -/
theorem entryNet_text (n : Cidr) : entryNet n.text = some n := by
  have hlength := length_text n
  have htoken : ¬ (n.text = [] ∨ inetAddrstrlen + 4 ≤ n.text.length) := by
    rintro (h | h)
    · exact text_ne_nil n h
    · omega
  unfold entryNet
  simp only [trimBlanks_plain (plain_text n), if_neg htoken, entryPrefix_text, Option.bind_some,
    inetPton_inetNtop, Option.map_some, Cidr.of_self]

/-- What an entry says: an address, and how many of its bits count. -/
inductive Written (entry : List Char) : Addr → Nat → Prop where
  | host {a : Addr} (h : trimBlanks entry = inetNtop a) : Written entry a 32
  | network {a : Addr} {len : Nat} {number : List Char}
      (h : trimBlanks entry = inetNtop a ++ '/' :: number) (hne : number ≠ [])
      (hlen : strtol number = ⟨len, [], false⟩) : Written entry a len

/-- An entry is understood in one way. -/
theorem written_unique {entry : List Char} {a b : Addr} {m n : Nat} (ha : Written entry a m)
    (hb : Written entry b n) : a = b ∧ m = n := by
  have hslash : ∀ a, '/' ∉ inetNtop a := fun a => notMem_inetNtop rfl (by decide)
  have hinj : ∀ {a b}, inetNtop a = inetNtop b → a = b := fun heq =>
    Option.some.inj ((inetPton_eq_some.mpr rfl).symm.trans (inetPton_eq_some.mpr heq))
  cases ha with
  | host ha =>
    cases hb with
    | host hb => exact ⟨hinj (ha.symm.trans hb), rfl⟩
    | network hb _ _ =>
      refine absurd ?_ (hslash a)
      rw [← ha, hb]
      simp
  | network ha _ hlen =>
    cases hb with
    | host hb =>
      refine absurd ?_ (hslash b)
      rw [← hb, ha]
      simp
    | network hb _ hlen' =>
      have hcut := congrArg (cutFirst '/') (ha.symm.trans hb)
      rw [cutFirst_append (hslash a), cutFirst_append (hslash b)] at hcut
      obtain ⟨haddr, hnumber⟩ := Prod.mk.inj hcut
      rw [Option.some.inj hnumber, hlen'] at hlen
      exact ⟨hinj haddr, Int.ofNat.inj (congrArg Strtol.value hlen).symm⟩

theorem entryPrefix_eq_some {token address : List Char} {len : { len : Nat // len ≤ 32 }}
    (h : entryPrefix token = some (address, len)) :
    (token = address ∧ len.1 = 32) ∨ ∃ number, token = address ++ '/' :: number ∧ number ≠ [] ∧
      strtol number = ⟨len.1, [], false⟩ := by
  unfold entryPrefix at h
  split at h
  · rename_i heq
    obtain ⟨-, htoken⟩ := cutFirst_eq_none heq
    obtain ⟨rfl, rfl⟩ := Prod.mk.inj (Option.some.inj h)
    exact .inl ⟨htoken.symm, rfl⟩
  · rename_i number heq
    obtain ⟨-, htoken⟩ := cutFirst_eq_some heq
    simp only at h
    by_cases hnumber : (strtol number).erange = false ∧ number ≠ [] ∧ (strtol number).rest = [] ∧
        0 ≤ (strtol number).value ∧ (strtol number).value ≤ 32
    · rw [dif_pos hnumber] at h
      obtain ⟨rfl, rfl⟩ := Prod.mk.inj (Option.some.inj h)
      obtain ⟨herange, hne, hrest, hlo, -⟩ := hnumber
      refine .inr ⟨number, htoken, hne, ?_⟩
      simp only [Int.toNat_of_nonneg hlo]
      rw [← hrest, ← herange]
    · rw [dif_neg hnumber] at h
      cases h

/-- **A valid entry is understood.** -/
theorem entryNet_written {entry : List Char} {n : Cidr} (h : entryNet entry = some n) :
    ∃ a, Written entry a n.len ∧ n = Cidr.of a n.len n.len_le := by
  unfold entryNet at h
  simp only at h
  split at h
  · cases h
  obtain ⟨⟨address, len⟩, hentry, h⟩ := Option.bind_eq_some_iff.mp h
  obtain ⟨a, ha, rfl⟩ := Option.map_eq_some_iff.mp h
  obtain rfl := inetPton_eq_some.mp ha
  refine ⟨a, ?_, rfl⟩
  show Written entry a len.1
  rcases entryPrefix_eq_some hentry with ⟨htoken, hlen⟩ | ⟨number, htoken, hne, hlen⟩
  · rw [hlen]
    exact .host htoken
  · exact .network htoken hne hlen

/-! ## The list -/

/-- The calls of `append_bypass` in `fp_parse_bypass_list`. -/
def appendAll : List (List Char) → Config → Int × Config
  | [], config => (0, config)
  | entry :: entries, config =>
    match appendBypass entry config with
    | (0, config) => appendAll entries config
    | (_, config) => (-1, config.clearBypass)

theorem appendAll_cons (entry : List Char) (entries : List (List Char)) (config : Config) :
    appendAll (entry :: entries) config =
      if (appendBypass entry config).1 = 0 then appendAll entries (appendBypass entry config).2
      else (-1, (appendBypass entry config).2.clearBypass) := by
  rw [appendAll]
  split
  · rename_i heq
    rw [heq, if_pos rfl]
  · rename_i hstatus heq
    rw [heq, if_neg hstatus]

theorem parseEntries_nil (token : List Char) (config : Config) :
    parseEntries token [] config = appendAll [token] config := by
  rw [appendAll_cons, parseEntries]
  split
  · rename_i heq
    rw [heq, if_pos rfl, appendAll]
  · rename_i hstatus heq
    rw [heq, if_neg hstatus]

theorem parseEntries_comma (token rest : List Char) (config : Config) :
    parseEntries token (',' :: rest) config =
      if (appendBypass token config).1 = 0 then parseEntries [] rest (appendBypass token config).2
      else (-1, (appendBypass token config).2.clearBypass) := by
  rw [parseEntries, if_pos rfl]
  split
  · rename_i heq
    rw [heq, if_pos rfl]
  · rename_i hstatus heq
    rw [heq, if_neg hstatus]

/-- The token that is being read is the start of the first entry. -/
theorem parseEntries_eq (rest : List Char) : ∀ (token : List Char) (config : Config),
    parseEntries token rest config = appendAll ((rest.splitOn ',').modifyHead (token ++ ·)) config := by
  induction rest with
  | nil =>
    intro token config
    rw [List.splitOn_nil, List.modifyHead_cons, List.append_nil, parseEntries_nil]
  | cons c rest ih =>
    intro token config
    obtain ⟨entry, entries, hsplit⟩ := List.exists_cons_of_ne_nil (List.splitOn_ne_nil ',' rest)
    rw [List.splitOn_cons_eq_if_modifyHead, hsplit]
    rw [hsplit] at ih
    by_cases hc : c = ','
    · subst hc
      rw [if_pos (beq_self_eq_true _), List.modifyHead_cons, List.append_nil, parseEntries_comma,
        appendAll_cons, ih, List.modifyHead_cons, List.nil_append]
    · rw [if_neg fun h => hc (beq_iff_eq.mp h), parseEntries, if_neg hc, ih]
      simp only [List.modifyHead_cons, List.append_assoc, List.singleton_append]

/-- **The entries are what lies between the commas.** -/
theorem fpParseBypassList_eq {value : List Char} (h : value ≠ []) (config : Config) :
    fpParseBypassList value config = appendAll (value.splitOn ',') config.clearBypass := by
  unfold fpParseBypassList
  rw [if_neg h, parseEntries_eq]
  obtain ⟨entry, entries, hsplit⟩ := List.exists_cons_of_ne_nil (List.splitOn_ne_nil ',' value)
  rw [hsplit, List.modifyHead_cons, List.nil_append]

/-- The networks of the entries, if all of them are valid. -/
def entryNets (entries : List (List Char)) : Option (List Cidr) := entries.mapM entryNet

/-- **The loop collects the networks of the entries.** -/
theorem appendAll_eq_zero (entries : List (List Char)) : ∀ {config config' : Config},
    appendAll entries config = (0, config') ↔
      config'.proxyAddr = config.proxyAddr ∧ config'.proxyPort = config.proxyPort ∧
        ∃ ns, entryNets entries = some ns ∧
          collect fpMaxBypass config.bypassNets ns = some config'.bypassNets := by
  induction entries with
  | nil =>
    intro config config'
    simp only [appendAll, Prod.mk.injEq, true_and, entryNets, List.mapM_nil, Option.pure_def,
      Option.some.injEq, exists_eq_left', collect]
    constructor
    · rintro rfl
      exact ⟨rfl, rfl, rfl⟩
    · rintro ⟨haddr, hport, hnets⟩
      exact (Config.ext_nets haddr hport hnets.symm).symm
  | cons entry entries ih =>
    intro config config'
    have hmap : entryNets (entry :: entries) = (entryNet entry).bind fun n => (entryNets entries).map (n :: ·) := by
      simp only [entryNets, List.mapM_cons]
      cases entryNet entry <;> cases List.mapM entryNet entries <;> rfl
    unfold appendAll
    rcases appendBypass_cases entry config with ⟨hbad, heq⟩ | ⟨hroom, n, hn, hcase⟩
    · rw [heq]
      constructor
      · intro h
        cases (Prod.mk.inj h).1
      · rintro ⟨-, -, ns, hns, hcollect⟩
        rw [hmap] at hns
        cases hentry : entryNet entry with
        | none =>
          rw [hentry] at hns
          cases hns
        | some n =>
          rw [hentry] at hns
          obtain ⟨tail, -, rfl⟩ := Option.map_eq_some_iff.mp hns
          have hfull := hbad.resolve_right (by rw [hentry]; simp)
          rw [collect, if_pos hfull] at hcollect
          cases hcollect
    · have hnets : ∀ {config₁ : Config}, config₁.proxyAddr = config.proxyAddr →
          config₁.proxyPort = config.proxyPort → config₁.bypassNets = insertNew config.bypassNets n →
          (appendAll entries config₁ = (0, config') ↔
            config'.proxyAddr = config.proxyAddr ∧ config'.proxyPort = config.proxyPort ∧
              ∃ ns, entryNets (entry :: entries) = some ns ∧
                collect fpMaxBypass config.bypassNets ns = some config'.bypassNets) := by
        intro config₁ haddr hport hnets
        rw [ih, haddr, hport, hnets, hmap, hn]
        simp only [Option.bind_some, Option.map_eq_some_iff, ↓existsAndEq, and_true, collect,
          if_neg (Nat.not_le_of_lt hroom)]
      rcases hcase with ⟨hmem, heq⟩ | ⟨hnew, config₁, heq, hentered⟩
      · rw [heq]
        exact hnets rfl rfl (if_pos hmem).symm
      · rw [heq]
        refine hnets hentered.addr hentered.port ?_
        rw [hentered.nets, insertNew, if_neg hnew]

/-! ## What a list means -/

/-- The entries of a list; an empty one has none. -/
def writtenEntries (value : List Char) : List (List Char) := if value = [] then [] else value.splitOn ','

/-- The network that an entry says. -/
def Denotes (entry : List Char) (n : Cidr) : Prop :=
  ∃ a, Written entry a n.len ∧ ∀ i < n.len, n.network.getMsbD i = a.getMsbD i

theorem fpParseBypassList_written (value : List Char) (config : Config) :
    fpParseBypassList value config = appendAll (writtenEntries value) config.clearBypass := by
  unfold writtenEntries
  by_cases h : value = []
  · rw [if_pos h, fpParseBypassList, if_pos h, appendAll]
  · rw [if_neg h, fpParseBypassList_eq h]

theorem entryNets_eq_some {entries : List (List Char)} : ∀ {ns : List Cidr},
    entryNets entries = some ns ↔ entries.map entryNet = ns.map some := by
  induction entries with
  | nil =>
    intro ns
    cases ns with
    | nil => exact ⟨fun _ => rfl, fun _ => rfl⟩
    | cons n ns =>
      constructor
      · intro h
        cases h
      · intro h
        cases h
  | cons entry entries ih =>
    intro ns
    simp only [entryNets, List.mapM_cons, Option.bind_eq_bind, Option.bind_eq_some_iff,
      Option.pure_def, Option.some.injEq] at ih ⊢
    constructor
    · rintro ⟨n, hn, tail, htail, rfl⟩
      rw [List.map_cons, List.map_cons, hn, ih.mp htail]
    · intro h
      cases ns with
      | nil => cases h
      | cons n ns =>
        obtain ⟨hn, htail⟩ := List.cons.inj h
        exact ⟨n, hn, ns, ih.mpr htail, rfl⟩

/-- What an accepted list holds. -/
theorem parse_accepted {value : List Char} {config : Config} (h : (fpParseBypassList value config).1 = 0) :
    ∃ ns, entryNets (writtenEntries value) = some ns ∧
      (fpParseBypassList value config).2.bypassNets = ns.eraseDups := by
  have hzero : appendAll (writtenEntries value) config.clearBypass =
      (0, (fpParseBypassList value config).2) := by
    rw [← fpParseBypassList_written, ← h]
  obtain ⟨-, -, ns, hns, hcollect⟩ := (appendAll_eq_zero _).mp hzero
  refine ⟨ns, hns, ?_⟩
  exact (collect_nil_eq_some.mp hcollect).1

/-- An entry matches what is written. -/
theorem matches_iff_written {entry : List Char} {n : Cidr} (hn : entryNet entry = some n) (x : Addr) :
    x &&& mask n.len = n.network ↔ ∃ a len, Written entry a len ∧ ∀ i < len, x.getMsbD i = a.getMsbD i := by
  obtain ⟨a, ha, hof⟩ := entryNet_written hn
  have hcontains := Cidr.contains_of (a := a) (b := x) (h := n.len_le)
  rw [← hof, Cidr.contains, beq_iff_eq] at hcontains
  rw [hcontains]
  constructor
  · intro hbits
    exact ⟨a, _, ha, hbits⟩
  · rintro ⟨b, m, hb, hbits⟩
    obtain ⟨rfl, rfl⟩ := written_unique hb ha
    exact hbits

/-- All entries together. -/
theorem matched_iff_written {entries : List (List Char)} {ns : List Cidr}
    (hns : entries.map entryNet = ns.map some) (x : Addr) :
    (∃ n ∈ ns, x &&& mask n.len = n.network) ↔
      ∃ entry ∈ entries, ∃ a len, Written entry a len ∧ ∀ i < len, x.getMsbD i = a.getMsbD i := by
  constructor
  · rintro ⟨n, hmem, hx⟩
    have hn : some n ∈ entries.map entryNet := by
      rw [hns]
      exact List.mem_map_of_mem hmem
    obtain ⟨entry, hentry, hn⟩ := List.mem_map.mp hn
    exact ⟨entry, hentry, (matches_iff_written hn x).mp hx⟩
  · rintro ⟨entry, hentry, hwritten⟩
    have hn : entryNet entry ∈ ns.map some := by
      rw [← hns]
      exact List.mem_map_of_mem hentry
    obtain ⟨n, hmem, hn⟩ := List.mem_map.mp hn
    exact ⟨n, hmem, (matches_iff_written hn.symm x).mpr hwritten⟩

/-- A network has no host bits. -/
theorem no_host_bits (n : Cidr) {i : Nat} (hi : n.len ≤ i) : n.network.getMsbD i = false := by
  have hbit := congrArg (fun x => BitVec.getMsbD x i) n.masked
  simp only [BitVec.getMsbD_and, getMsbD_mask _ _ n.len_le, decide_eq_false (Nat.not_lt.mpr hi),
    Bool.and_false] at hbit
  exact hbit.symm

theorem denotes_all {entries : List (List Char)} {ns : List Cidr}
    (hns : entries.map entryNet = ns.map some) : List.Forall₂ Denotes entries ns := by
  have hforall : List.Forall₂ (fun entry n => entryNet entry = some n) entries ns := by
    rw [← List.forall₂_map_left_iff (R := fun o n => o = some n), hns, List.forall₂_map_left_iff]
    exact List.forall₂_same.mpr fun _ _ => rfl
  refine hforall.imp ?_
  intro entry n hn
  obtain ⟨a, ha, hof⟩ := entryNet_written hn
  refine ⟨a, ha, fun i hi => ?_⟩
  rw [hof, Cidr.getMsbD_of, decide_eq_true hi, Bool.and_true]

/-- **An accepted list means what was written**, and the proxy is not touched. The list holds the networks
of the entries in the order of their first occurrence, each in its canonical form. -/
theorem parseBypassList_means (value : List Char) (config : Config) :
    (fpParseBypassList value config).2.proxyAddr = config.proxyAddr ∧
    (fpParseBypassList value config).2.proxyPort = config.proxyPort ∧
    ((fpParseBypassList value config).1 = 0 →
      let list := (fpParseBypassList value config).2.bypass
      (∀ x : Addr, (∃ b ∈ list, x &&& mask b.cidr.len = b.cidr.network) ↔
        ∃ entry ∈ writtenEntries value, ∃ a len, Written entry a len ∧
          ∀ i < len, x.getMsbD i = a.getMsbD i) ∧
      (∀ b ∈ list, ∀ i, b.cidr.len ≤ i → b.cidr.network.getMsbD i = false) ∧
      (list.map fun b => (b.cidr.network, b.cidr.len)).Nodup ∧
      (∃ ns, List.Forall₂ Denotes (writtenEntries value) ns ∧ list.map Bypass.cidr = ns.eraseDups) ∧
      list.length ≤ fpMaxBypass ∧
      ∀ b ∈ list, b.text = b.cidr.text ∧ b.text.length < inetAddrstrlen + 4 ∧
        ∀ other : Config, other.bypass.length < fpMaxBypass → (∀ e ∈ other.bypass, e.cidr ≠ b.cidr) →
          (appendBypass b.text other).1 = 0 ∧
            (appendBypass b.text other).2.bypass = other.bypass ++ [b]) := by
  obtain ⟨haddr, hport⟩ := fpParseBypassList_proxy value config
  refine ⟨haddr, hport, ?_⟩
  intro h list
  obtain ⟨ns, hns, hlist⟩ := parse_accepted h
  rw [entryNets_eq_some] at hns
  have hlist : list.map Bypass.cidr = ns.eraseDups := hlist
  have hmem : ∀ n, n ∈ ns ↔ ∃ b ∈ list, b.cidr = n := by
    intro n
    rw [← List.mem_eraseDups, ← hlist, List.mem_map]
  refine ⟨?_, fun b _ i => no_host_bits b.cidr, ?_, ⟨ns, denotes_all hns, hlist⟩,
    (fpParseBypassList value config).2.bypass_le, ?_⟩
  · intro x
    rw [← matched_iff_written hns x]
    constructor
    · rintro ⟨b, hb, hx⟩
      exact ⟨b.cidr, (hmem _).mpr ⟨b, hb, rfl⟩, hx⟩
    · rintro ⟨n, hn, hx⟩
      obtain ⟨b, hb, rfl⟩ := (hmem n).mp hn
      exact ⟨b, hb, hx⟩
  · have hnodup := nodup_eraseDups ns
    rw [← hlist] at hnodup
    have hinj : Function.Injective fun n : Cidr => (n.network, n.len) := fun m n heq =>
      Cidr.ext_iff'.mpr (Prod.mk.inj heq)
    simpa [Function.comp_def] using hnodup.map hinj
  · intro b _
    have hlength := length_text b.cidr
    refine ⟨b.text_eq, ?_, ?_⟩
    · rw [b.text_eq]
      omega
    · intro other hroom hnew
      obtain ⟨hle, happend⟩ := appendBypass_text hroom hnew
      rw [happend]
      exact ⟨rfl, rfl⟩

/-- Three entries, the last of which denotes the network of the first. -/
def repeatedList : List Char := "10.1.2.3/8,\t192.168.1.1, 10.0.0.0/8".toList

/-- They are accepted, and two networks are stored. -/
theorem parseBypassList_means_repeated : (fpParseBypassList repeatedList .zero).1 = 0 ∧
    (fpParseBypassList repeatedList .zero).2.bypass.map Bypass.text =
      ["10.0.0.0/8".toList, "192.168.1.1".toList] ∧
    ∃ entry ∈ writtenEntries repeatedList, ∃ a len, Written entry a len ∧
      ∀ i < len, (0x0a636363 : Addr).getMsbD i = a.getMsbD i := by
  have haccepted : (fpParseBypassList repeatedList .zero).1 = 0 := by decide +kernel
  obtain ⟨hmatched, -⟩ := (parseBypassList_means repeatedList .zero).2.2 haccepted
  refine ⟨haccepted, by decide +kernel, (hmatched 0x0a636363).mp ?_⟩
  decide +kernel

/-! ## Order and repetition -/

/-- The entries, with a comma between two of them. -/
def joined (entries : List (List Char)) : List Char := [','].intercalate entries

/-- Entries that `append_bypass` accepts one by one. -/
structure ValidEntries (entries : List (List Char)) : Prop where
  ne_nil : entries ≠ []
  comma : ∀ entry ∈ entries, ',' ∉ entry
  valid : ∀ entry ∈ entries, (appendBypass entry .zero).1 = 0

/-- The networks of the entries. -/
def denoted (entries : List (List Char)) : Finset Cidr := (entries.filterMap entryNet).toFinset

/-- The last entry is not a repetition. -/
def LastNew (entries : List (List Char)) : Prop :=
  ∀ last ∈ entries.getLast?, ∀ entry ∈ entries.dropLast, entryNet entry ≠ entryNet last

/-- The two lists are accepted or rejected together, with the same entries, and the number of their
networks decides. -/
def ListsAgree (entries others : List (List Char)) (config config' : Config) : Prop :=
  let parsed := fpParseBypassList (joined entries) config
  let parsed' := fpParseBypassList (joined others) config'
  (parsed.1 = 0 ↔ parsed'.1 = 0) ∧
    (parsed.1 = 0 → ∀ b, b ∈ parsed.2.bypass ↔ b ∈ parsed'.2.bypass) ∧
    (parsed.1 = 0 ↔ (denoted entries).card ≤ fpMaxBypass)

theorem entryNet_of_valid {entry : List Char} (h : (appendBypass entry .zero).1 = 0) :
    ∃ n, entryNet entry = some n := by
  rcases appendBypass_cases entry .zero with ⟨-, heq⟩ | ⟨-, n, hn, -⟩
  · rw [heq] at h
    cases h
  · exact ⟨n, hn⟩

section Agree

variable {entries : List (List Char)}

theorem entryNets_of_valid (h : ∀ entry ∈ entries, (appendBypass entry .zero).1 = 0) :
    entryNets entries = some (entries.filterMap entryNet) := by
  rw [entryNets_eq_some]
  induction entries with
  | nil => rfl
  | cons entry entries ih =>
    obtain ⟨n, hn⟩ := entryNet_of_valid (h entry List.mem_cons_self)
    rw [List.filterMap_cons_some hn, List.map_cons, List.map_cons, hn,
      ih fun e he => h e (List.mem_cons_of_mem _ he)]

/-- Valid entries are collected. -/
theorem parse_valid (h : ValidEntries entries) (config config' : Config) :
    fpParseBypassList (joined entries) config = (0, config') ↔
      config'.proxyAddr = config.proxyAddr ∧ config'.proxyPort = config.proxyPort ∧
        config'.bypassNets = (entries.filterMap entryNet).eraseDups ∧
        (entries.filterMap entryNet).dropLast.eraseDups.length < fpMaxBypass := by
  have hsplit : (joined entries).splitOn ',' = entries := List.splitOn_intercalate ',' h.comma h.ne_nil
  have hne : joined entries ≠ [] := by
    intro hnil
    rw [hnil, List.splitOn_nil] at hsplit
    -- the empty entry is not valid
    have hvalid := h.valid [] (by rw [← hsplit]; exact List.mem_singleton_self [])
    exact absurd hvalid (by decide)
  have hnil : entries.filterMap entryNet ≠ [] := by
    obtain ⟨entry, rest, rfl⟩ := List.exists_cons_of_ne_nil h.ne_nil
    obtain ⟨n, hn⟩ := entryNet_of_valid (h.valid entry List.mem_cons_self)
    rw [List.filterMap_cons_some hn]
    exact List.cons_ne_nil _ _
  have hcollect : collect fpMaxBypass [] (entries.filterMap entryNet) = some config'.bypassNets ↔
      config'.bypassNets = (entries.filterMap entryNet).eraseDups ∧
        (entries.filterMap entryNet).dropLast.eraseDups.length < fpMaxBypass := by
    rw [collect_nil_eq_some, or_iff_right hnil]
  rw [fpParseBypassList_eq hne, hsplit, appendAll_eq_zero, entryNets_of_valid h.valid]
  simp only [Option.some.injEq, exists_eq_left']
  exact and_congr Iff.rfl (and_congr Iff.rfl hcollect)

/-- When valid entries are accepted. -/
theorem parse_valid_status (h : ValidEntries entries) (config : Config) :
    (fpParseBypassList (joined entries) config).1 = 0 ↔
      (entries.filterMap entryNet).dropLast.eraseDups.length < fpMaxBypass := by
  constructor
  · intro hstatus
    exact ((parse_valid h config (fpParseBypassList (joined entries) config).2).mp
      (by rw [← hstatus])).2.2.2
  · intro hroom
    have hlength : (entries.filterMap entryNet).eraseDups.length ≤ fpMaxBypass := by
      rcases List.eq_nil_or_concat (entries.filterMap entryNet) with hnil | ⟨init, last, hconcat⟩
      · rw [hnil]
        exact Nat.zero_le _
      · rw [hconcat, List.concat_eq_append, List.dropLast_concat] at hroom
        rw [hconcat, List.concat_eq_append, length_eraseDups_concat]
        split <;> omega
    have hparse := (parse_valid h config (.make config.proxyAddr config.proxyPort _ hlength)).mpr
      ⟨rfl, rfl, by simp [Config.bypassNets, Config.make, Bypass.ofCidr, Function.comp_def], hroom⟩
    rw [hparse]

/-- All entries but the last one, and the last one if it is new. -/
theorem card_denoted (h : ValidEntries entries) :
    (LastNew entries ∧
      (denoted entries).card = (entries.filterMap entryNet).dropLast.eraseDups.length + 1) ∨
    (¬ LastNew entries ∧
      (denoted entries).card = (entries.filterMap entryNet).dropLast.eraseDups.length) := by
  have hcard : (denoted entries).card = (entries.filterMap entryNet).eraseDups.length := by
    rw [← List.toFinset_card_of_nodup (nodup_eraseDups _)]
    refine congrArg Finset.card (Finset.ext fun n => ?_)
    rw [denoted, List.mem_toFinset, List.mem_toFinset, List.mem_eraseDups]
  obtain ⟨init, last, rfl⟩ : ∃ init last, entries = init ++ [last] :=
    ⟨_, _, (List.dropLast_append_getLast h.ne_nil).symm⟩
  obtain ⟨n, hn⟩ := entryNet_of_valid (h.valid last (by simp))
  have hmap : (init ++ [last]).filterMap entryNet = init.filterMap entryNet ++ [n] := by
    rw [List.filterMap_append, List.filterMap_cons_some hn, List.filterMap_nil]
  have hnew : LastNew (init ++ [last]) ↔ n ∉ init.filterMap entryNet := by
    unfold LastNew
    rw [List.getLast?_concat, List.dropLast_concat, List.mem_filterMap]
    simp only [Option.mem_some_iff, forall_eq', hn, not_exists, not_and, ne_eq]
  rw [hcard, hmap, List.dropLast_concat, length_eraseDups_concat, hnew]
  by_cases hmem : n ∈ init.filterMap entryNet
  · rw [if_pos hmem]
    exact .inr ⟨not_not.mpr hmem, rfl⟩
  · rw [if_neg hmem]
    exact .inl ⟨hmem, rfl⟩

end Agree

/-- **When order and repetition do not matter.** Two lists of valid entries with the same networks are
treated alike, and as the number of their networks says, iff neither of them repeats an entry at its end
when the networks fill the list. -/
theorem lists_agree_iff (entries others : List (List Char)) (config config' : Config)
    (h : ValidEntries entries) (h' : ValidEntries others) (hsame : denoted entries = denoted others) :
    ListsAgree entries others config config' ↔
      ((denoted entries).card = fpMaxBypass → LastNew entries ∧ LastNew others) := by
  have hcard := card_denoted h
  have hcard' := card_denoted h'
  rw [← hsame] at hcard'
  unfold ListsAgree
  simp only [parse_valid_status h, parse_valid_status h']
  have hnets : ∀ {list : List (List Char)} {c : Config}, ValidEntries list →
      (fpParseBypassList (joined list) c).1 = 0 →
      ∀ b, b ∈ (fpParseBypassList (joined list) c).2.bypass ↔ b.cidr ∈ denoted list := by
    intro list c hlist hstatus b
    obtain ⟨-, -, hparsed, -⟩ := (parse_valid hlist c (fpParseBypassList (joined list) c).2).mp
      (by rw [← hstatus])
    rw [denoted, List.mem_toFinset, ← List.mem_eraseDups (a := b.cidr), ← hparsed, Config.bypassNets,
      List.mem_map]
    constructor
    · intro hb
      exact ⟨b, hb, rfl⟩
    · rintro ⟨c, hc, heq⟩
      rwa [← bypass_ext heq]
  constructor
  · rintro ⟨hboth, -, hcount⟩ hfull
    -- both lists are accepted, so neither is full before its last entry
    have haccepted := hcount.mpr (le_of_eq hfull)
    have haccepted' := hboth.mp haccepted
    constructor
    · rcases hcard with ⟨hnew, -⟩ | ⟨-, heq⟩
      · exact hnew
      · omega
    · rcases hcard' with ⟨hnew, -⟩ | ⟨-, heq⟩
      · exact hnew
      · omega
  · intro hfull
    have hroom : ∀ {n : Nat} {list : List (List Char)},
        ((LastNew list ∧ (denoted entries).card = n + 1) ∨
          (¬ LastNew list ∧ (denoted entries).card = n)) →
        ((denoted entries).card = fpMaxBypass → LastNew list) →
        (n < fpMaxBypass ↔ (denoted entries).card ≤ fpMaxBypass) := by
      intro n list hlist hnew
      rcases hlist with ⟨-, heq⟩ | ⟨hold, heq⟩
      · omega
      · have hne : (denoted entries).card ≠ fpMaxBypass := fun heq => hold (hnew heq)
        omega
    have hentries := hroom hcard fun heq => (hfull heq).1
    have hothers := hroom hcard' fun heq => (hfull heq).2
    refine ⟨hentries.trans hothers.symm, ?_, hentries⟩
    intro haccepted b
    rw [hnets h ((parse_valid_status h config).mpr haccepted), hsame,
      hnets h' ((parse_valid_status h' config').mpr (hothers.mpr (hentries.mp haccepted)))]

/-- 32 addresses. -/
def fullEntries : List (List Char) := (List.range 32).map fun i => inetNtop (BitVec.ofNat 32 i)

/-- Two addresses, one of them twice. -/
theorem lists_agree_twice :
    ListsAgree [['1', '.', '1', '.', '1', '.', '1'], ['2', '.', '2', '.', '2', '.', '2']]
      [['2', '.', '2', '.', '2', '.', '2'], ['1', '.', '1', '.', '1', '.', '1', '/', '3', '2'],
        ['2', '.', '2', '.', '2', '.', '2']] .zero .zero :=
  (lists_agree_iff _ _ .zero .zero ⟨by decide, by decide +kernel, by decide +kernel⟩
    ⟨by decide, by decide +kernel, by decide +kernel⟩ (by decide +kernel)).mpr
    (fun h => absurd h (by decide +kernel))

/-- A repetition of the last entry of a full list is rejected. -/
theorem lists_disagree : ¬ ∀ (entries others : List (List Char)) (config config' : Config),
    ValidEntries entries → ValidEntries others → denoted entries = denoted others →
    ListsAgree entries others config config' := by
  intro h
  have hagree := h fullEntries (fullEntries ++ [['0', '.', '0', '.', '0', '.', '3', '1']]) .zero .zero
    ⟨by decide, by decide +kernel, by decide +kernel⟩ ⟨by decide, by decide +kernel, by decide +kernel⟩
    (by decide +kernel)
  exact absurd hagree.1 (by decide +kernel)

end FreeProxy
