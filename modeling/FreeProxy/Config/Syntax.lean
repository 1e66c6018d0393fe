import FreeProxy.Config.Bypass

/-!
# What the address parsers accept

The documented syntax is `A:P` for the proxy and `A` or `A/N` for an entry, `A` a dotted quad, `P` and
`N` decimal digits. The parsers read the number with `strtol`, and ask whether all of it was read. That
accepts a number behind blanks and a sign too.

* `Lead` is what `strtol` skips; `strtol_accepts`, it reads such a lead and digits and nothing else.
* `fpParseProxy_accepts` and `entryNet_isSome` are what the parsers accept.

Headline: **`syntax_iff`**, a text is treated as documented iff its number has no lead.
-/

namespace FreeProxy

open Lib

/-! ## What `strtol` reads -/

/-- Blanks and a sign, and whether it is a minus. -/
inductive Lead : List Char → Bool → Prop where
  | blanks {blanks : List Char} (h : ∀ c ∈ blanks, isSpace c = true) : Lead blanks false
  | plus {blanks : List Char} (h : ∀ c ∈ blanks, isSpace c = true) : Lead (blanks ++ ['+']) false
  | minus {blanks : List Char} (h : ∀ c ∈ blanks, isSpace c = true) : Lead (blanks ++ ['-']) true

/-- The value of a number with or without a minus. -/
def signed (negative : Bool) (n : Nat) : Int := if negative then -n else n

theorem parseDecimal_eq_some {s : List Char} {n : Nat} :
    parseDecimal s = some n ↔
      s ≠ [] ∧ (∀ c ∈ s, c.isDigit = true) ∧ n = Nat.ofDigitChars 10 s 0 := by
  unfold parseDecimal
  simp only [List.all_eq_true]
  constructor
  · intro h
    by_cases hs : s ≠ [] ∧ ∀ c ∈ s, c.isDigit = true
    · rw [if_pos hs] at h
      exact ⟨hs.1, hs.2, (Option.some.inj h).symm⟩
    · rw [if_neg hs] at h
      cases h
  · rintro ⟨hne, hall, rfl⟩
    exact if_pos ⟨hne, hall⟩

/-- Behind a lead, the sign and the digits are read. -/
theorem strtolSign_lead {lead p : List Char} {negative : Bool} (h : Lead lead negative) (hne : p ≠ [])
    (hall : ∀ c ∈ p, c.isDigit = true) :
    strtolSign ((lead ++ p).dropWhile isSpace) = (negative, p) := by
  obtain ⟨c, rest, rfl⟩ := List.exists_cons_of_ne_nil hne
  have hc : c.isDigit = true := hall c List.mem_cons_self
  have hskip : ∀ {blanks tail : List Char} {d : Char}, (∀ c ∈ blanks, isSpace c = true) →
      isSpace d = false → (blanks ++ d :: tail).dropWhile isSpace = d :: tail := by
    intro blanks tail d hblanks hd
    rw [List.dropWhile_append_of_pos hblanks, List.dropWhile_cons_of_neg (by rw [hd]; exact Bool.false_ne_true)]
  cases h with
  | blanks hblanks =>
    rw [hskip hblanks (isDigit_not_isSpace hc)]
    unfold strtolSign
    split
    · rename_i heq
      obtain ⟨rfl, -⟩ := List.cons.inj heq
      exact absurd hc (by decide)
    · rename_i heq
      obtain ⟨rfl, -⟩ := List.cons.inj heq
      exact absurd hc (by decide)
    · rfl
  | plus hblanks =>
    rw [List.append_assoc, List.singleton_append, hskip hblanks rfl]
    rfl
  | minus hblanks =>
    rw [List.append_assoc, List.singleton_append, hskip hblanks rfl]
    rfl

/-- What is before the digits is a lead. -/
theorem exists_lead (s : List Char) :
    ∃ lead, Lead lead (strtolSign (s.dropWhile isSpace)).1 ∧
      s = lead ++ (strtolSign (s.dropWhile isSpace)).2 := by
  have hblanks : ∀ c ∈ s.takeWhile isSpace, isSpace c = true := fun c hc => List.mem_takeWhile_imp hc
  have hs : s.takeWhile isSpace ++ s.dropWhile isSpace = s := List.takeWhile_append_dropWhile
  unfold strtolSign
  split
  · rename_i tail heq
    refine ⟨_, .minus hblanks, ?_⟩
    rw [List.append_assoc, List.singleton_append, ← heq, hs]
  · rename_i tail heq
    refine ⟨_, .plus hblanks, ?_⟩
    rw [List.append_assoc, List.singleton_append, ← heq, hs]
  · exact ⟨_, .blanks hblanks, hs.symm⟩

/-- What `strtol` makes of the digits behind a sign. -/
theorem strtol_digits {s t : List Char} {negative : Bool}
    (hsign : strtolSign (s.dropWhile isSpace) = (negative, t)) (hne : t.takeWhile Char.isDigit ≠ []) :
    strtol s =
      let v := signed negative (Nat.ofDigitChars 10 (t.takeWhile Char.isDigit) 0)
      let rest := t.drop (t.takeWhile Char.isDigit).length
      if v > strtolMax then ⟨strtolMax, rest, true⟩
      else if v < strtolMin then ⟨strtolMin, rest, true⟩ else ⟨v, rest, false⟩ := by
  unfold strtol
  simp only [hsign, if_neg hne]
  rfl

/-- **What `strtol` reads to the end**: digits behind a lead, in range. -/
theorem strtol_accepts {s : List Char} {v : Int} : (strtol s = ⟨v, [], false⟩ ∧ s ≠ []) ↔
    ∃ lead negative p n, s = lead ++ p ∧ Lead lead negative ∧ parseDecimal p = some n ∧
      v = signed negative n ∧ strtolMin ≤ v ∧ v ≤ strtolMax := by
  constructor
  · rintro ⟨h, hne⟩
    obtain ⟨lead, hlead, hs⟩ := exists_lead s
    cases hsign : strtolSign (s.dropWhile isSpace) with
    | mk negative t =>
      rw [hsign] at hlead hs
      by_cases hdigits : t.takeWhile Char.isDigit = []
      · unfold strtol at h
        simp only [hsign, if_pos hdigits] at h
        exact absurd (congrArg Strtol.rest h) hne
      rw [strtol_digits hsign hdigits] at h
      simp only at h
      by_cases hmax : signed negative (Nat.ofDigitChars 10 (t.takeWhile Char.isDigit) 0) > strtolMax
      · rw [if_pos hmax] at h
        exact Bool.noConfusion (congrArg Strtol.erange h)
      by_cases hmin : signed negative (Nat.ofDigitChars 10 (t.takeWhile Char.isDigit) 0) < strtolMin
      · rw [if_neg hmax, if_pos hmin] at h
        exact Bool.noConfusion (congrArg Strtol.erange h)
      rw [if_neg hmax, if_neg hmin] at h
      obtain rfl := congrArg Strtol.value h
      -- nothing is left, so all of `t` is digits
      have hrest : t.drop (t.takeWhile Char.isDigit).length = [] := congrArg Strtol.rest h
      have hall : t.takeWhile Char.isDigit = t := by
        refine (List.takeWhile_prefix Char.isDigit).eq_of_length_le ?_
        exact List.drop_eq_nil_iff.mp hrest
      rw [hall] at hdigits hmax hmin ⊢
      exact ⟨lead, negative, t, _, hs, hlead, parseDecimal_eq_some.mpr
        ⟨hdigits, List.takeWhile_eq_self_iff.mp hall, rfl⟩, rfl, not_lt.mp hmin, not_lt.mp hmax⟩
  · rintro ⟨lead, negative, p, n, rfl, hlead, hp, rfl, hmin, hmax⟩
    obtain ⟨hne, hall, rfl⟩ := parseDecimal_eq_some.mp hp
    have htake : p.takeWhile Char.isDigit = p := List.takeWhile_eq_self_iff.mpr hall
    refine ⟨?_, by simp [hne]⟩
    rw [strtol_digits (strtolSign_lead hlead hne hall) (by rwa [htake]), htake, List.drop_length]
    simp only [if_neg (not_lt.mpr hmax), if_neg (not_lt.mpr hmin)]

/-- A number has digits, blanks and signs in it. -/
theorem notMem_number {lead p : List Char} {negative : Bool} {n : Nat} (hlead : Lead lead negative)
    (hp : parseDecimal p = some n) {c : Char} (hdigit : c.isDigit = false) (hspace : isSpace c = false)
    (hplus : c ≠ '+') (hminus : c ≠ '-') : c ∉ lead ++ p := by
  obtain ⟨-, hall, -⟩ := parseDecimal_eq_some.mp hp
  have hnot : ∀ {f : Char → Bool} {s : List Char}, f c = false → (∀ d ∈ s, f d = true) → c ∉ s := by
    intro f s hc hs hmem
    rw [hs c hmem] at hc
    cases hc
  rw [List.mem_append, not_or]
  refine ⟨?_, hnot hdigit hall⟩
  cases hlead with
  | blanks hblanks => exact hnot hspace hblanks
  | plus hblanks => simpa [hplus] using hnot hspace hblanks
  | minus hblanks => simpa [hminus] using hnot hspace hblanks

/-! ## What the parsers accept -/

/-- **What `fp_parse_proxy` accepts**, and what it does. -/
theorem fpParseProxy_accepts (value : List Char) (config : Config) :
    (∃ a lead p n, value = inetNtop a ++ ':' :: (lead ++ p) ∧ Lead lead false ∧ parseDecimal p = some n ∧
        1 ≤ n ∧ n ≤ 65535 ∧
        fpParseProxy value config =
          (0, { config with proxyAddr := a, proxyPort := BitVec.ofNat 16 n })) ∨
      fpParseProxy value config = (-1, config) := by
  cases hcut : cutLast ':' value with
  | none =>
    refine .inr ?_
    unfold fpParseProxy
    rw [hcut]
  | some parts =>
    obtain ⟨address, portText⟩ := parts
    obtain ⟨-, hvalue⟩ := cutLast_eq_some hcut
    unfold fpParseProxy
    rw [hcut]
    simp only
    by_cases haddress : address = [] ∨ inetAddrstrlen ≤ address.length
    · rw [if_pos haddress]
      exact .inr rfl
    rw [if_neg haddress]
    by_cases hport : (strtol portText).erange = true ∨ (strtol portText).rest ≠ [] ∨
        (strtol portText).value < 1 ∨ 65535 < (strtol portText).value
    · rw [if_pos hport]
      exact .inr rfl
    rw [if_neg hport]
    cases haddr : inetPton address with
    | none => exact .inr rfl
    | some a =>
      simp only [not_or, not_lt, not_not, Bool.not_eq_true] at hport
      obtain ⟨herange, hrest, hlo, hhi⟩ := hport
      have hne : portText ≠ [] := by
        rintro rfl
        exact absurd hlo (by decide)
      have hstrtol : strtol portText = ⟨(strtol portText).value, [], false⟩ := by
        rw [← hrest, ← herange]
      obtain ⟨lead, negative, p, n, rfl, hlead, hp, hv, -⟩ := strtol_accepts.mp ⟨hstrtol, hne⟩
      rw [hv] at hlo hhi ⊢
      cases negative with
      | true =>
        simp only [signed, if_true] at hlo
        omega
      | false =>
        simp only [signed, Bool.false_eq_true, if_false] at hlo hhi ⊢
        obtain rfl := inetPton_eq_some.mp haddr
        refine .inl ⟨a, lead, p, n, hvalue, hlead, hp, by omega, by omega, ?_⟩
        rfl

theorem fpParseProxy_lead {a : Addr} {lead p : List Char} {n : Nat} (hlead : Lead lead false)
    (hp : parseDecimal p = some n) (hlo : 1 ≤ n) (hhi : n ≤ 65535) (config : Config) :
    fpParseProxy (inetNtop a ++ ':' :: (lead ++ p)) config =
      (0, { config with proxyAddr := a, proxyPort := BitVec.ofNat 16 n }) := by
  have hcolon : ':' ∉ lead ++ p := notMem_number hlead hp rfl rfl (by decide) (by decide)
  have hv : signed false n = n := rfl
  obtain ⟨hstrtol, -⟩ := strtol_accepts.mpr ⟨lead, false, p, n, rfl, hlead, hp, rfl,
    by rw [hv]; unfold strtolMin; omega, by rw [hv]; unfold strtolMax; omega⟩
  have haddress : ¬ (inetNtop a = [] ∨ inetAddrstrlen ≤ (inetNtop a).length) := by
    have hlength := length_inetNtop a
    rintro (h | h)
    · simp [inetNtop] at h
    · omega
  have hvalue : ¬ (signed false n < 1 ∨ 65535 < signed false n) := by
    rw [hv]
    omega
  unfold fpParseProxy
  simp only [cutLast_append hcolon, if_neg haddress, hstrtol, Bool.false_eq_true, ne_eq, not_true_eq_false,
    false_or, inetPton_inetNtop]
  rw [if_neg hvalue]
  rfl

/-- A valid entry is entered, when there is room. -/
theorem appendBypass_status (value : List Char) (config : Config) :
    (appendBypass value config).1 = 0 ↔
      config.bypassNets.length < fpMaxBypass ∧ ∃ n, entryNet value = some n := by
  rcases appendBypass_cases value config with ⟨hbad, heq⟩ | ⟨hroom, n, hn, ⟨-, heq⟩ | ⟨-, config', heq, -⟩⟩
  · rw [heq]
    constructor
    · intro h
      cases h
    · rintro ⟨hroom, n, hn⟩
      rw [hn] at hbad
      rcases hbad with hfull | hnone
      · omega
      · cases hnone
  · rw [heq]
    exact ⟨fun _ => ⟨hroom, n, hn⟩, fun _ => rfl⟩
  · rw [heq]
    exact ⟨fun _ => ⟨hroom, n, hn⟩, fun _ => rfl⟩

theorem entryNet_lead {value : List Char} {a : Addr} {lead p : List Char} {negative : Bool} {n : Nat}
    (htoken : trimBlanks value = inetNtop a ++ '/' :: (lead ++ p))
    (hlength : (trimBlanks value).length < inetAddrstrlen + 4) (hlead : Lead lead negative)
    (hp : parseDecimal p = some n) (hn : n ≤ 32) (hzero : negative = true → n = 0) :
    ∃ m, entryNet value = some m := by
  have hv : signed negative n = n := by
    cases negative with
    | false => rfl
    | true => rw [hzero rfl]; rfl
  obtain ⟨hstrtol, hne⟩ := strtol_accepts.mpr ⟨lead, negative, p, n, rfl, hlead, hp, rfl,
    by rw [hv]; unfold strtolMin; omega, by rw [hv]; unfold strtolMax; omega⟩
  have hnil : ¬ (trimBlanks value = [] ∨ inetAddrstrlen + 4 ≤ (trimBlanks value).length) := by
    rintro (h | h)
    · rw [htoken] at h
      simp at h
    · omega
  have hslash : '/' ∉ inetNtop a := notMem_inetNtop rfl (by decide)
  have hentry : entryPrefix (trimBlanks value) = some (inetNtop a, ⟨n, hn⟩) := by
    unfold entryPrefix
    rw [htoken, cutFirst_append hslash]
    simp only [hstrtol]
    rw [dif_pos ⟨trivial, hne, trivial, by omega, by omega⟩]
    simp [hv]
  refine ⟨Cidr.of a n hn, ?_⟩
  unfold entryNet
  simp only [if_neg hnil, hentry, Option.bind_some, inetPton_inetNtop, Option.map_some]

/-! ## The documented syntax -/

/-- `A:P` -/
def DocumentedProxy (value : List Char) (a : Addr) (n : Nat) : Prop :=
  ∃ p, value = inetNtop a ++ ':' :: p ∧ parseDecimal p = some n ∧ 1 ≤ n ∧ n ≤ 65535

/-- `A` or `A/N` -/
def DocumentedEntry (token : List Char) : Prop :=
  ∃ a, token = inetNtop a ∨ ∃ p n, token = inetNtop a ++ '/' :: p ∧ parseDecimal p = some n ∧ n ≤ 32

/-- A proxy whose port has blanks or a plus before its digits. -/
def LooseProxy (value : List Char) : Prop :=
  ∃ a lead p n, value = inetNtop a ++ ':' :: (lead ++ p) ∧ Lead lead false ∧ lead ≠ [] ∧
    parseDecimal p = some n ∧ 1 ≤ n ∧ n ≤ 65535

/-- A network whose length has blanks or a sign before its digits; behind a minus it is `0`. -/
def LooseEntry (token : List Char) : Prop :=
  ∃ a lead negative p n, token = inetNtop a ++ '/' :: (lead ++ p) ∧ Lead lead negative ∧ lead ≠ [] ∧
    parseDecimal p = some n ∧ n ≤ 32 ∧ (negative = true → n = 0)

/-- `fp_parse_proxy` accepts `A:P` and stores it, and leaves the configuration unchanged otherwise. -/
def ProxyAsDocumented (value : List Char) (config : Config) : Prop :=
  let parsed := fpParseProxy value config
  (parsed.1 = 0 ↔ ∃ a n, DocumentedProxy value a n) ∧
    (∀ a n, DocumentedProxy value a n →
      parsed.2 = { config with proxyAddr := a, proxyPort := BitVec.ofNat 16 n }) ∧
    ((¬ ∃ a n, DocumentedProxy value a n) → parsed.2 = config)

/-- What `append_bypass` accepts is `A` or `A/N`. -/
def EntryAsDocumented (value : List Char) (config : Config) : Prop :=
  (appendBypass value config).1 = 0 → DocumentedEntry (trimBlanks value)

/-- A lead is not made of digits. -/
theorem lead_not_digits {lead p : List Char} {negative : Bool} (hlead : Lead lead negative) (hne : lead ≠ [])
    (h : ∀ c ∈ lead ++ p, c.isDigit = true) : False := by
  have hall : ∀ c ∈ lead, c.isDigit = true := fun c hc => h c (List.mem_append_left _ hc)
  cases hlead with
  | blanks hblanks =>
    obtain ⟨c, rest, rfl⟩ := List.exists_cons_of_ne_nil hne
    have hspace := isDigit_not_isSpace (hall c List.mem_cons_self)
    rw [hblanks c List.mem_cons_self] at hspace
    cases hspace
  | plus hblanks => exact absurd (hall '+' (by simp)) (by decide)
  | minus hblanks => exact absurd (hall '-' (by simp)) (by decide)

theorem not_documentedProxy {value : List Char} (h : LooseProxy value) {a : Addr} {n : Nat}
    (hdoc : DocumentedProxy value a n) : False := by
  obtain ⟨b, lead, p, m, hvalue, hlead, hne, hp, -⟩ := h
  obtain ⟨q, hvalue', hq, -⟩ := hdoc
  obtain ⟨-, hdigits, -⟩ := parseDecimal_eq_some.mp hq
  have hcolon : ':' ∉ q := fun hmem => absurd (hdigits _ hmem) (by decide)
  have hcolon' : ':' ∉ lead ++ p := notMem_number hlead hp rfl rfl (by decide) (by decide)
  have hcut := congrArg (cutLast ':') (hvalue.symm.trans hvalue')
  rw [cutLast_append hcolon, cutLast_append hcolon'] at hcut
  obtain ⟨-, hq'⟩ := Prod.mk.inj (Option.some.inj hcut)
  exact lead_not_digits hlead hne (hq' ▸ hdigits)

theorem not_documentedEntry {token : List Char} (h : LooseEntry token) (hdoc : DocumentedEntry token) :
    False := by
  obtain ⟨b, lead, negative, p, m, htoken, hlead, hne, hp, -⟩ := h
  have hslash : ∀ a, '/' ∉ inetNtop a := fun a => notMem_inetNtop rfl (by decide)
  obtain ⟨a, htoken' | ⟨q, n, htoken', hq, -⟩⟩ := hdoc
  · refine hslash a ?_
    rw [← htoken', htoken]
    simp
  · obtain ⟨-, hdigits, -⟩ := parseDecimal_eq_some.mp hq
    have hcut := congrArg (cutFirst '/') (htoken.symm.trans htoken')
    rw [cutFirst_append (hslash b), cutFirst_append (hslash a)] at hcut
    obtain ⟨-, hq'⟩ := Prod.mk.inj hcut
    exact lead_not_digits hlead hne (Option.some.inj hq' ▸ hdigits)

theorem proxyAsDocumented_iff (value : List Char) (config : Config) :
    ProxyAsDocumented value config ↔ ¬ LooseProxy value := by
  constructor
  · rintro ⟨hstatus, -⟩ hloose
    obtain ⟨a, lead, p, n, rfl, hlead, -, hp, hlo, hhi⟩ := id hloose
    rw [fpParseProxy_lead hlead hp hlo hhi] at hstatus
    obtain ⟨b, m, hdoc⟩ := hstatus.mp rfl
    exact not_documentedProxy hloose hdoc
  · intro hloose
    have hstored : ∀ a n, DocumentedProxy value a n → fpParseProxy value config =
        (0, { config with proxyAddr := a, proxyPort := BitVec.ofNat 16 n }) := by
      rintro a n ⟨p, rfl, hp, hlo, hhi⟩
      have hlead : Lead [] false := .blanks fun c hc => absurd hc List.not_mem_nil
      exact fpParseProxy_lead hlead hp hlo hhi config
    have hdoc : (∃ a n, DocumentedProxy value a n) ∨ fpParseProxy value config = (-1, config) := by
      rcases fpParseProxy_accepts value config with ⟨a, lead, p, n, hvalue, hlead, hp, hlo, hhi, -⟩ | heq
      · by_cases hne : lead = []
        · subst hne
          exact .inl ⟨a, n, p, hvalue, hp, hlo, hhi⟩
        · exact absurd ⟨a, lead, p, n, hvalue, hlead, hne, hp, hlo, hhi⟩ hloose
      · exact .inr heq
    refine ⟨⟨?_, ?_⟩, ?_, ?_⟩
    · intro hstatus
      refine hdoc.resolve_right fun heq => ?_
      rw [heq] at hstatus
      cases hstatus
    · rintro ⟨a, n, h⟩
      rw [hstored a n h]
    · intro a n h
      rw [hstored a n h]
    · intro h
      rw [hdoc.resolve_left h]

theorem entryAsDocumented_iff (value : List Char) (config : Config) :
    EntryAsDocumented value config ↔
      ¬ (LooseEntry (trimBlanks value) ∧ (trimBlanks value).length < inetAddrstrlen + 4 ∧
        config.bypass.length < fpMaxBypass) := by
  unfold EntryAsDocumented
  rw [appendBypass_status, config.length_bypassNets]
  constructor
  · rintro h ⟨hloose, hlength, hroom⟩
    obtain ⟨a, lead, negative, p, n, htoken, hlead, -, hp, hn, hzero⟩ := id hloose
    exact not_documentedEntry hloose
      (h ⟨hroom, entryNet_lead htoken hlength hlead hp hn hzero⟩)
  · rintro hloose ⟨hroom, n, hn⟩
    have hlength : (trimBlanks value).length < inetAddrstrlen + 4 := by
      refine Nat.lt_of_not_le fun hlong => ?_
      unfold entryNet at hn
      simp only at hn
      rw [if_pos (.inr hlong)] at hn
      cases hn
    obtain ⟨a, hwritten, -⟩ := entryNet_written hn
    have hle := n.len_le
    generalize n.len = len at hwritten hle
    cases hwritten with
    | host htoken => exact ⟨a, .inl htoken⟩
    | network htoken hne hlen =>
      obtain ⟨lead, negative, p, m, rfl, hlead, hp, hv, -⟩ := strtol_accepts.mp ⟨hlen, hne⟩
      have hm : m = len ∧ (negative = true → m = 0) := by
        cases negative with
        | false => exact ⟨(Int.ofNat.inj hv).symm, by simp⟩
        | true =>
          simp only [signed, if_true] at hv
          omega
      obtain ⟨rfl, hzero⟩ := hm
      by_cases hnil : lead = []
      · subst hnil
        exact ⟨a, .inr ⟨p, m, htoken, hp, hle⟩⟩
      · exact absurd ⟨⟨a, lead, negative, p, m, htoken, hlead, hnil, hp, hle, hzero⟩, hlength, hroom⟩ hloose

/-- **When a text is treated as documented**: a proxy unless its port has a lead, an entry unless its
length has one (and the entry fits the buffer, and there is room for it). -/
theorem syntax_iff (value : List Char) (config : Config) :
    (ProxyAsDocumented value config ↔ ¬ LooseProxy value) ∧
    (EntryAsDocumented value config ↔
      ¬ (LooseEntry (trimBlanks value) ∧ (trimBlanks value).length < inetAddrstrlen + 4 ∧
        config.bypass.length < fpMaxBypass)) :=
  ⟨proxyAsDocumented_iff value config, entryAsDocumented_iff value config⟩

/-- A port with a plus is accepted. -/
theorem syntax_loose : ¬ ((∀ value config, ProxyAsDocumented value config) ∧
    ∀ value config, EntryAsDocumented value config) := by
  rintro ⟨h, -⟩
  have hp : parseDecimal ['8', '0'] = some 80 := by decide
  have hnone : ∀ c ∈ ([] : List Char), isSpace c = true := fun c hc => absurd hc List.not_mem_nil
  have hlead : Lead ['+'] false := .plus hnone
  obtain ⟨hstatus, -⟩ := h (inetNtop 0 ++ ':' :: (['+'] ++ ['8', '0'])) .zero
  rw [fpParseProxy_lead hlead hp (by decide) (by decide)] at hstatus
  obtain ⟨a, n, hdoc⟩ := hstatus.mp rfl
  exact not_documentedProxy ⟨0, ['+'], ['8', '0'], 80, rfl, hlead, by simp, hp, by decide, by decide⟩ hdoc

end FreeProxy
