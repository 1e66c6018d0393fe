import FreeProxy.Lib.Ipv4

/-!
# The configuration and its parsers

`struct fp_config` of `include/free_proxy.h` and the parsers of `src/config.c`:
`fp_parse_proxy`, `append_bypass` and `fp_parse_bypass_list`. C strings are lists of characters
without NUL. A status code stands beside the configuration a function leaves behind, so that what a
failing parse has already written is visible.

* A `Bypass` is a network and its text, and carries that the text is the canonical one.
* A `Config` carries that its list has at most `fpMaxBypass` entries (the array bound).
* `strtol` is the C function in base ten: blanks, a sign, digits, the rest, and whether the value
  was out of range (`errno`).

Results: a parse keeps what it does not own (`fpParseProxy_bypass`, `fpParseBypassList_proxy`).

Out of scope: the language file (`fp_ui_language_load`), and the byte order of an address.
-/

namespace FreeProxy

open Lib

/-- `FP_LISTEN_PORT`. -/
def fpListenPort : Nat := 12345

/-- `FP_MAX_BYPASS`. -/
def fpMaxBypass : Nat := 32

/-- `INET_ADDRSTRLEN`. -/
def inetAddrstrlen : Nat := 16

/-- `struct fp_bypass`: `network` and `prefix` are the `Cidr`, `text` is its canonical form. -/
structure Bypass where
  cidr : Cidr
  text : List Char
  text_eq : text = cidr.text
  deriving DecidableEq

/-- The entry of a network, with its canonical text. -/
def Bypass.ofCidr (n : Cidr) : Bypass := ⟨n, n.text, rfl⟩

/-- `struct fp_config`. -/
structure Config where
  proxyAddr : Addr
  proxyPort : BitVec 16
  bypass : List Bypass
  bypass_le : bypass.length ≤ fpMaxBypass
  deriving DecidableEq

/-- A configuration with these bypass networks. -/
def Config.make (addr : Addr) (port : BitVec 16) (nets : List Cidr)
    (h : nets.length ≤ fpMaxBypass) : Config :=
  ⟨addr, port, nets.map Bypass.ofCidr, by simpa using h⟩

/-- `memset(config, 0, sizeof(*config))`. -/
def Config.zero : Config := ⟨0, 0, [], by decide⟩

/-! ## `strtol` -/

/-- `isspace` in the C locale. -/
def isSpace (c : Char) : Bool := c == ' ' || (9 ≤ c.toNat && c.toNat ≤ 13)

/-- What `strtol` makes of a text. -/
structure Strtol where
  value : Int
  /-- `*end`: what was not read. -/
  rest : List Char
  /-- `errno == ERANGE`. -/
  erange : Bool

/-- `LONG_MAX`. -/
def strtolMax : Int := 2 ^ 63 - 1

/-- `LONG_MIN`. -/
def strtolMin : Int := -2 ^ 63

/-- The sign of a number and what follows it. -/
def strtolSign : List Char → Bool × List Char
  | '-' :: s => (true, s)
  | '+' :: s => (false, s)
  | s => (false, s)

/-- `strtol(s, &end, 10)`; without digits nothing is read and the value is `0`. -/
def strtol (s : List Char) : Strtol :=
  let signed := strtolSign (s.dropWhile isSpace)
  let digits := signed.2.takeWhile Char.isDigit
  if digits = [] then ⟨0, s, false⟩
  else
    let magnitude : Int := Nat.ofDigitChars 10 digits 0
    let value := if signed.1 then -magnitude else magnitude
    let rest := signed.2.drop digits.length
    if value > strtolMax then ⟨strtolMax, rest, true⟩
    else if value < strtolMin then ⟨strtolMin, rest, true⟩
    else ⟨value, rest, false⟩

/-! ## `fp_parse_proxy` -/

/-- `fp_parse_proxy`: the status, and the configuration after it. A rejected text leaves it as it was. -/
def fpParseProxy (value : List Char) (config : Config) : Int × Config :=
  match cutLast ':' value with
  | none => (-1, config)
  | some (address, portText) =>
    if address = [] ∨ inetAddrstrlen ≤ address.length then (-1, config)
    else
      let port := strtol portText
      if port.erange = true ∨ port.rest ≠ [] ∨ port.value < 1 ∨ 65535 < port.value then (-1, config)
      else
        match inetPton address with
        | none => (-1, config)
        | some addr => (0, { config with proxyAddr := addr, proxyPort := BitVec.ofInt 16 port.value })

/-! ## `append_bypass` and `fp_parse_bypass_list` -/

/-- The characters that `append_bypass` trims. -/
def isBlank (c : Char) : Bool := c == ' ' || c == '\t'

/-- The two trimming loops of `append_bypass`. -/
def trimBlanks (s : List Char) : List Char :=
  ((s.dropWhile isBlank).reverse.dropWhile isBlank).reverse

/-- A number that `entryPrefix` accepts is a prefix length. -/
theorem toNat_le_full (slash : List Char) (h : (strtol slash).erange = false ∧ slash ≠ [] ∧
    (strtol slash).rest = [] ∧ 0 ≤ (strtol slash).value ∧ (strtol slash).value ≤ 32) :
    (strtol slash).value.toNat ≤ 32 := by
  omega

/-- The address part of an entry and its prefix length, `32` without a slash. -/
def entryPrefix (token : List Char) : Option (List Char × { len : Nat // len ≤ 32 }) :=
  match cutFirst '/' token with
  | (address, none) => some (address, ⟨32, Cidr.full_le⟩)
  | (address, some slash) =>
    let len := strtol slash
    if h : len.erange = false ∧ slash ≠ [] ∧ len.rest = [] ∧ 0 ≤ len.value ∧ len.value ≤ 32 then
      some (address, ⟨len.value.toNat, toNat_le_full slash h⟩)
    else none

/-- `append_bypass`. The room is asked for before the duplicate search. -/
def appendBypass (value : List Char) (config : Config) : Int × Config :=
  let token := trimBlanks value
  if token = [] ∨ inetAddrstrlen + 4 ≤ token.length then (-1, config)
  else if room : fpMaxBypass ≤ config.bypass.length then (-1, config)
  else
    match entryPrefix token with
    | none => (-1, config)
    | some (address, len) =>
      match inetPton address with
      | none => (-1, config)
      | some parsed =>
        let network := Cidr.of parsed len.1 len.2
        -- the duplicate search compares network and prefix, which is all a `Cidr` has
        if config.bypass.any (fun b => b.cidr == network) then (0, config)
        else
          (0, { config with
            bypass := config.bypass ++ [Bypass.ofCidr network]
            bypass_le := by
              rw [List.length_append, List.length_singleton]
              omega })

/-- `config->bypass_count = 0`. -/
def Config.clearBypass (config : Config) : Config := { config with bypass := [], bypass_le := by decide }

/-- The loop of `fp_parse_bypass_list`; `token` is what lies between `start` and `cursor`. -/
def parseEntries : List Char → List Char → Config → Int × Config
  | token, [], config =>
    match appendBypass token config with
    | (0, config) => (0, config)
    | (_, config) => (-1, config.clearBypass)
  | token, c :: rest, config =>
    if c = ',' then
      match appendBypass token config with
      | (0, config) => parseEntries [] rest config
      | (_, config) => (-1, config.clearBypass)
    else parseEntries (token ++ [c]) rest config

/-- `fp_parse_bypass_list`. A rejected list leaves an empty one. -/
def fpParseBypassList (value : List Char) (config : Config) : Int × Config :=
  if value = [] then (0, config.clearBypass) else parseEntries [] value config.clearBypass

/-! ## What a parse leaves alone -/

theorem fpParseProxy_bypass (value : List Char) (config : Config) :
    (fpParseProxy value config).2.bypass = config.bypass := by
  unfold fpParseProxy
  simp only
  repeat' split
  all_goals rfl

theorem appendBypass_proxy (value : List Char) (config : Config) :
    (appendBypass value config).2.proxyAddr = config.proxyAddr ∧
      (appendBypass value config).2.proxyPort = config.proxyPort := by
  unfold appendBypass
  simp only
  repeat' split
  all_goals exact ⟨rfl, rfl⟩

theorem parseEntries_proxy : ∀ (rest token : List Char) (config : Config),
    (parseEntries token rest config).2.proxyAddr = config.proxyAddr ∧
      (parseEntries token rest config).2.proxyPort = config.proxyPort
  | [], token, config => by
    have h := appendBypass_proxy token config
    unfold parseEntries
    split
    · rename_i heq; rw [heq] at h; exact h
    · rename_i heq; rw [heq] at h; exact h
  | c :: rest, token, config => by
    unfold parseEntries
    by_cases hc : c = ','
    · rw [if_pos hc]
      have h := appendBypass_proxy token config
      split
      · rename_i config' heq
        rw [heq] at h
        rw [← h.1, ← h.2]
        exact parseEntries_proxy rest [] config'
      · rename_i heq; rw [heq] at h; exact h
    · rw [if_neg hc]
      exact parseEntries_proxy rest (token ++ [c]) config

/-- The proxy of a configuration does not depend on what is done to its list. -/
theorem fpParseBypassList_proxy (value : List Char) (config : Config) :
    (fpParseBypassList value config).2.proxyAddr = config.proxyAddr ∧
      (fpParseBypassList value config).2.proxyPort = config.proxyPort := by
  unfold fpParseBypassList
  split
  · exact ⟨rfl, rfl⟩
  · exact parseEntries_proxy value [] config.clearBypass

end FreeProxy
