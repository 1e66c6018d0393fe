import Mathlib.Data.List.Basic
import Mathlib.Data.List.Induction
import Mathlib.Data.BitVec
import Mathlib.Tactic.IntervalCases

/-!
# IPv4 addresses, networks and their text

An address is its 32 bits in host order. `mask len` keeps the first `len` of them, and a network
(`Cidr`) is an address without host bits and a length: the structure carries both facts.

`inetNtop` writes a dotted quad and `inetPton` reads one, strictly: four decimal octets up to 255,
without leading zeros. `Cidr.text` writes a network with its length, and without it when it is a
single host; `Cidr.parse` reads both forms, masking the host bits of the address.

Headlines: **`inetPton_eq_some`** and **`Cidr.parse_text`**, what is written is read back, and only that
is an address; **`Cidr.contains_of`**, the addresses of a network agree on its first bits;
`Cidr.mem_host`, the network of an address holds that address only.
-/

namespace FreeProxy.Lib

/-! ## Splitting text -/

/-- The text before the first `c`, and the text after it if there is a `c` (`strchr`). -/
def cutFirst (c : Char) : List Char → List Char × Option (List Char)
  | [] => ([], none)
  | x :: xs => if x = c then ([], some xs) else ((x :: (cutFirst c xs).1), (cutFirst c xs).2)

/-- The text before the last `c`, if there is one, and the text after it (`strrchr`). -/
def cutLast (c : Char) (s : List Char) : Option (List Char × List Char) :=
  match cutFirst c s.reverse with
  | (_, none) => none
  | (after, some before) => some (before.reverse, after.reverse)

theorem cutFirst_none {c : Char} {s : List Char} (h : c ∉ s) : cutFirst c s = (s, none) := by
  induction s with
  | nil => rfl
  | cons x xs ih =>
    rw [List.mem_cons, not_or] at h
    simp only [cutFirst, if_neg (Ne.symm h.1), ih h.2]

theorem cutFirst_append {c : Char} {s : List Char} (h : c ∉ s) (t : List Char) :
    cutFirst c (s ++ c :: t) = (s, some t) := by
  induction s with
  | nil => simp [cutFirst]
  | cons x xs ih =>
    rw [List.mem_cons, not_or] at h
    simp only [List.cons_append, cutFirst, if_neg (Ne.symm h.1), ih h.2]

theorem cutLast_append {c : Char} {s t : List Char} (h : c ∉ t) :
    cutLast c (s ++ c :: t) = some (s, t) := by
  have hrev : (s ++ c :: t).reverse = t.reverse ++ c :: s.reverse := by simp
  unfold cutLast
  rw [hrev, cutFirst_append (by simpa using h)]
  simp

/-! ## Decimal numbers -/

/-- `n` in decimal, without leading zeros (`%u`). -/
def decimal (n : Nat) : List Char := Nat.toDigits 10 n

/-- The value of a non-empty string of decimal digits. -/
def parseDecimal (s : List Char) : Option Nat :=
  if s ≠ [] ∧ s.all Char.isDigit then some (Nat.ofDigitChars 10 s 0) else none

theorem isDigit_of_mem_decimal {n : Nat} {c : Char} (h : c ∈ decimal n) : c.isDigit = true :=
  Nat.isDigit_of_mem_toDigits (by decide) (le_refl _) h

theorem notMem_decimal {n : Nat} {c : Char} (h : c.isDigit = false) : c ∉ decimal n :=
  fun hc => by rw [isDigit_of_mem_decimal hc] at h; exact Bool.noConfusion h

theorem parseDecimal_decimal (n : Nat) : parseDecimal (decimal n) = some n := by
  have hall : (decimal n).all Char.isDigit = true :=
    List.all_eq_true.mpr fun c hc => isDigit_of_mem_decimal hc
  unfold parseDecimal
  rw [if_pos ⟨Nat.toDigits_ne_nil, hall⟩]
  exact congrArg some Nat.ofDigitChars_ten_toDigits

/-! ## Addresses -/

/-- An IPv4 address, in host order. -/
abbrev Addr := BitVec 32

/-- The `i`-th octet of an address, `3` the most significant. -/
def octetOf (a : Addr) (i : Nat) : Nat := a.toNat / 256 ^ i % 256

/-- The address `x.y.z.w`. -/
def ofOctets (x y z w : Nat) : Addr := BitVec.ofNat 32 (x * 256 ^ 3 + y * 256 ^ 2 + z * 256 + w)

/-- `inet_ntop(AF_INET, ..)`. -/
def inetNtop (a : Addr) : List Char :=
  decimal (octetOf a 3) ++ '.' :: (decimal (octetOf a 2) ++ '.' ::
    (decimal (octetOf a 1) ++ '.' :: decimal (octetOf a 0)))

/-- One octet of `inet_pton`: at most 255, no leading zero. -/
def parseOctet (s : List Char) : Option Nat :=
  (parseDecimal s).bind fun n => if n ≤ 255 ∧ (s.head? ≠ some '0' ∨ s = ['0']) then some n else none

/-- `inet_pton(AF_INET, ..)`: exactly four octets. -/
def inetPton (s : List Char) : Option Addr :=
  match cutFirst '.' s with
  | (_, none) => none
  | (x, some s) => match cutFirst '.' s with
    | (_, none) => none
    | (y, some s) => match cutFirst '.' s with
      | (_, none) => none
      | (z, some w) => (parseOctet x).bind fun x => (parseOctet y).bind fun y =>
          (parseOctet z).bind fun z => (parseOctet w).map fun w => ofOctets x y z w

theorem octetOf_lt (a : Addr) (i : Nat) : octetOf a i < 256 := Nat.mod_lt _ (by decide)

theorem ofOctets_octetOf (a : Addr) :
    ofOctets (octetOf a 3) (octetOf a 2) (octetOf a 1) (octetOf a 0) = a := by
  apply BitVec.eq_of_toNat_eq
  have ha := a.isLt
  simp only [ofOctets, octetOf, BitVec.toNat_ofNat]
  omega

/-- A leading zero stands alone. -/
theorem decimal_head (n : Nat) : (decimal n).head? ≠ some '0' ∨ decimal n = ['0'] := by
  induction n using Nat.strong_induction_on with
  | _ n ih =>
    unfold decimal
    by_cases hn : n < 10
    · rw [Nat.toDigits_of_lt_base hn]
      by_cases h0 : n = 0
      · right; rw [h0]; rfl
      · left; simpa using h0
    · left
      rw [Nat.toDigits_of_base_le (by decide) (by omega)]
      have hd : Nat.toDigits 10 (n / 10) ≠ [] := Nat.toDigits_ne_nil
      rw [List.head?_append_of_ne_nil _ hd]
      rcases ih (n / 10) (by omega) with h | h
      · exact h
      · -- the quotient is positive, so its digits are not `0` alone
        have h0 : n / 10 = 0 := by
          have := parseDecimal_decimal (n / 10)
          rw [h] at this
          exact (Option.some.inj this).symm
        omega

theorem parseOctet_decimal {n : Nat} (h : n < 256) : parseOctet (decimal n) = some n := by
  unfold parseOctet
  rw [parseDecimal_decimal, Option.bind_some, if_pos ⟨by omega, decimal_head n⟩]

/-- **`inet_pton` reads what `inet_ntop` writes.** -/
theorem inetPton_inetNtop (a : Addr) : inetPton (inetNtop a) = some a := by
  have hdot : ∀ i, '.' ∉ decimal (octetOf a i) := fun i => notMem_decimal rfl
  unfold inetPton inetNtop
  simp only [cutFirst_append (hdot _), parseOctet_decimal (octetOf_lt a _), Option.bind_some,
    Option.map_some, ofOctets_octetOf]

theorem notMem_inetNtop {a : Addr} {c : Char} (hd : c.isDigit = false) (hc : c ≠ '.') :
    c ∉ inetNtop a := by
  simp only [inetNtop, List.mem_append, List.mem_cons, not_or]
  exact ⟨notMem_decimal hd, hc, notMem_decimal hd, hc, notMem_decimal hd, hc, notMem_decimal hd⟩

/-! ## What is read -/

/-- A character is a digit when it is the digit of its value. -/
theorem digitChar_of_isDigit {c : Char} (h : c.isDigit = true) :
    (c.toNat - '0'.toNat).digitChar = c ∧ c.toNat - '0'.toNat < 10 := by
  obtain ⟨hlo, hhi⟩ := Char.isDigit_iff_toNat.mp h
  have hzero : '0'.toNat = 48 := rfl
  have hnine : '9'.toNat = 57 := rfl
  refine ⟨?_, by omega⟩
  obtain ⟨n, hn, hlt⟩ : ∃ n, c.toNat = 48 + n ∧ n < 10 := ⟨c.toNat - 48, by omega, by omega⟩
  apply Char.toNat_inj.mp
  rw [hn, hzero, Nat.add_sub_cancel_left]
  interval_cases n <;> rfl

/-- Digits without a leading zero are the digits of their value. -/
theorem decimal_ofDigitChars {s : List Char} (hne : s ≠ []) (hall : ∀ c ∈ s, c.isDigit = true)
    (hzero : s.head? ≠ some '0' ∨ s = ['0']) : decimal (Nat.ofDigitChars 10 s 0) = s := by
  induction s using List.reverseRecOn with
  | nil => exact absurd rfl hne
  | append_singleton s c ih =>
    obtain ⟨hc, hlt⟩ := digitChar_of_isDigit (hall c (by simp))
    rw [Nat.ofDigitChars_append, Nat.ofDigitChars_cons, Nat.ofDigitChars_nil]
    by_cases hs : s = []
    · subst hs
      rw [Nat.ofDigitChars_nil, Nat.mul_zero, Nat.zero_add, decimal, Nat.toDigits_of_lt_base hlt, hc]
      rfl
    · have hhead : s.head? ≠ some '0' := by
        rcases hzero with h | h
        · rwa [List.head?_append_of_ne_nil _ hs] at h
        · obtain ⟨d, t, rfl⟩ := List.exists_cons_of_ne_nil hs
          simp at h
      have hdecimal := ih hs (fun d hd => hall d (List.mem_append_left _ hd)) (.inl hhead)
      have hpos : Nat.ofDigitChars 10 s 0 ≠ 0 := by
        intro h0
        rw [h0] at hdecimal
        rw [← hdecimal] at hhead
        exact hhead rfl
      have hdiv : (10 * Nat.ofDigitChars 10 s 0 + (c.toNat - '0'.toNat)) / 10 = Nat.ofDigitChars 10 s 0 := by
        omega
      have hmod : (10 * Nat.ofDigitChars 10 s 0 + (c.toNat - '0'.toNat)) % 10 = c.toNat - '0'.toNat := by
        omega
      rw [decimal, Nat.toDigits_of_base_le (by decide) (by omega), hdiv, hmod, hc]
      exact congrArg (· ++ [c]) hdecimal

theorem parseOctet_eq_some {s : List Char} {n : Nat} :
    parseOctet s = some n ↔ n < 256 ∧ s = decimal n := by
  constructor
  · intro h
    unfold parseOctet parseDecimal at h
    by_cases hdigits : s ≠ [] ∧ s.all Char.isDigit = true
    · rw [if_pos hdigits, Option.bind_some] at h
      by_cases hoctet : Nat.ofDigitChars 10 s 0 ≤ 255 ∧ (s.head? ≠ some '0' ∨ s = ['0'])
      · rw [if_pos hoctet] at h
        obtain rfl := Option.some.inj h
        exact ⟨Nat.lt_succ_of_le hoctet.1,
          (decimal_ofDigitChars hdigits.1 (List.all_eq_true.mp hdigits.2) hoctet.2).symm⟩
      · rw [if_neg hoctet] at h
        cases h
    · rw [if_neg hdigits] at h
      cases h
  · rintro ⟨hlt, rfl⟩
    exact parseOctet_decimal hlt

theorem cutFirst_eq_some {c : Char} : ∀ {s x t : List Char},
    cutFirst c s = (x, some t) → c ∉ x ∧ s = x ++ c :: t
  | [], x, t, h => by
    cases (Prod.mk.inj h).2
  | d :: s, x, t, h => by
    unfold cutFirst at h
    by_cases hd : d = c
    · rw [if_pos hd] at h
      obtain ⟨rfl, ht⟩ := Prod.mk.inj h
      rw [hd, ← Option.some.inj ht]
      exact ⟨List.not_mem_nil, rfl⟩
    · rw [if_neg hd] at h
      obtain ⟨rfl, ht⟩ := Prod.mk.inj h
      obtain ⟨hnot, hs⟩ := cutFirst_eq_some (Prod.ext rfl ht)
      rw [List.mem_cons, not_or]
      exact ⟨⟨Ne.symm hd, hnot⟩, congrArg (d :: ·) hs⟩

theorem cutFirst_eq_none {c : Char} : ∀ {s x : List Char}, cutFirst c s = (x, none) → c ∉ s ∧ x = s
  | [], x, h => ⟨List.not_mem_nil, (Prod.mk.inj h).1.symm⟩
  | d :: s, x, h => by
    unfold cutFirst at h
    by_cases hd : d = c
    · rw [if_pos hd] at h
      cases (Prod.mk.inj h).2
    · rw [if_neg hd] at h
      obtain ⟨rfl, ht⟩ := Prod.mk.inj h
      obtain ⟨hnot, hs⟩ := cutFirst_eq_none (Prod.ext rfl ht)
      rw [List.mem_cons, not_or]
      exact ⟨⟨Ne.symm hd, hnot⟩, congrArg (d :: ·) hs⟩

theorem cutLast_eq_some {c : Char} {s x t : List Char} (h : cutLast c s = some (x, t)) :
    c ∉ t ∧ s = x ++ c :: t := by
  unfold cutLast at h
  split at h
  · cases h
  · rename_i after before heq
    obtain ⟨rfl, rfl⟩ := Prod.mk.inj (Option.some.inj h)
    obtain ⟨hnot, hs⟩ := cutFirst_eq_some heq
    refine ⟨fun hmem => hnot (List.mem_reverse.mp hmem), ?_⟩
    rw [← List.reverse_reverse s, hs]
    simp

theorem octetOf_ofOctets {x y z w : Nat} (hx : x < 256) (hy : y < 256) (hz : z < 256) (hw : w < 256) :
    octetOf (ofOctets x y z w) 3 = x ∧ octetOf (ofOctets x y z w) 2 = y ∧
      octetOf (ofOctets x y z w) 1 = z ∧ octetOf (ofOctets x y z w) 0 = w := by
  simp only [octetOf, ofOctets, BitVec.toNat_ofNat]
  omega

/-- **`inet_pton` reads what `inet_ntop` writes, and nothing else.** -/
theorem inetPton_eq_some {s : List Char} {a : Addr} : inetPton s = some a ↔ s = inetNtop a := by
  constructor
  · intro h
    unfold inetPton at h
    split at h
    · cases h
    rename_i x s₁ hx
    split at h
    · cases h
    rename_i y s₂ hy
    split at h
    · cases h
    rename_i z w hz
    obtain ⟨-, rfl⟩ := cutFirst_eq_some hx
    obtain ⟨-, rfl⟩ := cutFirst_eq_some hy
    obtain ⟨-, rfl⟩ := cutFirst_eq_some hz
    simp only [Option.bind_eq_some_iff, Option.map_eq_some_iff] at h
    obtain ⟨nx, hx, ny, hy, nz, hz, nw, hw, rfl⟩ := h
    obtain ⟨hltx, rfl⟩ := parseOctet_eq_some.mp hx
    obtain ⟨hlty, rfl⟩ := parseOctet_eq_some.mp hy
    obtain ⟨hltz, rfl⟩ := parseOctet_eq_some.mp hz
    obtain ⟨hltw, rfl⟩ := parseOctet_eq_some.mp hw
    obtain ⟨h3, h2, h1, h0⟩ := octetOf_ofOctets hltx hlty hltz hltw
    rw [inetNtop, h3, h2, h1, h0]
  · rintro rfl
    exact inetPton_inetNtop a

/-! ## Networks -/

/-- The first `len` bits (`prefix == 0 ? 0 : UINT32_MAX << (32 - prefix)`). -/
def mask (len : Nat) : Addr := if len = 0 then 0 else BitVec.allOnes 32 <<< (32 - len)

theorem getMsbD_mask (len i : Nat) (h : len ≤ 32) : (mask len).getMsbD i = decide (i < len) := by
  unfold mask
  by_cases hlen : len = 0
  · rw [if_pos hlen, hlen]
    simp
  · rw [if_neg hlen, BitVec.getMsbD_shiftLeft, BitVec.getMsbD_allOnes]
    exact decide_eq_decide.mpr (by omega)

theorem mask_full : mask 32 = BitVec.allOnes 32 := by
  unfold mask
  rw [if_neg (by decide), Nat.sub_self, BitVec.shiftLeft_zero]

/-- A network: an address without host bits, and the number of its network bits. -/
structure Cidr where
  network : Addr
  len : Nat
  len_le : len ≤ 32
  masked : network &&& mask len = network
  deriving DecidableEq

namespace Cidr

theorem octet_le : 8 ≤ 32 := by decide

theorem full_le : 32 ≤ 32 := Nat.le_refl 32

/-- The network of `len` bits that `a` lies in. -/
def of (a : Addr) (len : Nat) (h : len ≤ 32) : Cidr where
  network := a &&& mask len
  len := len
  len_le := h
  masked := by rw [BitVec.and_assoc, BitVec.and_self]

/-- The network of `a` alone. -/
def host (a : Addr) : Cidr := of a 32 full_le

/-- `address & mask = network`. -/
def contains (n : Cidr) (a : Addr) : Bool := a &&& mask n.len == n.network

theorem ext_iff' {m n : Cidr} : m = n ↔ m.network = n.network ∧ m.len = n.len := by
  constructor
  · rintro rfl; exact ⟨rfl, rfl⟩
  · obtain ⟨_, _, _, _⟩ := m
    obtain ⟨_, _, _, _⟩ := n
    rintro ⟨rfl, rfl⟩
    rfl

theorem host_network (a : Addr) : (host a).network = a := by
  show a &&& mask 32 = a
  rw [mask_full, BitVec.and_allOnes]

/-- Masking a network's own address changes nothing. -/
theorem of_self (n : Cidr) : of n.network n.len n.len_le = n := ext_iff'.mpr ⟨n.masked, rfl⟩

/-- A network has the first `len` bits of its addresses, and no others. -/
theorem getMsbD_of (a : Addr) (len i : Nat) (h : len ≤ 32) :
    (of a len h).network.getMsbD i = (a.getMsbD i && decide (i < len)) := by
  rw [← getMsbD_mask len i h, ← BitVec.getMsbD_and]
  rfl

/-- **A network's addresses agree on its first bits.** -/
theorem contains_of {a b : Addr} {len : Nat} {h : len ≤ 32} :
    (of a len h).contains b = true ↔ ∀ i < len, b.getMsbD i = a.getMsbD i := by
  have hmask : ∀ i, (mask (of a len h).len).getMsbD i = decide (i < len) :=
    fun i => getMsbD_mask len i h
  unfold contains
  rw [beq_iff_eq]
  constructor
  · intro heq i hi
    have hbit := congrArg (fun x => BitVec.getMsbD x i) heq
    simp only [BitVec.getMsbD_and, getMsbD_of] at hbit
    rw [hmask, decide_eq_true hi, Bool.and_true, Bool.and_true] at hbit
    exact hbit
  · intro hbits
    apply BitVec.eq_of_getMsbD_eq
    intro i hi
    rw [BitVec.getMsbD_and, getMsbD_of, hmask]
    by_cases hlt : i < len
    · rw [hbits i hlt]
    · rw [decide_eq_false hlt, Bool.and_false, Bool.and_false]

theorem mem_host {a b : Addr} : (host a).contains b = true ↔ b = a := by
  unfold contains
  rw [beq_iff_eq, host_network]
  show b &&& mask 32 = a ↔ b = a
  rw [mask_full, BitVec.and_allOnes]

/-- The canonical text: a dotted quad, with the length unless the network is one host. -/
def text (n : Cidr) : List Char :=
  if n.len = 32 then inetNtop n.network else inetNtop n.network ++ '/' :: decimal n.len

/-- A network from its text; host bits of the address are masked. -/
def parse (s : List Char) : Option Cidr :=
  match cutFirst '/' s with
  | (a, none) => (inetPton a).map host
  | (a, some l) => (inetPton a).bind fun a => (parseDecimal l).bind fun l =>
      if h : l ≤ 32 then some (of a l h) else none

/-- **A network's text denotes it.** -/
theorem parse_text (n : Cidr) : parse n.text = some n := by
  have hs : '/' ∉ inetNtop n.network := notMem_inetNtop rfl (by decide)
  unfold parse text
  by_cases h : n.len = 32
  · rw [if_pos h, cutFirst_none hs]
    simp only [inetPton_inetNtop, Option.map_some, Option.some.injEq]
    exact ext_iff'.mpr ⟨host_network _, h.symm⟩
  · rw [if_neg h, cutFirst_append hs]
    simp only [inetPton_inetNtop, Option.bind_some, parseDecimal_decimal, dif_pos n.len_le, of_self]

theorem parse_inetNtop (a : Addr) : parse (inetNtop a) = some (host a) := by
  unfold parse
  rw [cutFirst_none (notMem_inetNtop rfl (by decide))]
  simp only [inetPton_inetNtop, Option.map_some]

end Cidr

end FreeProxy.Lib
