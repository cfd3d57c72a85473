import ComputePool.Lib.Framing
import ComputePool.Rust.Text

/-!
# Network addresses

The address types of `std::net`, and the parser its `FromStr` instances share.  A
reader takes the text that is left and, when it succeeds, returns what it read with
the text behind it; one that fails has consumed nothing.
-/

namespace RustStd

/-! ## Numerals -/

/-- `char::to_digit`, for a radix up to sixteen. -/
def toDigit (radix : Nat) (c : Char) : Option Nat := (hexValue c).filter (· < radix)

/-- The number some digits write. -/
def digitsValue (radix : Nat) (digits : List Char) : Nat :=
  digits.foldl (fun n c => radix * n + (hexValue c).getD 0) 0

/-- A nonempty text of at most `maxDigits` digits, and the number it writes. -/
structure Numeral (radix maxDigits : Nat) (text : List Char) (n : Nat) : Prop where
  nonempty : text ≠ []
  short : text.length ≤ maxDigits
  digits : ∀ c ∈ text, (toDigit radix c).isSome
  value : n = digitsValue radix text

/-- `str::parse::<u16>`: digits, with at most one plus sign before them. -/
def parseU16 (s : List Char) : Option Nat :=
  let digits := (stripPrefix ['+'] s).getD s
  if digits ≠ [] ∧ (digits.all fun c => (toDigit 10 c).isSome) ∧
      digitsValue 10 digits ≤ 65535 then
    some (digitsValue 10 digits)
  else none

theorem hexValue_digitChar : ∀ d < 16, hexValue (Nat.digitChar d) = some d := by
  decide

/-- The digits of a number are digits of its radix. -/
theorem toDigit_of_mem_toDigits {b n : Nat} {c : Char} (hb : 1 < b) (hsmall : b ≤ 16)
    (hc : c ∈ Nat.toDigits b n) : (toDigit b c).isSome := by
  induction n using Nat.strongRec with
  | ind n ih =>
      have hdigit : ∀ d < b, (toDigit b (Nat.digitChar d)).isSome := fun d hd => by
        simp [toDigit, hexValue_digitChar d (by omega), hd]
      rcases Nat.lt_or_ge n b with hlt | hge
      · rw [Nat.toDigits_of_lt_base hlt] at hc
        rw [List.mem_singleton.mp hc]
        exact hdigit n hlt
      · rw [Nat.toDigits_of_base_le hb hge, List.mem_append] at hc
        rcases hc with hc | hc
        · exact ih (n / b) (Nat.div_lt_self (by omega) hb) hc
        · rw [List.mem_singleton.mp hc]
          exact hdigit _ (Nat.mod_lt n (by omega))

theorem digitsValue_append (b : Nat) (front : List Char) (c : Char) :
    digitsValue b (front ++ [c]) = b * digitsValue b front + (hexValue c).getD 0 := by
  simp [digitsValue]

/-- Written digits read back. -/
theorem digitsValue_toDigits {b : Nat} (hb : 1 < b) (hsmall : b ≤ 16) (n : Nat) :
    digitsValue b (Nat.toDigits b n) = n := by
  induction n using Nat.strongRec with
  | ind n ih =>
      rcases Nat.lt_or_ge n b with hlt | hge
      · rw [Nat.toDigits_of_lt_base hlt]
        simp [digitsValue, hexValue_digitChar n (by omega)]
      · have hlast := Nat.mod_lt n (show 0 < b by omega)
        rw [Nat.toDigits_of_base_le hb hge, digitsValue_append,
          ih (n / b) (Nat.div_lt_self (by omega) hb), hexValue_digitChar _ (by omega)]
        exact Nat.div_add_mod n b

theorem toDigits_injective {b : Nat} (hb : 1 < b) (hsmall : b ≤ 16) :
    Function.Injective (Nat.toDigits b) := by
  intro m n h
  rw [← digitsValue_toDigits hb hsmall m, h, digitsValue_toDigits hb hsmall n]

/-- A character that is no digit is in no numeral. -/
theorem not_mem_toDigits {b n : Nat} {c : Char} (hb : 1 < b) (hsmall : b ≤ 16)
    (hc : toDigit b c = none) : c ∉ Nat.toDigits b n := by
  intro hin
  have hdigit := toDigit_of_mem_toDigits hb hsmall hin
  rw [hc] at hdigit
  cases hdigit

/-! ## Addresses -/

/-- `std::net::Ipv4Addr`. -/
structure Ipv4Addr where
  a : UInt8
  b : UInt8
  c : UInt8
  d : UInt8
  deriving DecidableEq

/-- `std::net::Ipv6Addr`, as its segments. -/
structure Ipv6Addr where
  s0 : UInt16
  s1 : UInt16
  s2 : UInt16
  s3 : UInt16
  s4 : UInt16
  s5 : UInt16
  s6 : UInt16
  s7 : UInt16
  deriving DecidableEq

/-- `std::net::IpAddr`. -/
inductive IpAddr where
  | v4 (addr : Ipv4Addr)
  | v6 (addr : Ipv6Addr)
  deriving DecidableEq

/-- `std::net::SocketAddr`. -/
structure SocketAddr where
  ip : IpAddr
  port : UInt16

/-- The 127.0.0.0/8 block. -/
def Ipv4Addr.isLoopback (addr : Ipv4Addr) : Bool := addr.a == 127

/-- `Ipv4Addr`'s `Display`. -/
def Ipv4Addr.display (addr : Ipv4Addr) : List Char :=
  Nat.toDigits 10 addr.a.toNat ++ '.' :: (Nat.toDigits 10 addr.b.toNat ++
    '.' :: (Nat.toDigits 10 addr.c.toNat ++ '.' :: Nat.toDigits 10 addr.d.toNat))

/-- What may stand in a written IPv4 address. -/
theorem Ipv4Addr.mem_display {addr : Ipv4Addr} {c : Char} (h : c ∈ addr.display) :
    c = '.' ∨ (toDigit 10 c).isSome := by
  have hdigits : ∀ n, c ∈ Nat.toDigits 10 n → (toDigit 10 c).isSome := fun n hn =>
    toDigit_of_mem_toDigits (by decide) (by decide) hn
  simp only [display, List.mem_append, List.mem_cons] at h
  rcases h with h | rfl | h | rfl | h | rfl | h
  · exact .inr (hdigits _ h)
  · exact .inl rfl
  · exact .inr (hdigits _ h)
  · exact .inl rfl
  · exact .inr (hdigits _ h)
  · exact .inl rfl
  · exact .inr (hdigits _ h)

theorem Ipv4Addr.display_injective : Function.Injective Ipv4Addr.display := by
  have hdot : ∀ n, '.' ∉ Nat.toDigits 10 n := fun n =>
    not_mem_toDigits (by decide) (by decide) (by decide)
  have hoctet : ∀ x y : UInt8, Nat.toDigits 10 x.toNat = Nat.toDigits 10 y.toNat → x = y :=
    fun x y h => UInt8.toNat_inj.mp (toDigits_injective (by decide) (by decide) h)
  intro x y h
  obtain ⟨a, b, c, d⟩ := x
  obtain ⟨a', b', c', d'⟩ := y
  simp only [display] at h
  obtain ⟨ha, h⟩ := Framing.append_sep_inj (hdot _) (hdot _) h
  obtain ⟨hb, h⟩ := Framing.append_sep_inj (hdot _) (hdot _) h
  obtain ⟨hc, hd⟩ := Framing.append_sep_inj (hdot _) (hdot _) h
  rw [hoctet _ _ ha, hoctet _ _ hb, hoctet _ _ hc, hoctet _ _ hd]

namespace Ipv6Addr

/-- `Ipv6Addr::segments`. -/
def segments (addr : Ipv6Addr) : List UInt16 :=
  [addr.s0, addr.s1, addr.s2, addr.s3, addr.s4, addr.s5, addr.s6, addr.s7]

/-- The address of some segments; those not given are zero. -/
def ofSegments (l : List UInt16) : Ipv6Addr :=
  ⟨l.getD 0 0, l.getD 1 0, l.getD 2 0, l.getD 3 0, l.getD 4 0, l.getD 5 0, l.getD 6 0, l.getD 7 0⟩

/-- `::1` only; an embedded IPv4 loopback address is none of IPv6. -/
def isLoopback (addr : Ipv6Addr) : Bool := addr == ⟨0, 0, 0, 0, 0, 0, 0, 1⟩

theorem segments_ofSegments {l : List UInt16} (h : l.length = 8) : (ofSegments l).segments = l := by
  match l, h with
  | [_, _, _, _, _, _, _, _], _ => rfl

end Ipv6Addr

/-- `IpAddr::is_loopback`. -/
def IpAddr.isLoopback : IpAddr → Bool
  | .v4 addr => addr.isLoopback
  | .v6 addr => addr.isLoopback

/-! ## Readers -/

variable {α : Type}

/-- `Parser::read_number`. -/
def readNumber (radix maxDigits : Nat) (allowZeroPrefix : Bool) (max : Nat) (p : List Char) :
    Option (Nat × List Char) :=
  let digits := p.takeWhile fun c => (toDigit radix c).isSome
  if digits.length > maxDigits then none
  else if digits.length = 0 then none
  else if allowZeroPrefix = false ∧ p.head? = some '0' ∧ digits.length > 1 then none
  else if digitsValue radix digits ≤ max then
    some (digitsValue radix digits, p.drop digits.length)
  else none

/-- `Parser::read_separator`: every item but the first follows a separator. -/
def readSeparator (sep : Char) (index : Nat) (inner : List Char → Option (α × List Char))
    (p : List Char) : Option (α × List Char) :=
  if index > 0 then (stripPrefix [sep] p).bind inner else inner p

/-- `Parser::read_ipv4_addr`. -/
def readIpv4 (p : List Char) : Option (Ipv4Addr × List Char) := do
  let (a, p) ← readSeparator '.' 0 (readNumber 10 3 false 255) p
  let (b, p) ← readSeparator '.' 1 (readNumber 10 3 false 255) p
  let (c, p) ← readSeparator '.' 2 (readNumber 10 3 false 255) p
  let (d, p) ← readSeparator '.' 3 (readNumber 10 3 false 255) p
  some (⟨UInt8.ofNat a, UInt8.ofNat b, UInt8.ofNat c, UInt8.ofNat d⟩, p)

/-- The two segments that four octets fill. -/
def Ipv4Addr.segments (addr : Ipv4Addr) : List UInt16 :=
  [UInt16.ofNat (256 * addr.a.toNat + addr.b.toNat),
    UInt16.ofNat (256 * addr.c.toNat + addr.d.toNat)]

/-- `read_groups`, from its `i`th group on, when there is room for `left` groups. -/
def readGroups : (left i : Nat) → List Char → List UInt16 × Bool × List Char
  | 0, _, p => ([], false, p)
  | left + 1, i, p =>
      -- an embedded IPv4 address fills two groups and ends the run
      match if left = 0 then none else readSeparator ':' i readIpv4 p with
      | some (addr, p) => (addr.segments, true, p)
      | none =>
          match readSeparator ':' i (readNumber 16 4 true 65535) p with
          | some (group, p) =>
              let (groups, ipv4, p) := readGroups left (i + 1) p
              (UInt16.ofNat group :: groups, ipv4, p)
          | none => ([], false, p)

/-- `Parser::read_ipv6_addr`. -/
def readIpv6 (p : List Char) : Option (Ipv6Addr × List Char) :=
  let (head, headIpv4, p) := readGroups 8 0 p
  if head.length = 8 then some (Ipv6Addr.ofSegments head, p)
  else if headIpv4 then none
  else
    (stripPrefix [':', ':'] p).bind fun p =>
      let (tail, _, p) := readGroups (8 - (head.length + 1)) 0 p
      let zeros := List.replicate (8 - tail.length - head.length) 0
      some (Ipv6Addr.ofSegments (head ++ zeros ++ tail), p)

/-- `Parser::parse_with`: a reader has to reach the end of the text. -/
def parseWith (inner : List Char → Option (α × List Char)) (s : List Char) : Option α :=
  (inner s).bind fun (a, rest) => if rest = [] then some a else none

/-- `str::parse::<Ipv4Addr>`, which no text of more than fifteen bytes passes. -/
def Ipv4Addr.parse (s : List Char) : Option Ipv4Addr :=
  if (String.ofList s).utf8ByteSize > 15 then none else parseWith readIpv4 s

/-- `str::parse::<Ipv6Addr>`. -/
def Ipv6Addr.parse (s : List Char) : Option Ipv6Addr := parseWith readIpv6 s

/-- `str::parse::<IpAddr>`. -/
def IpAddr.parse (s : List Char) : Option IpAddr :=
  parseWith (fun p => ((readIpv4 p).map fun r => (IpAddr.v4 r.1, r.2)).or
    ((readIpv6 p).map fun r => (IpAddr.v6 r.1, r.2))) s

/-! ## What the readers consume -/

theorem parseWith_eq_some {inner : List Char → Option (α × List Char)} {s : List Char} {a : α} :
    parseWith inner s = some a ↔ inner s = some (a, []) := by
  unfold parseWith
  cases hread : inner s with
  | none => simp
  | some r =>
      obtain ⟨b, rest⟩ := r
      by_cases hrest : rest = [] <;> simp [hrest]

/-- What is in front of the `i`th item of a list. -/
def lead (sep : Char) (i : Nat) : List Char := if i > 0 then [sep] else []

theorem readSeparator_eq_some {sep : Char} {i : Nat}
    {inner : List Char → Option (α × List Char)} {p : List Char} {r : α × List Char}
    (h : readSeparator sep i inner p = some r) :
    ∃ q, p = lead sep i ++ q ∧ inner q = some r := by
  unfold readSeparator at h
  unfold lead
  split at h
  · rename_i hi
    obtain ⟨q, hq, hr⟩ := Option.bind_eq_some_iff.mp h
    exact ⟨q, by rw [if_pos hi]; exact stripPrefix_eq_some.mp hq, hr⟩
  · rename_i hi
    exact ⟨p, by rw [if_neg hi]; rfl, h⟩

theorem readNumber_eq_some {radix maxDigits max n : Nat} {allow : Bool} {p rest : List Char}
    (h : readNumber radix maxDigits allow max p = some (n, rest)) :
    ∃ text, p = text ++ rest ∧ Numeral radix maxDigits text n ∧ n ≤ max ∧
      (allow = false → text.head? = some '0' → text = ['0']) := by
  unfold readNumber at h
  dsimp only at h
  have hsplit := List.takeWhile_append_dropWhile (p := fun c => (toDigit radix c).isSome) (l := p)
  generalize hdigits : p.takeWhile (fun c => (toDigit radix c).isSome) = digits at h hsplit
  have hall : ∀ c ∈ digits, (toDigit radix c).isSome := fun c hc =>
    List.mem_takeWhile_imp (p := fun c => (toDigit radix c).isSome) (l := p) (hdigits ▸ hc)
  split at h
  · cases h
  rename_i hshort
  split at h
  · cases h
  rename_i hsome
  split at h
  · cases h
  rename_i hzero
  split at h
  · rename_i hmax
    cases h
    have hne : digits ≠ [] := fun h => hsome (by rw [h]; rfl)
    refine ⟨digits, ?_, ⟨hne, by omega, hall, rfl⟩, hmax, fun hallow hhead => ?_⟩
    · rw [← hsplit, List.drop_left]
    · have hp : p.head? = some '0' := by
        rw [← hsplit, List.head?_append, hhead]
        rfl
      have hlen : digits.length = 1 := by
        have hlarge : ¬ digits.length > 1 := fun hlen => hzero ⟨hallow, hp, hlen⟩
        omega
      obtain ⟨c, rfl⟩ := List.length_eq_one_iff.mp hlen
      cases hhead
      rfl
  · cases h

end RustStd
