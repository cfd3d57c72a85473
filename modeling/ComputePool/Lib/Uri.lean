import ComputePool.Rust.Net

/-!
# Uniform resource identifiers

The part of the generic syntax of RFC 3986 that says what a URI names as its host:
the authority behind the double slash, with its user information, its host and its
port, and the forms a host is written in.  What the address readers of `std::net`
accept is of these forms.
-/

namespace Uri

open RustStd

/-! ## Addresses -/

/-- `dec-octet`. -/
structure DecOctet (text : List Char) (n : Nat) : Prop where
  numeral : Numeral 10 3 text n
  small : n ≤ 255
  plain : text.head? = some '0' → text = ['0']

/-- `h16`. -/
abbrev H16 (text : List Char) (n : Nat) : Prop := Numeral 16 4 text n

/-- `IPv4address`, with its octets. -/
inductive Ipv4address : List Char → List Nat → Prop
  | octets {a b c d : List Char} {na nb nc nd : Nat} : DecOctet a na → DecOctet b nb →
      DecOctet c nc → DecOctet d nd →
      Ipv4address (a ++ '.' :: (b ++ '.' :: (c ++ '.' :: d))) [na, nb, nc, nd]

/-- Groups of an IPv6 address with colons between them.  The last two may be written as
an IPv4 address, which the flag tells. -/
inductive Groups : Bool → List Char → List Nat → Prop
  | last {text : List Char} {n : Nat} : H16 text n → Groups false text [n]
  | ipv4 {text : List Char} {a b c d : Nat} : Ipv4address text [a, b, c, d] →
      Groups true text [256 * a + b, 256 * c + d]
  | cons {ipv4 : Bool} {text rest : List Char} {n : Nat} {ns : List Nat} : H16 text n →
      Groups ipv4 rest ns → Groups ipv4 (text ++ ':' :: rest) (n :: ns)

/-- One side of a double colon. -/
inductive Side : Bool → List Char → List Nat → Prop
  | empty : Side false [] []
  | groups {ipv4 : Bool} {text : List Char} {ns : List Nat} : Groups ipv4 text ns →
      Side ipv4 text ns

/-- `IPv6address`, with its eight groups: all of them written, or a double colon in the
place of some zeros. -/
inductive Ipv6address : List Char → List Nat → Prop
  | full {ipv4 : Bool} {text : List Char} {ns : List Nat} : Groups ipv4 text ns →
      ns.length = 8 → Ipv6address text ns
  | short {ipv4 : Bool} {front back : List Char} {hs ts : List Nat} : Side false front hs →
      Side ipv4 back ts → hs.length + ts.length ≤ 7 →
      Ipv6address (front ++ ':' :: ':' :: back)
        (hs ++ List.replicate (8 - ts.length - hs.length) 0 ++ ts)

/-! ## Hosts -/

/-- `unreserved` and `sub-delims`. -/
def isNameChar (c : Char) : Bool :=
  c.isAlphanum || ['-', '.', '_', '~', '!', '$', '&', '(', ')', '*', '+', ',', ';', '='].contains c ||
    c.toNat == 39

/-- Characters of one kind and percent-encoded octets. -/
def encoded (allowed : Char → Bool) : List Char → Bool
  | [] => true
  | '%' :: hi :: lo :: rest => (hexValue hi).isSome && (hexValue lo).isSome && encoded allowed rest
  | c :: rest => allowed c && encoded allowed rest

/-- What an authority names. -/
inductive Host where
  | ipv6 (groups : List Nat)
  | ipvFuture (text : List Char)
  | ipv4 (octets : List Nat)
  | regName (name : List Char)

/-- `host`, and what it names; a text that is an `IPv4address` is no `reg-name`. -/
inductive ReadsHost : List Char → Host → Prop
  | ipv6 {text : List Char} {groups : List Nat} : Ipv6address text groups →
      ReadsHost ('[' :: text ++ [']']) (.ipv6 groups)
  | ipvFuture {version text : List Char} : version ≠ [] →
      (∀ c ∈ version, (hexValue c).isSome) → text ≠ [] →
      (∀ c ∈ text, isNameChar c = true ∨ c = ':') →
      ReadsHost ('[' :: 'v' :: version ++ '.' :: text ++ [']']) (.ipvFuture text)
  | ipv4 {text : List Char} {octets : List Nat} : Ipv4address text octets →
      ReadsHost text (.ipv4 octets)
  | regName {name : List Char} : encoded isNameChar name = true →
      (∀ octets, ¬ Ipv4address name octets) → ReadsHost name (.regName name)

/-- The host is a loopback literal: an address of 127.0.0.0/8, `::1` or `localhost`. -/
def Host.IsLoopback : Host → Prop
  | .ipv6 groups => groups = [0, 0, 0, 0, 0, 0, 0, 1]
  | .ipvFuture _ => False
  | .ipv4 octets => octets.head? = some 127
  | .regName name => name.map Char.toLower = "localhost".toList

/-- The text between the double slash of a URI and its path, query or fragment. -/
def authorityOf (rest : List Char) : List Char :=
  rest.takeWhile fun c => !(c == '/' || c == '?' || c == '#')

/-- `authority`: user information before an at sign, the host, and the port behind a
colon. -/
structure ReadsAuthority (authority : List Char) (userinfo : Option (List Char)) (host : Host)
    (port : Option (List Char)) : Prop where
  userinfo_chars : ∀ u, userinfo = some u →
    encoded (fun c => isNameChar c || c == ':') u = true
  port_digits : ∀ p, port = some p → ∀ c ∈ p, (toDigit 10 c).isSome
  text : ∃ name, ReadsHost name host ∧
    authority = (userinfo.elim [] fun u => u ++ ['@']) ++ name ++ (port.elim [] fun p => ':' :: p)

/-! ## Characters of an address -/

theorem DecOctet.mem {text : List Char} {n : Nat} {c : Char} (h : DecOctet text n)
    (hc : c ∈ text) : (toDigit 10 c).isSome :=
  h.numeral.digits c hc

theorem hex_of_decimal {c : Char} (h : (toDigit 10 c).isSome) : (toDigit 16 c).isSome := by
  unfold toDigit at h ⊢
  cases hv : hexValue c with
  | none => rw [hv] at h; cases h
  | some v =>
      rw [hv] at h
      by_cases hsmall : v < 10
      · have hlt : v < 16 := by omega
        simp [hlt]
      · simp [hsmall] at h

theorem Ipv4address.mem {text : List Char} {octets : List Nat} {c : Char}
    (h : Ipv4address text octets) (hc : c ∈ text) : c = '.' ∨ (toDigit 10 c).isSome := by
  cases h with
  | octets ha hb hd hd' =>
      simp only [List.mem_append, List.mem_cons] at hc
      rcases hc with hc | rfl | hc | rfl | hc | rfl | hc
      · exact .inr (ha.mem hc)
      · exact .inl rfl
      · exact .inr (hb.mem hc)
      · exact .inl rfl
      · exact .inr (hd.mem hc)
      · exact .inl rfl
      · exact .inr (hd'.mem hc)

theorem Ipv4address.dot {text : List Char} {octets : List Nat} (h : Ipv4address text octets) :
    '.' ∈ text := by
  cases h with
  | octets _ _ _ _ => simp

/-- What an IPv6 address is written with. -/
def IsGroupChar (c : Char) : Prop := c = ':' ∨ c = '.' ∨ (toDigit 16 c).isSome

theorem Groups.mem {ipv4 : Bool} {text : List Char} {ns : List Nat} {c : Char}
    (h : Groups ipv4 text ns) (hc : c ∈ text) : IsGroupChar c := by
  induction h with
  | last h => exact .inr (.inr (h.digits c hc))
  | ipv4 h =>
      rcases h.mem hc with hdot | hdigit
      · exact .inr (.inl hdot)
      · exact .inr (.inr (hex_of_decimal hdigit))
  | cons h _ ih =>
      rw [List.mem_append, List.mem_cons] at hc
      rcases hc with hc | hc | hc
      · exact .inr (.inr (h.digits c hc))
      · exact .inl hc
      · exact ih hc

theorem Side.mem {ipv4 : Bool} {text : List Char} {ns : List Nat} {c : Char}
    (h : Side ipv4 text ns) (hc : c ∈ text) : IsGroupChar c := by
  cases h with
  | empty => cases hc
  | groups h => exact h.mem hc

theorem Ipv6address.mem {text : List Char} {ns : List Nat} {c : Char} (h : Ipv6address text ns)
    (hc : c ∈ text) : IsGroupChar c := by
  cases h with
  | full h _ => exact h.mem hc
  | short hfront hback _ =>
      rw [List.mem_append, List.mem_cons, List.mem_cons] at hc
      rcases hc with hc | hc | hc | hc
      · exact hfront.mem hc
      · exact .inl hc
      · exact .inl hc
      · exact hback.mem hc

/-- A run of groups without a colon is one group, or an IPv4 address. -/
theorem Groups.length_le {ipv4 : Bool} {text : List Char} {ns : List Nat}
    (h : Groups ipv4 text ns) (hcolon : ':' ∉ text) : ns.length ≤ 2 := by
  cases h with
  | last _ => exact Nat.le_succ 1
  | ipv4 _ => exact le_rfl
  | cons _ _ => exact absurd (List.mem_append_right _ List.mem_cons_self) hcolon

theorem Ipv6address.colon {text : List Char} {ns : List Nat} (h : Ipv6address text ns) :
    ':' ∈ text := by
  cases h with
  | full h hlen =>
      by_contra hcolon
      have hshort := h.length_le hcolon
      omega
  | short _ _ _ => exact List.mem_append_right _ List.mem_cons_self

/-! ## What the address readers accept -/

/-- `read_ipv4_addr` reads a `dec-octet` behind each of its separators. -/
theorem readOctet_sound {i : Nat} {p rest : List Char} {n : Nat}
    (h : readSeparator '.' i (readNumber 10 3 false 255) p = some (n, rest)) :
    ∃ text, p = lead '.' i ++ (text ++ rest) ∧ DecOctet text n := by
  obtain ⟨q, rfl, hread⟩ := readSeparator_eq_some h
  obtain ⟨text, rfl, hnumeral, hmax, hzero⟩ := readNumber_eq_some hread
  exact ⟨text, rfl, hnumeral, hmax, hzero rfl⟩

theorem DecOctet.byte {text : List Char} {n : Nat} (h : DecOctet text n) :
    (UInt8.ofNat n).toNat = n :=
  UInt8.toNat_ofNat_of_lt' (Nat.lt_succ_of_le h.small)

/-- `read_ipv4_addr` reads an `IPv4address`. -/
theorem readIpv4_sound {p rest : List Char} {addr : Ipv4Addr}
    (h : readIpv4 p = some (addr, rest)) :
    ∃ text, p = text ++ rest ∧
      Ipv4address text [addr.a.toNat, addr.b.toNat, addr.c.toNat, addr.d.toNat] := by
  unfold readIpv4 at h
  obtain ⟨⟨a, p₁⟩, hreadA, h⟩ := Option.bind_eq_some_iff.mp h
  obtain ⟨⟨b, p₂⟩, hreadB, h⟩ := Option.bind_eq_some_iff.mp h
  obtain ⟨⟨c, p₃⟩, hreadC, h⟩ := Option.bind_eq_some_iff.mp h
  obtain ⟨⟨d, p₄⟩, hreadD, h⟩ := Option.bind_eq_some_iff.mp h
  obtain ⟨rfl, rfl⟩ := Prod.mk.inj (Option.some.inj h)
  obtain ⟨ta, rfl, ha⟩ := readOctet_sound hreadA
  obtain ⟨tb, rfl, hb⟩ := readOctet_sound hreadB
  obtain ⟨tc, rfl, hc⟩ := readOctet_sound hreadC
  obtain ⟨td, rfl, hd⟩ := readOctet_sound hreadD
  refine ⟨ta ++ '.' :: (tb ++ '.' :: (tc ++ '.' :: td)), by simp [lead], ?_⟩
  rw [ha.byte, hb.byte, hc.byte, hd.byte]
  exact .octets ha hb hc hd

theorem segments_toNat (addr : Ipv4Addr) : addr.segments.map UInt16.toNat =
    [256 * addr.a.toNat + addr.b.toNat, 256 * addr.c.toNat + addr.d.toNat] := by
  have ha := addr.a.toNat_lt
  have hb := addr.b.toNat_lt
  have hc := addr.c.toNat_lt
  have hd := addr.d.toNat_lt
  simp only [Ipv4Addr.segments, List.map_cons, List.map_nil]
  rw [UInt16.toNat_ofNat_of_lt' (show _ < 65536 by omega),
    UInt16.toNat_ofNat_of_lt' (show _ < 65536 by omega)]

/-- `read_groups` reads groups as a URI writes them, or nothing. -/
theorem readGroups_sound {left i : Nat} {p rest : List Char} {groups : List UInt16}
    {ipv4 : Bool} (h : readGroups left i p = (groups, ipv4, rest)) :
    groups.length ≤ left ∧ ((groups = [] ∧ ipv4 = false ∧ rest = p) ∨
      ∃ text, p = lead ':' i ++ (text ++ rest) ∧ Groups ipv4 text (groups.map UInt16.toNat)) := by
  induction left generalizing i p groups with
  | zero =>
      cases h
      exact ⟨le_rfl, .inl ⟨rfl, rfl, rfl⟩⟩
  | succ left ih =>
      rw [readGroups] at h
      split at h
      · -- an IPv4 address in the place of the last two groups
        rename_i addr q hipv4
        cases h
        split at hipv4
        · cases hipv4
        rename_i hleft
        obtain ⟨q₁, rfl, hread⟩ := readSeparator_eq_some hipv4
        obtain ⟨text, rfl, haddr⟩ := readIpv4_sound hread
        refine ⟨?_, .inr ⟨text, rfl, ?_⟩⟩
        · show 2 ≤ left + 1
          omega
        · rw [segments_toNat]
          exact .ipv4 haddr
      · split at h
        · rename_i group q hgroup
          obtain ⟨q₁, rfl, hread⟩ := readSeparator_eq_some hgroup
          obtain ⟨text, rfl, hnumeral, hmax, -⟩ := readNumber_eq_some hread
          have hvalue : (UInt16.ofNat group).toNat = group :=
            UInt16.toNat_ofNat_of_lt' (Nat.lt_succ_of_le hmax)
          generalize hmore : readGroups left (i + 1) q = more at h
          obtain ⟨groups', ipv4', rest'⟩ := more
          cases h
          obtain ⟨hlen, hempty | ⟨text', hq, hgroups⟩⟩ := ih hmore
          · obtain ⟨rfl, rfl, rfl⟩ := hempty
            refine ⟨Nat.succ_le_succ hlen, .inr ⟨text, rfl, ?_⟩⟩
            rw [List.map_cons, hvalue]
            exact .last hnumeral
          · refine ⟨Nat.succ_le_succ hlen, .inr ⟨text ++ ':' :: text', ?_, ?_⟩⟩
            · rw [hq]
              simp [lead]
            · rw [List.map_cons, hvalue]
              exact .cons hnumeral hgroups
        · cases h
          exact ⟨Nat.zero_le _, .inl ⟨rfl, rfl, rfl⟩⟩

/-- The groups in front of a text, as one side of a double colon. -/
theorem readGroups_side {left : Nat} {p rest : List Char} {groups : List UInt16} {ipv4 : Bool}
    (h : readGroups left 0 p = (groups, ipv4, rest)) :
    ∃ text, p = text ++ rest ∧ Side ipv4 text (groups.map UInt16.toNat) := by
  obtain ⟨-, ⟨rfl, rfl, rfl⟩ | ⟨text, hp, hgroups⟩⟩ := readGroups_sound h
  · exact ⟨[], rfl, .empty⟩
  · exact ⟨text, hp, .groups hgroups⟩

/-- `read_ipv6_addr` reads an `IPv6address`. -/
theorem readIpv6_sound {p rest : List Char} {addr : Ipv6Addr}
    (h : readIpv6 p = some (addr, rest)) :
    ∃ text, p = text ++ rest ∧ Ipv6address text (addr.segments.map UInt16.toNat) := by
  unfold readIpv6 at h
  generalize hhead : readGroups 8 0 p = head at h
  obtain ⟨hs, headIpv4, p₁⟩ := head
  dsimp only at h
  obtain ⟨hshort, -⟩ := readGroups_sound hhead
  obtain ⟨front, rfl, hfront⟩ := readGroups_side hhead
  split at h
  · rename_i hlen
    cases h
    refine ⟨front, rfl, ?_⟩
    rw [Ipv6Addr.segments_ofSegments hlen]
    have hcount : (hs.map UInt16.toNat).length = 8 := by rw [List.length_map, hlen]
    generalize hs.map UInt16.toNat = ns at hfront hcount
    cases hfront with
    | empty => cases hcount
    | groups hgroups => exact .full hgroups hcount
  · rename_i hlen
    cases headIpv4 with
    | true => cases h
    | false =>
        obtain ⟨p₂, hcolons, h⟩ := Option.bind_eq_some_iff.mp h
        generalize htail : readGroups (8 - (hs.length + 1)) 0 p₂ = tail at h
        obtain ⟨ts, tailIpv4, p₃⟩ := tail
        cases h
        obtain ⟨hroom, -⟩ := readGroups_sound htail
        obtain ⟨back, rfl, hback⟩ := readGroups_side htail
        refine ⟨front ++ ':' :: ':' :: back, ?_, ?_⟩
        · rw [stripPrefix_eq_some.mp hcolons]
          simp
        · have hwhole := Ipv6address.short hfront hback (by
            rw [List.length_map, List.length_map]
            omega)
          rw [Ipv6Addr.segments_ofSegments (by simp; omega), List.map_append, List.map_append,
            List.map_replicate]
          rw [List.length_map, List.length_map] at hwhole
          exact hwhole

/-! ## Parsed addresses -/

theorem ipv4_parse_sound {s : List Char} {addr : Ipv4Addr} (h : Ipv4Addr.parse s = some addr) :
    Ipv4address s [addr.a.toNat, addr.b.toNat, addr.c.toNat, addr.d.toNat] := by
  unfold Ipv4Addr.parse at h
  split at h
  · cases h
  · obtain ⟨text, hs, haddr⟩ := readIpv4_sound (parseWith_eq_some.mp h)
    rw [hs, List.append_nil]
    exact haddr

theorem ipv6_parse_sound {s : List Char} {addr : Ipv6Addr} (h : Ipv6Addr.parse s = some addr) :
    Ipv6address s (addr.segments.map UInt16.toNat) := by
  obtain ⟨text, hs, haddr⟩ := readIpv6_sound (parseWith_eq_some.mp h)
  rw [hs, List.append_nil]
  exact haddr

end Uri
