import ComputePool.Lib.Sextets
import ComputePool.Rust.Result
import ComputePool.Rust.Text

/-!
# Decoding the parts of a token

`base64url_decode` of `attestation.rs` with its table-driven decoder.  The text is
first rewritten to the standard alphabet and padded to a multiple of four, so a text
that already has the standard characters, or padding of its own, decodes too.
-/

namespace ComputePool
namespace Worker
namespace Base64Url

open RustStd Sextets

inductive DecodeError where
  /-- `invalid length` -/
  | invalidLength
  /-- `non-mod-4 length` -/
  | nonMod4
  /-- `invalid b64 char at offset {n}` -/
  | invalidChar (offset : Nat)
  /-- `padding in sextet position 1/2 at offset {n}` -/
  | paddingPosition (offset : Nat)
  /-- `padding before final quartet at offset {n}` -/
  | paddingBeforeFinal (offset : Nat)
  /-- `data after padding at offset {n}` -/
  | dataAfterPadding (offset : Nat)
  deriving DecidableEq

/-- The characters of RFC 4648, by their value: upper case, lower case, digits, `+`
and `/`. -/
def ALPHABET : List UInt8 :=
  (List.range' 65 26 ++ List.range' 97 26 ++ List.range' 48 10 ++ [43, 47]).map UInt8.ofNat

example : ALPHABET = "ABCDEFGHIJKLMNOPQRSTUVWXYZabcdefghijklmnopqrstuvwxyz0123456789+/".toList.map
    fun c => UInt8.ofNat c.toNat := by rfl

/-- `build_b64_table`: -1 for no character of the alphabet, -2 for padding. -/
def TABLE (b : UInt8) : Int :=
  match ALPHABET.idxOf? b with
  | some i => i
  | none => if b = 61 then -2 else -1

/-- The bytes of one quartet of values. -/
def quartetBytes (v0 v1 v2 v3 : Int) : List UInt8 :=
  let b0 := UInt8.ofNat (v0.toNat <<< 2 ||| v1.toNat >>> 4)
  let b1 := UInt8.ofNat ((v1.toNat &&& 0x0F) <<< 4 ||| v2.toNat >>> 2)
  let b2 := UInt8.ofNat ((v2.toNat &&& 0x03) <<< 6 ||| v3.toNat)
  if v2 ≥ 0 then if v3 ≥ 0 then [b0, b1, b2] else [b0, b1] else [b0]

/-- The loop over the quartets, from the one at `offset`. -/
def decodeQuartets (offset : Nat) : List UInt8 → Except DecodeError (List UInt8)
  | a :: b :: c :: d :: rest =>
      match [TABLE a, TABLE b, TABLE c, TABLE d].idxOf? (-1) with
      | some j => .error (.invalidChar (offset + j))
      | none =>
          if TABLE a = -2 ∨ TABLE b = -2 then .error (.paddingPosition offset)
          else if rest ≠ [] ∧ (TABLE c = -2 ∨ TABLE d = -2) then .error (.paddingBeforeFinal offset)
          else if TABLE c = -2 ∧ TABLE d ≠ -2 then .error (.dataAfterPadding offset)
          else (decodeQuartets (offset + 4) rest).map fun more =>
            quartetBytes (TABLE a) (TABLE b) (TABLE c) (TABLE d) ++ more
  | _ => .ok []

def base64StandardDecode (bytes : List UInt8) : Except DecodeError (List UInt8) :=
  if bytes.length % 4 ≠ 0 then .error .nonMod4 else decodeQuartets 0 bytes

/-- `replace('-', "+").replace('_', "/")` -/
def standardChar (c : Char) : Char := if c = '-' then '+' else if c = '_' then '/' else c

def base64urlDecode (s : String) : Except DecodeError (List UInt8) :=
  let bytes := utf8 (String.ofList (s.toList.map standardChar))
  let rem := bytes.length % 4
  if rem = 2 then base64StandardDecode (bytes ++ [61, 61])
  else if rem = 3 then base64StandardDecode (bytes ++ [61])
  else if rem = 1 then .error .invalidLength
  else base64StandardDecode bytes

/-! ## The encoding of RFC 7515 -/

/-- The URL-safe characters, by their value. -/
def URL_ALPHABET : List Char :=
  (List.range' 65 26 ++ List.range' 97 26 ++ List.range' 48 10).map Char.ofNat ++ ['-', '_']

/-- The unpadded base64url encoding of a byte string. -/
def base64urlEncode (bytes : List UInt8) : String :=
  String.ofList ((unpack bytes).map fun v => URL_ALPHABET[v]?.getD 'A')

/-- A text is decoded if and only if it is an encoding, and then to what it encodes. -/
def Canonical (s : String) : Prop :=
  ∀ out, base64urlDecode s = .ok out ↔ s = base64urlEncode out

/-- The value of a character of either alphabet. -/
def sextet (c : Char) : Option Nat :=
  if c.toNat < 128 then ALPHABET.idxOf? (UInt8.ofNat (standardChar c).toNat) else none

/-- The text is groups of six bits in characters of either alphabet, and after them
no more padding than would complete the last quartet. -/
structure Spells (s : String) (body : List Char) (pads : Nat) (vs : List Nat) : Prop where
  text : s.toList = body ++ List.replicate pads '='
  values : List.Forall₂ (fun c v => sextet c = some v) body vs
  complete : vs.length % 4 ≠ 1
  room : pads ≤ (4 - vs.length % 4) % 4

/-- The text uses the URL-safe characters only, has no padding, and leaves no unused bit
set. -/
def Strict (body : List Char) (pads : Nat) (vs : List Nat) : Prop :=
  (∀ c ∈ body, c ≠ '+' ∧ c ≠ '/') ∧ pads = 0 ∧ Tight vs

/-! ## The quartets -/

theorem table_of_value {b : UInt8} {v : Nat} (h : ALPHABET.idxOf? b = some v) : TABLE b = v := by
  rw [TABLE, h]

theorem value_lt {b : UInt8} {v : Nat} (h : ALPHABET.idxOf? b = some v) : v < 64 := by
  have ⟨hlt, _⟩ := List.idxOf?_eq_some_iff.mp h
  exact hlt

/-- The padding character has no value. -/
theorem pad_not_mem : (61 : UInt8) ∉ ALPHABET := by decide

theorem table_pad : TABLE 61 = -2 := by
  rw [TABLE, List.idxOf?_eq_none_iff.mpr pad_not_mem]
  rfl

/-- A byte that is not refused has a value or is padding. -/
theorem table_cases {b : UInt8} (h : TABLE b ≠ -1) :
    (∃ v, ALPHABET.idxOf? b = some v) ∨ b = 61 := by
  unfold TABLE at h
  cases hv : ALPHABET.idxOf? b with
  | some v => exact .inl ⟨v, rfl⟩
  | none =>
      rw [hv] at h
      by_cases hpad : b = 61
      · exact .inr hpad
      · exact absurd (if_neg hpad) h

theorem or_bits {a b i : Nat} (hb : b < 2 ^ i) : a <<< i ||| b = a * 2 ^ i + b := by
  rw [← Nat.shiftLeft_add_eq_or_of_lt hb, Nat.shiftLeft_eq]

/-- The shifts of the decoder put the groups together. -/
theorem quartet_bits {p q r s : Nat} (hq : q < 64) (hr : r < 64) (hs : s < 64) :
    (p <<< 2 ||| q >>> 4) = p * 4 + q / 16 ∧
      ((q &&& 0x0F) <<< 4 ||| r >>> 2) = q % 16 * 16 + r / 4 ∧
      ((r &&& 0x03) <<< 6 ||| s) = r % 4 * 64 + s := by
  have hmask4 : q &&& 0x0F = q % 16 := Nat.and_two_pow_sub_one_eq_mod q 4
  have hmask2 : r &&& 0x03 = r % 4 := Nat.and_two_pow_sub_one_eq_mod r 2
  rw [hmask4, hmask2, Nat.shiftRight_eq_div_pow, Nat.shiftRight_eq_div_pow]
  refine ⟨or_bits ?_, or_bits ?_, or_bits ?_⟩
  · show q / 16 < 4
    omega
  · show r / 4 < 16
    omega
  · exact hs

theorem quartetBytes_full {p q r s : Nat} (hq : q < 64) (hr : r < 64) (hs : s < 64) :
    quartetBytes p q r s = pack [p, q, r, s] := by
  obtain ⟨h0, h1, h2⟩ := @quartet_bits p q r s hq hr hs
  unfold quartetBytes
  dsimp only
  rw [if_pos (Int.natCast_nonneg r), if_pos (Int.natCast_nonneg s)]
  simp only [Int.toNat_natCast, h0, h1, h2, pack]

theorem quartetBytes_three {p q r : Nat} (hq : q < 64) (hr : r < 64) :
    quartetBytes p q r (-2) = pack [p, q, r] := by
  obtain ⟨h0, h1, _⟩ := @quartet_bits p q r 0 hq hr (by decide)
  unfold quartetBytes
  dsimp only
  rw [if_pos (Int.natCast_nonneg r), if_neg (by decide)]
  simp only [Int.toNat_natCast, h0, h1, pack]

theorem quartetBytes_two {p q : Nat} (hq : q < 64) :
    quartetBytes p q (-2) (-2) = pack [p, q] := by
  obtain ⟨h0, _, _⟩ := @quartet_bits p q 0 0 hq (by decide) (by decide)
  unfold quartetBytes
  dsimp only
  rw [if_neg (by decide)]
  simp only [Int.toNat_natCast, h0, pack]

/-- A byte stands for a value. -/
abbrev Stands (b : UInt8) (v : Nat) : Prop := ALPHABET.idxOf? b = some v

theorem valid_of_stands {b : UInt8} {v : Nat} (h : Stands b v) : ¬ -1 = TABLE b := by
  rw [table_of_value h]
  omega

theorem notPad_of_stands {b : UInt8} {v : Nat} (h : Stands b v) : TABLE b ≠ -2 := by
  rw [table_of_value h]
  omega

theorem decodeQuartets_nil (offset : Nat) : decodeQuartets offset [] = .ok [] := rfl

theorem decodeQuartets_quartet (offset : Nat) (a b c d : UInt8) (rest : List UInt8) :
    decodeQuartets offset (a :: b :: c :: d :: rest) =
      match [TABLE a, TABLE b, TABLE c, TABLE d].idxOf? (-1) with
      | some j => .error (.invalidChar (offset + j))
      | none =>
          if TABLE a = -2 ∨ TABLE b = -2 then .error (.paddingPosition offset)
          else if rest ≠ [] ∧ (TABLE c = -2 ∨ TABLE d = -2) then .error (.paddingBeforeFinal offset)
          else if TABLE c = -2 ∧ TABLE d ≠ -2 then .error (.dataAfterPadding offset)
          else (decodeQuartets (offset + 4) rest).map fun more =>
            quartetBytes (TABLE a) (TABLE b) (TABLE c) (TABLE d) ++ more := rfl

theorem decodeQuartets_full {offset : Nat} {a b c d : UInt8} {p q r s : Nat} (ha : Stands a p)
    (hb : Stands b q) (hc : Stands c r) (hd : Stands d s) (rest : List UInt8) :
    decodeQuartets offset (a :: b :: c :: d :: rest) =
      (decodeQuartets (offset + 4) rest).map (pack [p, q, r, s] ++ ·) := by
  have hvalid : [TABLE a, TABLE b, TABLE c, TABLE d].idxOf? (-1) = none := by
    rw [List.idxOf?_eq_none_iff]
    simp [valid_of_stands ha, valid_of_stands hb, valid_of_stands hc, valid_of_stands hd]
  have hc2 := notPad_of_stands hc
  have hd2 := notPad_of_stands hd
  rw [decodeQuartets_quartet, hvalid]
  dsimp only
  rw [if_neg (by simp [notPad_of_stands ha, notPad_of_stands hb]), if_neg (by simp [hc2, hd2]),
    if_neg (by simp [hc2]),
    table_of_value ha, table_of_value hb, table_of_value hc, table_of_value hd,
    quartetBytes_full (value_lt hb) (value_lt hc) (value_lt hd)]

theorem decodeQuartets_three {offset : Nat} {a b c : UInt8} {p q r : Nat} (ha : Stands a p)
    (hb : Stands b q) (hc : Stands c r) :
    decodeQuartets offset [a, b, c, 61] = .ok (pack [p, q, r]) := by
  have hvalid : [TABLE a, TABLE b, TABLE c, TABLE 61].idxOf? (-1) = none := by
    rw [List.idxOf?_eq_none_iff, table_pad]
    simp [valid_of_stands ha, valid_of_stands hb, valid_of_stands hc]
  have hc2 := notPad_of_stands hc
  rw [decodeQuartets_quartet, hvalid]
  dsimp only
  rw [if_neg (by simp [notPad_of_stands ha, notPad_of_stands hb]), if_neg (by simp),
    if_neg (by simp [hc2]), table_pad,
    table_of_value ha, table_of_value hb, table_of_value hc,
    quartetBytes_three (value_lt hb) (value_lt hc), decodeQuartets_nil, Except.map, List.append_nil]

theorem decodeQuartets_two {offset : Nat} {a b : UInt8} {p q : Nat} (ha : Stands a p)
    (hb : Stands b q) :
    decodeQuartets offset [a, b, 61, 61] = .ok (pack [p, q]) := by
  have hvalid : [TABLE a, TABLE b, TABLE 61, TABLE 61].idxOf? (-1) = none := by
    rw [List.idxOf?_eq_none_iff, table_pad]
    simp [valid_of_stands ha, valid_of_stands hb]
  rw [decodeQuartets_quartet, hvalid]
  dsimp only
  rw [if_neg (by simp [notPad_of_stands ha, notPad_of_stands hb]), if_neg (by simp),
    if_neg (by simp [table_pad]), table_pad,
    table_of_value ha, table_of_value hb, quartetBytes_two (value_lt hb), decodeQuartets_nil,
    Except.map, List.append_nil]

/-- What a quartet that decodes looks like. -/
theorem decodeQuartets_cons {offset : Nat} {a b c d : UInt8} {rest out : List UInt8}
    (h : decodeQuartets offset (a :: b :: c :: d :: rest) = .ok out) :
    ∃ p q, Stands a p ∧ Stands b q ∧
      ((∃ r s, Stands c r ∧ Stands d s) ∨ (rest = [] ∧ (∃ r, Stands c r) ∧ d = 61) ∨
        (rest = [] ∧ c = 61 ∧ d = 61)) := by
  rw [decodeQuartets_quartet] at h
  cases hvalid : [TABLE a, TABLE b, TABLE c, TABLE d].idxOf? (-1) with
  | some j =>
      rw [hvalid] at h
      cases h
  | none =>
      rw [hvalid] at h
      dsimp only at h
      rw [List.idxOf?_eq_none_iff] at hvalid
      simp only [List.mem_cons, List.not_mem_nil, or_false, not_or] at hvalid
      obtain ⟨hna, hnb, hnc, hnd⟩ := hvalid
      by_cases hpos : TABLE a = -2 ∨ TABLE b = -2
      · rw [if_pos hpos] at h
        cases h
      rw [if_neg hpos] at h
      by_cases hbefore : rest ≠ [] ∧ (TABLE c = -2 ∨ TABLE d = -2)
      · rw [if_pos hbefore] at h
        cases h
      rw [if_neg hbefore] at h
      by_cases hafter : TABLE c = -2 ∧ TABLE d ≠ -2
      · rw [if_pos hafter] at h
        cases h
      rw [not_or] at hpos
      rw [not_and_or, not_or, not_not] at hbefore
      have hstands : ∀ {x : UInt8}, ¬ -1 = TABLE x → TABLE x ≠ -2 → ∃ v, Stands x v := by
        intro x hne hpad
        rcases table_cases (Ne.symm hne) with hv | rfl
        · exact hv
        · exact absurd table_pad hpad
      have ⟨p, hp⟩ := hstands hna hpos.1
      have ⟨q, hq⟩ := hstands hnb hpos.2
      refine ⟨p, q, hp, hq, ?_⟩
      rcases table_cases (Ne.symm hnc) with ⟨r, hr⟩ | rfl
      · rcases table_cases (Ne.symm hnd) with hs | rfl
        · exact .inl ⟨r, hs.choose, hr, hs.choose_spec⟩
        · refine .inr (.inl ⟨?_, ⟨r, hr⟩, rfl⟩)
          rcases hbefore with hrest | hboth
          · exact hrest
          · exact absurd table_pad hboth.2
      · rcases table_cases (Ne.symm hnd) with ⟨s, hs⟩ | rfl
        · exact absurd ⟨table_pad, notPad_of_stands hs⟩ hafter
        · refine .inr (.inr ⟨?_, rfl, rfl⟩)
          rcases hbefore with hrest | hboth
          · exact hrest
          · exact absurd table_pad hboth.1

/-- What decodes is values, completed by at most two characters of padding. -/
theorem stands_of_decode : ∀ {offset : Nat} {bytes out : List UInt8}, bytes.length % 4 = 0 →
    decodeQuartets offset bytes = .ok out →
    ∃ body pads vs, bytes = body ++ List.replicate pads 61 ∧ List.Forall₂ Stands body vs ∧
      pads ≤ 2 ∧ out = pack vs
  | offset, [], out, _, h => by
      rw [decodeQuartets_nil] at h
      cases h
      exact ⟨[], 0, [], rfl, .nil, by decide, rfl⟩
  | _, [_], _, hlen, _ => nomatch hlen
  | _, [_, _], _, hlen, _ => nomatch hlen
  | _, [_, _, _], _, hlen, _ => nomatch hlen
  | offset, a :: b :: c :: d :: rest, out, hlen, h => by
      obtain ⟨p, q, ha, hb, hcase⟩ := decodeQuartets_cons h
      rcases hcase with ⟨r, s, hc, hd⟩ | ⟨rfl, ⟨r, hc⟩, rfl⟩ | ⟨rfl, rfl, rfl⟩
      · rw [decodeQuartets_full ha hb hc hd] at h
        cases hrest : decodeQuartets (offset + 4) rest with
        | error e =>
            rw [hrest] at h
            cases h
        | ok more =>
            rw [hrest] at h
            cases h
            have hlen' : rest.length % 4 = 0 := by
              simp only [List.length_cons] at hlen
              omega
            obtain ⟨body, pads, vs, rfl, hstands, hpads, rfl⟩ := stands_of_decode hlen' hrest
            exact ⟨a :: b :: c :: d :: body, pads, p :: q :: r :: s :: vs, rfl,
              .cons ha (.cons hb (.cons hc (.cons hd hstands))), hpads, rfl⟩
      · rw [decodeQuartets_three ha hb hc] at h
        cases h
        exact ⟨[a, b, c], 1, [p, q, r], rfl, .cons ha (.cons hb (.cons hc .nil)), by decide, rfl⟩
      · rw [decodeQuartets_two ha hb] at h
        cases h
        exact ⟨[a, b], 2, [p, q], rfl, .cons ha (.cons hb .nil), by decide, rfl⟩

/-- Whole quartets of values and their padding decode. -/
theorem decode_of_stands : ∀ {offset pads : Nat} {body : List UInt8} {vs : List Nat},
    List.Forall₂ Stands body vs → pads ≤ 2 → (body.length + pads) % 4 = 0 →
    decodeQuartets offset (body ++ List.replicate pads 61) = .ok (pack vs)
  | offset, pads, [], [], .nil, hpads, hlen => by
      have hzero : pads = 0 := by
        simp only [List.length_nil] at hlen
        omega
      subst hzero
      exact decodeQuartets_nil offset
  | _, pads, [_], [_], .cons _ .nil, hpads, hlen => by
      simp only [List.length_cons, List.length_nil] at hlen
      omega
  | offset, pads, [a, b], [p, q], .cons ha (.cons hb .nil), hpads, hlen => by
      have htwo : pads = 2 := by
        simp only [List.length_cons, List.length_nil] at hlen
        omega
      subst htwo
      exact decodeQuartets_two ha hb
  | offset, pads, [a, b, c], [p, q, r], .cons ha (.cons hb (.cons hc .nil)), hpads, hlen => by
      have hone : pads = 1 := by
        simp only [List.length_cons, List.length_nil] at hlen
        omega
      subst hone
      exact decodeQuartets_three ha hb hc
  | offset, pads, a :: b :: c :: d :: body, p :: q :: r :: s :: vs,
      .cons ha (.cons hb (.cons hc (.cons hd hrest))), hpads, hlen => by
      have hlen' : (body.length + pads) % 4 = 0 := by
        simp only [List.length_cons] at hlen
        omega
      show decodeQuartets offset (a :: b :: c :: d :: (body ++ List.replicate pads 61)) = _
      rw [decodeQuartets_full ha hb hc hd, decode_of_stands hrest hpads hlen']
      rfl

/-! ## From characters to bytes -/

theorem alphabet_ascii : ∀ b ∈ ALPHABET, b.toNat < 128 := by
  have hall : (ALPHABET.all fun b => decide (b.toNat < 128)) = true := by decide
  intro b hb
  exact of_decide_eq_true (List.all_eq_true.mp hall b hb)

theorem mem_of_stands {b : UInt8} {v : Nat} (h : Stands b v) : b ∈ ALPHABET := by
  have ⟨hlt, hget, _⟩ := List.idxOf?_eq_some_iff.mp h
  exact hget ▸ List.getElem_mem hlt

/-- A value stands in one byte. -/
theorem byte_of_stands {b b' : UInt8} {v : Nat} (h : Stands b v) (h' : Stands b' v) : b = b' := by
  have ⟨_, hget, _⟩ := List.idxOf?_eq_some_iff.mp h
  have ⟨_, hget', _⟩ := List.idxOf?_eq_some_iff.mp h'
  exact hget.symm.trans hget'

theorem mem_alphabet {body : List UInt8} {vs : List Nat} (h : List.Forall₂ Stands body vs) :
    ∀ {b : UInt8}, b ∈ body → b ∈ ALPHABET := by
  induction h with
  | nil => nofun
  | cons hb _ ih =>
      intro b hin
      rcases List.mem_cons.mp hin with rfl | hrest
      · exact mem_of_stands hb
      · exact ih hrest

theorem not_stands_pad {v : Nat} : ¬ Stands 61 v := fun h => pad_not_mem (mem_of_stands h)

theorem utf8EncodeChar_of_lt {c : Char} (h : c.toNat < 128) :
    String.utf8EncodeChar c = [UInt8.ofNat c.toNat] := by
  have hval : c.val.toNat ≤ 127 := Nat.le_of_lt_succ h
  unfold String.utf8EncodeChar
  dsimp only
  rw [if_pos hval]
  rfl

theorem standardChar_lt {c : Char} : (standardChar c).toNat < 128 ↔ c.toNat < 128 := by
  unfold standardChar
  by_cases hdash : c = '-'
  · subst hdash
    decide
  rw [if_neg hdash]
  by_cases hunder : c = '_'
  · subst hunder
    decide
  rw [if_neg hunder]

/-- The byte a character of the alphabets is rewritten to. -/
def standardByte (c : Char) : UInt8 := UInt8.ofNat (standardChar c).toNat

theorem sextet_eq_some {c : Char} {v : Nat} :
    sextet c = some v ↔ c.toNat < 128 ∧ Stands (standardByte c) v := by
  unfold sextet
  by_cases h : c.toNat < 128
  · rw [if_pos h]
    exact (and_iff_right h).symm
  · rw [if_neg h]
    exact iff_of_false nofun fun hboth => h hboth.1

/-- The byte stands for one standard character. -/
theorem standardChar_of_byte {c d : Char} (hc : c.toNat < 128) (hd : d.toNat < 128)
    (h : standardByte c = standardByte d) : standardChar c = standardChar d := by
  have hc' := standardChar_lt.mpr hc
  have hd' := standardChar_lt.mpr hd
  have hnat := congrArg UInt8.toNat h
  rw [standardByte, standardByte, UInt8.toNat_ofNat', UInt8.toNat_ofNat',
    Nat.mod_eq_of_lt (by omega), Nat.mod_eq_of_lt (by omega)] at hnat
  exact Char.toNat_inj.mp hnat

/-- The characters other than the two standard ones are not confused. -/
theorem standardChar_inj {c d : Char} (hplus : c ≠ '+') (hslash : c ≠ '/') (hplus' : d ≠ '+')
    (hslash' : d ≠ '/') (h : standardChar c = standardChar d) : c = d := by
  unfold standardChar at h
  split_ifs at h with hc hd hd' hc' hd hd' hd hd'
  · exact hc.trans hd.symm
  · exact absurd h (by decide)
  · exact absurd h.symm hplus'
  · exact absurd h (by decide)
  · exact hc'.trans hd'.symm
  · exact absurd h.symm hslash'
  · exact absurd h hplus
  · exact absurd h hslash
  · exact h

/-- Only the padding character is rewritten to the padding byte. -/
theorem eq_pad_of_standardByte {c : Char} (hc : c.toNat < 128) (h : standardByte c = 61) :
    c = '=' := by
  have hpad : standardChar c = '=' := standardChar_of_byte hc (by decide : '='.toNat < 128) h
  unfold standardChar at hpad
  split_ifs at hpad with hdash hunder
  · exact absurd hpad (by decide)
  · exact absurd hpad (by decide)
  · exact hpad

/-- A text whose bytes are values and padding is characters of the alphabets and
padding. -/
theorem chars_of_bytes {cs : List Char} {pads : Nat} {body : List UInt8} {vs : List Nat}
    (hstands : List.Forall₂ Stands body vs)
    (h : (cs.map standardChar).flatMap String.utf8EncodeChar = body ++ List.replicate pads 61) :
    ∃ chars, cs = chars ++ List.replicate pads '=' ∧
      List.Forall₂ (fun c v => sextet c = some v) chars vs := by
  induction cs generalizing body vs pads with
  | nil =>
      have hempty := List.append_eq_nil_iff.mp h.symm
      obtain rfl := hempty.1
      cases hstands
      have hzero : pads = 0 := by simpa using hempty.2
      subst hzero
      exact ⟨[], rfl, .nil⟩
  | cons c cs ih =>
      rw [List.map_cons, List.flatMap_cons] at h
      -- the first byte of the character is below 128, and so the character is
      have hascii : c.toNat < 128 := by
        have hne : String.utf8EncodeChar (standardChar c) ≠ [] := by
          intro hnil
          have hpos := (standardChar c).utf8Size_pos
          rw [← String.length_utf8EncodeChar, hnil] at hpos
          cases hpos
        obtain ⟨b, more, hb⟩ := List.exists_cons_of_ne_nil hne
        have hin : b ∈ body ++ List.replicate pads 61 := by
          rw [← h, hb]
          exact List.mem_cons_self
        have hlt : b.toNat < 128 := by
          rcases List.mem_append.mp hin with hbody | hpad
          · exact alphabet_ascii b (mem_alphabet hstands hbody)
          · rw [List.eq_of_mem_replicate hpad]
            decide
        rw [← standardChar_lt]
        have hmem : b ∈ String.utf8EncodeChar (standardChar c) := by
          rw [hb]
          exact List.mem_cons_self
        rw [← utf8EncodeChar_ascii hmem hlt]
        exact hlt
      rw [utf8EncodeChar_of_lt (standardChar_lt.mpr hascii), List.singleton_append] at h
      cases hstands with
      | nil =>
          cases pads with
          | zero => cases h
          | succ pads =>
              rw [List.nil_append, List.replicate_succ] at h
              obtain ⟨hfirst, hrest⟩ := List.cons.inj h
              obtain ⟨chars, hchars, hvalues⟩ := ih .nil hrest
              cases hvalues
              rw [List.nil_append] at hchars
              refine ⟨[], ?_, .nil⟩
              rw [hchars, eq_pad_of_standardByte hascii hfirst]
              rfl
      | cons hv hmore =>
          rw [List.cons_append] at h
          obtain ⟨hfirst, hrest⟩ := List.cons.inj h
          obtain ⟨chars, rfl, hvalues⟩ := ih hmore hrest
          refine ⟨c :: chars, rfl, .cons (sextet_eq_some.mpr ⟨hascii, ?_⟩) hvalues⟩
          rw [standardByte, hfirst]
          exact hv

/-- The bytes of characters of the alphabets and padding. -/
theorem bytes_of_chars {chars : List Char} {vs : List Nat} (pads : Nat)
    (hvalues : List.Forall₂ (fun c v => sextet c = some v) chars vs) :
    ((chars ++ List.replicate pads '=').map standardChar).flatMap String.utf8EncodeChar =
        chars.map standardByte ++ List.replicate pads 61 ∧
      List.Forall₂ Stands (chars.map standardByte) vs := by
  induction hvalues with
  | nil =>
      refine ⟨?_, .nil⟩
      induction pads with
      | zero => rfl
      | succ pads ih =>
          rw [List.nil_append] at ih ⊢
          rw [List.replicate_succ, List.map_cons, List.flatMap_cons, ih]
          rfl
  | cons hv _ ih =>
      obtain ⟨hascii, hstands⟩ := sextet_eq_some.mp hv
      refine ⟨?_, .cons hstands ih.2⟩
      rw [List.cons_append, List.map_cons, List.flatMap_cons, ih.1,
        utf8EncodeChar_of_lt (standardChar_lt.mpr hascii)]
      rfl

/-! ## Which texts are decoded -/

/-- Padding that was added at the end comes off again. -/
theorem split_pads {a k : Nat} {bytes body : List UInt8} (hbody : (61 : UInt8) ∉ body)
    (h : bytes ++ List.replicate a 61 = body ++ List.replicate k 61) :
    a ≤ k ∧ bytes = body ++ List.replicate (k - a) 61 := by
  induction a generalizing k with
  | zero =>
      rw [List.replicate_zero, List.append_nil] at h
      exact ⟨Nat.zero_le k, h⟩
  | succ a ih =>
      rw [List.replicate_succ', ← List.append_assoc] at h
      cases k with
      | zero =>
          rw [List.replicate_zero, List.append_nil] at h
          exact absurd (h ▸ List.mem_append_right _ List.mem_cons_self) hbody
      | succ k =>
          rw [List.replicate_succ', ← List.append_assoc] at h
          obtain ⟨hle, hbytes⟩ := ih (List.append_inj_left' h rfl)
          refine ⟨by omega, ?_⟩
          rw [Nat.succ_sub_succ]
          exact hbytes

/-- How much padding the decoder adds before it reads. -/
theorem base64urlDecode_eq_ok {s : String} {out : List UInt8} :
    base64urlDecode s = .ok out ↔
      ∃ added, added ≤ 2 ∧
        ((utf8 (String.ofList (s.toList.map standardChar))).length + added) % 4 = 0 ∧
        decodeQuartets 0
          (utf8 (String.ofList (s.toList.map standardChar)) ++ List.replicate added 61) =
            .ok out := by
  have hsmall : ∀ n added : Nat, added ≤ 2 → (n + added) % 4 = 0 →
      n % 4 ≠ 1 ∧ added = (4 - n % 4) % 4 := by
    intro n added hadded hlen
    omega
  generalize hbytes : utf8 (String.ofList (s.toList.map standardChar)) = bytes
  unfold base64urlDecode base64StandardDecode
  dsimp only
  rw [hbytes]
  constructor
  · intro h
    by_cases htwo : bytes.length % 4 = 2
    · rw [if_pos htwo] at h
      exact ⟨2, le_rfl, by omega, (check_eq_ok.mp h).2⟩
    rw [if_neg htwo] at h
    by_cases hthree : bytes.length % 4 = 3
    · rw [if_pos hthree] at h
      exact ⟨1, by decide, by omega, (check_eq_ok.mp h).2⟩
    rw [if_neg hthree] at h
    by_cases hone : bytes.length % 4 = 1
    · rw [if_pos hone] at h
      cases h
    rw [if_neg hone] at h
    refine ⟨0, by decide, by omega, ?_⟩
    rw [List.replicate_zero, List.append_nil]
    exact (check_eq_ok.mp h).2
  · rintro ⟨added, hadded, hlen, h⟩
    obtain ⟨hone, heq⟩ := hsmall _ _ hadded hlen
    have hlength : (bytes ++ List.replicate added 61).length % 4 = 0 := by
      rw [List.length_append, List.length_replicate]
      exact hlen
    by_cases htwo : bytes.length % 4 = 2
    · have hadd : added = 2 := by omega
      subst hadd
      rw [if_pos htwo]
      exact check_eq_ok.mpr ⟨not_not.mpr hlength, h⟩
    rw [if_neg htwo]
    by_cases hthree : bytes.length % 4 = 3
    · have hadd : added = 1 := by omega
      subst hadd
      rw [if_pos hthree]
      exact check_eq_ok.mpr ⟨not_not.mpr hlength, h⟩
    rw [if_neg hthree, if_neg hone]
    have hadd : added = 0 := by omega
    subst hadd
    rw [List.replicate_zero, List.append_nil] at h hlength
    exact check_eq_ok.mpr ⟨not_not.mpr hlength, h⟩

theorem utf8_ofList (cs : List Char) :
    utf8 (String.ofList cs) = cs.flatMap String.utf8EncodeChar := by
  rw [utf8_eq_flatMap, String.toList_ofList]

/-- A text is decoded exactly when it spells groups in either alphabet, with or without
its padding, and then to the bytes of the groups. -/
theorem decode_iff_spells {s : String} {out : List UInt8} :
    base64urlDecode s = .ok out ↔ ∃ body pads vs, Spells s body pads vs ∧ out = pack vs := by
  rw [base64urlDecode_eq_ok, utf8_ofList]
  constructor
  · rintro ⟨added, hadded, hlen, h⟩
    have hlength : ((s.toList.map standardChar).flatMap String.utf8EncodeChar ++
        List.replicate added 61).length % 4 = 0 := by
      rw [List.length_append, List.length_replicate]
      exact hlen
    obtain ⟨body, pads, vs, hsplit, hstands, hpads, rfl⟩ := stands_of_decode hlength h
    have hnot : (61 : UInt8) ∉ body := fun hin =>
      absurd (mem_alphabet hstands hin) pad_not_mem
    obtain ⟨hle, hbytes⟩ := split_pads hnot hsplit
    obtain ⟨chars, htext, hvalues⟩ := chars_of_bytes hstands hbytes
    have hbody : body.length = vs.length := hstands.length_eq
    rw [hsplit, List.length_append, List.length_replicate, hbody] at hlength
    exact ⟨chars, pads - added, vs, ⟨htext, hvalues, by omega, by omega⟩, rfl⟩
  · rintro ⟨body, pads, vs, hspells, rfl⟩
    obtain ⟨hbytes, hstands⟩ := bytes_of_chars pads hspells.values
    have hbody : (body.map standardByte).length = vs.length := hstands.length_eq
    have hcomplete := hspells.complete
    have hroom := hspells.room
    refine ⟨(4 - vs.length % 4) % 4 - pads, by omega, ?_, ?_⟩
    · rw [hspells.text, hbytes, List.length_append, List.length_replicate, hbody]
      omega
    · rw [hspells.text, hbytes, List.append_assoc, List.replicate_append_replicate,
        Nat.add_sub_cancel' hroom]
      exact decode_of_stands hstands (by omega) (by rw [hbody]; omega)

theorem pad_no_sextet {v : Nat} : ¬ sextet '=' = some v := by
  intro h
  exact not_stands_pad (sextet_eq_some.mp h).2

/-- A text spells in one way only. -/
theorem Spells.unique {s : String} {body body' : List Char} {pads pads' : Nat} {vs vs' : List Nat}
    (h : Spells s body pads vs) (h' : Spells s body' pads' vs') :
    body = body' ∧ pads = pads' ∧ vs = vs' := by
  have hpad : ∀ {cs : List Char} {ws : List Nat},
      List.Forall₂ (fun c v => sextet c = some v) cs ws → ∀ c ∈ cs, (c != '=') = true := by
    intro cs ws hvalues
    induction hvalues with
    | nil => nofun
    | cons hv _ ih =>
        refine List.forall_mem_cons.mpr ⟨?_, ih⟩
        rw [bne_iff_ne]
        rintro rfl
        exact pad_no_sextet hv
  have hbody : ∀ {cs : List Char} {ws : List Nat} {k : Nat},
      List.Forall₂ (fun c v => sextet c = some v) cs ws →
        (cs ++ List.replicate k '=').takeWhile (· != '=') = cs := by
    intro cs ws k hvalues
    rw [List.takeWhile_append_of_pos (hpad hvalues)]
    cases k with
    | zero => simp
    | succ k => simp [List.replicate_succ]
  have hsame : body = body' := by
    rw [← @hbody body vs pads h.values, ← @hbody body' vs' pads' h'.values, ← h.text, ← h'.text]
  subst hsame
  refine ⟨rfl, ?_, ?_⟩
  · have hlen := congrArg List.length (h.text.symm.trans h'.text)
    simpa using hlen
  · have hdet : Relator.RightUnique fun (c : Char) (v : Nat) => sextet c = some v :=
      fun c v w hv hw => Option.some.inj (hv.symm.trans hw)
    exact hdet.forall₂ h.values h'.values

/-! ## Canonical texts -/

theorem url_sextet : ∀ v < 64, sextet (URL_ALPHABET[v]?.getD 'A') = some v ∧
    URL_ALPHABET[v]?.getD 'A' ≠ '+' ∧ URL_ALPHABET[v]?.getD 'A' ≠ '/' := by
  decide

/-- A character with a value is the URL-safe one, or one of the two it replaces. -/
theorem eq_url_of_sextet {c : Char} {v : Nat} (h : sextet c = some v) (hplus : c ≠ '+')
    (hslash : c ≠ '/') : c = URL_ALPHABET[v]?.getD 'A' := by
  obtain ⟨hascii, hstands⟩ := sextet_eq_some.mp h
  obtain ⟨hurl, hplus', hslash'⟩ := url_sextet v (value_lt hstands)
  obtain ⟨hascii', hstands'⟩ := sextet_eq_some.mp hurl
  have hbyte : standardByte c = standardByte (URL_ALPHABET[v]?.getD 'A') :=
    byte_of_stands hstands hstands'
  exact standardChar_inj hplus hslash hplus' hslash' (standardChar_of_byte hascii hascii' hbyte)

/-- The encoding of a byte string spells its groups, without padding. -/
theorem spells_encode (bytes : List UInt8) :
    Spells (base64urlEncode bytes) (base64urlEncode bytes).toList 0 (unpack bytes) := by
  have hvalues : ∀ {vs : List Nat}, (∀ v ∈ vs, v < 64) →
      List.Forall₂ (fun c v => sextet c = some v) (vs.map fun v => URL_ALPHABET[v]?.getD 'A')
        vs := by
    intro vs hsmall
    induction vs with
    | nil => exact .nil
    | cons v rest ih =>
        obtain ⟨hv, hrest⟩ := List.forall_mem_cons.mp hsmall
        exact .cons (url_sextet v hv).1 (ih hrest)
  refine ⟨(List.append_nil _).symm, ?_, (unpack_tight bytes).length, Nat.zero_le _⟩
  rw [base64urlEncode, String.toList_ofList]
  exact hvalues unpack_lt

/-- Every byte string is recovered from its encoding. -/
theorem decode_encode (bytes : List UInt8) :
    base64urlDecode (base64urlEncode bytes) = .ok bytes := by
  rw [decode_iff_spells]
  refine ⟨(base64urlEncode bytes).toList, 0, unpack bytes, spells_encode bytes, ?_⟩
  rw [pack_unpack]

theorem sextet_lt {c : Char} {v : Nat} (h : sextet c = some v) : v < 64 :=
  value_lt (sextet_eq_some.mp h).2

/-- A strict spelling is the encoding of its bytes. -/
theorem Spells.eq_encode {s : String} {body : List Char} {pads : Nat} {vs : List Nat}
    (h : Spells s body pads vs) (hstrict : Strict body pads vs) :
    s = base64urlEncode (pack vs) := by
  obtain ⟨hchars, rfl, htight⟩ := hstrict
  have hmap : ∀ {cs : List Char} {ws : List Nat},
      List.Forall₂ (fun c v => sextet c = some v) cs ws → (∀ c ∈ cs, c ≠ '+' ∧ c ≠ '/') →
        cs = ws.map (fun v => URL_ALPHABET[v]?.getD 'A') ∧ ∀ v ∈ ws, v < 64 := by
    intro cs ws hvalues
    induction hvalues with
    | nil => exact fun _ => ⟨rfl, nofun⟩
    | cons hv _ ih =>
        intro hsafe
        obtain ⟨⟨hplus, hslash⟩, hrest⟩ := List.forall_mem_cons.mp hsafe
        obtain ⟨heq, hsmall⟩ := ih hrest
        exact ⟨by rw [List.map_cons, ← heq, ← eq_url_of_sextet hv hplus hslash],
          List.forall_mem_cons.mpr ⟨sextet_lt hv, hsmall⟩⟩
  obtain ⟨hbody, hsmall⟩ := hmap h.values hchars
  have htext := h.text
  rw [List.replicate_zero, List.append_nil, hbody] at htext
  rw [base64urlEncode, unpack_pack hsmall htight, ← htext, String.ofList_toList]

/-- Decoding is canonical on exactly the texts that are spelled strictly, if at all. -/
theorem canonical_iff (s : String) :
    Canonical s ↔ ∀ body pads vs, Spells s body pads vs → Strict body pads vs := by
  constructor
  · intro hcanonical body pads vs hspells
    have hencoded := (hcanonical _).mp (decode_iff_spells.mpr ⟨body, pads, vs, hspells, rfl⟩)
    have hspells' := spells_encode (pack vs)
    rw [← hencoded] at hspells'
    obtain ⟨hbody, hpads, hvs⟩ := hspells.unique hspells'
    refine ⟨fun c hc => ?_, hpads, hvs ▸ unpack_tight (pack vs)⟩
    rw [hbody, hencoded, base64urlEncode, String.toList_ofList] at hc
    obtain ⟨v, hv, rfl⟩ := List.mem_map.mp hc
    exact (url_sextet v (unpack_lt v hv)).2
  · intro hstrict out
    constructor
    · intro h
      obtain ⟨body, pads, vs, hspells, rfl⟩ := decode_iff_spells.mp h
      exact hspells.eq_encode (hstrict body pads vs hspells)
    · rintro rfl
      exact decode_encode out

/-- The text of one zero byte with an unused bit set is accepted. -/
theorem unused_bit_is_accepted : ¬ Canonical "AB" := by
  intro h
  have hdecode : base64urlDecode "AB" = .ok [0] := by rfl
  exact absurd ((h [0]).mp hdecode) (by decide)

end Base64Url
end Worker
end ComputePool
