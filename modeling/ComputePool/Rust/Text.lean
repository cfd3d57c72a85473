import ComputePool.Rust.Bytes

/-!
# Text

Rust strings are Lean strings, read as their list of characters.  This file has
the `str` operations the modelled code uses, and the `hex` encoding of byte
strings (lower case when written, either case when read).
-/

namespace RustStd

/-- The characters with Unicode property `White_Space`, which `str::trim`
removes. -/
def isWhiteSpace (c : Char) : Bool :=
  let n := c.toNat
  (0x09 ≤ n && n ≤ 0x0d) || n == 0x20 || n == 0x85 || n == 0xa0 || n == 0x1680 ||
    (0x2000 ≤ n && n ≤ 0x200a) || n == 0x2028 || n == 0x2029 || n == 0x202f ||
    n == 0x205f || n == 0x3000

/-- `str::trim`. -/
def trim (s : List Char) : List Char :=
  ((s.dropWhile isWhiteSpace).reverse.dropWhile isWhiteSpace).reverse

/-- `str::strip_prefix`. -/
def stripPrefix : List Char → List Char → Option (List Char)
  | [], s => some s
  | _ :: _, [] => none
  | p :: ps, c :: cs => if p = c then stripPrefix ps cs else none

/-- `str::strip_suffix`. -/
def stripSuffix (suffix s : List Char) : Option (List Char) :=
  (stripPrefix suffix.reverse s.reverse).map List.reverse

/-- `str::trim_start_matches("0x")`: the marker is removed as often as it
repeats. -/
def trimStart0x : List Char → List Char
  | '0' :: 'x' :: rest => trimStart0x rest
  | s => s

/-- One hexadecimal digit, lower case. -/
def hexDigit (n : Nat) : Char :=
  if n < 10 then Char.ofNat (48 + n) else Char.ofNat (87 + n)

/-- The value of a hexadecimal digit, either case. -/
def hexValue (c : Char) : Option Nat :=
  let n := c.toNat
  if 48 ≤ n ∧ n ≤ 57 then some (n - 48)
  else if 97 ≤ n ∧ n ≤ 102 then some (n - 87)
  else if 65 ≤ n ∧ n ≤ 70 then some (n - 55)
  else none

/-- The two digits of one byte. -/
def hexByte (b : UInt8) : List Char :=
  [hexDigit (b.toNat / 16), hexDigit (b.toNat % 16)]

/-- `hex::encode`, as characters. -/
def hexChars (bytes : List UInt8) : List Char := bytes.flatMap hexByte

/-- `hex::encode`. -/
def hexEncode (bytes : List UInt8) : String := String.ofList (hexChars bytes)

/-- `hex::decode`: pairs of digits, and nothing else. -/
def hexDecode : List Char → Option (List UInt8)
  | [] => some []
  | [_] => none
  | hi :: lo :: rest =>
      match hexValue hi, hexValue lo, hexDecode rest with
      | some h, some l, some bytes => some (UInt8.ofNat (16 * h + l) :: bytes)
      | _, _, _ => none

theorem hexValue_hexDigit : ∀ n < 16, hexValue (hexDigit n) = some n := by
  decide

theorem hexDecode_hexChars (bytes : List UInt8) :
    hexDecode (hexChars bytes) = some bytes := by
  induction bytes with
  | nil => rfl
  | cons b rest ih =>
      have hb : b.toNat < 256 := b.toNat_lt
      have hhi := hexValue_hexDigit (b.toNat / 16) (by omega)
      have hlo := hexValue_hexDigit (b.toNat % 16) (by omega)
      have hbyte : UInt8.ofNat (16 * (b.toNat / 16) + b.toNat % 16) = b := by
        rw [Nat.div_add_mod]
        exact UInt8.ofNat_toNat
      change hexDecode (hexByte b ++ hexChars rest) = some (b :: rest)
      simp [hexByte, hexDecode, hhi, hlo, ih, hbyte]

/-- Every character `hex::encode` writes is a hexadecimal digit. -/
theorem hexDigit_mem {bytes : List UInt8} {c : Char} (h : c ∈ hexChars bytes) :
    ∃ n < 16, c = hexDigit n := by
  obtain ⟨b, -, hc⟩ := List.mem_flatMap.mp h
  have hb : b.toNat < 256 := b.toNat_lt
  simp only [hexByte, List.mem_cons, List.not_mem_nil, or_false] at hc
  rcases hc with rfl | rfl
  · exact ⟨_, by omega, rfl⟩
  · exact ⟨_, by omega, rfl⟩

theorem hexDigit_not_whiteSpace : ∀ n < 16, isWhiteSpace (hexDigit n) = false := by
  decide

theorem hexDigit_ne_x : ∀ n < 16, hexDigit n ≠ 'x' := by
  decide

theorem hexChars_length (bytes : List UInt8) :
    (hexChars bytes).length = 2 * bytes.length := by
  induction bytes with
  | nil => rfl
  | cons b rest ih =>
      change (hexByte b ++ hexChars rest).length = _
      simp [hexByte, ih]
      omega

theorem hexChars_injective : Function.Injective hexChars := by
  intro a b h
  have := congrArg hexDecode h
  simpa [hexDecode_hexChars] using this

/-- Text that neither starts nor ends with white space survives `trim`. -/
theorem trim_of_no_whiteSpace {s : List Char}
    (h : ∀ c ∈ s, isWhiteSpace c = false) : trim s = s := by
  have hdrop : ∀ t : List Char, (∀ c ∈ t, isWhiteSpace c = false) →
      t.dropWhile isWhiteSpace = t := by
    intro t ht
    cases t with
    | nil => rfl
    | cons c rest => simp [ht c (by simp)]
  unfold trim
  rw [hdrop s h, hdrop s.reverse (by simpa using h), List.reverse_reverse]

theorem stripPrefix_append (p s : List Char) : stripPrefix p (p ++ s) = some s := by
  induction p with
  | nil => rfl
  | cons c rest ih => simp [stripPrefix, ih]

theorem stripPrefix_eq_some {front s rest : List Char} :
    stripPrefix front s = some rest ↔ s = front ++ rest := by
  induction front generalizing s with
  | nil => simp [stripPrefix, eq_comm]
  | cons c front ih =>
      cases s with
      | nil => simp [stripPrefix]
      | cons d s =>
          by_cases hc : c = d
          · simp [stripPrefix, hc, ih]
          · simp [stripPrefix, hc, Ne.symm hc]

/-- `str::split_once`: what stands before and after the first occurrence. -/
def splitOnce (sep : List Char) : List Char → Option (List Char × List Char)
  | [] => if sep = [] then some ([], []) else none
  | c :: s =>
      match stripPrefix sep (c :: s) with
      | some rest => some ([], rest)
      | none => (splitOnce sep s).map fun r => (c :: r.1, r.2)

theorem splitOnce_eq_some {sep s front back : List Char}
    (h : splitOnce sep s = some (front, back)) : s = front ++ (sep ++ back) := by
  induction s generalizing front with
  | nil =>
      rw [splitOnce] at h
      split at h
      · rename_i hsep
        cases h
        rw [hsep]
        rfl
      · cases h
  | cons c s ih =>
      rw [splitOnce] at h
      split at h
      · rename_i rest hrest
        cases h
        rw [List.nil_append]
        exact stripPrefix_eq_some.mp hrest
      · obtain ⟨⟨front', back'⟩, hsplit, heq⟩ := Option.map_eq_some_iff.mp h
        cases heq
        rw [ih hsplit]
        rfl

/-- The first occurrence is where nothing before it starts one. -/
theorem splitOnce_append {c : Char} {sep front : List Char} (h : c ∉ front) (back : List Char) :
    splitOnce (c :: sep) (front ++ (c :: sep ++ back)) = some (front, back) := by
  induction front with
  | nil => rw [List.nil_append, List.cons_append, splitOnce, ← List.cons_append,
      stripPrefix_append]
  | cons d front ih =>
      have hne : c ≠ d := fun h' => h (h' ▸ List.mem_cons_self)
      rw [List.cons_append, splitOnce, stripPrefix, if_neg hne,
        ih fun h' => h (List.mem_cons_of_mem _ h')]
      rfl

/-- A character is not before its first occurrence. -/
theorem not_mem_of_splitOnce {c : Char} {s front back : List Char}
    (h : splitOnce [c] s = some (front, back)) : c ∉ front := by
  induction s generalizing front with
  | nil => cases h
  | cons d s ih =>
      rw [splitOnce] at h
      split at h
      · cases h
        exact List.not_mem_nil
      · rename_i hnone
        obtain ⟨⟨front', back'⟩, hsplit, heq⟩ := Option.map_eq_some_iff.mp h
        cases heq
        have hne : c ≠ d := by
          rintro rfl
          simp [stripPrefix] at hnone
        exact fun hin => (List.mem_cons.mp hin).elim hne (ih hsplit)

/-- Hexadecimal digits never start with the marker `0x`. -/
theorem trimStart0x_hexChars (bytes : List UInt8) :
    trimStart0x (hexChars bytes) = hexChars bytes := by
  cases hs : hexChars bytes with
  | nil => rfl
  | cons c rest =>
      cases rest with
      | nil => rw [trimStart0x]; simp
      | cons d rest =>
          have hd : d ∈ hexChars bytes := by simp [hs]
          obtain ⟨n, hn, rfl⟩ := hexDigit_mem hd
          rw [trimStart0x]
          intro tail hmarker
          exact hexDigit_ne_x n hn (List.cons.inj (List.cons.inj hmarker).2).1

/-! ## UTF-8 -/

/-- `str::as_bytes`. -/
def utf8 (s : String) : List UInt8 := s.toByteArray.data.toList

/-- `String::from_utf8`. -/
def fromUtf8 (bytes : List UInt8) : Option String := String.fromUTF8? ⟨bytes.toArray⟩

theorem fromUtf8_utf8 (s : String) : fromUtf8 (utf8 s) = some s := by
  have hbytes : (⟨(utf8 s).toArray⟩ : ByteArray) = s.toByteArray := by simp [utf8]
  rw [fromUtf8, hbytes, String.fromUTF8?, dif_pos s.isValidUTF8]
  rfl

theorem utf8_of_fromUtf8 {bytes : List UInt8} {s : String} (h : fromUtf8 bytes = some s) :
    utf8 s = bytes := by
  rw [fromUtf8, String.fromUTF8?] at h
  split at h
  · cases h
    simp [utf8, String.fromUTF8]
  · cases h

theorem utf8_injective : Function.Injective utf8 := by
  intro a b h
  have hback := fromUtf8_utf8 a
  rw [h, fromUtf8_utf8] at hback
  exact (Option.some.inj hback).symm

/-- A byte below 128 of the encoding of a character is that character. -/
theorem utf8EncodeChar_ascii {c : Char} {b : UInt8} (h : b ∈ String.utf8EncodeChar c)
    (hascii : b.toNat < 128) : b.toNat = c.toNat := by
  have hmod : ∀ n, (UInt8.ofNat n).toNat = n % 256 := fun n => UInt8.toNat_ofNat'
  have hval : c.toNat = c.val.toNat := rfl
  unfold String.utf8EncodeChar at h
  dsimp only at h
  split at h
  · obtain rfl := List.mem_singleton.mp h
    rw [hmod, hval]
    omega
  -- The bytes of a longer encoding all have their high bit set.
  · exfalso
    split at h
    · simp only [List.mem_cons, List.not_mem_nil, or_false] at h
      rcases h with rfl | rfl <;> rw [hmod] at hascii <;> omega
    · split at h
      · simp only [List.mem_cons, List.not_mem_nil, or_false] at h
        rcases h with rfl | rfl | rfl <;> rw [hmod] at hascii <;> omega
      · simp only [List.mem_cons, List.not_mem_nil, or_false] at h
        rcases h with rfl | rfl | rfl | rfl <;> rw [hmod] at hascii <;> omega

theorem utf8_eq_flatMap (s : String) : utf8 s = s.toList.flatMap String.utf8EncodeChar := by
  rw [utf8, ← String.utf8Encode_toList, List.utf8Encode]
  simp

/-- A byte below 128 of a text is one of its characters. -/
theorem mem_utf8_ascii {s : String} {b : UInt8} (h : b ∈ utf8 s) (hascii : b.toNat < 128) :
    ∃ c ∈ s.toList, c.toNat = b.toNat := by
  rw [utf8_eq_flatMap] at h
  obtain ⟨c, hc, hb⟩ := List.mem_flatMap.mp h
  exact ⟨c, hc, (utf8EncodeChar_ascii hb hascii).symm⟩

theorem utf8_append (s t : String) : utf8 (s ++ t) = utf8 s ++ utf8 t := by
  rw [utf8_eq_flatMap, utf8_eq_flatMap, utf8_eq_flatMap, String.toList_append,
    List.flatMap_append]

/-- `str::len` counts the bytes of every character. -/
theorem utf8ByteSize_ofList (chars : List Char) :
    (String.ofList chars).utf8ByteSize = (chars.flatMap String.utf8EncodeChar).length := by
  have hbytes := utf8_eq_flatMap (String.ofList chars)
  rw [String.toList_ofList] at hbytes
  rw [← hbytes]
  rfl

theorem utf8Size_of_hexValue {c : Char} {n : Nat} (h : hexValue c = some n) : c.utf8Size = 1 := by
  have hsmall : c.toNat < 128 := by
    unfold hexValue at h
    dsimp only at h
    split at h
    · omega
    split at h
    · omega
    split at h
    · omega
    · cases h
  rw [Char.utf8Size, if_pos]
  exact Nat.le_of_lt_succ hsmall

/-- A string that decodes has two characters, of a byte each, for every byte. -/
theorem utf8ByteSize_of_hexDecode {chars : List Char} {bytes : List UInt8}
    (h : hexDecode chars = some bytes) :
    (String.ofList chars).utf8ByteSize = 2 * bytes.length := by
  rw [utf8ByteSize_ofList]
  induction chars using hexDecode.induct generalizing bytes with
  | case1 =>
      cases h
      rfl
  | case2 c => cases h
  | case3 hi lo rest n m decoded hrest hlo hhi ih =>
      simp only [hexDecode, hhi, hlo, hrest] at h
      cases h
      rw [List.flatMap_cons, List.flatMap_cons, List.length_append, List.length_append, ih hrest,
        String.length_utf8EncodeChar, String.length_utf8EncodeChar, utf8Size_of_hexValue hhi,
        utf8Size_of_hexValue hlo, List.length_cons]
      omega
  | case4 hi lo rest hnone ih =>
      unfold hexDecode at h
      split at h
      · rename_i hhi hlo hrest
        exact (hnone _ _ _ hhi hlo hrest).elim
      · cases h

end RustStd
