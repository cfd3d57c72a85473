import ComputePool.Lib.AbiLayout
import ComputePool.PoolCoordinator.Events
import ComputePool.Rust.Slice

/-!
# The returns of the pool contract

`fetch_job_spec` reads a byte string inside a byte string, at offsets and lengths the
node names; the other reads have the same helpers.  Here the slices and the additions of
the decoders can panic as the source's can.  None does on any return, and what the
documented layouts encode is read back, but for the values the decoders clamp or replace.
-/

namespace ComputePool
namespace PoolCoordinator

open RustStd Federated AbiLayout

/-- `usize::checked_add`. -/
def checkedAddUsize (a b : Nat) : Option Nat := if a + b ≤ u64Max then some (a + b) else none

/-- `decode_dynamic_bytes_at_offset`, slice by slice. -/
def decodeDynamicBytesChecked (overflowChecks : Bool) (buf : List UInt8) (offsetWordPos : Nat) :
    Checked JobSpecError (List UInt8) := do
  let wordEnd ← addUsize overflowChecks offsetWordPos 32
  if buf.length < wordEnd then
    .error (.err (.offsetWord offsetWordPos buf.length))
  let offsetWord ← slice buf offsetWordPos wordEnd
  let offset ← checked (usizeWord (beNat offsetWord))
  let offsetEnd ← checked (okOr (checkedAddUsize offset 32) (.overflow offset))
  if buf.length < offsetEnd then
    .error (.err (.lengthWord offset buf.length))
  let lenWord ← slice buf offset offsetEnd
  let len ← checked (usizeWord (beNat lenWord))
  let dataEnd ← checked (okOr (checkedAddUsize offsetEnd len) (.overflow len))
  if buf.length < dataEnd then
    .error (.err (.truncated len buf.length))
  slice buf offsetEnd dataEnd

/-- What `fetch_job_spec` makes of the return of `getJob`, slice by slice: the prompt and
the bound on its tokens. -/
def decodeJobSpecChecked (overflowChecks : Bool) (ret : List UInt8) :
    Checked JobSpecError (String × Nat) := do
  if ret.length < 256 then
    .error (.err (.tooShort "PoolJob return" ret.length))
  let jobspecBytes ← decodeDynamicBytesChecked overflowChecks ret 64
  if jobspecBytes.isEmpty then .ok ("", DEFAULT_MAX_TOKENS)
  else
    if jobspecBytes.length < 224 then
      .error (.err (.tooShort "PoolJobSpec" jobspecBytes.length))
    let maxTokensWord ← slice jobspecBytes 128 160
    let maxTokens :=
      if beNat maxTokensWord > u32Max then u32Max
      else if beNat maxTokensWord = 0 then DEFAULT_MAX_TOKENS else beNat maxTokensWord
    let inputBytes ← decodeDynamicBytesChecked overflowChecks jobspecBytes 96
    .ok (promptOf inputBytes, maxTokens)

/-! ## The documented layouts -/

/-- `PoolJobSpec` of the contract. -/
structure PoolJobSpec where
  version : UInt8
  mode : UInt8
  modelHash : H256
  inputData : List UInt8
  maxTokens : UInt32
  verificationTier : UInt8
  batchSize : UInt32

/-- `PoolJob` of the contract; a legacy job has no specification. -/
structure PoolJob where
  poolId : H256
  requester : H160
  jobSpec : Option PoolJobSpec
  payment : H256
  status : UInt8
  createdAt : H256
  dispatchBlock : H256
  dispatchedBy : H160

/-- `PoolMember` of the contract. -/
structure PoolMember where
  gpuCount : H256
  stake : H256
  activeJobs : H256
  joinedAt : H256
  active : Bool

def PoolJobSpec.encoded (spec : PoolJobSpec) : List UInt8 :=
  AbiLayout.encode [.word (u256Word spec.version.toNat), .word (u256Word spec.mode.toNat),
    .word spec.modelHash.toBytes, .bytes spec.inputData, .word (u256Word spec.maxTokens.toNat),
    .word (u256Word spec.verificationTier.toNat), .word (u256Word spec.batchSize.toNat)]

/-- The bytes of the third field. -/
def PoolJob.specBytes (job : PoolJob) : List UInt8 := (job.jobSpec.map PoolJobSpec.encoded).getD []

def PoolJob.encoded (job : PoolJob) : List UInt8 :=
  AbiLayout.encode [.word job.poolId.toBytes, .word (padAddressLeft job.requester),
    .bytes job.specBytes, .word job.payment.toBytes, .word (u256Word job.status.toNat),
    .word job.createdAt.toBytes, .word job.dispatchBlock.toBytes,
    .word (padAddressLeft job.dispatchedBy)]

def PoolMember.encoded (m : PoolMember) : List UInt8 :=
  AbiLayout.encode [.word m.gpuCount.toBytes, .word m.stake.toBytes, .word m.activeJobs.toBytes,
    .word m.joinedAt.toBytes, .word (u256Word m.active.toNat)]

def encodedAddresses (addrs : List H160) : List UInt8 :=
  AbiLayout.encode [.words (addrs.map padAddressLeft)]

/-- What a job asks for: without a specification the defaults, and the default bound for
a specification that names none. -/
def PoolJob.request (job : PoolJob) : String × Nat :=
  match job.jobSpec with
  | none => ("", DEFAULT_MAX_TOKENS)
  | some spec =>
      (promptOf spec.inputData,
        if spec.maxTokens = 0 then DEFAULT_MAX_TOKENS else spec.maxTokens.toNat)

/-! ## No return makes a decoder panic -/

/-- The checked addition is the comparison with `usize::MAX`. -/
theorem checkedAddUsize_bind {α : Type} (a b : Nat) (e : JobSpecError)
    (next : Nat → Checked JobSpecError α) :
    (checked (okOr (checkedAddUsize a b) e) >>= next) =
      if a + b > u64Max then .error (.err e) else next (a + b) := by
  unfold checkedAddUsize
  by_cases h : a + b ≤ u64Max
  · rw [if_pos h, if_neg (by omega)]
    rfl
  · rw [if_neg h, if_pos (by omega)]
    rfl

theorem checked_ite {ε α : Type} {c : Prop} [Decidable c] (e : ε) (r : Except ε α) :
    (if c then .error (.err e) else checked r) = checked (if c then .error e else r) := by
  by_cases h : c
  · rw [if_pos h, if_pos h]
    rfl
  · rw [if_neg h, if_neg h]

/-- The word a slice cuts out. -/
theorem slice_bind_word {α : Type} {buf : List UInt8} {pos : Nat} (h : pos + 32 ≤ buf.length)
    (next : List UInt8 → Checked JobSpecError α) :
    (slice buf pos (pos + 32) >>= next) = next ((buf.drop pos).take 32) := by
  rw [bind_of_ok (slice_of_le (Nat.le_add_right _ _) h), Nat.add_sub_cancel_left]

/-- Every slice is in range and no addition overflows. -/
theorem decodeDynamicBytesChecked_eq (overflowChecks : Bool) (buf : List UInt8) {pos : Nat}
    (hpos : pos + 32 < 2 ^ 64) :
    decodeDynamicBytesChecked overflowChecks buf pos =
      checked (decodeDynamicBytesAtOffset buf pos) := by
  unfold decodeDynamicBytesChecked decodeDynamicBytesAtOffset
  rw [bind_of_ok (addUsize_of_lt hpos), ← checked_ite]
  dsimp only
  by_cases hbuf : buf.length < pos + 32
  · rw [if_pos hbuf, if_pos hbuf]
    rfl
  rw [if_neg hbuf, if_neg hbuf, slice_bind_word (by omega)]
  show (checked (usizeWord (wordAt buf pos)) >>= _) = _
  cases usizeWord (wordAt buf pos) with
  | error e => rfl
  | ok offset =>
      show _ = checked (if _ then _ else _)
      rw [bind_of_ok (checked_eq_ok.mpr rfl), checkedAddUsize_bind, ← checked_ite]
      refine if_congr Iff.rfl rfl ?_
      rw [← checked_ite]
      by_cases hword : buf.length < offset + 32
      · rw [if_pos hword, if_pos hword]
        rfl
      rw [if_neg hword, if_neg hword, slice_bind_word (by omega)]
      show (checked (usizeWord (wordAt buf offset)) >>= _) = _
      cases usizeWord (wordAt buf offset) with
      | error e => rfl
      | ok len =>
          show _ = checked (if _ then _ else _)
          rw [bind_of_ok (checked_eq_ok.mpr rfl), checkedAddUsize_bind, ← checked_ite]
          refine if_congr Iff.rfl rfl ?_
          rw [← checked_ite]
          by_cases hdata : buf.length < offset + 32 + len
          · rw [if_pos hdata, if_pos hdata]
            rfl
          rw [if_neg hdata, if_neg hdata, slice_of_le (by omega) (by omega),
            Nat.add_sub_cancel_left]
          rfl

theorem decodeJobSpecChecked_eq (overflowChecks : Bool) (ret : List UInt8) :
    decodeJobSpecChecked overflowChecks ret =
      checked ((decodeJobSpec ret).map fun r => (promptOf r.1, r.2)) := by
  unfold decodeJobSpecChecked decodeJobSpec
  dsimp only
  by_cases hshort : ret.length < 256
  · rw [if_pos hshort, if_pos hshort]
    rfl
  rw [if_neg hshort, if_neg hshort, decodeDynamicBytesChecked_eq _ _ (by decide)]
  cases decodeDynamicBytesAtOffset ret 64 with
  | error e => rfl
  | ok spec =>
      rw [bind_of_ok (checked_eq_ok.mpr rfl), bind_of_ok rfl]
      by_cases hempty : spec.isEmpty = true
      · rw [if_pos hempty, if_pos hempty]
        rfl
      rw [if_neg hempty, if_neg hempty]
      by_cases hshort' : spec.length < 224
      · rw [if_pos hshort', if_pos hshort']
        rfl
      rw [if_neg hshort', if_neg hshort', slice_bind_word (by omega),
        decodeDynamicBytesChecked_eq _ _ (by decide)]
      cases decodeDynamicBytesAtOffset spec 96 <;> rfl

theorem returns_decodeDynamicBytes (overflowChecks : Bool) (buf : List UInt8) {pos : Nat}
    (hpos : pos + 32 < 2 ^ 64) : Returns (decodeDynamicBytesChecked overflowChecks buf pos) := by
  rw [decodeDynamicBytesChecked_eq _ _ hpos]
  exact returns_checked _

theorem returns_decodeJobSpec (overflowChecks : Bool) (ret : List UInt8) :
    Returns (decodeJobSpecChecked overflowChecks ret) := by
  rw [decodeJobSpecChecked_eq]
  exact returns_checked _

theorem returns_u256ToUsize (v : Nat) : Returns (u256ToUsize v) := by
  unfold u256ToUsize
  exact returns_ite (fun _ => returns_error _) fun _ => returns_ok _

theorem addressArrayBytes_eq_some {len n : Nat} (h : addressArrayBytes len = some n) :
    n = len * 32 + 64 := by
  unfold addressArrayBytes at h
  split_ifs at h
  exact (Option.some.inj h).symm

theorem returns_decodeMemberStruct (bytes : List UInt8) : Returns (decodeMemberStruct bytes) := by
  unfold decodeMemberStruct
  dsimp only
  refine returns_ite (fun _ => returns_error _) fun hlong => ?_
  refine (returns_slice (by decide) (by omega)).bind fun gpuWord _ => ?_
  refine (returns_slice (by decide) (by omega)).bind fun activeByte _ => ?_
  exact returns_ok _

theorem returns_addressWord {bytes : List UInt8} {i : Nat} (h : 64 + i * 32 + 32 ≤ bytes.length) :
    Returns (addressWord bytes i) := by
  unfold addressWord
  refine (returns_slice (by omega) h).bind fun word hword => ?_
  have hlen := slice_length hword
  refine (returns_slice (by decide) (by omega)).bind fun tail htail => ?_
  have hlen' := slice_length htail
  rw [addressFromSlice, dif_pos hlen']
  exact returns_ok _

theorem returns_decodeAddressArray (bytes : List UInt8) : Returns (decodeAddressArray bytes) := by
  unfold decodeAddressArray
  dsimp only
  refine returns_ite (fun _ => returns_error _) fun hlong => ?_
  refine (returns_slice (by decide) (by omega)).bind fun lenWord _ => ?_
  refine (returns_u256ToUsize _).bind fun len _ => ?_
  refine (returns_checked _).bind fun expected hexpected => ?_
  have hbytes := addressArrayBytes_eq_some (okOr_eq_ok.mp (checked_eq_ok.mp hexpected))
  refine returns_ite (fun _ => returns_error _) fun hall => ?_
  refine returns_mapM fun i hi => returns_addressWord ?_
  have hi' := List.mem_range.mp hi
  omega

/-! ## Well-formed text -/

theorem toNat_byte {n : Nat} (h : n < 256) : (UInt8.ofNat n).toNat = n := by
  rw [UInt8.toNat_ofNat', Nat.mod_eq_of_lt h]

theorem isContinuation_ofNat {n : Nat} (h : n < 64) :
    isContinuation (UInt8.ofNat (n + 0x80)) = true := by
  simp [isContinuation, UInt8.le_iff_toNat_le]
  omega

/-- A second byte in the range that the first byte leaves it. -/
theorem isSecond_ofNat {a n : Nat} (ha : a < 256) (h : n < 64) (he0 : a = 0xE0 → 0x20 ≤ n)
    (hed : a = 0xED → n < 0x20) (hf0 : a = 0xF0 → 0x10 ≤ n) (hf4 : a = 0xF4 → n < 0x10) :
    isSecond (UInt8.ofNat a) (UInt8.ofNat (n + 0x80)) = true := by
  have hfirst : ∀ k < 256, UInt8.ofNat a = UInt8.ofNat k → a = k := by
    intro k hk heq
    rw [← toNat_byte ha, heq, toNat_byte hk]
  unfold isSecond
  split_ifs with h₁ h₂ h₃ h₄
  · have := he0 (hfirst 0xE0 (by decide) h₁)
    simp [UInt8.le_iff_toNat_le]
    omega
  · have := hed (hfirst 0xED (by decide) h₂)
    simp [UInt8.le_iff_toNat_le]
    omega
  · have := hf0 (hfirst 0xF0 (by decide) h₃)
    simp [UInt8.le_iff_toNat_le]
    omega
  · have := hf4 (hfirst 0xF4 (by decide) h₄)
    simp [UInt8.le_iff_toNat_le]
    omega
  · exact isContinuation_ofNat h

theorem utf8Width_ofNat {n : Nat} (h : n < 256) : utf8Width (UInt8.ofNat n) =
    if n < 0x80 then 1 else if 0xC2 ≤ n ∧ n ≤ 0xDF then 2
    else if 0xE0 ≤ n ∧ n ≤ 0xEF then 3 else if 0xF0 ≤ n ∧ n ≤ 0xF4 then 4 else 0 := by
  simp [utf8Width, UInt8.lt_iff_toNat_lt, UInt8.le_iff_toNat_le, Nat.mod_eq_of_lt h]

/-- The bytes behind the second are continuations. -/
theorem continued_eq {first second : UInt8} {rest : List UInt8}
    (hsecond : isSecond first second = true) (hwidth : utf8Width first = rest.length + 2)
    (hrest : ∀ b ∈ rest, isContinuation b = true) (more : List UInt8) :
    continued first (second :: rest ++ more) = rest.length + 1 := by
  rw [List.cons_append, continued, if_pos hsecond, hwidth, Nat.add_sub_cancel, List.take_left,
    List.takeWhile_eq_self_iff.mpr hrest, Nat.add_comm]

/-- The first byte of a character tells its width, and the bytes behind it continue it. -/
theorem sequence_of_char (c : Char) : ∃ first rest, String.utf8EncodeChar c = first :: rest ∧
    utf8Width first = rest.length + 1 ∧
    (rest ≠ [] → ∀ more, continued first (rest ++ more) = rest.length) ∧
    (rest = [] → Char.ofNat first.toNat = c) := by
  have hvalid : c.val.toNat < 0xD800 ∨ 0xDFFF < c.val.toNat ∧ c.val.toNat < 0x110000 := c.valid
  have hchar : Char.ofNat c.val.toNat = c := Char.ofNat_toNat c
  unfold String.utf8EncodeChar
  dsimp only
  generalize c.val.toNat = v at hvalid hchar
  split_ifs with h₁ h₂ h₃
  · refine ⟨_, _, rfl, ?_, fun h => absurd rfl h, fun _ => ?_⟩
    · rw [utf8Width_ofNat (by omega), if_pos (by omega)]
      rfl
    · rw [toNat_byte (by omega)]
      exact hchar
  · have hwidth : utf8Width (UInt8.ofNat (v / 64 % 0x20 + 0xc0)) = 2 := by
      rw [utf8Width_ofNat (by omega), if_neg (by omega), if_pos (by omega)]
    have hsecond := @isSecond_ofNat (v / 64 % 0x20 + 0xc0) (v % 0x40) (by omega) (by omega)
      (by omega) (by omega) (by omega) (by omega)
    exact ⟨_, _, rfl, hwidth, fun _ => continued_eq hsecond hwidth (by simp), nofun⟩
  · have hwidth : utf8Width (UInt8.ofNat (v / 4096 % 0x10 + 0xe0)) = 3 := by
      rw [utf8Width_ofNat (by omega), if_neg (by omega), if_neg (by omega), if_pos (by omega)]
    have hsecond := @isSecond_ofNat (v / 4096 % 0x10 + 0xe0) (v / 64 % 0x40) (by omega)
      (by omega) (by omega) (by omega) (by omega) (by omega)
    refine ⟨_, _, rfl, hwidth, fun _ => continued_eq hsecond hwidth ?_, nofun⟩
    exact List.forall_mem_singleton.mpr (isContinuation_ofNat (by omega))
  · have hwidth : utf8Width (UInt8.ofNat (v / 262144 % 0x08 + 0xf0)) = 4 := by
      rw [utf8Width_ofNat (by omega), if_neg (by omega), if_neg (by omega), if_neg (by omega),
        if_pos (by omega)]
    have hsecond := @isSecond_ofNat (v / 262144 % 0x08 + 0xf0) (v / 4096 % 0x40) (by omega)
      (by omega) (by omega) (by omega) (by omega) (by omega)
    refine ⟨_, _, rfl, hwidth, fun _ => continued_eq hsecond hwidth ?_, nofun⟩
    exact List.forall_mem_cons.mpr ⟨isContinuation_ofNat (by omega),
      List.forall_mem_singleton.mpr (isContinuation_ofNat (by omega))⟩

theorem fromUtf8_singleton (c : Char) :
    fromUtf8 (String.utf8EncodeChar c) = some (String.singleton c) := by
  have hbytes : utf8 (String.singleton c) = String.utf8EncodeChar c := by
    rw [utf8_eq_flatMap]
    simp
  rw [← hbytes, fromUtf8_utf8]

theorem fromUtf8Lossy_flatMap (chars : List Char) {fuel : Nat}
    (h : (chars.flatMap String.utf8EncodeChar).length ≤ fuel) :
    fromUtf8Lossy fuel (chars.flatMap String.utf8EncodeChar) = String.ofList chars := by
  induction chars generalizing fuel with
  | nil => cases fuel <;> rfl
  | cons c chars ih =>
      obtain ⟨first, rest, hbytes, hwidth, hcontinued, hascii⟩ := sequence_of_char c
      rw [List.flatMap_cons, List.length_append, hbytes, List.length_cons] at h
      obtain ⟨m, rfl⟩ : ∃ m, fuel = m + 1 := ⟨fuel - 1, by omega⟩
      have htext : String.ofList (c :: chars) = String.singleton c ++ String.ofList chars := by
        rw [← String.toList_inj]
        simp
      rw [List.flatMap_cons, hbytes, List.cons_append, fromUtf8Lossy, hwidth, htext]
      cases rest with
      | nil =>
          rw [List.length_nil, if_pos (Nat.zero_add 1), hascii rfl, List.nil_append, ih (by omega)]
      | cons second rest =>
          have hmore := hcontinued (List.cons_ne_nil _ _) (chars.flatMap String.utf8EncodeChar)
          have htake : fromUtf8 (first :: ((second :: rest ++
              chars.flatMap String.utf8EncodeChar).take (second :: rest).length)) =
              some (String.singleton c) := by
            rw [List.take_left, ← hbytes, fromUtf8_singleton]
          dsimp only
          rw [if_neg (by simp), if_neg (by simp), hmore, if_pos (Nat.add_comm _ _), htake,
            List.drop_left, ih (by omega)]
          rfl

/-- Well-formed text is read as it is. -/
theorem promptOf_utf8 (s : String) : promptOf (utf8 s) = s := by
  rw [promptOf, utf8_eq_flatMap, fromUtf8Lossy_flatMap _ (Nat.le_refl _), String.ofList_toList]

/-! ## Reading what the layouts encode -/

variable {front back : List Component} {data b w : List UInt8} {pos : Nat}

theorem slice_word {stop : Nat} (h : AbiLayout.wordAt data pos = some w) (hstop : stop = pos + 32) :
    (slice data pos stop : Checked ChainError (List UInt8)) = .ok w := by
  unfold AbiLayout.wordAt at h
  split_ifs at h with hin
  obtain rfl := Option.some.inj h
  rw [hstop, slice_of_le (by omega) hin, Nat.add_sub_cancel_left]

/-- A part of a byte string, cut out at its own place. -/
theorem slice_append (before part after : List UInt8) {start stop : Nat}
    (hstart : start = before.length) (hstop : stop = start + part.length) :
    (slice (before ++ (part ++ after)) start stop : Checked ChainError (List UInt8)) =
      .ok part := by
  rw [slice_of_le (by omega) (by simp; omega), hstop, hstart, Nat.add_sub_cancel_left,
    List.drop_left, List.take_left]

theorem u256ToUsize_ok {v : Nat} (h : v ≤ u64Max) : u256ToUsize v = .ok v := by
  rw [u256ToUsize, if_neg (by omega)]

theorem usizeWord_ok {v : Nat} (h : v ≤ u64Max) : usizeWord v = .ok v := by
  rw [usizeWord, if_neg (by omega)]

/-- The number a word of a layout stands for. -/
theorem wordAt_of_layout (h : AbiLayout.wordAt data pos = some w) : wordAt data pos = beNat w := by
  unfold AbiLayout.wordAt at h
  split_ifs at h
  exact congrArg beNat (Option.some.inj h)

/-- A byte string of a layout is read at its place. -/
theorem decodeDynamicBytes_encode (hfit : ∀ d ∈ front ++ .bytes b :: back, d.Fits)
    (hlen : (AbiLayout.encode (front ++ .bytes b :: back)).length ≤ isizeMax) :
    decodeDynamicBytesAtOffset (AbiLayout.encode (front ++ .bytes b :: back))
      (32 * front.length) = .ok b := by
  obtain ⟨before, htail, hbefore⟩ := encode_at_tail hfit
  have hword := wordAt_of_layout (wordAt_encode hfit)
  have hall := encode_length_at hfit
  have hoffset : 32 * front.length + 32 ≤ offset front back := by
    unfold offset
    omega
  have hmax : isizeMax < 2 ^ 63 := by decide
  have hu64 : u64Max = 2 ^ 64 - 1 := rfl
  simp only [Component.tail, List.length_append, toBE_length] at hall
  rw [Component.head, beNat_toBE (by omega)] at hword
  have hlenWord : wordAt (AbiLayout.encode (front ++ .bytes b :: back)) (offset front back) =
      b.length := by
    have hplace := wordAt_append before (toBE 32 b.length)
      ((b ++ List.replicate (Component.padding b.length) 0) ++ tails back) (toBE_length 32 _)
    rw [hbefore, ← List.append_assoc (toBE 32 b.length)] at hplace
    rw [htail, Component.tail, wordAt_of_layout hplace, beNat_toBE (by omega)]
  have hdata : ((AbiLayout.encode (front ++ .bytes b :: back)).drop
      (offset front back + 32)).take b.length = b := by
    have hstart : (before ++ toBE 32 b.length).length = offset front back + 32 := by
      rw [List.length_append, hbefore, toBE_length]
    rw [htail, Component.tail, List.append_assoc, List.append_assoc, ← List.append_assoc before,
      ← hstart, List.drop_left, List.take_left]
  unfold decodeDynamicBytesAtOffset
  rw [if_neg (by omega), hword, bind_of_ok (usizeWord_ok (by omega)), if_neg (by omega),
    if_neg (by omega), hlenWord, bind_of_ok (usizeWord_ok (by omega)), if_neg (by omega),
    if_neg (by omega), hdata]

theorem slice_wordAt_tail {k stop : Nat} (h : AbiLayout.wordAt data pos = some w) (hk : k ≤ 32)
    (hstop : stop = pos + 32) :
    (slice data (pos + k) stop : Checked ChainError (List UInt8)) = .ok (w.drop k) := by
  unfold AbiLayout.wordAt at h
  split_ifs at h with hin
  obtain rfl := Option.some.inj h
  rw [hstop, slice_of_le (by omega) hin, List.drop_take, List.drop_drop,
    Nat.add_sub_add_left]

theorem PoolMember.fit (m : PoolMember) :
    ∀ d ∈ [Component.word m.gpuCount.toBytes, .word m.stake.toBytes, .word m.activeJobs.toBytes,
      .word m.joinedAt.toBytes, .word (u256Word m.active.toNat)], d.Fits := by
  simp [Component.Fits, u256Word]

theorem decodeMemberStruct_encoded (m : PoolMember) :
    decodeMemberStruct m.encoded = .ok (min m.gpuCount.toNat u32Max, m.active) := by
  have hlength : m.encoded.length = 160 := by
    rw [PoolMember.encoded, encode_length m.fit]
    rfl
  have hgpu : AbiLayout.wordAt m.encoded 0 = some m.gpuCount.toBytes := @wordAt_encode [] _ _ m.fit
  have hactive : AbiLayout.wordAt m.encoded 128 = some (u256Word m.active.toNat) :=
    @wordAt_encode [.word m.gpuCount.toBytes, .word m.stake.toBytes, .word m.activeJobs.toBytes,
      .word m.joinedAt.toBytes] [] _ m.fit
  have hlast : (u256Word m.active.toNat).drop 31 = [UInt8.ofNat m.active.toNat] := by
    cases m.active <;> decide
  have hbyte := @slice_wordAt_tail _ _ _ 31 160 hactive (by decide) rfl
  unfold decodeMemberStruct
  dsimp only
  rw [if_neg (by omega), bind_of_ok (slice_word hgpu rfl), bind_of_ok hbyte, hlast]
  cases m.active <;> rfl

/-! ## Addresses -/

theorem addressFromSlice_toBytes (addr : H160) : addressFromSlice addr.toBytes = .ok addr :=
  dif_pos addr.toBytes_length

theorem padAddressLeft_length (addr : H160) : (padAddressLeft addr).length = 32 := by
  simp [padAddressLeft]

theorem addressWord_ok {i : Nat} {addr : H160}
    (h : AbiLayout.wordAt data (64 + i * 32) = some (padAddressLeft addr)) :
    addressWord data i = .ok addr := by
  have htail : (slice (padAddressLeft addr) 12 32 : Checked ChainError (List UInt8)) =
      .ok addr.toBytes := by
    rw [slice_of_le (by decide) (by rw [padAddressLeft_length]), padAddressLeft,
      List.drop_left' (by simp), List.take_of_length_le (by simp)]
  unfold addressWord
  dsimp only
  rw [bind_of_ok (slice_word h rfl), bind_of_ok htail, addressFromSlice_toBytes]

/-- A loop over the indices of a list that computes its elements. -/
theorem mapM_range_ok {α ε : Type} {f : Nat → Except ε α} {out : List α}
    (h : ∀ i (hi : i < out.length), f i = .ok out[i]) :
    (List.range out.length).mapM f = .ok out := by
  induction out generalizing f with
  | nil => rfl
  | cons a rest ih =>
      have hrest : (List.range rest.length).mapM (f ∘ Nat.succ) = .ok rest :=
        ih fun i hi => h (i + 1) (Nat.succ_lt_succ hi)
      have hfirst : f 0 = .ok a := h 0 (Nat.zero_lt_succ _)
      rw [List.length_cons, List.range_succ_eq_map, List.mapM_cons, bind_of_ok hfirst,
        List.mapM_map, hrest]
      rfl

theorem decodeAddressArray_encoded {addrs : List H160}
    (hlen : (encodedAddresses addrs).length ≤ isizeMax) :
    decodeAddressArray (encodedAddresses addrs) = .ok addrs := by
  have hws : ∀ w ∈ addrs.map padAddressLeft, w.length = 32 := by
    intro w hw
    obtain ⟨addr, -, rfl⟩ := List.mem_map.mp hw
    exact padAddressLeft_length addr
  have hfit : ∀ d ∈ [] ++ [Component.words (addrs.map padAddressLeft)], d.Fits := by
    simpa [Component.Fits] using hws
  obtain ⟨before, htail, hbefore⟩ := encode_at_tail hfit
  have hmax : isizeMax < 2 ^ 63 := by decide
  have hu64 : u64Max = 2 ^ 64 - 1 := rfl
  have hdata : encodedAddresses addrs =
      before ++ (toBE 32 addrs.length ++ ((addrs.map padAddressLeft).flatten ++ [])) := by
    rw [encodedAddresses, ← List.nil_append [Component.words _], htail]
    simp [Component.tail]
  have hflat : (addrs.map padAddressLeft).flatten.length = addrs.length * 32 := by
    rw [List.length_flatten, List.map_congr_left hws, List.map_const', List.sum_replicate,
      List.length_map, smul_eq_mul]
  have hbefore' : before.length = 32 := hbefore
  have hlength : (encodedAddresses addrs).length = 64 + addrs.length * 32 := by
    rw [hdata]
    simp only [List.length_append, toBE_length, hflat, hbefore', List.length_nil]
    omega
  have hcount : beNat (toBE 32 addrs.length) = addrs.length := beNat_toBE (by omega)
  have hlenWord : (slice (encodedAddresses addrs) 32 64 : Checked ChainError (List UInt8)) =
      .ok (toBE 32 addrs.length) := by
    rw [hdata]
    exact slice_append _ _ _ hbefore'.symm (by rw [toBE_length])
  have hexpected : addressArrayBytes addrs.length = some (addrs.length * 32 + 64) := by
    rw [addressArrayBytes, if_neg (by omega), if_neg (by omega)]
  unfold decodeAddressArray
  dsimp only
  rw [if_neg (by omega), bind_of_ok hlenWord, hcount, bind_of_ok (u256ToUsize_ok (by omega)),
    hexpected, bind_of_ok (checked_okOr_some _), if_neg (by omega)]
  refine mapM_range_ok fun i hi => addressWord_ok ?_
  have hi' : i < (addrs.map padAddressLeft).length := by rwa [List.length_map]
  have hword := @wordAt_words (before ++ toBE 32 addrs.length) [] _ i (64 + i * 32) hws hi'
    (by rw [List.length_append, toBE_length, hbefore'])
  rw [List.append_assoc, ← hdata, List.getElem_map] at hword
  exact hword

/-! ## Jobs -/

theorem PoolJobSpec.fit (spec : PoolJobSpec) :
    ∀ d ∈ [Component.word (u256Word spec.version.toNat), .word (u256Word spec.mode.toNat),
      .word spec.modelHash.toBytes, .bytes spec.inputData, .word (u256Word spec.maxTokens.toNat),
      .word (u256Word spec.verificationTier.toNat), .word (u256Word spec.batchSize.toNat)],
      d.Fits := by
  simp [Component.Fits, u256Word]

theorem PoolJob.fit (job : PoolJob) :
    ∀ d ∈ [Component.word job.poolId.toBytes, .word (padAddressLeft job.requester),
      .bytes job.specBytes, .word job.payment.toBytes, .word (u256Word job.status.toNat),
      .word job.createdAt.toBytes, .word job.dispatchBlock.toBytes,
      .word (padAddressLeft job.dispatchedBy)], d.Fits := by
  simp [Component.Fits, u256Word, padAddressLeft]

theorem PoolJobSpec.encoded_length (spec : PoolJobSpec) : 224 ≤ spec.encoded.length := by
  rw [PoolJobSpec.encoded, encode_length spec.fit]
  exact Nat.le_add_right _ _

/-- The specification lies inside the job. -/
theorem PoolJob.encoded_length (job : PoolJob) :
    256 ≤ job.encoded.length ∧ job.specBytes.length ≤ job.encoded.length := by
  have hall : job.encoded.length = _ + (Component.bytes job.specBytes).tail.length + _ :=
    @encode_length_at [.word job.poolId.toBytes, .word (padAddressLeft job.requester)] _ _ job.fit
  refine ⟨?_, ?_⟩
  · rw [PoolJob.encoded, encode_length job.fit]
    exact Nat.le_add_right _ _
  · simp only [Component.tail, List.length_append] at hall
    omega

theorem decodeJobSpec_encoded {job : PoolJob} (hlen : job.encoded.length ≤ isizeMax) :
    (decodeJobSpec job.encoded).map (fun r => (promptOf r.1, r.2)) = .ok job.request := by
  obtain ⟨hlong, hinner⟩ := job.encoded_length
  have hspec : decodeDynamicBytesAtOffset job.encoded 64 = .ok job.specBytes :=
    @decodeDynamicBytes_encode [.word job.poolId.toBytes, .word (padAddressLeft job.requester)]
      _ _ job.fit hlen
  unfold decodeJobSpec
  rw [if_neg (by omega), bind_of_ok hspec]
  unfold PoolJob.request
  cases hjob : job.jobSpec with
  | none =>
      have hempty : job.specBytes = [] := by rw [PoolJob.specBytes, hjob]; rfl
      rw [hempty]
      rfl
  | some spec =>
      have hbytes : job.specBytes = spec.encoded := by rw [PoolJob.specBytes, hjob]; rfl
      have hshort := spec.encoded_length
      have hnonempty : spec.encoded.isEmpty = false := by
        rw [List.isEmpty_eq_false_iff_exists_mem]
        exact List.exists_mem_of_length_pos (by omega)
      have htokens : AbiLayout.wordAt spec.encoded 128 =
          some (u256Word spec.maxTokens.toNat) :=
        @wordAt_encode [.word (u256Word spec.version.toNat), .word (u256Word spec.mode.toNat),
          .word spec.modelHash.toBytes, .bytes spec.inputData] _ _ spec.fit
      have hfits : spec.encoded.length ≤ isizeMax := by
        rw [← hbytes]
        exact hinner.trans hlen
      have hinput : decodeDynamicBytesAtOffset spec.encoded 96 = .ok spec.inputData :=
        @decodeDynamicBytes_encode [.word (u256Word spec.version.toNat),
          .word (u256Word spec.mode.toNat), .word spec.modelHash.toBytes] _ _ spec.fit hfits
      have hsmall : spec.maxTokens.toNat < 2 ^ 32 := spec.maxTokens.toNat_lt
      have hread : wordAt spec.encoded 128 = spec.maxTokens.toNat := by
        rw [wordAt_of_layout htokens]
        exact beNat_toBE (hsmall.trans (by norm_num))
      have hclamp : ¬ u32Max < spec.maxTokens.toNat := by
        unfold u32Max
        omega
      have hzero : spec.maxTokens = 0 ↔ spec.maxTokens.toNat = 0 := by
        rw [← UInt32.toNat_inj]
        rfl
      rw [hbytes, hnonempty, if_neg Bool.false_ne_true, if_neg (by omega), hread, hinput]
      dsimp only
      rw [if_neg hclamp]
      simp only [hzero]
      rfl

/-- A job of the documented layout is read to what it asks for. -/
theorem decodeJobSpecChecked_encoded (overflowChecks : Bool) {job : PoolJob}
    (hlen : job.encoded.length ≤ isizeMax) :
    decodeJobSpecChecked overflowChecks job.encoded = .ok job.request := by
  rw [decodeJobSpecChecked_eq, decodeJobSpec_encoded hlen]
  rfl

/-- A byte string of a documented layout is read at its place. -/
theorem decodeDynamicBytesChecked_encode (overflowChecks : Bool)
    (hfit : ∀ d ∈ front ++ .bytes b :: back, d.Fits)
    (hlen : (AbiLayout.encode (front ++ .bytes b :: back)).length ≤ isizeMax) :
    decodeDynamicBytesChecked overflowChecks (AbiLayout.encode (front ++ .bytes b :: back))
      (32 * front.length) = .ok b := by
  have hall := encode_length_at hfit
  have hmax : isizeMax < 2 ^ 63 := by decide
  have hhead : 32 * front.length + 32 ≤ offset front back := by
    unfold offset
    omega
  rw [decodeDynamicBytesChecked_eq _ _ (by omega), decodeDynamicBytes_encode hfit hlen]
  rfl

/-! ## The decoders -/

/-- The node's answer to every read is decoded or refused without a panic, and what the
documented layouts encode is read back: the number of GPUs clamped to 32 bits, the default
bound for a job that names none, and the prompt exactly when it is well-formed UTF-8. -/
theorem decoders_total_and_exact (overflowChecks : Bool) :
    (∀ bytes, Returns (decodeAddressArray bytes) ∧ Returns (decodeMemberStruct bytes) ∧
      Returns (decodeJobSpecChecked overflowChecks bytes) ∧
      ∀ pos, pos + 32 < 2 ^ 64 → Returns (decodeDynamicBytesChecked overflowChecks bytes pos)) ∧
    (∀ addrs, (encodedAddresses addrs).length ≤ isizeMax →
      decodeAddressArray (encodedAddresses addrs) = .ok addrs) ∧
    (∀ m : PoolMember,
      decodeMemberStruct m.encoded = .ok (min m.gpuCount.toNat u32Max, m.active)) ∧
    (∀ (front : List Component) (b : List UInt8) (back : List Component),
      (∀ d ∈ front ++ .bytes b :: back, d.Fits) →
      (AbiLayout.encode (front ++ .bytes b :: back)).length ≤ isizeMax →
      decodeDynamicBytesChecked overflowChecks (AbiLayout.encode (front ++ .bytes b :: back))
        (32 * front.length) = .ok b) ∧
    (∀ job : PoolJob, job.encoded.length ≤ isizeMax →
      decodeJobSpecChecked overflowChecks job.encoded = .ok job.request) ∧
    ∀ s, promptOf (utf8 s) = s :=
  ⟨fun bytes => ⟨returns_decodeAddressArray bytes, returns_decodeMemberStruct bytes,
      returns_decodeJobSpec overflowChecks bytes,
      fun _ => returns_decodeDynamicBytes overflowChecks bytes⟩,
    fun _ => decodeAddressArray_encoded, decodeMemberStruct_encoded,
    fun _ _ _ => decodeDynamicBytesChecked_encode overflowChecks,
    fun _ => decodeJobSpecChecked_encoded overflowChecks, promptOf_utf8⟩

/-- A specification that bounds the answer to no tokens. -/
def unboundedSpec : PoolJobSpec := ⟨1, 0, FixedBytes.zero, [], 0, 0, 0⟩

def unboundedJob : PoolJob :=
  ⟨FixedBytes.zero, FixedBytes.zero, some unboundedSpec, FixedBytes.zero, 0, FixedBytes.zero,
    FixedBytes.zero, FixedBytes.zero⟩

/-- A member with `2 ^ 32` GPUs. -/
def hugeMember : PoolMember :=
  ⟨FixedBytes.ofNat (2 ^ 32), FixedBytes.zero, FixedBytes.zero, FixedBytes.zero, true⟩

/-- A number of GPUs past 32 bits is read as the largest of 32 bits, and a bound of zero
tokens as the default. -/
theorem some_values_are_replaced :
    ¬ (∀ m : PoolMember, decodeMemberStruct m.encoded = .ok (m.gpuCount.toNat, m.active)) ∧
      ¬ ∀ (job : PoolJob) (spec : PoolJobSpec), job.jobSpec = some spec →
        job.encoded.length ≤ isizeMax → decodeJobSpecChecked true job.encoded =
          .ok (promptOf spec.inputData, spec.maxTokens.toNat) := by
  constructor
  · intro h
    have hclamped := (decodeMemberStruct_encoded hugeMember).symm.trans (h hugeMember)
    have hcount : hugeMember.gpuCount.toNat = 2 ^ 32 := beNat_toBE (by norm_num)
    rw [hcount] at hclamped
    exact absurd (congrArg Prod.fst (Except.ok.inj hclamped)) (by decide)
  · intro h
    have hspec : unboundedSpec.encoded.length = 256 := by
      rw [PoolJobSpec.encoded, encode_length unboundedSpec.fit]
      rfl
    have hbytes : unboundedJob.specBytes.length = 256 := hspec
    have hlen : unboundedJob.encoded.length ≤ isizeMax := by
      rw [PoolJob.encoded, encode_length unboundedJob.fit]
      simp [Component.tail, Component.padding, hbytes, isizeMax]
    have hdefault := (decodeJobSpecChecked_encoded true hlen).symm.trans
      (h unboundedJob unboundedSpec rfl hlen)
    exact absurd (congrArg Prod.snd (Except.ok.inj hdefault)) (by decide)

end PoolCoordinator
end ComputePool
