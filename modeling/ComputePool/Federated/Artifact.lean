import ComputePool.Federated.Tree
import ComputePool.Federated.Round
import ComputePool.Federated.Gguf

/-!
# The delta artifact

The file a worker uploads and the coordinator verifies (`fl/delta.rs`): a header
of fixed layout, then the values of the delta.  The values are cut into chunks
of `chunk_dim`; the row hash of a chunk is the hash of its big-endian bytes, and
the delta root is the positional tree over the row hashes.
-/

namespace ComputePool
namespace Federated

open RustStd

/-- What a mismatch between two adapters reports. -/
inductive Mismatch where
  | tensors (start trained : Nat)
  | layout (startName : String) (startDims : List UInt64) (trainedName : String)
      (trainedDims : List UInt64)
  | valueCounts (name : String)
  | aggregate (values want : Nat)
  deriving DecidableEq

/-- The text of `DeltaError::Artifact`: a literal, or the text of another error. -/
inductive ArtifactFault where
  | text (message : String)
  | tree (e : Tree.TreeError)
  | gguf (e : Gguf.GgufError)
  deriving DecidableEq

inductive DeltaError where
  | mismatch (what : Mismatch)
  | notFinite (tensor : String) (index : Nat)
  | outOfRange (tensor : String) (index : Nat) (value : F32)
  | artifact (fault : ArtifactFault)
  | chunkDim
  | tooLarge (values limit : UInt64)
  deriving DecidableEq

/-! ## Rows and their tree -/

/-- Chunk `c` of a value vector. -/
def row (values : List Int64) (chunkDim : UInt32) (c : Nat) : List Int64 :=
  let d := chunkDim.toNat
  let lo := min (c * d) values.length
  let hi := min (lo + d) values.length
  (values.drop lo).take (hi - lo)

/-- `n_values.div_ceil(chunk_dim.max(1))`. -/
def chunkCount (nValues : Nat) (chunkDim : UInt32) : Nat :=
  (nValues + max chunkDim.toNat 1 - 1) / max chunkDim.toNat 1

def rowHash (H : Hashes) (row : List Int64) : B32 := keccak H [rowBytes row]

def rowHashes (H : Hashes) (values : List Int64) (chunkDim : UInt32) :
    Except DeltaError (List B32) :=
  if chunkDim = 0 then .error .chunkDim
  else
    .ok ((List.range (chunkCount values.length chunkDim)).map fun c =>
      rowHash H (row values chunkDim c))

def deltaRoot (H : Hashes) (values : List Int64) (chunkDim : UInt32) : Except DeltaError B32 := do
  let rows ← rowHashes H values chunkDim
  match Tree.root H rows with
  | .ok root => .ok root
  | .error e => .error (.artifact (.tree e))

/-! ## The codec -/

/-- `b"FLD1"`. -/
def MAGIC : List UInt8 := [0x46, 0x4c, 0x44, 0x31]

def VERSION : Nat := 1

def HEADER_LEN : Nat := 4 + 2 + 1 + 1 + 32 + 20 + 32 + 32 + 32 + 4 + 8

structure Artifact where
  valueScaleLog2 : UInt8
  roundId : B32
  worker : Addr
  startAdapterSha256 : B32
  trainedAdapterSha256 : B32
  manifestHash : B32
  chunkDim : UInt32
  values : List Int64
  deriving DecidableEq

namespace Artifact

/-- The fields in the order they are written. -/
def parts (a : Artifact) : List (List UInt8) :=
  [MAGIC,
    toBE 2 VERSION,
    [a.valueScaleLog2],
    [0],
    a.roundId.toBytes,
    a.worker.toBytes,
    a.startAdapterSha256.toBytes,
    a.trainedAdapterSha256.toBytes,
    a.manifestHash.toBytes,
    toBE 4 a.chunkDim.toNat,
    toBE 8 a.values.length,
    rowBytes a.values]

def encode (a : Artifact) : List UInt8 := a.parts.flatten

def bad {α : Type} (message : String) : Checked DeltaError α :=
  .error (.err (.artifact (.text message)))

/-- The fields of the value `decode` returns. -/
def fields (bytes : List UInt8) (worker : Addr) (chunkDim : UInt32) :
    Checked DeltaError Artifact := do
  let values ← slice bytes HEADER_LEN bytes.length
  let valueScaleLog2 ← indexAt bytes 6
  let roundId ← arrayAt 32 bytes 8
  let startAdapterSha256 ← arrayAt 32 bytes 60
  let trainedAdapterSha256 ← arrayAt 32 bytes 92
  let manifestHash ← arrayAt 32 bytes 124
  .ok
    { valueScaleLog2 := valueScaleLog2
      roundId := roundId
      worker := worker
      startAdapterSha256 := startAdapterSha256
      trainedAdapterSha256 := trainedAdapterSha256
      manifestHash := manifestHash
      chunkDim := chunkDim
      values := beI64s values }

/-- `max_values` bounds the allocation before it happens.  The length the header
announces is added up in `usize`. -/
def decode (overflowChecks : Bool) (bytes : List UInt8) (maxValues : UInt64) :
    Checked DeltaError Artifact :=
  if bytes.length < HEADER_LEN then bad "shorter than the header"
  else do
    let magic ← slice bytes 0 4
    if magic ≠ MAGIC then bad "bad magic"
    else do
      let version ← slice bytes 4 6
      if beNat version ≠ VERSION then bad "unsupported version"
      else do
        let reserved ← indexAt bytes 7
        if reserved ≠ 0 then bad "reserved byte is not zero"
        else do
          let worker ← arrayAt 20 bytes 40
          let dim ← slice bytes 156 160
          let chunkDim := UInt32.ofNat (beNat dim)
          let count ← slice bytes 160 168
          let n := UInt64.ofNat (beNat count)
          if n > maxValues then .error (.err (.tooLarge n maxValues))
          else if chunkDim = 0 then .error (.err .chunkDim)
          else do
            let body ← checked (okOr (checkedMul n.toNat 8) (.artifact (.text "value count overflows")))
            let want ← addUsize overflowChecks HEADER_LEN body
            if bytes.length ≠ want then bad "length does not match the value count"
            else fields bytes worker chunkDim

/-- Where each field lies: the widths of the fields before the values. -/
def widths : List Nat := [4, 2, 1, 1, 32, 20, 32, 32, 32, 4, 8]

/-- The number of values a header announces. -/
def countWord (bytes : List UInt8) : Nat := beNat ((bytes.drop 160).take 8)

/-- The chunk width a header announces. -/
def chunkDimWord (bytes : List UInt8) : Nat := beNat ((bytes.drop 156).take 4)

theorem countWord_lt (bytes : List UInt8) : countWord bytes < 2 ^ 64 := by
  have hlt := beNat_lt ((bytes.drop 160).take 8)
  have hlength : ((bytes.drop 160).take 8).length ≤ 8 := List.length_take_le _ _
  have hpow := Nat.pow_le_pow_right (show 0 < 256 by decide) hlength
  exact hlt.trans_le (hpow.trans (by decide))

theorem chunkDimWord_lt (bytes : List UInt8) : chunkDimWord bytes < 2 ^ 32 := by
  have hlt := beNat_lt ((bytes.drop 156).take 4)
  have hlength : ((bytes.drop 156).take 4).length ≤ 4 := List.length_take_le _ _
  have hpow := Nat.pow_le_pow_right (show 0 < 256 by decide) hlength
  exact hlt.trans_le (hpow.trans (by decide))

/-- The checks `decode` makes before it adds up the length. -/
structure HeaderAccepted (bytes : List UInt8) (maxValues : UInt64) : Prop where
  complete : HEADER_LEN ≤ bytes.length
  magic : bytes.take 4 = MAGIC
  version : beNat ((bytes.drop 4).take 2) = VERSION
  reserved : bytes[7]? = some 0
  count_le : countWord bytes ≤ maxValues.toNat
  chunkDim_ne : chunkDimWord bytes ≠ 0

/-- What an accepted artifact says about the bytes it was read from. -/
structure ReadFrom (bytes : List UInt8) (a : Artifact) : Prop where
  valueScaleLog2 : bytes[6]? = some a.valueScaleLog2
  roundId : (bytes.drop 8).take 32 = a.roundId.toBytes
  worker : (bytes.drop 40).take 20 = a.worker.toBytes
  startAdapterSha256 : (bytes.drop 60).take 32 = a.startAdapterSha256.toBytes
  trainedAdapterSha256 : (bytes.drop 92).take 32 = a.trainedAdapterSha256.toBytes
  manifestHash : (bytes.drop 124).take 32 = a.manifestHash.toBytes
  chunkDim : chunkDimWord bytes = a.chunkDim.toNat
  values : beI64s (bytes.drop HEADER_LEN) = a.values

variable {checks : Bool} {bytes : List UInt8} {maxValues : UInt64} {a : Artifact}

/-- `decode` from the point where the length is added up. -/
def decodeLength (checks : Bool) (bytes : List UInt8) (worker : Addr) :
    Checked DeltaError Artifact := do
  let body ← checked (okOr (checkedMul (countWord bytes) 8) (.artifact (.text "value count overflows")))
  let want ← addUsize checks HEADER_LEN body
  if bytes.length ≠ want then bad "length does not match the value count"
  else fields bytes worker (UInt32.ofNat (chunkDimWord bytes))

/-- Up to the length `decode` checks the header: it rejects without a panic, or
accepts and goes on. -/
theorem decode_header (checks : Bool) (bytes : List UInt8) (maxValues : UInt64) :
    (¬ HeaderAccepted bytes maxValues ∧ ∃ e, decode checks bytes maxValues = .error (.err e)) ∨
      (HeaderAccepted bytes maxValues ∧ ∃ worker : Addr,
        (bytes.drop 40).take 20 = worker.toBytes ∧
          decode checks bytes maxValues = decodeLength checks bytes worker) := by
  unfold decode
  by_cases hcomplete : bytes.length < HEADER_LEN
  · rw [if_pos hcomplete]
    exact .inl ⟨fun h => absurd h.complete (by omega), _, rfl⟩
  have hlength : 168 ≤ bytes.length := not_lt.mp hcomplete
  have hseven : bytes[7]? = some (bytes.get ⟨7, by omega⟩) := List.getElem?_eq_getElem (by omega)
  obtain ⟨worker, hworker⟩ := arrayAt_ok (ε := DeltaError) (n := 20) (o := 40) bytes
    (by omega)
  simp only [if_neg hcomplete, slice_of_le (show 0 ≤ 4 by decide) (show 4 ≤ bytes.length by omega),
    slice_of_le (show 4 ≤ 6 by decide) (show 6 ≤ bytes.length by omega),
    slice_of_le (show 156 ≤ 160 by decide) (show 160 ≤ bytes.length by omega),
    slice_of_le (show 160 ≤ 168 by decide) (show 168 ≤ bytes.length by omega),
    indexAt_ok hseven, hworker, bind, Except.bind, List.drop_zero, Nat.reduceSub, ne_eq]
  by_cases hmagic : bytes.take 4 = MAGIC
  swap
  · exact .inl ⟨fun h => hmagic h.magic, _, if_pos hmagic⟩
  by_cases hversion : beNat ((bytes.drop 4).take 2) = VERSION
  swap
  · exact .inl ⟨fun h => hversion h.version, _,
      (if_neg (not_not_intro hmagic)).trans (if_pos hversion)⟩
  by_cases hreserved : bytes.get ⟨7, by omega⟩ = 0
  swap
  · refine .inl ⟨fun h => hreserved ?_, _, (if_neg (not_not_intro hmagic)).trans
      ((if_neg (not_not_intro hversion)).trans (if_pos hreserved))⟩
    exact Option.some.inj (hseven.symm.trans h.reserved)
  rw [if_neg (not_not_intro hmagic), if_neg (not_not_intro hversion),
    if_neg (not_not_intro hreserved)]
  have hn : (UInt64.ofNat (beNat ((bytes.drop 160).take 8))).toNat = countWord bytes :=
    UInt64.toNat_ofNat_of_lt' (countWord_lt bytes)
  have hd : (UInt32.ofNat (beNat ((bytes.drop 156).take 4))).toNat = chunkDimWord bytes :=
    UInt32.toNat_ofNat_of_lt' (chunkDimWord_lt bytes)
  by_cases hcount : UInt64.ofNat (beNat ((bytes.drop 160).take 8)) > maxValues
  · refine .inl ⟨fun h => absurd h.count_le (not_le.mpr ?_), _, if_pos hcount⟩
    rwa [gt_iff_lt, UInt64.lt_iff_toNat_lt, hn] at hcount
  by_cases hdim : UInt32.ofNat (beNat ((bytes.drop 156).take 4)) = 0
  · refine .inl ⟨fun h => h.chunkDim_ne ?_, _, (if_neg hcount).trans (if_pos hdim)⟩
    rw [← hd, hdim]
    rfl
  refine .inr ⟨⟨hlength, hmagic, hversion, ?_, ?_, ?_⟩, worker, arrayAt_toBytes hworker, ?_⟩
  · rw [hseven, hreserved]
  · rw [gt_iff_lt, UInt64.lt_iff_toNat_lt, hn] at hcount
    exact not_lt.mp hcount
  · intro hzero
    exact hdim (congrArg UInt32.ofNat hzero)
  · rw [if_neg hcount, if_neg hdim, hn]
    rfl

/-- Once the header is there, `fields` reads every field. -/
theorem fields_ok {worker : Addr} (hlength : HEADER_LEN ≤ bytes.length)
    (hworker : (bytes.drop 40).take 20 = worker.toBytes) :
    ∃ a, fields bytes worker (UInt32.ofNat (chunkDimWord bytes)) = .ok a ∧ ReadFrom bytes a := by
  have hlong : 168 ≤ bytes.length := hlength
  have hscale : bytes[6]? = some (bytes.get ⟨6, by omega⟩) := List.getElem?_eq_getElem (by omega)
  obtain ⟨round, hround⟩ := arrayAt_ok (ε := DeltaError) (n := 32) (o := 8) bytes
    (show 8 + 32 ≤ bytes.length by omega)
  obtain ⟨start, hstart⟩ := arrayAt_ok (ε := DeltaError) (n := 32) (o := 60) bytes
    (show 60 + 32 ≤ bytes.length by omega)
  obtain ⟨trained, htrained⟩ := arrayAt_ok (ε := DeltaError) (n := 32) (o := 92) bytes
    (show 92 + 32 ≤ bytes.length by omega)
  obtain ⟨manifest, hmanifest⟩ := arrayAt_ok (ε := DeltaError) (n := 32) (o := 124) bytes
    (show 124 + 32 ≤ bytes.length by omega)
  have hvalues : (bytes.drop HEADER_LEN).take (bytes.length - HEADER_LEN) =
      bytes.drop HEADER_LEN :=
    List.take_of_length_le (by rw [List.length_drop])
  simp only [fields, slice_of_le hlength le_rfl, hvalues, indexAt_ok hscale, hround, hstart,
    htrained, hmanifest, bind, Except.bind]
  exact ⟨_, rfl,
    { valueScaleLog2 := hscale
      roundId := arrayAt_toBytes hround
      worker := hworker
      startAdapterSha256 := arrayAt_toBytes hstart
      trainedAdapterSha256 := arrayAt_toBytes htrained
      manifestHash := arrayAt_toBytes hmanifest
      chunkDim := (UInt32.toNat_ofNat_of_lt' (chunkDimWord_lt bytes)).symm
      values := rfl }⟩

/-- The header is accepted, and the length it announces passes `checked_mul` but
not the addition after it. -/
structure CountOverflows (bytes : List UInt8) (maxValues : UInt64) : Prop where
  header : HeaderAccepted bytes maxValues
  mul_fits : 8 * countWord bytes < 2 ^ 64
  add_overflows : 2 ^ 64 ≤ HEADER_LEN + 8 * countWord bytes

/-- How `decode` ends. -/
inductive Outcome (checks : Bool) (bytes : List UInt8) (maxValues : UInt64) : Prop where
  | accepted (a : Artifact) (h : decode checks bytes maxValues = .ok a)
      (header : HeaderAccepted bytes maxValues)
      (length : bytes.length = HEADER_LEN + 8 * countWord bytes) (read : ReadFrom bytes a)
  | rejected (e : DeltaError) (h : decode checks bytes maxValues = .error (.err e))
      (unfit : HeaderAccepted bytes maxValues →
        bytes.length ≠ HEADER_LEN + 8 * countWord bytes)
  | panicked (h : decode checks bytes maxValues = .error .panic) (checking : checks = true)
      (overflow : CountOverflows bytes maxValues)

theorem decode_outcome (checks : Bool) (maxValues : UInt64) (hlength : bytes.length ≤ isizeMax) :
    Outcome checks bytes maxValues := by
  have hsize : bytes.length < 2 ^ 63 := Nat.lt_of_le_of_lt hlength (by decide)
  rcases decode_header checks bytes maxValues with ⟨hno, e, he⟩ | ⟨hheader, worker, hworker, h⟩
  · exact .rejected e he fun hyes => absurd hyes hno
  have hcomplete : 168 ≤ bytes.length := hheader.complete
  by_cases hmul : countWord bytes * 8 ≤ 2 ^ 64 - 1
  swap
  · refine .rejected (.artifact (.text "value count overflows")) ?_ fun _ hlen => ?_
    · rw [h, decodeLength, checkedMul, if_neg hmul]
      rfl
    · rw [hlen] at hsize
      omega
  by_cases hadd : HEADER_LEN + countWord bytes * 8 < 2 ^ 64
  · have hgo : decodeLength checks bytes worker =
        if bytes.length ≠ HEADER_LEN + countWord bytes * 8 then
          bad "length does not match the value count"
        else fields bytes worker (UInt32.ofNat (chunkDimWord bytes)) := by
      rw [decodeLength, checkedMul, if_pos hmul]
      show (addUsize checks HEADER_LEN (countWord bytes * 8) >>= _) = _
      rw [addUsize, if_pos hadd]
      rfl
    rw [hgo] at h
    by_cases hlen : bytes.length = HEADER_LEN + countWord bytes * 8
    · obtain ⟨a, ha, hread⟩ := fields_ok hheader.complete hworker
      rw [if_neg (not_not_intro hlen), ha] at h
      exact .accepted a h hheader (by omega) hread
    · rw [if_pos hlen] at h
      exact .rejected _ h fun _ hno => hlen (by omega)
  · have hover : CountOverflows bytes maxValues := ⟨hheader, by omega, by omega⟩
    have hgo : decodeLength checks bytes worker =
        if checks = true then .error .panic
        else bad "length does not match the value count" := by
      rw [decodeLength, checkedMul, if_pos hmul]
      show (addUsize checks HEADER_LEN (countWord bytes * 8) >>= _) = _
      rw [addUsize, if_neg hadd]
      cases checks with
      | true => rfl
      | false =>
          -- what is left of the length after wrapping is shorter than a header
          have hwrapped : bytes.length ≠ (HEADER_LEN + countWord bytes * 8) % 2 ^ 64 := by
            have hheaderLen : HEADER_LEN = 168 := rfl
            omega
          exact if_pos hwrapped
    rw [hgo] at h
    cases checks with
    | true => exact .panicked h rfl hover
    | false =>
        refine .rejected _ h fun _ hlen => ?_
        rw [hlen] at hsize
        omega

/-! ## Encoding and what is read back -/

theorem encode_length (a : Artifact) : a.encode.length = HEADER_LEN + 8 * a.values.length := by
  simp [encode, parts, MAGIC, HEADER_LEN, rowBytes_length]
  omega

/-- Part `i` of an encoding, cut out at its offset. -/
theorem encode_part (a : Artifact) (i o : Nat) {part : List UInt8} (h : a.parts[i]? = some part)
    (ho : ((a.parts.take i).map List.length).sum = o) :
    (a.encode.drop o).take part.length = part :=
  take_drop_flatten i h ho

theorem countWord_encode (a : Artifact) (h : a.values.length < 2 ^ 64) :
    countWord a.encode = a.values.length := by
  have hpart := encode_part a 10 160 rfl (by simp [parts, MAGIC])
  rw [toBE_length] at hpart
  rw [countWord, hpart, beNat_toBE (by simpa using h)]

theorem readFrom_encode (a : Artifact) : ReadFrom a.encode a := by
  have hscale := encode_part a 2 6 rfl (by simp [parts, MAGIC])
  have hround := encode_part a 4 8 rfl (by simp [parts, MAGIC])
  have hworker := encode_part a 5 40 rfl (by simp [parts, MAGIC])
  have hstart := encode_part a 6 60 rfl (by simp [parts, MAGIC])
  have htrained := encode_part a 7 92 rfl (by simp [parts, MAGIC])
  have hmanifest := encode_part a 8 124 rfl (by simp [parts, MAGIC])
  have hdim := encode_part a 9 156 rfl (by simp [parts, MAGIC])
  have hvalues := encode_part a 11 168 rfl (by simp [parts, MAGIC])
  rw [FixedBytes.toBytes_length] at hround hworker hstart htrained hmanifest
  rw [toBE_length] at hdim
  have hrest : a.encode.drop HEADER_LEN = rowBytes a.values := by
    rw [← hvalues]
    refine (List.take_of_length_le ?_).symm
    rw [List.length_drop, encode_length, rowBytes_length]
    exact (Nat.add_sub_cancel_left _ _).le
  exact
    { valueScaleLog2 := take_one_drop.mp hscale
      roundId := hround
      worker := hworker
      startAdapterSha256 := hstart
      trainedAdapterSha256 := htrained
      manifestHash := hmanifest
      chunkDim := by
        rw [chunkDimWord, hdim, beNat_toBE (by simpa using a.chunkDim.toNat_lt)]
      values := by rw [hrest, beI64s_rowBytes] }

theorem headerAccepted_encode (a : Artifact) (hdim : a.chunkDim ≠ 0)
    (hcount : a.values.length ≤ maxValues.toNat) : HeaderAccepted a.encode maxValues := by
  have hmagic := encode_part a 0 0 rfl rfl
  have hversion := encode_part a 1 4 rfl (by simp [parts, MAGIC])
  have hreserved := encode_part a 3 7 rfl (by simp [parts, MAGIC])
  rw [toBE_length] at hversion
  exact
    { complete := by
        rw [encode_length]
        exact Nat.le_add_right _ _
      magic := hmagic
      version := by rw [hversion, beNat_toBE (by decide)]
      reserved := take_one_drop.mp hreserved
      count_le := by rwa [countWord_encode a (hcount.trans_lt maxValues.toNat_lt)]
      chunkDim_ne := by
        rw [(readFrom_encode a).chunkDim]
        intro hzero
        exact hdim (UInt32.toNat_inj.mp hzero) }

/-- Bytes hold at most one artifact. -/
theorem readFrom_unique {b : Artifact} (ha : ReadFrom bytes a) (hb : ReadFrom bytes b) : a = b := by
  have hscale := Option.some.inj (ha.valueScaleLog2.symm.trans hb.valueScaleLog2)
  have hround := FixedBytes.toBytes_injective (ha.roundId.symm.trans hb.roundId)
  have hworker := FixedBytes.toBytes_injective (ha.worker.symm.trans hb.worker)
  have hstart :=
    FixedBytes.toBytes_injective (ha.startAdapterSha256.symm.trans hb.startAdapterSha256)
  have htrained :=
    FixedBytes.toBytes_injective (ha.trainedAdapterSha256.symm.trans hb.trainedAdapterSha256)
  have hmanifest := FixedBytes.toBytes_injective (ha.manifestHash.symm.trans hb.manifestHash)
  have hdim := UInt32.toNat_inj.mp (ha.chunkDim.symm.trans hb.chunkDim)
  have hvalues := ha.values.symm.trans hb.values
  cases a
  cases b
  simp only [mk.injEq]
  exact ⟨hscale, hround, hworker, hstart, htrained, hmanifest, hdim, hvalues⟩

/-- Bytes of the announced length are the encoding of the artifact they hold. -/
theorem encode_of_readFrom (hheader : HeaderAccepted bytes maxValues)
    (hlength : bytes.length = HEADER_LEN + 8 * countWord bytes) (h : ReadFrom bytes a) :
    a.encode = bytes := by
  have hcomplete : 168 ≤ bytes.length := hheader.complete
  have hrest : (bytes.drop HEADER_LEN).length = 8 * countWord bytes := by
    rw [List.length_drop, hlength, Nat.add_sub_cancel_left]
  obtain ⟨hvalues, hcount⟩ := rowBytes_beI64s hrest
  rw [h.values] at hvalues hcount
  have hword : ∀ o n, o + n ≤ 168 →
      (bytes.drop o).take n = toBE n (beNat ((bytes.drop o).take n)) := by
    intro o n ho
    have hwidth : ((bytes.drop o).take n).length = n := by
      rw [List.length_take, List.length_drop]
      omega
    have hround := toBE_beNat ((bytes.drop o).take n)
    rw [hwidth] at hround
    exact hround.symm
  have hversion := hword 4 2 (by decide)
  have hdim := hword 156 4 (by decide)
  have hn := hword 160 8 (by decide)
  rw [hheader.version] at hversion
  rw [show beNat ((bytes.drop 156).take 4) = a.chunkDim.toNat from h.chunkDim] at hdim
  rw [show beNat ((bytes.drop 160).take 8) = a.values.length from hcount.symm] at hn
  have hparts : cut widths bytes = a.parts := by
    simp only [widths, cut, List.drop_drop, Nat.reduceAdd, parts]
    rw [hheader.magic, hversion, take_one_drop.mpr h.valueScaleLog2,
      take_one_drop.mpr hheader.reserved, h.roundId, h.worker, h.startAdapterSha256,
      h.trainedAdapterSha256, h.manifestHash, hdim, hn, hvalues]
    rfl
  rw [encode, ← hparts, flatten_cut]

/-! ## The codec as a whole -/

/-- Both directions of the codec at one byte string, and no panic on it. -/
structure Faithful (checks : Bool) (bytes : List UInt8) (maxValues : UInt64) : Prop where
  decode_encode : ∀ a : Artifact, a.encode = bytes → a.chunkDim ≠ 0 →
    a.values.length ≤ maxValues.toNat → decode checks bytes maxValues = .ok a
  encode_decode : ∀ a, decode checks bytes maxValues = .ok a → a.encode = bytes
  no_panic : decode checks bytes maxValues ≠ .error .panic

/-- The codec is faithful where no checked addition overflows.  In a build without
overflow checks that is everywhere: a wrapped length is shorter than a header, and
the file is refused. -/
theorem faithful_of_no_overflow (hlength : bytes.length ≤ isizeMax)
    (hover : checks = true → ¬ CountOverflows bytes maxValues) :
    Faithful checks bytes maxValues := by
  cases decode_outcome checks maxValues hlength with
  | accepted a h header length read =>
      refine ⟨fun b hb _ _ => ?_, fun b hb => ?_, ?_⟩
      · have hread := readFrom_encode b
        rw [hb] at hread
        rw [h, readFrom_unique read hread]
      · rw [h] at hb
        cases hb
        exact encode_of_readFrom header length read
      · rw [h]
        nofun
  | rejected e h unfit =>
      refine ⟨fun b hb hdim hcount => ?_, fun b hb => ?_, ?_⟩
      · subst hb
        refine absurd ?_ (unfit (headerAccepted_encode b hdim hcount))
        rw [encode_length, countWord_encode b (hcount.trans_lt maxValues.toNat_lt)]
      · rw [h] at hb
        cases hb
      · rw [h]
        nofun
  | panicked h checking overflow => exact absurd overflow (hover checking)

/-- `decode` returns, save where overflow is checked and the announced length
overflows. -/
theorem decode_returns_iff (checks : Bool) (bytes : List UInt8) (maxValues : UInt64) :
    Returns (decode checks bytes maxValues) ↔
      (checks = true → ¬ CountOverflows bytes maxValues) := by
  obtain ⟨hno, e, he⟩ | ⟨hheader, worker, hworker, h⟩ := decode_header checks bytes maxValues
  · rw [he]
    exact iff_of_true (returns_error e) fun _ hover => hno hover.header
  rw [h, decodeLength]
  by_cases hmul : countWord bytes * 8 ≤ 2 ^ 64 - 1
  swap
  · rw [checkedMul, if_neg hmul]
    refine iff_of_true (returns_error _) fun _ hover => hmul ?_
    have hfits := hover.mul_fits
    omega
  rw [checkedMul, if_pos hmul, checked_okOr_some, bind_of_ok rfl]
  have hlength : ∀ want, Returns (if bytes.length ≠ want then
      bad "length does not match the value count"
      else fields bytes worker (UInt32.ofNat (chunkDimWord bytes))) := by
    intro want
    obtain ⟨a, ha, -⟩ := fields_ok hheader.complete hworker
    rw [ha]
    exact returns_ite (fun _ => returns_error _) fun _ => returns_ok a
  by_cases hadd : HEADER_LEN + countWord bytes * 8 < 2 ^ 64
  · rw [addUsize, if_pos hadd, bind_of_ok rfl]
    refine iff_of_true (hlength _) fun _ hover => ?_
    have hbig := hover.add_overflows
    omega
  · rw [addUsize, if_neg hadd]
    cases checks with
    | false => exact iff_of_true (hlength _) fun h => absurd h Bool.false_ne_true
    | true => exact iff_of_false (fun h => h rfl) fun h => h rfl ⟨hheader, by omega, by omega⟩

/-- Where the announced length overflows nothing is decoded: the build panics, or what
is left of the length after wrapping is shorter than a header. -/
theorem decodeLength_overflow {worker : Addr} (hcomplete : HEADER_LEN ≤ bytes.length)
    (hadd : ¬ HEADER_LEN + countWord bytes * 8 < 2 ^ 64) :
    decodeLength checks bytes worker ≠ .ok a := by
  rw [decodeLength]
  by_cases hmul : countWord bytes * 8 ≤ 2 ^ 64 - 1
  · rw [checkedMul, if_pos hmul, checked_okOr_some, bind_of_ok rfl, addUsize, if_neg hadd]
    cases checks with
    | true => exact fun h => absurd h (by simp [bind, Except.bind])
    | false =>
        have hheaderLen : HEADER_LEN = 168 := rfl
        have hwrapped : bytes.length ≠ (HEADER_LEN + countWord bytes * 8) % 2 ^ 64 := by omega
        rw [if_neg Bool.false_ne_true, bind_of_ok rfl, if_pos hwrapped]
        exact fun h => absurd h (by simp [bad])
  · rw [checkedMul, if_neg hmul]
    exact fun h => absurd h (by simp [checked, okOr, bind, Except.bind])

/-- The two builds decode the same artifacts. -/
theorem decode_eq_ok : decode checks bytes maxValues = .ok a ↔
    decode false bytes maxValues = .ok a := by
  obtain ⟨hno, e, he⟩ | ⟨hheader, worker, hworker, h⟩ := decode_header checks bytes maxValues
  all_goals obtain ⟨hno', e', he'⟩ | ⟨hheader', worker', hworker', h'⟩ :=
    decode_header false bytes maxValues
  · rw [he, he']
    exact iff_of_false (fun h => absurd h (by simp)) fun h => absurd h (by simp)
  · exact absurd hheader' hno
  · exact absurd hheader hno'
  · obtain rfl := FixedBytes.toBytes_injective (hworker.symm.trans hworker')
    rw [h, h']
    by_cases hadd : HEADER_LEN + countWord bytes * 8 < 2 ^ 64
    · have hmul : countWord bytes * 8 ≤ 2 ^ 64 - 1 := by omega
      have hgo : ∀ build, decodeLength build bytes worker =
          if bytes.length ≠ HEADER_LEN + countWord bytes * 8 then
            bad "length does not match the value count"
          else fields bytes worker (UInt32.ofNat (chunkDimWord bytes)) := by
        intro build
        rw [decodeLength, checkedMul, if_pos hmul, checked_okOr_some, bind_of_ok rfl,
          addUsize_of_lt hadd, bind_of_ok rfl]
      rw [hgo checks, hgo false]
    · exact iff_of_false (decodeLength_overflow hheader.complete hadd)
        (decodeLength_overflow hheader.complete hadd)

/-- What is encoded is decoded, in both builds. -/
theorem decode_encode (checks : Bool) (hdim : a.chunkDim ≠ 0)
    (hcount : a.values.length ≤ maxValues.toNat) (hlength : a.encode.length ≤ isizeMax) :
    decode checks a.encode maxValues = .ok a := by
  have hfits : ¬ CountOverflows a.encode maxValues := by
    intro hover
    have hbig := hover.add_overflows
    rw [countWord_encode a (hcount.trans_lt maxValues.toNat_lt), ← encode_length] at hbig
    have hsize : a.encode.length < 2 ^ 63 := Nat.lt_of_le_of_lt hlength (by decide)
    omega
  have hfaithful : Faithful checks a.encode maxValues :=
    faithful_of_no_overflow hlength fun _ => hfits
  exact hfaithful.decode_encode a rfl hdim hcount

/-- With overflow checked, the codec is faithful at exactly the byte strings whose
announced length does not overflow when the header's is added to it. -/
theorem codec_faithful_iff (bytes : List UInt8) (maxValues : UInt64)
    (hlength : bytes.length ≤ isizeMax) :
    Faithful true bytes maxValues ↔ ¬ CountOverflows bytes maxValues := by
  constructor
  · intro h
    exact (decode_returns_iff true bytes maxValues).mp h.no_panic rfl
  · intro hover
    exact faithful_of_no_overflow hlength fun _ => hover

/-- A header alone, announcing `2^61 - 1` values. -/
def overflowingHeader : List UInt8 :=
  [MAGIC, toBE 2 VERSION, List.replicate 150 0, toBE 4 1, toBE 8 (2 ^ 61 - 1)].flatten

set_option maxRecDepth 4000 in
theorem overflowingHeader_overflows :
    CountOverflows overflowingHeader (UInt64.ofNat (2 ^ 64 - 1)) := by
  have hcount : countWord overflowingHeader = 2 ^ 61 - 1 := by decide
  exact
    { header :=
        { complete := by decide
          magic := by decide
          version := by decide
          reserved := by decide
          count_le := by rw [hcount]; decide
          chunkDim_ne := by decide }
      mul_fits := by rw [hcount]; decide
      add_overflows := by rw [hcount]; decide }

set_option maxRecDepth 4000 in
theorem overflowingHeader_panics :
    overflowingHeader.length ≤ isizeMax ∧
      ¬ Faithful true overflowingHeader (UInt64.ofNat (2 ^ 64 - 1)) := by
  refine ⟨by decide, fun h => ?_⟩
  exact (decode_returns_iff true _ _).mp h.no_panic rfl overflowingHeader_overflows

/-- A delta of three values in chunks of two. -/
def threeValues : Artifact :=
  ⟨4, FixedBytes.ofNat 1, FixedBytes.ofNat 2, FixedBytes.ofNat 3, FixedBytes.ofNat 4,
    FixedBytes.ofNat 5, 2, [7, -1, 2 ^ 40]⟩

/-- The file of a delta is read back faithfully, as the delta it was written from. -/
theorem threeValues_faithful : Faithful true threeValues.encode 16 ∧
    decode true threeValues.encode 16 = .ok threeValues := by
  have hlength : threeValues.encode.length ≤ isizeMax := by
    rw [encode_length]
    decide
  have hfaithful : Faithful true threeValues.encode 16 := by
    refine (codec_faithful_iff threeValues.encode 16 hlength).mpr fun hover => ?_
    have hadd := hover.add_overflows
    rw [countWord_encode threeValues (by decide)] at hadd
    exact absurd hadd (by decide)
  exact ⟨hfaithful, hfaithful.decode_encode threeValues rfl (by decide) (by decide)⟩

end Artifact
end Federated
end ComputePool
