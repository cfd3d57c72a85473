import ComputePool.Federated.Artifact
import ComputePool.Lib.Pieces

/-!
# How values are laid out in chunks

The offsets of a chunk are computed three times: for the hashes of the rows, for the
input of the precompile and for a proof.  A row is a piece of its vector, the rows of
a chunk stand in its input one behind the other, and each is there in the bytes that
its hash is taken over.
-/

namespace ComputePool
namespace Federated

open RustStd

section Rows

variable {values : List Int64} {chunkDim : UInt32} {c : Nat}

/-- The bounds of a row are those of a piece, clamped. -/
theorem row_eq_piece (values : List Int64) (chunkDim : UInt32) (c : Nat) :
    row values chunkDim c = Pieces.piece chunkDim.toNat values c := by
  unfold row Pieces.piece
  dsimp only
  by_cases hlo : c * chunkDim.toNat ≤ values.length
  · rw [Nat.min_eq_left hlo, List.take_eq_take_iff, List.length_drop]
    omega
  · -- past the end both are empty
    rw [List.drop_of_length_le (by omega), List.drop_of_length_le (by omega), List.take_nil,
      List.take_nil]

theorem chunkCount_eq_count (hdim : 0 < chunkDim) (nValues : Nat) :
    chunkCount nValues chunkDim = Pieces.count chunkDim.toNat nValues := by
  have hpos : 0 < chunkDim.toNat := hdim
  unfold chunkCount Pieces.count
  rw [Nat.max_eq_left hpos]

theorem lt_chunkCount_iff (hdim : 0 < chunkDim) {nValues : Nat} :
    c < chunkCount nValues chunkDim ↔ c * chunkDim.toNat < nValues := by
  rw [chunkCount_eq_count hdim]
  exact Pieces.lt_count_iff hdim

theorem rows_flatten (hdim : 0 < chunkDim) (values : List Int64) :
    ((List.range (chunkCount values.length chunkDim)).map (row values chunkDim)).flatten =
      values := by
  have hrow : row values chunkDim = Pieces.piece chunkDim.toNat values :=
    funext (row_eq_piece values chunkDim)
  rw [hrow, chunkCount_eq_count hdim]
  exact Pieces.flatten_all hdim values

theorem row_bounds (hdim : 0 < chunkDim) (hc : c < chunkCount values.length chunkDim) :
    0 < (row values chunkDim c).length ∧ (row values chunkDim c).length ≤ chunkDim.toNat := by
  rw [chunkCount_eq_count hdim] at hc
  rw [row_eq_piece]
  exact Pieces.piece_bounds hdim hc

theorem row_length (values : List Int64) (chunkDim : UInt32) (c : Nat) :
    (row values chunkDim c).length =
      min chunkDim.toNat (values.length - c * chunkDim.toNat) := by
  rw [row_eq_piece, Pieces.piece_length]

/-- The row hashes, chunk by chunk. -/
theorem rowHashes_get {H : Hashes} (hdim : 0 < chunkDim)
    (hc : c < chunkCount values.length chunkDim) :
    ∃ hashes, rowHashes H values chunkDim = .ok hashes ∧
      hashes[c]? = some (rowHash H (row values chunkDim c)) := by
  have hne : ¬ chunkDim = 0 := fun h => by
    rw [h] at hdim
    exact absurd hdim (by decide)
  unfold rowHashes
  rw [if_neg hne]
  refine ⟨_, rfl, ?_⟩
  rw [List.getElem?_map, List.getElem?_range hc, Option.map_some]

end Rows

section Input

variable {rows : List (List Int64)} {rules : ChunkRules} {bytes : List UInt8}

theorem firstRagged_eq_none {dim : Nat} :
    firstRagged dim rows = none ↔ ∀ r ∈ rows, r.length = dim := by
  unfold firstRagged
  rw [List.findSome?_eq_none_iff]
  constructor
  · intro h r hr
    have ⟨i, hi⟩ := List.getElem?_of_mem hr
    have hentry := h (r, i) (List.mem_zipIdx_iff_getElem?.mpr hi)
    change (if r.length = dim then none else some (i, r)) = none at hentry
    by_contra hne
    rw [if_neg hne] at hentry
    cases hentry
  · intro h entry hentry
    have hr := List.mem_of_getElem? (List.mem_zipIdx_iff_getElem?.mp hentry)
    exact if_pos (h entry.1 hr)

/-- What stands behind the rows in the input of a chunk. -/
def inputTail (rows : List (List Int64)) (rules : ChunkRules) : List UInt8 :=
  rows.flatMap (fun r => rowBytes (r.map rules.confidence.confidence)) ++
    (rowBytes (rules.weight.weights rows.length) ++
      (beI64 rules.thresholdPos ++ beI64 rules.thresholdNeg))

/-- A chunk that is accepted has rows of one width within the caps; its input starts
with the shape, then come the rows. -/
theorem chunkInput_spec (h : chunkInput rows rules = .ok bytes) :
    ∃ dim, 0 < dim ∧ dim ≤ MAX_DIM ∧ 0 < rows.length ∧ rows.length ≤ MAX_N ∧
      (∀ r ∈ rows, r.length = dim) ∧
      bytes = toBE 4 dim ++
        (toBE 4 rows.length ++ ((rows.map rowBytes).flatten ++ inputTail rows rules)) := by
  unfold chunkInput at h
  dsimp only at h
  rw [check_eq_ok, check_eq_ok] at h
  have ⟨hn, hdim, hrest⟩ := h
  cases hragged : firstRagged (rows.headD []).length rows with
  | some entry =>
      rw [hragged] at hrest
      cases hrest
  | none =>
      rw [hragged] at hrest
      refine ⟨(rows.headD []).length, by omega, by omega, by omega, by omega,
        firstRagged_eq_none.mp hragged, ?_⟩
      cases hrest
      simp only [inputTail, List.flatMap_def, List.append_assoc]

/-- Rows of one width within the caps are accepted. -/
theorem chunkInput_ok {dim : Nat} (rules : ChunkRules) (hpos : 0 < dim) (hdim : dim ≤ MAX_DIM)
    (hn : 0 < rows.length) (hmax : rows.length ≤ MAX_N) (hrows : ∀ r ∈ rows, r.length = dim) :
    ∃ bytes, chunkInput rows rules = .ok bytes := by
  have hhead : (rows.headD []).length = dim := by
    cases rows with
    | nil => cases hn
    | cons r rest => exact hrows r List.mem_cons_self
  unfold chunkInput
  dsimp only
  rw [if_neg (by omega), hhead, if_neg (by omega), firstRagged_eq_none.mpr hrows]
  exact ⟨_, rfl⟩

/-- The rows read back out of an input. -/
def rowsOfInput (bytes : List UInt8) : List (List Int64) :=
  let dim := beNat (bytes.take 4)
  let n := beNat ((bytes.drop 4).take 4)
  (List.range n).map fun i => beI64s (Pieces.piece (8 * dim) (bytes.drop 8) i)

/-- A participant's row in the input of a chunk. -/
theorem input_row (h : chunkInput rows rules = .ok bytes) {i : Nat} {r : List Int64}
    (hr : rows[i]? = some r) : Pieces.piece (8 * r.length) (bytes.drop 8) i = rowBytes r := by
  have ⟨dim, _, _, _, _, hrows, hbytes⟩ := chunkInput_spec h
  have hwidth : r.length = dim := hrows r (List.mem_of_getElem? hr)
  have hpieces : ∀ l ∈ rows.map rowBytes, l.length = 8 * dim := by
    intro l hl
    have ⟨r', hr', heq⟩ := List.mem_map.mp hl
    rw [← heq, rowBytes_length, hrows r' hr']
  have hmap : (rows.map rowBytes)[i]? = some (rowBytes r) := by
    rw [List.getElem?_map, hr, Option.map_some]
  have hplace := Pieces.piece_flatten hpieces hmap
  have hin : i * (8 * dim) + 8 * dim ≤ (rows.map rowBytes).flatten.length := by
    have hlt := (List.getElem?_eq_some_iff.mp hr).1
    rw [Pieces.flatten_length hpieces, List.length_map, ← Nat.succ_mul]
    exact Nat.mul_le_mul_right _ hlt
  have hdrop : bytes.drop 8 = (rows.map rowBytes).flatten ++ inputTail rows rules := by
    rw [hbytes, ← List.append_assoc]
    exact List.drop_left' (by simp)
  unfold Pieces.piece at hplace ⊢
  rw [hwidth, hdrop, List.drop_append_of_le_length (by omega),
    List.take_append_of_le_length (by rw [List.length_drop]; omega)]
  exact hplace

/-- The rows and their shape are recovered from the input. -/
theorem rowsOfInput_eq (h : chunkInput rows rules = .ok bytes) : rowsOfInput bytes = rows := by
  have ⟨dim, _, hdim, _, hn, hrows, hbytes⟩ := chunkInput_spec h
  have hmaxDim : MAX_DIM = 1024 := rfl
  have hmaxN : MAX_N = 1024 := rfl
  have hfirst : bytes.take 4 = toBE 4 dim := by
    rw [hbytes]
    exact List.take_left' (toBE_length 4 dim)
  have hsecond : (bytes.drop 4).take 4 = toBE 4 rows.length := by
    rw [hbytes, List.drop_left' (toBE_length 4 dim)]
    exact List.take_left' (toBE_length 4 rows.length)
  unfold rowsOfInput
  rw [hfirst, hsecond, beNat_toBE (by omega), beNat_toBE (by omega)]
  apply List.ext_getElem?
  intro i
  rw [List.getElem?_map]
  by_cases hi : i < rows.length
  · have hr : rows[i]? = some rows[i] := List.getElem?_eq_getElem hi
    rw [List.getElem?_range hi, hr, Option.map_some]
    have hrow := input_row h hr
    rw [hrows rows[i] (List.getElem_mem hi)] at hrow
    rw [hrow, beI64s_rowBytes]
  · rw [List.getElem?_eq_none (by simpa using hi), List.getElem?_eq_none (by omega)]
    rfl

end Input

/-- What the layout of the chunks of a set of vectors guarantees. -/
structure LaidOut (H : Hashes) (vectors : List (List Int64)) (len : Nat) (chunkDim : UInt32)
    (rules : ChunkRules) : Prop where
  /-- The rows of a vector, one behind the other, are the vector. -/
  whole : ∀ v ∈ vectors,
    ((List.range (chunkCount len chunkDim)).map (row v chunkDim)).flatten = v
  bounded : ∀ v ∈ vectors, ∀ c < chunkCount len chunkDim,
    0 < (row v chunkDim c).length ∧ (row v chunkDim c).length ≤ chunkDim.toNat
  sameWidth : ∀ v ∈ vectors, ∀ w ∈ vectors, ∀ c < chunkCount len chunkDim,
    (row v chunkDim c).length = (row w chunkDim c).length
  /-- A chunk has an input exactly within the caps of the precompile. -/
  accepted : ∀ c < chunkCount len chunkDim,
    (∃ bytes, chunkInput (vectors.map fun v => row v chunkDim c) rules = .ok bytes) ↔
      vectors ≠ [] ∧ vectors.length ≤ MAX_N ∧
        ∀ v ∈ vectors, (row v chunkDim c).length ≤ MAX_DIM
  /-- The input of a chunk determines its rows. -/
  recovered : ∀ c < chunkCount len chunkDim, ∀ bytes,
    chunkInput (vectors.map fun v => row v chunkDim c) rules = .ok bytes →
      rowsOfInput bytes = vectors.map fun v => row v chunkDim c
  /-- The row hash of a participant is that of its own part of the input. -/
  hashed : ∀ c < chunkCount len chunkDim, ∀ bytes,
    chunkInput (vectors.map fun v => row v chunkDim c) rules = .ok bytes →
      ∀ i v, vectors[i]? = some v →
        Pieces.piece (8 * (row v chunkDim c).length) (bytes.drop 8) i =
            rowBytes (row v chunkDim c) ∧
        ∃ hashes, rowHashes H v chunkDim = .ok hashes ∧
          hashes[c]? = some (keccak H
            [Pieces.piece (8 * (row v chunkDim c).length) (bytes.drop 8) i])

section Layout

variable {vectors : List (List Int64)} {len : Nat} {chunkDim : UInt32} {rules : ChunkRules}
  {c : Nat}

theorem rows_sameWidth (hlen : ∀ v ∈ vectors, v.length = len) :
    ∀ v ∈ vectors, ∀ w ∈ vectors, (row v chunkDim c).length = (row w chunkDim c).length := by
  intro v hv w hw
  rw [row_length, row_length, hlen v hv, hlen w hw]

theorem chunkInput_accepts_iff (hlen : ∀ v ∈ vectors, v.length = len) (hdim : 0 < chunkDim)
    (hc : c < chunkCount len chunkDim) :
    (∃ bytes, chunkInput (vectors.map fun v => row v chunkDim c) rules = .ok bytes) ↔
      vectors ≠ [] ∧ vectors.length ≤ MAX_N ∧
        ∀ v ∈ vectors, (row v chunkDim c).length ≤ MAX_DIM := by
  constructor
  · rintro ⟨bytes, hbytes⟩
    have ⟨dim, _, hmax, hpos, hn, hrows, _⟩ := chunkInput_spec hbytes
    rw [List.length_map] at hpos hn
    refine ⟨List.ne_nil_of_length_pos hpos, hn, ?_⟩
    intro v hv
    rw [hrows _ (List.mem_map_of_mem hv)]
    exact hmax
  · rintro ⟨hne, hn, hmax⟩
    -- the width is that of the first participant
    have ⟨v, hv⟩ := List.exists_mem_of_ne_nil vectors hne
    have hcv := hc
    rw [← hlen v hv] at hcv
    refine chunkInput_ok rules (row_bounds hdim hcv).1 (hmax v hv) ?_ ?_ ?_
    · rw [List.length_map]
      exact List.length_pos_of_mem hv
    · rw [List.length_map]
      exact hn
    · intro r hr
      obtain ⟨w, hw, rfl⟩ := List.mem_map.mp hr
      exact rows_sameWidth hlen w hw v hv

end Layout

/-- **Chunk layout.**  For every nonempty set of value vectors of one length and
every chunk width above zero. -/
theorem chunk_layout (H : Hashes) (vectors : List (List Int64)) (len : Nat)
    (hlen : ∀ v ∈ vectors, v.length = len) (chunkDim : UInt32)
    (hdim : 0 < chunkDim) (rules : ChunkRules) : LaidOut H vectors len chunkDim rules := by
  refine ⟨?_, ?_, ?_, ?_, ?_, ?_⟩
  · intro v hv
    rw [← hlen v hv]
    exact rows_flatten hdim v
  · intro v hv c hc
    rw [← hlen v hv] at hc
    exact row_bounds hdim hc
  · intro v hv w hw c _
    exact rows_sameWidth hlen v hv w hw
  · intro c hc
    exact chunkInput_accepts_iff hlen hdim hc
  · intro c _ bytes hbytes
    exact rowsOfInput_eq hbytes
  · intro c hc bytes hbytes i v hv
    have hmem := List.mem_of_getElem? hv
    rw [← hlen v hmem] at hc
    have ⟨hashes, hok, hget⟩ := rowHashes_get (H := H) hdim hc
    have hrow : (vectors.map fun v => row v chunkDim c)[i]? = some (row v chunkDim c) := by
      rw [List.getElem?_map, hv, Option.map_some]
    refine ⟨input_row hbytes hrow, hashes, hok, ?_⟩
    rw [hget, input_row hbytes hrow]
    rfl

/-- Two participants with three values each, in chunks of two: the input of the short
last chunk, and the hash of the second participant's row in it. -/
theorem chunk_layout_short_last :
    ∃ bytes, chunkInput [[3], [6]] ⟨.nonzero, .uniform, 1, -1⟩ = .ok bytes ∧
      rowsOfInput bytes = [[3], [6]] ∧
      Pieces.piece 8 (bytes.drop 8) 1 = rowBytes [6] ∧
      ∃ hashes, rowHashes Tree.residueHashes [4, 5, 6] 2 = .ok hashes ∧
        hashes[1]? = some (keccak Tree.residueHashes [rowBytes [6]]) ∧
        keccak Tree.residueHashes [rowBytes [6]] ≠ keccak Tree.residueHashes [rowBytes [3]] := by
  have hlaid := chunk_layout Tree.residueHashes [[1, 2, 3], [4, 5, 6]] 3 (by decide) 2 (by decide)
    ⟨.nonzero, .uniform, 1, -1⟩
  have hlast : 1 < chunkCount 3 2 := by decide
  obtain ⟨bytes, hbytes⟩ := (hlaid.accepted 1 hlast).mpr (by decide)
  obtain ⟨hpiece, hashes, hok, hhash⟩ := hlaid.hashed 1 hlast bytes hbytes 1 [4, 5, 6] rfl
  refine ⟨bytes, hbytes, hlaid.recovered 1 hlast bytes hbytes, hpiece, hashes, hok, ?_, ?_⟩
  · rw [hhash, hpiece]
    rfl
  · decide +kernel

end Federated
end ComputePool
