import ComputePool.Federated.ChunkLayout
import ComputePool.Lib.Framing

/-!
# The hashes of a round

The three hashes a round is known by: of its configuration, of its place on chain and
of a delta of it.  What each is taken over is a concatenation without separators; the
domains tell the three apart, and within one the fields have fixed widths, all but the
roster, which comes last.
-/

namespace ComputePool
namespace Federated

open RustStd

/-- What one of the three hashes is taken over. -/
inductive RoundDigest where
  | config (cfg : RoundConfig)
  | round (chainId : UInt64) (ledger : Addr) (clusterId : B32) (ordinal : UInt64)
  | delta (roundId : B32) (worker : Addr) (deltaRoot deltaSha256 : B32) (nValues : UInt64)
      (chunkDim : UInt32)
  deriving DecidableEq

namespace RoundDigest

/-- The hash the code computes. -/
def value (H : Hashes) : RoundDigest → B32
  | config cfg => cfg.configHash H
  | round chainId ledger clusterId ordinal => roundId H chainId ledger clusterId ordinal
  | delta roundId worker deltaRoot deltaSha256 nValues chunkDim =>
      deltaDigest H roundId worker deltaRoot deltaSha256 nValues chunkDim

def domain : RoundDigest → List UInt8
  | config _ => CONFIG_DOMAIN
  | round _ _ _ _ => ROUND_DOMAIN
  | delta _ _ _ _ _ _ => DELTA_DOMAIN

/-- The fields behind the domain, in order. -/
def fields : RoundDigest → List (List UInt8)
  | config cfg =>
      [toBE 8 cfg.chainId.toNat,
        cfg.ledger.toBytes,
        cfg.clusterId.toBytes,
        cfg.baseModelSha256.toBytes,
        cfg.startAdapterSha256.toBytes,
        toBE 2 cfg.minParticipants.toNat,
        toBE 4 cfg.chunkDim.toNat,
        [cfg.valueScaleLog2],
        beI64 cfg.thresholdPos,
        beI64 cfg.thresholdNeg,
        [cfg.confidence.code, cfg.weight.code],
        toBE 8 cfg.maxValues.toNat,
        toBE 4 cfg.roster.length,
        cfg.roster.flatMap FixedBytes.toBytes]
  | round chainId ledger clusterId ordinal =>
      [toBE 8 chainId.toNat, ledger.toBytes, clusterId.toBytes, toBE 8 ordinal.toNat]
  | delta roundId worker deltaRoot deltaSha256 nValues chunkDim =>
      [roundId.toBytes, worker.toBytes, deltaRoot.toBytes, deltaSha256.toBytes,
        toBE 8 nValues.toNat, toBE 4 chunkDim.toNat]

/-- The bytes that are hashed. -/
def preimage (d : RoundDigest) : List UInt8 := d.domain ++ d.fields.flatten

theorem value_eq (H : Hashes) (d : RoundDigest) : d.value H = H.keccak256 d.preimage := by
  cases d with
  | config cfg => rfl
  | round chainId ledger clusterId ordinal => rfl
  | delta roundId worker deltaRoot deltaSha256 nValues chunkDim => rfl

/-- The three domains; none begins another. -/
def DOMAINS : List (List UInt8) := [CONFIG_DOMAIN, ROUND_DOMAIN, DELTA_DOMAIN]

theorem domain_mem (d : RoundDigest) : d.domain ∈ DOMAINS := by
  cases d with
  | config cfg => exact List.mem_cons_self
  | round chainId ledger clusterId ordinal => exact List.mem_cons_of_mem _ List.mem_cons_self
  | delta roundId worker deltaRoot deltaSha256 nValues chunkDim =>
      exact List.mem_cons_of_mem _ (List.mem_cons_of_mem _ List.mem_cons_self)

theorem domains_prefixFree : Framing.PrefixFree fun d : { d // d ∈ DOMAINS } => d.val := by
  have hall : ∀ x ∈ DOMAINS, ∀ y ∈ DOMAINS, x <+: y → x = y := by decide +kernel
  apply Framing.prefixFree_of_prefix
  intro x y h
  exact Subtype.ext (hall x.val x.property y.val y.property h)

/-- The domain of a preimage, and the fields behind it, can be read off. -/
theorem preimage_split {a b : RoundDigest} (h : a.preimage = b.preimage) :
    a.domain = b.domain ∧ a.fields.flatten = b.fields.flatten := by
  have ⟨hdomain, hfields⟩ :=
    @domains_prefixFree ⟨a.domain, a.domain_mem⟩ ⟨b.domain, b.domain_mem⟩ _ _ h
  exact ⟨congrArg Subtype.val hdomain, hfields⟩

/-- Fields of the same widths are told apart in their concatenation. -/
theorem fields_of_flatten {a b : RoundDigest} (hsame : a.fields.flatten = b.fields.flatten)
    (hwidths : a.fields.map List.length = b.fields.map List.length) : a.fields = b.fields :=
  List.eq_iff_flatten_eq.mpr ⟨hsame, hwidths⟩

end RoundDigest

/-! ## The fields are read back -/

theorem u64_of_toBE {a b : UInt64} (h : toBE 8 a.toNat = toBE 8 b.toNat) : a = b :=
  UInt64.toNat_inj.mp (toBE_injective a.toNat_lt b.toNat_lt h)

theorem u32_of_toBE {a b : UInt32} (h : toBE 4 a.toNat = toBE 4 b.toNat) : a = b :=
  UInt32.toNat_inj.mp (toBE_injective a.toNat_lt b.toNat_lt h)

theorem u16_of_toBE {a b : UInt16} (h : toBE 2 a.toNat = toBE 2 b.toNat) : a = b :=
  UInt16.toNat_inj.mp (toBE_injective a.toNat_lt b.toNat_lt h)

theorem i64_of_beI64 {a b : Int64} (h : beI64 a = beI64 b) : a = b :=
  Function.LeftInverse.injective ofBeI64_beI64 h

theorem roster_length (roster : List Addr) :
    (roster.flatMap FixedBytes.toBytes).length = 20 * roster.length := by
  induction roster with
  | nil => rfl
  | cons a rest ih =>
      rw [List.flatMap_cons, List.length_append, FixedBytes.toBytes_length, ih, List.length_cons]
      omega

/-- A roster is read back from its addresses. -/
theorem roster_of_flatMap {r s : List Addr}
    (h : r.flatMap FixedBytes.toBytes = s.flatMap FixedBytes.toBytes) : r = s :=
  Framing.flatMap_injective (by decide) FixedBytes.toBytes_length FixedBytes.toBytes_injective h

theorem config_of_fields {c d : RoundConfig}
    (h : (RoundDigest.config c).fields = (RoundDigest.config d).fields) : c = d := by
  simp only [RoundDigest.fields, List.cons.injEq, and_true] at h
  have ⟨hchain, hledger, hcluster, hbase, hstart, hmin, hdim, hscale, hpos, hneg, _, hmax, _,
    hroster⟩ := h
  cases c with
  | mk chainId ledger clusterId base start roster min dim scale pos neg confidence weight max =>
    cases d with
    | mk chainId' ledger' clusterId' base' start' roster' min' dim' scale' pos' neg' confidence'
        weight' max' =>
      cases confidence
      cases confidence'
      cases weight
      cases weight'
      cases u64_of_toBE hchain
      cases FixedBytes.toBytes_injective hledger
      cases FixedBytes.toBytes_injective hcluster
      cases FixedBytes.toBytes_injective hbase
      cases FixedBytes.toBytes_injective hstart
      cases u16_of_toBE hmin
      cases u32_of_toBE hdim
      cases hscale
      cases i64_of_beI64 hpos
      cases i64_of_beI64 hneg
      cases u64_of_toBE hmax
      cases roster_of_flatMap hroster
      rfl

/-- The widths of a configuration's fields are known from the length of all. -/
theorem config_widths {c d : RoundConfig}
    (h : (RoundDigest.config c).fields.flatten = (RoundDigest.config d).fields.flatten) :
    (RoundDigest.config c).fields.map List.length =
      (RoundDigest.config d).fields.map List.length := by
  have hlength := congrArg List.length h
  simp only [RoundDigest.fields, List.length_flatten, List.map_cons, List.map_nil, List.sum_cons,
    List.sum_nil, toBE_length, FixedBytes.toBytes_length, beI64_length, List.length_cons,
    roster_length] at hlength ⊢
  have hroster : 20 * c.roster.length = 20 * d.roster.length := by omega
  rw [hroster]

/-- The bytes of the three hashes: no two of them are alike. -/
theorem preimage_injective : Function.Injective RoundDigest.preimage := by
  intro a b h
  have ⟨hdomain, hfields⟩ := RoundDigest.preimage_split h
  have hround : CONFIG_DOMAIN ≠ ROUND_DOMAIN := by decide +kernel
  have hdelta : CONFIG_DOMAIN ≠ DELTA_DOMAIN := by decide +kernel
  have hroundDelta : ROUND_DOMAIN ≠ DELTA_DOMAIN := by decide +kernel
  cases a with
  | config c =>
      cases b with
      | config d =>
          have hwidths := config_widths hfields
          rw [config_of_fields (RoundDigest.fields_of_flatten hfields hwidths)]
      | round _ _ _ _ => exact absurd hdomain hround
      | delta _ _ _ _ _ _ => exact absurd hdomain hdelta
  | round chainId ledger clusterId ordinal =>
      cases b with
      | config _ => exact absurd hdomain.symm hround
      | round chainId' ledger' clusterId' ordinal' =>
          have hsame := RoundDigest.fields_of_flatten hfields (by simp [RoundDigest.fields])
          simp only [RoundDigest.fields, List.cons.injEq, and_true] at hsame
          have ⟨hchain, hledger, hcluster, hordinal⟩ := hsame
          rw [u64_of_toBE hchain, FixedBytes.toBytes_injective hledger,
            FixedBytes.toBytes_injective hcluster, u64_of_toBE hordinal]
      | delta _ _ _ _ _ _ => exact absurd hdomain hroundDelta
  | delta roundId worker deltaRoot deltaSha256 nValues chunkDim =>
      cases b with
      | config _ => exact absurd hdomain.symm hdelta
      | round _ _ _ _ => exact absurd hdomain.symm hroundDelta
      | delta roundId' worker' deltaRoot' deltaSha256' nValues' chunkDim' =>
          have hsame := RoundDigest.fields_of_flatten hfields (by simp [RoundDigest.fields])
          simp only [RoundDigest.fields, List.cons.injEq, and_true] at hsame
          have ⟨hround, hworker, hroot, hsha, hvalues, hdim⟩ := hsame
          rw [FixedBytes.toBytes_injective hround, FixedBytes.toBytes_injective hworker,
            FixedBytes.toBytes_injective hroot, FixedBytes.toBytes_injective hsha,
            u64_of_toBE hvalues, u32_of_toBE hdim]

/-! ## Chunks of a valid round -/

/-- Some of a roster: each device at most once. -/
structure Participants (cfg : RoundConfig) (participants : List Addr) : Prop where
  some_one : participants ≠ []
  nodup : participants.Nodup
  in_roster : ∀ who ∈ participants, who ∈ cfg.roster

theorem Participants.length_le {cfg : RoundConfig} {participants : List Addr}
    (h : Participants cfg participants) : participants.length ≤ cfg.roster.length :=
  (h.nodup.subperm h.in_roster).length_le

/-- Every chunk of a valid round has an input within the caps, whoever takes part. -/
theorem chunk_fits {cfg : RoundConfig} (hcfg : cfg.validate = .ok ()) {participants : List Addr}
    (hwho : Participants cfg participants) {values : Addr → List Int64} {n : Nat}
    (hvalues : ∀ who ∈ participants, (values who).length = n) {c : Nat}
    (hc : c < chunkCount n cfg.chunkDim) :
    ∃ width bytes, 0 < width ∧
      (∀ who ∈ participants, (row (values who) cfg.chunkDim c).length = width) ∧
      chunkInput (participants.map fun who => row (values who) cfg.chunkDim c) cfg.chunkRules =
        .ok bytes ∧
      participants.length * width ≤ MAX_CHUNK_CELLS := by
  have hvalid := RoundConfig.valid_of_validate hcfg
  have hdim : 0 < cfg.chunkDim := UInt32.pos_iff_ne_zero.mpr hvalid.chunkDim_pos
  have hstart := (lt_chunkCount_iff hdim).mp hc
  have hpos : 0 < cfg.chunkDim.toNat := hdim
  have hwidth : ∀ who ∈ participants, (row (values who) cfg.chunkDim c).length =
      min cfg.chunkDim.toNat (n - c * cfg.chunkDim.toNat) := by
    intro who hmem
    rw [row_length, hvalues who hmem]
  have hle : min cfg.chunkDim.toNat (n - c * cfg.chunkDim.toNat) ≤ cfg.chunkDim.toNat :=
    Nat.min_le_left _ _
  have hfew := hwho.length_le
  have hrows : ∀ r ∈ participants.map fun who => row (values who) cfg.chunkDim c,
      r.length = min cfg.chunkDim.toNat (n - c * cfg.chunkDim.toNat) := by
    intro r hr
    have ⟨who, hmem, hrow⟩ := List.mem_map.mp hr
    rw [← hrow]
    exact hwidth who hmem
  have hsome : 0 < participants.length := List.length_pos_iff.mpr hwho.some_one
  have hroster := hvalid.roster_le
  have hmax := hvalid.chunkDim_le
  have ⟨bytes, hbytes⟩ := @chunkInput_ok (participants.map fun who =>
    row (values who) cfg.chunkDim c) _ cfg.chunkRules (by omega) (by omega)
    (by rwa [List.length_map]) (by rw [List.length_map]; omega) hrows
  refine ⟨_, bytes, by omega, hwidth, hbytes, ?_⟩
  calc participants.length * min cfg.chunkDim.toNat (n - c * cfg.chunkDim.toNat)
      ≤ cfg.roster.length * cfg.chunkDim.toNat := Nat.mul_le_mul hfew hle
    _ ≤ MAX_CHUNK_CELLS := hvalid.cells_le

/-- Where the hash does not collide, two of a round's hashes that agree are hashes of
the same thing: of one configuration, field by field, of one place on chain, or of one
delta.  And every chunk of values that a valid configuration admits has an input,
whichever devices of the roster take part. -/
theorem round_hashes_separated (H : Hashes) (known : Set RoundDigest)
    (hfree : Set.InjOn H.keccak256 (RoundDigest.preimage '' known)) :
    (∀ a ∈ known, ∀ b ∈ known, a.value H = b.value H → a = b) ∧
      ∀ (cfg : RoundConfig) (participants : List Addr) (values : Addr → List Int64) (n c : Nat),
        cfg.validate = .ok () → Participants cfg participants → 0 < n →
        (∀ who ∈ participants, (values who).length = n) → c < chunkCount n cfg.chunkDim →
          ∃ width bytes, 0 < width ∧
            (∀ who ∈ participants, (row (values who) cfg.chunkDim c).length = width) ∧
            chunkInput (participants.map fun who => row (values who) cfg.chunkDim c)
              cfg.chunkRules = .ok bytes ∧
            participants.length * width ≤ MAX_CHUNK_CELLS := by
  constructor
  · intro a ha b hb h
    rw [RoundDigest.value_eq, RoundDigest.value_eq] at h
    exact preimage_injective (hfree (Set.mem_image_of_mem _ ha) (Set.mem_image_of_mem _ hb) h)
  · intro cfg participants values n c hcfg hwho _ hvalues hc
    exact chunk_fits hcfg hwho hvalues hc

def threeDevices : RoundConfig where
  chainId := 1
  ledger := FixedBytes.ofNat 7
  clusterId := FixedBytes.ofNat 8
  baseModelSha256 := FixedBytes.ofNat 9
  startAdapterSha256 := FixedBytes.ofNat 10
  roster := [FixedBytes.ofNat 1, FixedBytes.ofNat 2, FixedBytes.ofNat 3]
  minParticipants := 3
  chunkDim := 2
  valueScaleLog2 := 4
  thresholdPos := 1
  thresholdNeg := -1
  confidence := .nonzero
  weight := .uniform
  maxValues := 100

def firstAndThird : List Addr := [FixedBytes.ofNat 1, FixedBytes.ofNat 3]

/-- One hash of each kind. -/
def oneOfEach : List RoundDigest :=
  [.config threeDevices, .round 1 (FixedBytes.ofNat 7) (FixedBytes.ofNat 8) 1,
    .delta FixedBytes.zero (FixedBytes.ofNat 1) FixedBytes.zero FixedBytes.zero 3 2]

theorem oneOfEach_free :
    Set.InjOn Tree.residueHashes.keccak256 (RoundDigest.preimage '' { d | d ∈ oneOfEach }) := by
  have hall : ∀ a ∈ oneOfEach, ∀ b ∈ oneOfEach,
      Tree.residueHashes.keccak256 a.preimage = Tree.residueHashes.keccak256 b.preimage →
        a.preimage = b.preimage := by decide +kernel
  intro x hx y hy h
  have ⟨a, ha, hax⟩ := hx
  have ⟨b, hb, hby⟩ := hy
  subst hax hby
  exact hall a ha b hb h

/-- Two of three devices take part, and the second chunk of three values is short. -/
theorem round_hashes_separated_three :
    (RoundDigest.config threeDevices).value Tree.residueHashes ≠
        (RoundDigest.round 1 (FixedBytes.ofNat 7) (FixedBytes.ofNat 8) 1).value
          Tree.residueHashes ∧
      ∃ width bytes, 0 < width ∧
        (∀ who ∈ firstAndThird, (row [5, 6, 7] threeDevices.chunkDim 1).length = width) ∧
        chunkInput [row [5, 6, 7] threeDevices.chunkDim 1, row [5, 6, 7] threeDevices.chunkDim 1]
          threeDevices.chunkRules = .ok bytes ∧
        2 * width ≤ MAX_CHUNK_CELLS := by
  have hvalid : threeDevices.validate = .ok () := by decide +kernel
  have hwho : Participants threeDevices firstAndThird :=
    { some_one := List.cons_ne_nil _ _
      nodup := by decide +kernel
      in_roster := by decide +kernel }
  have ⟨hsep, hfits⟩ := round_hashes_separated Tree.residueHashes { d | d ∈ oneOfEach }
    oneOfEach_free
  constructor
  · intro hsame
    have hmem := hsep _ (List.mem_cons_self) _ (List.mem_cons_of_mem _ List.mem_cons_self) hsame
    cases hmem
  · exact hfits threeDevices _ (fun _ => [5, 6, 7]) 3 1 hvalid hwho (by decide)
      (fun _ _ => rfl) (by decide +kernel)

end Federated
end ComputePool
