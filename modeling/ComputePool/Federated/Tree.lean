import ComputePool.Federated.Basic
import ComputePool.Lib.HashTree
import ComputePool.Rust.Result

/-!
# The positional Merkle tree

The tree every round root uses (`fl/tree.rs`).  A leaf hashes its own index, the
leaf level is padded with zero words to a power of two, and tags keep nodes and
leaves apart.
-/

namespace ComputePool
namespace Federated

open RustStd HashTree

namespace Tree

variable (H : Hashes)

/-- Most leaves a tree may have. -/
def MAX_LEAVES : Nat := 2 ^ 31

inductive TreeError where
  | empty
  | tooMany (len : Nat)
  | index (index len : Nat)
  deriving DecidableEq

def leafBytes (index : Nat) (payload : B32) : List UInt8 :=
  [[0x00], toBE 4 index, payload.toBytes].flatten

def leaf (index : Nat) (payload : B32) : B32 := H.keccak256 (leafBytes index payload)

def nodeBytes (left right : B32) : List UInt8 :=
  [[0x01], left.toBytes, right.toBytes].flatten

def node (left right : B32) : B32 := H.keccak256 (nodeBytes left right)

/-- `usize::next_power_of_two`. -/
def nextPowerOfTwo (n : Nat) : Nat := 2 ^ Nat.clog 2 n

def leaves (payloads : List B32) : Except TreeError (List B32) :=
  if payloads.isEmpty then .error .empty
  else if payloads.length > MAX_LEAVES then .error (.tooMany payloads.length)
  else
    let width := nextPowerOfTwo payloads.length
    let level := payloads.zipIdx.map fun e => leaf H e.2 e.1
    .ok (level ++ List.replicate (width - level.length) FixedBytes.zero)

/-- `while level.len() > 1`: halve the level.  A level is halved at most as often
as it is long. -/
def rootLoop : Nat → List B32 → List B32
  | 0, level => level
  | fuel + 1, level =>
      if level.length > 1 then rootLoop fuel (pairUp (node H) level) else level

def root (payloads : List B32) : Except TreeError B32 := do
  let level ← leaves H payloads
  .ok ((rootLoop H level.length level).headD FixedBytes.zero)

/-- The sibling of an index, `i ^ 1`. -/
def sibling (i : Nat) : Nat := if i % 2 = 0 then i + 1 else i - 1

def proofLoop : Nat → List B32 → Nat → List B32
  | 0, _, _ => []
  | fuel + 1, level, i =>
      if level.length > 1 then
        level.getD (sibling i) FixedBytes.zero ::
          proofLoop fuel (pairUp (node H) level) (i / 2)
      else []

def proof (payloads : List B32) (index : Nat) : Except TreeError (List B32) :=
  if index ≥ payloads.length then .error (.index index payloads.length)
  else do
    let level ← leaves H payloads
    .ok (proofLoop H level.length level index)

def verify (root : B32) (index : UInt32) (payload : B32) (path : List B32) : Bool :=
  climb (node H) (leaf H index.toNat payload) index.toNat path == root

/-- The depth of the tree over `n` payloads. -/
def depth (n : Nat) : Nat := Nat.clog 2 n

/-! ## The level of leaves -/

variable {H}

@[simp] theorem leafBytes_length (index : Nat) (payload : B32) :
    (leafBytes index payload).length = 37 := by
  simp [leafBytes]

@[simp] theorem nodeBytes_length (left right : B32) : (nodeBytes left right).length = 65 := by
  simp [nodeBytes]

theorem leafBytes_ne_nodeBytes (index : Nat) (payload left right : B32) :
    leafBytes index payload ≠ nodeBytes left right := by
  intro hsame
  have hlength := congrArg List.length hsame
  simp at hlength

theorem leafBytes_injective {i j : Nat} {p q : B32} (hi : i < 2 ^ 32) (hj : j < 2 ^ 32)
    (h : leafBytes i p = leafBytes j q) : i = j ∧ p = q := by
  simp only [leafBytes, List.flatten_cons, List.flatten_nil, List.append_nil,
    List.append_cancel_left_eq] at h
  obtain ⟨hindex, hpayload⟩ := List.append_inj h (by simp)
  exact ⟨toBE_injective (by simpa using hi) (by simpa using hj) hindex,
    FixedBytes.toBytes_injective hpayload⟩

theorem nodeBytes_injective {l r l' r' : B32} (h : nodeBytes l r = nodeBytes l' r') :
    (l, r) = (l', r') := by
  simp only [nodeBytes, List.flatten_cons, List.flatten_nil, List.append_nil,
    List.append_cancel_left_eq] at h
  obtain ⟨hleft, hright⟩ := List.append_inj h (by simp)
  rw [FixedBytes.toBytes_injective hleft, FixedBytes.toBytes_injective hright]

/-- The shape of an accepted leaf level: a power of two entries, first the leaves
and then zero words. -/
theorem leaves_spec {payloads level : List B32} (h : leaves H payloads = .ok level) :
    payloads.length ≤ MAX_LEAVES ∧ level.length = 2 ^ depth payloads.length ∧
      ∀ i x, level[i]? = some x →
        (∃ p, payloads[i]? = some p ∧ x = leaf H i p) ∨
          (payloads.length ≤ i ∧ x = FixedBytes.zero) := by
  unfold leaves at h
  split at h
  · cases h
  split at h
  · cases h
  rename_i hmany
  cases h
  have hwidth : payloads.length ≤ 2 ^ Nat.clog 2 payloads.length := Nat.le_pow_clog (by decide) _
  refine ⟨not_lt.mp hmany, ?_, fun i x hx => ?_⟩
  · simp only [List.length_append, List.length_map, List.length_zipIdx, List.length_replicate,
      nextPowerOfTwo, depth]
    omega
  · rcases Nat.lt_or_ge i payloads.length with hin | hout
    · rw [List.getElem?_append_left (by simpa using hin), List.getElem?_map,
        List.getElem?_zipIdx, List.getElem?_eq_getElem hin] at hx
      refine .inl ⟨payloads.get ⟨i, hin⟩, List.getElem?_eq_getElem hin, ?_⟩
      simpa using hx.symm
    · rw [List.getElem?_append_right (by simpa using hout)] at hx
      refine .inr ⟨hout, ?_⟩
      exact List.eq_of_mem_replicate (List.mem_of_getElem? hx)

theorem leaves_leaf {payloads level : List B32} (h : leaves H payloads = .ok level) {i : Nat}
    {p : B32} (hp : payloads[i]? = some p) : level[i]? = some (leaf H i p) := by
  obtain ⟨-, hlength, hentry⟩ := leaves_spec h
  have hin := (List.getElem?_eq_some_iff.mp hp).1
  have hwidth : payloads.length ≤ 2 ^ depth payloads.length := Nat.le_pow_clog (by decide) _
  have hlt : i < level.length := by omega
  have hx := List.getElem?_eq_getElem hlt
  rcases hentry i _ hx with ⟨q, hq, hleaf⟩ | ⟨hout, -⟩
  · rw [hp] at hq
    cases hq
    rw [hx, hleaf]
  · omega

theorem leaves_ok {payloads : List B32} (hne : payloads ≠ [])
    (hmany : payloads.length ≤ MAX_LEAVES) : ∃ level, leaves H payloads = .ok level := by
  rw [leaves, if_neg (by simpa using hne), if_neg (not_lt.mpr hmany)]
  exact ⟨_, rfl⟩

/-! ## The loops -/

theorem rootLoop_eq {d fuel : Nat} {level : List B32} (hlen : level.length = 2 ^ d)
    (hfuel : d ≤ fuel) : rootLoop H fuel level = above (node H) d level := by
  induction d generalizing fuel level with
  | zero =>
      cases fuel with
      | zero => rfl
      | succ fuel => rw [rootLoop, if_neg (by omega), above_zero]
  | succ d ih =>
      cases fuel with
      | zero => omega
      | succ fuel =>
          have hlong : level.length > 1 := by
            rw [hlen]
            exact Nat.one_lt_two_pow (by omega)
          rw [rootLoop, if_pos hlong, ih (length_pairUp_pow _ hlen) (by omega), above_pairUp]

theorem proofLoop_eq {d fuel i : Nat} {level : List B32} (hlen : level.length = 2 ^ d)
    (hfuel : d ≤ fuel) (hi : i < 2 ^ d) :
    proofLoop H fuel level i = siblings (node H) d level i := by
  induction d generalizing fuel level i with
  | zero =>
      cases fuel with
      | zero => rfl
      | succ fuel => rw [proofLoop, if_neg (by omega), siblings]
  | succ d ih =>
      cases fuel with
      | zero => omega
      | succ fuel =>
          have hlong : level.length > 1 := by
            rw [hlen]
            exact Nat.one_lt_two_pow (by omega)
          have hhalf : i / 2 < 2 ^ d := by rw [Nat.pow_succ] at hi; omega
          have hsib : sibling i < level.length := hlen ▸ sibling_lt hi
          rw [proofLoop, if_pos hlong, ih (length_pairUp_pow _ hlen) (by omega) hhalf, siblings,
            List.getD_eq_getElem?_getD, List.getElem?_eq_getElem hsib]
          exact congrArg (· ++ _) (congrArg Option.toList (List.getElem?_eq_getElem hsib)).symm

theorem depth_le_length {payloads level : List B32} (h : leaves H payloads = .ok level) :
    depth payloads.length ≤ level.length := by
  rw [(leaves_spec h).2.1]
  exact Nat.lt_two_pow_self.le

/-- A root is the top of the tree over the leaf level. -/
theorem root_spec {payloads : List B32} {r : B32} (h : root H payloads = .ok r) :
    ∃ level, leaves H payloads = .ok level ∧
      (above (node H) (depth payloads.length) level)[0]? = some r := by
  obtain ⟨level, hlevel, htop⟩ := bind_eq_ok.mp h
  refine ⟨level, hlevel, ?_⟩
  have hlength : level.length = 2 ^ (0 + depth payloads.length) := by
    rw [Nat.zero_add]
    exact (leaves_spec hlevel).2.1
  have hone := length_above (node H) hlength
  rw [rootLoop_eq (leaves_spec hlevel).2.1 (depth_le_length hlevel)] at htop
  cases htop
  cases habove : above (node H) (depth payloads.length) level with
  | nil => simp [habove] at hone
  | cons top rest => rfl

/-- The path `proof` gives climbs from its leaf to the root. -/
theorem proof_spec {payloads : List B32} {r : B32} (hroot : root H payloads = .ok r) {i : Nat}
    {p : B32} (hp : payloads[i]? = some p) :
    ∃ path, proof H payloads i = .ok path ∧ path.length = depth payloads.length ∧
      climb (node H) (leaf H i p) i path = r := by
  obtain ⟨level, hlevel, htop⟩ := root_spec hroot
  have hlength := (leaves_spec hlevel).2.1
  have hentry := leaves_leaf hlevel hp
  have hi : i < 2 ^ depth payloads.length := hlength ▸ (List.getElem?_eq_some_iff.mp hentry).1
  have hin : ¬ i ≥ payloads.length := not_le.mpr (List.getElem?_eq_some_iff.mp hp).1
  refine ⟨siblings (node H) (depth payloads.length) level i, ?_, ?_, ?_⟩
  · rw [proof, if_neg hin, hlevel, ← proofLoop_eq hlength (depth_le_length hlevel) hi]
    rfl
  · exact length_siblings _ hlength hi
  · have hclimb := climb_siblings (node H) hlength hentry
    rw [htop] at hclimb
    exact (Option.some.inj hclimb).symm

/-! ## Completeness and soundness -/

/-- The byte strings hashed for the root over `payloads`. -/
def rootInputs (H : Hashes) (payloads : List B32) : List (List UInt8) :=
  match leaves H payloads with
  | .error _ => []
  | .ok level =>
      payloads.zipIdx.map (fun e => leafBytes e.2 e.1) ++
        (treePairs (node H) (depth payloads.length) level).map fun e => nodeBytes e.1 e.2

/-- The byte strings hashed to check a path. -/
def verifyInputs (H : Hashes) (index : UInt32) (payload : B32) (path : List B32) :
    List (List UInt8) :=
  leafBytes index.toNat payload ::
    (climbPairs (node H) (leaf H index.toNat payload) index.toNat path).map
      fun e => nodeBytes e.1 e.2

/-- No two of the byte strings collide, and none hashes to the padding word. -/
structure CollisionFree (H : Hashes) (inputs : List (List UInt8)) : Prop where
  injective : ∀ x ∈ inputs, ∀ y ∈ inputs, H.keccak256 x = H.keccak256 y → x = y
  nonzero : ∀ x ∈ inputs, H.keccak256 x ≠ FixedBytes.zero

section Soundness

variable {payloads level path : List B32} {r p : B32} {index : UInt32}

theorem mem_rootInputs_leaf (hlevel : leaves H payloads = .ok level) {i : Nat} {q : B32}
    (hq : payloads[i]? = some q) : leafBytes i q ∈ rootInputs H payloads := by
  rw [rootInputs, hlevel]
  refine List.mem_append_left _ (List.mem_map.mpr ⟨(q, i), ?_, rfl⟩)
  exact List.mem_of_getElem? (by rw [List.getElem?_zipIdx, hq]; simp)

theorem mem_rootInputs_node (hlevel : leaves H payloads = .ok level) {e : B32 × B32}
    (he : e ∈ treePairs (node H) (depth payloads.length) level) :
    nodeBytes e.1 e.2 ∈ rootInputs H payloads := by
  rw [rootInputs, hlevel]
  exact List.mem_append_right _ (List.mem_map.mpr ⟨e, he, rfl⟩)

theorem mem_verifyInputs_node {e : B32 × B32}
    (he : e ∈ climbPairs (node H) (leaf H index.toNat p) index.toNat path) :
    nodeBytes e.1 e.2 ∈ verifyInputs H index p path :=
  List.mem_cons_of_mem _ (List.mem_map.mpr ⟨e, he, rfl⟩)

/-- A digest on the leaf level is not that of a node. -/
theorem leaf_level_not_node (hlevel : leaves H payloads = .ok level)
    (hfree : CollisionFree H (rootInputs H payloads ++ verifyInputs H index p path)) {i : Nat}
    {e : B32 × B32} (he : e ∈ climbPairs (node H) (leaf H index.toNat p) index.toNat path) :
    level[i]? ≠ some (node H e.1 e.2) := by
  intro hentry
  have hnode := List.mem_append_right (rootInputs H payloads) (mem_verifyInputs_node he)
  rcases (leaves_spec hlevel).2.2 i _ hentry with ⟨q, hq, hleaf⟩ | ⟨-, hzero⟩
  · have hmem := List.mem_append_left (verifyInputs H index p path)
      (mem_rootInputs_leaf hlevel hq)
    exact leafBytes_ne_nodeBytes _ _ _ _ (hfree.injective _ hmem _ hnode hleaf.symm)
  · exact hfree.nonzero _ hnode hzero

/-- The leaf of a path is not a node of the tree. -/
theorem leaf_not_tree_node (hlevel : leaves H payloads = .ok level)
    (hfree : CollisionFree H (rootInputs H payloads ++ verifyInputs H index p path))
    {e : B32 × B32} (he : e ∈ treePairs (node H) (depth payloads.length) level) :
    leaf H index.toNat p ≠ node H e.1 e.2 := by
  intro hsame
  have hnode := List.mem_append_left (verifyInputs H index p path) (mem_rootInputs_node hlevel he)
  have hleaf := List.mem_append_right (rootInputs H payloads)
    (List.mem_cons_self : leafBytes index.toNat p ∈ verifyInputs H index p path)
  exact leafBytes_ne_nodeBytes _ _ _ _ (hfree.injective _ hleaf _ hnode hsame)

/-- A leaf that sits on the leaf level sits at its own index. -/
theorem leaf_level_own_index (hlevel : leaves H payloads = .ok level)
    (hfree : CollisionFree H (rootInputs H payloads ++ verifyInputs H index p path)) {i : Nat}
    (hi : i < 2 ^ 32) (hentry : level[i]? = some (leaf H index.toNat p)) :
    index.toNat = i ∧ payloads[i]? = some p := by
  have hleaf := List.mem_append_right (rootInputs H payloads)
    (List.mem_cons_self : leafBytes index.toNat p ∈ verifyInputs H index p path)
  rcases (leaves_spec hlevel).2.2 i _ hentry with ⟨q, hq, hsame⟩ | ⟨-, hzero⟩
  · have hmem := List.mem_append_left (verifyInputs H index p path)
      (mem_rootInputs_leaf hlevel hq)
    have hbytes := hfree.injective _ hleaf _ hmem hsame
    obtain ⟨hindex, hpayload⟩ := leafBytes_injective index.toNat_lt hi hbytes
    exact ⟨hindex, hpayload ▸ hq⟩
  · exact absurd hzero (hfree.nonzero _ hleaf)

theorem noCollision (hlevel : leaves H payloads = .ok level)
    (hfree : CollisionFree H (rootInputs H payloads ++ verifyInputs H index p path)) :
    NoCollision (node H) (climbPairs (node H) (leaf H index.toNat p) index.toNat path)
      (treePairs (node H) (depth payloads.length) level) := by
  intro a ha b hb hsame
  have hmine := List.mem_append_right (rootInputs H payloads) (mem_verifyInputs_node ha)
  have htree := List.mem_append_left (verifyInputs H index p path) (mem_rootInputs_node hlevel hb)
  exact nodeBytes_injective (hfree.injective _ hmine _ htree hsame)

/-- A path that verifies has the depth of the tree and opens its own payload. -/
theorem verify_sound (hroot : root H payloads = .ok r)
    (hfree : CollisionFree H (rootInputs H payloads ++ verifyInputs H index p path))
    (hverify : verify H r index p path = true) :
    path.length = depth payloads.length ∧ payloads[index.toNat]? = some p := by
  obtain ⟨level, hlevel, htop⟩ := root_spec hroot
  have hreach : climb (node H) (leaf H index.toNat p) index.toNat path = r :=
    eq_of_beq hverify
  rw [← hreach] at htop
  have hpasses := climb_passes (noCollision hlevel hfree) htop
  rcases Nat.lt_trichotomy path.length (depth payloads.length) with hshort | hexact | hlong
  · -- a path that ends inside the tree would make the leaf a node of it
    have hend := hpasses path.length le_rfl hshort.le
    rw [Nat.sub_self, List.take_zero, climb] at hend
    have habove : depth payloads.length - path.length =
        depth payloads.length - path.length - 1 + 1 := by omega
    have hbelow : depth payloads.length - path.length - 1 < depth payloads.length := by omega
    rw [habove] at hend
    obtain ⟨e, he, hsame⟩ := above_eq_node (node H) hbelow hend
    exact absurd hsame (leaf_not_tree_node hlevel hfree he)
  · have hend := hpasses (depth payloads.length) hexact.ge le_rfl
    rw [Nat.sub_self, hexact, Nat.sub_self, List.take_zero, climb, above_zero, Nat.pow_zero,
      Nat.div_one] at hend
    have hdepth : index.toNat % 2 ^ depth payloads.length < 2 ^ 32 :=
      (Nat.mod_le _ _).trans_lt index.toNat_lt
    obtain ⟨hindex, hpayload⟩ := leaf_level_own_index hlevel hfree hdepth hend
    exact ⟨hexact, hindex ▸ hpayload⟩
  · -- a path that goes on below the leaves would make an entry of their level a node
    have hend := hpasses (depth payloads.length) hlong.le le_rfl
    rw [Nat.sub_self, above_zero] at hend
    have hne : path.take (path.length - depth payloads.length) ≠ [] := by
      intro hnil
      have hlen := congrArg List.length hnil
      simp at hlen
      omega
    obtain ⟨e, he, hsame⟩ := climb_eq_node (node H) (leaf H index.toNat p) index.toNat hne
    rw [hsame] at hend
    refine absurd hend (leaf_level_not_node hlevel hfree ?_)
    have happend := climbPairs_append (node H) (leaf H index.toNat p) index.toNat
      (path.take (path.length - depth payloads.length))
      (path.drop (path.length - depth payloads.length))
    rw [List.take_append_drop] at happend
    rw [happend]
    exact List.mem_append_left _ he

end Soundness

/-- Every payload of a list has a proof that verifies at its index against the
root of the list; and where no hashed byte strings collide, whatever verifies
against that root is a payload of the list at its own index, with a path of the
tree's depth. -/
theorem tree_complete_and_sound (H : Hashes) (payloads : List B32) (hne : payloads ≠ []) :
    (payloads.length ≤ MAX_LEAVES → ∃ r, root H payloads = .ok r ∧
      ∀ i p, payloads[i]? = some p →
        ∃ path, proof H payloads i = .ok path ∧ verify H r (UInt32.ofNat i) p path = true) ∧
    ∀ r, root H payloads = .ok r → ∀ index p path,
      CollisionFree H (rootInputs H payloads ++ verifyInputs H index p path) →
      verify H r index p path = true →
        path.length = depth payloads.length ∧ index.toNat < payloads.length ∧
          payloads[index.toNat]? = some p := by
  constructor
  · intro hmany
    obtain ⟨level, hlevel⟩ := leaves_ok (H := H) hne hmany
    have hroot : ∃ r, root H payloads = .ok r := by
      rw [root, hlevel]
      exact ⟨_, rfl⟩
    obtain ⟨r, hroot⟩ := hroot
    refine ⟨r, hroot, fun i p hp => ?_⟩
    obtain ⟨path, hproof, -, hclimb⟩ := proof_spec hroot hp
    have hi : i < 2 ^ 32 :=
      (List.getElem?_eq_some_iff.mp hp).1.trans_le (hmany.trans (by decide))
    refine ⟨path, hproof, ?_⟩
    rw [verify, UInt32.toNat_ofNat_of_lt' hi, hclimb]
    exact beq_self_eq_true r
  · intro r hroot index p path hfree hverify
    obtain ⟨hlength, hpayload⟩ := verify_sound hroot hfree hverify
    exact ⟨hlength, (List.getElem?_eq_some_iff.mp hpayload).1, hpayload⟩

/-- A hash that does not collide on short inputs. -/
def residueHashes : Hashes where
  keccak256 bytes := FixedBytes.ofNat (beNat bytes % (2 ^ 255 - 19) + 1)
  sha256 bytes := FixedBytes.ofNat (beNat bytes % (2 ^ 255 - 19) + 1)

def twoPayloads : List B32 := [FixedBytes.ofNat 4, FixedBytes.ofNat 5]

/-- The second of two payloads, proved and opened. -/
theorem second_of_two_verifies :
    (∃ r, root residueHashes twoPayloads = .ok r ∧ ∃ path,
      proof residueHashes twoPayloads 1 = .ok path ∧
        verify residueHashes r 1 (FixedBytes.ofNat 5) path = true) ∧
    (1 : UInt32).toNat < twoPayloads.length := by
  obtain ⟨hcomplete, hsound⟩ := tree_complete_and_sound residueHashes twoPayloads (by decide)
  obtain ⟨r, hroot, hproofs⟩ := hcomplete (by decide)
  refine ⟨⟨r, hroot, hproofs 1 _ rfl⟩, ?_⟩
  exact (hsound _ rfl 1 (FixedBytes.ofNat 5) [leaf residueHashes 0 (FixedBytes.ofNat 4)]
    ⟨by decide, by decide⟩ (by decide)).2.1

end Tree
end Federated
end ComputePool
