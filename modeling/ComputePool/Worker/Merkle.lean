import ComputePool.Federated.Tree
import ComputePool.Lib.PaddedTree
import ComputePool.Worker.EpochAggregator

/-!
# Epoch Merkle roots

The tree over the step commits of an epoch (`merkle.rs`), and the second
verifier of its proofs, in the chain client (`chain.rs`).  Pairs are hashed the
smaller first, so a proof carries no position; a level of odd length is padded
with a zero word.  A leaf and a node are hashed under different prefixes, and so
neither is taken for the other.
-/

namespace ComputePool
namespace Worker

open RustStd Federated PaddedTree

namespace Merkle

variable (H : Hashes)

def MERKLE_LEAF_PREFIX : UInt8 := 0x00
def MERKLE_INTERNAL_PREFIX : UInt8 := 0x01

/-- `abi.encode` of the five fields, a word each. -/
def leafWords (commit : StepCommit) : List (List UInt8) :=
  [List.replicate 28 0 ++ toBE 4 commit.epoch.toNat,
    List.replicate 28 0 ++ toBE 4 commit.step.toNat,
    List.replicate 12 0 ++ commit.worker.toBytes,
    commit.commitment.toBytes,
    commit.prevWeights.toBytes]

def computeLeaf (commit : StepCommit) : B32 := keccak H (leafWords commit)

/-- The bytes hashed for a node: the smaller word first. -/
def pairBytes (a b : B32) : List UInt8 :=
  if a ≤ b then MERKLE_INTERNAL_PREFIX :: (a.toBytes ++ b.toBytes)
  else MERKLE_INTERNAL_PREFIX :: (b.toBytes ++ a.toBytes)

def hashPair (a b : B32) : B32 := H.keccak256 (pairBytes a b)

def promoteLeaf (leaf : B32) : B32 := H.keccak256 (MERKLE_LEAF_PREFIX :: leaf.toBytes)

/-- `a.step.cmp(&b.step).then_with(|| a.worker.cmp(&b.worker))` is not `Greater`. -/
def commitLe (a b : StepCommit) : Bool :=
  a.step < b.step || (a.step == b.step && decide (a.worker ≤ b.worker))

def sortedCommits (commits : List StepCommit) : List StepCommit := commits.mergeSort commitLe

/-- The root of the commits of an epoch, and their leaves in order. -/
def computeEpochRoot (commits : List StepCommit) : B32 × List B32 :=
  let leaves := (sortedCommits commits).map (computeLeaf H)
  match leaves with
  | [] => (FixedBytes.zero, [])
  | [leaf] => (promoteLeaf H leaf, [leaf])
  | leaves =>
      ((reduce (hashPair H) FixedBytes.zero (leaves.map (promoteLeaf H))).headD FixedBytes.zero,
        leaves)

/-- The siblings of a leaf, from its level to the root. -/
def computeProof (leaves : List B32) (target : Nat) : List B32 :=
  if leaves = [] ∨ target ≥ leaves.length then []
  else if leaves.length = 1 then []
  else siblings (hashPair H) FixedBytes.zero (leaves.map (promoteLeaf H)) target

def verifyProof (proof : List B32) (root leaf : B32) : Bool :=
  proof.foldl (hashPair H) (promoteLeaf H leaf) == root

/-- The verifier of the chain client. -/
def verifyMerkleProof (proof : List B32) (root leaf : B32) : Bool :=
  let computed := proof.foldl (fun computed sibling =>
    let (left, right) := if computed ≤ sibling then (computed, sibling) else (sibling, computed)
    keccak H [[MERKLE_INTERNAL_PREFIX], left.toBytes, right.toBytes])
    (keccak H [[MERKLE_LEAF_PREFIX], leaf.toBytes])
  computed == root

/-! ## The two verifiers agree -/

theorem verifyMerkleProof_eq (proof : List B32) (root leaf : B32) :
    verifyMerkleProof H proof root leaf = verifyProof H proof root leaf := by
  have hstep : (fun computed sibling : B32 =>
      let (left, right) := if computed ≤ sibling then (computed, sibling) else (sibling, computed)
      keccak H [[MERKLE_INTERNAL_PREFIX], left.toBytes, right.toBytes]) = hashPair H := by
    funext a b
    simp only [hashPair, pairBytes]
    split <;> simp [keccak]
  rw [verifyMerkleProof, verifyProof, hstep]
  simp [keccak, promoteLeaf]

/-! ## The bytes hashed -/

theorem pairBytes_comm (a b : B32) : pairBytes a b = pairBytes b a := by
  simp only [pairBytes]
  rcases lt_trichotomy a b with hlt | rfl | hlt
  · rw [if_pos hlt.le, if_neg (not_le.mpr hlt)]
  · rfl
  · rw [if_neg (not_le.mpr hlt), if_pos hlt.le]

theorem hashPair_comm (a b : B32) : hashPair H a b = hashPair H b a :=
  congrArg H.keccak256 (pairBytes_comm a b)

theorem pairBytes_eq {a b c d : B32} (h : pairBytes a b = pairBytes c d) :
    (a, b) = (c, d) ∨ (a, b) = (d, c) := by
  have hwords : ∀ {a b c d : B32}, a.toBytes ++ b.toBytes = c.toBytes ++ d.toBytes →
      a = c ∧ b = d := by
    intro a b c d happ
    obtain ⟨hfirst, hsecond⟩ := List.append_inj happ (by simp)
    exact ⟨FixedBytes.toBytes_injective hfirst, FixedBytes.toBytes_injective hsecond⟩
  simp only [pairBytes] at h
  split at h <;> split at h
  · obtain ⟨rfl, rfl⟩ := hwords (List.cons.inj h).2
    exact .inl rfl
  · obtain ⟨rfl, rfl⟩ := hwords (List.cons.inj h).2
    exact .inr rfl
  · obtain ⟨rfl, rfl⟩ := hwords (List.cons.inj h).2
    exact .inr rfl
  · obtain ⟨rfl, rfl⟩ := hwords (List.cons.inj h).2
    exact .inl rfl

theorem leaf_ne_pairBytes (leaf a b : B32) :
    MERKLE_LEAF_PREFIX :: leaf.toBytes ≠ pairBytes a b := by
  intro h
  simp only [pairBytes] at h
  split at h
  · exact absurd (List.cons.inj h).1 (by decide)
  · exact absurd (List.cons.inj h).1 (by decide)

variable {H}

/-! ## Roots and proofs -/

theorem leaves_eq (commits : List StepCommit) :
    (computeEpochRoot H commits).2 = (sortedCommits commits).map (computeLeaf H) := by
  simp only [computeEpochRoot]
  split
  · rename_i h
    exact h.symm
  · rename_i h
    exact h.symm
  · rfl

theorem mem_leaves {commits : List StepCommit} {leaf : B32} :
    leaf ∈ (computeEpochRoot H commits).2 ↔ ∃ c ∈ commits, leaf = computeLeaf H c := by
  rw [leaves_eq, sortedCommits]
  simp [eq_comm]

theorem leaves_ne_nil {commits : List StepCommit} (hne : commits ≠ []) :
    (computeEpochRoot H commits).2 ≠ [] := by
  obtain ⟨c, hc⟩ := List.exists_mem_of_ne_nil commits hne
  exact List.ne_nil_of_mem (mem_leaves.mpr ⟨c, hc, rfl⟩)

/-- The level the tree is built over. -/
def baseLevel (H : Hashes) (commits : List StepCommit) : List B32 :=
  (computeEpochRoot H commits).2.map (promoteLeaf H)

/-- The root is what the levels reduce to; a single leaf is its own level. -/
theorem reduce_eq_root {commits : List StepCommit} (hne : commits ≠ []) :
    reduce (hashPair H) FixedBytes.zero (baseLevel H commits) =
      [(computeEpochRoot H commits).1] := by
  have hbase : baseLevel H commits ≠ [] := by
    simpa [baseLevel] using leaves_ne_nil hne
  obtain ⟨top, htop⟩ := exists_reduce_eq (hashPair H) FixedBytes.zero hbase
  suffices hroot : (computeEpochRoot H commits).1 =
      (reduce (hashPair H) FixedBytes.zero (baseLevel H commits)).headD FixedBytes.zero by
    rw [hroot, htop]
    rfl
  have hleaves := leaves_ne_nil (H := H) hne
  rw [leaves_eq] at hleaves
  rw [baseLevel, leaves_eq]
  simp only [computeEpochRoot]
  split
  · rename_i hnil
    exact absurd hnil hleaves
  · rename_i leaf hsingle
    rw [hsingle, List.map_singleton, reduce_of_short _ _ (by simp)]
    rfl
  · rfl

theorem computeProof_eq {commits : List StepCommit} {i : Nat}
    (hi : i < (computeEpochRoot H commits).2.length) :
    computeProof H (computeEpochRoot H commits).2 i =
      siblings (hashPair H) FixedBytes.zero (baseLevel H commits) i := by
  have hne : ¬ ((computeEpochRoot H commits).2 = [] ∨
      i ≥ (computeEpochRoot H commits).2.length) := by
    rintro (hnil | hge)
    · rw [hnil] at hi
      simp at hi
    · omega
  rw [computeProof, if_neg hne]
  split
  · rename_i hone
    rw [siblings_of_short _ _ (by simp [baseLevel, hone])]
  · rfl

/-- **Completeness**: the proof of a leaf is accepted against the root. -/
theorem verifyProof_computeProof {commits : List StepCommit} {i : Nat} {leaf : B32}
    (hleaf : (computeEpochRoot H commits).2[i]? = some leaf) :
    verifyProof H (computeProof H (computeEpochRoot H commits).2 i)
      (computeEpochRoot H commits).1 leaf = true := by
  have hne : commits ≠ [] := by
    rintro rfl
    simp [leaves_eq, sortedCommits] at hleaf
  have hbase : (baseLevel H commits)[i]? = some (promoteLeaf H leaf) := by
    rw [baseLevel, List.getElem?_map, hleaf]
    rfl
  have hclimb := climb_siblings (hashPair H) FixedBytes.zero (hashPair_comm H) hbase
  rw [reduce_eq_root hne] at hclimb
  rw [computeProof_eq (List.getElem?_eq_some_iff.mp hleaf).1, verifyProof]
  exact beq_iff_eq.mpr (List.cons.inj hclimb).1.symm

/-! ## What a proof of any length opens -/

/-- The byte strings hashed for the tree over its leaves. -/
def rootInputs (H : Hashes) (commits : List StepCommit) : List (List UInt8) :=
  (computeEpochRoot H commits).2.map (fun leaf => MERKLE_LEAF_PREFIX :: leaf.toBytes) ++
    (treePairs (hashPair H) FixedBytes.zero (baseLevel H commits)).map fun p => pairBytes p.1 p.2

/-- The byte strings hashed to check a proof. -/
def proofInputs (H : Hashes) (proof : List B32) (leaf : B32) : List (List UInt8) :=
  (MERKLE_LEAF_PREFIX :: leaf.toBytes) ::
    (climbPairs (hashPair H) (promoteLeaf H leaf) proof).map fun p => pairBytes p.1 p.2

section Soundness

variable {commits : List StepCommit} {proof : List B32} {leaf : B32}

theorem mem_proofInputs_leaf : MERKLE_LEAF_PREFIX :: leaf.toBytes ∈ proofInputs H proof leaf :=
  List.mem_cons_self

theorem mem_proofInputs_pair {p : B32 × B32}
    (hp : p ∈ climbPairs (hashPair H) (promoteLeaf H leaf) proof) :
    pairBytes p.1 p.2 ∈ proofInputs H proof leaf :=
  List.mem_cons_of_mem _ (List.mem_map.mpr ⟨p, hp, rfl⟩)

theorem mem_rootInputs_pair {q : B32 × B32}
    (hq : q ∈ treePairs (hashPair H) FixedBytes.zero (baseLevel H commits)) :
    pairBytes q.1 q.2 ∈ rootInputs H commits :=
  List.mem_append_right _ (List.mem_map.mpr ⟨q, hq, rfl⟩)

theorem mem_rootInputs_leaf (hleaf : leaf ∈ (computeEpochRoot H commits).2) :
    MERKLE_LEAF_PREFIX :: leaf.toBytes ∈ rootInputs H commits :=
  List.mem_append_left _ (List.mem_map.mpr ⟨leaf, hleaf, rfl⟩)

variable (hfree : Tree.CollisionFree H (rootInputs H commits ++ proofInputs H proof leaf))
include hfree

/-- Leaves and nodes are hashed under different prefixes, and the padding is no
hash, so a proof stays inside the tree. -/
theorem apart : Apart (hashPair H) FixedBytes.zero (promoteLeaf H leaf) proof
    (baseLevel H commits) where
  start := by
    intro q hq hsame
    have hmine := List.mem_append_right (rootInputs H commits)
      (@mem_proofInputs_leaf H proof leaf)
    have htree := List.mem_append_left (proofInputs H proof leaf) (mem_rootInputs_pair hq)
    exact leaf_ne_pairBytes _ _ _ (hfree.injective _ hmine _ htree hsame)
  pairs := by
    intro p hp q hq hsame
    have hmine := List.mem_append_right (rootInputs H commits) (mem_proofInputs_pair hp)
    have htree := List.mem_append_left (proofInputs H proof leaf) (mem_rootInputs_pair hq)
    exact pairBytes_eq (hfree.injective _ hmine _ htree hsame)
  start_ne_pad := hfree.nonzero _ (List.mem_append_right _ mem_proofInputs_leaf)
  pairs_ne_pad := fun _ hp =>
    hfree.nonzero _ (List.mem_append_right _ (mem_proofInputs_pair hp))

/-- **Soundness**: a leaf that verifies against the root is a leaf of the tree. -/
theorem mem_leaves_of_verifyProof (hne : commits ≠ [])
    (hverify : verifyProof H proof (computeEpochRoot H commits).1 leaf = true) :
    leaf ∈ (computeEpochRoot H commits).2 := by
  have htop : climb (hashPair H) (promoteLeaf H leaf) proof ∈
      reduce (hashPair H) FixedBytes.zero (baseLevel H commits) := by
    rw [reduce_eq_root hne]
    exact List.mem_singleton.mpr (beq_iff_eq.mp hverify)
  have hbase : promoteLeaf H leaf ∈ baseLevel H commits := by
    refine (apart hfree).mem (fun y hy p hp hsame => ?_) htop
    -- A promoted leaf is not the hash of a pair.
    obtain ⟨other, hother, rfl⟩ := List.mem_map.mp hy
    have htree := List.mem_append_left (proofInputs H proof leaf) (mem_rootInputs_leaf hother)
    have hmine := List.mem_append_right (rootInputs H commits) (mem_proofInputs_pair hp)
    exact leaf_ne_pairBytes _ _ _ (hfree.injective _ htree _ hmine hsame)
  obtain ⟨other, hother, hsame⟩ := List.mem_map.mp hbase
  have htree := List.mem_append_left (proofInputs H proof leaf) (mem_rootInputs_leaf hother)
  have hmine := List.mem_append_right (rootInputs H commits)
    (@mem_proofInputs_leaf H proof leaf)
  have hbytes := hfree.injective _ htree _ hmine hsame
  have heq : other = leaf := FixedBytes.toBytes_injective (List.cons.inj hbytes).2
  exact heq ▸ hother

end Soundness

/-! ## The order of the commits -/

/-- The pair the commits of an epoch are ordered by. -/
def orderKey (commit : StepCommit) : UInt32 × H160 := (commit.step, commit.worker)

theorem commitLe_iff {a b : StepCommit} :
    commitLe a b = true ↔ a.step.toNat < b.step.toNat ∨
      a.step.toNat = b.step.toNat ∧ a.worker ≤ b.worker := by
  simp [commitLe, UInt32.lt_iff_toNat_lt, UInt32.toNat_inj]

theorem commitLe_trans (a b c : StepCommit) (hab : commitLe a b = true)
    (hbc : commitLe b c = true) : commitLe a c = true := by
  rw [commitLe_iff] at *
  rcases hab with hab | ⟨hab, hab'⟩ <;> rcases hbc with hbc | ⟨hbc, hbc'⟩
  · exact .inl (by omega)
  · exact .inl (by omega)
  · exact .inl (by omega)
  · exact .inr ⟨hab.trans hbc, hab'.trans hbc'⟩

theorem commitLe_total (a b : StepCommit) : (commitLe a b || commitLe b a) = true := by
  rw [Bool.or_eq_true, commitLe_iff, commitLe_iff]
  rcases lt_trichotomy a.step.toNat b.step.toNat with hlt | heq | hlt
  · exact .inl (.inl hlt)
  · rcases le_total a.worker b.worker with hle | hle
    · exact .inl (.inr ⟨heq, hle⟩)
    · exact .inr (.inr ⟨heq.symm, hle⟩)
  · exact .inr (.inl hlt)

theorem orderKey_eq_of_commitLe {a b : StepCommit} (hab : commitLe a b = true)
    (hba : commitLe b a = true) : orderKey a = orderKey b := by
  rw [commitLe_iff] at hab hba
  have hstep : a.step.toNat = b.step.toNat := by omega
  have hworker : a.worker = b.worker := by
    rcases hab with hlt | ⟨-, hab⟩
    · omega
    · rcases hba with hlt | ⟨-, hba⟩
      · omega
      · exact le_antisymm hab hba
  exact Prod.ext (UInt32.toNat_inj.mp hstep) hworker

/-- Commits of distinct keys have one order, whatever order they come in. -/
theorem sortedCommits_perm {commits commits' : List StepCommit} (hperm : commits'.Perm commits)
    (hdistinct : (commits.map orderKey).Nodup) :
    sortedCommits commits' = sortedCommits commits := by
  have hsame : (sortedCommits commits').Perm (sortedCommits commits) :=
    (List.mergeSort_perm commits' commitLe).trans
      (hperm.trans (List.mergeSort_perm commits commitLe).symm)
  have hsorted : ∀ l : List StepCommit, (sortedCommits l).Pairwise (commitLe · ·) :=
    fun l => List.pairwise_mergeSort commitLe_trans commitLe_total l
  refine hsame.eq_of_pairwise ?_ (hsorted commits') (hsorted commits)
  intro a b ha hb hab hba
  have ha' : a ∈ commits := hperm.mem_iff.mp (List.mem_mergeSort.mp ha)
  have hb' : b ∈ commits := List.mem_mergeSort.mp hb
  exact List.inj_on_of_nodup_map hdistinct ha' hb' (orderKey_eq_of_commitLe hab hba)

/-- **The epoch commitment.**  The leaves are those of the commits, sorted.  The proof
of every leaf is accepted by both verifiers; where no hashed byte strings collide and none hashes to the padding
word, a leaf that either verifier accepts, with a proof of any length, is the
leaf of a commit; and the root does not depend on the order of the commits. -/
theorem epoch_commitment (H : Hashes) (commits : List StepCommit) (hne : commits ≠ []) :
    ((computeEpochRoot H commits).2 = (sortedCommits commits).map (computeLeaf H) ∧
      (sortedCommits commits).Perm commits ∧
      (sortedCommits commits).Pairwise fun a b => commitLe a b = true) ∧
    (∀ i leaf, (computeEpochRoot H commits).2[i]? = some leaf →
      verifyProof H (computeProof H (computeEpochRoot H commits).2 i)
          (computeEpochRoot H commits).1 leaf = true ∧
        verifyMerkleProof H (computeProof H (computeEpochRoot H commits).2 i)
          (computeEpochRoot H commits).1 leaf = true) ∧
    (∀ proof leaf,
      Tree.CollisionFree H (rootInputs H commits ++ proofInputs H proof leaf) →
      verifyProof H proof (computeEpochRoot H commits).1 leaf = true ∨
        verifyMerkleProof H proof (computeEpochRoot H commits).1 leaf = true →
      ∃ c ∈ commits, leaf = computeLeaf H c) ∧
    (∀ commits' : List StepCommit, commits'.Perm commits → (commits.map orderKey).Nodup →
      (computeEpochRoot H commits').1 = (computeEpochRoot H commits).1) := by
  refine ⟨⟨leaves_eq commits, List.mergeSort_perm commits commitLe,
    List.pairwise_mergeSort commitLe_trans commitLe_total commits⟩, fun i leaf hleaf => ?_,
    fun proof leaf hfree hverify => ?_, ?_⟩
  · rw [verifyMerkleProof_eq]
    exact ⟨verifyProof_computeProof hleaf, verifyProof_computeProof hleaf⟩
  · rw [verifyMerkleProof_eq, or_self] at hverify
    exact mem_leaves.mp (mem_leaves_of_verifyProof hfree hne hverify)
  · intro commits' hperm hdistinct
    rw [computeEpochRoot, sortedCommits_perm hperm hdistinct]
    rfl

/-- Two commits, in the order of their steps. -/
def twoCommits : List StepCommit :=
  [⟨0, 0, default, FixedBytes.ofNat 7, default⟩, ⟨0, 1, default, FixedBytes.ofNat 8, default⟩]

/-- The leaf of the second of two commits and the sibling it is proved with. -/
def secondLeaf : B32 := computeLeaf Tree.residueHashes
  ⟨0, 1, default, FixedBytes.ofNat 8, default⟩

def firstPromoted : B32 := promoteLeaf Tree.residueHashes
  (computeLeaf Tree.residueHashes ⟨0, 0, default, FixedBytes.ofNat 7, default⟩)

theorem twoCommits_leaves : (computeEpochRoot Tree.residueHashes twoCommits).2 =
    twoCommits.map (computeLeaf Tree.residueHashes) := by
  rw [leaves_eq, sortedCommits, List.mergeSort_of_pairwise (by decide)]

theorem twoCommits_rootInputs : rootInputs Tree.residueHashes twoCommits =
    twoCommits.map (fun c => MERKLE_LEAF_PREFIX :: (computeLeaf Tree.residueHashes c).toBytes) ++
      [pairBytes firstPromoted (promoteLeaf Tree.residueHashes secondLeaf)] := by
  have hpairs : treePairs (hashPair Tree.residueHashes) FixedBytes.zero
      [firstPromoted, promoteLeaf Tree.residueHashes secondLeaf] =
        [(firstPromoted, promoteLeaf Tree.residueHashes secondLeaf)] := by
    rw [treePairs_of_long _ _ (by simp), treePairs_of_short _ _ (by simp [pairUp])]
    simp [levelPairs]
  have hbase : baseLevel Tree.residueHashes twoCommits =
      [firstPromoted, promoteLeaf Tree.residueHashes secondLeaf] := by
    rw [baseLevel, twoCommits_leaves]
    simp [twoCommits, firstPromoted, secondLeaf]
  rw [rootInputs, hbase, hpairs, twoCommits_leaves]
  simp

/-- The second commit is proved, opened, and committed to in either order. -/
theorem second_commit_verifies :
    (computeEpochRoot Tree.residueHashes twoCommits.reverse).2 =
        twoCommits.map (computeLeaf Tree.residueHashes) ∧
    verifyMerkleProof Tree.residueHashes
        (computeProof Tree.residueHashes (computeEpochRoot Tree.residueHashes twoCommits).2 1)
        (computeEpochRoot Tree.residueHashes twoCommits).1 secondLeaf = true ∧
      (∃ c ∈ twoCommits, secondLeaf = computeLeaf Tree.residueHashes c) ∧
      (computeEpochRoot Tree.residueHashes twoCommits.reverse).1 =
        (computeEpochRoot Tree.residueHashes twoCommits).1 := by
  obtain ⟨⟨hleaves, -⟩, -⟩ :=
    epoch_commitment Tree.residueHashes twoCommits.reverse (by decide)
  rw [sortedCommits_perm (List.reverse_perm _) (by decide), sortedCommits,
    List.mergeSort_of_pairwise (by decide)] at hleaves
  obtain ⟨-, hcomplete, hsound, hperm⟩ :=
    epoch_commitment Tree.residueHashes twoCommits (by decide)
  have hsecond : (computeEpochRoot Tree.residueHashes twoCommits).2[1]? = some secondLeaf := by
    rw [twoCommits_leaves]
    rfl
  have hproof : computeProof Tree.residueHashes
      (computeEpochRoot Tree.residueHashes twoCommits).2 1 = [firstPromoted] := by
    rw [twoCommits_leaves]
    simp [computeProof, twoCommits, siblings_of_long, siblings_of_short, pairUp, firstPromoted]
  have hverifies := (hcomplete 1 _ hsecond).2
  refine ⟨hleaves, hverifies, ?_, hperm _ (List.reverse_perm _) (by decide)⟩
  rw [hproof] at hverifies
  refine hsound [firstPromoted] secondLeaf ?_ (.inr hverifies)
  rw [twoCommits_rootInputs]
  exact ⟨by decide +kernel, by decide +kernel⟩

end Merkle
end Worker
end ComputePool
