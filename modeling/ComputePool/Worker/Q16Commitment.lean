import ComputePool.Federated.RoundHashes
import ComputePool.Lib.Framing

/-!
# Step commitments on the Q16 grid

The commitment to one training step: each layer's tensor is hashed, and the digests
are hashed again in the order of the layer indices, each behind its index.
-/

namespace ComputePool
namespace Worker
namespace Q16Commitment

open RustStd Federated Framing

/-- A tensor encoded on the fixed Q16 grid. -/
structure Q16Tensor where
  values : List Int64
  deriving DecidableEq

variable (H : Hashes)

/-- The bytes hashed for one tensor. -/
def tensorBytes (t : Q16Tensor) : List UInt8 := t.values.flatMap beI64

def q16TensorCommitment (t : Q16Tensor) : B32 := H.keccak256 (tensorBytes t)

/-- The layers by index; a layer keeps its place among those of one index. -/
def ordered (tensors : List (UInt32 × Q16Tensor)) : List (UInt32 × Q16Tensor) :=
  tensors.mergeSort fun a b => decide (a.1 ≤ b.1)

/-- What is hashed for one layer of a step. -/
def layerBytes (layer : UInt32 × Q16Tensor) : List UInt8 :=
  toBE 4 layer.1.toNat ++ (q16TensorCommitment H layer.2).toBytes

/-- The bytes hashed for a step. -/
def stepBytes (tensors : List (UInt32 × Q16Tensor)) : List UInt8 :=
  (ordered tensors).flatMap (layerBytes H)

/-- The commitment over several tensors in canonical layer order. -/
def q16StepCommitment (tensors : List (UInt32 × Q16Tensor)) : B32 :=
  H.keccak256 (stepBytes H tensors)

/-- Every byte string hashed for a step commitment. -/
def hashed (tensors : List (UInt32 × Q16Tensor)) : List (List UInt8) :=
  stepBytes H tensors :: tensors.map fun layer => tensorBytes layer.2

/-- The layers have distinct indices. -/
def DistinctLayers (tensors : List (UInt32 × Q16Tensor)) : Prop := (tensors.map Prod.fst).Nodup

variable {H} {a b : List (UInt32 × Q16Tensor)}

/-! ## The order of the layers -/

theorem ordered_perm (tensors : List (UInt32 × Q16Tensor)) : (ordered tensors).Perm tensors :=
  List.mergeSort_perm _ _

theorem ordered_pairwise (tensors : List (UInt32 × Q16Tensor)) :
    (ordered tensors).Pairwise fun a b => a.1 ≤ b.1 := by
  have hsorted : (ordered tensors).Pairwise fun a b => decide (a.1 ≤ b.1) = true :=
    List.pairwise_mergeSort
      (by simp only [decide_eq_true_eq]; exact fun _ _ _ => UInt32.le_trans)
      (by simp only [Bool.or_eq_true, decide_eq_true_eq]; exact fun _ _ => UInt32.le_total _ _)
      tensors
  exact hsorted.imp of_decide_eq_true

/-- Layers of distinct indices have one order. -/
theorem ordered_eq (hb : DistinctLayers b) (hperm : a.Perm b) : ordered a = ordered b := by
  have hsame : (ordered a).Perm (ordered b) :=
    (ordered_perm a).trans (hperm.trans (ordered_perm b).symm)
  refine hsame.eq_of_pairwise ?_ (ordered_pairwise a) (ordered_pairwise b)
  intro x y hx hy hxy hyx
  have hx' : x ∈ b := hperm.mem_iff.mp ((ordered_perm a).mem_iff.mp hx)
  have hy' : y ∈ b := (ordered_perm b).mem_iff.mp hy
  exact List.inj_on_of_nodup_map hb hx' hy' (UInt32.le_antisymm hxy hyx)

/-! ## What a commitment binds -/

theorem tensorBytes_injective : Function.Injective tensorBytes := by
  intro s t h
  have hvalues : s.values = t.values :=
    flatMap_injective (by decide) beI64_length (fun _ _ => i64_of_beI64) h
  cases s
  cases t
  exact congrArg Q16Tensor.mk hvalues

/-- The record of a layer: its index and the digest of its tensor. -/
def digestOf (H : Hashes) (layer : UInt32 × Q16Tensor) : UInt32 × B32 :=
  (layer.1, q16TensorCommitment H layer.2)

theorem digests_of_stepBytes (h : stepBytes H a = stepBytes H b) :
    (ordered a).map (digestOf H) = (ordered b).map (digestOf H) := by
  let record := fun digest : UInt32 × B32 => toBE 4 digest.1.toNat ++ digest.2.toBytes
  have hlen : ∀ digest, (record digest).length = 36 := fun digest => by simp [record]
  have hinj : Function.Injective record := by
    intro c d h
    obtain ⟨hindex, hdigest⟩ := List.append_inj h (by simp)
    exact Prod.ext (u32_of_toBE hindex) (FixedBytes.toBytes_injective hdigest)
  apply flatMap_injective (by decide) hlen hinj
  rw [List.flatMap_map, List.flatMap_map]
  exact h

theorem tensorBytes_mem {layer : UInt32 × Q16Tensor} (h : layer ∈ ordered a) :
    tensorBytes layer.2 ∈ hashed H a :=
  List.mem_cons_of_mem _ (List.mem_map_of_mem (f := fun layer => tensorBytes layer.2)
    ((ordered_perm a).mem_iff.mp h))

/-- **The step commitment.**  It is the same for every order of the layers, and where
the hashed byte strings do not collide, it tells two lists of layers that are not the
same up to order. -/
theorem step_commitment_binds (H : Hashes) (a b : List (UInt32 × Q16Tensor)) :
    (DistinctLayers b → a.Perm b → q16StepCommitment H a = q16StepCommitment H b) ∧
      (Set.InjOn H.keccak256 {x | x ∈ hashed H a ++ hashed H b} →
        q16StepCommitment H a = q16StepCommitment H b → a.Perm b) := by
  refine ⟨fun hb hperm => ?_, fun hfree h => ?_⟩
  · rw [q16StepCommitment, stepBytes, ordered_eq hb hperm]
    rfl
  have hleft : ∀ x ∈ hashed H a, x ∈ {x | x ∈ hashed H a ++ hashed H b} :=
    fun x hx => List.mem_append_left _ hx
  have hright : ∀ x ∈ hashed H b, x ∈ {x | x ∈ hashed H a ++ hashed H b} :=
    fun x hx => List.mem_append_right _ hx
  have hbytes : stepBytes H a = stepBytes H b :=
    hfree (hleft _ List.mem_cons_self) (hright _ List.mem_cons_self) h
  have hsame : ordered a = ordered b := by
    apply eq_of_map_eq _ (digests_of_stepBytes hbytes)
    intro x hx y hy hdigest
    obtain ⟨hindex, htensor⟩ := Prod.mk.inj hdigest
    have hvalues := hfree (hleft _ (tensorBytes_mem hx)) (hright _ (tensorBytes_mem hy)) htensor
    exact Prod.ext hindex (tensorBytes_injective hvalues)
  have hperm := (ordered_perm a).symm
  rw [hsame] at hperm
  exact hperm.trans (ordered_perm b)

/-- Two layers, in both orders. -/
def twoLayers : List (UInt32 × Q16Tensor) := [(0, ⟨[65536, -1]⟩), (1, ⟨[65536]⟩)]

def twoLayersShuffled : List (UInt32 × Q16Tensor) := [(1, ⟨[65536]⟩), (0, ⟨[65536, -1]⟩)]

theorem twoLayers_distinct : DistinctLayers twoLayers := by
  unfold DistinctLayers
  decide

theorem twoLayersShuffled_perm : twoLayersShuffled.Perm twoLayers := List.Perm.swap _ _ _

theorem stepBytes_twoLayers : stepBytes Tree.residueHashes twoLayers =
    twoLayers.flatMap (layerBytes Tree.residueHashes) := by
  have hsorted : ordered twoLayers = twoLayers := List.mergeSort_of_pairwise (by decide)
  rw [stepBytes, hsorted]

theorem stepBytes_twoLayersShuffled : stepBytes Tree.residueHashes twoLayersShuffled =
    stepBytes Tree.residueHashes twoLayers := by
  rw [stepBytes, ordered_eq twoLayers_distinct twoLayersShuffled_perm]
  rfl

/-- The two orders have one commitment, and its hash tells the layers. -/
theorem step_commitment_binds_two :
    q16StepCommitment Tree.residueHashes twoLayersShuffled =
      q16StepCommitment Tree.residueHashes twoLayers ∧ twoLayersShuffled.Perm twoLayers := by
  have hsame := (step_commitment_binds Tree.residueHashes twoLayersShuffled twoLayers).1
    twoLayers_distinct twoLayersShuffled_perm
  refine ⟨hsame, (step_commitment_binds Tree.residueHashes _ _).2 ?_ hsame⟩
  have hall : ∀ x ∈ hashed Tree.residueHashes twoLayersShuffled ++
      hashed Tree.residueHashes twoLayers, ∀ y ∈ hashed Tree.residueHashes twoLayersShuffled ++
      hashed Tree.residueHashes twoLayers,
      Tree.residueHashes.keccak256 x = Tree.residueHashes.keccak256 y → x = y := by
    unfold hashed
    rw [stepBytes_twoLayersShuffled, stepBytes_twoLayers]
    decide +kernel
  exact fun x hx y hy => hall x hx y hy

end Q16Commitment
end Worker
end ComputePool
