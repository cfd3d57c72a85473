import Mathlib

/-!
# Hash trees over lists

A level of a binary hash tree is a list; the level above it hashes adjacent
pairs.  Over `2 ^ d` entries the tree has depth `d`, and the entry left at the top
is its root.  A path of siblings is climbed from an entry, the bits of its index
saying on which side each sibling stands.

Climbing the path the tree itself gives reaches the root.  Conversely a climb that
reaches the root follows the tree downwards from there, as long as the pairs it
hashes do not collide with pairs of the tree.
-/

namespace HashTree

variable {D : Type*} (node : D → D → D)

/-- The level above: adjacent pairs, hashed. -/
def pairUp : List D → List D
  | l :: r :: rest => node l r :: pairUp rest
  | _ => []

/-- Climb from an entry at index `i`. -/
def climb (h : D) (i : Nat) : List D → D
  | [] => h
  | sib :: path => climb (if i % 2 = 0 then node h sib else node sib h) (i / 2) path

/-- The siblings of index `i`, from a level with `d` levels above it. -/
def siblings : Nat → List D → Nat → List D
  | 0, _, _ => []
  | d + 1, level, i =>
      level[if i % 2 = 0 then i + 1 else i - 1]?.toList ++ siblings d (pairUp node level) (i / 2)

/-- The pairs hashed on the way from a level to the root. -/
def treePairs : Nat → List D → List (D × D)
  | 0, _ => []
  | d + 1, level => pairs level ++ treePairs d (pairUp node level)
where
  pairs : List D → List (D × D)
    | l :: r :: rest => (l, r) :: pairs rest
    | _ => []

/-- The pairs hashed by a climb. -/
def climbPairs (h : D) (i : Nat) : List D → List (D × D)
  | [] => []
  | sib :: path =>
      let pair := if i % 2 = 0 then (h, sib) else (sib, h)
      pair :: climbPairs (node pair.1 pair.2) (i / 2) path

/-! ## Levels -/

theorem pairUp_of_short {level : List D}
    (hshort : ∀ (l r : D) (rest : List D), level = l :: r :: rest → False) :
    pairUp node level = [] := by
  rw [pairUp]
  exact hshort

theorem length_pairUp (level : List D) : (pairUp node level).length = level.length / 2 := by
  induction level using pairUp.induct with
  | case1 l r rest ih =>
      simp only [pairUp, List.length_cons, ih]
      omega
  | case2 level hshort =>
      rw [pairUp_of_short node hshort]
      cases level with
      | nil => simp
      | cons l rest =>
          cases rest with
          | nil => simp
          | cons r rest => exact absurd rfl (hshort l r rest)

theorem length_pairUp_pow {d : Nat} {level : List D} (h : level.length = 2 ^ (d + 1)) :
    (pairUp node level).length = 2 ^ d := by
  rw [length_pairUp, h, Nat.pow_succ]
  omega

/-- An entry of the level above is the hash of the two entries below it. -/
theorem getElem?_pairUp {level : List D} {k : Nat} {x : D} (h : (pairUp node level)[k]? = some x) :
    ∃ l r, level[2 * k]? = some l ∧ level[2 * k + 1]? = some r ∧ x = node l r ∧
      (l, r) ∈ treePairs.pairs level := by
  induction level using pairUp.induct generalizing k with
  | case1 l r rest ih =>
      cases k with
      | zero =>
          have hx : node l r = x := by simpa [pairUp] using h
          exact ⟨l, r, rfl, rfl, hx.symm, List.mem_cons_self⟩
      | succ k =>
          have hrest : (pairUp node rest)[k]? = some x := by simpa [pairUp] using h
          obtain ⟨l', r', hl, hr, hx, hmem⟩ := ih hrest
          have hindex : 2 * (k + 1) = 2 * k + 1 + 1 := by omega
          refine ⟨l', r', ?_, ?_, hx, List.mem_cons_of_mem _ hmem⟩
          · rw [hindex]
            exact hl
          · rw [hindex]
            exact hr
  | case2 level hshort =>
      rw [pairUp_of_short node hshort] at h
      cases h

/-- The level `k` steps above. -/
def above (k : Nat) (level : List D) : List D := (pairUp node)^[k] level

@[simp] theorem above_zero (level : List D) : above node 0 level = level := rfl

theorem above_succ (k : Nat) (level : List D) :
    above node (k + 1) level = pairUp node (above node k level) :=
  Function.iterate_succ_apply' ..

theorem above_pairUp (k : Nat) (level : List D) :
    above node k (pairUp node level) = above node (k + 1) level :=
  (Function.iterate_succ_apply ..).symm

theorem length_above {d k : Nat} {level : List D} (h : level.length = 2 ^ (d + k)) :
    (above node k level).length = 2 ^ d := by
  induction k generalizing d with
  | zero => simpa using h
  | succ k ih =>
      rw [above_succ]
      exact length_pairUp_pow node (ih (by rw [h, Nat.add_assoc, Nat.add_comm 1 k]))

theorem pairs_subset_treePairs {d k : Nat} (hk : k < d) (level : List D) :
    treePairs.pairs (above node k level) ⊆ treePairs node d level := by
  induction d generalizing k level with
  | zero => omega
  | succ d ih =>
      rw [treePairs]
      cases k with
      | zero => exact List.subset_append_left _ _
      | succ k =>
          rw [← above_pairUp]
          exact List.subset_append_of_subset_right _ (ih (by omega) (pairUp node level))

/-- An entry above the lowest level is the hash of a pair of the tree. -/
theorem above_eq_node {d k q : Nat} {level : List D} {x : D} (hk : k < d)
    (hx : (above node (k + 1) level)[q]? = some x) :
    ∃ p ∈ treePairs node d level, x = node p.1 p.2 := by
  rw [above_succ] at hx
  obtain ⟨l, r, -, -, hsame, hmem⟩ := getElem?_pairUp node hx
  exact ⟨(l, r), pairs_subset_treePairs node hk level hmem, hsame⟩

/-! ## The honest path -/

/-- The index of a sibling stays inside its level. -/
theorem sibling_lt {d i : Nat} (hi : i < 2 ^ (d + 1)) :
    (if i % 2 = 0 then i + 1 else i - 1) < 2 ^ (d + 1) := by
  have heven : 2 ^ (d + 1) = 2 * 2 ^ d := by rw [Nat.pow_succ, Nat.mul_comm]
  split
  · omega
  · omega

theorem length_siblings {d i : Nat} {level : List D} (hlen : level.length = 2 ^ d)
    (hi : i < 2 ^ d) : (siblings node d level i).length = d := by
  induction d generalizing level i with
  | zero => rfl
  | succ d ih =>
      have hhalf : i / 2 < 2 ^ d := by rw [Nat.pow_succ] at hi; omega
      rw [siblings, List.length_append, ih (length_pairUp_pow node hlen) hhalf,
        List.getElem?_eq_getElem (hlen ▸ sibling_lt hi)]
      simp only [Option.toList_some, List.length_singleton]
      omega

/-- Climbing the siblings of an entry reaches the root. -/
theorem climb_siblings {d i : Nat} {level : List D} {x : D} (hlen : level.length = 2 ^ d)
    (hx : level[i]? = some x) :
    (above node d level)[0]? = some (climb node x i (siblings node d level i)) := by
  induction d generalizing level i x with
  | zero =>
      have hi := (List.getElem?_eq_some_iff.mp hx).1
      have hzero : i = 0 := by omega
      subst hzero
      exact hx
  | succ d ih =>
      have hi : i < 2 ^ (d + 1) := hlen ▸ (List.getElem?_eq_some_iff.mp hx).1
      have hhalf : i / 2 < (pairUp node level).length := by
        rw [length_pairUp_pow node hlen]
        rw [Nat.pow_succ] at hi
        omega
      obtain ⟨l, r, hl, hr, hparent, -⟩ :=
        getElem?_pairUp node (List.getElem?_eq_getElem hhalf)
      rw [← above_pairUp, siblings]
      rcases Nat.mod_two_eq_zero_or_one i with heven | hodd
      · -- `x` is the left one of its pair
        have hindex : 2 * (i / 2) = i := by omega
        rw [hindex] at hl hr
        have hxl : l = x := Option.some.inj (hl.symm.trans hx)
        rw [if_pos heven, hr, Option.toList_some, List.singleton_append, climb, if_pos heven]
        refine ih (length_pairUp_pow node hlen) ?_
        rw [List.getElem?_eq_getElem hhalf, hparent, hxl]
      · have hindex : 2 * (i / 2) + 1 = i := by omega
        have hleft : 2 * (i / 2) = i - 1 := by omega
        rw [hindex] at hr
        rw [hleft] at hl
        have hxr : r = x := Option.some.inj (hr.symm.trans hx)
        have hnot : ¬ i % 2 = 0 := by omega
        rw [if_neg hnot, hl, Option.toList_some, List.singleton_append, climb, if_neg hnot]
        refine ih (length_pairUp_pow node hlen) ?_
        rw [List.getElem?_eq_getElem hhalf, hparent, hxr]

/-! ## Any path that reaches the root -/

theorem climb_append (h : D) (i : Nat) (front back : List D) :
    climb node h i (front ++ back) =
      climb node (climb node h i front) (i / 2 ^ front.length) back := by
  induction front generalizing h i with
  | nil => simp [climb]
  | cons sib front ih =>
      rw [List.cons_append, climb, ih, climb, List.length_cons, Nat.pow_succ, Nat.mul_comm,
        Nat.div_div_eq_div_mul]

theorem climbPairs_append (h : D) (i : Nat) (front back : List D) :
    climbPairs node h i (front ++ back) = climbPairs node h i front ++
      climbPairs node (climb node h i front) (i / 2 ^ front.length) back := by
  induction front generalizing h i with
  | nil => simp [climb, climbPairs]
  | cons sib front ih =>
      rw [List.cons_append, climbPairs, ih, climbPairs, climb, List.length_cons, Nat.pow_succ,
        Nat.mul_comm, Nat.div_div_eq_div_mul, List.cons_append]
      by_cases heven : i % 2 = 0 <;> simp [heven]

/-- A climb of at least one step ends with the hash of a pair it hashed. -/
theorem climb_eq_node (h : D) (i : Nat) {path : List D} (hne : path ≠ []) :
    ∃ p ∈ climbPairs node h i path, climb node h i path = node p.1 p.2 := by
  rcases List.eq_nil_or_concat path with hnil | ⟨front, sib, rfl⟩
  · exact absurd hnil hne
  · rw [List.concat_eq_append, climb_append, climbPairs_append, climb, climb, climbPairs]
    refine ⟨_, List.mem_append_right _ List.mem_cons_self, ?_⟩
    split
    · rfl
    · rfl

/-- No pair of the first list collides with a pair of the second. -/
def NoCollision (ps qs : List (D × D)) : Prop :=
  ∀ p ∈ ps, ∀ q ∈ qs, node p.1 p.2 = node q.1 q.2 → p = q

variable {node}

/-- A climb that reaches an entry `k` levels up went through the tree: undoing its
last step leads to the child of that entry on the side of the index bit. -/
theorem climb_descends {d k q i : Nat} {level path : List D} {h sib : D}
    (hcollide : NoCollision node (climbPairs node h i (path ++ [sib])) (treePairs node d level))
    (hk : k < d) (hreach : (above node (k + 1) level)[q]? =
      some (climb node h i (path ++ [sib]))) :
    (above node k level)[2 * q + i / 2 ^ path.length % 2]? = some (climb node h i path) := by
  rw [above_succ] at hreach
  obtain ⟨l, r, hl, hr, hsame, hmem⟩ := getElem?_pairUp node hreach
  have htree : (l, r) ∈ treePairs node d level := pairs_subset_treePairs node hk level hmem
  rw [climb_append, climb, climb] at hsame
  rw [climbPairs_append, climbPairs, climbPairs] at hcollide
  have hlast {p : D × D} : p ∈ climbPairs node h i path ++ [p] := by simp
  rcases Nat.mod_two_eq_zero_or_one (i / 2 ^ path.length) with heven | hodd
  · rw [if_pos heven] at hsame hcollide
    have hpair := hcollide _ hlast _ htree hsame
    rw [heven, Nat.add_zero, hl]
    exact congrArg some (congrArg Prod.fst hpair).symm
  · have hnot : ¬ i / 2 ^ path.length % 2 = 0 := by omega
    rw [if_neg hnot] at hsame hcollide
    have hpair := hcollide _ hlast _ htree hsame
    rw [hodd, hr]
    exact congrArg some (congrArg Prod.snd hpair).symm

/-- A climb that reaches the root went, `j` steps before its end, through the
entry `j` levels below the root whose index is given by the bits of `i` there. -/
theorem climb_passes {d i : Nat} {level path : List D} {h : D}
    (hcollide : NoCollision node (climbPairs node h i path) (treePairs node d level))
    (hroot : (above node d level)[0]? = some (climb node h i path)) (j : Nat)
    (hpath : j ≤ path.length) (hdepth : j ≤ d) :
    (above node (d - j) level)[i / 2 ^ (path.length - j) % 2 ^ j]? =
      some (climb node h i (path.take (path.length - j))) := by
  induction j with
  | zero => simpa [Nat.mod_one] using hroot
  | succ j ih =>
      have hbefore := ih (by omega) (by omega)
      have hlt : path.length - (j + 1) < path.length := by omega
      have hlevel : d - j = d - (j + 1) + 1 := by omega
      -- the step that is undone
      have hsplit : path.take (path.length - j) =
          path.take (path.length - (j + 1)) ++ [path.get ⟨path.length - (j + 1), hlt⟩] := by
        have hnext : path.length - j = path.length - (j + 1) + 1 := by omega
        rw [hnext, List.take_add_one, List.getElem?_eq_getElem hlt]
        rfl
      have hlen : (path.take (path.length - (j + 1))).length = path.length - (j + 1) := by
        rw [List.length_take]
        omega
      have hsub : climbPairs node h i (path.take (path.length - j)) ⊆ climbPairs node h i path := by
        have happend := climbPairs_append node h i (path.take (path.length - j))
          (path.drop (path.length - j))
        rw [List.take_append_drop] at happend
        rw [happend]
        exact List.subset_append_left _ _
      rw [hsplit] at hbefore hsub
      rw [hlevel] at hbefore
      have hdown := climb_descends (fun p hp q hq => hcollide p (hsub hp) q hq) (by omega) hbefore
      rw [hlen] at hdown
      rw [← hdown]
      congr 1
      -- one more bit of the index
      have hshift : i / 2 ^ (path.length - j) = i / 2 ^ (path.length - (j + 1)) / 2 := by
        have hnext : path.length - j = path.length - (j + 1) + 1 := by omega
        rw [hnext, Nat.pow_succ, Nat.div_div_eq_div_mul]
      rw [hshift, Nat.pow_succ, Nat.mul_comm (2 ^ j) 2, Nat.mod_mul, Nat.add_comm]

end HashTree
