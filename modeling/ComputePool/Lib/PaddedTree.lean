import Mathlib

/-!
# Hash trees without positions

A binary hash tree over any number of entries: the level above a level hashes
adjacent pairs, and a last entry without a neighbour is hashed with a padding
entry.  Where the hash of a pair does not depend on the order of the two, a path
of siblings is climbed without the index of the entry.

The path of an entry climbs to the top.  Conversely a climb that reaches the top
started at an entry of the lowest level, whatever its length, as long as the
pairs it hashes collide with no others.
-/

namespace PaddedTree

variable {D : Type*} (node : D → D → D) (pad : D)

/-- The level above. -/
def pairUp : List D → List D
  | l :: r :: rest => node l r :: pairUp rest
  | [l] => [node l pad]
  | [] => []

theorem length_pairUp (level : List D) :
    (pairUp node pad level).length = (level.length + 1) / 2 := by
  induction level using pairUp.induct with
  | case1 l r rest ih =>
      simp only [pairUp, List.length_cons, ih]
      omega
  | case2 l => simp [pairUp]
  | case3 => simp [pairUp]

theorem length_pairUp_lt {level : List D} (h : 1 < level.length) :
    (pairUp node pad level).length < level.length := by
  rw [length_pairUp]
  omega

/-- Levels are built until one entry is left. -/
def reduce (level : List D) : List D :=
  if h : 1 < level.length then
    have := length_pairUp_lt node pad h
    reduce (pairUp node pad level)
  else level
termination_by level.length

/-- The siblings of the entry at index `i`, from its level to the top. -/
def siblings (level : List D) (i : Nat) : List D :=
  if h : 1 < level.length then
    have := length_pairUp_lt node pad h
    (level[if i % 2 = 0 then i + 1 else i - 1]?).getD pad ::
      siblings (pairUp node pad level) (i / 2)
  else []
termination_by level.length

/-- Climb from an entry. -/
def climb (h : D) (path : List D) : D := path.foldl node h

/-- The pairs hashed by a climb. -/
def climbPairs (h : D) : List D → List (D × D)
  | [] => []
  | sib :: path => (h, sib) :: climbPairs (node h sib) path

/-- The pairs hashed for one level. -/
def levelPairs : List D → List (D × D)
  | l :: r :: rest => (l, r) :: levelPairs rest
  | [l] => [(l, pad)]
  | [] => []

/-- The pairs hashed for a tree. -/
def treePairs (level : List D) : List (D × D) :=
  if h : 1 < level.length then
    have := length_pairUp_lt node pad h
    levelPairs pad level ++ treePairs (pairUp node pad level)
  else []
termination_by level.length

variable {level : List D}

theorem reduce_of_long (h : 1 < level.length) :
    reduce node pad level = reduce node pad (pairUp node pad level) := by
  rw [reduce, dif_pos h]

theorem reduce_of_short (h : ¬ 1 < level.length) : reduce node pad level = level := by
  rw [reduce, dif_neg h]

theorem siblings_of_long (h : 1 < level.length) (i : Nat) :
    siblings node pad level i =
      (level[if i % 2 = 0 then i + 1 else i - 1]?).getD pad ::
        siblings node pad (pairUp node pad level) (i / 2) := by
  rw [siblings, dif_pos h]

theorem siblings_of_short (h : ¬ 1 < level.length) (i : Nat) :
    siblings node pad level i = [] := by
  rw [siblings, dif_neg h]

theorem treePairs_of_long (h : 1 < level.length) :
    treePairs node pad level =
      levelPairs pad level ++ treePairs node pad (pairUp node pad level) := by
  rw [treePairs, dif_pos h]

theorem treePairs_of_short (h : ¬ 1 < level.length) : treePairs node pad level = [] := by
  rw [treePairs, dif_neg h]

theorem pairUp_ne_nil (h : level ≠ []) : pairUp node pad level ≠ [] := by
  intro hnil
  have hlen := length_pairUp node pad level
  rw [hnil] at hlen
  have hpos := List.length_pos_iff.mpr h
  simp only [List.length_nil] at hlen
  omega

/-- One entry is left at the top. -/
theorem exists_reduce_eq (h : level ≠ []) : ∃ top, reduce node pad level = [top] := by
  induction level using reduce.induct node pad with
  | case1 level hlong _ ih =>
      rw [reduce_of_long node pad hlong]
      exact ih (pairUp_ne_nil node pad h)
  | case2 level hshort =>
      rw [reduce_of_short node pad hshort]
      have hpos := List.length_pos_iff.mpr h
      exact List.length_eq_one_iff.mp (by omega)

/-! ## The honest path -/

/-- The entry of the level above over index `i` is the hash of the entry there
and its sibling. -/
theorem getElem?_pairUp (hcomm : ∀ a b, node a b = node b a) {i : Nat} {x : D}
    (hx : level[i]? = some x) :
    (pairUp node pad level)[i / 2]? =
      some (node x ((level[if i % 2 = 0 then i + 1 else i - 1]?).getD pad)) := by
  induction level using pairUp.induct generalizing i with
  | case1 l r rest ih =>
      match i with
      | 0 =>
          obtain rfl : l = x := by simpa using hx
          simp [pairUp]
      | 1 =>
          obtain rfl : r = x := by simpa using hx
          simp [pairUp, hcomm]
      | i + 2 =>
          have hrest := ih (i := i) (by simpa using hx)
          have hhalf : (i + 2) / 2 = i / 2 + 1 := by omega
          rw [pairUp, hhalf, List.getElem?_cons_succ, hrest, Nat.add_mod_right]
          rcases Nat.mod_two_eq_zero_or_one i with heven | hodd
          · simp [heven]
          · have hback : i + 2 - 1 = i - 1 + 2 := by omega
            simp [hodd, hback]
  | case2 l =>
      match i with
      | 0 =>
          obtain rfl : l = x := by simpa using hx
          simp [pairUp]
      | i + 1 => simp at hx
  | case3 => simp at hx

/-- **Completeness**: the siblings of an entry climb from it to the top. -/
theorem climb_siblings (hcomm : ∀ a b, node a b = node b a) {i : Nat} {x : D}
    (hx : level[i]? = some x) :
    reduce node pad level = [climb node x (siblings node pad level i)] := by
  induction level using reduce.induct node pad generalizing i x with
  | case1 level hlong _ ih =>
      rw [reduce_of_long node pad hlong, siblings_of_long node pad hlong]
      exact ih (getElem?_pairUp node pad hcomm hx)
  | case2 level hshort =>
      rw [reduce_of_short node pad hshort, siblings_of_short node pad hshort]
      have hi := (List.getElem?_eq_some_iff.mp hx).1
      match level, hshort, hx with
      | [y], _, hx =>
          obtain rfl : i = 0 := by simpa using hi
          obtain rfl : y = x := by simpa using hx
          rfl
      | [], _, hx => simp at hx
      | _ :: _ :: _, hshort, _ => simp at hshort

/-! ## Any path that reaches the top -/

/-- An entry of the level above is the hash of a pair, of an entry below and of
another or the padding. -/
theorem mem_pairUp {y : D} (hy : y ∈ pairUp node pad level) :
    ∃ p ∈ levelPairs pad level, y = node p.1 p.2 ∧ p.1 ∈ level ∧ (p.2 ∈ level ∨ p.2 = pad) := by
  induction level using pairUp.induct with
  | case1 l r rest ih =>
      rw [pairUp] at hy
      rcases List.mem_cons.mp hy with rfl | hrest
      · exact ⟨(l, r), by simp [levelPairs], rfl, by simp, by simp⟩
      · obtain ⟨p, hp, hnode, hleft, hright⟩ := ih hrest
        refine ⟨p, by simp [levelPairs, hp], hnode, by simp [hleft], ?_⟩
        rcases hright with hin | hpad
        · exact .inl (by simp [hin])
        · exact .inr hpad
  | case2 l =>
      obtain rfl : y = node l pad := by simpa [pairUp] using hy
      exact ⟨(l, pad), by simp [levelPairs], rfl, by simp, .inr rfl⟩
  | case3 => simp [pairUp] at hy

theorem climb_concat (h : D) (path : List D) (sib : D) :
    climb node h (path ++ [sib]) = node (climb node h path) sib := by
  simp [climb]

theorem mem_climbPairs_concat (h : D) (path : List D) (sib : D) :
    (climb node h path, sib) ∈ climbPairs node h (path ++ [sib]) := by
  induction path generalizing h with
  | nil => simp [climbPairs, climb]
  | cons first path ih =>
      rw [List.cons_append, climbPairs]
      exact List.mem_cons_of_mem _ (ih (node h first))

theorem climbPairs_front {h : D} {front path : List D} (hfront : front <+: path) :
    climbPairs node h front ⊆ climbPairs node h path := by
  obtain ⟨back, rfl⟩ := hfront
  induction front generalizing h with
  | nil => simp [climbPairs]
  | cons sib front ih =>
      rw [List.cons_append, climbPairs, climbPairs]
      exact List.cons_subset_cons _ (ih (h := node h sib))

/-- What keeps a climb from `x` inside a tree: `x` is no node of the tree, a pair
the climb hashes collides with no pair of the tree but itself, in either order,
and nothing the climb reaches is the padding. -/
structure Apart (x : D) (path level : List D) : Prop where
  start : ∀ q ∈ treePairs node pad level, x ≠ node q.1 q.2
  pairs : ∀ p ∈ climbPairs node x path, ∀ q ∈ treePairs node pad level,
    node p.1 p.2 = node q.1 q.2 → p = q ∨ p = q.swap
  start_ne_pad : x ≠ pad
  pairs_ne_pad : ∀ p ∈ climbPairs node x path, node p.1 p.2 ≠ pad

variable {node pad}

theorem Apart.above {x : D} {path : List D} (h : Apart node pad x path level)
    (hlong : 1 < level.length) : Apart node pad x path (pairUp node pad level) := by
  have hsub : treePairs node pad (pairUp node pad level) ⊆ treePairs node pad level := by
    rw [treePairs_of_long node pad hlong]
    exact List.subset_append_right _ _
  exact ⟨fun q hq => h.start q (hsub hq), fun p hp q hq => h.pairs p hp q (hsub hq),
    h.start_ne_pad, h.pairs_ne_pad⟩

/-- What a climb reaches after some of its siblings is not the padding. -/
theorem Apart.climb_ne_pad {x : D} {path front : List D} (h : Apart node pad x path level)
    (hfront : front <+: path) : climb node x front ≠ pad := by
  rcases List.eq_nil_or_concat front with rfl | ⟨init, sib, rfl⟩
  · exact h.start_ne_pad
  · rw [List.concat_eq_append] at hfront ⊢
    rw [climb_concat]
    exact h.pairs_ne_pad _ (climbPairs_front node hfront (mem_climbPairs_concat node x init sib))

/-- A climb that reaches an entry of the level above came from the level. -/
theorem Apart.descends {x : D} {path front : List D} (h : Apart node pad x path level)
    (hlong : 1 < level.length) (hfront : front <+: path)
    (hreach : climb node x front ∈ pairUp node pad level) :
    ∃ init, init <+: path ∧ climb node x init ∈ level := by
  obtain ⟨q, hq, hnode, hleft, hright⟩ := mem_pairUp node pad hreach
  have htree : q ∈ treePairs node pad level := by
    rw [treePairs_of_long node pad hlong]
    exact List.mem_append_left _ hq
  rcases List.eq_nil_or_concat front with rfl | ⟨init, sib, rfl⟩
  · exact absurd hnode (h.start q htree)
  · rw [List.concat_eq_append] at hfront hnode
    rw [climb_concat] at hnode
    have hpair := climbPairs_front node hfront (mem_climbPairs_concat node x init sib)
    have hinit : init <+: path := (List.prefix_append init [sib]).trans hfront
    refine ⟨init, hinit, ?_⟩
    rcases h.pairs _ hpair q htree hnode with hsame | hswap
    · have hfst : climb node x init = q.1 := congrArg Prod.fst hsame
      rw [hfst]
      exact hleft
    · have hsnd : climb node x init = q.2 := congrArg Prod.fst hswap
      rcases hright with hin | hpad
      · rw [hsnd]
        exact hin
      · exact absurd (hsnd.trans hpad) (h.climb_ne_pad hinit)

/-- A climb that reaches the top went through the lowest level. -/
theorem Apart.passes {x : D} {path : List D} (h : Apart node pad x path level)
    (htop : climb node x path ∈ reduce node pad level) :
    ∃ front, front <+: path ∧ climb node x front ∈ level := by
  induction level using reduce.induct node pad with
  | case1 level hlong _ ih =>
      rw [reduce_of_long node pad hlong] at htop
      obtain ⟨front, hfront, hreach⟩ := ih (h.above hlong) htop
      exact h.descends hlong hfront hreach
  | case2 level hshort =>
      rw [reduce_of_short node pad hshort] at htop
      exact ⟨path, List.prefix_rfl, htop⟩

/-- **Soundness**: a climb that reaches the top starts at an entry, when no entry
is the hash of a pair that the climb hashes. -/
theorem Apart.mem {x : D} {path : List D} (h : Apart node pad x path level)
    (hentries : ∀ y ∈ level, ∀ p ∈ climbPairs node x path, y ≠ node p.1 p.2)
    (htop : climb node x path ∈ reduce node pad level) : x ∈ level := by
  obtain ⟨front, hfront, hreach⟩ := h.passes htop
  rcases List.eq_nil_or_concat front with rfl | ⟨init, sib, rfl⟩
  · exact hreach
  · rw [List.concat_eq_append] at hfront hreach
    have hpair := climbPairs_front node hfront (mem_climbPairs_concat node x init sib)
    exact absurd (climb_concat node x init sib) (hentries _ hreach _ hpair)

end PaddedTree
