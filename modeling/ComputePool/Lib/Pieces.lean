import Mathlib

/-!
# Pieces of a list

A list cut into pieces of one width, of which the last may be short; and lists of
one length put one behind the other, each found again at its own place.
-/

namespace Pieces

variable {α : Type*}

/-- The `c`th piece of width `d`. -/
def piece (d : Nat) (items : List α) (c : Nat) : List α := (items.drop (c * d)).take d

/-- How many pieces there are. -/
def count (d len : Nat) : Nat := (len + d - 1) / d

variable {d c : Nat} {items : List α}

theorem piece_length : (piece d items c).length = min d (items.length - c * d) := by
  unfold piece
  rw [List.length_take, List.length_drop]

/-- The pieces before the `k`th, one behind the other. -/
theorem flatten_pieces (d : Nat) (items : List α) (k : Nat) :
    ((List.range k).map (piece d items)).flatten = items.take (k * d) := by
  induction k with
  | zero => simp
  | succ k ih =>
      rw [List.range_succ, List.map_append, List.flatten_append, ih, Nat.succ_mul, List.take_add]
      simp [piece]

theorem lt_count_iff (hd : 0 < d) {len : Nat} : c < count d len ↔ c * d < len := by
  unfold count
  rw [Nat.lt_iff_add_one_le, Nat.le_div_iff_mul_le hd, Nat.succ_mul]
  omega

theorem len_le_count_mul (hd : 0 < d) (len : Nat) : len ≤ count d len * d := by
  by_contra hlt
  exact absurd ((lt_count_iff hd).mpr (not_le.mp hlt)) (lt_irrefl _)

/-- All pieces together are the list. -/
theorem flatten_all (hd : 0 < d) (items : List α) :
    ((List.range (count d items.length)).map (piece d items)).flatten = items := by
  rw [flatten_pieces]
  exact List.take_of_length_le (len_le_count_mul hd _)

/-- No piece is empty or too wide. -/
theorem piece_bounds (hd : 0 < d) (hc : c < count d items.length) :
    0 < (piece d items c).length ∧ (piece d items c).length ≤ d := by
  rw [lt_count_iff hd] at hc
  rw [piece_length]
  omega

theorem flatten_length {lists : List (List α)} (hlists : ∀ l ∈ lists, l.length = d) :
    lists.flatten.length = lists.length * d := by
  induction lists with
  | nil => simp
  | cons first rest ih =>
      rw [List.flatten_cons, List.length_append, List.length_cons, Nat.succ_mul,
        hlists first List.mem_cons_self, ih fun l hl => hlists l (List.mem_cons_of_mem _ hl),
        Nat.add_comm]

/-- Lists of one length, one behind the other, are found at their places. -/
theorem piece_flatten {lists : List (List α)} (hlists : ∀ l ∈ lists, l.length = d) {i : Nat}
    {l : List α} (h : lists[i]? = some l) : piece d lists.flatten i = l := by
  induction lists generalizing i with
  | nil => cases h
  | cons first rest ih =>
      have hfirst : first.length = d := hlists first List.mem_cons_self
      have hrest : ∀ l ∈ rest, l.length = d := fun l hl => hlists l (List.mem_cons_of_mem _ hl)
      cases i with
      | zero =>
          cases h
          unfold piece
          rw [Nat.zero_mul, List.drop_zero, List.flatten_cons, ← hfirst, List.take_left]
      | succ i =>
          have hnext := ih hrest (i := i) h
          unfold piece at hnext ⊢
          rw [List.flatten_cons, Nat.succ_mul, Nat.add_comm, ← List.drop_drop]
          conv_lhs => rw [← hfirst]
          rw [List.drop_left, hfirst]
          exact hnext

/-- A place within a piece. -/
theorem piece_getElem? (items : List α) {j : Nat} (hj : j < d) :
    (piece d items c)[j]? = items[c * d + j]? := by
  unfold piece
  rw [List.getElem?_take_of_lt hj, List.getElem?_drop]

/-- A place within a list, where the lists before it take up `o` places. -/
theorem getElem?_flatten {lists : List (List α)} {l : List α} (hc : lists[c]? = some l) {o j : Nat}
    (ho : ((lists.take c).map List.length).sum = o) (hj : j < l.length) :
    lists.flatten[o + j]? = l[j]? := by
  induction lists generalizing c o with
  | nil => cases hc
  | cons first rest ih =>
      cases c with
      | zero =>
          cases hc
          rw [← ho]
          simp [List.getElem?_append_left hj]
      | succ c =>
          rw [List.take_succ_cons, List.map_cons, List.sum_cons] at ho
          rw [List.flatten_cons, List.getElem?_append_right (by omega)]
          have hplace : o + j - first.length = ((rest.take c).map List.length).sum + j := by omega
          rw [hplace]
          exact ih hc rfl

section Ragged

-- lists as long as the pieces of a list of length `len`
variable {lists : List (List α)} {len : Nat}
  (hlists : ∀ c l, lists[c]? = some l → l.length = min d (len - c * d))

include hlists

/-- Each of them is found at the place of its piece. -/
theorem getElem?_ragged {l : List α} {j : Nat} (hc : lists[c]? = some l) (hj : j < l.length) :
    lists.flatten[c * d + j]? = l[j]? := by
  have hlast := hlists c l hc
  have hall : ∀ n ∈ (lists.take c).map List.length, n = d := by
    intro n hn
    have ⟨l', hl', hn⟩ := List.mem_map.mp hn
    have ⟨i, hi⟩ := List.getElem?_of_mem hl'
    have hic : i < c := by
      have := (List.getElem?_eq_some_iff.mp hi).1
      rw [List.length_take] at this
      omega
    rw [List.getElem?_take_of_lt hic] at hi
    -- a later list is not empty, so that this one is full
    have hfull := hlists i l' hi
    have hmul : (i + 1) * d ≤ c * d := Nat.mul_le_mul_right d hic
    rw [Nat.succ_mul] at hmul
    omega
  have hin := (List.getElem?_eq_some_iff.mp hc).1
  apply getElem?_flatten hc _ hj
  rw [List.sum_eq_card_nsmul _ _ hall, List.length_map, List.length_take, smul_eq_mul,
    Nat.min_eq_left hin.le]

/-- As many of them as there are pieces are as long as the list. -/
theorem length_ragged (hd : 0 < d) (hcount : lists.length = count d len) :
    lists.flatten.length = len := by
  have hlengths : lists.map List.length =
      (List.range (count d len)).map fun c => (piece d (List.replicate len ()) c).length := by
    apply List.ext_getElem?
    intro c
    rw [List.getElem?_map, List.getElem?_map]
    cases hc : lists[c]? with
    | none =>
        have hout := List.getElem?_eq_none_iff.mp hc
        rw [List.getElem?_eq_none (by rw [List.length_range]; omega)]
        rfl
    | some l =>
        have hin := (List.getElem?_eq_some_iff.mp hc).1
        rw [List.getElem?_range (by omega), Option.map_some, Option.map_some, hlists c l hc,
          piece_length, List.length_replicate]
  have hwhole := flatten_all hd (List.replicate len ())
  rw [List.length_replicate] at hwhole
  have hlength := congrArg List.length hwhole
  rw [List.length_flatten, List.map_map, List.length_replicate] at hlength
  rw [List.length_flatten, hlengths]
  exact hlength

end Ragged

end Pieces
