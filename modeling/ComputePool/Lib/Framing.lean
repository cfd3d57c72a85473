import Mathlib

/-!
# Framing of fields

When the pieces of a concatenation can be told apart.  A rendering is prefix
free when it can be split off the front of any longer list: a rendering of one
fixed length is, and so is a set of tags none of which begins another.  A field
of any length is told from what follows by a separator it does not contain, or
by what follows having a fixed length.
-/

namespace Framing

variable {α β : Type*} {f : α → List β}

/-- `f a` can be split off the front of any list it begins. -/
def PrefixFree (f : α → List β) : Prop :=
  ∀ ⦃a b : α⦄ ⦃s t : List β⦄, f a ++ s = f b ++ t → a = b ∧ s = t

/-- Renderings none of which begins another are prefix free. -/
theorem prefixFree_of_prefix (h : ∀ a b, f a <+: f b → a = b) : PrefixFree f := by
  intro a b s t hsame
  have ha : f a <+: f b ++ t := hsame ▸ List.prefix_append _ _
  have hb : f b <+: f b ++ t := List.prefix_append _ _
  have heq : a = b := by
    rcases List.prefix_or_prefix_of_prefix ha hb with hab | hba
    · exact h a b hab
    · exact (h b a hba).symm
  subst heq
  exact ⟨rfl, List.append_cancel_left hsame⟩

/-- Distinct renderings of one length are prefix free. -/
theorem prefixFree_of_length {n : Nat} (hlen : ∀ a, (f a).length = n)
    (hinj : Function.Injective f) : PrefixFree f := by
  intro a b s t hsame
  obtain ⟨hfront, hback⟩ := List.append_inj hsame ((hlen a).trans (hlen b).symm)
  exact ⟨hinj hfront, hback⟩

/-- Lists of equal images are equal where the map is injective between them. -/
theorem eq_of_map_eq {γ : Type*} {g : α → γ} {r s : List α}
    (hinj : ∀ x ∈ r, ∀ y ∈ s, g x = g y → x = y) (h : r.map g = s.map g) : r = s := by
  induction r generalizing s with
  | nil => exact (List.map_eq_nil_iff.mp h.symm).symm
  | cons x r ih =>
      cases s with
      | nil => exact absurd h (List.cons_ne_nil _ _)
      | cons y s =>
          obtain ⟨hhead, htail⟩ := List.cons.inj h
          have hx := hinj x List.mem_cons_self y List.mem_cons_self hhead
          have hrest := ih (fun x hx y hy => hinj x (List.mem_cons_of_mem _ hx) y
            (List.mem_cons_of_mem _ hy)) htail
          rw [hx, hrest]

/-- Records of one positive length are read back from their concatenation. -/
theorem flatMap_injective {n : Nat} (hpos : 0 < n) (hlen : ∀ a, (f a).length = n)
    (hinj : Function.Injective f) : Function.Injective (List.flatMap f) := by
  intro r s h
  have hwidth : ∀ l : List α, (l.flatMap f).length = l.length * n := by
    intro l
    induction l with
    | nil => simp
    | cons a l ih => rw [List.flatMap_cons, List.length_append, hlen, ih, List.length_cons,
        Nat.succ_mul, Nat.add_comm]
  have hlength : r.length = s.length := by
    have hbytes := congrArg List.length h
    rw [hwidth, hwidth] at hbytes
    exact Nat.eq_of_mul_eq_mul_right hpos hbytes
  have hmap : r.map f = s.map f := by
    apply List.eq_iff_flatten_eq.mpr
    refine ⟨h, ?_⟩
    rw [List.map_map, List.map_map]
    have hconst : List.length ∘ f = fun _ => n := funext hlen
    rw [hconst, List.map_const', List.map_const', hlength]
  exact List.map_injective_iff.mpr hinj hmap

/-- A field followed by pieces of one length is told from them. -/
theorem append_inj_of_tail {a b s t : List β} (hsame : a ++ s = b ++ t)
    (hlen : s.length = t.length) : a = b ∧ s = t :=
  List.append_inj' hsame hlen

/-- A field is told from what follows a separator it does not contain. -/
theorem append_sep_inj {sep : β} {a b s t : List β} (ha : sep ∉ a) (hb : sep ∉ b)
    (hsame : a ++ sep :: s = b ++ sep :: t) : a = b ∧ s = t := by
  induction a generalizing b with
  | nil =>
      cases b with
      | nil => exact ⟨rfl, (List.cons.inj hsame).2⟩
      | cons y b =>
          have hhead : sep = y := (List.cons.inj hsame).1
          exact absurd (hhead ▸ List.mem_cons_self) hb
  | cons x a ih =>
      cases b with
      | nil =>
          have hhead : x = sep := (List.cons.inj hsame).1
          exact absurd (hhead ▸ List.mem_cons_self) ha
      | cons y b =>
          obtain ⟨hhead, htail⟩ := List.cons.inj hsame
          obtain ⟨hfield, hrest⟩ := ih (fun h => ha (List.mem_cons_of_mem _ h))
            (fun h => hb (List.mem_cons_of_mem _ h)) htail
          exact ⟨by rw [hhead, hfield], hrest⟩

end Framing
