import ComputePool.Lib.Machine

/-!
# Owners of a shared state

Inputs of a machine belong to owners, and every owner has a view of the state.  An
input acts on the view of its owner and passes over the others'.  If what passes
over a view changes nothing for the inputs that come later, the answers an owner
gets are those it would get alone.
-/

namespace Machine

variable {σ ι κ ν ω : Type*}

/-- The answers along a run, each with its input. -/
def answers (M : Machine σ ι) (out : σ → ι → ω) : σ → List ι → List (ι × ω)
  | _, [] => []
  | s, i :: rest => (i, out s i) :: answers M out (M.step s i) rest

theorem answers_inputs (M : Machine σ ι) (out : σ → ι → ω) (s : σ) (inputs : List ι) :
    (M.answers out s inputs).map Prod.fst = inputs := by
  induction inputs generalizing s with
  | nil => rfl
  | cons i rest ih => rw [answers, List.map_cons, ih]

/-- How inputs reach the views: `act` and `reply` for the owner's, `pass` for the
others'. -/
structure Views (ι κ ν ω : Type*) where
  owner : ι → κ
  act : ι → ν → ν
  reply : ι → ν → ω
  pass : ι → ν → ν

/-- The machine acts on views as described, in every state that satisfies `Inv`, and
an input that passes over a view makes no difference to later ones. -/
structure Separates (M : Machine σ ι) (out : σ → ι → ω) (V : Views ι κ ν ω) (view : σ → κ → ν)
    (Inv : σ → Prop) (before : ι → ι → Prop) : Prop where
  inv : ∀ s i, Inv s → Inv (M.step s i)
  own : ∀ s i, Inv s → view (M.step s i) (V.owner i) = V.act i (view s (V.owner i))
  reply : ∀ s i, Inv s → out s i = V.reply i (view s (V.owner i))
  other : ∀ s i k, Inv s → V.owner i ≠ k → view (M.step s i) k = V.pass i (view s k)
  act_pass : ∀ i j v, before i j → V.act j (V.pass i v) = V.act j v
  reply_pass : ∀ i j v, before i j → V.reply j (V.pass i v) = V.reply j v

variable [DecidableEq κ] {M : Machine σ ι} {out : σ → ι → ω} {V : Views ι κ ν ω}
  {view : σ → κ → ν} {Inv : σ → Prop} {before : ι → ι → Prop}

theorem Separates.answers_aux (h : Separates M out V view Inv before) (k : κ) {inputs : List ι} :
    ∀ {s s' : σ}, Inv s → Inv s' → inputs.Pairwise before →
      (∀ j ∈ inputs, V.act j (view s k) = V.act j (view s' k) ∧
        V.reply j (view s k) = V.reply j (view s' k)) →
      (M.answers out s inputs).filter (fun a => V.owner a.1 = k) =
        M.answers out s' (inputs.filter fun i => V.owner i = k) := by
  induction inputs with
  | nil => exact fun _ _ _ _ => rfl
  | cons i rest ih =>
      intro s s' hs hs' hbefore hsame
      rw [List.pairwise_cons] at hbefore
      by_cases hown : V.owner i = k
      · -- the two states answer alike, and the owner's views are equal from here on
        have hreply : out s i = out s' i := by
          rw [h.reply s i hs, h.reply s' i hs', hown]
          exact (hsame i List.mem_cons_self).2
        have hview : view (M.step s i) k = view (M.step s' i) k := by
          rw [← hown, h.own s i hs, h.own s' i hs', hown]
          exact (hsame i List.mem_cons_self).1
        have hrest := ih (h.inv s i hs) (h.inv s' i hs') hbefore.2 fun j _ => by
          rw [hview]
          exact ⟨rfl, rfl⟩
        rw [answers, List.filter_cons_of_pos (by simpa using hown),
          List.filter_cons_of_pos (by simpa using hown), answers, hreply, hrest]
      · have hrest := ih (h.inv s i hs) hs' hbefore.2 fun j hj => by
          rw [h.other s i k hs hown, h.act_pass i j _ (hbefore.1 j hj),
            h.reply_pass i j _ (hbefore.1 j hj)]
          exact hsame j (List.mem_cons_of_mem _ hj)
        rw [answers, List.filter_cons_of_neg (by simpa using hown),
          List.filter_cons_of_neg (by simpa using hown), hrest]

/-- An owner gets the answers it would get alone. -/
theorem Separates.answers_eq (h : Separates M out V view Inv before) (k : κ) {s : σ} (hs : Inv s)
    {inputs : List ι} (hbefore : inputs.Pairwise before) :
    (M.answers out s inputs).filter (fun a => V.owner a.1 = k) =
      M.answers out s (inputs.filter fun i => V.owner i = k) :=
  h.answers_aux k hs hs hbefore fun _ _ => ⟨rfl, rfl⟩

end Machine
