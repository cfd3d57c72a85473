import ComputePool.Lib.Interaction

/-!
# Programs that work on a world

Here the calls of a program act on a world, and find it as the calls before them have left
it.  A call may be answered in several ways.  A run ends with a value, or is cut short before
one of its calls or in the middle of it; what it leaves behind then is said by a condition of
its own.
-/

namespace Interaction

/-- What the calls of an interface do to a world. -/
structure World (I : Signature) (W : Type) where
  /-- The call may be answered so, and leave the world so. -/
  answers : W → (c : I.Call) → I.Answer c → W → Prop
  /-- The call may leave the world so when it is cut short. -/
  partway : W → I.Call → W → Prop

namespace Proc

variable {I : Signature} {W α β : Type}

/-- The runs of a program.  One that is cut short has no value. -/
inductive Runs (world : World I W) : Proc I α → W → Option α → W → Prop where
  | done {a : α} {w : W} : Runs world (.done a) w (some a) w
  | now {k : Nat → Proc I α} {w w' : W} {out : Option α} (t : Nat) :
      Runs world (k t) w out w' → Runs world (.now k) w out w'
  | call {c : I.Call} {k : I.Answer c → Proc I α} {w w' w'' : W} {out : Option α}
      {answer : I.Answer c} : world.answers w c answer w' → Runs world (k answer) w' out w'' →
      Runs world (.call c k) w out w''
  | before {c : I.Call} {k : I.Answer c → Proc I α} {w : W} : Runs world (.call c k) w none w
  | during {c : I.Call} {k : I.Answer c → Proc I α} {w w' : W} : world.partway w c w' →
      Runs world (.call c k) w none w'

/-- Every run from here that ends satisfies `post`, and every one that is cut short leaves
the world as `cut` says. -/
def Meets (world : World I W) (post : α → W → Prop) (cut : W → Prop) : Proc I α → W → Prop
  | .done a, w => post a w
  | .now k, w => ∀ t, (k t).Meets world post cut w
  | .call c k, w => cut w ∧ (∀ w', world.partway w c w' → cut w') ∧
      ∀ answer w', world.answers w c answer w' → (k answer).Meets world post cut w'

variable {world : World I W} {post post' : α → W → Prop} {cut cut' : W → Prop}

theorem Meets.runs {p : Proc I α} {w w' : W} {out : Option α} (h : p.Meets world post cut w)
    (hruns : p.Runs world w out w') :
    (∀ a, out = some a → post a w') ∧ (out = none → cut w') := by
  induction hruns with
  | done =>
      refine ⟨fun a ha => ?_, nofun⟩
      obtain rfl := Option.some.inj ha
      exact h
  | now t _ ih => exact ih (h t)
  | call hanswer _ ih => exact ih (h.2.2 _ _ hanswer)
  | before => exact ⟨nofun, fun _ => h.1⟩
  | during hpart => exact ⟨nofun, fun _ => h.2.1 _ hpart⟩

/-- A run that ends, and a run of what follows. -/
theorem Runs.bind {p : Proc I α} {f : α → Proc I β} {w w' w'' : W} {a : α} {out : Option β}
    (hp : p.Runs world w (some a) w') (hf : (f a).Runs world w' out w'') :
    (p.bind f).Runs world w out w'' := by
  generalize hend : some a = ended at hp
  induction hp with
  | done =>
      obtain rfl := Option.some.inj hend
      exact hf
  | now t _ ih => exact .now t (ih hf hend)
  | call hanswer _ ih => exact .call hanswer (ih hf hend)
  | before => cases hend
  | during => cases hend

/-- A run that is cut short before what follows. -/
theorem Runs.bind_cut {p : Proc I α} {f : α → Proc I β} {w w' : W}
    (hp : p.Runs world w none w') : (p.bind f).Runs world w none w' := by
  generalize hcut : (none : Option α) = cut at hp
  induction hp with
  | done => cases hcut
  | now t _ ih => exact .now t (ih hcut)
  | call hanswer _ ih => exact .call hanswer (ih hcut)
  | before => exact .before
  | during hpart => exact .during hpart

theorem Meets.mono {p : Proc I α} {w : W} (h : p.Meets world post cut w)
    (hpost : ∀ a w', post a w' → post' a w') (hcut : ∀ w', cut w' → cut' w') :
    p.Meets world post' cut' w := by
  induction p generalizing w with
  | done a => exact hpost a w h
  | now k ih => exact fun t => ih t (h t)
  | call c k ih =>
      obtain ⟨hbefore, hduring, hafter⟩ := h
      exact ⟨hcut w hbefore, fun w' hpart => hcut w' (hduring w' hpart),
        fun answer w' hanswer => ih answer (hafter answer w' hanswer)⟩

theorem meets_bind {post : β → W → Prop} {p : Proc I α} {f : α → Proc I β} {w : W} :
    (p.bind f).Meets world post cut w ↔
      p.Meets world (fun a w' => (f a).Meets world post cut w') cut w := by
  induction p generalizing w with
  | done a => exact Iff.rfl
  | now k ih => exact forall_congr' fun t => ih t
  | call c k ih =>
      refine and_congr_right fun _ => and_congr_right fun _ => ?_
      exact forall_congr' fun answer => forall₂_congr fun w' _ => ih answer

end Proc

namespace Fallible

variable {I : Signature} {W ε ε' α β : Type}

/-- The error is the caller's to look at. -/
def attempt (p : Fallible I ε α) : Fallible I ε' (Except ε α) :=
  Proc.bind p fun r => Proc.done (.ok r)

/-- `map_err` -/
def mapError (f : ε → ε') (p : Fallible I ε α) : Fallible I ε' α :=
  Proc.bind p fun r => Proc.done (r.mapError f)

/-- `Proc.Meets` with the two ways to end apart. -/
def Meets (world : World I W) (ok : α → W → Prop) (err : ε → W → Prop) (cut : W → Prop)
    (p : Fallible I ε α) (w : W) : Prop :=
  Proc.Meets world (fun r w' => match r with | .ok a => ok a w' | .error e => err e w') cut p w

variable {world : World I W} {ok ok' : α → W → Prop} {err err' : ε → W → Prop}
  {cut cut' : W → Prop} {w w' : W}

theorem Meets.runs {p : Fallible I ε α} {out : Option (Except ε α)}
    (h : Meets world ok err cut p w) (hruns : Proc.Runs world p w out w') :
    (∀ a, out = some (.ok a) → ok a w') ∧ (∀ e, out = some (.error e) → err e w') ∧
      (out = none → cut w') := by
  have ⟨hend, hcut⟩ := Proc.Meets.runs h hruns
  exact ⟨fun a ha => hend (.ok a) ha, fun e he => hend (.error e) he, hcut⟩

theorem runs_bind {p : Fallible I ε α} {f : α → Fallible I ε β} {w'' : W} {a : α}
    {out : Option (Except ε β)} (hp : Proc.Runs world p w (some (.ok a)) w')
    (hf : Proc.Runs world (f a) w' out w'') :
    Proc.Runs world (p >>= f : Fallible I ε β) w out w'' :=
  Proc.Runs.bind (a := Except.ok a) hp hf

theorem runs_bind_error {p : Fallible I ε α} {f : α → Fallible I ε β} {e : ε}
    (hp : Proc.Runs world p w (some (.error e)) w') :
    Proc.Runs world (p >>= f : Fallible I ε β) w (some (.error e)) w' :=
  Proc.Runs.bind (a := Except.error e) hp .done

theorem runs_bind_cut {p : Fallible I ε α} {f : α → Fallible I ε β}
    (hp : Proc.Runs world p w none w') :
    Proc.Runs world (p >>= f : Fallible I ε β) w none w' :=
  Proc.Runs.bind_cut hp

theorem runs_mapError {p : Fallible I ε α} {f : ε → ε'} {out : Option (Except ε α)}
    (hp : Proc.Runs world p w out w') :
    Proc.Runs world (mapError f p) w (out.map (Except.mapError f)) w' := by
  cases out with
  | none => exact Proc.Runs.bind_cut hp
  | some r => exact Proc.Runs.bind hp .done

theorem runs_ask {c : I.Call} {answer : I.Answer c} (h : world.answers w c answer w') :
    Proc.Runs world (ask c : Fallible I ε (I.Answer c)) w (some (.ok answer)) w' :=
  .call h .done

theorem runs_ofExcept {r : Except ε α} {a : α} (h : r = .ok a) :
    Proc.Runs world (ofExcept r) w (some (.ok a)) w := by
  rw [h]
  exact .done

theorem Meets.mono {p : Fallible I ε α} (h : Meets world ok err cut p w)
    (hok : ∀ a w', ok a w' → ok' a w') (herr : ∀ e w', err e w' → err' e w')
    (hcut : ∀ w', cut w' → cut' w') : Meets world ok' err' cut' p w := by
  refine Proc.Meets.mono h (fun r w' hr => ?_) hcut
  cases r with
  | ok a => exact hok a w' hr
  | error e => exact herr e w' hr

@[simp] theorem meets_pure {a : α} :
    Meets world ok err cut (pure a : Fallible I ε α) w ↔ ok a w := Iff.rfl

@[simp] theorem meets_fail {e : ε} :
    Meets world ok err cut (fail e : Fallible I ε α) w ↔ err e w := Iff.rfl

theorem meets_ofExcept {r : Except ε α} :
    Meets world ok err cut (ofExcept r : Fallible I ε α) w ↔
      (∀ a, r = .ok a → ok a w) ∧ ∀ e, r = .error e → err e w := by
  cases r with
  | ok a => simp [Meets, ofExcept, Proc.Meets]
  | error e => simp [Meets, ofExcept, Proc.Meets]

theorem meets_ask {c : I.Call} {ok : I.Answer c → W → Prop} :
    Meets world ok err cut (ask c : Fallible I ε (I.Answer c)) w ↔
      cut w ∧ (∀ w', world.partway w c w' → cut w') ∧
        ∀ answer w', world.answers w c answer w' → ok answer w' := Iff.rfl

theorem meets_bind {ok : β → W → Prop} {p : Fallible I ε α} {f : α → Fallible I ε β} :
    Meets world ok err cut (p >>= f) w ↔
      Meets world (fun a w' => Meets world ok err cut (f a) w') err cut p w := by
  refine Proc.meets_bind.trans (iff_of_eq ?_)
  refine congrArg (fun post => Proc.Meets world post cut p w) ?_
  funext r w'
  cases r with
  | ok a => rfl
  | error e => rfl

theorem meets_attempt {ok : Except ε α → W → Prop} {err : ε' → W → Prop} {p : Fallible I ε α} :
    Meets world ok err cut (attempt p) w ↔
      Meets world (fun a w' => ok (.ok a) w') (fun e w' => ok (.error e) w') cut p w := by
  refine Proc.meets_bind.trans (iff_of_eq ?_)
  refine congrArg (fun post => Proc.Meets world post cut p w) ?_
  funext r w'
  cases r with
  | ok a => rfl
  | error e => rfl

theorem meets_mapError {f : ε → ε'} {err : ε' → W → Prop} {p : Fallible I ε α} :
    Meets world ok err cut (mapError f p) w ↔ Meets world ok (fun e w' => err (f e) w') cut p w := by
  refine Proc.meets_bind.trans (iff_of_eq ?_)
  refine congrArg (fun post => Proc.Meets world post cut p w) ?_
  funext r w'
  cases r with
  | ok a => rfl
  | error e => rfl

/-- A loop keeps what each round of it keeps, `inv` being told the items that are done. -/
theorem meets_forM {items : List β} {f : β → Fallible I ε Unit} (inv : List β → W → Prop)
    (hround : ∀ front x back, items = front ++ x :: back → ∀ w, inv front w →
      Meets world (fun _ w' => inv (front ++ [x]) w') err cut (f x) w) (h : inv [] w) :
    Meets world (fun _ w' => inv items w') err cut (forM items f) w := by
  -- the items are split into those before and those to come
  have hloop : ∀ front back, items = front ++ back → ∀ w, inv front w →
      Meets world (fun _ w' => inv items w') err cut (forM back f) w := by
    intro front back
    induction back generalizing front with
    | nil =>
        intro hitems w hinv
        rw [hitems, List.append_nil]
        exact hinv
    | cons x back ih =>
        intro hitems w hinv
        rw [List.forM_cons, meets_bind]
        refine (hround front x back hitems w hinv).mono (fun _ w' hnext => ?_)
          (fun _ _ he => he) fun _ hcut => hcut
        refine ih (front ++ [x]) ?_ w' hnext
        rw [hitems, List.append_assoc]
        rfl
  exact hloop [] items rfl w h

/-! ## Moving along an order -/

/-- However far it gets, the program moves the world along `R`, and what it ends with
satisfies `post`. -/
def Moves (world : World I W) (R : W → W → Prop) (post : α → W → Prop) (p : Fallible I ε α)
    (w : W) : Prop :=
  Meets world (fun a w' => R w w' ∧ post a w') (fun _ w' => R w w') (R w) p w

section Moves

variable {R : W → W → Prop} {post post' : α → W → Prop} {p : Fallible I ε α}

theorem Moves.runs {out : Option (Except ε α)} (h : Moves world R post p w)
    (hruns : Proc.Runs world p w out w') : R w w' ∧ ∀ a, out = some (.ok a) → post a w' := by
  have ⟨hok, herr, hcut⟩ := Meets.runs h hruns
  cases out with
  | none => exact ⟨hcut rfl, nofun⟩
  | some r =>
      cases r with
      | ok a => exact ⟨(hok a rfl).1, fun a' ha' => (hok a' ha').2⟩
      | error e => exact ⟨herr e rfl, nofun⟩

theorem Moves.mono (h : Moves world R post p w) (hpost : ∀ a w', R w w' → post a w' → post' a w') :
    Moves world R post' p w :=
  Meets.mono h (fun a w' ha => ⟨ha.1, hpost a w' ha.1 ha.2⟩) (fun _ _ he => he) fun _ hcut => hcut

/-- What moves along an order moves along a coarser one. -/
theorem Moves.coarser {R' : W → W → Prop} (h : Moves world R post p w) (hR : ∀ w', R w w' → R' w w') :
    Moves world R' post p w :=
  Meets.mono h (fun _ w' ha => ⟨hR w' ha.1, ha.2⟩) (fun _ w' he => hR w' he) fun w' hcut => hR w' hcut

theorem moves_pure [Std.Refl R] {a : α} (h : post a w) :
    Moves world R post (pure a : Fallible I ε α) w :=
  ⟨refl w, h⟩

theorem moves_fail [Std.Refl R] {e : ε} : Moves world R post (fail e : Fallible I ε α) w := refl w

theorem moves_ofExcept [Std.Refl R] {r : Except ε α} (h : ∀ a, r = .ok a → post a w) :
    Moves world R post (ofExcept r) w :=
  meets_ofExcept.mpr ⟨fun a ha => ⟨refl w, h a ha⟩, fun _ _ => refl w⟩

theorem moves_ask [Std.Refl R] {c : I.Call} {post : I.Answer c → W → Prop}
    (hpart : ∀ w', world.partway w c w' → R w w')
    (hanswer : ∀ answer w', world.answers w c answer w' → R w w' ∧ post answer w') :
    Moves world R post (ask c : Fallible I ε (I.Answer c)) w :=
  meets_ask.mpr ⟨refl w, hpart, hanswer⟩

theorem Moves.bind [IsTrans W R] {post : β → W → Prop} {M : α → W → Prop}
    {f : α → Fallible I ε β} (hp : Moves world R M p w)
    (hf : ∀ a w', R w w' → M a w' → Moves world R post (f a) w') :
    Moves world R post (p >>= f) w := by
  refine meets_bind.mpr (Meets.mono hp (fun a w' ha => ?_) (fun _ _ he => he) fun _ hcut => hcut)
  have hmove := ha.1
  exact Meets.mono (hf a w' hmove ha.2) (fun b w'' hb => ⟨trans_of R hmove hb.1, hb.2⟩)
    (fun e w'' he => trans_of R hmove he) fun w'' hcut => trans_of R hmove hcut

theorem Moves.attempt {post : Except ε α → W → Prop} (hp : Moves world R (fun a => post (.ok a)) p w)
    (herr : ∀ e w', R w w' → post (.error e) w') :
    Moves world R post (attempt p : Fallible I ε' (Except ε α)) w :=
  meets_attempt.mpr (Meets.mono hp (fun _ _ ha => ha) (fun e w' he => ⟨he, herr e w' he⟩)
    fun _ hcut => hcut)

theorem Moves.mapError {f : ε → ε'} (hp : Moves world R post p w) :
    Moves world R post (mapError f p) w :=
  meets_mapError.mpr hp

/-- A loop reaches what each round of it reaches, if later moves keep that. -/
theorem moves_forM [Std.Refl R] [IsTrans W R] {items : List β} {f : β → Fallible I ε Unit}
    {reached : β → W → Prop} (hstable : ∀ x w w', R w w' → reached x w → reached x w')
    (hround : ∀ x ∈ items, ∀ w, Moves world R (fun _ w' => reached x w') (f x) w) :
    Moves world R (fun _ w' => ∀ x ∈ items, reached x w') (forM items f) w := by
  have hloop : Meets world (fun _ w' => R w w' ∧ ∀ x ∈ items, reached x w') (fun _ w' => R w w')
      (R w) (forM items f) w := by
    refine meets_forM (fun done w' => R w w' ∧ ∀ x ∈ done, reached x w') ?_ ⟨refl w, nofun⟩
    rintro front x back hitems w' ⟨hmove, hdone⟩
    have hx : x ∈ items := by
      rw [hitems]
      exact List.mem_append_right _ List.mem_cons_self
    refine Meets.mono (hround x hx w') (fun _ w'' hnext => ?_)
      (fun _ _ he => trans_of R hmove he) fun _ hcut => trans_of R hmove hcut
    refine ⟨trans_of R hmove hnext.1, fun y hy => ?_⟩
    rcases List.mem_append.mp hy with hy | hy
    · exact hstable y w' w'' hnext.1 (hdone y hy)
    · obtain rfl := List.mem_singleton.mp hy
      exact hnext.2
  exact hloop

end Moves

-- A goal about a program is not to be unfolded into its calls.
attribute [irreducible] Meets Moves

end Fallible

end Interaction
