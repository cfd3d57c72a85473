import ComputePool.Lib.Codec
import ComputePool.Rust.Result

/-!
# Readers that count where they are

A cursor over a file keeps a count of its own beside the reader it takes bytes from, and
checks lengths against the count.  Such a reader may panic: it may ask for bytes that are
not there, or its count may overflow.  `Tracks` says that it does not, and that it reads
what a plain reader of the remaining bytes reads; it is closed under sequencing, checks
and loops, so a decoder is compared part by part.
-/

namespace Tracked

open RustStd Codec

/-- Where a cursor is. -/
structure Position where
  /-- What the reader has not handed out yet. -/
  rest : List UInt8
  /-- What the cursor has counted. -/
  pos : Nat

/-- A reader with a count, which may panic. -/
abbrev Counted (ε α : Type) := StateT Position (Except (Stop ε)) α

/-- The count agrees with what is left of a file of `len` bytes. -/
def Position.within (len : Nat) (rest : List UInt8) : Position := ⟨rest, len - rest.length⟩

variable {ε α β : Type} {len : Nat}

/-- `raw` does not panic on a file of `len` bytes, and reads what `p` reads. -/
structure Tracks (len : Nat) (raw : Counted ε α) (p : Reader ε α) : Prop where
  shrinks : ∀ {rest a rest'}, rest.length ≤ len → p rest = .ok (a, rest') →
    rest'.length ≤ rest.length
  reads : ∀ {rest a rest'}, rest.length ≤ len → p rest = .ok (a, rest') →
    raw (.within len rest) = .ok (a, .within len rest')
  fails : ∀ {rest e}, rest.length ≤ len → p rest = .error e →
    raw (.within len rest) = .error (.err e)

/-- A reader that fails, taken apart. -/
theorem bind_error {p : Reader ε α} {q : α → Reader ε β} {s : List UInt8} {e : ε}
    (h : (p >>= q) s = .error e) :
    p s = .error e ∨ ∃ a t, p s = .ok (a, t) ∧ q a t = .error e := by
  change (p s >>= fun r => q r.1 r.2) = _ at h
  cases hp : p s with
  | error e' =>
      rw [hp] at h
      cases h
      exact .inl rfl
  | ok r =>
      rw [hp] at h
      exact .inr ⟨r.1, r.2, rfl, h⟩

theorem Tracks.pure (a : α) : Tracks len (pure a : Counted ε α) (pure a) where
  shrinks _ h := by
    cases h
    exact le_rfl
  reads _ h := by
    cases h
    rfl
  fails _ h := by cases h

theorem Tracks.throw (e : ε) :
    Tracks len (throw (.err e) : Counted ε α) (throw e) where
  shrinks _ h := by cases h
  reads _ h := by cases h
  fails _ h := by
    cases h
    rfl

theorem Tracks.bind {raw : Counted ε α} {p : Reader ε α} {rawNext : α → Counted ε β}
    {next : α → Reader ε β} (h : Tracks len raw p) (hnext : ∀ a, Tracks len (rawNext a) (next a)) :
    Tracks len (raw >>= rawNext) (p >>= next) where
  shrinks hlen hok := by
    have ⟨a, t, ha, hb⟩ := bind_ok.mp hok
    have hle := h.shrinks hlen ha
    exact ((hnext a).shrinks (hle.trans hlen) hb).trans hle
  reads {rest b rest'} hlen hok := by
    have ⟨a, t, ha, hb⟩ := bind_ok.mp hok
    change (raw (.within len rest) >>= fun r => rawNext r.1 r.2) = _
    rw [h.reads hlen ha]
    exact (hnext a).reads ((h.shrinks hlen ha).trans hlen) hb
  fails {rest e} hlen herror := by
    change (raw (.within len rest) >>= fun r => rawNext r.1 r.2) = _
    rcases bind_error herror with hfirst | ⟨a, t, ha, hb⟩
    · rw [h.fails hlen hfirst]
      rfl
    · rw [h.reads hlen ha]
      exact (hnext a).fails ((h.shrinks hlen ha).trans hlen) hb

theorem Tracks.map {raw : Counted ε α} {p : Reader ε α} (f : α → β) (h : Tracks len raw p) :
    Tracks len (f <$> raw) (f <$> p) := by
  have hbind := h.bind fun a => Tracks.pure (f a)
  rwa [← map_eq_pure_bind, ← map_eq_pure_bind] at hbind

theorem Tracks.ite {c : Prop} [Decidable c] {raw raw' : Counted ε α} {p p' : Reader ε α}
    (h : c → Tracks len raw p) (h' : ¬ c → Tracks len raw' p') :
    Tracks len (if c then raw else raw') (if c then p else p') := by
  by_cases hc : c
  · rw [if_pos hc, if_pos hc]
    exact h hc
  · rw [if_neg hc, if_neg hc]
    exact h' hc

/-- A step that only could have panicked. -/
theorem Tracks.after {raw : Counted ε α} {p : Reader ε α} {step : Except (Stop ε) Unit}
    (hstep : step = .ok ()) (h : Tracks len raw p) :
    Tracks len ((step : Counted ε Unit) >>= fun _ => raw) p := by
  rw [hstep]
  exact h

/-- A check of what was read that always passes. -/
theorem Tracks.ensure {raw : Counted ε α} {p : Reader ε α} {c : α → Prop} [DecidablePred c]
    {stop : Stop ε} (h : Tracks len raw p) (hc : ∀ {rest a rest'}, p rest = .ok (a, rest') → c a) :
    Tracks len (raw >>= fun a => if c a then Pure.pure a else MonadExcept.throw stop) p where
  shrinks := h.shrinks
  reads {rest a rest'} hlen hok := by
    change (raw (.within len rest) >>= fun r =>
      (if c r.1 then Pure.pure r.1 else MonadExcept.throw stop : Counted ε α) r.2) = _
    rw [h.reads hlen hok]
    change (if c a then Pure.pure a else MonadExcept.throw stop : Counted ε α)
      (.within len rest') = _
    rw [if_pos (hc hok)]
    rfl
  fails {rest e} hlen herror := by
    change (raw (.within len rest) >>= fun r =>
      (if c r.1 then Pure.pure r.1 else MonadExcept.throw stop : Counted ε α) r.2) = _
    rw [h.fails hlen herror]
    rfl

/-- The count says how much is left. -/
theorem Tracks.look {rawNext : Nat → Counted ε α} {next : Nat → Reader ε α}
    (h : ∀ left, left ≤ len → Tracks len (rawNext (len - left)) (next left)) :
    Tracks len (get >>= fun c => rawNext c.pos) (get >>= fun rest => next rest.length) where
  shrinks {rest _ _} hlen hok := (h rest.length hlen).shrinks hlen hok
  reads {rest _ _} hlen hok := (h rest.length hlen).reads hlen hok
  fails {rest _} hlen herror := (h rest.length hlen).fails hlen herror

/-- `n` values after each other. -/
def times (raw : Counted ε α) : Nat → Counted ε (List α)
  | 0 => pure []
  | n + 1 => do
      let a ← raw
      let rest ← times raw n
      pure (a :: rest)

theorem Tracks.times {raw : Counted ε α} {p : Reader ε α} (h : Tracks len raw p) (n : Nat) :
    Tracks len (Tracked.times raw n) (Codec.times p n) := by
  induction n with
  | zero => exact Tracks.pure []
  | succ n ih => exact h.bind fun a => ih.bind fun rest => Tracks.pure (a :: rest)

end Tracked
