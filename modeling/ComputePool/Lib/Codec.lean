import Mathlib

/-!
# Readers and writers

A reader takes a value from the front of a byte string and leaves the rest.  A
writer and a reader form a codec when every value read is *good* and takes as
many bytes as are written for it, and what is written for a good value is read
back exactly, whatever follows.  Both halves are closed under sequencing, under
repetition and under a change of the value's representation.
-/

namespace Codec

variable {ε α β γ : Type}

/-- Reads from the front of a byte string. -/
abbrev Reader (ε α : Type) := StateT (List UInt8) (Except ε) α

/-- `p` reads exactly `bytes`, and gets `a`. -/
def Reads (p : Reader ε α) (bytes : List UInt8) (a : α) : Prop :=
  ∀ rest, p (bytes ++ rest) = .ok (a, rest)

theorem Reads.pure (a : α) : Reads (pure a : Reader ε α) [] a :=
  fun _ => rfl

theorem Reads.bind {p : Reader ε α} {q : α → Reader ε β} {front back : List UInt8} {a : α} {b : β}
    (hp : Reads p front a) (hq : Reads (q a) back b) : Reads (p >>= q) (front ++ back) b := by
  intro rest
  show (p (front ++ back ++ rest) >>= fun e => q e.1 e.2) = _
  rw [List.append_assoc, hp]
  exact hq rest

theorem Reads.map {p : Reader ε α} {bytes : List UInt8} {a : α} (f : α → β)
    (hp : Reads p bytes a) : Reads (f <$> p) bytes (f a) := by
  intro rest
  show (p (bytes ++ rest) >>= fun e => Except.ok (f e.1, e.2)) = _
  rw [hp]
  rfl

/-- A sequence that succeeds, taken apart. -/
theorem bind_ok {p : Reader ε α} {q : α → Reader ε β} {s s' : List UInt8} {b : β} :
    (p >>= q) s = .ok (b, s') ↔ ∃ a t, p s = .ok (a, t) ∧ q a t = .ok (b, s') := by
  show (p s >>= fun e => q e.1 e.2) = _ ↔ _
  cases p s with
  | error e => simp [Bind.bind, Except.bind]
  | ok e =>
      obtain ⟨a, t⟩ := e
      simp [Bind.bind, Except.bind]

theorem map_ok {p : Reader ε α} {f : α → β} {s s' : List UInt8} {b : β} :
    (f <$> p) s = .ok (b, s') ↔ ∃ a, p s = .ok (a, s') ∧ f a = b := by
  show (p s >>= fun e => Except.ok (f e.1, e.2)) = _ ↔ _
  cases p s with
  | error e => simp [Bind.bind, Except.bind]
  | ok e => simp [Bind.bind, Except.bind, Prod.ext_iff, and_comm]

/-- The reader `p` and the writer `enc` agree on the values satisfying `good`. -/
structure Agrees (p : Reader ε α) (enc : α → List UInt8) (good : α → Prop) : Prop where
  /-- What is read is good, and took the bytes of its encoding. -/
  sound : ∀ {s a s'}, p s = .ok (a, s') → good a ∧ (enc a).length + s'.length = s.length
  /-- What is written for a good value is read back. -/
  complete : ∀ {a}, good a → Reads p (enc a) a

namespace Agrees

variable {p : Reader ε α} {enc : α → List UInt8} {good : α → Prop}

/-- A value kept in another representation. -/
theorem map {f : α → β} {enc' : β → List UInt8} {good' : β → Prop} (hp : Agrees p enc good)
    (henc : ∀ a, enc' (f a) = enc a) (hgood : ∀ a, good a → good' (f a))
    (hback : ∀ b, good' b → ∃ a, good a ∧ f a = b) : Agrees (f <$> p) enc' good' where
  sound := by
    intro s b s' h
    obtain ⟨a, ha, rfl⟩ := map_ok.mp h
    obtain ⟨hgood', hlength⟩ := hp.sound ha
    exact ⟨hgood a hgood', by rw [henc]; exact hlength⟩
  complete := by
    intro b hb
    obtain ⟨a, ha, rfl⟩ := hback b hb
    rw [henc]
    exact (hp.complete ha).map f

end Agrees

/-- `n` values after each other. -/
def times (p : Reader ε α) : Nat → Reader ε (List α)
  | 0 => pure []
  | n + 1 => do
      let a ← p
      let rest ← times p n
      pure (a :: rest)

theorem Reads.times {p : Reader ε α} {enc : α → List UInt8} {items : List α}
    (h : ∀ a ∈ items, Reads p (enc a) a) :
    Reads (times p items.length) (items.flatMap enc) items := by
  induction items with
  | nil => exact Reads.pure []
  | cons a items ih =>
      have hrest := ih fun b hb => h b (List.mem_cons_of_mem _ hb)
      have hlast := hrest.bind (q := fun rest => Pure.pure (a :: rest)) (Reads.pure (a :: items))
      rw [List.append_nil] at hlast
      exact (h a List.mem_cons_self).bind hlast

theorem Agrees.times {p : Reader ε α} {enc : α → List UInt8} {good : α → Prop}
    (hp : Agrees p enc good) (n : Nat) :
    Agrees (times p n) (fun items => items.flatMap enc)
      (fun items => items.length = n ∧ ∀ a ∈ items, good a) where
  sound := by
    induction n with
    | zero =>
        intro s items s' h
        cases h
        exact ⟨⟨rfl, nofun⟩, Nat.zero_add _⟩
    | succ n ih =>
        intro s items s' h
        obtain ⟨a, t, ha, htail⟩ := bind_ok.mp h
        obtain ⟨rest, t', hrest, hlast⟩ := bind_ok.mp htail
        cases hlast
        obtain ⟨hgood, hlength⟩ := hp.sound ha
        obtain ⟨⟨hcount, hall⟩, hlength'⟩ := ih hrest
        refine ⟨⟨by rw [List.length_cons, hcount], ?_⟩, ?_⟩
        · intro b hb
          rcases List.mem_cons.mp hb with rfl | hb
          · exact hgood
          · exact hall b hb
        · rw [List.flatMap_cons, List.length_append]
          omega
  complete := by
    rintro items ⟨rfl, hall⟩
    exact Reads.times fun a ha => hp.complete (hall a ha)

end Codec
