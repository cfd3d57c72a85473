import Mathlib

/-!
# Programs that talk to an environment

A program here is a tree: it ends with a value, reads the clock, or makes a call
and goes on with the answer.  The environment answers as it likes, and its answer
may depend on everything that was said before, so a statement about every
environment covers every server, honest or not, and every timing.

A program over one interface can be run over a handler that implements each of
its calls as a program over a lower interface.  The run then records one span for
each call: the call, its answer, and the exchanges on the lower interface that
produced it.
-/

namespace Interaction

/-- The calls of an interface: what each is answered with, and how long it takes
at the least. -/
structure Signature where
  Call : Type
  Answer : Call → Type
  cost : Call → Nat

inductive Proc (I : Signature) (α : Type) where
  | done (a : α)
  | now (k : Nat → Proc I α)
  | call (c : I.Call) (k : I.Answer c → Proc I α)

/-- A call together with its answer and the time it took. -/
structure Exchange (I : Signature) where
  call : I.Call
  answer : I.Answer call
  took : Nat

abbrev History (I : Signature) := List (Exchange I)

/-- The time on the clock after a history. -/
def clock {I : Signature} (h : History I) : Nat := (h.map Exchange.took).sum

/-- How the other side behaves: what it answers to a call made after a history,
and how much longer than necessary that takes. -/
structure Env (I : Signature) where
  answer : History I → (c : I.Call) → I.Answer c
  delay : History I → I.Call → Nat

def Env.exchange {I : Signature} (env : Env I) (h : History I) (c : I.Call) : Exchange I :=
  ⟨c, env.answer h c, I.cost c + env.delay h c⟩

@[simp] theorem clock_append {I : Signature} (h h' : History I) :
    clock (h ++ h') = clock h + clock h' := by
  simp [clock]

@[simp] theorem clock_singleton {I : Signature} (x : Exchange I) : clock [x] = x.took := by
  simp [clock]

namespace Proc

variable {I J : Signature} {α β : Type}

/-- The value a program ends with when it starts after the history `h`, and the
exchanges it adds to it. -/
def run (env : Env I) : Proc I α → History I → α × History I
  | done a, _ => (a, [])
  | now k, h => (k (clock h)).run env h
  | call c k, h =>
      let x := env.exchange h c
      let rest := (k x.answer).run env (h ++ [x])
      (rest.1, x :: rest.2)

def bind : Proc I α → (α → Proc I β) → Proc I β
  | done a, f => f a
  | now k, f => now fun t => (k t).bind f
  | call c k, f => call c fun a => (k a).bind f

theorem run_bind (env : Env I) (p : Proc I α) (f : α → Proc I β) (h : History I) :
    (p.bind f).run env h =
      (((f (p.run env h).1).run env (h ++ (p.run env h).2)).1,
        (p.run env h).2 ++ ((f (p.run env h).1).run env (h ++ (p.run env h).2)).2) := by
  induction p generalizing h with
  | done a => simp [bind, run]
  | now k ih => exact ih (clock h) h
  | call c k ih =>
      have hrest := ih (env.exchange h c).answer (h ++ [env.exchange h c])
      simp only [bind, run, hrest, List.append_assoc, List.cons_append, List.nil_append]

/-! ## What holds in every environment -/

/-- Whatever the answers and however long they take, the program ends with a
value and a history that satisfy `post`. -/
def Ensures (post : α → History I → Prop) : Proc I α → History I → Prop
  | done a, h => post a h
  | now k, h => (k (clock h)).Ensures post h
  | call c k, h => ∀ answer took, I.cost c ≤ took →
      (k answer).Ensures post (h ++ [⟨c, answer, took⟩])

theorem Ensures.mono {post post' : α → History I → Prop} {p : Proc I α} {h : History I}
    (hp : p.Ensures post h) (himp : ∀ a h', post a h' → post' a h') : p.Ensures post' h := by
  induction p generalizing h with
  | done a => exact himp a h hp
  | now k ih => exact ih (clock h) hp
  | call c k ih => exact fun answer took hcost => ih answer (hp answer took hcost)

theorem ensures_bind {post : β → History I → Prop} {p : Proc I α} {f : α → Proc I β}
    {h : History I} :
    (p.bind f).Ensures post h ↔ p.Ensures (fun a h' => (f a).Ensures post h') h := by
  induction p generalizing h with
  | done a => exact Iff.rfl
  | now k ih => exact ih (clock h)
  | call c k ih => exact forall_congr' fun answer => forall₂_congr fun took _ => ih answer

/-- A run is one of the runs that `Ensures` speaks about. -/
theorem Ensures.run {post : α → History I → Prop} {p : Proc I α} {h : History I}
    (hp : p.Ensures post h) (env : Env I) : post (p.run env h).1 (h ++ (p.run env h).2) := by
  induction p generalizing h with
  | done a => simpa [Proc.run, Ensures] using hp
  | now k ih => exact ih (clock h) hp
  | call c k ih =>
      have hrest := ih (env.answer h c)
        (hp (env.answer h c) (I.cost c + env.delay h c) (Nat.le_add_right _ _))
      simpa [Proc.run, Env.exchange] using hrest

end Proc

/-! ## Running over a handler -/

/-- A call of the upper interface and the exchanges on the lower one that
answered it. -/
structure Span (I J : Signature) where
  call : I.Call
  answer : I.Answer call
  wire : History J

/-- A span as its caller sees it. -/
def Span.exchange {I J : Signature} (s : Span I J) : Exchange I := ⟨s.call, s.answer, clock s.wire⟩

/-- An implementation of each call of `I` as a program over `J`. -/
abbrev Handler (I J : Signature) := (c : I.Call) → Proc J (I.Answer c)

namespace Proc

variable {I J : Signature} {α : Type}

def runOver (handler : Handler I J) (env : Env J) : Proc I α → History J → α × List (Span I J)
  | done a, _ => (a, [])
  | now k, h => (k (clock h)).runOver handler env h
  | call c k, h =>
      let answered := (handler c).run env h
      let rest := (k answered.1).runOver handler env (h ++ answered.2)
      (rest.1, ⟨c, answered.1, answered.2⟩ :: rest.2)

/-- What the upper program guarantees against every environment, it guarantees
over every handler that keeps to the costs of the interface. -/
theorem Ensures.runOver {post : α → History I → Prop} {p : Proc I α}
    (handler : Handler I J) (hcost : ∀ c, I.cost c = 0) (env : Env J) {h : History J}
    {f : History I} (hclock : clock f = clock h) (hp : p.Ensures post f) :
    post (p.runOver handler env h).1
      (f ++ (p.runOver handler env h).2.map Span.exchange) := by
  induction p generalizing h f with
  | done a => simpa [Proc.runOver, Ensures] using hp
  | now k ih =>
      rw [Ensures, hclock] at hp
      exact ih (clock h) hclock hp
  | call c k ih =>
      have hnext := hp ((handler c).run env h).1 (clock ((handler c).run env h).2)
        ((hcost c).symm ▸ Nat.zero_le _)
      have hrest := ih ((handler c).run env h).1 (h := h ++ ((handler c).run env h).2)
        (by simp [hclock]) hnext
      simpa [Proc.runOver, Span.exchange] using hrest

/-- Each span of a run is a run of the handler, started after the exchanges of
the spans before it. -/
theorem mem_runOver {handler : Handler I J} {env : Env J} {p : Proc I α} {h : History J}
    {s : Span I J} (hs : s ∈ (p.runOver handler env h).2) :
    ∃ h', (handler s.call).run env h' = (s.answer, s.wire) := by
  induction p generalizing h with
  | done a => cases hs
  | now k ih => exact ih (clock h) hs
  | call c k ih =>
      rcases List.mem_cons.mp hs with rfl | hlater
      · exact ⟨h, rfl⟩
      · exact ih _ hlater

/-- The program with the handler built in. -/
def interp (handler : Handler I J) : Proc I α → Proc J α
  | done a => done a
  | now k => now fun t => (k t).interp handler
  | call c k => (handler c).bind fun a => (k a).interp handler

/-- Its exchanges are those of the spans, one after the other. -/
theorem run_interp (handler : Handler I J) (env : Env J) (p : Proc I α) (h : History J) :
    (p.interp handler).run env h =
      ((p.runOver handler env h).1, (p.runOver handler env h).2.flatMap Span.wire) := by
  induction p generalizing h with
  | done a => rfl
  | now k ih => exact ih (clock h) h
  | call c k ih =>
      rw [interp, run_bind, ih]
      rfl

end Proc

/-! ## Programs that can fail -/

/-- A program which ends with a value or an error; after an error nothing more is
called. -/
def Fallible (I : Signature) (ε α : Type) := Proc I (Except ε α)

namespace Fallible

variable {I : Signature} {ε α β : Type}

def fail (e : ε) : Fallible I ε α := Proc.done (.error e)

def ofExcept (r : Except ε α) : Fallible I ε α := Proc.done r

def ask (c : I.Call) : Fallible I ε (I.Answer c) := Proc.call c fun a => Proc.done (.ok a)

def now : Fallible I ε Nat := Proc.now fun t => Proc.done (.ok t)

instance : Monad (Fallible I ε) where
  pure a := Proc.done (.ok a)
  bind p f := Proc.bind p fun
    | .ok a => f a
    | .error e => Proc.done (.error e)

/-- `Proc.Ensures` with the two ways to end apart. -/
def Ensures (ok : α → History I → Prop) (err : ε → History I → Prop) (p : Fallible I ε α)
    (h : History I) : Prop :=
  Proc.Ensures (fun r h' => match r with | .ok a => ok a h' | .error e => err e h') p h

variable {ok : α → History I → Prop} {err : ε → History I → Prop} {h : History I}

@[simp] theorem ensures_pure {a : α} :
    Ensures ok err (pure a : Fallible I ε α) h ↔ ok a h := Iff.rfl

@[simp] theorem ensures_fail {e : ε} :
    Ensures ok err (fail e : Fallible I ε α) h ↔ err e h := Iff.rfl

@[simp] theorem ensures_ofExcept {r : Except ε α} :
    Ensures ok err (ofExcept r : Fallible I ε α) h ↔
      (∀ a, r = .ok a → ok a h) ∧ ∀ e, r = .error e → err e h := by
  cases r with
  | ok a => simp [Ensures, ofExcept, Proc.Ensures]
  | error e => simp [Ensures, ofExcept, Proc.Ensures]

@[simp] theorem ensures_ask {c : I.Call} {ok : I.Answer c → History I → Prop} :
    Ensures ok err (ask c : Fallible I ε (I.Answer c)) h ↔
      ∀ answer took, I.cost c ≤ took → ok answer (h ++ [⟨c, answer, took⟩]) := Iff.rfl

@[simp] theorem ensures_now {ok : Nat → History I → Prop} :
    Ensures ok err (now : Fallible I ε Nat) h ↔ ok (clock h) h := Iff.rfl

@[simp] theorem ensures_bind {ok : β → History I → Prop} {p : Fallible I ε α}
    {f : α → Fallible I ε β} :
    Ensures ok err (p >>= f) h ↔ Ensures (fun a h' => Ensures ok err (f a) h') err p h := by
  refine Proc.ensures_bind.trans (iff_of_eq ?_)
  refine congrArg (fun post => Proc.Ensures post p h) ?_
  funext r h'
  cases r with
  | ok a => rfl
  | error e => rfl

@[simp] theorem ensures_ite {c : Prop} [Decidable c] {p q : Fallible I ε α} :
    Ensures ok err (if c then p else q) h ↔
      (c → Ensures ok err p h) ∧ (¬ c → Ensures ok err q h) := by
  by_cases hc : c <;> simp [hc]

theorem Ensures.mono {ok' : α → History I → Prop} {err' : ε → History I → Prop}
    {p : Fallible I ε α} (hp : Ensures ok err p h) (hok : ∀ a h', ok a h' → ok' a h')
    (herr : ∀ e h', err e h' → err' e h') : Ensures ok' err' p h := by
  refine Proc.Ensures.mono hp fun r h' hr => ?_
  cases r with
  | ok a => exact hok a h' hr
  | error e => exact herr e h' hr

end Fallible

end Interaction
