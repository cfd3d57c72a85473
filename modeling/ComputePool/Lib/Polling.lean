import ComputePool.Lib.Interaction

/-!
# Polling against a deadline

The loop of a client that asks until an answer is there or its time is up, and
pauses between two asks, each time longer up to a cap.  The rule says what the
loop leaves behind: an ask ended it, or a pause was the last thing it did.
-/

namespace Interaction

/-- A program only adds to its history. -/
theorem Proc.Ensures.extends {I : Signature} {α : Type} {post : α → History I → Prop}
    {p : Proc I α} {h : History I} (hp : p.Ensures post h) :
    p.Ensures (fun a h' => post a h' ∧ h <+: h') h := by
  induction p generalizing h with
  | done a => exact ⟨hp, List.prefix_rfl⟩
  | now k ih => exact ih (clock h) hp
  | call c k ih =>
      intro answer took hcost
      have hrest := ih answer (hp answer took hcost)
      exact hrest.mono fun a h' ⟨hpost, hext⟩ => ⟨hpost, (List.prefix_append _ _).trans hext⟩

theorem clock_le_of_prefix {I : Signature} {h h' : History I} (hext : h <+: h') :
    clock h ≤ clock h' := by
  obtain ⟨rest, rfl⟩ := hext
  rw [clock_append]
  omega

namespace Fallible

variable {I : Signature} {ε α : Type}

theorem Ensures.extends {ok : α → History I → Prop} {err : ε → History I → Prop}
    {p : Fallible I ε α} {h : History I} (hp : Ensures ok err p h) :
    Ensures (fun a h' => ok a h' ∧ h <+: h') (fun e h' => err e h' ∧ h <+: h') p h := by
  refine Proc.Ensures.mono (Proc.Ensures.extends hp) fun r h' hr => ?_
  cases r with
  | ok a => exact hr
  | error e => exact hr

variable (attempt : Fallible I ε (Option α)) (pause : Nat → Fallible I ε Unit)

/-- `while now < deadline { if let Some(a) = attempt { return a } pause(delay) }`,
where the delay doubles up to `cap`.  Each round pauses, so that more rounds than
there are ticks before the deadline never happen. -/
def poll (deadline cap : Nat) : Nat → Nat → Fallible I ε (Option α)
  | 0, _ => pure none
  | rounds + 1, delay => do
      let instant ← now
      if instant < deadline then
        let found ← attempt
        if found.isSome then pure found
        else
          pause delay
          poll deadline cap rounds (min (delay * 2) cap)
      else pure none

variable {attempt pause}

/-- The rule of the loop.  `Idle` holds as long as nothing was found, and `Paused`
says that a pause came last: a loop that starts before its deadline and finds
nothing always ends with one. -/
theorem poll_ensures {deadline cap : Nat} {Idle Paused : History I → Prop}
    {ok : Option α → History I → Prop} {err : ε → History I → Prop} (hcap : 0 < cap)
    (hattempt : ∀ h, Idle h → Ensures
      (fun found h' => (found = none → Idle h') ∧ ∀ a, found = some a → ok (some a) h') err
      attempt h)
    (hpause : ∀ h delay, Idle h → Ensures
      (fun _ h' => Idle h' ∧ Paused h' ∧ clock h + delay ≤ clock h') err (pause delay) h)
    (hlate : ∀ h, Idle h → Paused h → ok none h) (rounds : Nat) :
    ∀ (delay : Nat) (h : History I), 0 < delay → deadline ≤ clock h + rounds → Idle h →
      (clock h < deadline ∨ Paused h) →
      Ensures ok err (poll attempt pause deadline cap rounds delay) h := by
  induction rounds with
  | zero =>
      intro delay h _ hfuel hidle hstate
      rcases hstate with hearly | hpaused
      · omega
      · exact hlate h hidle hpaused
  | succ rounds ih =>
      intro delay h hdelay hfuel hidle hstate
      rw [poll, ensures_bind, ensures_now, ensures_ite]
      refine ⟨fun _ => ?_, fun hover => ?_⟩
      · rw [ensures_bind]
        apply (hattempt h hidle).extends.mono _ fun e h' hfailed => hfailed.1
        rintro found h' ⟨⟨hnone, hsome⟩, hext⟩
        cases found with
        | some a => exact hsome a rfl
        | none =>
            have hlater := clock_le_of_prefix hext
            rw [Option.isSome_none, if_neg Bool.false_ne_true, ensures_bind]
            -- the pause moves the clock, so that one round less is enough
            apply (hpause h' delay (hnone rfl)).mono _ fun e h'' hfailed => hfailed
            rintro _ h'' ⟨hidle', hpaused, hclock⟩
            apply ih _ h'' (lt_min (by omega) hcap) (by omega) hidle' (.inr hpaused)
      · rcases hstate with hearly | hpaused
        · exact absurd hearly hover
        · exact hlate h hidle hpaused

end Fallible
end Interaction
