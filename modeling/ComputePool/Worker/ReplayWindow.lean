import ComputePool.Worker.EnvelopeBinding

/-!
# The replay window

`verify_envelope` accepts a sender and nonce a second time only after as many other
validly signed pairs came in between as the window holds, and the same bytes only
within the freshness window.  It does not keep them out for good: whoever signs
4096 more envelopes inside the freshness window can bring back an earlier one.
-/

namespace ComputePool
namespace Worker
namespace Mesh

open RustStd Federated

variable {C : Crates}

/-- The guard of a receiver that was given `deliveries`. -/
def guardAfter (C : Crates) (deliveries : List Delivery) : ReplayGuard :=
  (receiver C).run (ReplayGuard.new REPLAY_WINDOW) deliveries

/-- `verify_envelope` accepts the delivery, as an envelope of the sender `key.1`
with the nonce `key.2`. -/
def VerifiedAs (C : Crates) (guard : ReplayGuard) (delivery : Delivery) (key : NonceKey) : Prop :=
  ∃ env msg, deserialize envelope delivery.2 = .ok env ∧ env.context.nonce = key.2 ∧
    (verifyEnvelope C delivery.1 guard delivery.2).2 = .ok (key.1, msg)

/-- Deliveries to one transport, whose clock does not go back. -/
structure OneReceiver (deliveries : List Delivery) : Prop where
  scope : ∃ topic job, ∀ delivery ∈ deliveries, delivery.1.topic = topic ∧ delivery.1.job = job
  clock : deliveries.Pairwise fun delivery later => delivery.1.now ≤ later.1.now

/-- No sender and nonce is accepted twice. -/
def AcceptedOnce (C : Crates) : Prop :=
  ∀ front first mid again key, OneReceiver (front ++ first :: mid ++ [again]) →
    VerifiedAs C (guardAfter C front) first key →
      ¬ VerifiedAs C (guardAfter C (front ++ first :: mid)) again key

theorem guardAfter_spec (C : Crates) (deliveries : List Delivery) :
    (guardAfter C deliveries).Sound ∧ 0 < (guardAfter C deliveries).cap ∧
      (guardAfter C deliveries).order =
        RecentKeys.feed REPLAY_WINDOW [] (deliveries.filterMap (keyOf C)) := by
  have ⟨hsound, hcap, horder⟩ := receiver_run C deliveries
  have hpos : 0 < (guardAfter C deliveries).cap := by
    rw [guardAfter, hcap]
    decide
  exact ⟨hsound, hpos, horder⟩

/-- What is accepted passed the checks, and the guard did not hold its key. -/
theorem VerifiedAs.spec {front : List Delivery} {delivery : Delivery} {key : NonceKey}
    (h : VerifiedAs C (guardAfter C front) delivery key) :
    ∃ env, Authentic C delivery.1 delivery.2 env ∧ (env.senderAddr, env.context.nonce) = key ∧
      key ∉ RecentKeys.feed REPLAY_WINDOW [] (front.filterMap (keyOf C)) := by
  have ⟨env, msg, hdecoded, hnonce, hverified⟩ := h
  have ⟨hsound, hcap, horder⟩ := guardAfter_spec C front
  have ⟨env', hauth, haddr, hobserved, _⟩ := verifyEnvelope_ok hverified
  have hsame : env' = env := by
    have ⟨_, hunder⟩ := hauth
    exact Except.ok.inj (hunder.decoded.symm.trans hdecoded)
  subst hsame
  have ⟨_, _, _, hfresh⟩ := ReplayGuard.observe_spec hsound hcap key.1 env'.context.nonce
  rw [hfresh, decide_eq_true_eq, horder, hnonce] at hobserved
  exact ⟨env', hauth, Prod.ext haddr hnonce, hobserved⟩

/-- Between two times a sender and nonce is accepted, as many other pairs pass the
checks as the window holds; and the same bytes are accepted again only as long as
they are fresh. -/
theorem accepted_again_after_window (C : Crates) {front mid : List Delivery}
    {first again : Delivery} {key : NonceKey} (hfirst : VerifiedAs C (guardAfter C front) first key)
    (hagain : VerifiedAs C (guardAfter C (front ++ first :: mid)) again key) :
    (∃ others : List NonceKey, others.Nodup ∧ others.length = REPLAY_WINDOW ∧ key ∉ others ∧
      ∀ k ∈ others, ∃ delivery ∈ mid, ∃ env, Authentic C delivery.1 delivery.2 env ∧
        (env.senderAddr, env.context.nonce) = k) ∧
      (first.2 = again.2 → again.1.now.toNat ≤
        first.1.now.toNat + (MAX_ENVELOPE_AGE_MS + MAX_ENVELOPE_FUTURE_SKEW_MS)) := by
  have hwindow : 0 < REPLAY_WINDOW := by decide
  have ⟨env, hauth, hkey, hnew⟩ := hfirst.spec
  have ⟨env', hauth', _, hout⟩ := hagain.spec
  have hpasses : keyOf C first = some key := keyOf_eq_some.mpr ⟨env, hauth, hkey⟩
  have hkeys : (front ++ first :: mid).filterMap (keyOf C) =
      front.filterMap (keyOf C) ++ key :: mid.filterMap (keyOf C) := by
    rw [List.filterMap_append, List.filterMap_cons_some hpasses]
  rw [hkeys] at hout
  have ⟨hlength, hbetween⟩ := RecentKeys.feed_between hwindow hnew hout
  constructor
  · refine ⟨_, RecentKeys.feed_nodup _ _, hlength, hout, fun k hk => ?_⟩
    have ⟨delivery, hdelivery, hrecorded⟩ := List.mem_filterMap.mp (hbetween k hk)
    exact ⟨delivery, hdelivery, keyOf_eq_some.mp hrecorded⟩
  · intro hsame
    have ⟨_, hunder⟩ := hauth
    have ⟨_, hunder'⟩ := hauth'
    have henv : env = env' := by
      have hdecoded := hunder'.decoded
      rw [← hsame, hunder.decoded] at hdecoded
      exact Except.ok.inj hdecoded
    have hsent := hunder.inScope.notFuture
    have hreceived := hunder'.inScope.notStale
    rw [← henv] at hreceived
    omega

/-! ## A window that overflows -/

/-- The receiver at the moment of the flood. -/
def floodScope : Scope := ⟨(topicForJob 3).toString, 3, 5, 1700000000250⟩

def floodEnvelope (i : Nat) : WireEnvelope :=
  (plainTransport (UInt64.ofNat i)).nextEnvelope (.stepAdvance 5 2) 1700000000000

def floodDelivery (i : Nat) : Delivery := (floodScope, putEnvelope (floodEnvelope i))

def floodKey (i : Nat) : NonceKey :=
  ((plainTransport 0).ownAddress, UInt64.ofNat i)

/-- As many honest envelopes as the window holds. -/
def flood : List Delivery := (List.range REPLAY_WINDOW).map fun i => floodDelivery (i + 1)

theorem flood_built (i : Nat) :
    (plainTransport (UInt64.ofNat i)).Built (.stepAdvance 5 2) (floodEnvelope i) :=
  Transport.built_nextEnvelope _ _ _

theorem flood_fits (i : Nat) : (putEnvelope (floodEnvelope i)).length ≤ MAX_ENVELOPE_BYTES :=
  plainTransport_fits _ (by decide)

theorem floodScope_epoch : (5 : UInt32).toNat ≤ (5 : UInt32).toNat + EPOCH_TOLERANCE := by
  decide

theorem floodScope_clock :
    floodScope.now.toNat ≤ (1700000000000 : UInt64).toNat + MAX_ENVELOPE_AGE_MS ∧
      (1700000000000 : UInt64).toNat ≤ floodScope.now.toNat + MAX_ENVELOPE_FUTURE_SKEW_MS := by
  decide

theorem flood_authentic (i : Nat) :
    Authentic plainCrates (floodDelivery i).1 (floodDelivery i).2 (floodEnvelope i) :=
  authentic_of_built plainCrates_correct (flood_built i) (flood_fits i)
    ⟨rfl, rfl, floodScope_epoch, floodScope_epoch, floodScope_clock.1, floodScope_clock.2⟩

theorem keyOf_flood (i : Nat) : keyOf plainCrates (floodDelivery i) = some (floodKey i) :=
  keyOf_eq_some.mpr ⟨floodEnvelope i, flood_authentic i, rfl⟩

theorem keys_flood (n : Nat) :
    ((List.range n).map fun i => floodDelivery (i + 1)).filterMap (keyOf plainCrates) =
      (List.range n).map fun i => floodKey (i + 1) := by
  rw [List.filterMap_map, ← List.filterMap_eq_map]
  apply List.filterMap_congr
  intro i _
  exact keyOf_flood (i + 1)

theorem floodKey_injective {i j : Nat} (hi : i ≤ REPLAY_WINDOW) (hj : j ≤ REPLAY_WINDOW)
    (h : floodKey i = floodKey j) : i = j := by
  have hwindow : REPLAY_WINDOW = 4096 := rfl
  have hnonce : UInt64.ofNat i = UInt64.ofNat j := congrArg Prod.snd h
  have hmod := congrArg UInt64.toNat hnonce
  rwa [UInt64.toNat_ofNat', UInt64.toNat_ofNat', Nat.mod_eq_of_lt (by omega),
    Nat.mod_eq_of_lt (by omega)] at hmod

/-- A receiver that does not hold the nonce accepts the envelope. -/
theorem flood_verified {front : List Delivery} {i : Nat}
    (h : floodKey i ∉ RecentKeys.feed REPLAY_WINDOW [] (front.filterMap (keyOf plainCrates))) :
    VerifiedAs plainCrates (guardAfter plainCrates front) (floodDelivery i) (floodKey i) := by
  have ⟨hsound, hcap, horder⟩ := guardAfter_spec plainCrates front
  rw [← horder] at h
  have hmsg := deserializeMessage_of_built plainCrates_correct (flood_built i) (flood_fits i)
  exact ⟨floodEnvelope i, .stepAdvance 5 2, deserialize_putEnvelope (flood_fits i), rfl,
    verifyEnvelope_of_fresh hsound hcap (flood_authentic i) h hmsg⟩

theorem flood_first :
    VerifiedAs plainCrates (guardAfter plainCrates []) (floodDelivery 0) (floodKey 0) :=
  flood_verified (by simp [RecentKeys.feed])

/-- After the flood the window holds the nonces of the flood only. -/
theorem flood_again :
    VerifiedAs plainCrates (guardAfter plainCrates ([] ++ floodDelivery 0 :: flood))
      (floodDelivery 0) (floodKey 0) := by
  apply flood_verified
  have hkeys : ([] ++ floodDelivery 0 :: flood).filterMap (keyOf plainCrates) =
      floodKey 0 :: (List.range REPLAY_WINDOW).map fun i => floodKey (i + 1) := by
    rw [List.nil_append, List.filterMap_cons_some (keyOf_flood 0), flood, keys_flood]
  have hout : floodKey 0 ∉ (List.range REPLAY_WINDOW).map fun i => floodKey (i + 1) := by
    intro hmem
    have ⟨i, hi, hsame⟩ := List.mem_map.mp hmem
    have := floodKey_injective (List.mem_range.mp hi) (Nat.zero_le _) hsame
    omega
  have hnodup : (floodKey 0 :: (List.range REPLAY_WINDOW).map fun i => floodKey (i + 1)).Nodup := by
    rw [List.nodup_cons]
    refine ⟨hout, List.Nodup.map_on ?_ List.nodup_range⟩
    intro i hi j hj hsame
    have := floodKey_injective (List.mem_range.mp hi) (List.mem_range.mp hj) hsame
    omega
  rw [hkeys]
  apply RecentKeys.not_mem_feed_of_overflow (by decide) hnodup
  rw [List.length_map, List.length_range]

theorem floodDelivery_scope {delivery : Delivery}
    (h : delivery ∈ [] ++ floodDelivery 0 :: flood ++ [floodDelivery 0]) :
    delivery.1 = floodScope := by
  simp only [List.nil_append, List.cons_append, List.mem_cons, List.mem_append, List.not_mem_nil,
    or_false, flood, List.mem_map] at h
  rcases h with rfl | ⟨i, -, rfl⟩ | rfl
  · rfl
  · rfl
  · rfl

/-- One honest worker's envelopes, all within a second, bring its first one back. -/
theorem not_acceptedOnce : ¬ AcceptedOnce plainCrates := by
  intro h
  refine h [] (floodDelivery 0) flood (floodDelivery 0) (floodKey 0) ⟨?_, ?_⟩ flood_first flood_again
  · refine ⟨floodScope.topic, floodScope.job, fun delivery hdelivery => ?_⟩
    have hscope : delivery.1 = floodScope := floodDelivery_scope hdelivery
    rw [hscope]
    exact ⟨rfl, rfl⟩
  · apply List.pairwise_of_forall_mem_list
    intro delivery hdelivery later hlater
    rw [floodDelivery_scope hdelivery, floodDelivery_scope hlater]
    exact UInt64.le_refl _

theorem accepted_again_after_flood :
    ∃ others : List NonceKey, others.Nodup ∧ others.length = REPLAY_WINDOW ∧
      floodKey 0 ∉ others ∧ ∀ k ∈ others, ∃ delivery ∈ flood, ∃ env,
        Authentic plainCrates delivery.1 delivery.2 env ∧
          (env.senderAddr, env.context.nonce) = k :=
  (accepted_again_after_window plainCrates flood_first flood_again).1

end Mesh
end Worker
end ComputePool
