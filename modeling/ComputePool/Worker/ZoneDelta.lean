import ComputePool.Federated.Basic
import ComputePool.Federated.Gguf
import ComputePool.Rust.Collect

/-!
# The delta of each zone

`zone_delta.rs`: two checkpoints are differenced tensor by tensor and the result is grouped
by the zone that a tensor's name carries.  Within a zone the tensors follow one another in
the order of their names, so that two workers make the same vector of one checkpoint.
The subtraction of `f32` is a parameter.
-/

namespace ComputePool
namespace Worker
namespace ZoneDelta

open RustStd Federated

/-- The bucket for parameters that are trained but belong to no single zone. -/
def SHARED : String := "__shared__"

def ZONE_PREFIX : String := "zone_"
def SCORE_PREFIX : String := "score_"

/-- `rest.split('.').next()` -/
def untilDot (rest : List Char) : String := String.ofList (rest.takeWhile fun c => c ≠ '.')

/-- Which zone a checkpoint tensor belongs to. -/
def zoneOf (tensorName : String) : String :=
  match stripPrefix ZONE_PREFIX.toList tensorName.toList with
  | some rest => untilDot rest
  | none =>
      match stripPrefix SCORE_PREFIX.toList tensorName.toList with
      | some rest => untilDot rest
      | none => SHARED

/-- `(tensor_name, values)` -/
abbrev NamedTensor := String × List F32

structure ZoneValues where
  zone : String
  values : List F32
  deriving DecidableEq

inductive ZoneError where
  | tensorMissing (name : String)
  | shapeMismatch (tensor : String) (before after : Nat)
  | duplicateTensor
  deriving DecidableEq

section Deltas

variable (sub : F32 → F32 → F32)

/-- `b.iter().zip(a.iter()).map(|(x, y)| x - y)` -/
def difference (a b : List F32) : List F32 := List.zipWith sub b a

/-- The loop's body. -/
def addTensor (post : BTreeMap String (List F32)) (byZone : BTreeMap String (List F32))
    (entry : NamedTensor) : Checked ZoneError (BTreeMap String (List F32)) :=
  match post[entry.1]? with
  | none => .error .panic
  | some b =>
      if entry.2.length ≠ b.length then
        .error (.err (.shapeMismatch entry.1 entry.2.length b.length))
      else .ok (extendAt byZone (zoneOf entry.1) (difference sub entry.2 b))

/-- The first name of one side that the other does not have. -/
def missing (here there : BTreeMap String (List F32)) : Option String :=
  (here.toList.map Prod.fst).find? fun name => !there.contains name

/-- Difference two checkpoints and group the result by zone. -/
def zoneDeltas (before after : List NamedTensor) : Checked ZoneError (List ZoneValues) :=
  let pre := collectMap before
  let post := collectMap after
  if pre.size ≠ before.length ∨ post.size ≠ after.length then .error (.err .duplicateTensor)
  else
    match missing pre post with
    | some name => .error (.err (.tensorMissing name))
    | none =>
        match missing post pre with
        | some name => .error (.err (.tensorMissing name))
        | none => do
            let byZone ← pre.toList.foldlM (addTensor sub post) ∅
            .ok (byZone.toList.map fun e => ⟨e.1, e.2⟩)

end Deltas

/-! ## What the two sides have in common -/

/-- The names of a checkpoint. -/
def names (tensors : List NamedTensor) : List String := tensors.map Prod.fst

/-- The two sides as one list of tensors in the order of their names. -/
structure Matched (before after : List NamedTensor)
    (tensors : List (String × List F32 × List F32)) : Prop where
  ascending : tensors.Pairwise fun s t => s.1 < t.1
  before : before.Perm (tensors.map fun t => (t.1, t.2.1))
  after : after.Perm (tensors.map fun t => (t.1, t.2.2))
  lengths : ∀ t ∈ tensors, t.2.1.length = t.2.2.length

/-- Each zone has the differences of its tensors, in the order of their names. -/
structure Grouped (sub : F32 → F32 → F32) (tensors : List (String × List F32 × List F32))
    (out : List ZoneValues) : Prop where
  ascending : out.Pairwise fun x y => x.zone < y.zone
  zones : ∀ zone, zone ∈ out.map ZoneValues.zone ↔ ∃ t ∈ tensors, zoneOf t.1 = zone
  values : ∀ z ∈ out, z.values =
    (tensors.filter fun t => decide (zoneOf t.1 = z.zone)).flatMap
      fun t => difference sub t.2.1 t.2.2

/-- No name is there twice, and both sides have the same names. -/
structure SameNames (before after : List NamedTensor) : Prop where
  nodup : (names before).Nodup
  nodupAfter : (names after).Nodup
  same : ∀ name, name ∈ names before ↔ name ∈ names after

/-- The least name of one side that the other does not have. -/
def LeastMissing (here there : List NamedTensor) (name : String) : Prop :=
  name ∈ names here ∧ name ∉ names there ∧
    ∀ other ∈ names here, other ∉ names there → name ≤ other

/-- What is wrong with a pair of checkpoints. -/
def Fault (before after : List NamedTensor) : ZoneError → Prop
  | .duplicateTensor => ¬ (names before).Nodup ∨ ¬ (names after).Nodup
  | .tensorMissing name =>
      (names before).Nodup ∧ (names after).Nodup ∧
        (LeastMissing before after name ∨
          (∀ other ∈ names before, other ∈ names after) ∧ LeastMissing after before name)
  | .shapeMismatch tensor m n =>
      SameNames before after ∧
        ∃ a b, (tensor, a) ∈ before ∧ (tensor, b) ∈ after ∧ a.length = m ∧ b.length = n ∧ m ≠ n ∧
          ∀ other a' b', (other, a') ∈ before → (other, b') ∈ after → other < tensor →
            a'.length = b'.length

section Sides

variable {sub : F32 → F32 → F32} {before after : List NamedTensor}
  {tensors : List (String × List F32 × List F32)}

theorem missing_eq_some {name : String} :
    missing (collectMap before) (collectMap after) = some name ↔ LeastMissing before after name := by
  have hascending := List.pairwise_map.mpr (entries_ascending (collectMap before))
  rw [missing, find_ascending (f := id) hascending]
  simp only [mem_keys_collectMap, Bool.not_eq_true', ← Bool.not_eq_true, contains_collectMap,
    LeastMissing, names, id_eq]

theorem missing_eq_none :
    missing (collectMap before) (collectMap after) = none ↔
      ∀ name ∈ names before, name ∈ names after := by
  rw [missing, List.find?_eq_none]
  simp only [mem_keys_collectMap, Bool.not_eq_true', ← Bool.not_eq_true, contains_collectMap, names,
    not_not]

/-- The tensors of both sides, side by side. -/
def paired (before after : List NamedTensor) : List (String × List F32 × List F32) :=
  (collectMap before).toList.map fun e => (e.1, e.2, (collectMap after)[e.1]?.getD [])

theorem paired_ascending (before after : List NamedTensor) :
    (paired before after).Pairwise fun s t => s.1 < t.1 :=
  List.pairwise_map.mpr (entries_ascending _)

/-- A tensor that is on the side before is on the side after. -/
theorem SameNames.partner (h : SameNames before after) {name : String} {a : List F32}
    (ha : (name, a) ∈ before) : ∃ b, (name, b) ∈ after ∧ (collectMap after)[name]? = some b := by
  have hname : name ∈ names after := (h.same name).mp (List.mem_map_of_mem ha)
  obtain ⟨⟨name', b⟩, hb, rfl⟩ := List.mem_map.mp hname
  exact ⟨b, hb, (get_collectMap h.nodupAfter).mpr hb⟩

theorem SameNames.mem_paired (h : SameNames before after) {t : String × List F32 × List F32} :
    t ∈ paired before after ↔ (t.1, t.2.1) ∈ before ∧ (t.1, t.2.2) ∈ after := by
  obtain ⟨name, a, b⟩ := t
  have hentry : ∀ e : NamedTensor, e ∈ (collectMap before).toList ↔ e ∈ before := fun e =>
    (collectMap_perm h.nodup).mem_iff
  constructor
  · intro ht
    obtain ⟨⟨name', a'⟩, he, hsame⟩ := List.mem_map.mp ht
    obtain ⟨b', hb', hget⟩ := h.partner ((hentry _).mp he)
    dsimp only at hsame
    rw [hget] at hsame
    cases hsame
    exact ⟨(hentry _).mp he, hb'⟩
  · rintro ⟨ha, hb⟩
    refine List.mem_map.mpr ⟨(name, a), (hentry _).mpr ha, ?_⟩
    dsimp only
    rw [(get_collectMap h.nodupAfter).mpr hb]
    rfl

theorem Matched.mem (h : Matched before after tensors) {name : String} {a : List F32}
    (ha : (name, a) ∈ before) : ∃ b, (name, a, b) ∈ tensors := by
  obtain ⟨⟨name', a', b⟩, ht, hsame⟩ := List.mem_map.mp (h.before.mem_iff.mp ha)
  cases hsame
  exact ⟨b, ht⟩

theorem Matched.sameNames (h : Matched before after tensors) : SameNames before after := by
  have hnodup : (tensors.map Prod.fst).Nodup := by
    rw [List.Nodup, List.pairwise_map]
    exact h.ascending.imp fun hlt => hlt.ne
  have hbefore : (names before).Perm (tensors.map Prod.fst) := by
    have hperm := h.before.map Prod.fst
    rwa [List.map_map] at hperm
  have hafter : (names after).Perm (tensors.map Prod.fst) := by
    have hperm := h.after.map Prod.fst
    rwa [List.map_map] at hperm
  exact ⟨hbefore.nodup_iff.mpr hnodup, hafter.nodup_iff.mpr hnodup, fun name =>
    hbefore.mem_iff.trans hafter.mem_iff.symm⟩

/-- No tensor has changed its length. -/
def SameLengths (before after : List NamedTensor) : Prop :=
  ∀ name a b, (name, a) ∈ before → (name, b) ∈ after → a.length = b.length

theorem matched_paired (h : SameNames before after) (hlengths : SameLengths before after) :
    Matched before after (paired before after) := by
  have hnodup : ∀ {α : Type} (f : String × List F32 × List F32 → String × α),
      (∀ t, (f t).1 = t.1) → ((paired before after).map f).Nodup := by
    intro α f hf
    rw [List.Nodup, List.pairwise_map]
    refine (paired_ascending before after).imp fun {s t} hlt hsame => ?_
    have hname := congrArg Prod.fst hsame
    rw [hf, hf] at hname
    exact hlt.ne hname
  refine ⟨paired_ascending before after, ?_, ?_, fun t ht => ?_⟩
  · refine (List.perm_ext_iff_of_nodup h.nodup.of_map (hnodup _ fun _ => rfl)).mpr fun e => ?_
    constructor
    · intro he
      obtain ⟨b, hb, -⟩ := h.partner he
      exact List.mem_map.mpr ⟨(e.1, e.2, b), h.mem_paired.mpr ⟨he, hb⟩, rfl⟩
    · intro he
      obtain ⟨t, ht, rfl⟩ := List.mem_map.mp he
      exact (h.mem_paired.mp ht).1
  · refine (List.perm_ext_iff_of_nodup h.nodupAfter.of_map (hnodup _ fun _ => rfl)).mpr fun e => ?_
    constructor
    · intro he
      have hname : e.1 ∈ names before := (h.same e.1).mpr (List.mem_map_of_mem he)
      obtain ⟨⟨name, a⟩, ha, hsame⟩ := List.mem_map.mp hname
      dsimp only at hsame
      subst hsame
      exact List.mem_map.mpr ⟨(e.1, a, e.2), h.mem_paired.mpr ⟨ha, he⟩, rfl⟩
    · intro he
      obtain ⟨t, ht, rfl⟩ := List.mem_map.mp he
      exact (h.mem_paired.mp ht).2
  · have ⟨ha, hb⟩ := h.mem_paired.mp ht
    exact hlengths t.1 t.2.1 t.2.2 ha hb

theorem Matched.eq_paired (h : Matched before after tensors) : tensors = paired before after := by
  have hnames := h.sameNames
  refine eq_of_ascending h.ascending (paired_ascending before after) fun t => ?_
  rw [hnames.mem_paired]
  constructor
  · intro ht
    exact ⟨h.before.mem_iff.mpr (List.mem_map_of_mem ht), h.after.mem_iff.mpr (List.mem_map_of_mem ht)⟩
  · rintro ⟨ha, hb⟩
    obtain ⟨b, ht⟩ := h.mem ha
    have hb' : (t.1, b) ∈ after := h.after.mem_iff.mpr (List.mem_map_of_mem ht)
    have hget := (get_collectMap hnames.nodupAfter).mpr hb
    rw [(get_collectMap hnames.nodupAfter).mpr hb'] at hget
    obtain rfl := Option.some.inj hget
    exact ht

/-! ## The loop -/

/-- A tensor of the two sides has not the length it had. -/
def changed (t : String × List F32 × List F32) : Bool := decide (t.2.1.length ≠ t.2.2.length)

/-- The loop stops at the first tensor whose length changed, and else extends every zone. -/
theorem foldlM_addTensor (post : BTreeMap String (List F32)) (entries : List NamedTensor)
    (byZone : BTreeMap String (List F32)) (hpost : ∀ e ∈ entries, ∃ b, post[e.1]? = some b) :
    entries.foldlM (addTensor sub post) byZone =
      match (entries.map fun e => (e.1, e.2, post[e.1]?.getD [])).find? changed with
      | some t => .error (.err (.shapeMismatch t.1 t.2.1.length t.2.2.length))
      | none => .ok ((entries.map fun e => (e.1, e.2, post[e.1]?.getD [])).foldl
          (fun m t => extendAt m (zoneOf t.1) (difference sub t.2.1 t.2.2)) byZone) := by
  induction entries generalizing byZone with
  | nil => rfl
  | cons e rest ih =>
      obtain ⟨b, hb⟩ := hpost e List.mem_cons_self
      rw [List.foldlM_cons, List.map_cons, List.find?_cons, List.foldl_cons, addTensor, hb]
      by_cases hlength : e.2.length = b.length
      · have hkept : changed (e.1, e.2, b) = false := by simp [changed, hlength]
        simp only [Option.getD_some, hkept]
        rw [if_neg (not_not.mpr hlength)]
        exact ih _ fun e' he' => hpost e' (List.mem_cons_of_mem _ he')
      · have hchanged : changed (e.1, e.2, b) = true := by simp [changed, hlength]
        simp only [Option.getD_some, hchanged]
        rw [if_pos hlength]
        rfl

/-- What is returned for two sides with the same names. -/
theorem SameNames.zoneDeltas (h : SameNames before after) :
    zoneDeltas sub before after =
      match (paired before after).find? changed with
      | some t => .error (.err (.shapeMismatch t.1 t.2.1.length t.2.2.length))
      | none => .ok ((groupAll (fun t => zoneOf t.1) (fun t => difference sub t.2.1 t.2.2)
          (paired before after)).toList.map fun e => ⟨e.1, e.2⟩) := by
  have hfew : ¬ ((collectMap before).size ≠ before.length ∨
      (collectMap after).size ≠ after.length) := by
    rw [not_or, not_not, not_not]
    exact ⟨size_collectMap.mpr h.nodup, size_collectMap.mpr h.nodupAfter⟩
  have hpost : ∀ e ∈ (collectMap before).toList, ∃ b, (collectMap after)[e.1]? = some b := by
    intro e he
    obtain ⟨b, -, hget⟩ := h.partner ((collectMap_perm h.nodup).mem_iff.mp he)
    exact ⟨b, hget⟩
  unfold ZoneDelta.zoneDeltas
  dsimp only
  rw [if_neg hfew, missing_eq_none.mpr fun name hname => (h.same name).mp hname]
  dsimp only
  rw [missing_eq_none.mpr fun name hname => (h.same name).mpr hname]
  dsimp only
  rw [foldlM_addTensor _ _ _ hpost, paired]
  cases List.find? changed _ with
  | none => rfl
  | some t => rfl

/-! ## The zones -/

/-- The grouped differences are what the zones are said to have. -/
theorem grouped_groupAll (sub : F32 → F32 → F32)
    (tensors : List (String × List F32 × List F32)) :
    Grouped sub tensors ((groupAll (fun t => zoneOf t.1) (fun t => difference sub t.2.1 t.2.2)
      tensors).toList.map fun e => ⟨e.1, e.2⟩) := by
  refine ⟨List.pairwise_map.mpr (entries_ascending _), fun zone => ?_, fun z hz => ?_⟩
  · rw [List.map_map]
    have hkeys := mem_entry_keys (m := groupAll (fun t : String × List F32 × List F32 => zoneOf t.1)
      (fun t => difference sub t.2.1 t.2.2) tensors) (k := zone)
    rw [get_groupAll] at hkeys
    refine hkeys.trans ?_
    by_cases hmem : zone ∈ tensors.map fun t => zoneOf t.1
    · rw [if_pos hmem]
      exact ⟨fun _ => List.mem_map.mp hmem, fun _ => ⟨_, rfl⟩⟩
    · rw [if_neg hmem]
      exact ⟨nofun, fun ht => absurd (List.mem_map.mpr ht) hmem⟩
  · obtain ⟨e, he, rfl⟩ := List.mem_map.mp hz
    have hget := mem_entries.mp he
    rw [get_groupAll] at hget
    split at hget
    · exact (Option.some.inj hget).symm
    · cases hget

/-- There is one way to group. -/
theorem Grouped.unique {out out' : List ZoneValues} (h : Grouped sub tensors out)
    (h' : Grouped sub tensors out') : out = out' := by
  have hmem : ∀ {xs ys : List ZoneValues}, Grouped sub tensors xs → Grouped sub tensors ys →
      ∀ z ∈ xs, z ∈ ys := by
    intro xs ys hxs hys z hz
    have hzone := (hys.zones z.zone).mpr ((hxs.zones z.zone).mp (List.mem_map_of_mem hz))
    obtain ⟨w, hw, hsame⟩ := List.mem_map.mp hzone
    -- two zones of one name have the same values, so they are one
    have hvalues : w.values = z.values := by
      rw [hys.values w hw, hxs.values z hz, hsame]
    obtain ⟨zone, values⟩ := w
    obtain ⟨zone', values'⟩ := z
    dsimp only at hsame hvalues
    subst hsame hvalues
    exact hw
  exact eq_of_ascending h.ascending h'.ascending fun z => ⟨hmem h h' z, hmem h' h z⟩

/-! ## Results and errors -/

/-- Checkpoints that match give the differences of each zone. -/
theorem Matched.zoneDeltas (sub : F32 → F32 → F32) (h : Matched before after tensors) :
    ∃ out, zoneDeltas sub before after = .ok out ∧ Grouped sub tensors out := by
  have hsame : ∀ t ∈ paired before after, ¬ changed t = true := by
    intro t ht
    rw [← h.eq_paired] at ht
    simpa [changed] using h.lengths t ht
  rw [h.sameNames.zoneDeltas, List.find?_eq_none.mpr hsame, ← h.eq_paired]
  exact ⟨_, rfl, grouped_groupAll sub tensors⟩

theorem find_changed (h : SameNames before after) {t : String × List F32 × List F32} :
    (paired before after).find? changed = some t ↔
      (t.1, t.2.1) ∈ before ∧ (t.1, t.2.2) ∈ after ∧ t.2.1.length ≠ t.2.2.length ∧
        ∀ other a' b', (other, a') ∈ before → (other, b') ∈ after → other < t.1 →
          a'.length = b'.length := by
  rw [find_ascending (paired_ascending before after), h.mem_paired, and_assoc]
  refine and_congr_right fun _ => and_congr_right fun _ => and_congr ?_ ?_
  · simp [changed]
  · constructor
    · intro hleast other a' b' ha hb hless
      by_contra hne
      have hle := hleast (other, a', b') (h.mem_paired.mpr ⟨ha, hb⟩) (by simp [changed, hne])
      exact absurd hless (not_lt.mpr hle)
    · intro hbelow t' ht' hchanged
      have ⟨ha, hb⟩ := h.mem_paired.mp ht'
      by_contra hless
      have hlength := hbelow t'.1 t'.2.1 t'.2.2 ha hb (not_le.mp hless)
      simp [changed, hlength] at hchanged

/-- A fault is what the caller is told. -/
theorem Fault.zoneDeltas {e : ZoneError} (h : Fault before after e) :
    zoneDeltas sub before after = .error (.err e) := by
  have hcounted : (names before).Nodup → (names after).Nodup →
      ¬ ((collectMap before).size ≠ before.length ∨ (collectMap after).size ≠ after.length) := by
    intro hbefore hafter
    rw [not_or, not_not, not_not]
    exact ⟨size_collectMap.mpr hbefore, size_collectMap.mpr hafter⟩
  cases e with
  | duplicateTensor =>
      refine if_pos (h.imp ?_ ?_) <;> exact mt size_collectMap.mp
  | tensorMissing name =>
      obtain ⟨hbefore, hafter, hleast⟩ := h
      refine (if_neg (hcounted hbefore hafter)).trans ?_
      rcases hleast with hleast | ⟨hall, hleast⟩
      · rw [missing_eq_some.mpr hleast]
      · rw [missing_eq_none.mpr hall, missing_eq_some.mpr hleast]
  | shapeMismatch tensor m n =>
      obtain ⟨hnames, a, b, ha, hb, rfl, rfl, hne, hbelow⟩ := h
      rw [hnames.zoneDeltas, (find_changed hnames (t := (tensor, a, b))).mpr ⟨ha, hb, hne, hbelow⟩]

theorem exists_leastMissing {here there : List NamedTensor}
    (h : ¬ ∀ name ∈ names here, name ∈ names there) : ∃ name, LeastMissing here there name := by
  rw [← missing_eq_none] at h
  obtain ⟨name, hname⟩ := Option.ne_none_iff_exists'.mp h
  exact ⟨name, missing_eq_some.mp hname⟩

/-- Two checkpoints match, or there is a fault. -/
theorem matched_or_fault (before after : List NamedTensor) :
    (∃ tensors, Matched before after tensors) ∨ ∃ e, Fault before after e := by
  by_cases hnodup : (names before).Nodup ∧ (names after).Nodup
  · obtain ⟨hbefore, hafter⟩ := hnodup
    by_cases hall : ∀ name ∈ names before, name ∈ names after
    · by_cases hback : ∀ name ∈ names after, name ∈ names before
      · have hnames : SameNames before after :=
          ⟨hbefore, hafter, fun name => ⟨hall name, hback name⟩⟩
        -- the first tensor of another length is the fault, without one the sides match
        cases hfind : (paired before after).find? changed with
        | some t =>
            have ⟨ha, hb, hne, hbelow⟩ := (find_changed hnames).mp hfind
            exact .inr ⟨.shapeMismatch t.1 t.2.1.length t.2.2.length, hnames, t.2.1, t.2.2, ha, hb,
              rfl, rfl, hne, hbelow⟩
        | none =>
            refine .inl ⟨_, matched_paired hnames fun name a b ha hb => ?_⟩
            have hkept := List.find?_eq_none.mp hfind (name, a, b) (hnames.mem_paired.mpr ⟨ha, hb⟩)
            simpa [changed] using hkept
      · obtain ⟨name, hleast⟩ := exists_leastMissing hback
        exact .inr ⟨.tensorMissing name, hbefore, hafter, .inr ⟨hall, hleast⟩⟩
    · obtain ⟨name, hleast⟩ := exists_leastMissing hall
      exact .inr ⟨.tensorMissing name, hbefore, hafter, .inl hleast⟩
  · exact .inr ⟨.duplicateTensor, not_and_or.mp hnodup⟩

/-! ## The order of a checkpoint -/

theorem Matched.perm {before' after' : List NamedTensor} (h : Matched before after tensors)
    (hbefore : before.Perm before') (hafter : after.Perm after') : Matched before' after' tensors :=
  ⟨h.ascending, hbefore.symm.trans h.before, hafter.symm.trans h.after, h.lengths⟩

theorem Fault.perm {before' after' : List NamedTensor} {e : ZoneError} (h : Fault before after e)
    (hbefore : before.Perm before') (hafter : after.Perm after') : Fault before' after' e := by
  have hnames : (names before).Perm (names before') := hbefore.map Prod.fst
  have hnames' : (names after).Perm (names after') := hafter.map Prod.fst
  cases e with
  | duplicateTensor =>
      exact h.imp (mt hnames.nodup_iff.mpr) (mt hnames'.nodup_iff.mpr)
  | tensorMissing name =>
      simpa only [Fault, LeastMissing, hnames.nodup_iff, hnames'.nodup_iff, hnames.mem_iff,
        hnames'.mem_iff] using h
  | shapeMismatch tensor m n =>
      obtain ⟨⟨hnodup, hnodup', hsame⟩, hrest⟩ := h
      refine ⟨⟨hnames.nodup_iff.mp hnodup, hnames'.nodup_iff.mp hnodup', fun name => ?_⟩, ?_⟩
      · rw [← hnames.mem_iff, ← hnames'.mem_iff]
        exact hsame name
      · simpa only [hbefore.mem_iff, hafter.mem_iff] using hrest

end Sides

/-- Two checkpoints are differenced exactly when they hold the same tensors, with the same
lengths; each zone then has the differences of its tensors in the order of their names.  Every
other pair gets the first thing that is wrong with it, and the order in which a checkpoint
lists its tensors decides nothing. -/
theorem zone_deltas_exact (sub : F32 → F32 → F32) (before after : List NamedTensor) :
    (∀ out, zoneDeltas sub before after = .ok out ↔
      ∃ tensors, Matched before after tensors ∧ Grouped sub tensors out) ∧
    (∀ e, zoneDeltas sub before after = .error (.err e) ↔ Fault before after e) ∧
    zoneDeltas sub before after ≠ .error .panic ∧
    ∀ before' after', before.Perm before' → after.Perm after' →
      zoneDeltas sub before' after' = zoneDeltas sub before after := by
  refine ⟨fun out => ⟨fun hout => ?_, ?_⟩, fun e => ⟨fun he => ?_, Fault.zoneDeltas⟩, ?_, ?_⟩
  · rcases matched_or_fault before after with ⟨tensors, hmatched⟩ | ⟨e, hfault⟩
    · obtain ⟨out', hout', hgrouped⟩ := hmatched.zoneDeltas sub
      rw [hout'] at hout
      cases hout
      exact ⟨tensors, hmatched, hgrouped⟩
    · rw [hfault.zoneDeltas] at hout
      cases hout
  · rintro ⟨tensors, hmatched, hgrouped⟩
    obtain ⟨out', hout', hgrouped'⟩ := hmatched.zoneDeltas sub
    rw [hout', hgrouped'.unique hgrouped]
  · rcases matched_or_fault before after with ⟨tensors, hmatched⟩ | ⟨e', hfault⟩
    · obtain ⟨out', hout', -⟩ := hmatched.zoneDeltas sub
      rw [hout'] at he
      cases he
    · rw [hfault.zoneDeltas] at he
      cases he
      exact hfault
  · rcases matched_or_fault before after with ⟨tensors, hmatched⟩ | ⟨e', hfault⟩
    · obtain ⟨out', hout', -⟩ := hmatched.zoneDeltas sub
      rw [hout']
      nofun
    · rw [hfault.zoneDeltas]
      nofun
  · intro before' after' hbefore hafter
    rcases matched_or_fault before after with ⟨tensors, hmatched⟩ | ⟨e', hfault⟩
    · obtain ⟨out, hout, hgrouped⟩ := hmatched.zoneDeltas sub
      obtain ⟨out', hout', hgrouped'⟩ := (hmatched.perm hbefore hafter).zoneDeltas sub
      rw [hout, hout', hgrouped'.unique hgrouped]
    · rw [hfault.zoneDeltas, (hfault.perm hbefore hafter).zoneDeltas]

/-- The bits of 0, 1, 2, 3 and 4. -/
def wholes : List F32 := [0, 0x3f800000, 0x40000000, 0x40400000, 0x40800000]

/-- The difference of two of these, where it is not negative. -/
def wholeSub (x y : F32) : F32 := (wholes[wholes.idxOf x - wholes.idxOf y]?).getD 0x7fc00000

/-- A zone of two tensors and one outside the zones, listed in another order after the
step: 1 and 2 go to 4 and 2, 3 to 4, and 0 to 2. -/
theorem zone_deltas_exact_reordered :
    zoneDeltas wholeSub
      [("score_HP", [0x40400000]), ("readout", [0]), ("zone_HP.wq", [0x3f800000, 0x40000000])]
      [("zone_HP.wq", [0x40800000, 0x40000000]), ("score_HP", [0x40800000]),
        ("readout", [0x40000000])] =
    .ok [⟨"HP", [0x3f800000, 0x40400000, 0]⟩, ⟨SHARED, [0x40000000]⟩] := by
  have hsorted : zoneDeltas wholeSub
      [("readout", [0]), ("score_HP", [0x40400000]), ("zone_HP.wq", [0x3f800000, 0x40000000])]
      [("readout", [0x40000000]), ("score_HP", [0x40800000]),
        ("zone_HP.wq", [0x40800000, 0x40000000])] =
      .ok [⟨"HP", [0x3f800000, 0x40400000, 0]⟩, ⟨SHARED, [0x40000000]⟩] := by decide +kernel
  rw [← hsorted]
  exact (zone_deltas_exact wholeSub
    [("readout", [0]), ("score_HP", [0x40400000]), ("zone_HP.wq", [0x3f800000, 0x40000000])]
    [("readout", [0x40000000]), ("score_HP", [0x40800000]),
      ("zone_HP.wq", [0x40800000, 0x40000000])]).2.2.2 _ _ (by decide) (by decide)

end ZoneDelta
end Worker
end ComputePool
