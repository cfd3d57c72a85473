import ComputePool.Federated.DatasetRows

/-!
# Calls and their answers

The judgement compares the ids of the calls with those of the tool messages as sets,
and the number of tool messages with the number of different ids.  So every tool
message of a written row has an id of its own, and the row pairs calls with answers
exactly when its calls do not share ids.
-/

namespace ComputePool
namespace Federated

open RustStd

variable {env : DatasetEnv} {held : HeldOut}

/-- The ids of the calls of a conversation. -/
def callIds (messages : List Message) : List String := (toolCallsOf messages).map ToolCall.id

/-- Calls and tool messages correspond one to one, by call id. -/
structure Paired (messages : List Message) : Prop where
  distinct : (callIds messages).Nodup
  answered : ∀ id ∈ callIds messages,
    (toolMessages messages).countP (fun m => m.toolCallId == some id) = 1
  answers : ∀ m ∈ toolMessages messages, ∃ id ∈ callIds messages, m.toolCallId = some id

/-- In a conversation that passes, every tool message has an id and no two the same. -/
theorem Passes.answers_nodup {messages : List Message} (h : Passes env held messages) :
    (∀ m ∈ toolMessages messages, m.toolCallId.isSome = true) ∧
      ((toolMessages messages).filterMap Message.toolCallId).Nodup := by
  have hcard : ((toolMessages messages).filterMap Message.toolCallId).toFinset.card =
      (toolMessages messages).length := by
    rw [h.answered, h.count]
  have hle := List.toFinset_card_le ((toolMessages messages).filterMap Message.toolCallId)
  have hlength := List.length_filterMap_le Message.toolCallId (toolMessages messages)
  have hall : ((toolMessages messages).filterMap Message.toolCallId).length =
      (toolMessages messages).length := by
    omega
  refine ⟨List.filterMap_length_eq_length.mp hall, ?_⟩
  rw [← Multiset.coe_nodup, ← Multiset.toFinset_card_eq_card_iff_nodup]
  change ((toolMessages messages).filterMap Message.toolCallId).toFinset.card =
    ((toolMessages messages).filterMap Message.toolCallId).length
  rw [hcard, hall]

/-- A conversation that passes is paired when its calls have different ids. -/
theorem Passes.paired_iff {messages : List Message} (h : Passes env held messages) :
    Paired messages ↔ (callIds messages).Nodup := by
  have ⟨hsome, hnodup⟩ := h.answers_nodup
  have hmem : ∀ id, id ∈ (toolMessages messages).filterMap Message.toolCallId ↔
      id ∈ callIds messages := by
    intro id
    rw [← List.mem_toFinset, h.answered, List.mem_toFinset]
    rfl
  refine ⟨Paired.distinct, fun hdistinct => ⟨hdistinct, ?_, ?_⟩⟩
  · intro id hid
    have hcount := List.count_eq_one_of_mem hnodup ((hmem id).mpr hid)
    rwa [List.count_filterMap] at hcount
  · intro m hm
    have ⟨id, hid⟩ := Option.isSome_iff_exists.mp (hsome m hm)
    exact ⟨id, (hmem id).mp (List.mem_filterMap.mpr ⟨m, hm, hid⟩), hid⟩

/-- An export is free of shared ids when no line that would be written has two calls
with one id. -/
def NoSharedIds (env : DatasetEnv) (held : HeldOut) (exs : List ExportLine) : Prop :=
  ∀ front ex back, exs = front ++ ex :: back → Passes env held ex.messages →
    (∀ e ∈ front, Passes env held e.messages →
      rowDigest env e.messages ≠ rowDigest env ex.messages) →
    (callIds ex.messages).Nodup

/-- The written rows pair calls with answers exactly where no line that is written has
calls that share an id. -/
theorem rows_paired_iff (env : DatasetEnv) (held : HeldOut) (export_ : List UInt8)
    (c : Converted) (h : convertExport env held export_ = .ok c) :
    (∀ row ∈ c.rows, Paired row.messages) ↔
      ∃ text, fromUtf8 export_ = some text ∧
        NoSharedIds env held (exportLines env text.toList) := by
  have ⟨text, htext, hrows, _⟩ := convertExport_rows h
  constructor
  · intro hpaired
    refine ⟨text, htext, fun front ex back hsplit hpasses hfirst => ?_⟩
    have hwritten : ex ∈ writtenLines env held ∅ (exportLines env text.toList) :=
      mem_writtenLines.mpr ⟨front, back, hsplit, hpasses, Finset.notMem_empty _, hfirst⟩
    apply hpasses.paired_iff.mp
    apply hpaired (rowOf ex (rowDigest env ex.messages))
    rw [hrows]
    exact List.mem_map_of_mem hwritten
  · rintro ⟨text', htext', hshared⟩ row hrow
    have hsame : text = text' := Option.some.inj (htext.symm.trans htext')
    subst hsame
    rw [hrows] at hrow
    have ⟨ex, hex, hmessages, _⟩ := mem_rows hrow
    have ⟨front, back, hsplit, hpasses, _, hfirst⟩ := mem_writtenLines.mp hex
    rw [hmessages]
    exact hpasses.paired_iff.mpr (hshared front ex back hsplit hpasses hfirst)

theorem rows_paired_iff_sample :
    ∃ c, convertExport (sampleEnv sampleKnown) sampleHeld sampleExport = .ok c ∧
      c.rows = [sampleRow calling, sampleRow greeting] ∧
      ((∀ row ∈ c.rows, Paired row.messages) ↔
        ∃ text, fromUtf8 sampleExport = some text ∧
          NoSharedIds (sampleEnv sampleKnown) sampleHeld
            (exportLines (sampleEnv sampleKnown) text.toList)) := by
  obtain ⟨c, hconvert, hrows, -⟩ := convertExport_sample
  exact ⟨c, hconvert, hrows, rows_paired_iff _ _ _ _ hconvert⟩

/-- Two calls with one id, and one answer. -/
def sharedMessages : List Message :=
  [⟨"user", "Find my notes", [], none⟩,
    ⟨"assistant", "", [callOf "c1" "memory_search", callOf "c1" "memory_search"], none⟩,
    ⟨"tool", "found", [], some "c1"⟩]

def sharedKnown : List Json := [sampleLineJson sharedMessages, .object []]

def sharedExport : List UInt8 :=
  utf8 (String.ofList (unlines [(sampleLineJson sharedMessages).compact]))

/-- The turn is written, and the second of its calls has no answer of its own. -/
theorem shared_id_is_written :
    ∃ c, convertExport (sampleEnv sharedKnown) sampleHeld sharedExport = .ok c ∧
      ∃ row ∈ c.rows, ¬ Paired row.messages := by
  obtain ⟨hnodup, hn, hr, hblank, hkeep⟩ :
      (sharedKnown.map Json.compact).Nodup ∧
      '\n' ∉ (sampleLineJson sharedMessages).compact ∧
      '\r' ∉ (sampleLineJson sharedMessages).compact ∧
      isBlank (sampleLineJson sharedMessages).compact = false ∧
      judge (sampleEnv sharedKnown) sampleHeld sharedMessages = .keep := by decide +kernel
  have hline : readLine (sampleEnv sharedKnown) (sampleLineJson sharedMessages).compact =
      some (sampleLine sharedMessages) := readLine_sample hnodup List.mem_cons_self rfl
  obtain ⟨c, hconvert, hrows, -⟩ := @convertExport_lines (sampleEnv sharedKnown) sampleHeld
    [(sampleLineJson sharedMessages).compact]
    (fun l hl => by rw [List.mem_singleton.mp hl]; exact ⟨hn, hr⟩)
    (fun l hl => by
      rw [List.mem_singleton.mp hl]
      exact .inr ⟨_, hblank, hline, fun _ => rfl⟩)
  have hread : ([(sampleLineJson sharedMessages).compact].filterMap fun line =>
      if isBlank line then none else readLine (sampleEnv sharedKnown) line) =
      [sampleLine sharedMessages] := by
    apply List.filterMap_cons_some
    rw [hblank, if_neg Bool.false_ne_true, hline]
  rw [hread] at hrows
  have hwritten := @foldl_add_rows (sampleEnv sharedKnown) sampleHeld (Conversion.start sampleHeld)
    [sampleLine sharedMessages]
  rw [writtenLines, if_pos ⟨hkeep, Finset.notMem_empty _⟩, List.map_cons] at hwritten
  have hmem : rowOf (sampleLine sharedMessages) (rowDigest (sampleEnv sharedKnown)
      (sampleLine sharedMessages).messages) ∈ c.rows := by
    rw [hrows, hwritten]
    exact List.mem_append_right _ List.mem_cons_self
  refine ⟨c, hconvert, _, hmem, fun h => ?_⟩
  have hdistinct : (callIds sharedMessages).Nodup := h.distinct
  revert hdistinct
  decide

end Federated
end ComputePool
