import ComputePool.Federated.Tree
import ComputePool.Federated.VerifyDataset

/-!
# What a conversion writes

The lines of an export that pass the judgement are written, each set of messages
once, and every other line is counted.  The written rows are again an export that a
device accepts.  The judgement compares the ids of the calls as a set, so calls that
share an id pass with one answer between them.
-/

namespace ComputePool
namespace Federated

open RustStd

section Conversion

variable {env : DatasetEnv} {held : HeldOut}

/-! ## The lines of an export -/

/-- The lines which are not blank. -/
def nonBlank (text : List Char) : List (List Char) := (lines text).filter fun line => !isBlank line

/-- The lines which are not blank, as they are read. -/
def exportLines (env : DatasetEnv) (text : List Char) : List ExportLine :=
  (lines text).filterMap fun line => if isBlank line then none else readLine env line

/-- What the check of a line says. -/
structure LineChecked (ex : ExportLine) : Prop where
  messages : ex.messages ≠ []
  roles : ∀ m ∈ ex.messages, isExportRole m.role = true
  verifiers : ex.metadata.verifiers ≠ []

theorem checkLine_ok {lineNo : Nat} {ex : ExportLine} (h : checkLine lineNo ex = .ok ()) :
    LineChecked ex := by
  unfold checkLine at h
  split at h
  · cases h
  · rename_i first rest hmessages
    split at h
    · cases h
    · rename_i hroles
      rw [List.find?_eq_none] at hroles
      split at h
      · cases h
      · split at h
        · cases h
        · rename_i hverifiers
          refine ⟨?_, fun m hm => ?_, ?_⟩
          · rw [hmessages]
            exact List.cons_ne_nil first rest
          · have hrole := hroles m hm
            rwa [Bool.not_eq_true, Bool.not_eq_false'] at hrole
          · intro hnil
            rw [hnil] at hverifiers
            exact hverifiers rfl

/-- The loop adds the lines that are not blank, one after another. -/
theorem foldlM_convertLine {entries : List (List Char × Nat)} {acc done : Conversion}
    (h : entries.foldlM (convertLine env held) acc = .ok done) :
    let exs := (entries.map Prod.fst).filterMap fun line =>
      if isBlank line then none else readLine env line
    done = exs.foldl (Conversion.add env held) acc ∧ (∀ ex ∈ exs, LineChecked ex) ∧
      exs.length = ((entries.map Prod.fst).filter fun line => !isBlank line).length := by
  induction entries generalizing acc with
  | nil =>
      cases h
      exact ⟨rfl, (fun ex hex => by cases hex), rfl⟩
  | cons entry rest ih =>
      obtain ⟨line, i⟩ := entry
      rw [List.foldlM_cons, bind_eq_ok] at h
      have ⟨next, hline, hrest⟩ := h
      have ⟨hdone, hchecked, hcount⟩ := ih hrest
      unfold convertLine at hline
      dsimp only at hline
      by_cases hblank : isBlank line = true
      · rw [if_pos hblank] at hline
        cases hline
        rw [List.map_cons, List.filterMap_cons, if_pos hblank,
          List.filter_cons_of_neg (by rw [hblank]; exact Bool.false_ne_true)]
        exact ⟨hdone, hchecked, hcount⟩
      · rw [if_neg hblank, bind_eq_ok] at hline
        have ⟨ex, hread, hcheck⟩ := hline
        rw [okOr_eq_ok] at hread
        rw [bind_eq_ok] at hcheck
        have ⟨_, hok, hnext⟩ := hcheck
        cases hnext
        rw [Bool.not_eq_true] at hblank
        rw [List.map_cons, List.filterMap_cons, hblank, if_neg Bool.false_ne_true, hread,
          List.filter_cons_of_pos (by rw [hblank]; rfl), List.length_cons]
        refine ⟨hdone, fun ex' hex' => ?_, congrArg (· + 1) hcount⟩
        rcases List.mem_cons.mp hex' with heq | hmem
        · rw [heq]
          exact checkLine_ok hok
        · exact hchecked ex' hmem

/-- A conversion that succeeds has added every line of a text. -/
theorem convertExport_ok {export_ : List UInt8} {c : Converted}
    (h : convertExport env held export_ = .ok c) :
    ∃ text, fromUtf8 export_ = some text ∧
      c = ⟨((exportLines env text.toList).foldl (Conversion.add env held)
          (Conversion.start held)).rows,
        ((exportLines env text.toList).foldl (Conversion.add env held)
          (Conversion.start held)).report⟩ ∧
      (∀ ex ∈ exportLines env text.toList, LineChecked ex) ∧
      (exportLines env text.toList).length = (nonBlank text.toList).length := by
  unfold convertExport at h
  rw [bind_eq_ok] at h
  have ⟨text, htext, hloop⟩ := h
  rw [okOr_eq_ok] at htext
  rw [bind_eq_ok] at hloop
  have ⟨done, hdone, hresult⟩ := hloop
  have ⟨hfold, hchecked, hcount⟩ := foldlM_convertLine hdone
  rw [List.zipIdx_map_fst] at hfold hchecked hcount
  cases hresult
  refine ⟨text, htext, ?_, hchecked, hcount⟩
  rw [hfold]
  rfl

/-! ## What the loop keeps -/

/-- A conversation that the judgement lets through: it holds no held-out prompt, its
calls are of the shipping tools with objects for arguments, and its tool messages
carry the ids of its calls and are as many as these. -/
structure Passes (env : DatasetEnv) (held : HeldOut) (messages : List Message) : Prop where
  notHeldOut : ∀ m ∈ messages, m.role = "user" → held.containsPrompt env m.content = false
  onSchema : ∀ c ∈ toolCallsOf messages, c.function.name ∈ PARITY_V1_TOOLS
  arguments : ∀ c ∈ toolCallsOf messages, env.serde.isObject c.function.arguments = true
  answered : ((toolMessages messages).filterMap Message.toolCallId).toFinset =
    ((toolCallsOf messages).map ToolCall.id).toFinset
  count : (toolMessages messages).length = ((toolCallsOf messages).map ToolCall.id).toFinset.card

theorem judge_eq_keep {messages : List Message} :
    judge env held messages = .keep ↔ Passes env held messages := by
  unfold judge
  constructor
  · intro h
    split at h
    · cases h
    · rename_i hheld
      split at h
      · cases h
      · rename_i hschema
        split at h
        · cases h
        · rename_i harguments
          dsimp only at h
          split at h
          · cases h
          · rename_i hpaired
            simp only [List.any_eq_true, not_exists, not_and, Bool.and_eq_true, beq_iff_eq,
              Bool.not_eq_true, Bool.not_eq_eq_eq_not, Bool.not_true] at hheld hschema harguments
            rw [not_or, not_not, not_not] at hpaired
            refine ⟨hheld, ?_, ?_, hpaired.1, hpaired.2⟩
            · simpa using hschema
            · simpa using harguments
  · intro h
    have hheld : ¬ (messages.any fun m =>
        m.role == "user" && held.containsPrompt env m.content) = true := by
      rw [List.any_eq_true]
      rintro ⟨m, hm, hbad⟩
      rw [Bool.and_eq_true, beq_iff_eq] at hbad
      rw [h.notHeldOut m hm hbad.1] at hbad
      cases hbad.2
    have hschema : ¬ ((toolCallsOf messages).any fun c =>
        !PARITY_V1_TOOLS.contains c.function.name) = true := by
      rw [List.any_eq_true]
      rintro ⟨c, hc, hbad⟩
      rw [List.contains_iff_mem.mpr (h.onSchema c hc)] at hbad
      cases hbad
    have harguments : ¬ ((toolCallsOf messages).any fun c =>
        !env.serde.isObject c.function.arguments) = true := by
      rw [List.any_eq_true]
      rintro ⟨c, hc, hbad⟩
      rw [h.arguments c hc] at hbad
      cases hbad
    rw [if_neg hheld, if_neg hschema, if_neg harguments]
    exact if_neg (not_or.mpr ⟨not_not.mpr h.answered, not_not.mpr h.count⟩)

/-- The lines that are written: those which pass, each digest once. -/
def writtenLines (env : DatasetEnv) (held : HeldOut) : Finset B32 → List ExportLine →
    List ExportLine
  | _, [] => []
  | seen, ex :: rest =>
      if judge env held ex.messages = .keep ∧ rowDigest env ex.messages ∉ seen then
        ex :: writtenLines env held (insert (rowDigest env ex.messages) seen) rest
      else writtenLines env held seen rest

/-- All that was left out. -/
def Excluded.total (e : Excluded) : Nat :=
  e.heldOut + e.offSchema + e.badArguments + e.unpairedToolResult + e.duplicate

/-- What one line does to the loop's variables. -/
theorem add_cases (acc : Conversion) (ex : ExportLine) :
    (acc.add env held ex).report.read = acc.report.read + 1 ∧
    ((judge env held ex.messages = .keep ∧ rowDigest env ex.messages ∉ acc.seen ∧
        (acc.add env held ex).seen = insert (rowDigest env ex.messages) acc.seen ∧
        (acc.add env held ex).rows = acc.rows ++ [rowOf ex (rowDigest env ex.messages)] ∧
        (acc.add env held ex).report.written = acc.report.written + 1 ∧
        (acc.add env held ex).report.excluded = acc.report.excluded) ∨
      (¬ (judge env held ex.messages = .keep ∧ rowDigest env ex.messages ∉ acc.seen) ∧
        (acc.add env held ex).seen = acc.seen ∧ (acc.add env held ex).rows = acc.rows ∧
        (acc.add env held ex).report.written = acc.report.written ∧
        (acc.add env held ex).report.excluded.total = acc.report.excluded.total + 1)) := by
  unfold Conversion.add
  cases hjudge : judge env held ex.messages with
  | keep =>
      dsimp only
      by_cases hseen : rowDigest env ex.messages ∈ acc.seen
      · rw [if_pos hseen]
        refine ⟨rfl, .inr ⟨fun h => h.2 hseen, rfl, rfl, rfl, ?_⟩⟩
        simp only [ConvertReport.exclude, Excluded.total]
        omega
      · rw [if_neg hseen]
        exact ⟨rfl, .inl ⟨rfl, hseen, rfl, rfl, rfl, rfl⟩⟩
  | heldOut | offSchema | badArguments | unpaired =>
      refine ⟨rfl, .inr ⟨(fun h => by cases h.1), rfl, rfl, rfl, ?_⟩⟩
      simp only [ConvertReport.exclude, Excluded.total]
      omega

/-- The rows of the loop are those of the written lines. -/
theorem foldl_add_rows (acc : Conversion) (exs : List ExportLine) :
    (exs.foldl (Conversion.add env held) acc).rows =
      acc.rows ++ (writtenLines env held acc.seen exs).map fun ex =>
        rowOf ex (rowDigest env ex.messages) := by
  induction exs generalizing acc with
  | nil => exact (List.append_nil acc.rows).symm
  | cons ex rest ih =>
      rw [List.foldl_cons, ih, writtenLines]
      rcases (@add_cases env held acc ex).2 with
        ⟨hkeep, hnew, hseen, hrows, -, -⟩ | ⟨hnot, hseen, hrows, -, -⟩
      · rw [if_pos ⟨hkeep, hnew⟩, hseen, hrows, List.map_cons, List.append_assoc]
        rfl
      · rw [if_neg hnot, hseen, hrows]

/-- Every line is written or left out, and counted so. -/
structure Balanced (acc : Conversion) : Prop where
  read : acc.report.read = acc.report.written + acc.report.excluded.total
  written : acc.report.written = acc.rows.length

theorem Balanced.add {acc : Conversion} (h : Balanced acc) (ex : ExportLine) :
    Balanced (acc.add env held ex) := by
  have ⟨hread, hcases⟩ := @add_cases env held acc ex
  have hbefore := h.read
  have hlength := h.written
  rcases hcases with ⟨-, -, -, hrows, hwritten, hexcluded⟩ | ⟨-, -, hrows, hwritten, htotal⟩
  · refine ⟨?_, ?_⟩
    · rw [hread, hwritten, hexcluded]
      omega
    · rw [hwritten, hrows, List.length_append, List.length_singleton, hlength]
  · refine ⟨?_, ?_⟩
    · rw [hread, hwritten, htotal]
      omega
    · rw [hwritten, hrows, hlength]

/-- Every line is read. -/
theorem foldl_add_read (acc : Conversion) (exs : List ExportLine) :
    (exs.foldl (Conversion.add env held) acc).report.read = acc.report.read + exs.length := by
  induction exs generalizing acc with
  | nil => rfl
  | cons ex rest ih =>
      rw [List.foldl_cons, ih, (@add_cases env held acc ex).1, List.length_cons]
      omega

theorem Balanced.foldl {acc : Conversion} (h : Balanced acc) (exs : List ExportLine) :
    Balanced (exs.foldl (Conversion.add env held) acc) := by
  induction exs generalizing acc with
  | nil => exact h
  | cons ex rest ih => exact ih (h.add ex)

/-! ## The written lines -/

theorem writtenLines_sublist (seen : Finset B32) (exs : List ExportLine) :
    (writtenLines env held seen exs).Sublist exs := by
  induction exs generalizing seen with
  | nil => exact List.Sublist.slnil
  | cons ex rest ih =>
      rw [writtenLines]
      split
      · exact (ih _).cons_cons ex
      · exact (ih _).cons ex

/-- A line is written when it passes and no line before it that passes has its
digest. -/
theorem mem_writtenLines {seen : Finset B32} {exs : List ExportLine} {ex : ExportLine} :
    ex ∈ writtenLines env held seen exs ↔
      ∃ front back, exs = front ++ ex :: back ∧ Passes env held ex.messages ∧
        rowDigest env ex.messages ∉ seen ∧
        ∀ e ∈ front, Passes env held e.messages →
          rowDigest env e.messages ≠ rowDigest env ex.messages := by
  induction exs generalizing seen with
  | nil =>
      refine iff_of_false (fun h => by cases h) fun ⟨front, back, hsplit, _⟩ => ?_
      exact List.append_ne_nil_of_right_ne_nil front (List.cons_ne_nil ex back) hsplit.symm
  | cons first rest ih =>
      rw [writtenLines]
      constructor
      · intro hmem
        split at hmem
        · rename_i hkeep
          have hpasses := judge_eq_keep.mp hkeep.1
          rcases List.mem_cons.mp hmem with heq | hrest
          · subst heq
            exact ⟨[], rest, rfl, hpasses, hkeep.2, fun e he => by cases he⟩
          · have ⟨front, back, hsplit, hp, hseen, hfront⟩ := ih.mp hrest
            rw [Finset.mem_insert, not_or] at hseen
            refine ⟨first :: front, back, by rw [hsplit]; rfl, hp, hseen.2, ?_⟩
            intro e he hpe
            rcases List.mem_cons.mp he with heq | he
            · rw [heq]
              exact Ne.symm hseen.1
            · exact hfront e he hpe
        · rename_i hnot
          have ⟨front, back, hsplit, hp, hseen, hfront⟩ := ih.mp hmem
          refine ⟨first :: front, back, by rw [hsplit]; rfl, hp, hseen, ?_⟩
          intro e he hpe
          rcases List.mem_cons.mp he with heq | he
          · -- a line that passes and is not written has a digest seen before
            subst heq
            intro hsame
            rw [← hsame] at hseen
            exact hnot ⟨judge_eq_keep.mpr hpe, hseen⟩
          · exact hfront e he hpe
      · rintro ⟨front, back, hsplit, hp, hseen, hfront⟩
        cases front with
        | nil =>
            cases hsplit
            rw [if_pos ⟨judge_eq_keep.mpr hp, hseen⟩]
            exact List.mem_cons_self
        | cons e front =>
            cases hsplit
            have hrest : ∀ e' ∈ front, Passes env held e'.messages →
                rowDigest env e'.messages ≠ rowDigest env ex.messages :=
              fun e' he' => hfront e' (List.mem_cons_of_mem _ he')
            split
            · rename_i hkeep
              have hfirst := hfront first List.mem_cons_self (judge_eq_keep.mp hkeep.1)
              refine List.mem_cons_of_mem _ (ih.mpr ⟨front, back, rfl, hp, ?_, hrest⟩)
              rw [Finset.mem_insert, not_or]
              exact ⟨Ne.symm hfirst, hseen⟩
            · exact ih.mpr ⟨front, back, rfl, hp, hseen, hrest⟩

/-- No two written lines have the same digest. -/
theorem writtenLines_nodup (seen : Finset B32) (exs : List ExportLine) :
    ((writtenLines env held seen exs).map fun ex => rowDigest env ex.messages).Nodup := by
  induction exs generalizing seen with
  | nil => exact List.nodup_nil
  | cons ex rest ih =>
      rw [writtenLines]
      split
      · rw [List.map_cons, List.nodup_cons]
        refine ⟨fun hmem => ?_, ih _⟩
        have ⟨other, hother, hsame⟩ := List.mem_map.mp hmem
        have ⟨_, _, _, _, hseen, _⟩ := mem_writtenLines.mp hother
        rw [hsame] at hseen
        exact hseen (Finset.mem_insert_self _ _)
      · exact ih _

/-- What a conversion that succeeds has written, and of which lines. -/
theorem convertExport_rows {export_ : List UInt8} {c : Converted}
    (h : convertExport env held export_ = .ok c) :
    ∃ text, fromUtf8 export_ = some text ∧
      c.rows = (writtenLines env held ∅ (exportLines env text.toList)).map (fun ex =>
        rowOf ex (rowDigest env ex.messages)) ∧
      c.report.read = (nonBlank text.toList).length ∧
      c.report.read = c.report.written + c.report.excluded.total ∧
      c.report.written = c.rows.length ∧ ∀ ex ∈ exportLines env text.toList, LineChecked ex := by
  have ⟨text, htext, hc, hchecked, hcount⟩ := convertExport_ok h
  have hstart : Balanced (Conversion.start held) := ⟨rfl, rfl⟩
  have hbalanced := @Balanced.foldl env held _ hstart (exportLines env text.toList)
  have hrows := @foldl_add_rows env held (Conversion.start held)
    (exportLines env text.toList)
  have hread := @foldl_add_read env held (Conversion.start held) (exportLines env text.toList)
  have hzero : (Conversion.start held).report.read = 0 := rfl
  rw [hzero, Nat.zero_add, hcount] at hread
  rw [hc]
  exact ⟨text, htext, hrows, hread, hbalanced.read, hbalanced.written, hchecked⟩

/-- A row is a written line, with the messages of the line. -/
theorem mem_rows {exs : List ExportLine} {row : TrainerRow}
    (h : row ∈ (writtenLines env held ∅ exs).map fun ex => rowOf ex (rowDigest env ex.messages)) :
    ∃ ex ∈ writtenLines env held ∅ exs, row.messages = ex.messages ∧
      row.metadata.verifiers = ex.metadata.verifiers := by
  have ⟨ex, hex, hrow⟩ := List.mem_map.mp h
  rw [← hrow]
  exact ⟨ex, hex, rfl, rfl⟩

/-! ## The written rows on the device -/

/-- What `serde_json` does with a value that it writes: the text is one line and not
blank, and reading it gives the value. -/
structure ReadsBack (serde : SerdeJson) (j : Json) : Prop where
  oneLine : '\n' ∉ (serde.toText j).toList ∧ '\r' ∉ (serde.toText j).toList
  notBlank : isBlank (serde.toText j).toList = false
  readBack : serde.fromText (serde.toText j) = some j

/-- The device counts the lines it accepts. -/
theorem foldlM_verifyLine {entries : List (List Char × Nat)} (n : Nat)
    (h : ∀ entry ∈ entries, isBlank entry.1 = false ∧
      ∃ ex, Runner.readLine env entry.1 = some ex ∧
        ∀ lineNo, Runner.checkLine lineNo ex = .ok ()) :
    entries.foldlM (Runner.verifyLine env) n = .ok (n + entries.length) := by
  induction entries generalizing n with
  | nil => rfl
  | cons entry rest ih =>
      have ⟨hblank, ex, hread, hcheck⟩ := h entry List.mem_cons_self
      have hrest := ih (n + 1) fun e he => h e (List.mem_cons_of_mem _ he)
      have hline : Runner.verifyLine env n entry = .ok (n + 1) := by
        unfold Runner.verifyLine
        dsimp only
        rw [hblank, hread, okOr_some]
        change (Runner.checkLine (entry.2 + 1) ex >>= fun _ => Except.ok (n + 1)) = _
        rw [hcheck]
        rfl
      rw [List.foldlM_cons, hline]
      change rest.foldlM (Runner.verifyLine env) (n + 1) = _
      rw [hrest, List.length_cons]
      congr 1
      omega

/-- A line that passed the check of the conversion passes the check of the device. -/
theorem runner_checkLine {ex : ExportLine} (h : LineChecked ex) (model : String) (lineNo : Nat) :
    Runner.checkLine lineNo
      ⟨ex.messages.map fun m => ⟨m.role, m.content⟩, ⟨model, ex.metadata.verifiers⟩⟩ = .ok () := by
  have hmessages : ¬ (ex.messages.map fun m =>
      (⟨m.role, m.content⟩ : Runner.ExportMessage)).isEmpty = true := by
    rw [List.isEmpty_iff, List.map_eq_nil_iff]
    exact h.messages
  have hroles : (ex.messages.map fun m =>
      (⟨m.role, m.content⟩ : Runner.ExportMessage)).find? (fun m => !isExportRole m.role) =
        none := by
    rw [List.find?_eq_none]
    intro m hm
    have ⟨m', hm', heq⟩ := List.mem_map.mp hm
    rw [← heq, h.roles m' hm']
    exact Bool.false_ne_true
  have hverifiers : ¬ ex.metadata.verifiers.isEmpty = true := by
    rw [List.isEmpty_iff]
    exact h.verifiers
  unfold Runner.checkLine
  dsimp only
  rw [if_neg hmessages, hroles, if_neg hverifiers]

/-- The rows, written line by line, are a dataset of as many examples. -/
theorem verifyDataset_toJsonl {c : Converted} (hrows : c.rows ≠ [])
    (hserde : ∀ row ∈ c.rows, ReadsBack env.serde row.toJson)
    (hchecked : ∀ row ∈ c.rows, ∃ ex, LineChecked ex ∧ row.messages = ex.messages ∧
      row.metadata.verifiers = ex.metadata.verifiers) :
    Runner.verifyDataset env (utf8 (c.toJsonl env)) = .ok c.rows.length := by
  have hlines : lines (c.toJsonl env).toList =
      c.rows.map fun r => (env.serde.toText r.toJson).toList := by
    unfold Converted.toJsonl
    rw [String.toList_ofList]
    refine lines_unlines fun line hline => ?_
    have ⟨row, hrow, heq⟩ := List.mem_map.mp hline
    rw [← heq]
    exact (hserde row hrow).oneLine
  have hcount := @foldlM_verifyLine env
    (lines (c.toJsonl env).toList).zipIdx 0 fun entry hentry => by
      have hmem : entry.1 ∈ c.rows.map fun r => (env.serde.toText r.toJson).toList := by
        rw [← hlines, ← List.zipIdx_map_fst 0 (lines (c.toJsonl env).toList)]
        exact List.mem_map_of_mem hentry
      have ⟨row, hrow, heq⟩ := List.mem_map.mp hmem
      have hback := hserde row hrow
      have ⟨ex, hex, hmessages, hverifiers⟩ := hchecked row hrow
      rw [← heq]
      refine ⟨hback.notBlank, ⟨row.messages.map fun m => ⟨m.role, m.content⟩,
        ⟨row.metadata.model, row.metadata.verifiers⟩⟩, ?_, fun lineNo => ?_⟩
      · unfold Runner.readLine
        rw [String.ofList_toList, hback.readBack]
        exact Runner.ExportLine.ofJson_toJson row
      · rw [hmessages, hverifiers]
        exact runner_checkLine hex row.metadata.model lineNo
  have hpos : c.rows.length ≠ 0 := by
    rw [Ne, List.length_eq_zero_iff]
    exact hrows
  unfold Runner.verifyDataset
  rw [fromUtf8_utf8, okOr_some]
  change ((lines (c.toJsonl env).toList).zipIdx.foldlM (Runner.verifyLine env) 0 >>= fun n =>
    if n = 0 then Except.error Runner.VerifyError.noExamples else .ok n) = _
  rw [hcount, List.length_zipIdx, hlines, List.length_map, Nat.zero_add]
  exact if_neg hpos

/-- What a conversion conserves. -/
structure Conserves (env : DatasetEnv) (held : HeldOut) (export_ : List UInt8)
    (c : Converted) : Prop where
  /-- Every line that is not blank is read. -/
  read : ∃ text, fromUtf8 export_ = some text ∧ c.report.read = (nonBlank text.toList).length
  /-- Every line that is read is written or counted under a reason. -/
  counted : c.report.read = c.report.written + c.report.excluded.total
  /-- The rows carry the messages of a subsequence of the lines. -/
  messages : ∃ text, fromUtf8 export_ = some text ∧
    (c.rows.map TrainerRow.messages).Sublist
      ((exportLines env text.toList).map ExportLine.messages)
  distinct : (c.rows.map TrainerRow.messages).Nodup
  clean : ∀ row ∈ c.rows, ∀ m ∈ row.messages, m.role = "user" →
    held.containsPrompt env m.content = false
  /-- What is written is a dataset of as many examples. -/
  accepted : c.rows ≠ [] →
    Runner.verifyDataset env (utf8 (c.toJsonl env)) = .ok c.report.written

/-- **Dataset conversion conserves rows.**  Where `serde_json` reads back the rows it
wrote. -/
theorem conversion_conserves (env : DatasetEnv) (held : HeldOut) (export_ : List UInt8)
    (c : Converted) (h : convertExport env held export_ = .ok c)
    (hserde : ∀ row ∈ c.rows, ReadsBack env.serde row.toJson) :
    Conserves env held export_ c := by
  have ⟨text, htext, hrows, hlines, hread, hwritten, hchecked⟩ := convertExport_rows h
  have hsublist := @writtenLines_sublist env held ∅
    (exportLines env text.toList)
  have hmessages : c.rows.map TrainerRow.messages =
      (writtenLines env held ∅ (exportLines env text.toList)).map ExportLine.messages := by
    rw [hrows, List.map_map]
    rfl
  refine ⟨⟨text, htext, hlines⟩, hread, ⟨text, htext, ?_⟩, ?_, ?_, ?_⟩
  · rw [hmessages]
    exact hsublist.map ExportLine.messages
  · -- equal messages would have one digest
    rw [hmessages]
    have hnodup := @writtenLines_nodup env held ∅
      (exportLines env text.toList)
    have hdigests : (writtenLines env held ∅ (exportLines env text.toList)).map
        (fun ex => rowDigest env ex.messages) =
          ((writtenLines env held ∅ (exportLines env text.toList)).map
            ExportLine.messages).map (rowDigest env) := by
      rw [List.map_map]
      rfl
    rw [hdigests] at hnodup
    exact hnodup.of_map _
  · intro row hrow m hm hrole
    rw [hrows] at hrow
    have ⟨ex, hex, heq, _⟩ := mem_rows hrow
    have ⟨_, _, _, hpasses, _⟩ := mem_writtenLines.mp hex
    exact hpasses.notHeldOut m (heq ▸ hm) hrole
  · intro hsome
    rw [hwritten]
    refine verifyDataset_toJsonl hsome hserde fun row hrow => ?_
    rw [hrows] at hrow
    have ⟨ex, hex, heq, hverifiers⟩ := mem_rows hrow
    exact ⟨ex, hchecked ex (hsublist.subset hex), heq, hverifiers⟩

/-! ## An export of several lines -/

/-- The checks of the lines as they are read, whatever their numbers. -/
def Reads (env : DatasetEnv) (line : List Char) : Prop :=
  isBlank line = true ∨ ∃ ex, isBlank line = false ∧ readLine env line = some ex ∧
    ∀ lineNo, checkLine lineNo ex = .ok ()

theorem foldlM_convertLine_ok {entries : List (List Char × Nat)}
    (h : ∀ entry ∈ entries, Reads env entry.1) (acc : Conversion) :
    ∃ done, entries.foldlM (convertLine env held) acc = .ok done := by
  induction entries generalizing acc with
  | nil => exact ⟨acc, rfl⟩
  | cons entry rest ih =>
      have hrest := fun acc => ih (fun e he => h e (List.mem_cons_of_mem _ he)) acc
      -- whatever was collected so far, this line is passed over or added
      have hline : ∃ next, convertLine env held acc entry = .ok next := by
        unfold convertLine
        dsimp only
        rcases h entry List.mem_cons_self with hblank | ⟨ex, hblank, hread, hcheck⟩
        · rw [hblank]
          exact ⟨acc, rfl⟩
        · rw [hblank, hread, okOr_some]
          refine ⟨acc.add env held ex, ?_⟩
          change (checkLine (entry.2 + 1) ex >>= fun _ => Except.ok (acc.add env held ex)) = _
          rw [hcheck]
          rfl
      obtain ⟨next, hnext⟩ := hline
      obtain ⟨done, hdone⟩ := hrest next
      exact ⟨done, by rw [List.foldlM_cons, hnext]; exact hdone⟩

/-- An export whose lines are all blank or read is converted. -/
theorem convertExport_lines {ls : List (List Char)} (hone : ∀ l ∈ ls, '\n' ∉ l ∧ '\r' ∉ l)
    (hread : ∀ l ∈ ls, Reads env l) :
    ∃ c, convertExport env held (utf8 (String.ofList (unlines ls))) = .ok c ∧
      c.rows = ((ls.filterMap fun line => if isBlank line then none else readLine env line).foldl
        (Conversion.add env held) (Conversion.start held)).rows ∧
      c.report = ((ls.filterMap fun line => if isBlank line then none else readLine env line).foldl
        (Conversion.add env held) (Conversion.start held)).report := by
  have hlines : lines (String.ofList (unlines ls)).toList = ls := by
    rw [String.toList_ofList]
    exact lines_unlines hone
  have hentries : ∀ entry ∈ ls.zipIdx, Reads env entry.1 := by
    intro entry hentry
    apply hread
    rw [← List.zipIdx_map_fst 0 ls]
    exact List.mem_map_of_mem hentry
  obtain ⟨done, hdone⟩ := @foldlM_convertLine_ok env held _ hentries (Conversion.start held)
  have hconvert : convertExport env held (utf8 (String.ofList (unlines ls))) =
      .ok ⟨done.rows, done.report⟩ := by
    unfold convertExport
    rw [fromUtf8_utf8, okOr_some]
    change ((lines (String.ofList (unlines ls)).toList).zipIdx.foldlM (convertLine env held)
      (Conversion.start held) >>= fun done => .ok (⟨done.rows, done.report⟩ : Converted)) = _
    rw [hlines, hdone]
    rfl
  have hfold := (foldlM_convertLine hdone).1
  rw [List.zipIdx_map_fst] at hfold
  exact ⟨_, hconvert, congrArg Conversion.rows hfold, congrArg Conversion.report hfold⟩

/-- A line as the exporter writes it, with the messages given. -/
def sampleLine (messages : List Message) : ExportLine :=
  ⟨messages, ⟨"qwen", none, none, ["unit-tests"]⟩⟩

def sampleLineJson (messages : List Message) : Json :=
  .object
    [("messages", messagesToJson messages),
      ("metadata", .object
        [("model", .string "qwen"), ("workflow", .null), ("step", .null),
          ("verifiers", .array [.string "unit-tests"])])]

/-- The Unicode tables on ASCII. -/
def sampleEnv (known : List Json) : DatasetEnv where
  hashes := Tree.residueHashes
  serde := SerdeJson.on known
  toLowercase := List.map Char.toLower
  isAlphanumeric := Char.isAlphanum

/-- One prompt is held out. -/
def sampleHeld : HeldOut :=
  ⟨"toolcall-v2", {Tree.residueHashes.sha256 (utf8 "what is my balance")}⟩

theorem readLine_sample {known : List Json} (hnodup : (known.map Json.compact).Nodup)
    {messages : List Message} (hknown : sampleLineJson messages ∈ known)
    (hjson : ExportLine.ofJson (sampleLineJson messages) = some (sampleLine messages)) :
    readLine (sampleEnv known) (sampleLineJson messages).compact = some (sampleLine messages) := by
  change ((SerdeJson.on known).fromText (String.ofList (sampleLineJson messages).compact)).bind
    ExportLine.ofJson = _
  rw [SerdeJson.on_fromText hnodup hknown]
  exact hjson

theorem readsBack_sample {known : List Json} (hnodup : (known.map Json.compact).Nodup) {j : Json}
    (hknown : j ∈ known) (hone : '\n' ∉ j.compact ∧ '\r' ∉ j.compact)
    (hblank : isBlank j.compact = false) : ReadsBack (sampleEnv known).serde j := by
  have htext : ((sampleEnv known).serde.toText j).toList = j.compact := String.toList_ofList
  refine ⟨?_, ?_, SerdeJson.on_fromText hnodup hknown⟩
  · rwa [htext]
  · rwa [htext]

def callOf (id tool : String) : ToolCall := ⟨id, "function", ⟨tool, "\x7b\x7d"⟩⟩

/-- Two calls and their answers. -/
def calling : List Message :=
  [⟨"user", "Find my notes and list my groups", [], none⟩,
    ⟨"assistant", "", [callOf "c1" "memory_search", callOf "c2" "groups_list"], none⟩,
    ⟨"tool", "two notes", [], some "c1"⟩, ⟨"tool", "one group", [], some "c2"⟩,
    ⟨"assistant", "Two notes, one group.", [], none⟩]

def greeting : List Message := [⟨"user", "hi", [], none⟩, ⟨"assistant", "hello", [], none⟩]

def heldBack : List Message := [⟨"user", "What is my balance?", [], none⟩]

/-- A call without an answer. -/
def unanswered : List Message :=
  [⟨"user", "Open the journal", [], none⟩, ⟨"assistant", "", [callOf "c1" "journal_read"], none⟩]

def sampleRow (messages : List Message) : TrainerRow :=
  rowOf (sampleLine messages)
    (Tree.residueHashes.sha256 ((messagesToJson messages).compact.flatMap String.utf8EncodeChar))

def sampleKnown : List Json :=
  [sampleLineJson calling, sampleLineJson greeting, sampleLineJson heldBack,
    sampleLineJson unanswered, (sampleRow calling).toJson, (sampleRow greeting).toJson, .object []]

/-- The five conversations of the export; one comes twice, and one line is blank. -/
def sampleLines : List (List Char) :=
  [(sampleLineJson calling).compact, [], (sampleLineJson heldBack).compact,
    (sampleLineJson calling).compact, (sampleLineJson unanswered).compact,
    (sampleLineJson greeting).compact]

def sampleExport : List UInt8 := utf8 (String.ofList (unlines sampleLines))

theorem utf8_ofList (cs : List Char) :
    utf8 (String.ofList cs) = cs.flatMap String.utf8EncodeChar := by
  unfold utf8
  simp [List.utf8Encode]

theorem rowDigest_sample (known : List Json) (messages : List Message) :
    rowDigest (sampleEnv known) messages =
      Tree.residueHashes.sha256 ((messagesToJson messages).compact.flatMap
        String.utf8EncodeChar) :=
  congrArg Tree.residueHashes.sha256 (utf8_ofList _)

/-- What evaluation finds of the conversations and their texts. -/
theorem sample_evaluates :
    (sampleKnown.map Json.compact).Nodup ∧
    (∀ j ∈ sampleKnown, '\n' ∉ j.compact ∧ '\r' ∉ j.compact ∧ isBlank j.compact = false) ∧
    judge (sampleEnv sampleKnown) sampleHeld calling = .keep ∧
    judge (sampleEnv sampleKnown) sampleHeld greeting = .keep ∧
    judge (sampleEnv sampleKnown) sampleHeld heldBack = .heldOut ∧
    judge (sampleEnv sampleKnown) sampleHeld unanswered = .unpaired ∧
    Tree.residueHashes.sha256 ((messagesToJson calling).compact.flatMap String.utf8EncodeChar) ≠
      Tree.residueHashes.sha256
        ((messagesToJson greeting).compact.flatMap String.utf8EncodeChar) := by
  decide +kernel

theorem readLine_known {messages : List Message}
    (h : messages ∈ [calling, greeting, heldBack, unanswered]) :
    isBlank (sampleLineJson messages).compact = false ∧
      readLine (sampleEnv sampleKnown) (sampleLineJson messages).compact =
        some (sampleLine messages) ∧ ∀ lineNo, checkLine lineNo (sampleLine messages) = .ok () := by
  obtain ⟨hnodup, hlines, -⟩ := sample_evaluates
  have hknown : sampleLineJson messages ∈ sampleKnown ∧
      ExportLine.ofJson (sampleLineJson messages) = some (sampleLine messages) ∧
      ∀ lineNo, checkLine lineNo (sampleLine messages) = .ok () := by
    simp only [List.mem_cons, List.not_mem_nil, or_false] at h
    rcases h with rfl | rfl | rfl | rfl
    · exact ⟨by simp [sampleKnown], rfl, fun _ => rfl⟩
    · exact ⟨by simp [sampleKnown], rfl, fun _ => rfl⟩
    · exact ⟨by simp [sampleKnown], rfl, fun _ => rfl⟩
    · exact ⟨by simp [sampleKnown], rfl, fun _ => rfl⟩
  exact ⟨(hlines _ hknown.1).2.2, readLine_sample hnodup hknown.1 hknown.2.1, hknown.2.2⟩

theorem sampleLines_read :
    (sampleLines.filterMap fun line =>
      if isBlank line then none else readLine (sampleEnv sampleKnown) line) =
    [calling, heldBack, calling, unanswered, greeting].map sampleLine := by
  have hread : ∀ messages ∈ [calling, greeting, heldBack, unanswered], ∀ rest,
      ((sampleLineJson messages).compact :: rest).filterMap (fun line =>
        if isBlank line then none else readLine (sampleEnv sampleKnown) line) =
      sampleLine messages :: rest.filterMap (fun line =>
        if isBlank line then none else readLine (sampleEnv sampleKnown) line) := by
    intro messages h rest
    have ⟨hblank, hline, _⟩ := readLine_known h
    apply List.filterMap_cons_some
    rw [hblank, if_neg Bool.false_ne_true, hline]
  have hskip : ∀ rest, ([] :: rest).filterMap (fun line =>
      if isBlank line then none else readLine (sampleEnv sampleKnown) line) =
      rest.filterMap (fun line =>
        if isBlank line then none else readLine (sampleEnv sampleKnown) line) := fun _ => rfl
  unfold sampleLines
  rw [hread calling (by simp), hskip, hread heldBack (by simp), hread calling (by simp),
    hread unanswered (by simp), hread greeting (by simp)]
  rfl

/-- One line is held out, one comes again and one has a call without an answer. -/
theorem convertExport_sample :
    ∃ c, convertExport (sampleEnv sampleKnown) sampleHeld sampleExport = .ok c ∧
      c.rows = [sampleRow calling, sampleRow greeting] ∧ c.report.read = 5 ∧
      c.report.written = 2 ∧ c.report.excluded = ⟨1, 0, 0, 1, 1⟩ := by
  obtain ⟨-, hlines, hcalling, hgreeting, hheldBack, hunanswered, hdigest⟩ := sample_evaluates
  rw [← rowDigest_sample sampleKnown, ← rowDigest_sample sampleKnown] at hdigest
  have hmem : ∀ l ∈ sampleLines, l = [] ∨ ∃ messages ∈ [calling, greeting, heldBack, unanswered],
      l = (sampleLineJson messages).compact := by
    intro l hl
    simp only [sampleLines, List.mem_cons, List.not_mem_nil, or_false] at hl
    rcases hl with rfl | rfl | rfl | rfl | rfl | rfl
    · exact .inr ⟨calling, by simp, rfl⟩
    · exact .inl rfl
    · exact .inr ⟨heldBack, by simp, rfl⟩
    · exact .inr ⟨calling, by simp, rfl⟩
    · exact .inr ⟨unanswered, by simp, rfl⟩
    · exact .inr ⟨greeting, by simp, rfl⟩
  have hone : ∀ l ∈ sampleLines, '\n' ∉ l ∧ '\r' ∉ l := by
    intro l hl
    rcases hmem l hl with rfl | ⟨messages, hmessages, rfl⟩
    · exact ⟨List.not_mem_nil, List.not_mem_nil⟩
    · have hknown : sampleLineJson messages ∈ sampleKnown := by
        simp only [List.mem_cons, List.not_mem_nil, or_false] at hmessages
        rcases hmessages with rfl | rfl | rfl | rfl <;> simp [sampleKnown]
      exact ⟨(hlines _ hknown).1, (hlines _ hknown).2.1⟩
  have hreads : ∀ l ∈ sampleLines, Reads (sampleEnv sampleKnown) l := by
    intro l hl
    rcases hmem l hl with rfl | ⟨messages, hmessages, rfl⟩
    · exact .inl rfl
    · have ⟨hblank, hline, hcheck⟩ := readLine_known hmessages
      exact .inr ⟨_, hblank, hline, hcheck⟩
  obtain ⟨c, hconvert, hrows, hreport⟩ := @convertExport_lines (sampleEnv sampleKnown) sampleHeld
    sampleLines hone hreads
  -- what each line adds follows from its verdict and from the digests seen before it
  have hrow : ∀ messages, rowOf (sampleLine messages)
      (rowDigest (sampleEnv sampleKnown) messages) = sampleRow messages := fun messages =>
    congrArg (rowOf (sampleLine messages)) (rowDigest_sample sampleKnown messages)
  refine ⟨c, hconvert, ?_⟩
  rw [hrows, hreport, sampleLines_read]
  simp [sampleLine, Conversion.start, Conversion.add, hcalling, hgreeting, hheldBack, hunanswered,
    hdigest.symm, ConvertReport.exclude, ← hrow]

theorem conversion_conserves_sample :
    ∃ c, convertExport (sampleEnv sampleKnown) sampleHeld sampleExport = .ok c ∧
      c.rows = [sampleRow calling, sampleRow greeting] ∧ c.report.read = 5 ∧
      c.report.excluded = ⟨1, 0, 0, 1, 1⟩ ∧
      Conserves (sampleEnv sampleKnown) sampleHeld sampleExport c := by
  obtain ⟨hnodup, hlines, -⟩ := sample_evaluates
  obtain ⟨c, hconvert, hrows, hread, -, hexcluded⟩ := convertExport_sample
  refine ⟨c, hconvert, hrows, hread, hexcluded,
    conversion_conserves _ _ _ _ hconvert fun row hrow => ?_⟩
  have hknown : row.toJson ∈ sampleKnown := by
    rw [hrows] at hrow
    simp only [List.mem_cons, List.not_mem_nil, or_false] at hrow
    rcases hrow with rfl | rfl <;> simp [sampleKnown]
  have ⟨hn, hr, hblank⟩ := hlines _ hknown
  exact readsBack_sample hnodup hknown ⟨hn, hr⟩ hblank

end Conversion

end Federated
end ComputePool
