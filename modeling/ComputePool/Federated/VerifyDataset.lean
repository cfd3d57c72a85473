import ComputePool.Federated.Dataset

/-!
# What the device accepts as a dataset

`verify_dataset` of `fl/runner.rs` reads the same export for its shape only, with
types of its own: it knows fewer fields, and does not mind others.
-/

namespace ComputePool
namespace Federated
namespace Runner

open RustStd

/-- One line of the export, read for shape only. -/
structure ExportMessage where
  role : String
  content : String
  deriving DecidableEq

structure ExportMeta where
  model : String
  verifiers : List String
  deriving DecidableEq

structure ExportLine where
  messages : List ExportMessage
  metadata : ExportMeta
  deriving DecidableEq

def ExportMessage.ofJson (j : Json) : Option ExportMessage := do
  match ← j.slots false ["role", "content"] with
  | [role, content] =>
      let role ← role.required Json.asStr
      let content ← content.required Json.asStr
      some ⟨role, content⟩
  | _ => none

def ExportMeta.ofJson (j : Json) : Option ExportMeta := do
  match ← j.slots false ["model", "verifiers"] with
  | [model, verifiers] =>
      let model ← model.required Json.asStr
      let verifiers ← verifiers.required fun j => j.asVec Json.asStr
      some ⟨model, verifiers⟩
  | _ => none

def ExportLine.ofJson (j : Json) : Option ExportLine := do
  match ← j.slots false ["messages", "metadata"] with
  | [messages, metadata] =>
      let messages ← messages.required fun j => j.asVec ExportMessage.ofJson
      let metadata ← metadata.required ExportMeta.ofJson
      some ⟨messages, metadata⟩
  | _ => none

/-- Why a dataset is refused; a fault is at a line. -/
inductive VerifyError where
  /-- `not UTF-8` -/
  | notUtf8
  /-- `not a trajectory export line`, `no messages`, `role {role} (..)`, `no verifier passed this
  turn; only verified turns may be trained on` -/
  | line (line : Nat) (fault : LineFault)
  /-- `the export has no examples` -/
  | noExamples
  deriving DecidableEq

section

variable (env : DatasetEnv)

def checkLine (lineNo : Nat) (ex : ExportLine) : Except VerifyError Unit :=
  if ex.messages.isEmpty then .error (.line lineNo .noMessages)
  else
    match ex.messages.find? fun m => !isExportRole m.role with
    | some m => .error (.line lineNo (.role m.role))
    | none =>
        if ex.metadata.verifiers.isEmpty then .error (.line lineNo .noVerifier)
        else .ok ()

def readLine (line : List Char) : Option ExportLine :=
  (env.serde.fromText (String.ofList line)).bind ExportLine.ofJson

def verifyLine (n : Nat) (entry : List Char × Nat) : Except VerifyError Nat := do
  let (line, i) := entry
  if isBlank line then .ok n
  else
    let ex ← okOr (readLine env line) (.line (i + 1) .notALine)
    checkLine (i + 1) ex
    .ok (n + 1)

/-- Check a dataset is a verified trajectory export.  Returns its example count. -/
def verifyDataset (bytes : List UInt8) : Except VerifyError Nat := do
  let text ← okOr (fromUtf8 bytes) .notUtf8
  let n ← (lines text.toList).zipIdx.foldlM (verifyLine env) 0
  if n = 0 then .error .noExamples else .ok n

end

/-! ## A written row as the device reads it -/

variable {env : DatasetEnv}

theorem ExportMessage.ofJson_toJson (m : Message) :
    ExportMessage.ofJson m.toJson = some ⟨m.role, m.content⟩ := by
  obtain ⟨role, content, toolCalls, toolCallId⟩ := m
  cases toolCalls with
  | nil =>
      cases toolCallId with
      | none => rfl
      | some id => rfl
  | cons call rest =>
      cases toolCallId with
      | none => rfl
      | some id => rfl

theorem ExportMeta.ofJson_toJson (m : RowMeta) :
    ExportMeta.ofJson m.toJson = some ⟨m.model, m.verifiers⟩ := by
  have hverifiers : (m.verifiers.map Json.string).mapM Json.asStr = some m.verifiers := by
    have hread := @mapM_map_eq_some _ _ _ Json.string Json.asStr id m.verifiers
      fun _ _ => rfl
    rwa [List.map_id] at hread
  change ((m.verifiers.map Json.string).mapM Json.asStr).bind
    (fun verifiers => some (⟨m.model, verifiers⟩ : ExportMeta)) = _
  rw [hverifiers]
  rfl

/-- The device reads of a row what it needs, and finds the row's own. -/
theorem ExportLine.ofJson_toJson (r : TrainerRow) :
    ExportLine.ofJson r.toJson =
      some ⟨r.messages.map fun m => ⟨m.role, m.content⟩,
        ⟨r.metadata.model, r.metadata.verifiers⟩⟩ := by
  have hmessages : (r.messages.map Message.toJson).mapM ExportMessage.ofJson =
      some (r.messages.map fun m => ⟨m.role, m.content⟩) :=
    mapM_map_eq_some fun m _ => ExportMessage.ofJson_toJson m
  change ((r.messages.map Message.toJson).mapM ExportMessage.ofJson).bind
    (fun messages => (ExportMeta.ofJson r.metadata.toJson).bind
      fun metadata => some (⟨messages, metadata⟩ : ExportLine)) = _
  rw [hmessages, ExportMeta.ofJson_toJson]
  rfl

end Runner
end Federated
end ComputePool
