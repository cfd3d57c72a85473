import ComputePool.Federated.Basic
import ComputePool.Rust.Collections
import ComputePool.Rust.Lines
import ComputePool.Rust.Result
import ComputePool.Rust.Serde

/-!
# Trainer rows from a verified trajectory export

`fl/dataset.rs`.  Every line of the export is read, checked and judged; what is kept
is written once, with the messages as the exporter wrote them, and everything that
is left out is counted under its reason.
-/

namespace ComputePool
namespace Federated

open RustStd

def ROW_FORMAT : String := "citrate-fl-sft-v1"
def TOOL_SCHEMA : String := "parity-v1"
def SOURCE_HERMES : String := "hermes-verified"

/-- The core-hosted tool surface the shipping agent offers. -/
def PARITY_V1_TOOLS : List String :=
  ["memory_search", "memory_recall", "app_navigate", "memory_assert", "journal_append",
    "journal_read", "node_status", "staking_status", "groups_list", "group_roster",
    "group_create", "group_invite", "directory_find", "skills_list", "skill_write",
    "skill_run", "widget_create", "models_list", "contract_deploy", "get_verified_source",
    "contract_view", "fl_round_plan", "fl_round_start", "belnap_codec", "gsheets_read",
    "gsheets_append", "schedule_list", "schedule_add", "calendar_list"]

/-- What the conversion takes from elsewhere: the hashes, `serde_json`, and the
Unicode tables behind `str::to_lowercase` and `char::is_alphanumeric`. -/
structure DatasetEnv where
  hashes : Hashes
  serde : SerdeJson
  toLowercase : List Char → List Char
  isAlphanumeric : Char → Bool

/-- What is wrong with a line of the export. -/
inductive LineFault where
  /-- The error of `serde_json`. -/
  | notALine
  /-- `no messages` -/
  | noMessages
  /-- `role {role} (the export never carries a system prompt)` -/
  | role (role : String)
  /-- `an exported turn starts with the member's message` -/
  | firstMessage
  /-- `no verifier passed this turn` -/
  | noVerifier
  deriving DecidableEq

inductive DatasetError where
  | notUtf8
  | badLine (line : Nat) (detail : LineFault)
  deriving DecidableEq

/-! ## The rows -/

structure Function where
  name : String
  arguments : String
  deriving DecidableEq

structure ToolCall where
  id : String
  /-- `type` -/
  kind : String
  function : Function
  deriving DecidableEq

/-- One message, exactly as the exporter wrote it. -/
structure Message where
  role : String
  content : String
  toolCalls : List ToolCall
  toolCallId : Option String
  deriving DecidableEq

structure ExportMeta where
  model : String
  workflow : Option String
  step : Option String
  verifiers : List String
  deriving DecidableEq

structure ExportLine where
  messages : List Message
  metadata : ExportMeta
  deriving DecidableEq

structure RowMeta where
  model : String
  workflow : Option String
  step : Option String
  verifiers : List String
  format : String
  toolSchema : String
  source : String
  split : String
  exampleId : String
  deriving DecidableEq

/-- One trainer input row. -/
structure TrainerRow where
  messages : List Message
  tools : List String
  metadata : RowMeta
  deriving DecidableEq

/-! ## Reading the export: every structure denies unknown fields -/

def Function.ofJson (j : Json) : Option Function := do
  match ← j.slots true ["name", "arguments"] with
  | [name, arguments] =>
      let name ← name.required Json.asStr
      let arguments ← arguments.required Json.asStr
      some ⟨name, arguments⟩
  | _ => none

def ToolCall.ofJson (j : Json) : Option ToolCall := do
  match ← j.slots true ["id", "type", "function"] with
  | [id, kind, function] =>
      let id ← id.required Json.asStr
      let kind ← kind.required Json.asStr
      let function ← function.required Function.ofJson
      some ⟨id, kind, function⟩
  | _ => none

def Message.ofJson (j : Json) : Option Message := do
  match ← j.slots true ["role", "content", "tool_calls", "tool_call_id"] with
  | [role, content, toolCalls, toolCallId] =>
      let role ← role.required Json.asStr
      let content ← content.required Json.asStr
      let toolCalls ← toolCalls.orDefault [] fun j => j.asVec ToolCall.ofJson
      let toolCallId ← toolCallId.orDefault none fun j => j.asOption Json.asStr
      some ⟨role, content, toolCalls, toolCallId⟩
  | _ => none

def ExportMeta.ofJson (j : Json) : Option ExportMeta := do
  match ← j.slots true ["model", "workflow", "step", "verifiers"] with
  | [model, workflow, step, verifiers] =>
      let model ← model.required Json.asStr
      let workflow ← workflow.optional Json.asStr
      let step ← step.optional Json.asStr
      let verifiers ← verifiers.required fun j => j.asVec Json.asStr
      some ⟨model, workflow, step, verifiers⟩
  | _ => none

def ExportLine.ofJson (j : Json) : Option ExportLine := do
  match ← j.slots true ["messages", "metadata"] with
  | [messages, metadata] =>
      let messages ← messages.required fun j => j.asVec Message.ofJson
      let metadata ← metadata.required ExportMeta.ofJson
      some ⟨messages, metadata⟩
  | _ => none

/-! ## Writing the rows -/

def Function.toJson (f : Function) : Json :=
  .object [("name", .string f.name), ("arguments", .string f.arguments)]

def ToolCall.toJson (c : ToolCall) : Json :=
  .object [("id", .string c.id), ("type", .string c.kind), ("function", c.function.toJson)]

/-- An empty list of calls and an absent call id are left out. -/
def Message.toJson (m : Message) : Json :=
  .object ([("role", .string m.role), ("content", .string m.content)] ++
    (if m.toolCalls.isEmpty then []
      else [("tool_calls", .array (m.toolCalls.map ToolCall.toJson))]) ++
    (match m.toolCallId with
      | none => []
      | some id => [("tool_call_id", .string id)]))

def messagesToJson (messages : List Message) : Json := .array (messages.map Message.toJson)

def optionToJson : Option String → Json
  | none => .null
  | some s => .string s

def RowMeta.toJson (m : RowMeta) : Json :=
  .object
    [("model", .string m.model), ("workflow", optionToJson m.workflow),
      ("step", optionToJson m.step), ("verifiers", .array (m.verifiers.map .string)),
      ("format", .string m.format), ("tool_schema", .string m.toolSchema),
      ("source", .string m.source), ("split", .string m.split),
      ("example_id", .string m.exampleId)]

def TrainerRow.toJson (r : TrainerRow) : Json :=
  .object
    [("messages", messagesToJson r.messages), ("tools", .array (r.tools.map .string)),
      ("metadata", r.metadata.toJson)]

/-! ## The conversion -/

/-- Why examples were left out. -/
structure Excluded where
  heldOut : Nat
  offSchema : Nat
  badArguments : Nat
  unpairedToolResult : Nat
  duplicate : Nat
  deriving DecidableEq

/-- What a conversion did. -/
structure ConvertReport where
  format : String
  heldOutDataset : String
  heldOutItems : Nat
  read : Nat
  written : Nat
  excluded : Excluded
  /-- Tool calls per tool across the written rows. -/
  toolCalls : BTreeMap String Nat

structure Converted where
  rows : List TrainerRow
  report : ConvertReport

/-- The prompts a training set must not contain, as hashes of their normalized
text. -/
structure HeldOut where
  dataset : String
  hashes : Finset B32

/-- `str::split_whitespace`. -/
def splitWhitespace (s : List Char) : List (List Char) :=
  (s.splitOnP isWhiteSpace).filter fun word => !word.isEmpty

section

variable (env : DatasetEnv)

def normalizePrompt (s : String) : String :=
  let lowered := env.toLowercase s.toList
  let mapped := lowered.map fun c => if env.isAlphanumeric c then c else ' '
  String.ofList ([' '].intercalate (splitWhitespace mapped))

/-- Whether `text` normalizes to a held-out prompt. -/
def HeldOut.containsPrompt (held : HeldOut) (text : String) : Bool :=
  decide (env.hashes.sha256 (utf8 (normalizePrompt env text)) ∈ held.hashes)

inductive Verdict where
  | keep
  | heldOut
  | offSchema
  | badArguments
  | unpaired
  deriving DecidableEq

end

/-- The tool calls of a conversation, in order. -/
def toolCallsOf (messages : List Message) : List ToolCall := messages.flatMap Message.toolCalls

/-- The tool messages of a conversation. -/
def toolMessages (messages : List Message) : List Message :=
  messages.filter fun m => m.role == "tool"

section

variable (env : DatasetEnv) (held : HeldOut)

def judge (messages : List Message) : Verdict :=
  if messages.any fun m => m.role == "user" && held.containsPrompt env m.content then .heldOut
  else if (toolCallsOf messages).any fun c => !PARITY_V1_TOOLS.contains c.function.name then
    .offSchema
  else if (toolCallsOf messages).any fun c => !env.serde.isObject c.function.arguments then
    .badArguments
  else
    let callIds := ((toolCallsOf messages).map ToolCall.id).toFinset
    let answered := ((toolMessages messages).filterMap Message.toolCallId).toFinset
    if answered ≠ callIds ∨ (toolMessages messages).length ≠ callIds.card then .unpaired
    else .keep

def isExportRole (role : String) : Bool :=
  role == "user" || role == "assistant" || role == "tool"

def checkLine (lineNo : Nat) (ex : ExportLine) : Except DatasetError Unit :=
  match ex.messages with
  | [] => .error (.badLine lineNo .noMessages)
  | first :: _ =>
      match ex.messages.find? fun m => !isExportRole m.role with
      | some m => .error (.badLine lineNo (.role m.role))
      | none =>
          if first.role ≠ "user" then .error (.badLine lineNo .firstMessage)
          else if ex.metadata.verifiers.isEmpty then .error (.badLine lineNo .noVerifier)
          else .ok ()

/-- The variables of the conversion's loop. -/
structure Conversion where
  seen : Finset B32
  rows : List TrainerRow
  report : ConvertReport

/-- The digest that tells two rows apart. -/
def rowDigest (messages : List Message) : B32 :=
  env.hashes.sha256 (utf8 (env.serde.toText (messagesToJson messages)))

/-- `*tool_calls.entry(name).or_default() += 1`, for every call. -/
def countCalls (counts : BTreeMap String Nat) (messages : List Message) : BTreeMap String Nat :=
  (toolCallsOf messages).foldl
    (fun counts c => counts.insert c.function.name ((counts[c.function.name]?).getD 0 + 1)) counts

def rowOf (ex : ExportLine) (id : B32) : TrainerRow where
  messages := ex.messages
  tools := PARITY_V1_TOOLS
  metadata :=
    { model := ex.metadata.model
      workflow := ex.metadata.workflow
      step := ex.metadata.step
      verifiers := ex.metadata.verifiers
      format := ROW_FORMAT
      toolSchema := TOOL_SCHEMA
      source := SOURCE_HERMES
      split := "train"
      exampleId := hexEncode id.toBytes }

def ConvertReport.exclude (report : ConvertReport) (f : Excluded → Excluded) : ConvertReport :=
  { report with excluded := f report.excluded }

namespace Conversion

/-- The loop on a line that has passed its check. -/
def add (acc : Conversion) (ex : ExportLine) : Conversion :=
  let report := { acc.report with read := acc.report.read + 1 }
  match judge env held ex.messages with
  | .heldOut =>
      { acc with report := report.exclude fun e => { e with heldOut := e.heldOut + 1 } }
  | .offSchema =>
      { acc with report := report.exclude fun e => { e with offSchema := e.offSchema + 1 } }
  | .badArguments =>
      { acc with report := report.exclude fun e => { e with badArguments := e.badArguments + 1 } }
  | .unpaired =>
      { acc with
        report := report.exclude fun e =>
          { e with unpairedToolResult := e.unpairedToolResult + 1 } }
  | .keep =>
      let id := rowDigest env ex.messages
      if id ∈ acc.seen then
        { acc with report := report.exclude fun e => { e with duplicate := e.duplicate + 1 } }
      else
        { seen := insert id acc.seen
          rows := acc.rows ++ [rowOf ex id]
          report :=
            { report with
              toolCalls := countCalls report.toolCalls ex.messages
              written := report.written + 1 } }

end Conversion

/-- One line of the export. -/
def readLine (line : List Char) : Option ExportLine :=
  (env.serde.fromText (String.ofList line)).bind ExportLine.ofJson

def convertLine (acc : Conversion) (entry : List Char × Nat) :
    Except DatasetError Conversion := do
  let (line, i) := entry
  if isBlank line then .ok acc
  else
    let ex ← okOr (readLine env line) (.badLine (i + 1) .notALine)
    checkLine (i + 1) ex
    .ok (acc.add env held ex)

def Conversion.start : Conversion where
  seen := ∅
  rows := []
  report :=
    { format := ROW_FORMAT
      heldOutDataset := held.dataset
      heldOutItems := held.hashes.card
      read := 0
      written := 0
      excluded := ⟨0, 0, 0, 0, 0⟩
      toolCalls := ∅ }

/-- Convert a verified trajectory export into trainer rows. -/
def convertExport (export_ : List UInt8) : Except DatasetError Converted := do
  let text ← okOr (fromUtf8 export_) .notUtf8
  let done ← (lines text.toList).zipIdx.foldlM (convertLine env held) (Conversion.start held)
  .ok ⟨done.rows, done.report⟩

end

/-- One JSON object per line. -/
def Converted.toJsonl (env : DatasetEnv) (c : Converted) : String :=
  String.ofList (unlines (c.rows.map fun r => (env.serde.toText r.toJson).toList))

end Federated
end ComputePool
