import ComputePool.Rust.Json

/-!
# Derived serialisation

What `#[derive(Deserialize)]` makes of a JSON value for a structure with named
fields: an object gives the fields by name, an array gives them by position.  The
text syntax is `serde_json`'s own and a parameter; so are the texts of its errors.
-/

namespace RustStd

/-- `serde_json` on texts: `to_string`, the reading of a text as a sequence of JSON
tokens, and whether `from_str::<Value>` gives an object. -/
structure SerdeJson where
  toText : Json → String
  fromText : String → Option Json
  isObject : String → Bool

/-- What is found for a field: a value, nothing under its name, or the end of the
array. -/
inductive Slot where
  | value (j : Json)
  | missing
  | ended

namespace Json

/-- The fields of a structure.  An object may not name a field twice, nor, under
`deny_unknown_fields`, any other; an array may not go on past the last field. -/
def slots (deny : Bool) (fields : List String) : Json → Option (List Slot)
  | object members =>
      if deny && members.any (fun m => !fields.contains m.1) then none
      else if fields.any (fun f => decide (1 < members.countP fun m => m.1 == f)) then none
      else some (fields.map fun f =>
        match members.find? fun m => m.1 == f with
        | some m => .value m.2
        | none => .missing)
  | array items =>
      if fields.length < items.length then none
      else some (fields.zipIdx.map fun f =>
        match items[f.2]? with
        | some j => .value j
        | none => .ended)
  | _ => none

/-- `Vec<T>`. -/
def asVec {α : Type} (read : Json → Option α) : Json → Option (List α)
  | array items => items.mapM read
  | _ => none

/-- `Option<T>`. -/
def asOption {α : Type} (read : Json → Option α) : Json → Option (Option α)
  | null => some none
  | j => (read j).map some

end Json

namespace Slot

variable {α : Type}

/-- A field that must be there. -/
def required (read : Json → Option α) : Slot → Option α
  | value j => read j
  | _ => none

/-- A field with `#[serde(default)]`. -/
def orDefault (dflt : α) (read : Json → Option α) : Slot → Option α
  | value j => read j
  | _ => some dflt

/-- An `Option` field: only an object may leave it out. -/
def optional (read : Json → Option α) : Slot → Option (Option α)
  | value j => j.asOption read
  | missing => some none
  | ended => none

end Slot

/-- A list that is written item by item is read item by item. -/
theorem mapM_map_eq_some {α β γ : Type} {write : α → β} {read : β → Option γ} {f : α → γ}
    {items : List α} (h : ∀ a ∈ items, read (write a) = some (f a)) :
    (items.map write).mapM read = some (items.map f) := by
  induction items with
  | nil => rfl
  | cons a rest ih =>
      have hrest := ih fun b hb => h b (List.mem_cons_of_mem _ hb)
      rw [List.map_cons, List.mapM_cons, h a List.mem_cons_self, hrest]
      rfl

/-! ## The text of a document without numbers and other control characters -/

/-- A character inside a string of a JSON text. -/
def escapeChar (c : Char) : List Char :=
  if c = '\"' then ['\\', '\"']
  else if c = '\\' then ['\\', '\\']
  else if c = '\n' then ['\\', 'n']
  else if c = '\r' then ['\\', 'r']
  else if c = '\t' then ['\\', 't']
  else [c]

def quoted (s : String) : List Char := '\"' :: s.toList.flatMap escapeChar ++ ['\"']

mutual

/-- The compact text of a value; the text of a number is left out. -/
def Json.compact : Json → List Char
  | .null => ['n', 'u', 'l', 'l']
  | .bool true => ['t', 'r', 'u', 'e']
  | .bool false => ['f', 'a', 'l', 's', 'e']
  | .number _ => []
  | .string s => quoted s
  | .array items => '[' :: [','].intercalate (Json.compactItems items) ++ [']']
  | .object members => '{' :: [','].intercalate (Json.compactMembers members) ++ ['}']

def Json.compactItems : List Json → List (List Char)
  | [] => []
  | j :: rest => j.compact :: Json.compactItems rest

def Json.compactMembers : List (String × Json) → List (List Char)
  | [] => []
  | (key, j) :: rest => (quoted key ++ ':' :: j.compact) :: Json.compactMembers rest

end

/-- `serde_json` where it meets no texts but those of the given values. -/
def SerdeJson.on (known : List Json) : SerdeJson where
  toText j := String.ofList j.compact
  fromText s := known.find? fun j => s.toList == j.compact
  isObject s :=
    match known.find? fun j => s.toList == j.compact with
    | some (.object _) => true
    | _ => false

namespace SerdeJson

/-- The text of a known value gives that value, where no two have one text. -/
theorem on_fromText {known : List Json} (hnodup : (known.map Json.compact).Nodup) {j : Json}
    (h : j ∈ known) : (SerdeJson.on known).fromText (String.ofList j.compact) = some j := by
  unfold SerdeJson.on
  dsimp only
  rw [String.toList_ofList]
  induction known with
  | nil => cases h
  | cons first rest ih =>
      rw [List.map_cons, List.nodup_cons] at hnodup
      by_cases hsame : j.compact = first.compact
      · rcases List.mem_cons.mp h with rfl | hrest
        · exact List.find?_cons_of_pos (beq_self_eq_true _)
        · exact absurd (hsame ▸ List.mem_map_of_mem hrest) hnodup.1
      · rw [List.find?_cons_of_neg (by rwa [beq_iff_eq])]
        rcases List.mem_cons.mp h with rfl | hrest
        · exact absurd rfl hsame
        · exact ih hnodup.2 hrest

end SerdeJson

end RustStd
