import ComputePool.Rust.Text

/-!
# Lines

`str::lines`: the text is cut after each newline, and the newline is dropped with a
carriage return before it.  A text that is written line by line reads back as its
lines.
-/

namespace RustStd

/-- `str::split_inclusive('\n')`. -/
def splitInclusive : List Char → List (List Char)
  | [] => []
  | c :: rest =>
      if c = '\n' then [c] :: splitInclusive rest
      else
        match splitInclusive rest with
        | [] => [[c]]
        | line :: lines => (c :: line) :: lines

/-- A line without its end: the carriage return goes only with a newline. -/
def stripEnd (line : List Char) : List Char :=
  match stripSuffix ['\n'] line with
  | none => line
  | some line => (stripSuffix ['\r'] line).getD line

/-- `str::lines`. -/
def lines (text : List Char) : List (List Char) := (splitInclusive text).map stripEnd

/-- `line.trim().is_empty()`. -/
def isBlank (line : List Char) : Bool := (trim line).isEmpty

theorem splitInclusive_line {line : List Char} (h : '\n' ∉ line) (rest : List Char) :
    splitInclusive (line ++ '\n' :: rest) = (line ++ ['\n']) :: splitInclusive rest := by
  induction line with
  | nil =>
      rw [List.nil_append, splitInclusive, if_pos rfl]
      rfl
  | cons c line ih =>
      have hc : c ≠ '\n' := fun heq => h (heq ▸ List.mem_cons_self)
      have hline : '\n' ∉ line := fun hmem => h (List.mem_cons_of_mem _ hmem)
      rw [List.cons_append, splitInclusive, if_neg hc, ih hline]
      rfl

theorem stripSuffix_concat (line : List Char) (c : Char) :
    stripSuffix [c] (line ++ [c]) = some line := by
  unfold stripSuffix
  rw [List.reverse_append]
  change (stripPrefix [c] (c :: line.reverse)).map List.reverse = some line
  rw [stripPrefix, if_pos rfl, stripPrefix, Option.map_some, List.reverse_reverse]

theorem stripSuffix_of_not_mem {line : List Char} {c : Char} (h : c ∉ line) :
    stripSuffix [c] line = none := by
  unfold stripSuffix
  cases hline : line.reverse with
  | nil => rfl
  | cons d rest =>
      have hd : d ∈ line := List.mem_reverse.mp (hline ▸ List.mem_cons_self)
      have hne : c ≠ d := fun heq => h (heq ▸ hd)
      change (stripPrefix [c] (d :: rest)).map List.reverse = none
      rw [stripPrefix, if_neg hne, Option.map_none]

theorem stripEnd_line {line : List Char} (h : '\r' ∉ line) :
    stripEnd (line ++ ['\n']) = line := by
  unfold stripEnd
  rw [stripSuffix_concat]
  dsimp only
  rw [stripSuffix_of_not_mem h, Option.getD_none]

/-- A text written line by line. -/
def unlines (texts : List (List Char)) : List Char := texts.flatMap fun line => line ++ ['\n']

/-- What is written line by line is read back. -/
theorem lines_unlines {texts : List (List Char)}
    (h : ∀ line ∈ texts, '\n' ∉ line ∧ '\r' ∉ line) : lines (unlines texts) = texts := by
  induction texts with
  | nil => rfl
  | cons line rest ih =>
      have hline := h line List.mem_cons_self
      have hrest := ih fun l hl => h l (List.mem_cons_of_mem _ hl)
      have hsplit : unlines (line :: rest) = line ++ '\n' :: unlines rest := by
        unfold unlines
        rw [List.flatMap_cons, List.append_assoc]
        rfl
      unfold lines at hrest ⊢
      rw [hsplit, splitInclusive_line hline.1, List.map_cons, stripEnd_line hline.2, hrest]

end RustStd
