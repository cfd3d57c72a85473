import ComputePool.Rust.Bytes

/-!
# The layout of ABI-encoded values

A sequence of values is encoded as its heads, a word each, and its tails: a word stands
in its head; a byte string and a list of words stand in the tail, behind their length,
and the head holds the offset of the tail from the start of the sequence.  Byte strings
are padded with zeros to whole words.
-/

namespace AbiLayout

open RustStd

/-- A value of a sequence. -/
inductive Component where
  | word (w : List UInt8)
  | bytes (b : List UInt8)
  | words (ws : List (List UInt8))

/-- The type of a value. -/
inductive Kind where
  | word
  | bytes
  | words
  deriving DecidableEq

namespace Component

def kind : Component → Kind
  | word _ => .word
  | bytes _ => .bytes
  | words _ => .words

/-- Words have 32 bytes. -/
def Fits : Component → Prop
  | word w => w.length = 32
  | bytes _ => True
  | words ws => ∀ w ∈ ws, w.length = 32

/-- The zeros behind a byte string. -/
def padding (n : Nat) : Nat := (32 - n % 32) % 32

def tail : Component → List UInt8
  | word _ => []
  | bytes b => toBE 32 b.length ++ (b ++ List.replicate (padding b.length) 0)
  | words ws => toBE 32 ws.length ++ ws.flatten

@[simp] theorem tail_word (w : List UInt8) : (word w).tail = [] := rfl

/-- The head of a value whose tail is at an offset. -/
def head (offset : Nat) : Component → List UInt8
  | word w => w
  | bytes _ => toBE 32 offset
  | words _ => toBE 32 offset

theorem head_length {c : Component} (h : c.Fits) (offset : Nat) : (c.head offset).length = 32 := by
  cases c with
  | word w => exact h
  | bytes b => exact toBE_length 32 offset
  | words ws => exact toBE_length 32 offset

end Component

open Component

/-- The heads of values whose tails start at an offset. -/
def heads : Nat → List Component → List UInt8
  | _, [] => []
  | offset, c :: cs => c.head offset ++ heads (offset + c.tail.length) cs

def tails (cs : List Component) : List UInt8 := cs.flatMap tail

/-- The standard encoding of a sequence. -/
def encode (cs : List Component) : List UInt8 := heads (32 * cs.length) cs ++ tails cs

/-! ## Decoding -/

def wordAt (data : List UInt8) (pos : Nat) : Option (List UInt8) :=
  if pos + 32 ≤ data.length then some ((data.drop pos).take 32) else none

/-- The byte string behind the length at a position. -/
def bytesAt (data : List UInt8) (pos : Nat) : Option (List UInt8) :=
  (wordAt data pos).bind fun w =>
    if pos + 32 + beNat w ≤ data.length then some ((data.drop (pos + 32)).take (beNat w)) else none

/-- So many words from a position on. -/
def wordList (data : List UInt8) : Nat → Nat → Option (List (List UInt8))
  | 0, _ => some []
  | n + 1, pos =>
      (wordAt data pos).bind fun w => (wordList data n (pos + 32)).map fun ws => w :: ws

/-- The words behind their number at a position. -/
def wordsAt (data : List UInt8) (pos : Nat) : Option (List (List UInt8)) :=
  (wordAt data pos).bind fun w => wordList data (beNat w) (pos + 32)

/-- The value whose head is at a position. -/
def decodeAt (data : List UInt8) (pos : Nat) : Kind → Option Component
  | .word => (wordAt data pos).map .word
  | .bytes => (wordAt data pos).bind fun w => (bytesAt data (beNat w)).map .bytes
  | .words => (wordAt data pos).bind fun w => (wordsAt data (beNat w)).map .words

/-- The values whose heads are from a position on. -/
def decodeFrom (data : List UInt8) : Nat → List Kind → Option (List Component)
  | _, [] => some []
  | pos, k :: ks =>
      (decodeAt data pos k).bind fun c => (decodeFrom data (pos + 32) ks).map fun cs => c :: cs

/-- The standard decoding of a sequence of values of given types. -/
def decode (kinds : List Kind) (data : List UInt8) : Option (List Component) :=
  decodeFrom data 0 kinds

/-! ## Where heads and tails are -/

variable {cs front back : List Component} {c : Component} {start : Nat}

theorem tails_append (front back : List Component) :
    tails (front ++ back) = tails front ++ tails back :=
  List.flatMap_append

@[simp] theorem tails_nil : tails [] = [] := rfl

@[simp] theorem tails_cons (c : Component) (cs : List Component) :
    tails (c :: cs) = c.tail ++ tails cs := rfl

theorem heads_append (front back : List Component) (start : Nat) :
    heads start (front ++ back) = heads start front ++ heads (start + (tails front).length) back := by
  induction front generalizing start with
  | nil => rfl
  | cons c front ih =>
      rw [List.cons_append, heads, heads, ih, tails_cons, List.length_append, Nat.add_assoc,
        List.append_assoc]

theorem heads_length (h : ∀ c ∈ cs, c.Fits) (start : Nat) :
    (heads start cs).length = 32 * cs.length := by
  induction cs generalizing start with
  | nil => rfl
  | cons c cs ih =>
      rw [heads, List.length_append, head_length (h c List.mem_cons_self),
        ih fun d hd => h d (List.mem_cons_of_mem _ hd), List.length_cons]
      omega

theorem encode_length (h : ∀ c ∈ cs, c.Fits) :
    (encode cs).length = 32 * cs.length + (tails cs).length := by
  rw [encode, List.length_append, heads_length h]

/-- Where the tail of the value behind some others starts. -/
def offset (front back : List Component) : Nat :=
  32 * (front.length + 1 + back.length) + (tails front).length

/-- An encoding is what stands before a head, the head, and what stands behind it. -/
theorem encode_at_head (h : ∀ d ∈ front ++ c :: back, d.Fits) :
    ∃ before after, encode (front ++ c :: back) =
      before ++ (c.head (offset front back) ++ after) ∧ before.length = 32 * front.length := by
  have hcount : (front ++ c :: back).length = front.length + 1 + back.length := by
    simp
    omega
  refine ⟨heads (32 * (front ++ c :: back).length) front,
    heads (offset front back + c.tail.length) back ++ tails (front ++ c :: back), ?_,
    heads_length (fun d hd => h d (List.mem_append_left _ hd)) _⟩
  rw [encode, heads_append, heads, offset, ← hcount, List.append_assoc, List.append_assoc]

/-- The tail of a value is at its offset. -/
theorem encode_at_tail (h : ∀ d ∈ front ++ c :: back, d.Fits) :
    ∃ before, encode (front ++ c :: back) = before ++ (c.tail ++ tails back) ∧
      before.length = offset front back := by
  have hcount : (front ++ c :: back).length = front.length + 1 + back.length := by
    simp
    omega
  refine ⟨heads (32 * (front ++ c :: back).length) (front ++ c :: back) ++ tails front, ?_, ?_⟩
  · rw [encode, tails_append, tails_cons, List.append_assoc]
  · rw [List.length_append, heads_length h, offset, hcount]

/-! ## Reading what was written -/

theorem wordAt_append (before w after : List UInt8) (hw : w.length = 32) :
    wordAt (before ++ (w ++ after)) before.length = some w := by
  unfold wordAt
  rw [if_pos (by simp; omega), List.drop_left, List.take_append_of_le_length (by omega),
    List.take_of_length_le (by omega)]

/-- A word of a list of words. -/
theorem wordAt_words {before after : List UInt8} {ws : List (List UInt8)} {i pos : Nat}
    (hws : ∀ w ∈ ws, w.length = 32) (hi : i < ws.length) (hpos : pos = before.length + i * 32) :
    wordAt (before ++ (ws.flatten ++ after)) pos = some ws[i] := by
  have hsum : (ws.take i).flatten.length = i * 32 := by
    rw [List.length_flatten, List.map_congr_left fun w hw => hws w (List.mem_of_mem_take hw),
      List.map_const', List.sum_replicate, List.length_take, smul_eq_mul, Nat.min_eq_left hi.le]
  have hsplit : ws.flatten = (ws.take i).flatten ++ (ws[i] ++ (ws.drop (i + 1)).flatten) := by
    conv_lhs => rw [← List.take_append_drop i ws, List.drop_eq_getElem_cons hi]
    rw [List.flatten_append, List.flatten_cons]
  have hplace : before ++ (ws.flatten ++ after) =
      (before ++ (ws.take i).flatten) ++ (ws[i] ++ ((ws.drop (i + 1)).flatten ++ after)) := by
    rw [hsplit]
    simp only [List.append_assoc]
  rw [hplace, hpos, ← hsum, ← List.length_append, wordAt_append _ _ _ (hws _ (List.getElem_mem hi))]

theorem bytesAt_append (before b after : List UInt8) (hb : b.length < 256 ^ 32) :
    bytesAt (before ++ (toBE 32 b.length ++ (b ++ after))) before.length = some b := by
  have hlen : (before ++ toBE 32 b.length).length = before.length + 32 := by simp
  unfold bytesAt
  rw [wordAt_append _ _ _ (toBE_length 32 _), Option.bind_some, beNat_toBE hb,
    if_pos (by simp; omega), ← List.append_assoc before, ← hlen, List.drop_left,
    List.take_left]

theorem wordList_append (before : List UInt8) (ws : List (List UInt8)) (after : List UInt8)
    (hws : ∀ w ∈ ws, w.length = 32) :
    wordList (before ++ (ws.flatten ++ after)) ws.length before.length = some ws := by
  induction ws generalizing before with
  | nil => rfl
  | cons w ws ih =>
      have hw : w.length = 32 := hws w List.mem_cons_self
      have hbefore : (before ++ w).length = before.length + 32 := by
        rw [List.length_append, hw]
      have hrest := ih (before ++ w) fun v hv => hws v (List.mem_cons_of_mem _ hv)
      rw [hbefore, List.append_assoc] at hrest
      rw [List.flatten_cons, List.append_assoc, List.length_cons, wordList,
        wordAt_append _ _ _ hw, Option.bind_some, hrest, Option.map_some]

theorem wordsAt_append (before : List UInt8) (ws : List (List UInt8)) (after : List UInt8)
    (hws : ∀ w ∈ ws, w.length = 32) (hlen : ws.length < 256 ^ 32) :
    wordsAt (before ++ (toBE 32 ws.length ++ (ws.flatten ++ after))) before.length = some ws := by
  have hbefore : (before ++ toBE 32 ws.length).length = before.length + 32 := by simp
  unfold wordsAt
  rw [wordAt_append _ _ _ (toBE_length 32 _), Option.bind_some, beNat_toBE hlen,
    ← List.append_assoc before, ← hbefore, wordList_append _ _ _ hws]

/-! ## Decoding what was encoded -/

/-- The head of a value is in the word of its place. -/
theorem wordAt_encode (h : ∀ d ∈ front ++ c :: back, d.Fits) :
    wordAt (encode (front ++ c :: back)) (32 * front.length) =
      some (c.head (offset front back)) := by
  obtain ⟨before, after, hhead, hbefore⟩ := encode_at_head h
  rw [hhead, ← hbefore, wordAt_append _ _ _ (head_length (h c (by simp)) _)]

/-- Before the tail of a value are the heads and the tails before it, behind it the tails
behind it. -/
theorem encode_length_at (h : ∀ d ∈ front ++ c :: back, d.Fits) :
    (encode (front ++ c :: back)).length =
      offset front back + c.tail.length + (tails back).length := by
  obtain ⟨before, htail, hbefore⟩ := encode_at_tail h
  rw [htail, List.length_append, List.length_append, hbefore, Nat.add_assoc]

theorem take_tail (h : ∀ d ∈ front ++ c :: back, d.Fits) :
    ((encode (front ++ c :: back)).drop (offset front back)).take c.tail.length = c.tail := by
  obtain ⟨before, htail, hbefore⟩ := encode_at_tail h
  rw [htail, ← hbefore, List.drop_left, List.take_left]

/-- Each value is read back at its head. -/
theorem decodeAt_encode (h : ∀ d ∈ front ++ c :: back, d.Fits)
    (hlen : (encode (front ++ c :: back)).length < 256 ^ 32) :
    decodeAt (encode (front ++ c :: back)) (32 * front.length) c.kind = some c := by
  obtain ⟨before', htail, hbefore'⟩ := encode_at_tail h
  have hc : c.Fits := h c (by simp)
  have hword := wordAt_encode h
  have hall := encode_length_at h
  have hoffset : beNat (toBE 32 (offset front back)) = offset front back :=
    beNat_toBE (by omega)
  cases c with
  | word w =>
      rw [kind, decodeAt, hword]
      rfl
  | bytes b =>
      have hb : b.length < 256 ^ 32 := by
        simp only [tail, List.length_append, toBE_length] at hall
        omega
      rw [kind, decodeAt, hword, Option.bind_some, head, hoffset, htail, tail, List.append_assoc,
        List.append_assoc, ← hbefore', bytesAt_append _ _ _ hb, Option.map_some]
  | words ws =>
      have hcount : ws.length ≤ ws.flatten.length := by
        rw [List.length_flatten, List.map_congr_left hc, List.map_const', List.sum_replicate,
          smul_eq_mul]
        omega
      have hws : ws.length < 256 ^ 32 := by
        simp only [tail, List.length_append, toBE_length] at hall
        omega
      rw [kind, decodeAt, hword, Option.bind_some, head, hoffset, htail, tail, List.append_assoc,
        ← hbefore', wordsAt_append _ _ _ hc hws, Option.map_some]

theorem decodeFrom_encode (h : ∀ d ∈ front ++ back, d.Fits)
    (hlen : (encode (front ++ back)).length < 256 ^ 32) :
    decodeFrom (encode (front ++ back)) (32 * front.length) (back.map kind) = some back := by
  induction back generalizing front with
  | nil => rfl
  | cons c back ih =>
      have happ : front ++ c :: back = (front ++ [c]) ++ back := by simp
      have hrest := @ih (front ++ [c]) (by rwa [← happ]) (by rwa [← happ])
      rw [← happ, List.length_append, List.length_singleton, Nat.mul_add, Nat.mul_one] at hrest
      rw [List.map_cons, decodeFrom, decodeAt_encode h hlen, Option.bind_some, hrest,
        Option.map_some]

/-- Standard decoding recovers what was encoded. -/
theorem decode_encode (h : ∀ d ∈ cs, d.Fits) (hlen : (encode cs).length < 256 ^ 32) :
    decode (cs.map kind) (encode cs) = some cs :=
  @decodeFrom_encode [] cs h hlen

end AbiLayout
