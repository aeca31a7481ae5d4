set_option autoImplicit false

namespace Breadboard

abbrev Text := List Char

namespace Text

/-- The characters with the Unicode property White_Space. -/
def isBlank (c : Char) : Bool :=
  let n := c.toNat
  (0x9 ≤ n && n ≤ 0xD) || n == 0x20 || n == 0x85 || n == 0xA0 || n == 0x1680 ||
    (0x2000 ≤ n && n ≤ 0x200A) || n == 0x2028 || n == 0x2029 || n == 0x202F ||
    n == 0x205F || n == 0x3000

def trimStart (text : Text) : Text :=
  text.dropWhile isBlank

def trimEnd (text : Text) : Text :=
  (text.reverse.dropWhile isBlank).reverse

/-- The text without the blank characters at its two ends. -/
def trim (text : Text) : Text :=
  trimEnd (trimStart text)

def allBlank (text : Text) : Bool :=
  text.all isBlank

/-- Whether `word` occurs in the text as an unbroken run. -/
def occursIn (word : Text) : Text → Bool
  | [] => word.isEmpty
  | c :: rest => word.isPrefixOf (c :: rest) || occursIn word rest

/-- The text before the first occurrence of `word` and the text after it. -/
def splitAtWord? (word : Text) : Text → Option (Text × Text)
  | [] => if word.isEmpty then some ([], []) else none
  | c :: rest =>
    match word.isPrefixOf? (c :: rest) with
    | some after => some ([], after)
    | none => (splitAtWord? word rest).map fun (before, after) => (c :: before, after)

/-- The text's length in UTF-8 bytes. -/
def byteLength : Text → Nat
  | [] => 0
  | c :: rest => c.utf8Size + byteLength rest

/-- The text after its first `count` bytes, if a character starts or the text ends there. -/
def dropBytes? : Text → Nat → Option Text
  | text, 0 => some text
  | [], _ + 1 => none
  | c :: rest, count + 1 =>
    if c.utf8Size ≤ count + 1 then dropBytes? rest (count + 1 - c.utf8Size) else none

/-- The text with each non-overlapping occurrence of `word`, from the left, replaced. -/
def replace (word other : Text) (text : Text) : Text :=
  match text with
  | [] => []
  | c :: rest =>
    match word.isPrefixOf? (c :: rest) with
    | some after =>
      if _ : after.length < (c :: rest).length then other ++ replace word other after
      else c :: replace word other rest
    | none => c :: replace word other rest
termination_by text.length
decreasing_by
  · assumption
  · exact Nat.lt_succ_self _
  · exact Nat.lt_succ_self _

@[simp] theorem byteLength_nil : byteLength [] = 0 := rfl

@[simp] theorem byteLength_cons (c : Char) (text : Text) :
    byteLength (c :: text) = c.utf8Size + byteLength text := rfl

theorem byteLength_append (first second : Text) :
    byteLength (first ++ second) = byteLength first + byteLength second := by
  induction first with
  | nil => simp
  | cons c rest ih => rw [List.cons_append, byteLength_cons, byteLength_cons, ih, Nat.add_assoc]

end Text

end Breadboard
