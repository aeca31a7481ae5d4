import Breadboard.Proofs.Sketch.Lexeme

set_option autoImplicit false

/- Cutting the UTF-8 bytes of a text. The cutter looks at single bytes, one ahead at most, and takes a byte for
a character only if it is one alone. It makes the same cuts as the lexer, so none of them falls inside a
character. -/
namespace Breadboard.Text

/-- The text in UTF-8. -/
def utf8 (text : Text) : List UInt8 :=
  text.flatMap String.utf8EncodeChar

@[simp] theorem utf8_nil : utf8 [] = [] := rfl

@[simp] theorem utf8_cons (c : Char) (rest : Text) :
    utf8 (c :: rest) = String.utf8EncodeChar c ++ utf8 rest := rfl

@[simp] theorem utf8_append (first second : Text) :
    utf8 (first ++ second) = utf8 first ++ utf8 second := by
  simp [utf8]

theorem length_utf8 (text : Text) : (utf8 text).length = byteLength text := by
  induction text with
  | nil => rfl
  | cons c rest ih => rw [utf8_cons, List.length_append, String.length_utf8EncodeChar, ih, byteLength_cons]

end Breadboard.Text

namespace Breadboard.Sketch

open Text (utf8 byteLength)

/-- The character that a byte is alone. -/
def asciiChar? (byte : UInt8) : Option Char :=
  if byte.toNat < 128 then some (Char.ofNat byte.toNat) else none

/-- Whether a byte goes on with the character that an earlier byte starts. -/
def isTrailing (byte : UInt8) : Bool :=
  128 ≤ byte.toNat && byte.toNat < 192

/-- The number of leading bytes that satisfy `p`. -/
def byteRun (p : UInt8 → Bool) (bytes : List UInt8) : Nat :=
  (bytes.takeWhile p).length

/-- The bytes of a block comment after the opening mark. -/
def blockBytes : List UInt8 → Nat
  | [] => 0
  | byte :: rest =>
    if asciiChar? byte = some '*' ∧ rest.head?.bind asciiChar? = some '/' then 2
    else blockBytes rest + 1

/-- The bytes of a literal after the opening quote. A backslash takes the next byte with it. -/
def literalBytes (quote : Char) : List UInt8 → Nat
  | [] => 0
  | [_] => 1
  | byte :: next :: rest =>
    if asciiChar? byte = some '\\' then literalBytes quote rest + 2
    else if asciiChar? byte = some quote ∨ asciiChar? byte = some '\n' then 1
    else literalBytes quote (next :: rest) + 1

/-- The kind of the token that starts with a byte, and how many of the bytes after it belong to it. -/
def scanBytes (byte : UInt8) (rest : List UInt8) : TokenKind × Nat :=
  match asciiChar? byte with
  | none => (.punct, byteRun isTrailing rest)
  | some c =>
    let next := rest.head?.bind asciiChar?
    let run (p : Char → Bool) := byteRun (fun other => (asciiChar? other).any p) rest
    if isSpaceChar c then (.space, run isSpaceChar)
    else if c == '/' && next.any (· == '/') then
      (.comment, byteRun (fun other => asciiChar? other != some '\n') rest)
    else if c == '/' && next.any (· == '*') then (.comment, blockBytes (rest.drop 1) + 1)
    else if isQuote c then (.literal, literalBytes c rest)
    else if isWordStart c then (.ident, run isWordChar)
    else if c.isDigit || (c == '.' && next.any Char.isDigit) then (.number, run isNumberChar)
    else (.punct, if next.any (isOperatorPair c) then 1 else 0)

/-- The tokens of a text given as bytes, each with the number of bytes before it. -/
def cutBytes (start : Nat) : List UInt8 → List (Nat × TokenKind × List UInt8)
  | [] => []
  | byte :: rest =>
    let (kind, size) := scanBytes byte rest
    (start, kind, byte :: rest.take size) :: cutBytes (start + (rest.take size).length + 1) (rest.drop size)
termination_by bytes => bytes.length

theorem cutBytes_cons (start : Nat) (byte : UInt8) (rest : List UInt8) :
    cutBytes start (byte :: rest) =
      (start, (scanBytes byte rest).1, byte :: rest.take (scanBytes byte rest).2) ::
        cutBytes (start + (rest.take (scanBytes byte rest).2).length + 1)
          (rest.drop (scanBytes byte rest).2) := by
  rw [cutBytes]

section

variable {c : Char} {text : Text}

theorem toNat_ofNat_byte {n : Nat} (bound : n < 256) : (UInt8.ofNat n).toNat = n := by
  rw [UInt8.toNat_ofNat']
  exact Nat.mod_eq_of_lt bound

theorem isTrailing_ofNat (n : Nat) : isTrailing (UInt8.ofNat (n % 64 + 128)) = true := by
  rw [isTrailing, toNat_ofNat_byte (by omega)]
  simp only [Bool.and_eq_true, decide_eq_true_eq]
  omega

theorem leading_ofNat {n : Nat} (low : 192 ≤ n) (bound : n < 256) :
    asciiChar? (UInt8.ofNat n) = none ∧ isTrailing (UInt8.ofNat n) = false := by
  rw [asciiChar?, isTrailing, toNat_ofNat_byte bound, if_neg (by omega)]
  simp only [Bool.and_eq_false_iff, decide_eq_false_iff_not, true_and]
  omega

theorem asciiChar?_of_isTrailing {byte : UInt8} (trailing : isTrailing byte = true) :
    asciiChar? byte = none := by
  simp only [isTrailing, Bool.and_eq_true, decide_eq_true_eq] at trailing
  exact if_neg (by omega)

/-- The byte of a character in ASCII. -/
structure IsOneByte (c : Char) (byte : UInt8) : Prop where
  bytes : String.utf8EncodeChar c = [byte]
  low : c.toNat < 128
  isChar : asciiChar? byte = some c
  starts : isTrailing byte = false

/-- The bytes of a character outside ASCII: a leading byte, then trailing ones. -/
structure IsMultibyte (c : Char) (first : UInt8) (more : List UInt8) : Prop where
  bytes : String.utf8EncodeChar c = first :: more
  high : 128 ≤ c.toNat
  leads : asciiChar? first = none
  starts : isTrailing first = false
  trails : ∀ byte ∈ more, isTrailing byte = true

/-- A character is one byte in ASCII, and several bytes outside. -/
theorem utf8EncodeChar_cases (c : Char) :
    (∃ byte, IsOneByte c byte) ∨ ∃ first more, IsMultibyte c first more := by
  have encoded := String.utf8EncodeChar.eq_1 c
  by_cases one : c.val.toNat ≤ 127
  · rw [if_pos one] at encoded
    have same : (UInt8.ofNat c.val.toNat).toNat = c.val.toNat := toNat_ofNat_byte (by omega)
    refine Or.inl ⟨_, encoded, Nat.lt_succ_of_le one, ?_, ?_⟩
    · rw [asciiChar?, same, if_pos (by omega)]
      exact congrArg some (Char.ofNat_toNat c)
    · rw [isTrailing, same, decide_eq_false (by omega), Bool.false_and]
  · rw [if_neg one] at encoded
    have high : 128 ≤ c.toNat := by
      show 128 ≤ c.val.toNat
      omega
    have outside {first : Nat} {more : List Nat} (low : 192 ≤ first) (bound : first < 256)
        (bytes : String.utf8EncodeChar c =
          UInt8.ofNat first :: more.map fun n => UInt8.ofNat (n % 64 + 128)) :
        ∃ first more, IsMultibyte c first more := by
      refine ⟨_, _, bytes, high, (leading_ofNat low bound).1, (leading_ofNat low bound).2, ?_⟩
      intro byte member
      obtain ⟨n, -, rfl⟩ := List.mem_map.mp member
      exact isTrailing_ofNat n
    apply Or.inr
    by_cases two : c.val.toNat ≤ 2047
    · rw [if_pos two] at encoded
      exact @outside _ [c.val.toNat] (by omega) (by omega) encoded
    · rw [if_neg two] at encoded
      by_cases three : c.val.toNat ≤ 65535
      · rw [if_pos three] at encoded
        exact @outside _ [c.val.toNat / 64, c.val.toNat] (by omega) (by omega) encoded
      · rw [if_neg three] at encoded
        exact @outside _ [c.val.toNat / 4096, c.val.toNat / 64, c.val.toNat] (by omega) (by omega) encoded

theorem exists_isOneByte (low : c.toNat < 128) : ∃ byte, IsOneByte c byte := by
  rcases utf8EncodeChar_cases c with single | ⟨_, _, multibyte⟩
  · exact single
  · have := multibyte.high
    omega

/-- A test of characters that no character outside ASCII passes. -/
def IsAsciiTest (p : Char → Bool) : Prop :=
  ∀ c : Char, 128 ≤ c.toNat → p c = false

theorem isAsciiTest_of_imp {p : Char → Bool} (low : ∀ c, p c = true → c.toNat < 128) :
    IsAsciiTest p := by
  intro c high
  by_contra holds
  have := low c (by simpa using holds)
  omega

theorem isAsciiTest_beq {d : Char} (low : d.toNat < 128) : IsAsciiTest (· == d) := by
  apply isAsciiTest_of_imp
  intro c same
  rwa [beq_iff_eq.mp same]

theorem isAsciiTest_isSpaceChar : IsAsciiTest isSpaceChar := by
  apply isAsciiTest_of_imp
  intro c space
  simp only [isSpaceChar, Bool.or_eq_true, beq_iff_eq] at space
  rcases space with (((rfl | rfl) | rfl) | rfl) | rfl <;> decide

theorem isAsciiTest_isQuote : IsAsciiTest isQuote := by
  apply isAsciiTest_of_imp
  intro c quote
  simp only [isQuote, Bool.or_eq_true, beq_iff_eq] at quote
  rcases quote with rfl | rfl <;> decide

theorem isAsciiTest_isDigit : IsAsciiTest Char.isDigit := by
  apply isAsciiTest_of_imp
  intro c digit
  simp only [Char.isDigit, Bool.and_eq_true, decide_eq_true_eq, ge_iff_le, UInt32.le_iff_toNat_le] at digit
  simp at digit
  omega

theorem isAsciiTest_isAlpha : IsAsciiTest Char.isAlpha := by
  apply isAsciiTest_of_imp
  intro c alpha
  simp only [Char.isAlpha, Char.isUpper, Char.isLower, Bool.or_eq_true, Bool.and_eq_true,
    decide_eq_true_eq, ge_iff_le, UInt32.le_iff_toNat_le] at alpha
  simp at alpha
  omega

theorem IsAsciiTest.or {p q : Char → Bool} (first : IsAsciiTest p) (second : IsAsciiTest q) :
    IsAsciiTest fun c => p c || q c := by
  intro c high
  show (p c || q c) = false
  rw [first c high, second c high, Bool.or_false]

theorem isAsciiTest_line : IsAsciiTest (· == '_') :=
  isAsciiTest_beq (by decide)

theorem isAsciiTest_isAlphanum : IsAsciiTest Char.isAlphanum :=
  isAsciiTest_isAlpha.or isAsciiTest_isDigit

theorem isAsciiTest_isWordStart : IsAsciiTest isWordStart :=
  isAsciiTest_isAlpha.or isAsciiTest_line

theorem isAsciiTest_isWordChar : IsAsciiTest isWordChar :=
  isAsciiTest_isAlphanum.or isAsciiTest_line

theorem isAsciiTest_isNumberChar : IsAsciiTest isNumberChar :=
  (isAsciiTest_isAlphanum.or (isAsciiTest_beq (by decide))).or isAsciiTest_line

theorem isAsciiTest_isOperatorPair (first : Char) : IsAsciiTest (isOperatorPair first) := by
  intro second high
  apply isOperatorPair_eq_false
  by_contra operator
  simp only [List.contains_eq_mem, Bool.not_eq_false, decide_eq_true_eq, List.mem_cons,
    List.not_mem_nil, or_false] at operator
  rcases operator with rfl | rfl | rfl | rfl | rfl | rfl | rfl | rfl <;> exact absurd high (by decide)

/-- A run of characters and the run of their bytes end at the same place. -/
theorem byteRun_utf8 {p : UInt8 → Bool} {q : Char → Bool}
    (inside : ∀ c, q c = true → ∀ byte ∈ String.utf8EncodeChar c, p byte = true)
    (outside : ∀ c, q c = false → ∀ byte ∈ (String.utf8EncodeChar c).head?, p byte = false)
    (text : Text) : byteRun p (utf8 text) = byteLength (text.take (runLength q text)) := by
  have isPrefix : text.take (runLength q text) = text.takeWhile q :=
    (List.prefix_iff_eq_take.mp (List.takeWhile_prefix q)).symm
  rw [isPrefix]
  clear isPrefix
  induction text with
  | nil => rfl
  | cons c rest ih =>
      rw [Text.utf8_cons, byteRun]
      by_cases holds : q c = true
      · rw [List.takeWhile_append_of_pos (inside c holds), List.length_append,
          String.length_utf8EncodeChar, List.takeWhile_cons_of_pos holds, Text.byteLength_cons, ← ih,
          byteRun]
      · rw [List.takeWhile_cons_of_neg holds]
        obtain ⟨first, more, bytes⟩ := List.exists_cons_of_ne_nil (@String.utf8EncodeChar_ne_nil c)
        have stops : p first = false := by
          apply outside c (by simpa using holds)
          rw [bytes]
          rfl
        rw [bytes, List.cons_append, List.takeWhile_cons_of_neg (by simp [stops])]
        rfl

/-- A test of single characters finds the run of their bytes. -/
theorem byteRun_ascii {p : Char → Bool} (ascii : IsAsciiTest p) (text : Text) :
    byteRun (fun byte => (asciiChar? byte).any p) (utf8 text) =
      byteLength (text.take (runLength p text)) := by
  apply byteRun_utf8
  · intro c holds byte member
    rcases utf8EncodeChar_cases c with ⟨_, single⟩ | ⟨_, _, multibyte⟩
    · rw [single.bytes, List.mem_singleton] at member
      rw [member, single.isChar]
      exact holds
    · rw [ascii c multibyte.high] at holds
      cases holds
  · intro c fails byte first
    rcases utf8EncodeChar_cases c with ⟨_, single⟩ | ⟨_, _, multibyte⟩
    · rw [single.bytes] at first
      obtain rfl := Option.some.inj first
      rw [single.isChar]
      exact fails
    · rw [multibyte.bytes] at first
      obtain rfl := Option.some.inj first
      rw [multibyte.leads]
      rfl

/-- A run up to a line feed ends at the line feed's byte. -/
theorem byteRun_line (text : Text) :
    byteRun (fun byte => asciiChar? byte != some '\n') (utf8 text) =
      byteLength (text.take (runLength (· != '\n') text)) := by
  apply byteRun_utf8
  · intro c holds byte member
    rcases utf8EncodeChar_cases c with ⟨_, single⟩ | ⟨_, _, multibyte⟩
    · rw [single.bytes, List.mem_singleton] at member
      rw [member, single.isChar]
      simpa using holds
    · rw [multibyte.bytes] at member
      rcases List.mem_cons.mp member with rfl | inMore
      · rw [multibyte.leads]
        rfl
      · rw [asciiChar?_of_isTrailing (multibyte.trails byte inMore)]
        rfl
  · intro c fails byte first
    obtain rfl : c = '\n' := by simpa using fails
    obtain rfl := Option.some.inj first
    rfl

theorem byteRun_trailing {more : List UInt8} (trails : ∀ byte ∈ more, isTrailing byte = true)
    (text : Text) : byteRun isTrailing (more ++ utf8 text) = more.length := by
  rw [byteRun, List.takeWhile_append_of_pos trails]
  cases text with
  | nil => simp
  | cons c rest =>
      rcases utf8EncodeChar_cases c with ⟨_, single⟩ | ⟨_, _, multibyte⟩
      · simp [single.bytes, single.starts]
      · simp [multibyte.bytes, multibyte.starts]

/-- A test of the character ahead needs no more than the byte ahead. -/
theorem any_head?_utf8 {p : Char → Bool} (ascii : IsAsciiTest p) (text : Text) :
    ((utf8 text).head?.bind asciiChar?).any p = text.head?.any p := by
  cases text with
  | nil => rfl
  | cons c rest =>
      rcases utf8EncodeChar_cases c with ⟨_, single⟩ | ⟨_, _, multibyte⟩
      · simp [single.bytes, single.isChar]
      · simp [multibyte.bytes, multibyte.leads, ascii c multibyte.high]

theorem IsMultibyte.outside {first : UInt8} {more : List UInt8} (multibyte : IsMultibyte c first more) :
    ∀ byte ∈ first :: more, asciiChar? byte = none := by
  intro byte member
  rcases List.mem_cons.mp member with rfl | inMore
  · exact multibyte.leads
  · exact asciiChar?_of_isTrailing (multibyte.trails byte inMore)

/-- Bytes outside ASCII end no comment. -/
theorem blockBytes_outside {front : List UInt8} (outside : ∀ byte ∈ front, asciiChar? byte = none)
    (bytes : List UInt8) : blockBytes (front ++ bytes) = front.length + blockBytes bytes := by
  induction front with
  | nil => simp
  | cons byte rest ih =>
      obtain ⟨here, behind⟩ := List.forall_mem_cons.mp outside
      have noEnd : ¬(asciiChar? byte = some '*' ∧ (rest ++ bytes).head?.bind asciiChar? = some '/') := by
        rw [here]
        rintro ⟨star, -⟩
        cases star
      rw [List.cons_append, blockBytes, if_neg noEnd, ih behind, List.length_cons]
      omega

theorem blockBytes_utf8 (text : Text) :
    blockBytes (utf8 text) = byteLength (text.take (blockLength text)) := by
  fun_induction blockLength text with
  | case1 => rfl
  | case2 rest => rfl
  | case3 c rest noEnd ih =>
      rw [Text.utf8_cons, List.take_succ_cons, Text.byteLength_cons, ← ih, ← String.length_utf8EncodeChar]
      rcases utf8EncodeChar_cases c with ⟨byte, single⟩ | ⟨first, more, multibyte⟩
      · have goesOn : ¬(asciiChar? byte = some '*' ∧ (utf8 rest).head?.bind asciiChar? = some '/') := by
          rw [single.isChar]
          rintro ⟨star, slash⟩
          have ahead := any_head?_utf8 (isAsciiTest_beq (show '/'.toNat < 128 by decide)) rest
          rw [slash] at ahead
          cases rest with
          | nil => cases ahead
          | cons d more =>
              obtain rfl : d = '/' := by simpa using ahead.symm
              exact noEnd more (Option.some.inj star) rfl
        rw [single.bytes, List.singleton_append, blockBytes, if_neg goesOn, List.length_singleton,
          Nat.add_comm]
      · rw [multibyte.bytes, blockBytes_outside multibyte.outside]

theorem literalBytes_cons {quote : Char} {byte : UInt8} (plain : asciiChar? byte ≠ some '\\')
    (rest : List UInt8) : literalBytes quote (byte :: rest) =
      if asciiChar? byte = some quote ∨ asciiChar? byte = some '\n' then 1
      else literalBytes quote rest + 1 := by
  cases rest with
  | nil =>
      rw [literalBytes, literalBytes]
      split <;> rfl
  | cons next more => rw [literalBytes, if_neg plain]

/-- Bytes outside ASCII end no literal. -/
theorem literalBytes_outside {quote : Char} {front : List UInt8}
    (outside : ∀ byte ∈ front, asciiChar? byte = none) (bytes : List UInt8) :
    literalBytes quote (front ++ bytes) = front.length + literalBytes quote bytes := by
  induction front with
  | nil => simp
  | cons byte rest ih =>
      obtain ⟨here, behind⟩ := List.forall_mem_cons.mp outside
      rw [List.cons_append, literalBytes_cons (by rw [here]; decide), here, if_neg (by simp), ih behind,
        List.length_cons]
      omega

theorem ne_backslash {c : Char} {rest : Text} (notLast : c = '\\' → rest = [] → False)
    (notPair : ∀ d more, c = '\\' → rest = d :: more → False) : c ≠ '\\' := by
  intro slash
  cases rest with
  | nil => exact notLast slash rfl
  | cons d more => exact notPair d more slash rfl

theorem literalBytes_utf8 {quote : Char} (start : isQuote quote = true) (text : Text) :
    literalBytes quote (utf8 text) = byteLength (text.take (literalLength quote text)) := by
  obtain ⟨slash, escape⟩ := exists_isOneByte (show '\\'.toNat < 128 by decide)
  fun_induction literalLength quote text with
  | case1 => rfl
  | case2 => rfl
  | case3 d rest ih =>
      rw [Text.utf8_cons, Text.utf8_cons, escape.bytes, List.take_succ_cons, List.take_succ_cons,
        Text.byteLength_cons, Text.byteLength_cons, ← ih, ← String.length_utf8EncodeChar,
        ← String.length_utf8EncodeChar, escape.bytes]
      rcases utf8EncodeChar_cases d with ⟨byte, single⟩ | ⟨first, more, multibyte⟩
      · rw [single.bytes, List.singleton_append, List.singleton_append, literalBytes,
          if_pos escape.isChar]
        simp only [List.length_singleton]
        omega
      · have outside : ∀ byte ∈ more, asciiChar? byte = none := fun byte member =>
          multibyte.outside byte (List.mem_cons_of_mem _ member)
        simp only [multibyte.bytes, List.cons_append, List.nil_append]
        rw [literalBytes, if_pos escape.isChar, literalBytes_outside outside]
        simp only [List.length_cons, List.length_nil]
        omega
  | case4 c rest notLast notPair ends =>
      have low : c.toNat < 128 := by
        simp only [Bool.or_eq_true, beq_iff_eq] at ends
        rcases ends with rfl | rfl
        · by_contra high
          rw [isAsciiTest_isQuote c (by omega)] at start
          cases start
        · decide
      obtain ⟨byte, single⟩ := exists_isOneByte low
      have plain : asciiChar? byte ≠ some '\\' := by
        rw [single.isChar]
        exact fun same => ne_backslash notLast notPair (Option.some.inj same)
      rw [Text.utf8_cons, single.bytes, List.singleton_append, literalBytes_cons plain, single.isChar,
        if_pos (by simpa using ends), List.take_succ_cons, List.take_zero, Text.byteLength_cons,
        ← String.length_utf8EncodeChar, single.bytes]
      rfl
  | case5 c rest notLast notPair goesOn ih =>
      rw [Text.utf8_cons, List.take_succ_cons, Text.byteLength_cons, ← ih, ← String.length_utf8EncodeChar]
      rcases utf8EncodeChar_cases c with ⟨byte, single⟩ | ⟨first, more, multibyte⟩
      · have plain : asciiChar? byte ≠ some '\\' := by
          rw [single.isChar]
          exact fun same => ne_backslash notLast notPair (Option.some.inj same)
        rw [single.bytes, List.singleton_append, literalBytes_cons plain, single.isChar,
          if_neg (by simpa using goesOn), List.length_singleton, Nat.add_comm]
      · rw [multibyte.bytes, literalBytes_outside multibyte.outside]

theorem length_one {d : Char} (low : d.toNat < 128) : (String.utf8EncodeChar d).length = 1 := by
  obtain ⟨byte, single⟩ := exists_isOneByte low
  rw [single.bytes, List.length_singleton]

theorem drop_utf8 {d : Char} (low : d.toNat < 128) (rest : Text) :
    (utf8 (d :: rest)).drop 1 = utf8 rest := by
  obtain ⟨byte, single⟩ := exists_isOneByte low
  rw [Text.utf8_cons, single.bytes]
  rfl

/-- A byte that is a character starts the same token as the character. -/
theorem scanBytes_of_isChar {byte : UInt8} (isChar : asciiChar? byte = some c) (rest : Text) :
    scanBytes byte (utf8 rest) = ((scan c rest).1, byteLength (rest.take (scan c rest).2)) := by
  have ahead (p : Char → Bool) (ascii : IsAsciiTest p) := any_head?_utf8 ascii rest
  have slash : (rest.head? == some '/') = rest.head?.any (· == '/') := by
    cases rest <;> simp
  have star : (rest.head? == some '*') = rest.head?.any (· == '*') := by
    cases rest <;> simp
  unfold scanBytes scan
  simp only [isChar, slash, star, ahead _ (isAsciiTest_beq (show '/'.toNat < 128 by decide)),
    ahead _ (isAsciiTest_beq (show '*'.toNat < 128 by decide)), ahead _ isAsciiTest_isDigit,
    ahead _ (isAsciiTest_isOperatorPair c)]
  by_cases space : isSpaceChar c = true
  · simp only [if_pos space, byteRun_ascii isAsciiTest_isSpaceChar]
  simp only [if_neg space]
  by_cases line : (c == '/' && rest.head?.any (· == '/')) = true
  · simp only [if_pos line, byteRun_line]
  simp only [if_neg line]
  by_cases block : (c == '/' && rest.head?.any (· == '*')) = true
  · simp only [if_pos block]
    cases rest with
    | nil => simp at block
    | cons next more =>
        obtain rfl : next = '*' := by simpa using (Bool.and_eq_true_iff.mp block).2
        rw [drop_utf8 (by decide), List.drop_one, List.tail_cons, blockBytes_utf8, List.take_succ_cons,
          Text.byteLength_cons, Nat.add_comm]
        rfl
  simp only [if_neg block]
  by_cases quote : isQuote c = true
  · have same : (c == '\x22' || c == '\'') = true := quote
    simp only [if_pos quote, if_pos same, literalBytes_utf8 quote]
  have noQuote : ¬(c == '\x22' || c == '\'') = true := quote
  simp only [if_neg quote, if_neg noQuote]
  by_cases word : isWordStart c = true
  · simp only [if_pos word, byteRun_ascii isAsciiTest_isWordChar]
  simp only [if_neg word]
  by_cases number : (c.isDigit || (c == '.' && rest.head?.any Char.isDigit)) = true
  · simp only [if_pos number, byteRun_ascii isAsciiTest_isNumberChar]
  simp only [if_neg number]
  by_cases pair : rest.head?.any (isOperatorPair c) = true
  · simp only [if_pos pair]
    cases rest with
    | nil => simp at pair
    | cons next more =>
        have low : next.toNat < 128 := by
          by_contra high
          rw [List.head?_cons, Option.any_some, isAsciiTest_isOperatorPair c next (by omega)] at pair
          cases pair
        rw [List.take_succ_cons, Text.byteLength_cons, ← String.length_utf8EncodeChar, length_one low]
        rfl
  · simp only [if_neg pair]
    rfl

theorem isOperatorPair_outside (high : 128 ≤ c.toNat) (next : Char) :
    isOperatorPair c next = false := by
  by_contra operator
  rw [Bool.not_eq_false] at operator
  unfold isOperatorPair at operator
  split at operator
  case h_12 => cases operator
  all_goals exact absurd high (by decide)

/-- A character outside ASCII is a token of its own. -/
theorem scan_outside (high : 128 ≤ c.toNat) (rest : Text) : scan c rest = (.punct, 0) := by
  have other (d : Char) (low : d.toNat < 128) : (c == d) = false := isAsciiTest_beq low c high
  have single : isMark c = true := by
    simp [isMark, isAsciiTest_isSpaceChar c high, isAsciiTest_isQuote c high,
      isAsciiTest_isWordStart c high, isAsciiTest_isDigit c high]
  apply scan_mark single
  intro next _
  simp [Token.endsBefore, isOperatorPair_outside high, other '/' (by decide), other '.' (by decide)]

/-- The first byte of a character starts the same token as the character. -/
theorem scanBytes_utf8 {first : UInt8} {more : List UInt8}
    (bytes : String.utf8EncodeChar c = first :: more) (rest : Text) :
    scanBytes first (more ++ utf8 rest) =
      ((scan c rest).1, (more ++ utf8 (rest.take (scan c rest).2)).length) := by
  rcases utf8EncodeChar_cases c with ⟨byte, single⟩ | ⟨leading, trailing, multibyte⟩
  · obtain ⟨rfl, rfl⟩ := List.cons.inj (bytes.symm.trans single.bytes)
    rw [List.nil_append, List.nil_append, Text.length_utf8, scanBytes_of_isChar single.isChar]
  · obtain ⟨rfl, rfl⟩ := List.cons.inj (bytes.symm.trans multibyte.bytes)
    rw [scan_outside multibyte.high, scanBytes, multibyte.leads]
    simp [byteRun_trailing multibyte.trails]

/-- The bytes of a text are cut at the ends of its tokens. -/
theorem cutBytes_utf8 (start : Nat) (text : Text) :
    cutBytes start (utf8 text) =
      (locate start (tokenize text)).map fun (place, token) => (place, token.kind, utf8 token.text) := by
  fun_induction tokenize text generalizing start with
  | case1 =>
      rw [Text.utf8_nil, cutBytes]
      rfl
  | case2 c rest kind size scanEq ih =>
      obtain ⟨first, more, bytes⟩ := List.exists_cons_of_ne_nil (@String.utf8EncodeChar_ne_nil c)
      have scanned : scanBytes first (more ++ utf8 rest) =
          (kind, (more ++ utf8 (rest.take size)).length) := by
        rw [scanBytes_utf8 bytes, scanEq]
      have split : more ++ utf8 rest = (more ++ utf8 (rest.take size)) ++ utf8 (rest.drop size) := by
        rw [List.append_assoc, ← Text.utf8_append, List.take_append_drop]
      have whole : first :: (more ++ utf8 (rest.take size)) = utf8 (c :: rest.take size) := by
        rw [Text.utf8_cons, bytes, List.cons_append]
      have place : start + (more ++ utf8 (rest.take size)).length + 1 =
          start + byteLength (c :: rest.take size) := by
        rw [← Text.length_utf8, ← whole, List.length_cons, Nat.add_assoc]
      rw [Text.utf8_cons, bytes, List.cons_append, cutBytes_cons, scanned, split,
        List.take_left' rfl, List.drop_left' rfl, whole, place, ih, locate, List.map_cons]

end

end Breadboard.Sketch
