import Breadboard.Proofs.Script.ScriptName
import Breadboard.Proofs.Text.Numeral
import Breadboard.Script.Constant

set_option autoImplicit false

namespace Breadboard.Script

open Sketch

/-- The end of a decimal fraction: nothing, or `e` and a number that can have a sign. -/
inductive IsExponent : Text → Prop where
  | absent : IsExponent []
  | plain {mark : Char} {digits : Text} (word : mark.isAlphanum = true)
      (number : digits.all Char.isDigit = true) : IsExponent (mark :: digits)
  | signed {mark sign first : Char} {digits : Text} (word : mark.isAlphanum = true)
      (isSign : sign = '+' ∨ sign = '-') (digit : first.isDigit = true)
      (number : digits.all Char.isDigit = true) : IsExponent (mark :: sign :: first :: digits)

/-- The start of a text that the lexer takes for a number. -/
def StartsNumber : Text → Prop
  | [] => False
  | c :: rest => c.isDigit = true ∨ (c = '.' ∧ rest.head?.any Char.isDigit = true)

theorem isNumberChar_of_isDigit {c : Char} (digit : c.isDigit = true) : isNumberChar c = true := by
  simp [isNumberChar, Char.isAlphanum, digit]

theorem isNumberChar_of_digitOrDot {c : Char} (plain : c.isDigit = true ∨ c = '.') :
    isNumberChar c = true := by
  rcases plain with digit | rfl
  · exact isNumberChar_of_isDigit digit
  · rfl

theorem isNumberChar_of_isLexeme {text : Text} (whole : IsLexeme ⟨.number, text⟩) :
    ∀ c ∈ text, isNumberChar c = true := by
  cases whole with
  | number start run =>
      exact List.forall_mem_cons.mpr ⟨isNumberChar_of_digitOrDot (start.imp_right And.left),
        List.all_eq_true.mp run⟩

theorem isNumberChar_of_isAlphanum {c : Char} (word : c.isAlphanum = true) :
    isNumberChar c = true := by
  simp [isNumberChar, word]

theorem isNumberChar_of_isWordChar {c : Char} (word : isWordChar c = true) :
    isNumberChar c = true := by
  rw [isWordChar, Bool.or_eq_true] at word
  rcases word with alphanumeric | line
  · exact isNumberChar_of_isAlphanum alphanumeric
  · rw [isNumberChar, line, Bool.or_true]

theorem digits_of_numeral? {text : Text} {n : Nat} (number : Text.numeral? text = some n) :
    ∃ first digits, text = first :: digits ∧ first.isDigit = true ∧
      digits.all Char.isDigit = true := by
  unfold Text.numeral? at number
  split at number
  · rename_i checks
    cases text with
    | nil => cases checks
    | cons first digits =>
        rw [List.all_cons, Bool.and_eq_true, Bool.and_eq_true] at checks
        exact ⟨first, digits, rfl, checks.2.1, checks.2.2⟩
  · cases number

/-- An exponent that has a value is a mark and a number that can have a sign. -/
theorem exponentPart?_cases {text : Text} {exponent : Int}
    (found : Binary64.exponentPart? text = some exponent) :
    text = [] ∨ ∃ mark sign first digits, text = mark :: (sign ++ first :: digits) ∧
      (mark = 'e' ∨ mark = 'E') ∧ (sign = [] ∨ sign = ['+'] ∨ sign = ['-']) ∧
      first.isDigit = true ∧ digits.all Char.isDigit = true := by
  have numeral : ∀ {digits : Text} {sign : Int → Int},
      ((do let n ← Text.numeral? digits; pure (n : Int)).map sign) = some exponent →
        ∃ first more, digits = first :: more ∧ first.isDigit = true ∧ more.all Char.isDigit = true := by
    intro digits sign number
    obtain ⟨value, isValue, -⟩ := Option.map_eq_some_iff.mp number
    obtain ⟨n, isNumber, -⟩ := Option.bind_eq_some_iff.mp isValue
    exact digits_of_numeral? isNumber
  unfold Binary64.exponentPart? at found
  split at found
  · exact Or.inl rfl
  · rename_i mark rest
    obtain ⟨isMark, number⟩ := Option.ite_none_right_eq_some.mp found
    refine Or.inr ?_
    split at number
    · obtain ⟨first, digits, rfl, digit, more⟩ := numeral number
      exact ⟨mark, ['-'], first, digits, rfl, isMark, Or.inr (Or.inr rfl), digit, more⟩
    · obtain ⟨first, digits, rfl, digit, more⟩ := numeral number
      exact ⟨mark, ['+'], first, digits, rfl, isMark, Or.inr (Or.inl rfl), digit, more⟩
    · obtain ⟨first, digits, rfl, digit, more⟩ := numeral number
      exact ⟨mark, [], first, digits, rfl, isMark, Or.inl rfl, digit, more⟩

theorem isExponent_of_exponentPart? {text : Text} {exponent : Int}
    (found : Binary64.exponentPart? text = some exponent) : IsExponent text := by
  rcases exponentPart?_cases found with rfl | ⟨mark, sign, first, digits, rfl, isMark, isSign, digit, more⟩
  · exact .absent
  · have word : mark.isAlphanum = true := by
      rcases isMark with rfl | rfl <;> decide
    rcases isSign with rfl | rfl | rfl
    · exact .plain word (by rw [List.nil_append, List.all_cons, digit, more]; rfl)
    · exact .signed word (Or.inl rfl) digit more
    · exact .signed word (Or.inr rfl) digit more

theorem head_takeWhile {text : Text} (notEmpty : text.takeWhile Char.isDigit ≠ []) :
    (text.takeWhile Char.isDigit).head?.any Char.isDigit = true := by
  obtain ⟨c, rest, digits⟩ := List.exists_cons_of_ne_nil notEmpty
  have member : c ∈ text.takeWhile Char.isDigit := by
    rw [digits]
    exact List.mem_cons_self
  have digit := List.mem_takeWhile_imp member
  rwa [digits]

theorem startsNumber_takeWhile {text : Text} (notEmpty : text.takeWhile Char.isDigit ≠ [])
    (more : Text) : StartsNumber (text.takeWhile Char.isDigit ++ more) := by
  have digit := head_takeWhile notEmpty
  obtain ⟨c, rest, digits⟩ := List.exists_cons_of_ne_nil notEmpty
  rw [digits] at digit ⊢
  exact Or.inl digit

/-- A decimal is a number and an exponent. -/
theorem decimal_cases {text : Text} {value : Binary64} (found : Binary64.ofText? text = some value) :
    ∃ front exponent power, text = front ++ exponent ∧ StartsNumber front ∧
      (∀ c ∈ front, c.isDigit = true ∨ c = '.') ∧ Binary64.exponentPart? exponent = some power := by
  have digitOf : ∀ {part : Text}, ∀ c ∈ part.takeWhile Char.isDigit, c.isDigit = true :=
    fun c member => List.mem_takeWhile_imp member
  have whole : text.takeWhile Char.isDigit ++ text.dropWhile Char.isDigit = text :=
    List.takeWhile_append_dropWhile
  unfold Binary64.ofText? at found
  rw [List.span_eq_takeWhile_dropWhile] at found
  dsimp only at found
  split at found
  · rename_i digits left
    rw [List.span_eq_takeWhile_dropWhile] at found
    dsimp only at found
    rw [left] at whole
    have fraction : digits.takeWhile Char.isDigit ++ digits.dropWhile Char.isDigit = digits :=
      List.takeWhile_append_dropWhile
    split at found
    · cases found
    · rename_i nonempty
      obtain ⟨exponent, isExponent, -⟩ := Option.map_eq_some_iff.mp found
      refine ⟨text.takeWhile Char.isDigit ++ '.' :: digits.takeWhile Char.isDigit,
        digits.dropWhile Char.isDigit, exponent, ?_, ?_, ?_, isExponent⟩
      · rw [List.append_assoc, List.cons_append, fraction, whole]
      · by_cases noWhole : text.takeWhile Char.isDigit = []
        · have firstDigit : digits.takeWhile Char.isDigit ≠ [] := by
            intro noFraction
            simp [noWhole, noFraction] at nonempty
          rw [noWhole]
          exact Or.inr ⟨rfl, head_takeWhile firstDigit⟩
        · exact startsNumber_takeWhile noWhole _
      · intro c member
        rcases List.mem_append.mp member with inWhole | behind
        · exact Or.inl (digitOf c inWhole)
        · rcases List.mem_cons.mp behind with isDot | inFraction
          · exact Or.inr isDot
          · exact Or.inl (digitOf c inFraction)
  · split at found
    · cases found
    · rename_i nonempty
      obtain ⟨exponent, isExponent, -⟩ := Option.map_eq_some_iff.mp found
      refine ⟨text.takeWhile Char.isDigit, text.dropWhile Char.isDigit, exponent, whole.symm, ?_,
        fun c member => Or.inl (digitOf c member), isExponent⟩
      have notEmpty : text.takeWhile Char.isDigit ≠ [] := by
        intro noWhole
        simp [noWhole] at nonempty
      have starts := startsNumber_takeWhile notEmpty []
      rwa [List.append_nil] at starts

/-- The characters that a literal can end with. -/
theorem isNumberChar_of_isNumberSuffix {c : Char} (suffix : isNumberSuffix c = true) :
    isNumberChar c = true := by
  simp only [isNumberSuffix, isIntegerSuffix, Bool.or_eq_true, beq_iff_eq] at suffix
  rcases suffix with (((((rfl | rfl) | rfl) | rfl) | rfl) | rfl) <;> decide

theorem dropTrailing_append (p : Char → Bool) (text : Text) :
    ∃ trailing, text = dropTrailing p text ++ trailing ∧ ∀ c ∈ trailing, p c = true := by
  refine ⟨(text.reverse.takeWhile p).reverse, ?_, fun c member => ?_⟩
  · rw [dropTrailing, ← List.reverse_append, List.takeWhile_append_dropWhile, List.reverse_reverse]
  · exact List.mem_takeWhile_imp (List.mem_reverse.mp member)

/-- The tokens of a number: one, or three with a sign between. -/
inductive IsNumberTokens : List Token → Prop where
  | one {text : Text} (number : IsLexeme ⟨.number, text⟩) : IsNumberTokens [⟨.number, text⟩]
  | signed {front back : Text} {sign : Char} (number : IsLexeme ⟨.number, front⟩)
      (isSign : sign = '+' ∨ sign = '-') (onward : IsLexeme ⟨.number, back⟩)
      (digit : ∀ c ∈ back.head?, c.isDigit = true) :
      IsNumberTokens [⟨.number, front⟩, ⟨.punct, [sign]⟩, ⟨.number, back⟩]

theorem isLexeme_of_startsNumber {text : Text} (starts : StartsNumber text)
    (run : ∀ c ∈ text, isNumberChar c = true) : IsLexeme ⟨.number, text⟩ := by
  cases text with
  | nil => exact starts.elim
  | cons c rest =>
      exact .number starts (List.all_eq_true.mpr fun d member => run d (List.mem_cons_of_mem c member))

theorem StartsNumber.append {text : Text} (starts : StartsNumber text) (more : Text) :
    StartsNumber (text ++ more) := by
  cases text with
  | nil => exact starts.elim
  | cons c rest =>
      rcases starts with digit | ⟨dot, digit⟩
      · exact Or.inl digit
      · cases rest with
        | nil => cases digit
        | cons d others => exact Or.inr ⟨dot, digit⟩

theorem isNumberChar_of_hexDigit? {c : Char} {digit : Nat} (found : Text.hexDigit? c = some digit) :
    isNumberChar c = true := by
  have range : 48 ≤ c.toNat ∧ c.toNat ≤ 57 ∨ 97 ≤ c.toNat ∧ c.toNat ≤ 102 ∨
      65 ≤ c.toNat ∧ c.toNat ≤ 70 := by
    unfold Text.hexDigit? at found
    split at found
    · exact Or.inl ‹_›
    · split at found
      · exact Or.inr (Or.inl ‹_›)
      · split at found
        · exact Or.inr (Or.inr ‹_›)
        · cases found
  apply isNumberChar_of_isAlphanum
  simp only [Char.isAlphanum, Char.isAlpha, Bool.or_eq_true, isUpper_iff, isLower_iff, isDigit_iff]
  omega

theorem isNumberChar_of_hexNumeral? {text : Text} {n : Nat} (found : Text.hexNumeral? text = some n) :
    ∀ c ∈ text, isNumberChar c = true := by
  unfold Text.hexNumeral? at found
  split at found
  · cases found
  · clear * - found
    induction text using List.reverseRecOn generalizing n with
    | nil => simp
    | append_singleton front last ih =>
        rw [List.foldl_append, List.foldl_cons, List.foldl_nil] at found
        obtain ⟨high, isHigh, found⟩ := Option.bind_eq_some_iff.mp found
        obtain ⟨low, isLow, -⟩ := Option.bind_eq_some_iff.mp found
        intro c member
        rcases List.mem_append.mp member with inFront | isLast
        · exact ih isHigh c inFront
        · rw [List.mem_singleton.mp isLast]
          exact isNumberChar_of_hexDigit? isLow

/-- A number with an exponent and letters behind it is one token if its exponent has no sign. -/
theorem exists_isNumberTokens_append {front exponent trailing : Text} (starts : StartsNumber front)
    (run : ∀ c ∈ front, isNumberChar c = true) (isExponent : IsExponent exponent)
    (letters : ∀ c ∈ trailing, isNumberChar c = true) :
    ∃ tokens, IsNumberTokens tokens ∧ render tokens = front ++ exponent ++ trailing := by
  cases isExponent with
  | absent =>
      refine ⟨_, .one (isLexeme_of_startsNumber (starts.append trailing) ?_), by simp⟩
      exact List.forall_mem_append.mpr ⟨run, letters⟩
  | @plain mark digits word number =>
      refine ⟨_, .one (isLexeme_of_startsNumber (starts.append (mark :: digits ++ trailing)) ?_),
        by simp⟩
      refine List.forall_mem_append.mpr ⟨run, List.forall_mem_cons.mpr
        ⟨isNumberChar_of_isAlphanum word, List.forall_mem_append.mpr ⟨fun c member => ?_, letters⟩⟩⟩
      exact isNumberChar_of_isDigit (List.all_eq_true.mp number c member)
  | @signed mark sign first digits word isSign digit number =>
      refine ⟨_, .signed (isLexeme_of_startsNumber (starts.append [mark]) ?_) isSign
        (@isLexeme_of_startsNumber (first :: (digits ++ trailing)) (Or.inl digit) ?_)
        (by simp [digit]), by simp⟩
      · exact List.forall_mem_append.mpr
          ⟨run, List.forall_mem_singleton.mpr (isNumberChar_of_isAlphanum word)⟩
      · refine List.forall_mem_cons.mpr ⟨isNumberChar_of_isDigit digit,
          List.forall_mem_append.mpr ⟨fun c member => ?_, letters⟩⟩
        exact isNumberChar_of_isDigit (List.all_eq_true.mp number c member)

/-- A hexadecimal literal has characters of a number only. -/
theorem isNumberChar_of_hexadecimal {mark : Char} {digits : Text} {n : Nat}
    (isMark : isNumberChar mark = true)
    (number : ((Text.hexNumeral? (dropTrailing isIntegerSuffix digits)).filter (· < Text.signedBound)) =
      some n) : ∀ c ∈ '0' :: mark :: digits, isNumberChar c = true := by
  obtain ⟨trailing, split, suffix⟩ := dropTrailing_append isIntegerSuffix digits
  have front := isNumberChar_of_hexNumeral? (Option.filter_eq_some_iff.mp number).1
  refine List.forall_mem_cons.mpr ⟨rfl, List.forall_mem_cons.mpr ⟨isMark, ?_⟩⟩
  rw [split]
  exact List.forall_mem_append.mpr ⟨front, fun c member =>
    isNumberChar_of_isNumberSuffix (by rw [isNumberSuffix, suffix c member]; rfl)⟩

/-- A literal that has a value is written from the tokens of a number. -/
theorem exists_isNumberTokens {text : Text} {value : Binary64}
    (found : numericLiteral? text = some value) :
    ∃ tokens, IsNumberTokens tokens ∧ render tokens = text := by
  have hexadecimal : ∀ {mark : Char} {digits : Text} {n : Nat}, isNumberChar mark = true →
      ((Text.hexNumeral? (dropTrailing isIntegerSuffix digits)).filter (· < Text.signedBound)) =
        some n → ∃ tokens, IsNumberTokens tokens ∧ render tokens = '0' :: mark :: digits := by
    intro mark digits n isMark number
    exact ⟨_, .one (@isLexeme_of_startsNumber ('0' :: mark :: digits) (Or.inl rfl)
      (isNumberChar_of_hexadecimal isMark number)), by simp⟩
  unfold numericLiteral? at found
  split at found
  · obtain ⟨n, number, -⟩ := Option.map_eq_some_iff.mp found
    exact hexadecimal rfl number
  · obtain ⟨n, number, -⟩ := Option.map_eq_some_iff.mp found
    exact hexadecimal rfl number
  · obtain ⟨trailing, split, suffix⟩ := dropTrailing_append isNumberSuffix text
    obtain ⟨front, exponent, power, core, starts, run, isExponent⟩ := decimal_cases found
    obtain ⟨tokens, isNumber, rendered⟩ := exists_isNumberTokens_append starts
      (fun c member => isNumberChar_of_digitOrDot (run c member)) (isExponent_of_exponentPart? isExponent)
      fun c member => isNumberChar_of_isNumberSuffix (suffix c member)
    exact ⟨tokens, isNumber, by rw [rendered, ← core, ← split]⟩

end Breadboard.Script
