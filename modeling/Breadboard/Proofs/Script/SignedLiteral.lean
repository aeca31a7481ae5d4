import Breadboard.Proofs.Script.LineBreak
import Breadboard.Proofs.Script.NumericLiteral
import Breadboard.Proofs.Text.Trim

set_option autoImplicit false

namespace Breadboard.Script

open Sketch

/-- What stands before a literal: nothing, or a minus sign and blanks, which negate its value. -/
inductive IsSign : Text → (Binary64 → Binary64) → Prop where
  | absent : IsSign [] id
  | minus {gap : Text} (blank : Text.allBlank gap = true) : IsSign ('-' :: gap) Binary64.neg

/-- The text is a numeric literal, negated or not, and denotes the value. -/
def IsSignedLiteral (text : Text) (value : Binary64) : Prop :=
  ∃ sign negate literal magnitude, IsSign sign negate ∧ numericLiteral? literal = some magnitude ∧
    text = sign ++ literal ∧ value = negate magnitude

theorem isNumberChar_of_isBlank {c : Char} (blank : Text.isBlank c = true) : isNumberChar c = false := by
  rw [← Bool.not_eq_true]
  intro number
  simp only [isNumberChar, Char.isAlphanum, Char.isAlpha, Bool.or_eq_true, isUpper_iff, isLower_iff,
    isDigit_iff, beq_iff_eq] at number
  simp only [Text.isBlank, Bool.or_eq_true, Bool.and_eq_true, decide_eq_true_eq, beq_iff_eq] at blank
  rcases number with (((upper | lower) | digit) | rfl) | rfl
  · omega
  · omega
  · omega
  · simp at blank
  · simp at blank

theorem startsNumber_of_numericLiteral? {literal : Text} {value : Binary64}
    (denotes : numericLiteral? literal = some value) : StartsNumber literal := by
  obtain ⟨tokens, isNumber, rfl⟩ := exists_isNumberTokens denotes
  have first : ∀ {text : Text}, IsLexeme ⟨.number, text⟩ → StartsNumber text := by
    intro text whole
    cases whole with
    | number start run => exact start
  cases isNumber with
  | one number => simpa using first number
  | signed number isSign onward digit => exact (first number).append _

/-- The mark of an exponent is no number's end. -/
theorem numericLiteral?_mark {front : Text} {mark : Char} (plain : ∀ c ∈ front, c.isDigit = true ∨ c = '.')
    (isMark : mark = 'e' ∨ mark = 'E') : numericLiteral? (front ++ [mark]) = none := by
  have noDigit : ¬ (mark.isDigit = true ∨ mark = '.') := by
    rcases isMark with rfl | rfl <;> decide
  have noSuffix : isNumberSuffix mark = false := by
    rcases isMark with rfl | rfl <;> decide
  have whole : dropTrailing isNumberSuffix (front ++ [mark]) = front ++ [mark] := by
    rw [dropTrailing, List.reverse_append, List.reverse_singleton, List.singleton_append,
      List.dropWhile_cons_of_neg (by simp [noSuffix])]
    simp
  have noMember : ∀ c, ¬ (c.isDigit = true ∨ c = '.') → c ≠ mark → c ∉ front ++ [mark] := by
    intro c other apart member
    rcases List.mem_append.mp member with inFront | isLast
    · exact other (plain c inFront)
    · exact apart (List.mem_singleton.mp isLast)
  rw [Option.eq_none_iff_forall_ne_some]
  intro value denotes
  unfold numericLiteral? at denotes
  split at denotes
  · rename_i digits eq
    refine noMember 'x' (by decide) ?_ (by simp [eq])
    rcases isMark with rfl | rfl <;> decide
  · rename_i digits eq
    refine noMember 'X' (by decide) ?_ (by simp [eq])
    rcases isMark with rfl | rfl <;> decide
  · rw [whole] at denotes
    obtain ⟨other, exponent, power, parts, -, otherPlain, found⟩ := decimal_cases denotes
    rcases exponentPart?_cases found with rfl | ⟨_, sign, first, digits, rfl, -, -, digit, more⟩
    · refine noDigit (otherPlain mark ?_)
      rw [List.append_nil] at parts
      simp [← parts]
    · have last : mark ∈ first :: digits := by
        have ends := congrArg List.getLast? parts
        rw [List.getLast?_concat, ← List.cons_append, ← List.append_assoc,
          List.getLast?_append_of_ne_nil _ (List.cons_ne_nil _ _)] at ends
        exact List.mem_of_getLast? ends.symm
      rcases List.mem_cons.mp last with rfl | inDigits
      · exact noDigit (Or.inl digit)
      · exact noDigit (Or.inl (List.all_eq_true.mp more mark inDigits))

/-- A literal has a character of no number only as the sign of its exponent. -/
theorem numericLiteral?_cases {literal : Text} {value : Binary64}
    (denotes : numericLiteral? literal = some value) :
    (∀ c ∈ literal, isNumberChar c = true) ∨
      ∃ front mark sign rest, literal = front ++ mark :: sign :: rest ∧
        (∀ c ∈ front, c.isDigit = true ∨ c = '.') ∧ (mark = 'e' ∨ mark = 'E') ∧
        (sign = '+' ∨ sign = '-') := by
  unfold numericLiteral? at denotes
  split at denotes
  · obtain ⟨n, number, -⟩ := Option.map_eq_some_iff.mp denotes
    exact Or.inl (isNumberChar_of_hexadecimal rfl number)
  · obtain ⟨n, number, -⟩ := Option.map_eq_some_iff.mp denotes
    exact Or.inl (isNumberChar_of_hexadecimal rfl number)
  · obtain ⟨trailing, split, suffix⟩ := dropTrailing_append isNumberSuffix literal
    obtain ⟨front, exponent, power, core, -, plain, found⟩ := decimal_cases denotes
    have frontRun : ∀ c ∈ front, isNumberChar c = true := fun c member =>
      isNumberChar_of_digitOrDot (plain c member)
    have trailingRun : ∀ c ∈ trailing, isNumberChar c = true := fun c member =>
      isNumberChar_of_isNumberSuffix (suffix c member)
    rw [core] at split
    rcases exponentPart?_cases found with rfl | ⟨mark, sign, first, digits, rfl, isMark, isSign, digit, more⟩
    · rw [split, List.append_nil]
      exact Or.inl (List.forall_mem_append.mpr ⟨frontRun, trailingRun⟩)
    · rcases isSign with rfl | rfl | rfl
      · have markRun : isNumberChar mark = true := by
          rcases isMark with rfl | rfl <;> decide
        have digitsRun : ∀ c ∈ first :: digits, isNumberChar c = true := List.forall_mem_cons.mpr
          ⟨isNumberChar_of_isDigit digit, fun c member =>
            isNumberChar_of_isDigit (List.all_eq_true.mp more c member)⟩
        rw [split]
        exact Or.inl (List.forall_mem_append.mpr ⟨List.forall_mem_append.mpr
          ⟨frontRun, List.forall_mem_cons.mpr ⟨markRun, digitsRun⟩⟩, trailingRun⟩)
      · exact Or.inr ⟨front, mark, '+', first :: digits ++ trailing, by simp [split], plain, isMark, Or.inl rfl⟩
      · exact Or.inr ⟨front, mark, '-', first :: digits ++ trailing, by simp [split], plain, isMark, Or.inr rfl⟩

/-- Behind the characters of a number that has a value no literal goes on. -/
theorem eq_nil_of_numericLiteral?_append {literal more : Text} {value whole : Binary64}
    (denotes : numericLiteral? literal = some value) (run : ∀ c ∈ literal, isNumberChar c = true)
    (apart : ∀ c ∈ more.head?, isNumberChar c = false)
    (longer : numericLiteral? (literal ++ more) = some whole) : more = [] := by
  cases more with
  | nil => rfl
  | cons next rest =>
      have other : isNumberChar next = false := apart next rfl
      rcases numericLiteral?_cases longer with all | ⟨front, mark, sign, digits, split, plain, isMark, isSign⟩
      · rw [all next (by simp)] at other
        cases other
      · -- Both texts are cut at their first character of no number.
        have isFront : literal = front ++ [mark] := by
          have markRun : isNumberChar mark = true := by
            rcases isMark with rfl | rfl <;> decide
          have signOther : isNumberChar sign = false := by
            rcases isSign with rfl | rfl <;> decide
          have frontRun : ∀ c ∈ front ++ [mark], isNumberChar c = true := List.forall_mem_append.mpr
            ⟨fun c member => isNumberChar_of_digitOrDot (plain c member),
              List.forall_mem_singleton.mpr markRun⟩
          rw [List.append_cons front] at split
          have cut := congrArg (List.takeWhile isNumberChar) split
          rwa [List.takeWhile_append_of_pos run, List.takeWhile_cons_of_neg (by simp [other]),
            List.takeWhile_append_of_pos frontRun, List.takeWhile_cons_of_neg (by simp [signOther]),
            List.append_nil, List.append_nil] at cut
        rw [isFront, numericLiteral?_mark plain isMark] at denotes
        cases denotes

theorem StartsNumber.exists_cons {text : Text} (starts : StartsNumber text) :
    ∃ c rest, text = c :: rest ∧ isNumberChar c = true := by
  cases text with
  | nil => exact starts.elim
  | cons c rest => exact ⟨c, rest, rfl, isNumberChar_of_digitOrDot (starts.imp_right And.left)⟩

theorem isBlank_of_isNumberChar {c : Char} (number : isNumberChar c = true) : Text.isBlank c = false := by
  rw [← Bool.not_eq_true]
  intro blank
  rw [isNumberChar_of_isBlank blank] at number
  cases number

theorem trimStart_blank_append_number {gap text : Text} (blank : Text.allBlank gap = true)
    (starts : StartsNumber text) : Text.trimStart (gap ++ text) = text := by
  obtain ⟨c, rest, rfl, number⟩ := starts.exists_cons
  rw [Text.trimStart, List.dropWhile_append_of_pos (List.all_eq_true.mp blank)]
  exact List.dropWhile_cons_of_neg (by simp [isBlank_of_isNumberChar number])

namespace IsSign

variable {sign : Text} {negate : Binary64 → Binary64} (isSign : IsSign sign negate)

include isSign

theorem isNumberChar_eq_false : ∀ c ∈ sign, isNumberChar c = false := by
  cases isSign with
  | absent => exact fun c member => absurd member List.not_mem_nil
  | minus blank =>
      exact List.forall_mem_cons.mpr ⟨by decide, fun c member =>
        isNumberChar_of_isBlank (List.all_eq_true.mp blank c member)⟩

/-- A text with a sign is cut in one way. -/
theorem cancel {other : Text} {turn : Binary64 → Binary64} (isOther : IsSign other turn)
    {first second : Text} (firstStarts : StartsNumber first) (secondStarts : StartsNumber second)
    (same : sign ++ first = other ++ second) : first = second := by
  have noMinus : ∀ {text gap : Text}, StartsNumber text → text ≠ '-' :: gap := by
    rintro text gap starts rfl
    obtain ⟨c, rest, isFirst, number⟩ := starts.exists_cons
    rw [← (List.cons.inj isFirst).1] at number
    cases number
  cases isSign with
  | absent =>
      cases isOther with
      | absent => exact same
      | minus blank => exact absurd same (noMinus firstStarts)
  | minus blank =>
      cases isOther with
      | absent => exact absurd same.symm (noMinus secondStarts)
      | minus otherBlank =>
          have behind := congrArg Text.trimStart (List.cons.inj same).2
          exact (trimStart_blank_append_number blank firstStarts).symm.trans
            (behind.trans (trimStart_blank_append_number otherBlank secondStarts))

end IsSign

theorem IsSignedLiteral.exists_isNumberChar {text : Text} {value : Binary64}
    (isLiteral : IsSignedLiteral text value) : ∃ c ∈ text, isNumberChar c = true := by
  obtain ⟨sign, negate, literal, magnitude, -, denotes, rfl, -⟩ := isLiteral
  obtain ⟨c, rest, rfl, number⟩ := (startsNumber_of_numericLiteral? denotes).exists_cons
  exact ⟨c, by simp, number⟩

theorem trimEnd_isPrefix (text : Text) : Text.trimEnd text <+: text := by
  have suffix := List.dropWhile_suffix Text.isBlank (l := text.reverse)
  rwa [← List.reverse_prefix, List.reverse_reverse] at suffix

/-- A run up to a character that the first text has ends in the first text. -/
theorem takeWhile_append_of_stop {stop : Char} {first : Text} (member : stop ∈ first) (rest : Text) :
    (first ++ rest).takeWhile (· != stop) = first.takeWhile (· != stop) := by
  rw [List.takeWhile_append]
  refine if_neg fun sameLength => ?_
  have all := (List.takeWhile_prefix (· != stop)).eq_of_length sameLength
  rw [← all] at member
  simpa using List.mem_takeWhile_imp member

/-- A number with what stands around it in a text. -/
structure IsNumberText (gap sign literal behind : Text) (negate : Binary64 → Binary64)
    (magnitude : Binary64) : Prop where
  blank : Text.allBlank gap = true
  isSign : IsSign sign negate
  run : ∀ c ∈ literal, isNumberChar c = true
  denotes : numericLiteral? literal = some magnitude
  apart : ∀ c ∈ behind.head?, isNumberChar c = false

namespace IsNumberText

variable {gap sign literal behind : Text} {negate : Binary64 → Binary64} {magnitude : Binary64}
  (isNumber : IsNumberText gap sign literal behind negate magnitude)

include isNumber

theorem isTight : Text.IsTight (sign ++ literal) := by
  obtain ⟨c, rest, rfl, number⟩ := (startsNumber_of_numericLiteral? isNumber.denotes).exists_cons
  refine ⟨by simp, fun d first => ?_, fun d last => ?_⟩
  · cases isNumber.isSign with
    | absent =>
        obtain rfl := Option.some.inj first
        exact isBlank_of_isNumberChar number
    | minus blank =>
        obtain rfl := Option.some.inj first
        decide
  · rw [List.getLast?_append_of_ne_nil _ (List.cons_ne_nil c rest)] at last
    exact isBlank_of_isNumberChar (isNumber.run d (List.mem_of_getLast? last))

theorem not_mem_of_visible {c : Char} (outside : isNumberChar c = false)
    (visible : Text.isBlank c = false) (noMinus : c ≠ '-') : c ∉ gap ++ (sign ++ literal) := by
  have noBlank : ∀ {blank : Text}, Text.allBlank blank = true → c ∉ blank := by
    intro blank all member
    rw [List.all_eq_true.mp all c member] at visible
    cases visible
  intro member
  rcases List.mem_append.mp member with inGap | behindGap
  · exact noBlank isNumber.blank inGap
  · rcases List.mem_append.mp behindGap with inSign | inLiteral
    · cases isNumber.isSign with
      | absent => cases inSign
      | minus blank => exact (List.mem_cons.mp inSign).elim noMinus (noBlank blank)
    · rw [isNumber.run c inLiteral] at outside
      cases outside

/-- If something visible stands behind the number, then the text is no literal. -/
theorem allBlank_of_isSignedLiteral {more : Text} {value : Binary64} (start : more <+: behind)
    (isLiteral : IsSignedLiteral (Text.trim (gap ++ (sign ++ literal) ++ more)) value) :
    Text.allBlank more = true := by
  by_contra visible
  rw [Bool.not_eq_true] at visible
  obtain ⟨trimmed, nonempty⟩ := Text.trimEnd_append visible (sign ++ literal)
  have starts := startsNumber_of_numericLiteral? isNumber.denotes
  have first : ∀ c ∈ (sign ++ literal ++ more).head?, Text.isBlank c = false := by
    rw [List.head?_append_of_ne_nil _ isNumber.isTight.notEmpty]
    exact isNumber.isTight.first
  rw [List.append_assoc, Text.trim_blank_append isNumber.blank, Text.trim, Text.trimStart_of_first first,
    trimmed, List.append_assoc] at isLiteral
  obtain ⟨other, turn, whole, otherMagnitude, isOther, denotes, same, -⟩ := isLiteral
  have cut := isNumber.isSign.cancel isOther (starts.append (Text.trimEnd more))
    (startsNumber_of_numericLiteral? denotes) same
  rw [← cut] at denotes
  refine nonempty (eq_nil_of_numericLiteral?_append isNumber.denotes isNumber.run ?_ denotes)
  obtain ⟨rest, parts⟩ := (trimEnd_isPrefix more).trans start
  rw [← List.head?_append_of_ne_nil _ nonempty, parts]
  exact isNumber.apart

/-- Up to a character that stands in no number, the text is a literal just in case only blanks stand behind
the number. -/
theorem isSignedLiteral_iff {stop : Char} (outside : isNumberChar stop = false) :
    IsSignedLiteral (Text.trim ((gap ++ (sign ++ literal) ++ behind).takeWhile (· != stop)))
        (negate magnitude) ↔
      stop ∉ gap ++ (sign ++ literal) ∧ Text.allBlank (behind.takeWhile (· != stop)) = true := by
  constructor
  · intro isLiteral
    have absent : stop ∉ gap ++ (sign ++ literal) := by
      intro member
      have inFront : stop ∈ gap ++ sign := by
        rw [← List.append_assoc] at member
        refine (List.mem_append.mp member).resolve_right fun inLiteral => ?_
        rw [isNumber.run stop inLiteral] at outside
        cases outside
      have noNumber : ∀ c ∈ gap ++ sign, isNumberChar c = false := List.forall_mem_append.mpr
        ⟨fun c inGap => isNumberChar_of_isBlank (List.all_eq_true.mp isNumber.blank c inGap),
          isNumber.isSign.isNumberChar_eq_false⟩
      obtain ⟨c, inText, number⟩ := isLiteral.exists_isNumberChar
      have before := mem_of_mem_trim inText
      rw [← List.append_assoc, List.append_assoc, takeWhile_append_of_stop inFront] at before
      rw [noNumber c ((List.takeWhile_prefix _).subset before)] at number
      cases number
    have front : ∀ c ∈ gap ++ (sign ++ literal), (c != stop) = true := fun c member =>
      bne_iff_ne.mpr fun same => absent (same ▸ member)
    rw [List.takeWhile_append_of_pos front] at isLiteral
    exact ⟨absent, isNumber.allBlank_of_isSignedLiteral (List.takeWhile_prefix _) isLiteral⟩
  · rintro ⟨absent, blank⟩
    have front : ∀ c ∈ gap ++ (sign ++ literal), (c != stop) = true := fun c member =>
      bne_iff_ne.mpr fun same => absent (same ▸ member)
    rw [List.takeWhile_append_of_pos front, Text.trim_append_blank blank,
      Text.trim_blank_append isNumber.blank, isNumber.isTight.trim_eq]
    exact ⟨sign, negate, literal, magnitude, isNumber.isSign, isNumber.denotes, rfl, rfl⟩

end IsNumberText

end Breadboard.Script
