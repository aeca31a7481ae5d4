import Breadboard.Proofs.Script.ConstantDefinition
import Breadboard.Proofs.Text.Numeral
import Breadboard.Script.Loop

set_option autoImplicit false

namespace Breadboard

namespace Binary64

/-- The text has no other characters than digits and dots. -/
def IsDotted (text : Text) : Prop :=
  ∀ c ∈ text, c.isDigit = true ∨ c = '.'

/-- A text of digits and dots starts with digits, and a dot follows them. -/
theorem exists_digits_append {text : Text} (dotted : IsDotted text) :
    ∃ digits rest, text = digits ++ rest ∧ (∀ c ∈ digits, c.isDigit = true) ∧
      (rest = [] ∨ ∃ more, rest = '.' :: more ∧ IsDotted more) := by
  refine ⟨text.takeWhile Char.isDigit, text.dropWhile Char.isDigit, List.takeWhile_append_dropWhile.symm,
    fun c => List.mem_takeWhile_imp, ?_⟩
  cases rest : text.dropWhile Char.isDigit with
  | nil => exact Or.inl rfl
  | cons stop more =>
      obtain ⟨notDigit, front, -, rfl⟩ := Script.dropWhile_eq_cons.mp rest
      have isDot : stop = '.' := (dotted stop (by simp)).resolve_left (by simp [notDigit])
      exact Or.inr ⟨more, by rw [isDot], fun c member => dotted c (by simp [member])⟩

theorem span_digits {digits rest : Text} (all : ∀ c ∈ digits, c.isDigit = true)
    (stop : rest = [] ∨ ∃ more, rest = '.' :: more) :
    (digits ++ rest).span Char.isDigit = (digits, rest) := by
  have ends : rest.takeWhile Char.isDigit = [] ∧ rest.dropWhile Char.isDigit = rest := by
    rcases stop with rfl | ⟨more, rfl⟩ <;> exact ⟨rfl, rfl⟩
  rw [List.span_eq_takeWhile_dropWhile, List.takeWhile_append_of_pos all,
    List.dropWhile_append_of_pos all, ends.1, ends.2, List.append_nil]

theorem ofText?_digits {digits : Text} (all : ∀ c ∈ digits, c.isDigit = true) :
    (ofText? digits).isSome = true ↔ digits ≠ [] := by
  have spanned := span_digits all (Or.inl rfl)
  rw [List.append_nil] at spanned
  rw [ofText?, spanned]
  cases digits with
  | nil => simp
  | cons first more => simp [exponentPart?]

/-- A number with a point has a digit before it or behind it, and it ends with its digits. -/
theorem ofText?_point {whole fraction rest : Text} (wholeDigits : ∀ c ∈ whole, c.isDigit = true)
    (fractionDigits : ∀ c ∈ fraction, c.isDigit = true) (stop : rest = [] ∨ ∃ more, rest = '.' :: more) :
    (ofText? (whole ++ '.' :: (fraction ++ rest))).isSome = true ↔
      rest = [] ∧ ¬ (whole = [] ∧ fraction = []) := by
  rw [ofText?, span_digits wholeDigits (Or.inr ⟨_, rfl⟩)]
  simp only [span_digits fractionDigits stop]
  by_cases none : whole = [] ∧ fraction = []
  · simp [none]
  · have nonempty : (whole.isEmpty && fraction.isEmpty) = false := by simpa using none
    rcases stop with rfl | ⟨more, rfl⟩
    · simp [nonempty, none, exponentPart?]
    · simp [nonempty, exponentPart?]

theorem count_dot_digits {digits : Text} (all : ∀ c ∈ digits, c.isDigit = true) : digits.count '.' = 0 :=
  List.count_eq_zero.mpr fun member => absurd (all '.' member) (by decide)

theorem exists_isDigit_iff {digits : Text} (all : ∀ c ∈ digits, c.isDigit = true) :
    (∃ c ∈ digits, c.isDigit = true) ↔ digits ≠ [] := by
  constructor
  · rintro ⟨c, member, -⟩
    exact List.ne_nil_of_mem member
  · intro nonempty
    obtain ⟨c, member⟩ := List.exists_mem_of_ne_nil digits nonempty
    exact ⟨c, member, all c member⟩

/-- Digits and dots are a number if and only if there is a digit and no second dot. -/
theorem ofText?_isSome_iff {text : Text} (dotted : IsDotted text) :
    (ofText? text).isSome = true ↔ text.count '.' ≤ 1 ∧ ∃ c ∈ text, c.isDigit = true := by
  obtain ⟨whole, rest, rfl, wholeDigits, rfl | ⟨more, rfl, dottedMore⟩⟩ := exists_digits_append dotted
  · rw [List.append_nil, ofText?_digits wholeDigits, exists_isDigit_iff wholeDigits,
      count_dot_digits wholeDigits, and_iff_right (Nat.zero_le 1)]
  · obtain ⟨fraction, rest, rfl, fractionDigits, stop⟩ := exists_digits_append dottedMore
    have dots : (whole ++ '.' :: (fraction ++ rest)).count '.' = rest.count '.' + 1 := by
      rw [List.count_append, List.count_cons_self, List.count_append, count_dot_digits wholeDigits,
        count_dot_digits fractionDigits, Nat.zero_add, Nat.zero_add]
    have digits : (∃ c ∈ whole ++ '.' :: (fraction ++ []), c.isDigit = true) ↔
        ¬ (whole = [] ∧ fraction = []) := by
      rw [not_and_or, ← ne_eq, ← ne_eq, ← exists_isDigit_iff wholeDigits,
        ← exists_isDigit_iff fractionDigits, List.append_nil]
      simp [or_and_right, exists_or]
    rw [dots, ofText?_point wholeDigits fractionDigits (stop.imp_right fun ⟨more, same, _⟩ => ⟨more, same⟩)]
    rcases stop with rfl | ⟨more, rfl, -⟩
    · rw [digits]
      simp
    · simp

end Binary64

namespace Script

/-- A number that is written with digits and at most one point. -/
structure IsFraction (text : Text) : Prop where
  plain : ∀ c ∈ text, ('0' ≤ c ∧ c ≤ '9') ∨ c = '.'
  onePoint : text.count '.' ≤ 1
  digit : ∃ c ∈ text, '0' ≤ c ∧ c ≤ '9'

/-- A call that waits for a number of milliseconds, or for a number of seconds. -/
inductive IsPureWait : Text → Prop where
  | milliseconds {count : Text} {n : Nat} (isNumeral : Text.IsNumeralOf count n) (small : n < 2 ^ 64) :
      IsPureWait ("time.sleep_ms(".toList ++ count ++ ")".toList)
  | seconds {count : Text} (isFraction : IsFraction count) :
      IsPureWait ("time.sleep(".toList ++ count ++ ")".toList)

theorem callArgument?_eq_some {callee : String} {statement argument : Text} :
    callArgument? callee statement = some argument ↔
      statement = callee.toList ++ "(".toList ++ argument ++ ")".toList := by
  rw [callArgument?]
  simp only [Option.bind_eq_bind, Option.bind_eq_some_iff, List.isPrefixOf?_eq_some_iff_append_eq,
    List.isSuffixOf?_eq_some_iff_append_eq]
  constructor
  · rintro ⟨_, rfl, _, rfl, rfl⟩
    simp
  · rintro rfl
    exact ⟨'(' :: (argument ++ [')']), by simp, argument ++ [')'], rfl, rfl⟩

theorem numeralBelow?_waitBound {count : Text} {n : Nat} :
    Text.numeralBelow? waitBound count = some n ↔ Text.IsNumeralOf count n ∧ n < 2 ^ 64 := by
  rw [Text.numeralBelow?, Option.filter_eq_some_iff, Text.numeral?_eq_some_iff, decide_eq_true_iff]
  rfl

theorem isFraction_iff {text : Text} :
    IsFraction text ↔
      (text.all fun c => c.isDigit || c == '.') = true ∧ (Binary64.ofText? text).isSome = true := by
  constructor
  · rintro ⟨plain, onePoint, c, member, digit⟩
    have dotted : Binary64.IsDotted text := fun c member =>
      (plain c member).imp_left (Text.isDigit_iff_between c).mpr
    have reads := (Binary64.ofText?_isSome_iff dotted).mpr
      ⟨onePoint, c, member, (Text.isDigit_iff_between c).mpr digit⟩
    exact ⟨by simpa [Binary64.IsDotted] using dotted, reads⟩
  · rintro ⟨all, reads⟩
    have dotted : Binary64.IsDotted text := by simpa [Binary64.IsDotted] using all
    obtain ⟨onePoint, c, member, digit⟩ := (Binary64.ofText?_isSome_iff dotted).mp reads
    exact ⟨fun c member => (dotted c member).imp_left (Text.isDigit_iff_between c).mp, onePoint, c, member,
      (Text.isDigit_iff_between c).mp digit⟩

section

variable {statement count : Text}

theorem sleepDuration?_milliseconds
    (trimmed : Text.trim statement = "time.sleep_ms(".toList ++ count ++ ")".toList) :
    sleepDuration? statement = Text.numeralBelow? waitBound count := by
  have argument : callArgument? "time.sleep_ms" (Text.trim statement) = some count :=
    callArgument?_eq_some.mpr trimmed
  rw [sleepDuration?, argument]

theorem sleepDuration?_seconds
    (trimmed : Text.trim statement = "time.sleep(".toList ++ count ++ ")".toList) :
    sleepDuration? statement =
      if count.all fun c => c.isDigit || c == '.' then (Binary64.ofText? count).map wholeMilliseconds
      else none := by
  have noMilliseconds : callArgument? "time.sleep_ms" (Text.trim statement) = none := by
    rw [trimmed]
    rfl
  have argument : callArgument? "time.sleep" (Text.trim statement) = some count :=
    callArgument?_eq_some.mpr trimmed
  rw [sleepDuration?, noMilliseconds, argument, Option.map_eq_bind]
  rfl

/-- A wait of milliseconds is as long as it says. -/
theorem sleepDuration?_of_isNumeralOf {n : Nat}
    (trimmed : Text.trim statement = "time.sleep_ms(".toList ++ count ++ ")".toList)
    (isNumeral : Text.IsNumeralOf count n) (small : n < 2 ^ 64) : sleepDuration? statement = some n := by
  rw [sleepDuration?_milliseconds trimmed]
  exact numeralBelow?_waitBound.mpr ⟨isNumeral, small⟩

theorem sleepDuration?_isSome_iff :
    (sleepDuration? statement).isSome = true ↔ IsPureWait (Text.trim statement) := by
  constructor
  · intro waits
    obtain ⟨wait, waits⟩ := Option.isSome_iff_exists.mp waits
    rw [sleepDuration?] at waits
    cases milliseconds : callArgument? "time.sleep_ms" (Text.trim statement) with
    | some count =>
        rw [milliseconds] at waits
        obtain ⟨isNumeral, small⟩ := numeralBelow?_waitBound.mp waits
        rw [callArgument?_eq_some.mp milliseconds]
        exact .milliseconds isNumeral small
    | none =>
        rw [milliseconds] at waits
        obtain ⟨count, seconds, waits⟩ := Option.bind_eq_some_iff.mp waits
        obtain ⟨all, waits⟩ := Option.ite_none_right_eq_some.mp waits
        obtain ⟨value, reads, -⟩ := Option.bind_eq_some_iff.mp waits
        rw [callArgument?_eq_some.mp seconds]
        exact .seconds (isFraction_iff.mpr ⟨all, Option.isSome_iff_exists.mpr ⟨value, reads⟩⟩)
  · intro isWait
    generalize trimmed : Text.trim statement = text at isWait
    cases isWait with
    | milliseconds isNumeral small =>
        rw [sleepDuration?_of_isNumeralOf trimmed isNumeral small]
        rfl
    | seconds isFraction =>
        obtain ⟨all, reads⟩ := isFraction_iff.mp isFraction
        rw [sleepDuration?_seconds trimmed, if_pos all, Option.isSome_map]
        exact reads

end

end Script

end Breadboard
