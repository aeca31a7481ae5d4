import Breadboard.Proofs.Script.ConditionTree
import Breadboard.Proofs.Script.CountedName
import Breadboard.Proofs.Sketch.Apart
import Breadboard.Proofs.Text.Trim

set_option autoImplicit false

namespace Breadboard.Script

open Sketch hiding stripComments

/-- The characters of words, of blanks and of operators. Only characters of one class are glued, and the
others stand alone. -/
inductive CharClass where
  | word
  | gap
  | sign
  | other
  deriving DecidableEq

def charClass (c : Char) : CharClass :=
  if isWordChar c then .word
  else if isGapChar c then .gap
  else if c == '=' || c == '!' || c == '<' || c == '>' || c == '&' || c == '|' then .sign
  else .other

theorem charClass_gap {c : Char} (gap : isGapChar c = true) : charClass c = .gap := by
  simp only [isGapChar, Bool.or_eq_true, beq_iff_eq] at gap
  rcases gap with (rfl | rfl) | rfl <;> rfl

theorem isGapChar_of_charClass {c : Char} (gap : charClass c = .gap) : isGapChar c = true := by
  unfold charClass at gap
  split at gap
  · cases gap
  · split at gap
    · assumption
    · split at gap <;> cases gap

theorem charClass_eq_of_isGlued {first second : Char} (glued : isGlued first second = true) :
    charClass first = charClass second ∧ charClass first ≠ .other := by
  simp only [isGlued, Bool.or_eq_true, Bool.and_eq_true, beq_iff_eq] at glued
  rcases glued with ((⟨firstWord, secondWord⟩ | ⟨firstGap, secondGap⟩) | ⟨sign, rfl⟩) | ⟨sign, rfl⟩
  · simp [charClass, firstWord, secondWord]
  · simp [charClass_gap firstGap, charClass_gap secondGap]
  · rcases sign with ((rfl | rfl) | rfl) | rfl <;> decide
  · rcases sign with ((rfl | rfl) | rfl) | rfl <;> decide

theorem isGlued_eq_false {first second : Char}
    (differ : charClass first ≠ charClass second ∨ charClass first = .other ∨
      charClass second = .other) : isGlued first second = false := by
  rw [Bool.eq_false_iff]
  intro glued
  obtain ⟨same, noOther⟩ := charClass_eq_of_isGlued glued
  rcases differ with differ | other | other
  · exact differ same
  · exact noOther other
  · exact noOther (same.trans other)

theorem lexemes_append {front back : Text}
    (apart : ∀ last ∈ front.getLast?, ∀ next ∈ back.head?, isGlued last next = false) :
    lexemes (front ++ back) = lexemes front ++ lexemes back := by
  rw [lexemes, List.splitBy_append apart, List.filter_append, lexemes, lexemes]

theorem isChain_isGlued_of_all {p : Char → Bool} (glue : ∀ first second, p first = true →
    p second = true → isGlued first second = true) {text : Text} (all : text.all p = true) :
    text.IsChain fun first second => isGlued first second = true := by
  induction text with
  | nil => exact .nil
  | cons c rest ih =>
      rw [List.all_cons, Bool.and_eq_true] at all
      refine List.isChain_cons.mpr ⟨fun next isNext => ?_, ih all.2⟩
      exact glue c next all.1 (List.all_eq_true.mp all.2 next (List.mem_of_mem_head? isNext))

theorem lexemes_blank {blank : Text} (all : blank.all isGapChar = true) : lexemes blank = [] := by
  by_cases empty : blank = []
  · rw [empty]
    rfl
  · have whole := List.splitBy_of_isChain empty (isChain_isGlued_of_all
      (fun first second firstGap secondGap => by simp [isGlued, firstGap, secondGap]) all)
    rw [lexemes, whole, List.filter_singleton, all]
    rfl

theorem lexemes_part {part : Text} (nonempty : part ≠ [])
    (chain : part.IsChain fun first second => isGlued first second = true)
    (visible : part.all isGapChar = false) : lexemes part = [part] := by
  rw [lexemes, List.splitBy_of_isChain nonempty chain, List.filter_singleton, visible]
  rfl

theorem lexemes_blank_append {blank : Text} (all : blank.all isGapChar = true) (text : Text) :
    lexemes (blank ++ text) = lexemes text := by
  have run {front : Text} (frontAll : front.all isGapChar = true) :
      lexemes (front ++ text.dropWhile isGapChar) = lexemes (text.dropWhile isGapChar) := by
    rw [lexemes_append, lexemes_blank frontAll, List.nil_append]
    intro last isLast next isNext
    have lastGap := List.all_eq_true.mp frontAll last (List.mem_of_getLast? isLast)
    have nextVisible := List.head?_dropWhile_not isGapChar text
    rw [Option.mem_def.mp isNext] at nextVisible
    refine isGlued_eq_false (Or.inl fun same => ?_)
    rw [charClass_gap lastGap] at same
    simp [isGapChar_of_charClass same.symm] at nextVisible
  have whole : text.takeWhile isGapChar ++ text.dropWhile isGapChar = text :=
    List.takeWhile_append_dropWhile
  have runAll : (text.takeWhile isGapChar).all isGapChar = true := List.all_takeWhile
  have inside := run runAll
  rw [whole] at inside
  rw [← whole, ← List.append_assoc, run (by rw [List.all_append, all, runAll]; rfl), whole, inside]

/-- Blanks at the ends of a line make no difference. -/
theorem lexemes_trim {text : Text} (gaps : ∀ c ∈ text, Text.isBlank c = true → isGapChar c = true) :
    lexemes (Text.trim text) = lexemes text := by
  obtain ⟨front, back, frontBlank, backBlank, split⟩ := Text.exists_trim text
  have allGaps {part : Text} (blank : Text.allBlank part = true) (inside : part ⊆ text) :
      part.all isGapChar = true :=
    List.all_eq_true.mpr fun c member => gaps c (inside member) (List.all_eq_true.mp blank c member)
  have frontGaps : front.all isGapChar = true := allGaps frontBlank fun c member => by
    rw [split]
    exact List.mem_append_left _ member
  have backGaps : back.all isGapChar = true := allGaps backBlank fun c member => by
    rw [split]
    exact List.mem_append_right _ (List.mem_append_right _ member)
  conv_rhs => rw [split, lexemes_blank_append frontGaps]
  rw [lexemes_append, lexemes_blank backGaps, List.append_nil]
  intro last isLast next isNext
  have nextGap := List.all_eq_true.mp backGaps next (List.mem_of_mem_head? isNext)
  have tight := (Text.isTight_trim (List.ne_nil_of_mem (List.mem_of_getLast? isLast))).last last isLast
  refine isGlued_eq_false (Or.inl fun same => ?_)
  rw [charClass_gap nextGap] at same
  have blank : Text.isBlank last = true := by
    have lastGap := isGapChar_of_charClass same
    simp only [isGapChar, Bool.or_eq_true, beq_iff_eq] at lastGap
    rcases lastGap with (rfl | rfl) | rfl <;> decide
  rw [tight] at blank
  cases blank

theorem isWordChar_of_isDigitOf {radix : Nat} {c : Char} (digit : isDigitOf radix c = true) :
    isWordChar c = true := by
  simp only [isWordChar, Char.isAlphanum, Char.isAlpha, Bool.or_eq_true, isUpper_iff, isLower_iff,
    isDigit_iff]
  rw [isDigitOf, Text.hexDigit?] at digit
  split at digit
  · rename_i range
    simp only [Char.le_def, UInt32.le_iff_toNat_le] at range
    exact Or.inl (Or.inr range)
  · split at digit
    · rename_i range
      simp only [Char.le_def, UInt32.le_iff_toNat_le] at range
      exact Or.inl (Or.inl (Or.inr ⟨range.1, range.2.trans (by decide)⟩))
    · split at digit
      · rename_i range
        simp only [Char.le_def, UInt32.le_iff_toNat_le] at range
        exact Or.inl (Or.inl (Or.inl ⟨range.1, range.2.trans (by decide)⟩))
      · cases digit

theorem all_isWordChar_suffix {digits suffix : Text} (run : digits.all isWordChar = true)
    (typed : suffix ∈ integerSuffixes) : (digits ++ suffix).all isWordChar = true := by
  have typedAll : ∀ suffix ∈ integerSuffixes, suffix.all isWordChar = true := by decide
  rw [List.all_append, run, typedAll suffix typed]
  rfl

/-- A word of a sketch is a run of word characters that starts with a letter or a digit. -/
theorem IsSketchWord.exists_cons {text : Text} (word : IsSketchWord text) :
    ∃ c rest, text = c :: rest ∧ (isWordStart c = true ∨ c.isDigit = true) ∧
      rest.all isWordChar = true := by
  have all {p : Char → Bool} (wordly : ∀ c, p c = true → isWordChar c = true) {run : Text}
      (holds : run.all p = true) : run.all isWordChar = true :=
    List.all_eq_true.mpr fun c member => wordly c (List.all_eq_true.mp holds c member)
  cases word with
  | name identifier =>
      cases text with
      | nil => cases identifier
      | cons c rest =>
          rw [isIdentifier, Bool.and_eq_true] at identifier
          exact ⟨c, rest, rfl, Or.inl identifier.1, identifier.2⟩
  | decimal start _ run typed =>
      exact ⟨_, _, rfl, Or.inr start, all_isWordChar_suffix (all (fun _ => isWordChar_of_isDigit) run) typed⟩
  | octal run typed =>
      exact ⟨_, _, rfl, Or.inr rfl,
        all_isWordChar_suffix (all (fun _ => isWordChar_of_isDigitOf) run) typed⟩
  | @marked mark radix digits suffix known some run typed =>
      have marked : ∀ entry ∈ sketchRadices, isWordChar entry.1 = true := by decide
      refine ⟨_, _, rfl, Or.inr rfl, ?_⟩
      rw [List.all_cons, marked _ known,
        all_isWordChar_suffix (all (fun _ => isWordChar_of_isDigitOf) run) typed]
      rfl

/-- The symbol is no word, or a word of a sketch. -/
def Symbol.IsSketch : Symbol → Prop
  | .word text => IsSketchWord text
  | _ => True

theorem Condition.words_of_isSketch {tree : Condition} (sketch : tree.IsSketch) :
    ∀ word ∈ tree.words, IsSketchWord word := by
  induction tree with
  | word text => exact List.forall_mem_singleton.mpr sketch
  | group inner ih => exact ih sketch
  | negation operand ih => exact ih sketch.2
  | binary operator left right leftIh rightIh =>
      exact List.forall_mem_append.mpr ⟨leftIh sketch.2.2.2.1, rightIh sketch.2.2.2.2⟩

theorem Condition.isSketch_of_mem_symbols {tree : Condition} (sketch : tree.IsSketch) :
    ∀ symbol ∈ tree.symbols, symbol.IsSketch := by
  refine forall_mem_symbols (words_of_isSketch sketch) fun symbol noWord => ?_
  cases symbol with
  | word text => exact absurd rfl (noWord text)
  | _ => trivial

/-- The kind of token that starts with the first character. -/
def partKind (part : Text) : TokenKind :=
  match part with
  | [] => .space
  | c :: _ =>
    if isGapChar c then .space
    else if isWordStart c then .ident
    else if c.isDigit then .number
    else .punct

def partToken (part : Text) : Token :=
  ⟨partKind part, part⟩

theorem isGapChar_eq_false {p : Char → Bool} {c : Char} (holds : p c = true)
    (fails : [' ', '\t', '\x0C'].all (fun d => !p d) = true) : isGapChar c = false := by
  simp only [List.all_cons, List.all_nil, Bool.and_true, Bool.and_eq_true, Bool.not_eq_true'] at fails
  simp [isGapChar, ne_of_holds holds fails.1, ne_of_holds holds fails.2.1, ne_of_holds holds fails.2.2]

theorem partToken_sketchText {symbol : Symbol} (sketch : symbol.IsSketch) :
    partToken symbol.sketchText = symbol.token := by
  cases symbol with
  | word text =>
      obtain ⟨c, rest, rfl, start, -⟩ := IsSketchWord.exists_cons sketch
      rcases start with start | digit
      · simp [partToken, partKind, Symbol.token, Symbol.sketchText, start,
          isGapChar_eq_false start (by decide)]
      · simp [partToken, partKind, Symbol.token, Symbol.sketchText, digit, isWordStart_of_isDigit digit,
          isGapChar_eq_false digit (by decide)]
  | sign comparison => cases comparison <;> rfl
  | _ => rfl

/-- The parts of a text are blanks and the symbols. -/
inductive Spells : List Text → List Symbol → Prop where
  | nil : Spells [] []
  | gap {blank : Text} {parts : List Text} {symbols : List Symbol} (nonempty : blank ≠ [])
      (all : blank.all isGapChar = true) (rest : Spells parts symbols) : Spells (blank :: parts) symbols
  | symbol {parts : List Text} {symbols : List Symbol} {symbol : Symbol} (sketch : symbol.IsSketch)
      (rest : Spells parts symbols) : Spells (symbol.sketchText :: parts) (symbol :: symbols)

theorem spells_of_filter {parts : List Text} (filled : [] ∉ parts) {symbols : List Symbol}
    (sketch : ∀ symbol ∈ symbols, symbol.IsSketch)
    (spelled : parts.filter (fun part => !part.all isGapChar) = symbols.map Symbol.sketchText) :
    Spells parts symbols := by
  induction parts generalizing symbols with
  | nil =>
      obtain rfl := List.map_eq_nil_iff.mp spelled.symm
      exact .nil
  | cons part rest ih =>
      rw [List.mem_cons, not_or] at filled
      by_cases blank : part.all isGapChar = true
      · rw [List.filter_cons_of_neg (by simp [blank])] at spelled
        exact .gap (Ne.symm filled.1) blank (ih filled.2 sketch spelled)
      · rw [List.filter_cons_of_pos (by simp [blank])] at spelled
        cases symbols with
        | nil => cases spelled
        | cons symbol symbols =>
            obtain ⟨rfl, others⟩ := List.cons.inj spelled
            rw [List.forall_mem_cons] at sketch
            exact .symbol sketch.1 (ih filled.2 sketch.2 others)

theorem SketchParses.spells {source : Text} {tree : Condition} (parses : SketchParses source tree) :
    Spells (source.splitBy isGlued) tree.symbols :=
  spells_of_filter (List.nil_notMem_splitBy _ _) (Condition.isSketch_of_mem_symbols parses.1) parses.2

/-- The class that the characters of a symbol have in a sketch. -/
def Symbol.sketchClass : Symbol → CharClass
  | .word _ => .word
  | .opening | .closing => .other
  | _ => .sign

theorem charClass_of_isWordChar {c : Char} (word : isWordChar c = true) : charClass c = .word := by
  rw [charClass, if_pos word]

theorem IsSketchWord.all_isWordChar {text : Text} (word : IsSketchWord text) :
    text.all isWordChar = true := by
  obtain ⟨c, rest, rfl, start, run⟩ := word.exists_cons
  rw [List.all_cons, run, Bool.and_true]
  exact start.elim isWordChar_of_isWordStart isWordChar_of_isDigit

theorem Symbol.charClass_sketchText {symbol : Symbol} (sketch : symbol.IsSketch) :
    ∀ c ∈ symbol.sketchText, charClass c = symbol.sketchClass := by
  cases symbol with
  | word text =>
      exact fun c member => charClass_of_isWordChar
        (List.all_eq_true.mp (IsSketchWord.all_isWordChar sketch) c member)
  | opening => exact List.forall_mem_singleton.mpr rfl
  | closing => exact List.forall_mem_singleton.mpr rfl
  | negation => exact List.forall_mem_singleton.mpr rfl
  | conjunction => exact List.forall_mem_cons.mpr ⟨rfl, List.forall_mem_singleton.mpr rfl⟩
  | disjunction => exact List.forall_mem_cons.mpr ⟨rfl, List.forall_mem_singleton.mpr rfl⟩
  | sign comparison =>
      cases comparison with
      | less => exact List.forall_mem_singleton.mpr rfl
      | greater => exact List.forall_mem_singleton.mpr rfl
      | _ => exact List.forall_mem_cons.mpr ⟨rfl, List.forall_mem_singleton.mpr rfl⟩

theorem Symbol.sketchText_ne_nil {symbol : Symbol} (sketch : symbol.IsSketch) :
    symbol.sketchText ≠ [] := by
  cases symbol with
  | word text =>
      obtain ⟨c, rest, rfl, -⟩ := IsSketchWord.exists_cons sketch
      exact List.cons_ne_nil c rest
  | sign comparison => cases comparison <;> decide
  | _ => decide

theorem Symbol.isLexeme_token {symbol : Symbol} (sketch : symbol.IsSketch) : IsLexeme symbol.token := by
  cases symbol with
  | word text =>
      obtain ⟨c, rest, rfl, start, run⟩ := IsSketchWord.exists_cons sketch
      by_cases letter : isWordStart c = true
      · simpa [token, letter] using IsLexeme.word letter run
      · have digit := start.resolve_left letter
        have number : rest.all isNumberChar = true := List.all_eq_true.mpr fun d member => by
          have word := List.all_eq_true.mp run d member
          simp only [isWordChar, Bool.or_eq_true] at word
          rcases word with word | word <;> simp [isNumberChar, word]
        simpa [token, letter] using IsLexeme.number (Or.inl digit) number
  | sign comparison =>
      cases comparison with
      | less => exact .mark (by decide)
      | greater => exact .mark (by decide)
      | _ => exact .pair (by decide)
  | conjunction => exact .pair (by decide)
  | disjunction => exact .pair (by decide)
  | _ => exact .mark (by decide)

theorem Symbol.isTrivia_token (symbol : Symbol) : symbol.token.isTrivia = false := by
  cases symbol with
  | word text =>
      rw [token, Token.isTrivia]
      split <;> rfl
  | _ => rfl

theorem Symbol.kind_ne_space (symbol : Symbol) : symbol.token.kind ≠ .space := by
  intro space
  have visible := symbol.isTrivia_token
  rw [Token.isTrivia, space] at visible
  cases visible

/-- The characters of conditions. -/
def isConditionChar (c : Char) : Bool :=
  charClass c != .other || c == '(' || c == ')'

theorem isConditionChar_sketchText {symbol : Symbol} (sketch : symbol.IsSketch) :
    ∀ c ∈ symbol.sketchText, isConditionChar c = true := by
  have classes := Symbol.charClass_sketchText sketch
  cases symbol with
  | opening => exact List.forall_mem_singleton.mpr rfl
  | closing => exact List.forall_mem_singleton.mpr rfl
  | _ => exact fun c member => by simp [isConditionChar, classes c member, Symbol.sketchClass]

namespace Spells

variable {parts : List Text} {symbols : List Symbol}

theorem isConditionChar (spells : Spells parts symbols) :
    ∀ part ∈ parts, ∀ c ∈ part, isConditionChar c = true := by
  induction spells with
  | nil => simp
  | gap some all rest ih =>
      refine List.forall_mem_cons.mpr ⟨fun c member => ?_, ih⟩
      simp [Script.isConditionChar, charClass_gap (List.all_eq_true.mp all c member)]
  | symbol sketch rest ih =>
      exact List.forall_mem_cons.mpr ⟨isConditionChar_sketchText sketch, ih⟩

theorem partToken_gap {blank : Text} (nonempty : blank ≠ []) (all : blank.all isGapChar = true) :
    partToken blank = ⟨.space, blank⟩ := by
  obtain ⟨c, rest, rfl⟩ := List.exists_cons_of_ne_nil nonempty
  rw [List.all_cons, Bool.and_eq_true] at all
  simp [partToken, partKind, all.1]

theorem isSpaceChar_of_isGapChar {c : Char} (gap : isGapChar c = true) : isSpaceChar c = true := by
  simp only [isGapChar, Bool.or_eq_true, beq_iff_eq] at gap
  rcases gap with (rfl | rfl) | rfl <;> rfl

theorem isLexeme (spells : Spells parts symbols) :
    ∀ part ∈ parts, IsLexeme (partToken part) := by
  induction spells with
  | nil => simp
  | @gap blank parts symbols some all rest ih =>
      refine List.forall_mem_cons.mpr ⟨?_, ih⟩
      rw [partToken_gap some all]
      obtain ⟨c, more, rfl⟩ := List.exists_cons_of_ne_nil some
      rw [List.all_cons, Bool.and_eq_true] at all
      exact .space (isSpaceChar_of_isGapChar all.1) (List.all_eq_true.mpr fun d member =>
        isSpaceChar_of_isGapChar (List.all_eq_true.mp all.2 d member))
  | symbol sketch rest ih =>
      refine List.forall_mem_cons.mpr ⟨?_, ih⟩
      rw [partToken_sketchText sketch]
      exact Symbol.isLexeme_token sketch

end Spells

theorem endsBefore_mark {mark next : Char} (known : mark = '!' ∨ mark = '<' ∨ mark = '>')
    (plain : isWordChar mark = false ∧ isGapChar mark = false) (unglued : isGlued mark next = false) :
    (⟨.punct, [mark]⟩ : Token).endsBefore next = true := by
  simp only [isGlued, plain.1, plain.2, Bool.false_and, Bool.false_or, Bool.or_eq_false_iff] at unglued
  rcases known with rfl | rfl | rfl <;> simp_all [Token.endsBefore, isOperatorPair]

/-- The lexer of sketches ends a symbol where the parts end. -/
theorem Symbol.endsBefore_of_unglued {symbol : Symbol} (sketch : symbol.IsSketch) {next : Char}
    (unglued : ∀ last ∈ symbol.sketchText.getLast?, isGlued last next = false)
    (known : isConditionChar next = true) : symbol.token.endsBefore next = true := by
  have noDot : next ≠ '.' := by
    rintro rfl
    exact absurd known (by decide)
  cases symbol with
  | word text =>
      have apart : isWordChar next = false := by
        obtain ⟨c, rest, split, -⟩ := IsSketchWord.exists_cons sketch
        have nonempty : text ≠ [] := by simp [split]
        have last := List.getLast?_eq_some_getLast nonempty
        have word := List.all_eq_true.mp (IsSketchWord.all_isWordChar sketch) _ (List.getLast_mem nonempty)
        have apart := unglued _ last
        simp only [isGlued, word, Bool.true_and, Bool.or_eq_false_iff] at apart
        exact apart.1.1.1
      have noNumber : isNumberChar next = false := by
        simp only [isWordChar, Bool.or_eq_false_iff] at apart
        simp [isNumberChar, apart.1, apart.2, noDot]
      by_cases letter : text.head?.any isWordStart = true
      · simp [token, letter, Token.endsBefore, apart]
      · simp [token, letter, Token.endsBefore, noNumber]
  | sign comparison =>
      cases comparison with
      | less => exact endsBefore_mark (by decide) (by decide) (unglued '<' rfl)
      | greater => exact endsBefore_mark (by decide) (by decide) (unglued '>' rfl)
      | _ => rfl
  | negation => exact endsBefore_mark (by decide) (by decide) (unglued '!' rfl)
  | conjunction => rfl
  | disjunction => rfl
  | opening => exact delimiter_endsBefore rfl next
  | closing => exact delimiter_endsBefore rfl next

/-- The parts stand next to each other unglued. -/
def ArePartsApart (parts : List Text) : Prop :=
  parts.IsChain fun first second => ∀ last ∈ first.getLast?, ∀ next ∈ second.head?,
    isGlued last next = false

theorem arePartsApart_splitBy (text : Text) : ArePartsApart (text.splitBy isGlued) := by
  refine (List.isChain_getLast_head_splitBy isGlued text).imp ?_
  rintro first second ⟨firstSome, secondSome, unglued⟩ last isLast next isNext
  rw [List.getLast?_eq_some_getLast firstSome, Option.mem_some_iff] at isLast
  rw [List.head?_eq_some_head secondSome, Option.mem_some_iff] at isNext
  rwa [← isLast, ← isNext]

namespace Spells

variable {parts : List Text} {symbols : List Symbol}

theorem isCut (spells : Spells parts symbols) (apart : ArePartsApart parts) :
    IsCut (parts.map partToken) := by
  induction spells with
  | nil => exact isCut_nil
  | @gap blank parts symbols some all rest ih =>
      have whole := (Spells.gap some all rest).isLexeme blank List.mem_cons_self
      refine IsCut.cons whole (fun token isNext c first => ?_) (ih apart.tail)
      cases rest with
      | nil => cases isNext
      | gap nextSome nextAll more =>
          obtain rfl := Option.some.inj isNext
          have glued := (List.isChain_cons_cons.mp apart).1 _
            (List.getLast?_eq_some_getLast some) c first
          have lastGap := List.all_eq_true.mp all _ (List.getLast_mem some)
          have nextGap := List.all_eq_true.mp nextAll c (List.mem_of_mem_head? first)
          simp [isGlued, lastGap, nextGap] at glued
      | symbol sketch more =>
          obtain rfl := Option.some.inj isNext
          rw [partToken_sketchText sketch] at first
          have visible := isSpaceChar_first (Symbol.isLexeme_token sketch) (Symbol.kind_ne_space _) c first
          rw [partToken_gap some all]
          simp [Token.endsBefore, visible]
  | @symbol parts symbols symbol sketch rest ih =>
      have whole := (Spells.symbol sketch rest).isLexeme _ List.mem_cons_self
      refine IsCut.cons whole (fun token isNext c first => ?_) (ih apart.tail)
      obtain ⟨next, more, rfl⟩ : ∃ next more, parts = next :: more := by
        cases parts with
        | nil => cases isNext
        | cons next more => exact ⟨next, more, rfl⟩
      obtain rfl := Option.some.inj isNext
      rw [partToken_sketchText sketch]
      exact Symbol.endsBefore_of_unglued sketch
        (fun last isLast => (List.isChain_cons_cons.mp apart).1 last isLast c first)
        (rest.isConditionChar next List.mem_cons_self c (List.mem_of_mem_head? first))

theorem filter_tokens (spells : Spells parts symbols) :
    (parts.map partToken).filter (!·.isTrivia) = symbols.map Symbol.token := by
  induction spells with
  | nil => rfl
  | gap some all rest ih =>
      rw [List.map_cons, partToken_gap some all, List.filter_cons_of_neg (by simp [Token.isTrivia]), ih]
  | symbol sketch rest ih =>
      rw [List.map_cons, partToken_sketchText sketch,
        List.filter_cons_of_pos (by rw [Symbol.isTrivia_token]; rfl), ih, List.map_cons]

end Spells

theorem parenDepth?_filter (depth : Nat) (tokens : List Token) :
    parenDepth? depth (tokens.filter (!·.isTrivia)) = parenDepth? depth tokens := by
  induction tokens generalizing depth with
  | nil => rfl
  | cons token rest ih =>
      by_cases trivia : token.isTrivia = true
      · have skipped := parenDepth?_trivia (List.forall_mem_singleton.mpr trivia) depth
        rw [List.filter_cons_of_neg (by simp [trivia]), ih, ← List.singleton_append, parenDepth?_append,
          skipped, Option.bind_some]
      · rw [List.filter_cons_of_pos (by simp [trivia]), parenDepth?_cons, parenDepth?_cons]
        simp only [ih]

/-- An operand can start with the symbol. -/
def Symbol.starts : Symbol → Bool
  | .word _ | .opening | .negation => true
  | _ => false

/-- An operand can end with the symbol. -/
def Symbol.ends : Symbol → Bool
  | .word _ | .closing => true
  | _ => false

/-- An operand starts behind each symbol that ends none. -/
def Symbol.Follows (first second : Symbol) : Prop :=
  second.starts = !first.ends

theorem Operator.starts_symbol (operator : Operator) :
    operator.symbol.starts = false ∧ operator.symbol.ends = false := by
  cases operator <;> exact ⟨rfl, rfl⟩

/-- In a tree operands and operators take turns. -/
theorem Condition.follows_symbols (tree : Condition) :
    tree.symbols.IsChain Symbol.Follows ∧ (∀ symbol ∈ tree.symbols.head?, symbol.starts = true) ∧
      ∀ symbol ∈ tree.symbols.getLast?, symbol.ends = true := by
  induction tree with
  | word text => exact ⟨.singleton _, by simp [symbols, Symbol.starts], by simp [symbols, Symbol.ends]⟩
  | group inner ih =>
      obtain ⟨chain, first, last⟩ := ih
      have closed : (inner.symbols ++ [Symbol.closing]).IsChain Symbol.Follows := by
        refine chain.append (.singleton _) fun symbol isLast next isNext => ?_
        obtain rfl := Option.some.inj isNext
        simp [Symbol.Follows, last symbol isLast, Symbol.starts]
      refine ⟨List.isChain_cons.mpr ⟨fun next isNext => ?_, closed⟩, by simp [symbols, Symbol.starts],
        by simp [symbols, Symbol.ends, List.getLast?_cons]⟩
      rw [List.head?_append_of_ne_nil _ inner.symbols_ne_nil] at isNext
      simp [Symbol.Follows, first next isNext, Symbol.ends]
  | negation operand ih =>
      obtain ⟨chain, first, last⟩ := ih
      refine ⟨List.isChain_cons.mpr ⟨fun next isNext => ?_, chain⟩, by simp [symbols, Symbol.starts],
        fun symbol isLast => ?_⟩
      · simp [Symbol.Follows, first next isNext, Symbol.ends]
      · rw [symbols, List.getLast?_cons_of_ne_nil operand.symbols_ne_nil] at isLast
        exact last symbol isLast
  | binary operator left right leftIh rightIh =>
      obtain ⟨leftChain, leftFirst, leftLast⟩ := leftIh
      obtain ⟨rightChain, rightFirst, rightLast⟩ := rightIh
      have behind : (operator.symbol :: right.symbols).IsChain Symbol.Follows :=
        List.isChain_cons.mpr ⟨fun next isNext => by
          simp [Symbol.Follows, rightFirst next isNext, operator.starts_symbol.2], rightChain⟩
      refine ⟨leftChain.append behind fun symbol isLast next isNext => ?_, fun symbol isFirst => ?_,
        fun symbol isLast => ?_⟩
      · obtain rfl := Option.some.inj isNext
        simp [Symbol.Follows, leftLast symbol isLast, operator.starts_symbol.1]
      · rw [symbols, List.head?_append_of_ne_nil _ left.symbols_ne_nil] at isFirst
        exact leftFirst symbol isFirst
      · rw [symbols, List.getLast?_append_of_ne_nil _ (List.cons_ne_nil _ _),
          List.getLast?_cons_of_ne_nil right.symbols_ne_nil] at isLast
        exact rightLast symbol isLast

end Breadboard.Script
