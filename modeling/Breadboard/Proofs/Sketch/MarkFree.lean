import Breadboard.Proofs.Sketch.Fragment

set_option autoImplicit false

/- Texts in which no mark of a statement or a block stands outside a literal, and no comment starts. This
is told character by character, so it also holds of a text that the lexer cuts in other places than
where its pieces were joined. -/
namespace Breadboard.Sketch

/-- Where a reader of a text stands: in code, in a literal, or behind a backslash in a literal. -/
inductive Mode where
  | code (afterSlash : Bool)
  | inside (quote : Char)
  | escaped (quote : Char)
  deriving DecidableEq, Repr

def isBlockChar (c : Char) : Bool :=
  c == ';' || c == '\x7b' || c == '\x7d'

/-- Reads a character. A mark in code, the start of a comment and a line break in a literal cannot be
read. -/
def Mode.read : Mode → Char → Option Mode
  | .code afterSlash, c =>
    if isQuote c then some (.inside c)
    else if isBlockChar c || (afterSlash && (c == '/' || c == '*')) then none
    else some (.code (c == '/'))
  | .inside quote, c =>
    if c = '\\' then some (.escaped quote)
    else if isQuote c && c == quote then some (.code false)
    else if c = '\n' then none
    else some (.inside quote)
  | .escaped quote, _ => some (.inside quote)

def Mode.readAll : Mode → Text → Option Mode
  | mode, [] => some mode
  | mode, c :: rest => (mode.read c).bind (·.readAll rest)

def IsMarkFree (text : Text) : Prop :=
  ∃ afterSlash, Mode.readAll (.code false) text = some (.code afterSlash)

/-- A character that is read in code without a trace. -/
def isPlainChar (c : Char) : Bool :=
  !isQuote c && !isBlockChar c && c != '/' && c != '*'

theorem readAll_append (mode : Mode) (first second : Text) :
    mode.readAll (first ++ second) = (mode.readAll first).bind (·.readAll second) := by
  induction first generalizing mode with
  | nil => rfl
  | cons c rest ih =>
      rw [List.cons_append, Mode.readAll, Mode.readAll]
      cases mode.read c with
      | none => rfl
      | some next => exact ih next

theorem read_plain {c : Char} (plain : isPlainChar c = true) (afterSlash : Bool) :
    Mode.read (.code afterSlash) c = some (.code false) := by
  simp only [isPlainChar, Bool.and_eq_true, Bool.not_eq_true', bne_iff_ne] at plain
  obtain ⟨⟨⟨notQuote, notMark⟩, notSlash⟩, notStar⟩ := plain
  simp [Mode.read, notQuote, notMark, notSlash, notStar]

/-- A run of plain characters leaves the reader in code. -/
theorem readAll_plain {text : Text} (notEmpty : text ≠ []) (plain : text.all isPlainChar = true)
    (afterSlash : Bool) : Mode.readAll (.code afterSlash) text = some (.code false) := by
  induction text generalizing afterSlash with
  | nil => exact absurd rfl notEmpty
  | cons c rest ih =>
      rw [List.all_cons, Bool.and_eq_true] at plain
      rw [Mode.readAll, read_plain plain.1, Option.bind_some]
      cases rest with
      | nil => rfl
      | cons next more => exact ih (List.cons_ne_nil _ _) plain.2 false

theorem readAll_closesLiteral {quote : Char} (start : isQuote quote = true) {text : Text}
    (closed : closesLiteral quote text = true) :
    Mode.readAll (.inside quote) text = some (.code false) := by
  fun_induction closesLiteral quote text with
  | case1 => cases closed
  | case2 second rest ih => exact ih closed
  | case3 c rest notPair closes =>
      obtain rfl : rest = [] := by simpa using closed
      have isQuoteChar : c = quote := beq_iff_eq.mp closes
      have notSlash : c ≠ '\\' := by
        rw [isQuoteChar]
        exact ne_of_holds start rfl
      simp [Mode.readAll, Mode.read, isQuoteChar, isQuoteChar ▸ notSlash, start]
  | case4 c rest notPair goesOn ih =>
      rw [Bool.and_eq_true] at closed
      have notSlash : c ≠ '\\' := by
        rintro rfl
        cases rest with
        | nil => simp [closesLiteral] at closed
        | cons second rest => exact notPair second rest rfl rfl
      have notQuote : c ≠ quote := fun eq => goesOn (beq_iff_eq.mpr eq)
      have notBreak : c ≠ '\n' := by simpa using closed.1
      rw [Mode.readAll, Mode.read, if_neg notSlash, if_neg (by simp [notQuote]), if_neg notBreak,
        Option.bind_some, ih closed.2]

theorem isPlainChar_of_holds {p : Char → Bool} {c : Char} (holds : p c = true)
    (fails : ['\x22', '\'', ';', '\x7b', '\x7d', '/', '*'].all (fun d => !p d) = true) :
    isPlainChar c = true := by
  simp only [List.all_cons, List.all_nil, Bool.and_true, Bool.and_eq_true, Bool.not_eq_true']
    at fails
  obtain ⟨double, single, semicolon, opening, closing, slash, star⟩ := fails
  simp [isPlainChar, isQuote, isBlockChar, ne_of_holds holds double, ne_of_holds holds single,
    ne_of_holds holds semicolon, ne_of_holds holds opening, ne_of_holds holds closing,
    ne_of_holds holds slash, ne_of_holds holds star]

theorem isPlainChar_of_isOperatorPair {first second : Char}
    (operator : isOperatorPair first second = true) :
    isPlainChar second = true ∧ isQuote first = false ∧ isBlockChar first = false := by
  unfold isOperatorPair at operator
  split at operator <;> simp only [Bool.or_eq_true, beq_iff_eq, Bool.false_eq_true] at operator
  case h_8 =>
    rcases operator with (rfl | rfl) | rfl <;> exact ⟨rfl, rfl, rfl⟩
  all_goals first
    | subst operator; exact ⟨rfl, rfl, rfl⟩
    | rcases operator with rfl | rfl <;> exact ⟨rfl, rfl, rfl⟩

theorem isBlockMark_mark (c : Char) : Token.isBlockMark ⟨.punct, [c]⟩ = isBlockChar c := by
  simp [Token.isBlockMark, Token.isPunct, isBlockChar]

/-- A whole lexeme leads from code to code. Only a lone slash can start a comment together with the next
lexeme. -/
theorem readAll_lexeme {token : Token} (whole : IsLexeme token)
    (unmarked : token.isBlockMark = false) {afterSlash : Bool}
    (apart : afterSlash = true → ∀ c ∈ token.text.head?, c ≠ '/' ∧ c ≠ '*') :
    ∃ slash, Mode.readAll (.code afterSlash) token.text = some (.code slash) ∧
      (slash = true → token = ⟨.punct, ['/']⟩) := by
  cases whole with
  | @space c rest start run =>
      refine ⟨false, readAll_plain (List.cons_ne_nil _ _) ?_ _, by simp⟩
      rw [List.all_cons, Bool.and_eq_true, List.all_eq_true]
      rw [List.all_eq_true] at run
      exact ⟨isPlainChar_of_holds start rfl, fun d member => isPlainChar_of_holds (run d member) rfl⟩
  | @word c rest start run =>
      refine ⟨false, readAll_plain (List.cons_ne_nil _ _) ?_ _, by simp⟩
      rw [List.all_cons, Bool.and_eq_true, List.all_eq_true]
      rw [List.all_eq_true] at run
      exact ⟨isPlainChar_of_holds start rfl, fun d member => isPlainChar_of_holds (run d member) rfl⟩
  | @number c rest start run =>
      refine ⟨false, readAll_plain (List.cons_ne_nil _ _) ?_ _, by simp⟩
      rw [List.all_cons, Bool.and_eq_true, List.all_eq_true]
      rw [List.all_eq_true] at run
      refine ⟨?_, fun d member => isPlainChar_of_holds (run d member) rfl⟩
      rcases start with digit | ⟨rfl, -⟩
      · exact isPlainChar_of_holds digit rfl
      · rfl
  | @literal quote rest start closed =>
      refine ⟨false, ?_, by simp⟩
      rw [Mode.readAll, Mode.read, if_pos start, Option.bind_some,
        readAll_closesLiteral start closed]
  | @mark c single =>
      have notQuote : isQuote c = false := by simp_all [isMark]
      rw [isBlockMark_mark] at unmarked
      refine ⟨c == '/', ?_, fun slash => by rw [beq_iff_eq.mp slash]⟩
      have noComment : (afterSlash && (c == '/' || c == '*')) = false := by
        cases afterSlash with
        | false => rfl
        | true => simpa using apart rfl c rfl
      simp [Mode.readAll, Mode.read, notQuote, unmarked, noComment]
  | @pair first second operator =>
      obtain ⟨plain, notQuote, notMark⟩ := isPlainChar_of_isOperatorPair operator
      refine ⟨false, ?_, by simp⟩
      have noComment : (afterSlash && (first == '/' || first == '*')) = false := by
        cases afterSlash with
        | false => rfl
        | true => simpa using apart rfl first rfl
      have readFirst : Mode.read (.code afterSlash) first = some (.code (first == '/')) := by
        simp [Mode.read, notQuote, notMark, noComment]
      rw [Mode.readAll, readFirst, Option.bind_some, Mode.readAll, read_plain plain]
      rfl

/-- A literal that can be read to its end is closed where the lexer cuts it. -/
theorem closesLiteral_of_readAll {quote : Char} {text : Text} {slash : Bool}
    (start : isQuote quote = true)
    (free : Mode.readAll (.inside quote) text = some (.code slash)) :
    closesLiteral quote (text.take (literalLength quote text)) = true := by
  fun_induction literalLength quote text with
  | case1 => cases free
  | case2 => cases free
  | case3 second rest ih => exact ih free
  | case4 c rest notEnd notPair closes =>
      have plain : c ≠ '\\' := by
        rintro rfl
        cases rest with
        | nil => exact notEnd rfl rfl
        | cons second rest => exact notPair second rest rfl rfl
      rw [Mode.readAll, Mode.read, if_neg plain] at free
      by_cases isQuoteChar : c = quote
      · simp [closesLiteral, isQuoteChar]
      · have isBreak : c = '\n' := by simpa [isQuoteChar] using closes
        rw [if_neg (by simp [isQuoteChar]), if_pos isBreak] at free
        cases free
  | case5 c rest notEnd notPair goesOn ih =>
      have plain : c ≠ '\\' := by
        rintro rfl
        cases rest with
        | nil => exact notEnd rfl rfl
        | cons second rest => exact notPair second rest rfl rfl
      have goesOnWith : c ≠ quote ∧ c ≠ '\n' := by simpa using goesOn
      rw [Mode.readAll, Mode.read, if_neg plain, if_neg (by simp [goesOnWith.1]),
        if_neg goesOnWith.2, Option.bind_some] at free
      rw [List.take_succ_cons, closesLiteral]
      · simp [goesOnWith.1, goesOnWith.2, ih free]
      · intro _ _ isSlash _
        exact plain isSlash

/-- The lexer cuts a text that can be read into whole lexemes, none of them a mark of a statement or a
block. -/
theorem lexemes_of_readAll {text : Text} {afterSlash slash : Bool}
    (free : Mode.readAll (.code afterSlash) text = some (.code slash)) :
    ∀ token ∈ tokenize text, IsLexeme token ∧ token.isBlockMark = false := by
  fun_induction tokenize text generalizing afterSlash with
  | case1 => simp
  | case2 c rest kind size scanEq ih =>
      have noComment : (scan c rest).1 ≠ .comment := by
        intro comment
        obtain ⟨rfl, next, more, rfl, second⟩ := comment_of_scan comment
        cases afterSlash <;> rcases second with rfl | rfl <;> cases free
      have closed : (scan c rest).1 = .literal →
          closesLiteral c (rest.take (scan c rest).2) = true := by
        intro literal
        have quote := isQuote_of_scan literal
        rw [Mode.readAll, Mode.read, if_pos quote, Option.bind_some] at free
        rw [scan_quote quote]
        exact closesLiteral_of_readAll quote free
      have whole := (isLexeme_scan noComment closed).1
      rw [scanEq] at whole
      have apart : afterSlash = true → ∀ d ∈ (c :: rest.take size).head?, d ≠ '/' ∧ d ≠ '*' := by
        rintro rfl d first
        obtain rfl : c = d := by simpa using first
        constructor <;> rintro rfl <;> cases free
      have unmarked : Token.isBlockMark ⟨kind, c :: rest.take size⟩ = false := by
        by_contra marked
        rw [Bool.not_eq_false] at marked
        have isBlock : isBlockChar c = true := by
          simp only [Token.isBlockMark, Token.isPunct, Bool.or_eq_true, Bool.and_eq_true,
            beq_iff_eq] at marked
          rcases marked with (⟨-, text⟩ | ⟨-, text⟩) | ⟨-, text⟩ <;>
            rw [(List.cons.inj text).1] <;> rfl
        have notQuote : isQuote c = false := isQuote_eq_false isBlock rfl rfl
        rw [Mode.readAll, Mode.read, notQuote, isBlock] at free
        cases free
      obtain ⟨inner, readToken, -⟩ := readAll_lexeme whole unmarked apart
      intro token member
      rcases List.mem_cons.mp member with rfl | inRest
      · exact ⟨whole, unmarked⟩
      · have split : c :: rest = (c :: rest.take size) ++ rest.drop size := by simp
        rw [split, readAll_append, readToken, Option.bind_some] at free
        exact ih free token inRest

theorem unmarked_of_readAll {text : Text} {afterSlash slash : Bool}
    (free : Mode.readAll (.code afterSlash) text = some (.code slash)) :
    ∀ token ∈ tokenize text, token.isBlockMark = false :=
  fun token member => (lexemes_of_readAll free token member).2

theorem IsMarkFree.isCut {text : Text} (free : IsMarkFree text) : IsCut (tokenize text) := by
  obtain ⟨slash, free⟩ := free
  refine isCut_tokenize (fun token member => ?_) fun token member literal => ?_
  · obtain ⟨whole, -⟩ := lexemes_of_readAll free token member
    cases whole <;> exact nofun
  · obtain ⟨whole, -⟩ := lexemes_of_readAll free token member
    cases whole with
    | literal _ closed => exact closed
    | _ => cases literal

theorem isPlainChar_of_isBlank {c : Char} (blank : Text.isBlank c = true) : isPlainChar c = true :=
  isPlainChar_of_holds blank (by decide)

theorem all_isPlainChar_of_allBlank {blank : Text} (all : Text.allBlank blank = true) :
    blank.all isPlainChar = true :=
  List.all_eq_true.mpr fun c member => isPlainChar_of_isBlank (List.all_eq_true.mp all c member)

theorem IsMarkFree.trimStart {text : Text} (free : IsMarkFree text) :
    IsMarkFree (Text.trimStart text) := by
  induction text with
  | nil => exact free
  | cons c rest ih =>
      unfold Text.trimStart at ih ⊢
      by_cases blank : Text.isBlank c = true
      · rw [List.dropWhile_cons_of_pos blank]
        apply ih
        obtain ⟨slash, free⟩ := free
        rw [Mode.readAll, read_plain (isPlainChar_of_isBlank blank), Option.bind_some] at free
        exact ⟨slash, free⟩
      · rw [List.dropWhile_cons_of_neg blank]
        exact free

/-- A reader that a blank character brings to code stood in code before. -/
theorem code_of_read_blank {mode : Mode} {c : Char} (blank : Text.isBlank c = true) {slash : Bool}
    (reached : mode.read c = some (.code slash)) : ∃ before, mode = .code before := by
  cases mode with
  | code before => exact ⟨before, rfl⟩
  | inside quote =>
      have notQuote : isQuote c = false := isQuote_eq_false blank rfl rfl
      rw [Mode.read, notQuote, Bool.false_and, if_neg Bool.false_ne_true] at reached
      split at reached
      · cases reached
      · split at reached <;> cases reached
  | escaped quote => cases reached

theorem IsMarkFree.trimEnd {text : Text} (free : IsMarkFree text) :
    IsMarkFree (Text.trimEnd text) := by
  induction text using List.reverseRecOn with
  | nil => exact free
  | append_singleton front c ih =>
      unfold Text.trimEnd at ih ⊢
      rw [List.reverse_append, List.reverse_singleton, List.singleton_append]
      by_cases blank : Text.isBlank c = true
      · rw [List.dropWhile_cons_of_pos blank]
        apply ih
        obtain ⟨slash, free⟩ := free
        rw [readAll_append] at free
        obtain ⟨mode, readFront, reached⟩ := Option.bind_eq_some_iff.mp free
        rw [Mode.readAll] at reached
        obtain ⟨after, readLast, last⟩ := Option.bind_eq_some_iff.mp reached
        rw [Mode.readAll, Option.some_inj] at last
        subst last
        obtain ⟨before, rfl⟩ := code_of_read_blank blank readLast
        exact ⟨before, readFront⟩
      · rw [List.dropWhile_cons_of_neg blank, List.reverse_cons, List.reverse_reverse]
        exact free

theorem IsMarkFree.trim {text : Text} (free : IsMarkFree text) : IsMarkFree (Text.trim text) :=
  free.trimStart.trimEnd

theorem IsMarkFree.spaced {first second : Text} (firstFree : IsMarkFree first)
    (secondFree : IsMarkFree second) : IsMarkFree (first ++ ' ' :: second) := by
  obtain ⟨slash, firstFree⟩ := firstFree
  obtain ⟨last, secondFree⟩ := secondFree
  refine ⟨last, ?_⟩
  rw [readAll_append, firstFree, Option.bind_some, Mode.readAll, read_plain rfl, Option.bind_some,
    secondFree]

theorem IsMarkFree.append_blank {text blank : Text} (free : IsMarkFree text)
    (all : Text.allBlank blank = true) : IsMarkFree (text ++ blank) := by
  obtain ⟨slash, free⟩ := free
  by_cases nothing : blank = []
  · exact ⟨slash, by rw [nothing, List.append_nil, free]⟩
  · have plain := all_isPlainChar_of_allBlank all
    exact ⟨false, by rw [readAll_append, free, Option.bind_some, readAll_plain nothing plain]⟩

theorem IsMarkFree.blank_append {text blank : Text} (free : IsMarkFree text)
    (all : Text.allBlank blank = true) : IsMarkFree (blank ++ text) := by
  by_cases nothing : blank = []
  · rwa [nothing, List.nil_append]
  · have plain := all_isPlainChar_of_allBlank all
    obtain ⟨slash, free⟩ := free
    exact ⟨slash, by rw [readAll_append, readAll_plain nothing plain, Option.bind_some, free]⟩

end Breadboard.Sketch
