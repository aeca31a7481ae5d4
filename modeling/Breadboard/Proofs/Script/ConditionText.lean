import Breadboard.Proofs.Script.CallLine
import Breadboard.Proofs.Script.ConditionParts

set_option autoImplicit false

namespace Breadboard.Script

open Sketch hiding stripComments

theorem head?_dropTrivia (tokens : List Token) :
    (dropTrivia tokens).head? = (tokens.filter (!·.isTrivia)).head? := by
  induction tokens with
  | nil => rfl
  | cons token rest ih =>
      by_cases trivia : token.isTrivia = true
      · rw [dropTrivia, List.dropWhile_cons_of_pos trivia, ← dropTrivia, ih,
          List.filter_cons_of_neg (by simp [trivia])]
      · rw [dropTrivia, List.dropWhile_cons_of_neg trivia, List.filter_cons_of_pos (by simp [trivia])]
        rfl

/-- Behind names no call goes on, neither at once nor by a method. -/
def IsUncallable (tokens : List Token) : Prop :=
  (tokens.filter (!·.isTrivia)).IsChain fun token next =>
    token.kind = .ident → next.isPunct "(" = false ∧ next.text ≠ ".".toList

theorem callAt?_of_uncallable {tokens : List Token} (uncallable : IsUncallable tokens) (head : String)
    {tail : List String} (path : ∀ part ∈ tail.head?, part = ".") (token : Token) (rest : List Token)
    (suffix : token :: rest <:+ tokens) : callAt? head tail token rest = none := by
  by_cases named : token.isIdent head = true
  · have ident : token.kind = .ident := by rw [eq_of_isIdent named]
    have inside := suffix.filter (!·.isTrivia)
    rw [List.filter_cons_of_pos (by simp [Token.isTrivia, ident])] at inside
    have apart := (List.isChain_cons.mp (List.IsChain.suffix uncallable inside)).1
    rw [← head?_dropTrivia] at apart
    rw [callAt?, if_pos named]
    cases next : dropTrivia rest with
    | nil => cases tail <;> simp [afterPath?, parenthesized?, next]
    | cons first more =>
        obtain ⟨noCall, noMethod⟩ := apart first (by rw [next]; rfl) ident
        cases tail with
        | nil => simp [afterPath?, parenthesized?, next, noCall]
        | cons part parts =>
            obtain rfl := path part rfl
            simp [afterPath?, next, show first.text ≠ ['.'] from noMethod]
  · exact callAt?_of_not_isIdent (by simpa using named) rest

/-- Tokens that assign nothing and call nothing pass the rules for types and calls, whatever their names. -/
theorem convertCalls_of_uncallable {tokens : List Token}
    (noEquals : ∀ token ∈ tokens, token.isPunct "=" = false) (uncallable : IsUncallable tokens)
    (context : Context) : convertCalls context tokens = tokens := by
  have keep (head : String) (tail : List String) (path : ∀ part ∈ tail.head?, part = ".")
      (replacement : Call → Option Text) : replaceCalls head tail replacement tokens = tokens :=
    replaceWithin_of_uncalled (fun token rest suffix =>
      callAt?_of_uncallable uncallable head path token rest suffix) _ _
  simp only [convertCalls, stripTypes_eq_self noEquals, convertAnalogRead, convertDigitalWrite,
    convertDigitalRead, convertPrintLine, convertPrint, convertDelay, keep _ [] (by simp),
    keep _ [".", "println"] (by simp), keep _ [".", "print"] (by simp)]

/-- One word or mark whose characters are all of one class. -/
structure IsMarkOf (kind : CharClass) (text : Text) : Prop where
  nonempty : text ≠ []
  chain : text.IsChain fun first second => isGlued first second = true
  classes : ∀ c ∈ text, charClass c = kind

theorem isMarkOf_word {text : Text} (nonempty : text ≠ []) (all : text.all isWordChar = true) :
    IsMarkOf .word text where
  nonempty := nonempty
  chain := isChain_isGlued_of_all
    (fun first second firstWord secondWord => by simp [isGlued, firstWord, secondWord]) all
  classes := fun c member => charClass_of_isWordChar (List.all_eq_true.mp all c member)

/-- A mark is the first one of a text that goes on with a character of another class. -/
theorem IsMarkOf.lexemes_append {kind : CharClass} {text : Text} (mark : IsMarkOf kind text)
    (visible : kind ≠ .gap) {rest : Text}
    (apart : kind ≠ .other → ∀ next ∈ rest.head?, charClass next ≠ kind) :
    lexemes (text ++ rest) = text :: lexemes rest := by
  have shown : text.all isGapChar = false := by
    obtain ⟨c, more, rfl⟩ := List.exists_cons_of_ne_nil mark.nonempty
    have noGap : isGapChar c = false := by
      by_contra gap
      rw [Bool.not_eq_false] at gap
      exact visible ((mark.classes c List.mem_cons_self).symm.trans (charClass_gap gap))
    rw [List.all_cons, noGap, Bool.false_and]
  rw [Script.lexemes_append, lexemes_part mark.nonempty mark.chain shown, List.singleton_append]
  intro last isLast next isNext
  have lastClass := mark.classes last (List.mem_of_getLast? isLast)
  by_cases other : kind = .other
  · exact isGlued_eq_false (Or.inr (Or.inl (lastClass.trans other)))
  · refine isGlued_eq_false (Or.inl fun same => ?_)
    exact apart other next isNext (same.symm.trans lastClass)

/-- The symbol becomes a word that is set off by blanks. -/
def Symbol.isOperatorWord : Symbol → Bool
  | .negation | .conjunction | .disjunction => true
  | _ => false

/-- How the script spells the symbol of a sketch. -/
def Symbol.converted (symbol : Symbol) : Text :=
  (symbol.mapWord scriptWord).scriptText

theorem isMarkOf_scriptWord {text : Text} (word : IsSketchWord text) :
    IsMarkOf .word (scriptWord text) := by
  rw [scriptWord]
  repeat' split
  iterate 4 exact isMarkOf_word (by decide) (by decide)
  exact isMarkOf_word (@Symbol.sketchText_ne_nil (.word text) word) word.all_isWordChar

theorem Symbol.isMarkOf_operatorWord {symbol : Symbol} (operator : symbol.isOperatorWord = true) :
    IsMarkOf .word symbol.converted := by
  cases symbol with
  | negation => exact isMarkOf_word (by decide) (by decide)
  | conjunction => exact isMarkOf_word (by decide) (by decide)
  | disjunction => exact isMarkOf_word (by decide) (by decide)
  | _ => cases operator

theorem Symbol.isMarkOf_converted {symbol : Symbol} (sketch : symbol.IsSketch)
    (plain : symbol.isOperatorWord = false) : IsMarkOf symbol.sketchClass symbol.converted := by
  cases symbol with
  | word text => exact isMarkOf_scriptWord sketch
  | opening => exact ⟨by decide, by decide, List.forall_mem_singleton.mpr rfl⟩
  | closing => exact ⟨by decide, by decide, List.forall_mem_singleton.mpr rfl⟩
  | sign comparison =>
      refine ⟨by cases comparison <;> decide, by cases comparison <;> decide, ?_⟩
      exact @charClass_sketchText (.sign comparison) trivial
  | _ => cases plain

theorem Symbol.words_of_isOperatorWord {symbol : Symbol} (operator : symbol.isOperatorWord = true) :
    levelWord? symbol.token = none ∧ operatorWord? symbol.token = some symbol.converted := by
  cases symbol with
  | negation => exact ⟨rfl, rfl⟩
  | conjunction => exact ⟨rfl, rfl⟩
  | disjunction => exact ⟨rfl, rfl⟩
  | _ => cases operator

theorem isIdent_word (text : Text) {name : String} (start : name.toList.head?.any isWordStart = true) :
    (Symbol.word text).token.isIdent name = true ↔ text = name.toList := by
  rw [Symbol.token, Token.isIdent, Bool.and_eq_true, beq_iff_eq, beq_iff_eq]
  refine ⟨And.right, ?_⟩
  rintro rfl
  exact ⟨if_pos start, rfl⟩

/-- A symbol that stays a word or mark is put out as it is spelled in the script. -/
theorem Symbol.exists_normalizeWords_cons {symbol : Symbol} (plain : symbol.isOperatorWord = false)
    (previous : Option Token) (rest : List Token) : ∃ token : Token, token.text = symbol.converted ∧
      (symbol ≠ .opening → touches token = true) ∧
      normalizeWords previous (symbol.token :: rest) = token :: normalizeWords (some token) rest := by
  cases symbol with
  | word text =>
      have noOperator : operatorWord? (Symbol.word text).token = none := by
        simp [operatorWord?, isPunct_word]
      have touching : touches (Symbol.word text).token = true := by
        simp [touches, isTrivia_token, isPunct_word]
      have spelled : (Symbol.word text).converted =
          (levelWord? (Symbol.word text).token).getD text := by
        show scriptWord text = _
        simp only [levelWord?, @isIdent_word text "HIGH" (by decide), @isIdent_word text "LOW" (by decide),
          @isIdent_word text "true" (by decide), @isIdent_word text "false" (by decide), scriptWord]
        repeat' split
        all_goals rfl
      cases level : levelWord? (Symbol.word text).token with
      | none =>
          refine ⟨(Symbol.word text).token, ?_, fun _ => touching,
            normalizeWords_cons_plain level noOperator _ _⟩
          rw [spelled, level]
          rfl
      | some word =>
          refine ⟨⟨.ident, word⟩, ?_, fun _ => rfl, by simp only [normalizeWords, level]⟩
          rw [spelled, level]
          rfl
  | sign comparison =>
      refine ⟨_, rfl, fun _ => ?_, normalizeWords_cons_plain ?_ ?_ _ _⟩ <;>
        · cases comparison <;> decide
  | opening => exact ⟨_, rfl, fun other => absurd rfl other, normalizeWords_cons_plain rfl rfl _ _⟩
  | closing => exact ⟨_, rfl, fun _ => rfl, normalizeWords_cons_plain rfl rfl _ _⟩
  | _ => cases plain

theorem Symbol.sketchClass_ne_gap (symbol : Symbol) : symbol.sketchClass ≠ .gap := by
  cases symbol <;> exact nofun

/-- Words and signs that follow each other are not glued. -/
theorem Symbol.sketchClass_ne {symbol next : Symbol} (follows : symbol.Follows next)
    (plain : symbol.isOperatorWord = false) (nextPlain : next.isOperatorWord = false)
    (noOther : symbol.sketchClass ≠ .other) : next.sketchClass ≠ symbol.sketchClass := by
  cases symbol <;> cases next <;> simp_all [Follows, starts, ends, isOperatorWord, sketchClass]

namespace Spells

variable {parts : List Text} {symbols : List Symbol}

/-- Behind a word or mark comes a blank, or the next symbol if that is no word set off by blanks. -/
theorem charClass_head (spells : Spells parts symbols) {token : Token} (touching : touches token = true) :
    ∀ c ∈ (render (normalizeWords (some token) (parts.map partToken))).head?, charClass c = .gap ∨
      ∃ next ∈ symbols.head?, next.isOperatorWord = false ∧ charClass c = next.sketchClass := by
  intro c first
  cases spells with
  | nil => cases first
  | gap some all rest =>
      rw [List.map_cons, partToken_gap some all, normalizeWords_cons_plain rfl rfl, render_cons,
        List.head?_append_of_ne_nil _ some] at first
      exact Or.inl (charClass_gap (List.all_eq_true.mp all c (List.mem_of_mem_head? first)))
  | @symbol parts symbols symbol sketch rest =>
      rw [List.map_cons, partToken_sketchText sketch] at first
      cases operator : symbol.isOperatorWord with
      | true =>
          obtain ⟨noLevel, word⟩ := Symbol.words_of_isOperatorWord operator
          rw [normalizeWords_cons_operator noLevel word, Option.any_some, touching, if_pos rfl] at first
          obtain rfl := Option.some.inj first
          exact Or.inl rfl
      | false =>
          obtain ⟨made, text, -, words⟩ := Symbol.exists_normalizeWords_cons operator (some token)
            (parts.map partToken)
          have mark := Symbol.isMarkOf_converted sketch operator
          rw [words, render_cons, text, List.head?_append_of_ne_nil _ mark.nonempty] at first
          exact Or.inr ⟨symbol, rfl, operator, mark.classes c (List.mem_of_mem_head? first)⟩

/-- Behind a word that is set off by blanks comes a blank. -/
theorem charClass_head_operator (spells : Spells parts symbols) (word : Token) :
    ∀ c ∈ (render (operatorBlank (parts.map partToken) ++ normalizeWords
      (some ((operatorBlank (parts.map partToken)).getLastD word)) (parts.map partToken))).head?,
      charClass c = .gap := by
  intro c first
  cases spells with
  | nil => cases first
  | @gap blank parts symbols some all rest =>
      have noBlank : operatorBlank ((blank :: parts).map partToken) = [] := by
        rw [operatorBlank, List.map_cons, partToken_gap some all]
        rfl
      rw [noBlank, List.nil_append, List.map_cons, partToken_gap some all,
        normalizeWords_cons_plain rfl rfl, render_cons, List.head?_append_of_ne_nil _ some] at first
      exact charClass_gap (List.all_eq_true.mp all c (List.mem_of_mem_head? first))
  | @symbol parts symbols symbol sketch rest =>
      have blank : operatorBlank ((symbol.sketchText :: parts).map partToken) = [blankToken] := by
        rw [operatorBlank, List.map_cons, partToken_sketchText sketch, List.head?_cons, Option.any_some,
          symbol.isTrivia_token]
        rfl
      rw [blank] at first
      obtain rfl := Option.some.inj first
      rfl

theorem render_operatorBlank (tokens : List Token) :
    (render (operatorBlank tokens)).all isGapChar = true := by
  rw [operatorBlank]
  split <;> rfl

/-- The words put out for a condition are its symbols in the script's spelling. -/
theorem lexemes_normalizeWords (spells : Spells parts symbols) (chain : symbols.IsChain Symbol.Follows)
    (previous : Option Token) :
    lexemes (render (normalizeWords previous (parts.map partToken))) = symbols.map Symbol.converted := by
  induction spells generalizing previous with
  | nil => rfl
  | gap some all rest ih =>
      rw [List.map_cons, partToken_gap some all, normalizeWords_cons_plain rfl rfl, render_cons,
        lexemes_blank_append all, ih chain]
  | @symbol parts symbols symbol sketch rest ih =>
      rw [List.map_cons, partToken_sketchText sketch, List.map_cons]
      cases operator : symbol.isOperatorWord with
      | true =>
          obtain ⟨noLevel, word⟩ := Symbol.words_of_isOperatorWord operator
          have mark := Symbol.isMarkOf_operatorWord operator
          have before : (render (if previous.any touches then [blankToken] else [])).all isGapChar = true := by
            split <;> rfl
          have apart := rest.charClass_head_operator ⟨.ident, symbol.converted⟩
          rw [normalizeWords_cons_operator noLevel word, List.append_assoc, List.cons_append, render_append,
            render_cons, lexemes_blank_append before,
            mark.lexemes_append (by decide) fun _ next isNext => by rw [apart next isNext]; decide,
            render_append, lexemes_blank_append (render_operatorBlank _), ih chain.tail]
      | false =>
          obtain ⟨made, text, touching, words⟩ := Symbol.exists_normalizeWords_cons operator previous
            (parts.map partToken)
          have mark := Symbol.isMarkOf_converted sketch operator
          rw [words, render_cons, text, mark.lexemes_append ?_ ?_, ih chain.tail]
          · exact symbol.sketchClass_ne_gap
          · intro noOther next isNext
            have notOpening : symbol ≠ .opening := by
              rintro rfl
              exact noOther rfl
            rcases rest.charClass_head (touching notOpening) next isNext with
              gap | ⟨following, isFirst, plain, cls⟩
            · exact gap ▸ symbol.sketchClass_ne_gap.symm
            · have follows := (List.isChain_cons.mp chain).1 following isFirst
              exact cls ▸ Symbol.sketchClass_ne follows operator plain noOther

end Spells

theorem isLineChar_of_isConditionChar {c : Char} (known : isConditionChar c = true) :
    isLineChar c = true := by
  rw [isConditionChar, charClass] at known
  split at known
  · exact isLineChar_of_isWordChar ‹_›
  · split at known
    · rename_i gap
      simp only [isGapChar, Bool.or_eq_true, beq_iff_eq] at gap
      rcases gap with (rfl | rfl) | rfl <;> rfl
    · split at known
      · rename_i sign
        simp only [Bool.or_eq_true, beq_iff_eq] at sign
        rcases sign with ((((rfl | rfl) | rfl) | rfl) | rfl) | rfl <;> rfl
      · simp only [bne_self_eq_false, Bool.false_or, Bool.or_eq_true, beq_iff_eq] at known
        rcases known with rfl | rfl <;> rfl

theorem isGapChar_of_isBlank {c : Char} (known : isConditionChar c = true)
    (blank : Text.isBlank c = true) : isGapChar c = true := by
  by_cases space : isSpaceChar c = true
  · simp only [isSpaceChar, Bool.or_eq_true, beq_iff_eq] at space
    rcases space with (((rfl | rfl) | rfl) | rfl) | rfl <;> first | rfl | exact absurd known (by decide)
  · rw [isBlank_eq_false (isLineChar_of_isConditionChar known) (by simpa using space)] at blank
    cases blank

namespace Spells

variable {parts : List Text} {symbols : List Symbol}

theorem isFragment (spells : Spells parts symbols) (apart : ArePartsApart parts) :
    IsFragment (parts.map partToken) where
  cut := spells.isCut apart
  inLine := List.forall_mem_map.mpr fun part member => List.all_eq_true.mpr fun c inPart =>
    isLineChar_of_isConditionChar (spells.isConditionChar part member c inPart)
  unmarked := List.forall_mem_map.mpr fun part member => by
    have noMark (mark : String) {c : Char} (inMark : c ∈ mark.toList)
        (unknown : Script.isConditionChar c = false) : (partToken part).isPunct mark = false := by
      rw [Bool.eq_false_iff]
      intro isMark
      have same : part = mark.toList := congrArg Token.text (eq_of_isPunct isMark)
      have known := spells.isConditionChar part member c (same ▸ inMark)
      rw [unknown] at known
      cases known
    rw [Token.isBlockMark, noMark ";" List.mem_cons_self (by decide),
      noMark "\x7b" List.mem_cons_self (by decide), noMark "\x7d" List.mem_cons_self (by decide)]
    rfl

theorem noEquals (spells : Spells parts symbols) :
    ∀ token ∈ parts.map partToken, token.isPunct "=" = false := by
  induction spells with
  | nil => simp
  | gap some all rest ih =>
      refine List.forall_mem_cons.mpr ⟨?_, ih⟩
      rw [partToken_gap some all]
      rfl
  | @symbol parts symbols symbol sketch rest ih =>
      refine List.forall_mem_cons.mpr ⟨?_, ih⟩
      rw [partToken_sketchText sketch]
      cases symbol with
      | word text => exact Symbol.isPunct_word text "="
      | sign comparison => cases comparison <;> decide
      | _ => decide

theorem isUncallable (spells : Spells parts symbols) (chain : symbols.IsChain Symbol.Follows) :
    IsUncallable (parts.map partToken) := by
  rw [IsUncallable, spells.filter_tokens, List.isChain_map]
  refine chain.imp fun symbol next follows ident => ?_
  have ends : symbol.ends = true := by
    cases symbol with
    | word text => rfl
    | _ => cases ident
  rw [Symbol.Follows, ends] at follows
  cases next with
  | sign comparison => cases comparison <;> decide
  | word text => cases follows
  | opening => cases follows
  | negation => cases follows
  | _ => decide

theorem render_tokens (parts : List Text) : render (parts.map partToken) = parts.flatten := by
  induction parts with
  | nil => rfl
  | cons part rest ih => rw [List.map_cons, render_cons, ih, List.flatten_cons]; rfl

end Spells

/-- The line of a header with a condition. -/
def headerLine (source : Text) : Text :=
  "if (".toList ++ source ++ ") \x7b".toList

theorem tokenize_headerLine {code : List Token} (cut : IsCut code) :
    tokenize (headerLine (render code)) = [] ++ [⟨.ident, "if".toList⟩] ++ ([⟨.space, " ".toList⟩] ++
      ⟨.punct, "(".toList⟩ :: ([] ++ code ++ [] ++ ⟨.punct, ")".toList⟩ ::
        ([⟨.space, " ".toList⟩] ++ [⟨.punct, "\x7b".toList⟩]))) := by
  have front : IsCut [⟨.ident, "if".toList⟩, ⟨.space, " ".toList⟩, ⟨.punct, "(".toList⟩] :=
    @isCut_of_tokenize_eq "if (".toList _ (by cbv) (by decide)
  have brace : IsCut [⟨.space, " ".toList⟩, ⟨.punct, "\x7b".toList⟩] :=
    @isCut_of_tokenize_eq " \x7b".toList _ (by cbv) (by decide)
  have behind : IsCut (⟨.punct, [')']⟩ :: [⟨.space, " ".toList⟩, ⟨.punct, "\x7b".toList⟩]) :=
    isCut_delimiter_cons rfl brace
  have closed := cut.append behind fun last isLast next isNext c first => by
    obtain rfl := Option.some.inj isNext
    obtain rfl := Option.some.inj first
    exact endsBefore_delimiter (cut.whole last (List.mem_of_getLast? isLast)) rfl
  have whole := front.append closed fun last isLast next _ c _ => by
    obtain rfl := Option.some.inj isLast
    exact delimiter_endsBefore rfl c
  have text : headerLine (render code) = render ([⟨.ident, "if".toList⟩, ⟨.space, " ".toList⟩,
      ⟨.punct, "(".toList⟩] ++ (code ++ ⟨.punct, [')']⟩ :: [⟨.space, " ".toList⟩,
        ⟨.punct, "\x7b".toList⟩])) := by
    rw [render_append, render_append, headerLine, List.append_assoc]
    rfl
  rw [text, whole.tokenize_render]
  simp

section

variable {source : Text} {tree : Condition}

/-- The words put out for the parts of a condition. -/
def convertedCondition (source : Text) : Text :=
  Text.trim (render (normalizeWords none ((source.splitBy isGlued).map partToken)))

/-- No rule but that for words changes the condition of a header. -/
theorem SketchParses.convertLine_headerLine (parses : SketchParses source tree) {context : Context}
    (names : context.HasScriptNames) : convertLine context (headerLine source) =
      "if ".toList ++ convertedCondition source ++ ":".toList := by
  have spells := parses.spells
  have fragment := spells.isFragment (arePartsApart_splitBy source)
  have rendered : render ((source.splitBy isGlued).map partToken) = source := by
    rw [Spells.render_tokens, List.flatten_splitBy]
  have balanced : IsBalanced ((source.splitBy isGlued).map partToken) := by
    rw [IsBalanced, ← parenDepth?_filter, spells.filter_tokens]
    exact tree.isBalanced_symbols
  have noGap : IsGap [] := by simp [IsGap]
  have blank : IsGap [⟨.space, " ".toList⟩] := by simp [IsGap, Text.allBlank, Text.isBlank]
  have line := convertLine_header names (Or.inl rfl) (Or.inl ⟨rfl, rfl⟩) blank noGap fragment balanced
    noGap blank (Or.inr rfl) (tokenize_headerLine fragment.cut)
  rw [conditionText, fragment.cut.tokenize_render, convertCalls_of_uncallable spells.noEquals
    (spells.isUncallable tree.follows_symbols.1), rendered] at line
  exact line

/-- The converted condition has the symbols of its source, each in the script's spelling. -/
theorem SketchParses.lexemes_convertedCondition (parses : SketchParses source tree) :
    lexemes (convertedCondition source) =
      (tree.mapWords scriptWord).symbols.map Symbol.scriptText := by
  have spells := parses.spells
  rw [convertedCondition, lexemes_trim, spells.lexemes_normalizeWords tree.follows_symbols.1,
    Condition.symbols_mapWords, List.map_map]
  · rfl
  · intro c member isBlank
    obtain ⟨token, inTokens, inText⟩ := List.mem_flatMap.mp member
    rcases mem_normalizeWords inTokens with stays | rfl | ⟨-, word⟩
    · obtain ⟨part, inParts, rfl⟩ := List.mem_map.mp stays
      exact isGapChar_of_isBlank (spells.isConditionChar part inParts c inText) isBlank
    · rw [List.mem_singleton.mp inText]
      rfl
    · have known : isConditionChar c = true := by
        simp [isConditionChar, charClass_of_isWordChar (List.all_eq_true.mp word c inText)]
      exact isGapChar_of_isBlank known isBlank

end

/-- The condition of a header in a sketch keeps its words, operators and parentheses, each in the script's
spelling. The script reads it with the same operators just in case each comparison is of words and groups
only, and each word is an operand of the script. -/
theorem exists_condition_iff {source : Text} {tree : Condition} (parses : SketchParses source tree)
    (firmware : Text) :
    ∃ text, convertLine (Context.harvest firmware) (headerLine source) =
        "if ".toList ++ text ++ ":".toList ∧
      lexemes text = (tree.mapWords scriptWord).symbols.map Symbol.scriptText ∧
      ((∃ made, ScriptParses text made ∧ made.ungrouped = (tree.mapWords scriptWord).ungrouped) ↔
        tree.comparesOperands = true ∧ ∀ word ∈ tree.words, isScriptAtom (scriptWord word) = true) := by
  have spelled := parses.lexemes_convertedCondition
  refine ⟨convertedCondition source,
    parses.convertLine_headerLine (Context.hasScriptNames_harvest firmware), spelled, ?_⟩
  rw [exists_scriptParses_iff spelled, Condition.isScript_mapWords_iff scriptWord parses.1]

/-- Two comparisons in parentheses: `(a < 10) && !(ready == LOW)`. -/
def groupedSource : Text :=
  "(a < 10) && !(ready == LOW)".toList

def groupedCondition : Condition :=
  .binary .conjunction
    (.group (.binary (.comparison .less) (.word "a".toList) (.word "10".toList)))
    (.negation (.group (.binary (.comparison .equal) (.word "ready".toList) (.word "LOW".toList))))

theorem sketchParses_grouped : SketchParses groupedSource groupedCondition := by
  have number : IsSketchWord "10".toList :=
    @IsSketchWord.decimal '1' ['0'] [] (by decide) (by decide) (by decide) (by decide)
  refine ⟨⟨nofun, by decide, by decide, ⟨nofun, by decide, by decide, .name (by decide), number⟩,
    by decide, nofun, by decide, by decide, .name (by decide), .name (by decide)⟩, by decide⟩

theorem exists_condition_iff_grouped : SketchParses groupedSource groupedCondition ∧
    ∃ text, convertLine (Context.harvest []) (headerLine groupedSource) =
        "if ".toList ++ text ++ ":".toList ∧
      ∃ made, ScriptParses text made ∧
        made.ungrouped = (groupedCondition.mapWords scriptWord).ungrouped := by
  obtain ⟨text, line, -, reads⟩ := exists_condition_iff sketchParses_grouped []
  exact ⟨sketchParses_grouped, text, line, reads.mpr ⟨by decide, by decide⟩⟩

/-- A comparison of a negated name: `!a == b` compares `!a` with `b`. -/
def negatedOperand : Condition :=
  .binary (.comparison .equal) (.negation (.word "a".toList)) (.word "b".toList)

/-- The script negates the comparison instead. -/
theorem negatedOperand_regroups : SketchParses "!a == b".toList negatedOperand ∧
    convertLine (Context.harvest []) (headerLine "!a == b".toList) = "if not a == b:".toList ∧
    ScriptParses "not a == b".toList
      (.negation (.binary (.comparison .equal) (.word "a".toList) (.word "b".toList))) ∧
    ¬ ∃ made, ScriptParses "not a == b".toList made ∧
      made.ungrouped = (negatedOperand.mapWords scriptWord).ungrouped := by
  have parses : SketchParses "!a == b".toList negatedOperand :=
    ⟨⟨nofun, by decide, by decide, ⟨by decide, .name (by decide)⟩, .name (by decide)⟩, by decide⟩
  have spelled : lexemes "not a == b".toList =
      (negatedOperand.mapWords scriptWord).symbols.map Symbol.scriptText := by decide
  have first : isScriptAtom "a".toList = true := by decide
  have second : isScriptAtom "b".toList = true := by decide
  refine ⟨parses, ?_, ⟨⟨by decide, (by decide : 3 < 4), by decide, first, second⟩, by decide⟩, ?_⟩
  · rw [parses.convertLine_headerLine (Context.hasScriptNames_harvest [])]
    decide
  · rw [exists_scriptParses_iff spelled, Condition.isScript_mapWords_iff scriptWord parses.1]
    exact fun reads => absurd reads.1 (by decide)

end Breadboard.Script
