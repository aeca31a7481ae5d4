import Breadboard.Proofs.Script.CallLiterals
import Breadboard.Proofs.Script.HeaderParts

set_option autoImplicit false

namespace Breadboard.Script

open Sketch hiding stripComments

/-- Without its comments the line is code, cut into whole lexemes. -/
theorem stripComments_code {line : Text}
    (closed : ∀ token ∈ tokenize line, token.kind = .literal → token.isClosedLiteral = true) :
    IsCode (stripComments (tokenize line)) ∧
      (∀ token ∈ stripComments (tokenize line), IsLexeme token) ∧
      (OpensCode line → OpensCode (render (stripComments (tokenize line)))) := by
  fun_induction tokenize line with
  | case1 => exact ⟨⟨by simp [stripComments], .nil⟩, by simp [stripComments], id⟩
  | case2 c rest kind size scanEq ih =>
      obtain ⟨rfl, rfl⟩ : (scan c rest).1 = kind ∧ (scan c rest).2 = size := by
        rw [scanEq]
        exact ⟨rfl, rfl⟩
      obtain ⟨here, later⟩ := List.forall_mem_cons.mp closed
      obtain ⟨code, wholes, opens⟩ := ih later
      by_cases comment : (scan c rest).1 = .comment
      · have dropped : stripComments (⟨(scan c rest).1, c :: rest.take (scan c rest).2⟩ ::
            tokenize (rest.drop (scan c rest).2)) =
            stripComments (tokenize (rest.drop (scan c rest).2)) := by
          simp [stripComments, comment]
        rw [dropped]
        refine ⟨code, wholes, fun isCode => ?_⟩
        exact absurd (comment_of_scan comment).1 (isCode c rfl).1
      · have kept : stripComments (⟨(scan c rest).1, c :: rest.take (scan c rest).2⟩ ::
            tokenize (rest.drop (scan c rest).2)) =
            ⟨(scan c rest).1, c :: rest.take (scan c rest).2⟩ ::
              stripComments (tokenize (rest.drop (scan c rest).2)) := by
          simp [stripComments, comment]
        have whole := (isLexeme_scan comment fun literal => here literal).1
        rw [kept]
        refine ⟨isCode_cons.mpr ⟨whole.isPiece, fun slash => opens ?_, code⟩,
          List.forall_mem_cons.mpr ⟨whole, wholes⟩, fun isCode d first => isCode d first⟩
        -- Behind a slash of its own no comment starts, so the next token is kept.
        obtain ⟨rfl, alone⟩ := List.cons.inj slash
        have all := List.take_append_drop (scan '/' rest).2 rest
        rw [alone, List.nil_append] at all
        rw [all]
        exact head_ne_of_scan comment

/-- Without its types the code is code, and where a type is gone a name comes next. -/
theorem stripTypes_code {tokens : List Token} (code : IsCode tokens)
    (wholes : ∀ token ∈ tokens, IsLexeme token) {afterType : Bool}
    (named : afterType = true → leadsToAssignment tokens = true) :
    IsCode (stripTypes afterType tokens) ∧ literals (stripTypes afterType tokens) = literals tokens ∧
      (afterType = true ∨ OpensCode (render tokens) →
        OpensCode (render (stripTypes afterType tokens))) := by
  induction tokens generalizing afterType with
  | nil => exact ⟨code, rfl, fun _ => by simp [stripTypes, OpensCode]⟩
  | cons token rest ih =>
      obtain ⟨piece, start, restCode⟩ := isCode_cons.mp code
      obtain ⟨whole, restWholes⟩ := List.forall_mem_cons.mp wholes
      rw [stripTypes]
      by_cases dropped : (isTypeWord token && leadsToAssignment rest) = true
      · obtain ⟨type, leads⟩ := Bool.and_eq_true_iff.mp dropped
        obtain ⟨made, same, opens⟩ := @ih restCode restWholes true fun _ => leads
        rw [if_pos dropped, literals_cons_other (by simp [kind_of_isTypeWord type])]
        exact ⟨made, same, fun _ => opens (Or.inl rfl)⟩
      rw [if_neg dropped]
      by_cases blank : (afterType && token.isTrivia) = true
      · obtain ⟨after, trivia⟩ := Bool.and_eq_true_iff.mp blank
        obtain ⟨made, same, opens⟩ := @ih restCode restWholes true fun _ => by
          rw [← leadsToAssignment_of_trivia trivia, named after]
        rw [if_pos blank, literals_cons_other (kind_ne_literal_of_isTrivia trivia)]
        exact ⟨made, same, fun _ => opens (Or.inl rfl)⟩
      rw [if_neg blank]
      obtain ⟨made, same, opens⟩ := @ih restCode restWholes false (by simp)
      refine ⟨isCode_cons.mpr ⟨piece, fun slash => opens (Or.inr (start slash)), made⟩, ?_, ?_⟩
      · rw [← List.singleton_append, literals_append, same, ← literals_append, List.singleton_append]
      · rw [render_cons, render_cons, opensCode_append_iff piece.text_ne_nil,
          opensCode_append_iff piece.text_ne_nil]
        rintro (after | isCode)
        · subst after
          have isName := head_stripTypes (named rfl)
          rw [stripTypes, if_neg dropped, if_neg blank] at isName
          obtain ⟨c, more, textEq, word⟩ := whole.exists_wordStart (isName token rfl)
          rw [textEq]
          exact opensCode_of_isWordStart word more
        · exact isCode

theorem literals_congr_cons (token : Token) {first second : List Token}
    (same : literals first = literals second) :
    literals (token :: first) = literals (token :: second) := by
  rw [← List.singleton_append, literals_append, same, ← literals_append, List.singleton_append]

theorem blanks_code {blanks tokens : List Token} (all : ∀ token ∈ blanks, token = blankToken)
    (code : IsCode tokens) : IsCode (blanks ++ tokens) ∧
      (OpensCode (render tokens) → OpensCode (render (blanks ++ tokens))) ∧
      literals (blanks ++ tokens) = literals tokens := by
  induction blanks with
  | nil => exact ⟨code, id, rfl⟩
  | cons blank rest ih =>
      obtain ⟨rfl, others⟩ := List.forall_mem_cons.mp all
      obtain ⟨restCode, -, same⟩ := ih others
      obtain ⟨made, opens⟩ := isCode_cons_plain (show TokenKind.space ≠ .literal by simp)
        (show [' '] ≠ [] by simp) (by decide) restCode
      exact ⟨made, fun _ => opens, by
        rw [List.cons_append, literals_cons_other (by simp [blankToken]), same]⟩

/-- Respelt words are code with the same literals. -/
theorem normalizeWords_code {tokens : List Token} (code : IsCode tokens) (previous : Option Token) :
    IsCode (normalizeWords previous tokens) ∧
      (OpensCode (render tokens) → OpensCode (render (normalizeWords previous tokens))) ∧
      literals (normalizeWords previous tokens) = literals tokens := by
  induction tokens generalizing previous with
  | nil => exact ⟨code, id, rfl⟩
  | cons token rest ih =>
      obtain ⟨piece, start, restCode⟩ := isCode_cons.mp code
      cases level : levelWord? token with
      | some word =>
          obtain ⟨ident, notEmpty, plain⟩ := levelWord?_eq_some level
          obtain ⟨made, -, same⟩ := ih restCode (some ⟨.ident, word⟩)
          obtain ⟨wordCode, opens⟩ := isCode_cons_plain (show TokenKind.ident ≠ .literal by simp) notEmpty
            plain made
          simp only [normalizeWords, level]
          exact ⟨wordCode, fun _ => opens, by
            rw [literals_cons_other (by simp), same, literals_cons_other (by simp [ident])]⟩
      | none =>
          cases operator : operatorWord? token with
          | none =>
              obtain ⟨made, opens, same⟩ := ih restCode (some token)
              rw [normalizeWords_cons_plain level operator, render_cons, render_cons,
                opensCode_append_iff piece.text_ne_nil, opensCode_append_iff piece.text_ne_nil]
              exact ⟨isCode_cons.mpr ⟨piece, fun slash => opens (start slash), made⟩, id,
                literals_congr_cons token same⟩
          | some word =>
              obtain ⟨-, notEmpty, plain⟩ := operatorWord?_eq_some operator
              have mark : token.kind ≠ .literal := fun literal => by
                simp [operatorWord?, Token.isPunct, literal] at operator
              obtain ⟨made, -, same⟩ := ih restCode
                (some ((operatorBlank rest).getLastD ⟨.ident, word⟩))
              obtain ⟨behind, -, behindSame⟩ :=
                @blanks_code (operatorBlank rest) _ (blank_of_ite _) made
              obtain ⟨wordCode, opens⟩ :=
                isCode_cons_plain (show TokenKind.ident ≠ .literal by simp) notEmpty plain behind
              obtain ⟨whole, blankOpens, wholeSame⟩ :=
                blanks_code (blank_of_ite (previous.any touches)) wordCode
              rw [normalizeWords_cons_operator level operator, List.append_assoc, List.cons_append]
              refine ⟨whole, fun _ => blankOpens opens, ?_⟩
              rw [wholeSame, literals_cons_other (by simp), behindSame, same,
                literals_cons_other mark]

/-- The header takes its condition and what follows it from the tokens, and leaves no literal behind. -/
structure Header.IsCutFrom (header : Header) (inner tokens : List Token) : Prop where
  keyword : header.keyword.all isPlainChar = true
  condition : header.condition = some (Text.trim (Sketch.render inner)) ∨
    header.condition = none ∧ inner = []
  parts : ∃ front back, tokens = front ++ (inner ++ (back ++ header.after)) ∧
    literals front = [] ∧ literals back = []

section

variable {header : Header} {tokens inner : List Token}

theorem exists_isCutFrom (found : header? tokens = some header) :
    ∃ inner, header.IsCutFrom inner tokens := by
  obtain ⟨keyword, parts⟩ := isReadFrom_header found
  have plain : header.keyword.all isPlainChar = true := by
    have all : (["if", "elif", "while", "else"].map String.toList).all (·.all isPlainChar) = true := rfl
    exact List.all_eq_true.mp all header.keyword keyword
  rcases parts with ⟨front, inner, others, -, rfl, condition⟩ | ⟨front, word, others, ident, rfl, condition⟩
  · refine ⟨inner, plain, Or.inl condition, front ++ [openParen], [closeParen], by simp, ?_, rfl⟩
    rw [literals_append, literals_eq_nil others]
    rfl
  · refine ⟨[], plain, Or.inr ⟨condition, rfl⟩, front ++ [word], [], by simp, ?_, rfl⟩
    rw [literals_append, literals_eq_nil others, List.nil_append]
    exact literals_cons_other (by simp [ident]) []

theorem dropOpeningBrace_code (code : IsCode tokens) :
    IsCode (dropOpeningBrace tokens) ∧ literals (dropOpeningBrace tokens) = literals tokens := by
  unfold dropOpeningBrace
  obtain ⟨lead, split, trivia⟩ := exists_trivia_append tokens
  split
  · exact ⟨code, rfl⟩
  · rename_i token rest dropped
    rw [dropped] at split
    split
    · rename_i isBrace
      refine ⟨code.part ⟨lead ++ [token], [], by rw [split]; simp⟩, ?_⟩
      rw [split, literals_append, literals_eq_nil fun other member =>
        kind_ne_literal_of_isTrivia (trivia other member), eq_of_isPunct isBrace,
        literals_cons_other (by simp)]
      rfl
    · exact ⟨code, rfl⟩

/-- The text of a header is read with the literals of the tokens that it is made from. -/
theorem readsAs_header (cut : header.IsCutFrom inner tokens) (code : IsCode tokens) :
    ReadsAs header.render (literals tokens) := by
  obtain ⟨front, back, rfl, frontNone, backNone⟩ := cut.parts
  have innerCode : IsCode inner := code.part ⟨front, back ++ header.after, by simp⟩
  have afterCode : IsCode header.after := code.part ⟨front ++ (inner ++ back), [], by simp⟩
  obtain ⟨trailingCode, trailingSame⟩ := dropOpeningBrace_code afterCode
  have trailing := IsCode.readsAs_trim trailingCode
  rw [trailingSame] at trailing
  have condition : ReadsAs ((header.condition.map (' ' :: ·)).getD []) (literals inner) := by
    rcases cut.condition with some | ⟨none, rfl⟩
    · rw [some]
      exact (IsCode.readsAs_trim innerCode).plain_append (show [' '].all isPlainChar = true by decide)
    · rw [none]
      exact .of_plain rfl
  have ending : ReadsAs ([':'] ++ (if (Text.trim (Sketch.render (dropOpeningBrace header.after))).isEmpty
      then [] else ' ' :: Text.trim (Sketch.render (dropOpeningBrace header.after))))
      (literals header.after) := by
    refine ReadsAs.plain_append (by decide) ?_
    split
    · rename_i nothing
      rwa [List.isEmpty_iff.mp nothing] at trailing
    · exact trailing.plain_append (show [' '].all isPlainChar = true by decide)
  have whole := (condition.append ending (opensCode_of_head rfl rfl)).plain_append cut.keyword
  rw [Header.render, literals_append, frontNone, literals_append, literals_append, backNone,
    List.nil_append, List.nil_append]
  rwa [← List.append_assoc, ← List.append_assoc] at whole

/-- A line that a header starts is code with the same literals in the script's form. -/
theorem convertHeader_code (code : IsCode tokens) :
    literals (convertHeader tokens) = literals tokens := by
  unfold convertHeader
  split
  · rfl
  · rename_i header found
    obtain ⟨inner, cut⟩ := exists_isCutFrom found
    exact (readsAs_header cut code).isCode.2

end

/-- The tokens that the rule for `Serial.print` works on. -/
def beforePrint (context : Context) (tokens : List Token) : List Token :=
  convertPrintLine <| convertDigitalRead context <| convertDigitalWrite context <|
    convertAnalogRead context <| stripTypes false <| stripComments tokens

/-- The tokens that the line of the script is put together from. -/
def lineTokens (context : Context) (line : Text) : List Token :=
  (convertTokens context (tokenize line)).filter (!isPunctuationDropped ·)

/-- The rule for `Serial.print` rewrites this many calls of a line and leaves none as it is. -/
def RewritesPrints (context : Context) (line : Text) (count : Nat) : Prop :=
  Rewrites "Serial" [".", "print"] printText true false (beforePrint context (tokenize line)) count
    (convertPrint (beforePrint context (tokenize line)))

theorem convertLine_eq (context : Context) (line : Text) :
    convertLine context line = Text.trim (render (lineTokens context line)) := rfl

theorem beforePrint_code {context : Context} (names : context.HasScriptNames) {line : Text}
    (closed : ∀ token ∈ tokenize line, token.kind = .literal → token.isClosedLiteral = true) :
    IsCode (beforePrint context (tokenize line)) ∧
      literals (beforePrint context (tokenize line)) = literals (tokenize line) := by
  have quoteless : IsQuoteless [] := rfl
  have stripped : literals (stripComments (tokenize line)) = literals (tokenize line) :=
    literals_filter (fun token literal => by simp [literal]) _
  obtain ⟨code, wholes, -⟩ := stripComments_code closed
  obtain ⟨untyped, sameUntyped, -⟩ := @stripTypes_code _ code wholes false (by simp)
  obtain ⟨analog, sameAnalog⟩ := replaceCalls_code "analogRead" (splices_analogRead names)
    quoteless untyped
  obtain ⟨written, sameWritten⟩ := replaceCalls_code "digitalWrite" (splices_digitalWrite names)
    quoteless analog
  obtain ⟨read, sameRead⟩ := replaceCalls_code "digitalRead" (splices_digitalRead names)
    quoteless written
  obtain ⟨printed, samePrinted⟩ := replaceCalls_code "Serial" splices_printLine
    (show IsQuoteless [".", "println"] by unfold IsQuoteless; decide) read
  refine ⟨printed, ?_⟩
  rw [← stripped, ← sameUntyped, ← sameAnalog, ← sameWritten, ← sameRead, ← samePrinted]
  rfl

/-- A line whose literals are all closed has the same literals when it is converted, in the same order,
and one more for each call of `Serial.print`: the empty text that nothing follows on the printed line. -/
theorem literals_of_converted_line (firmware line : Text)
    (closed : ∀ token ∈ tokenize line, token.kind = .literal → token.isClosedLiteral = true) :
    ∃ count, (∀ other, RewritesPrints (Context.harvest firmware) line other ↔ other = count) ∧
      (literals (tokenize line)).Sublist
        (literals (lineTokens (Context.harvest firmware) line)) ∧
      (literals (lineTokens (Context.harvest firmware) line)).Perm
        (List.replicate count endLiteral ++ literals (tokenize line)) := by
  have names := Context.hasScriptNames_harvest firmware
  obtain ⟨code, same⟩ := beforePrint_code names closed
  obtain ⟨count, run⟩ := @exists_rewrites "Serial" [".", "print"] printText true
    (render (beforePrint (Context.harvest firmware) (tokenize line))).length
    (beforePrint (Context.harvest firmware) (tokenize line))
    (fun _ => ⟨shrinks_print, Nat.le_refl _⟩) false
  obtain ⟨printed, -, supplemented⟩ :=
    run.code splices_print (show IsQuoteless [".", "print"] by unfold IsQuoteless; decide) code
  obtain ⟨delayed, sameDelayed⟩ := replaceCalls_code "delay" splices_delay (show IsQuoteless [] from rfl)
    printed
  obtain ⟨respelt, -, sameRespelt⟩ := normalizeWords_code delayed none
  have ended : literals (lineTokens (Context.harvest firmware) line) =
      literals (convertPrint (beforePrint (Context.harvest firmware) (tokenize line))) := by
    rw [lineTokens, literals_filter fun token literal => by
      simp [isPunctuationDropped, Token.isPunct, literal]]
    exact (convertHeader_code respelt).trans (sameRespelt.trans sameDelayed)
  refine ⟨count, fun other => ⟨run.count_eq, fun eq => eq ▸ run⟩, ?_, ?_⟩
  · rw [ended, ← same]
    exact supplemented.inOrder
  · rw [ended, ← same, ← List.flatten_replicate_singleton]
    exact supplemented.added

/-- A call inside a call, with a quote in the comment behind them. -/
def nestedPrint : Text :=
  "Serial.print(Serial.print(\"a;\"), 'b'); // \"c".toList

theorem tokenize_nestedPrint : tokenize nestedPrint =
    [⟨.ident, "Serial".toList⟩, ⟨.punct, ['.']⟩, ⟨.ident, "print".toList⟩, ⟨.punct, ['(']⟩,
      ⟨.ident, "Serial".toList⟩, ⟨.punct, ['.']⟩, ⟨.ident, "print".toList⟩, ⟨.punct, ['(']⟩,
      ⟨.literal, "\"a;\"".toList⟩, ⟨.punct, [')']⟩, ⟨.punct, [',']⟩, ⟨.space, [' ']⟩,
      ⟨.literal, "'b'".toList⟩, ⟨.punct, [')']⟩, ⟨.punct, [';']⟩, ⟨.space, [' ']⟩,
      ⟨.comment, "// \"c".toList⟩] := by
  cbv

theorem literals_of_converted_line_nestedPrint :
    (∀ token ∈ tokenize nestedPrint, token.kind = .literal → token.isClosedLiteral = true) ∧
    ∃ count, (∀ other, RewritesPrints (Context.harvest []) nestedPrint other ↔ other = count) ∧
      [⟨.literal, "\"a;\"".toList⟩, ⟨.literal, "'b'".toList⟩].Sublist
        (literals (lineTokens (Context.harvest []) nestedPrint)) ∧
      (literals (lineTokens (Context.harvest []) nestedPrint)).Perm
        (List.replicate count endLiteral ++
          [⟨.literal, "\"a;\"".toList⟩, ⟨.literal, "'b'".toList⟩]) := by
  have closed : ∀ token ∈ tokenize nestedPrint,
      token.kind = .literal → token.isClosedLiteral = true := by
    rw [tokenize_nestedPrint]
    decide
  have found : literals (tokenize nestedPrint) =
      [⟨.literal, "\"a;\"".toList⟩, ⟨.literal, "'b'".toList⟩] := by
    rw [tokenize_nestedPrint]
    rfl
  refine ⟨closed, ?_⟩
  rw [← found]
  exact literals_of_converted_line [] nestedPrint closed

end Breadboard.Script
