import Breadboard.Proofs.Script.BlockLines
import Breadboard.Proofs.Script.CallLine
import Breadboard.Proofs.Script.CountedName
import Breadboard.Proofs.Script.Definition

set_option autoImplicit false

namespace Breadboard.Script

open Sketch hiding stripComments

/-- Code with known tokens. -/
def Code.ofTokens (tokens : List Token) (fragment : IsFragment tokens) (balanced : IsBalanced tokens)
    (start : tokens.head?.any (·.kind != .space) = true)
    (finish : tokens.getLast?.any (·.kind != .space) = true) : Code where
  text := render tokens
  inLine := by
    rw [List.all_eq_true]
    intro c member
    obtain ⟨token, inTokens, inText⟩ := List.mem_flatMap.mp member
    exact List.all_eq_true.mp (fragment.inLine token inTokens) c inText
  noComment := by
    rw [fragment.cut.tokenize_render]
    exact fun token member => IsLexeme.kind_ne_comment (fragment.cut.whole token member)
  closed := by
    rw [fragment.cut.tokenize_render]
    exact fun token member => isClosedLiteral_of_isLexeme (fragment.cut.whole token member)
  unmarked := by
    rw [fragment.cut.tokenize_render]
    exact fragment.unmarked
  balanced := by rwa [fragment.cut.tokenize_render]
  start := by rwa [fragment.cut.tokenize_render]
  finish := by rwa [fragment.cut.tokenize_render]

def Gap.none : Gap := ⟨[], rfl⟩

def Gap.lineBreak : Gap := ⟨['\n'], rfl⟩

def Spacing.none : Spacing := ⟨Gap.none, rfl⟩

def Spacing.one : Spacing := ⟨⟨[' '], rfl⟩, rfl⟩

/-- The tokens of a statement, with the semicolon behind it. -/
structure IsStatementCode (code : List Token) : Prop where
  ends : code.dropLast ++ [semicolon] = code
  cut : IsCut code
  inLine : ∀ token ∈ code.dropLast, token.text.all isLineChar = true
  unmarked : ∀ token ∈ code.dropLast, token.isBlockMark = false
  balanced : IsBalanced code.dropLast
  start : code.dropLast.head?.any (·.kind != .space) = true
  finish : code.dropLast.getLast?.any (·.kind != .space) = true
  noHeader : code.dropLast.head?.any (fun token =>
    token.isIdent "if" || token.isIdent "else" || token.isIdent "while") = false

theorem IsStatementCode.isFragment {code : List Token} (isCode : IsStatementCode code) :
    IsFragment code.dropLast :=
  ⟨isCode.cut.part (List.dropLast_prefix code).isInfix, isCode.inLine, isCode.unmarked⟩

theorem IsStatementCode.render_eq {code : List Token} (isCode : IsStatementCode code) :
    render code.dropLast ++ Spacing.none.text ++ [';'] = render code := by
  have rendered := congrArg render isCode.ends
  rw [render_append] at rendered
  rw [← rendered]
  exact congrArg (· ++ [';']) (List.append_nil _)

/-- A statement with known tokens. -/
def Simple.ofCode {context : Context} {code : List Token} (isCode : IsStatementCode code)
    (converts : convertLine context (render code) ≠ []) : Simple context where
  toCode := .ofTokens code.dropLast isCode.isFragment isCode.balanced isCode.start isCode.finish
  trailing := .none
  noHeader := by
    have cutAt := isCode.isFragment.cut.tokenize_render
    exact (congrArg (fun tokens : List Token => tokens.head?.any _) cutAt).trans isCode.noHeader
  converts := by
    rw [← isCode.render_eq] at converts
    exact converts

section

variable {context : Context} {code : List Token} (isCode : IsStatementCode code)
  (converts : convertLine context (render code) ≠ [])

theorem Simple.source_ofCode : (Simple.ofCode isCode converts).source = render code :=
  isCode.render_eq

theorem Simple.tokens_ofCode : (Simple.ofCode isCode converts).tokens = code := by
  have cutAt := isCode.isFragment.cut.tokenize_render
  exact (congrArg (· ++ [semicolon]) cutAt).trans isCode.ends

end

theorem isClosed_of_unmarked {tokens : List Token}
    (unmarked : ∀ token ∈ tokens, token.isBlockMark = false) : IsClosed "\x7b" "\x7d" tokens := by
  refine .of_plain fun token member => ?_
  have noMark := unmarked token member
  rw [Token.isBlockMark, Bool.or_eq_false_iff, Bool.or_eq_false_iff] at noMark
  exact ⟨noMark.1.2, noMark.2⟩

theorem Gap.isClosed_tokens (gap : Gap) : IsClosed "\x7b" "\x7d" gap.tokens :=
  isClosed_of_unmarked gap.isGap.unmarked

theorem Guard.isClosed_tokens (guard : Guard) : IsClosed "\x7b" "\x7d" guard.tokens :=
  isClosed_of_unmarked fun token member => (guard.isInline token member).2

mutual

theorem Statement.isClosed_tokens {context : Context} :
    ∀ statement : Statement context, IsClosed "\x7b" "\x7d" statement.tokens
  | .simple code => by
      refine IsClosed.append (isClosed_of_unmarked code.unmarked) (.append ?_ ?_)
      · exact code.trailing.isClosed_tokens
      · exact .cons (by decide) (by decide) .nil
  | .branch guard body next =>
      .cons (by decide) (by decide) (guard.isClosed_tokens.append (guard.after.isClosed_tokens.append
        (.group body.isClosed_tokens next.isClosed_tokens)))
  | .loop guard body =>
      .cons (by decide) (by decide) (guard.isClosed_tokens.append (guard.after.isClosed_tokens.append
        (.group body.isClosed_tokens .nil)))

theorem Alternative.isClosed_tokens {context : Context} :
    ∀ next : Alternative context, IsClosed "\x7b" "\x7d" next.tokens
  | .none => .nil
  | .otherwise before after body =>
      before.isClosed_tokens.append (.cons (by decide) (by decide)
        (after.isClosed_tokens.append (.group body.isClosed_tokens .nil)))
  | .elseIf before between _ guard body next =>
      before.isClosed_tokens.append (.cons (by decide) (by decide)
        (between.isClosed_tokens.append (.cons (by decide) (by decide)
          (guard.isClosed_tokens.append (guard.after.isClosed_tokens.append
            (.group body.isClosed_tokens next.isClosed_tokens))))))

/-- The body of a function ends where its block ends. -/
theorem Block.isClosed_tokens {context : Context} :
    ∀ block : Block context, IsClosed "\x7b" "\x7d" block.tokens
  | .done gap => gap.isClosed_tokens
  | .cons gap statement rest =>
      gap.isClosed_tokens.append (statement.isClosed_tokens.append rest.isClosed_tokens)

end

/-- The functions whose calls have rules. -/
def callHeads : List String :=
  ["analogRead", "digitalWrite", "digitalRead", "Serial", "delay"]

/-- Tokens that assign nothing and call nothing pass the rules for types and calls. -/
theorem convertCalls_of_absent {tokens : List Token}
    (noEquals : ∀ token ∈ tokens, token.isPunct "=" = false)
    (absent : ∀ head ∈ callHeads, ∀ token ∈ tokens, token.isIdent head = false) (context : Context) :
    convertCalls context tokens = tokens := by
  have analog : convertAnalogRead context tokens = tokens :=
    replaceCalls_of_absent (absent _ (by decide))
  have write : convertDigitalWrite context tokens = tokens :=
    replaceCalls_of_absent (absent _ (by decide))
  have read : convertDigitalRead context tokens = tokens :=
    replaceCalls_of_absent (absent _ (by decide))
  refine convertCalls_of_accessed ?_ (absent _ (by decide)) (.of_absent (absent _ (by decide)))
  rw [stripTypes_eq_self noEquals, analog, write, read]

section

variable {name : Text}

theorem isFragment_word (identifier : isIdentifier name = true) : IsFragment [⟨.ident, name⟩] := by
  have words := all_isWordChar_of_isIdentifier identifier
  cases name with
  | nil => cases identifier
  | cons c rest =>
      rw [isIdentifier, Bool.and_eq_true] at identifier
      refine ⟨⟨List.forall_mem_singleton.mpr (.word identifier.1 identifier.2), .singleton _⟩,
        List.forall_mem_singleton.mpr ?_, List.forall_mem_singleton.mpr rfl⟩
      exact List.all_eq_true.mpr fun d member =>
        isLineChar_of_isWordChar (List.all_eq_true.mp words d member)

/-- A name alone. -/
def Code.word (name : Text) (identifier : isIdentifier name = true) : Code :=
  .ofTokens [⟨.ident, name⟩] (isFragment_word identifier) rfl rfl rfl

@[simp] theorem Code.text_word (identifier : isIdentifier name = true) :
    (Code.word name identifier).text = name :=
  List.append_nil name

theorem tokenize_word (identifier : isIdentifier name = true) :
    tokenize name = [⟨.ident, name⟩] := by
  have cutAt := (isFragment_word identifier).cut.tokenize_render
  rwa [render_cons, render_nil, List.append_nil] at cutAt

/-- A name that no rule is for. -/
structure IsPlainWord (name : Text) : Prop where
  identifier : isIdentifier name = true
  noCall : ∀ head ∈ callHeads, name ≠ head.toList
  noHeader : ∀ keyword ∈ ["if", "else", "while"], name ≠ keyword.toList
  noLevel : levelWord? ⟨.ident, name⟩ = none

theorem isPlainWord_of_checks
    (checks : (isIdentifier name && callHeads.all (name != ·.toList) &&
      ["if", "else", "while"].all (name != ·.toList) && (levelWord? ⟨.ident, name⟩).isNone) = true) :
    IsPlainWord name := by
  simp only [Bool.and_eq_true, List.all_eq_true, bne_iff_ne, Option.isNone_iff_eq_none] at checks
  exact ⟨checks.1.1.1, checks.1.1.2, checks.1.2, checks.2⟩

theorem IsPlainWord.convertCalls_eq (plain : IsPlainWord name) (context : Context)
    (after : List Token) (marks : ∀ token ∈ after, token = semicolon) :
    convertCalls context (⟨.ident, name⟩ :: after) = ⟨.ident, name⟩ :: after := by
  refine convertCalls_of_absent (List.forall_mem_cons.mpr ⟨rfl, fun token member => ?_⟩)
    (fun head isHead => List.forall_mem_cons.mpr ⟨?_, fun token member => ?_⟩) context
  · rw [marks token member]
    rfl
  · simpa [Token.isIdent] using plain.noCall head isHead
  · rw [marks token member]
    rfl

/-- A name as a condition stays as it is. -/
theorem IsPlainWord.conditionText_eq (plain : IsPlainWord name) (context : Context) :
    conditionText context name = name := by
  have called := plain.convertCalls_eq context [] (by simp)
  rw [conditionText, tokenize_word plain.identifier, called,
    normalizeWords_cons_plain plain.noLevel rfl, normalizeWords, render_cons, render_nil,
    List.append_nil, trim_identifier plain.identifier]

theorem IsPlainWord.isCut (plain : IsPlainWord name) : IsCut [⟨.ident, name⟩, semicolon] :=
  isCut_word_cons ((isFragment_word plain.identifier).cut.whole _ List.mem_cons_self) rfl
    (isCut_delimiter_cons rfl isCut_nil) (startsApart_delimiter rfl _)

/-- A name as a statement loses its semicolon. -/
theorem IsPlainWord.convertLine_eq (plain : IsPlainWord name) (context : Context) :
    convertLine context (name ++ [';']) = name := by
  have called := plain.convertCalls_eq context [semicolon] (by simp)
  have noHeader : header? ([⟨.ident, name⟩] ++ [⟨.punct, ";".toList⟩]) = none :=
    header?_word (plain.noHeader "else" (by decide)) (.inl rfl)
  have kept : ∀ token ∈ [(⟨.ident, name⟩ : Token)], isKept token = true := by
    refine List.forall_mem_singleton.mpr ?_
    rw [isKept, plain.noLevel]
    rfl
  rw [convertLine_of_convertCalls plain.isCut (by simp [semicolon]) called]
  have finished := finishTokens_of_kept kept noHeader
  rw [render_cons, render_nil, List.append_nil, trim_identifier plain.identifier] at finished
  exact finished

theorem IsPlainWord.not_headerWord (plain : IsPlainWord name) :
    (Token.isIdent "if" ⟨.ident, name⟩ || Token.isIdent "else" ⟨.ident, name⟩ ||
      Token.isIdent "while" ⟨.ident, name⟩) = false := by
  have differs : ∀ keyword ∈ ["if", "else", "while"],
      Token.isIdent keyword ⟨.ident, name⟩ = false := fun keyword member => by
    simpa [Token.isIdent] using plain.noHeader keyword member
  rw [differs "if" (by decide), differs "else" (by decide), differs "while" (by decide)]
  rfl

theorem IsPlainWord.isStatementCode (plain : IsPlainWord name) :
    IsStatementCode [⟨.ident, name⟩, semicolon] where
  ends := rfl
  cut := plain.isCut
  inLine := (isFragment_word plain.identifier).inLine
  unmarked := (isFragment_word plain.identifier).unmarked
  balanced := rfl
  start := rfl
  finish := rfl
  noHeader := by
    rw [List.dropLast_cons_cons, List.head?_cons, Option.any_some]
    exact plain.not_headerWord

theorem render_wordStatement (name : Text) : render [⟨.ident, name⟩, semicolon] = name ++ [';'] :=
  rfl

/-- A name as a statement. -/
def Simple.word (context : Context) (plain : IsPlainWord name) : Simple context :=
  .ofCode plain.isStatementCode (by
    rw [render_wordStatement, plain.convertLine_eq]
    exact ne_nil_of_isIdentifier plain.identifier)

theorem Simple.source_word (context : Context) (plain : IsPlainWord name) :
    (Simple.word context plain).source = name ++ [';'] :=
  Simple.source_ofCode _ _

theorem Simple.tokens_word (context : Context) (plain : IsPlainWord name) :
    (Simple.word context plain).tokens = [⟨.ident, name⟩, semicolon] :=
  Simple.tokens_ofCode _ _

end

end Breadboard.Script
