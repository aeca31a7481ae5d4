import Breadboard.Proofs.Script.BlockTree

set_option autoImplicit false

namespace Breadboard.Script

open Sketch hiding stripComments

theorem Gap.isCut_append (gap : Gap) {rest : List Token} (cut : IsCut rest)
    (tight : StartsTight rest) : IsCut (gap.tokens ++ rest) :=
  isCut_blank_append gap.blank cut tight

theorem Gap.startsApart_append (gap : Gap) {rest : List Token} (apart : StartsApart rest) :
    StartsApart (gap.tokens ++ rest) :=
  startsApart_blank_append gap.blank apart

theorem Gap.startsApart_of_ne_nil {gap : Gap} (notEmpty : gap.text ≠ []) (rest : List Token) :
    StartsApart (gap.tokens ++ rest) :=
  startsApart_blank gap.blank notEmpty rest

theorem Code.isCut_append (code : Code) {rest : List Token} (cut : IsCut rest)
    (apart : StartsApart rest) : IsCut (tokenize code.text ++ rest) := by
  refine isCut_append_apart code.isFragment.cut (fun token last space => ?_) cut apart
  have finish := code.finish
  rw [Option.mem_def.mp last, Option.any_some, space] at finish
  cases finish

theorem Code.startsTight (code : Code) (rest : List Token) :
    StartsTight (tokenize code.text ++ rest) := by
  have start := code.start
  intro token first space
  cases tokens : tokenize code.text with
  | nil => simp [tokens] at start
  | cons head more =>
      rw [tokens] at first start
      obtain rfl : head = token := by simpa using first
      rw [List.head?_cons, Option.any_some, space] at start
      cases start

theorem isLexeme_ifWord : IsLexeme ifWord :=
  .word rfl rfl

theorem isLexeme_elseWord : IsLexeme elseWord :=
  .word rfl rfl

theorem isLexeme_whileWord : IsLexeme whileWord :=
  .word rfl rfl

theorem Guard.isCut_append (guard : Guard) {rest : List Token} (cut : IsCut rest)
    (tight : StartsTight rest) : IsCut (guard.tokens ++ (guard.after.tokens ++ rest)) := by
  have close : IsCut (closeParen :: (guard.after.tokens ++ rest)) :=
    isCut_delimiter_cons rfl (guard.after.isCut_append cut tight)
  have behind : IsCut (guard.behind.tokens ++ closeParen :: (guard.after.tokens ++ rest)) :=
    guard.behind.isCut_append close (startsTight_cons (by decide) _)
  have condition := guard.condition.isCut_append behind
    (guard.behind.startsApart_append (startsApart_delimiter rfl _))
  have inside := guard.inside.isCut_append condition (guard.condition.startsTight _)
  have before := guard.before.isCut_append (isCut_delimiter_cons (c := '(') rfl inside)
    (startsTight_cons (by decide) _)
  simpa [Guard.tokens, openParen] using before

theorem Guard.startsApart_append (guard : Guard) (rest : List Token) :
    StartsApart (guard.tokens ++ rest) := by
  rw [Guard.tokens, List.append_assoc]
  exact guard.before.startsApart_append (startsApart_delimiter rfl _)

theorem Simple.isCut_append {context : Context} (simple : Simple context) {rest : List Token}
    (cut : IsCut rest) : IsCut (simple.tokens ++ rest) := by
  have close := simple.trailing.isCut_append (isCut_delimiter_cons (c := ';') rfl cut)
    (startsTight_cons (by decide) _)
  have code := simple.toCode.isCut_append close
    (simple.trailing.startsApart_append (startsApart_delimiter rfl _))
  simpa [Simple.tokens, semicolon] using code

theorem Simple.tokenize_source {context : Context} (simple : Simple context) :
    tokenize simple.source = simple.tokens := by
  have cut := @Simple.isCut_append _ simple [] isCut_nil
  have line : render simple.tokens = simple.source := (Statement.simple simple).render_tokens
  rw [List.append_nil] at cut
  rw [← line, cut.tokenize_render]

/-- A header's word, its condition and what is behind it. -/
theorem isCut_headed {word : Token} (whole : IsLexeme word) (ident : word.kind = .ident)
    (guard : Guard) {behind : List Token} (cut : IsCut behind) (tight : StartsTight behind) :
    IsCut (word :: (guard.tokens ++ (guard.after.tokens ++ behind))) :=
  isCut_word_cons whole ident (guard.isCut_append cut tight) (guard.startsApart_append _)

theorem isCut_elseIf (guard : Guard) {between : Spacing} (apart : between.text ≠ [])
    {behind : List Token} (cut : IsCut behind) (tight : StartsTight behind) :
    IsCut (elseWord ::
      (between.tokens ++ ifWord :: (guard.tokens ++ (guard.after.tokens ++ behind)))) :=
  isCut_word_cons isLexeme_elseWord rfl
    (between.isCut_append (isCut_headed isLexeme_ifWord rfl guard cut tight)
      (startsTight_cons (by decide) _))
    (Gap.startsApart_of_ne_nil apart _)

theorem Statement.startsTight {context : Context} (statement : Statement context)
    (rest : List Token) : StartsTight (statement.tokens ++ rest) := by
  cases statement with
  | simple code =>
      rw [Statement.tokens, Simple.tokens, List.append_assoc]
      exact code.toCode.startsTight _
  | branch guard body next => exact startsTight_cons (by decide) _
  | loop guard body => exact startsTight_cons (by decide) _

mutual

theorem Statement.isCut_append {context : Context} :
    ∀ (statement : Statement context) {rest : List Token}, IsCut rest →
      IsCut (statement.tokens ++ rest)
  | .simple code, rest, cut => code.isCut_append cut
  | .branch guard body next, rest, cut => by
      have inner := body.isCut_append (isCut_delimiter_cons (c := '\x7d') rfl (next.isCut_append cut))
        (startsTight_cons (by decide) _)
      have block := isCut_delimiter_cons (c := '\x7b') rfl inner
      simpa [Statement.tokens, openBrace, closeBrace] using
        isCut_headed isLexeme_ifWord rfl guard block (startsTight_cons (by decide) _)
  | .loop guard body, rest, cut => by
      have inner := body.isCut_append (isCut_delimiter_cons (c := '\x7d') rfl cut)
        (startsTight_cons (by decide) _)
      have block := isCut_delimiter_cons (c := '\x7b') rfl inner
      simpa [Statement.tokens, openBrace, closeBrace] using
        isCut_headed isLexeme_whileWord rfl guard block (startsTight_cons (by decide) _)

theorem Alternative.isCut_append {context : Context} :
    ∀ (next : Alternative context) {rest : List Token}, IsCut rest → IsCut (next.tokens ++ rest)
  | .none, rest, cut => by
      rw [Alternative.tokens, List.nil_append]
      exact cut
  | .otherwise before after body, rest, cut => by
      have inner := body.isCut_append (isCut_delimiter_cons (c := '\x7d') rfl cut)
        (startsTight_cons (by decide) _)
      have block := after.isCut_append (isCut_delimiter_cons (c := '\x7b') rfl inner)
        (startsTight_cons (by decide) _)
      have header := isCut_word_cons isLexeme_elseWord rfl block
        (after.startsApart_append (startsApart_delimiter rfl _))
      simpa [Alternative.tokens, openBrace, closeBrace] using
        before.isCut_append header (startsTight_cons (by decide) _)
  | .elseIf before between apart guard body next, rest, cut => by
      have inner := body.isCut_append (isCut_delimiter_cons (c := '\x7d') rfl (next.isCut_append cut))
        (startsTight_cons (by decide) _)
      have block := isCut_delimiter_cons (c := '\x7b') rfl inner
      have header := isCut_elseIf guard apart block (startsTight_cons (by decide) _)
      simpa [Alternative.tokens, openBrace, closeBrace] using
        before.isCut_append header (startsTight_cons (by decide) _)

theorem Block.isCut_append {context : Context} :
    ∀ (block : Block context) {rest : List Token}, IsCut rest → StartsTight rest →
      IsCut (block.tokens ++ rest)
  | .done gap, rest, cut, tight => by
      rw [Block.tokens]
      exact gap.isCut_append cut tight
  | .cons gap statement more, rest, cut, tight => by
      have following := statement.isCut_append (more.isCut_append cut tight)
      simpa [Block.tokens] using gap.isCut_append following (statement.startsTight _)

end

/-- The lexer cuts the source of a block into the tokens of its tree. -/
theorem Block.tokenize_source {context : Context} (block : Block context) :
    tokenize block.source = block.tokens := by
  have cut := @Block.isCut_append _ block [] isCut_nil (by simp [StartsTight])
  rw [List.append_nil] at cut
  rw [← block.render_tokens, cut.tokenize_render]

end Breadboard.Script
