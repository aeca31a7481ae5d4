import Breadboard.Proofs.Script.BlockTokens

set_option autoImplicit false

/- Blocks whose headers can go without braces. What stands behind such a header is one statement, on its
line or on a later one, or nothing but a semicolon. -/
namespace Breadboard.Script

open Sketch hiding stripComments

/-- Whether a token is a word that a header starts with. -/
def isHeaderWord (token : Token) : Bool :=
  token.isIdent "if" || token.isIdent "else" || token.isIdent "while"

/-- Code that the rules make no header of. -/
def IsPlain (context : Context) (code : List Token) : Prop :=
  (dropTrivia (normalizeWords none (convertCalls context code))).head?.any isHeaderWord = false

mutual

inductive Step (context : Context) where
  | simple (code : Simple context)
  | compound (compound : Compound context)

inductive Compound (context : Context) where
  | branch (guard : Guard) (suite : Suite context false guard.after) (next : Choice context)
  | loop (guard : Guard) (suite : Suite context false guard.after)

inductive Choice (context : Context) where
  | none
  | otherwise (before after : Gap) (suite : Suite context true after)
  | elseIf (before : Gap) (between : Spacing) (apart : between.text ≠ []) (guard : Guard)
      (suite : Suite context false guard.after) (next : Choice context)

/-- What stands behind a header and a gap. The header can end with a word. A statement on the header's line
must not read as part of it, and one that has a header itself stands on a later line. -/
inductive Suite (context : Context) : Bool → Gap → Type where
  | braces {word : Bool} {gap : Gap} (steps : Steps context) : Suite context word gap
  | bare {word : Bool} {gap : Gap} (apart : word = true → gap.text ≠ []) (code : Simple context)
      (plain : gap.text.contains '\n' = false → IsPlain context (tokenize code.text)) :
      Suite context word gap
  | empty {word : Bool} {gap : Gap} : Suite context word gap
  | nested {word : Bool} {gap : Gap} (breaks : gap.text.contains '\n' = true)
      (compound : Compound context) : Suite context word gap

inductive Steps (context : Context) where
  | done (gap : Gap)
  | cons (gap : Gap) (step : Step context) (rest : Steps context)

end

/-- The line of a header without a statement behind it. -/
def Guard.header (context : Context) (keyword : String) (guard : Guard) : Text :=
  (guard.line context 0 keyword).text

def Simple.line {context : Context} (code : Simple context) : Text :=
  convertLine context code.source

mutual

def Step.source {context : Context} : Step context → Text
  | .simple code => code.source
  | .compound compound => compound.source

def Compound.source {context : Context} : Compound context → Text
  | .branch guard suite next => ifWord.text ++ guard.source ++ suite.source ++ next.source
  | .loop guard suite => whileWord.text ++ guard.source ++ suite.source

def Choice.source {context : Context} : Choice context → Text
  | .none => []
  | .otherwise before after suite =>
    before.text ++ elseWord.text ++ after.text ++ suite.source
  | .elseIf before between _ guard suite next =>
    before.text ++ elseWord.text ++ between.text ++ ifWord.text ++ guard.source ++ suite.source ++
      next.source

def Suite.source {context : Context} {word : Bool} {gap : Gap} : Suite context word gap → Text
  | .braces steps => ['\x7b'] ++ steps.source ++ ['\x7d']
  | .bare _ code _ => code.source
  | .empty => [';']
  | .nested _ compound => compound.source

def Steps.source {context : Context} : Steps context → Text
  | .done gap => gap.text
  | .cons gap step rest => gap.text ++ step.source ++ rest.source

end

mutual

/-- The lines of a statement at a depth. -/
def Step.lines {context : Context} (depth : Nat) : Step context → List ScriptLine
  | .simple code => [⟨depth, code.line⟩]
  | .compound compound => compound.lines depth

def Compound.lines {context : Context} (depth : Nat) : Compound context → List ScriptLine
  | .branch guard suite next =>
    suite.lines depth (guard.header context "if") ++ next.lines depth
  | .loop guard suite => suite.lines depth (guard.header context "while")

def Choice.lines {context : Context} (depth : Nat) : Choice context → List ScriptLine
  | .none => []
  | .otherwise _ _ suite => suite.lines depth "else:".toList
  | .elseIf _ _ _ guard suite next =>
    suite.lines depth (guard.header context "elif") ++ next.lines depth

/-- The lines of a header and of what stands behind it. Only braces lead a level deeper. -/
def Suite.lines {context : Context} {word : Bool} {gap : Gap} (depth : Nat) (header : Text) :
    Suite context word gap → List ScriptLine
  | .braces steps => ⟨depth, header⟩ :: orPass (depth + 1) (steps.lines (depth + 1))
  | .bare _ code _ =>
    if gap.text.contains '\n' then [⟨depth, header⟩, ⟨depth, code.line⟩]
    else [⟨depth, header ++ ' ' :: code.line⟩]
  | .empty => [⟨depth, header⟩]
  | .nested _ compound => ⟨depth, header⟩ :: compound.lines depth

def Steps.lines {context : Context} (depth : Nat) : Steps context → List ScriptLine
  | .done _ => []
  | .cons _ step rest => step.lines depth ++ rest.lines depth

end

mutual

def Step.tokens {context : Context} : Step context → List Token
  | .simple code => code.tokens
  | .compound compound => compound.tokens

def Compound.tokens {context : Context} : Compound context → List Token
  | .branch guard suite next =>
    ifWord :: (guard.tokens ++ (guard.after.tokens ++ (suite.tokens ++ next.tokens)))
  | .loop guard suite => whileWord :: (guard.tokens ++ (guard.after.tokens ++ suite.tokens))

def Choice.tokens {context : Context} : Choice context → List Token
  | .none => []
  | .otherwise before after suite =>
    before.tokens ++ elseWord :: (after.tokens ++ suite.tokens)
  | .elseIf before between _ guard suite next =>
    before.tokens ++ elseWord :: (between.tokens ++ ifWord :: (guard.tokens ++
      (guard.after.tokens ++ (suite.tokens ++ next.tokens))))

def Suite.tokens {context : Context} {word : Bool} {gap : Gap} : Suite context word gap → List Token
  | .braces steps => openBrace :: (steps.tokens ++ [closeBrace])
  | .bare _ code _ => code.tokens
  | .empty => [semicolon]
  | .nested _ compound => compound.tokens

def Steps.tokens {context : Context} : Steps context → List Token
  | .done gap => gap.tokens
  | .cons gap step rest => gap.tokens ++ (step.tokens ++ rest.tokens)

end

theorem Simple.render_tokens {context : Context} (simple : Simple context) :
    render simple.tokens = simple.source :=
  (Statement.simple simple).render_tokens

mutual

theorem Step.render_tokens {context : Context} :
    ∀ step : Step context, render step.tokens = step.source
  | .simple code => by rw [Step.tokens, Step.source, code.render_tokens]
  | .compound compound => by rw [Step.tokens, Step.source, compound.render_tokens]

theorem Compound.render_tokens {context : Context} :
    ∀ compound : Compound context, render compound.tokens = compound.source
  | .branch guard suite next => by
      simp [Compound.tokens, Compound.source, Guard.source_eq, ifWord, suite.render_tokens,
        next.render_tokens]
  | .loop guard suite => by
      simp [Compound.tokens, Compound.source, Guard.source_eq, whileWord, suite.render_tokens]

theorem Choice.render_tokens {context : Context} :
    ∀ next : Choice context, render next.tokens = next.source
  | .none => by rw [Choice.tokens, Choice.source, render_nil]
  | .otherwise before after suite => by
      simp [Choice.tokens, Choice.source, elseWord, suite.render_tokens]
  | .elseIf before between apart guard suite next => by
      simp [Choice.tokens, Choice.source, Guard.source_eq, elseWord, ifWord, suite.render_tokens,
        next.render_tokens]

theorem Suite.render_tokens {context : Context} {word : Bool} {gap : Gap} :
    ∀ suite : Suite context word gap, render suite.tokens = suite.source
  | .braces steps => by
      simp [Suite.tokens, Suite.source, openBrace, closeBrace, steps.render_tokens]
  | .bare _ code _ => by rw [Suite.tokens, Suite.source, code.render_tokens]
  | .empty => by rw [Suite.tokens, Suite.source]; rfl
  | .nested _ compound => by rw [Suite.tokens, Suite.source, compound.render_tokens]

theorem Steps.render_tokens {context : Context} :
    ∀ steps : Steps context, render steps.tokens = steps.source
  | .done gap => by rw [Steps.tokens, Steps.source, Gap.render_tokens]
  | .cons gap step rest => by
      simp [Steps.tokens, Steps.source, step.render_tokens, rest.render_tokens]

end

theorem Simple.startsTight {context : Context} (simple : Simple context) (rest : List Token) :
    StartsTight (simple.tokens ++ rest) :=
  (Statement.simple simple).startsTight rest

theorem Compound.startsTight {context : Context} (compound : Compound context) (rest : List Token) :
    StartsTight (compound.tokens ++ rest) := by
  cases compound with
  | branch guard suite next => exact startsTight_cons (by decide) _
  | loop guard suite => exact startsTight_cons (by decide) _

theorem Step.startsTight {context : Context} (step : Step context) (rest : List Token) :
    StartsTight (step.tokens ++ rest) := by
  cases step with
  | simple code => exact code.startsTight rest
  | compound compound => exact compound.startsTight rest

theorem Suite.startsTight {context : Context} {word : Bool} {gap : Gap}
    (suite : Suite context word gap) (rest : List Token) : StartsTight (suite.tokens ++ rest) := by
  cases suite with
  | braces steps => exact startsTight_cons (by decide) _
  | bare apart code plain => exact code.startsTight rest
  | empty => exact startsTight_cons (by decide) _
  | nested breaks compound => exact compound.startsTight rest

/-- Behind a word a gap or a mark stands. -/
theorem Suite.startsApart {context : Context} {gap : Gap} (suite : Suite context true gap)
    (rest : List Token) : StartsApart (gap.tokens ++ (suite.tokens ++ rest)) := by
  cases suite with
  | braces steps => exact gap.startsApart_append (startsApart_delimiter rfl _)
  | bare apart code plain => exact Gap.startsApart_of_ne_nil (apart rfl) _
  | empty => exact gap.startsApart_append (startsApart_delimiter rfl _)
  | nested breaks compound =>
      refine Gap.startsApart_of_ne_nil (fun nothing => ?_) _
      rw [nothing] at breaks
      cases breaks

mutual

theorem Step.isCut_append {context : Context} :
    ∀ (step : Step context) {rest : List Token}, IsCut rest → IsCut (step.tokens ++ rest)
  | .simple code, _, cut => code.isCut_append cut
  | .compound compound, _, cut => compound.isCut_append cut

theorem Compound.isCut_append {context : Context} :
    ∀ (compound : Compound context) {rest : List Token}, IsCut rest →
      IsCut (compound.tokens ++ rest)
  | .branch guard suite next, rest, cut => by
      have behind := suite.isCut_append (next.isCut_append cut)
      simpa [Compound.tokens] using
        isCut_headed isLexeme_ifWord rfl guard behind (suite.startsTight _)
  | .loop guard suite, rest, cut => by
      simpa [Compound.tokens] using isCut_headed isLexeme_whileWord rfl guard
        (suite.isCut_append cut) (suite.startsTight _)

theorem Choice.isCut_append {context : Context} :
    ∀ (next : Choice context) {rest : List Token}, IsCut rest → IsCut (next.tokens ++ rest)
  | .none, rest, cut => by
      rw [Choice.tokens, List.nil_append]
      exact cut
  | .otherwise before after suite, rest, cut => by
      have behind := after.isCut_append (suite.isCut_append cut) (suite.startsTight rest)
      have header := isCut_word_cons isLexeme_elseWord rfl behind (suite.startsApart rest)
      simpa [Choice.tokens] using before.isCut_append header (startsTight_cons (by decide) _)
  | .elseIf before between apart guard suite next, rest, cut => by
      have behind := suite.isCut_append (next.isCut_append cut)
      have header := isCut_elseIf guard apart behind (suite.startsTight _)
      simpa [Choice.tokens] using before.isCut_append header (startsTight_cons (by decide) _)

theorem Suite.isCut_append {context : Context} {word : Bool} {gap : Gap} :
    ∀ (suite : Suite context word gap) {rest : List Token}, IsCut rest →
      IsCut (suite.tokens ++ rest)
  | .braces steps, rest, cut => by
      have inner := steps.isCut_append (isCut_delimiter_cons (c := '\x7d') rfl cut)
        (startsTight_cons (by decide) _)
      simpa [Suite.tokens, openBrace, closeBrace] using isCut_delimiter_cons (c := '\x7b') rfl inner
  | .bare _ code _, _, cut => code.isCut_append cut
  | .empty, _, cut => isCut_delimiter_cons rfl cut
  | .nested _ compound, _, cut => compound.isCut_append cut

theorem Steps.isCut_append {context : Context} :
    ∀ (steps : Steps context) {rest : List Token}, IsCut rest → StartsTight rest →
      IsCut (steps.tokens ++ rest)
  | .done gap, _, cut, tight => gap.isCut_append cut tight
  | .cons gap step more, rest, cut, tight => by
      have following := step.isCut_append (more.isCut_append cut tight)
      simpa [Steps.tokens] using gap.isCut_append following (step.startsTight _)

end

theorem Suite.isCut {context : Context} {word : Bool} {gap : Gap} (suite : Suite context word gap) :
    IsCut suite.tokens := by
  have cut := suite.isCut_append isCut_nil
  rwa [List.append_nil] at cut

theorem Suite.tight {context : Context} {word : Bool} {gap : Gap} (suite : Suite context word gap) :
    StartsTight suite.tokens := by
  have tight := suite.startsTight []
  rwa [List.append_nil] at tight

theorem Suite.apart {context : Context} {gap : Gap} (suite : Suite context true gap) :
    StartsApart (gap.tokens ++ suite.tokens) := by
  have apart := suite.startsApart []
  rwa [List.append_nil] at apart

/-- The lexer cuts the source of the statements into the tokens of their tree. -/
theorem Steps.tokenize_source {context : Context} (steps : Steps context) :
    tokenize steps.source = steps.tokens := by
  have cut := steps.isCut_append isCut_nil (by simp [StartsTight])
  rw [List.append_nil] at cut
  rw [← steps.render_tokens, cut.tokenize_render]

end Breadboard.Script
