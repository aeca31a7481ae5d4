import Breadboard.Proofs.Script.SuiteConversion

set_option autoImplicit false

namespace Breadboard.Script

open Sketch hiding stripComments

/-- A statement without braces behind a header, with the lines that both become. -/
structure BareSuite where
  depth : Nat
  header : Text
  /-- None for a lone semicolon. -/
  statement : Option Text
  nextLine : Bool
  lines : List ScriptLine

/-- The statement, or a `pass` for a lone semicolon, is the suite of the header: it stands behind the
colon, or alone one level deeper below. -/
def BareSuite.IsPlaced (suite : BareSuite) : Prop :=
  let text := suite.statement.getD passText
  suite.lines = [⟨suite.depth, suite.header ++ ' ' :: text⟩] ∨
    suite.lines = [⟨suite.depth, suite.header⟩, ⟨suite.depth + 1, text⟩]

/-- A statement stands on the line of its header. -/
def BareSuite.IsBeside (suite : BareSuite) : Prop :=
  suite.statement.isSome = true ∧ suite.nextLine = false

mutual

/-- The suites without braces of all headers. -/
def Step.bareSuites {context : Context} (depth : Nat) : Step context → List BareSuite
  | .simple _ => []
  | .compound compound => compound.bareSuites depth

def Compound.bareSuites {context : Context} (depth : Nat) : Compound context → List BareSuite
  | .branch guard suite next =>
    suite.bareSuites depth (guard.header context "if") ++ next.bareSuites depth
  | .loop guard suite => suite.bareSuites depth (guard.header context "while")

def Choice.bareSuites {context : Context} (depth : Nat) : Choice context → List BareSuite
  | .none => []
  | .otherwise _ _ suite => suite.bareSuites depth "else:".toList
  | .elseIf _ _ _ guard suite next =>
    suite.bareSuites depth (guard.header context "elif") ++ next.bareSuites depth

def Suite.bareSuites {context : Context} {word : Bool} {gap : Gap} (depth : Nat) (header : Text) :
    Suite context word gap → List BareSuite
  | .braces steps => steps.bareSuites (depth + 1)
  | .bare apart code plain =>
    [⟨depth, header, some code.line, gap.text.contains '\n',
      (Suite.bare apart code plain : Suite context word gap).lines depth header⟩]
  | .empty =>
    [⟨depth, header, none, gap.text.contains '\n',
      (Suite.empty : Suite context word gap).lines depth header⟩]
  | .nested _ compound => compound.bareSuites depth

def Steps.bareSuites {context : Context} (depth : Nat) : Steps context → List BareSuite
  | .done _ => []
  | .cons _ step rest => step.bareSuites depth ++ rest.bareSuites depth

end

/-- A suite is part of the lines, and it is in its place just if it stands on its header's line. -/
def BareSuite.IsPart (suite : BareSuite) (lines : List ScriptLine) : Prop :=
  suite.lines <:+: lines ∧ (suite.IsPlaced ↔ suite.IsBeside)

theorem BareSuite.IsPart.mono {suite : BareSuite} {lines more : List ScriptLine}
    (part : suite.IsPart lines) (inside : lines <:+: more) : suite.IsPart more :=
  ⟨part.1.trans inside, part.2⟩

theorem isInfix_orPass (depth : Nat) (lines : List ScriptLine) : lines <:+: orPass depth lines := by
  rw [orPass_eq]
  exact (List.prefix_append _ _).isInfix

theorem forall_isPart_append {first second : List BareSuite} {front back : List ScriptLine}
    (firstParts : ∀ suite ∈ first, suite.IsPart front)
    (secondParts : ∀ suite ∈ second, suite.IsPart back) :
    ∀ suite ∈ first ++ second, suite.IsPart (front ++ back) :=
  List.forall_mem_append.mpr
    ⟨fun suite member => (firstParts suite member).mono (List.prefix_append _ _).isInfix,
      fun suite member => (secondParts suite member).mono (List.suffix_append _ _).isInfix⟩

mutual

theorem Step.bareSuites_isPart {context : Context} :
    ∀ (step : Step context) (depth : Nat),
      ∀ suite ∈ step.bareSuites depth, suite.IsPart (step.lines depth)
  | .simple _, _ => fun _ member => nomatch member
  | .compound compound, depth => compound.bareSuites_isPart depth

theorem Compound.bareSuites_isPart {context : Context} :
    ∀ (compound : Compound context) (depth : Nat),
      ∀ suite ∈ compound.bareSuites depth, suite.IsPart (compound.lines depth)
  | .branch _ suite next, depth =>
      forall_isPart_append (suite.bareSuites_isPart depth _) (next.bareSuites_isPart depth)
  | .loop _ suite, depth => suite.bareSuites_isPart depth _

theorem Choice.bareSuites_isPart {context : Context} :
    ∀ (next : Choice context) (depth : Nat),
      ∀ suite ∈ next.bareSuites depth, suite.IsPart (next.lines depth)
  | .none, _ => fun _ member => nomatch member
  | .otherwise _ _ suite, depth => suite.bareSuites_isPart depth _
  | .elseIf _ _ _ _ suite next, depth =>
      forall_isPart_append (suite.bareSuites_isPart depth _) (next.bareSuites_isPart depth)

theorem Suite.bareSuites_isPart {context : Context} {word : Bool} {gap : Gap} :
    ∀ (suite : Suite context word gap) (depth : Nat) (header : Text),
      ∀ bare ∈ suite.bareSuites depth header, bare.IsPart (suite.lines depth header)
  | .braces steps, depth, header => fun bare member =>
      ((steps.bareSuites_isPart (depth + 1) bare member).mono (isInfix_orPass _ _)).mono
        (List.suffix_cons _ _).isInfix
  | .bare apart code plain, depth, header => by
      refine List.forall_mem_singleton.mpr ⟨List.infix_rfl, ?_⟩
      rw [BareSuite.IsPlaced, BareSuite.IsBeside, Suite.lines]
      by_cases breaks : '\n' ∈ gap.text <;> simp [breaks]
  | .empty, depth, header => by
      refine List.forall_mem_singleton.mpr ⟨List.infix_rfl, ?_⟩
      simp [BareSuite.IsPlaced, BareSuite.IsBeside, Suite.lines]
  | .nested _ compound, depth, header => fun bare member =>
      (compound.bareSuites_isPart depth bare member).mono (List.suffix_cons _ _).isInfix

theorem Steps.bareSuites_isPart {context : Context} :
    ∀ (steps : Steps context) (depth : Nat),
      ∀ suite ∈ steps.bareSuites depth, suite.IsPart (steps.lines depth)
  | .done _, _ => fun _ member => nomatch member
  | .cons _ step rest, depth =>
      forall_isPart_append (step.bareSuites_isPart depth) (rest.bareSuites_isPart depth)

end

/-- The loop for statements with and without braces has the lines of their tree. In it a statement without
braces is the suite of its header just if it stands on the header's line, and a lone semicolon never. -/
theorem bareSuites_placed_iff (sketch : Text) (body : Steps (Context.harvest sketch)) :
    convertBlock (Context.harvest sketch) body.source = orPass 0 (body.lines 0) ∧
      AreUnbroken (orPass 0 (body.lines 0)) ∧
      ∀ suite ∈ body.bareSuites 0, suite.lines <:+: orPass 0 (body.lines 0) ∧
        (suite.IsPlaced ↔ suite.IsBeside) := by
  have names := Context.hasScriptNames_harvest sketch
  refine ⟨body.convertBlock_eq names, (body.areUnbroken_lines names 0).orPass 0, fun suite member => ?_⟩
  exact (body.bareSuites_isPart 0 suite member).mono (isInfix_orPass 0 _)

theorem Simple.line_word (context : Context) {name : Text} (plain : IsPlainWord name) :
    (Simple.word context plain).line = name :=
  (congrArg (convertLine context) (Simple.source_word context plain)).trans
    (plain.convertLine_eq context)

/-- A conditional with a statement on the line below it, a loop with a lone semicolon, and a statement. -/
def lateBody (context : Context) : Steps context :=
  let header (name : Text) (identifier : isIdentifier name = true) (after : Gap) : Guard :=
    ⟨.none, .none, .word name identifier, .none, after⟩
  let word (name : Text) (plain : IsPlainWord name) : Simple context := .word context plain
  .cons .none
    (.compound (.branch (header ['a'] (by decide) .lineBreak)
      (.bare nofun (word ['b'] (isPlainWord_of_checks rfl)) nofun) .none))
    (.cons .none (.compound (.loop (header ['c'] (by decide) .none) .empty))
      (.cons .none (.simple (word ['d'] (isPlainWord_of_checks rfl))) (.done .none)))

theorem lateBody_leaves_headers :
    let body := lateBody (Context.harvest [])
    body.source = "if(a)\nb;while(c);d;".toList ∧
      convertBlock (Context.harvest []) body.source =
        [⟨0, "if a:".toList⟩, ⟨0, ['b']⟩, ⟨0, "while c:".toList⟩, ⟨0, ['d']⟩] ∧
      body.bareSuites 0 ≠ [] ∧ ∀ suite ∈ body.bareSuites 0, ¬ suite.IsPlaced := by
  intro body
  have names := Context.hasScriptNames_harvest []
  have a : conditionText (Context.harvest []) ['a'] = ['a'] :=
    (isPlainWord_of_checks rfl).conditionText_eq _
  have c : conditionText (Context.harvest []) ['c'] = ['c'] :=
    (isPlainWord_of_checks rfl).conditionText_eq _
  refine ⟨?_, ?_, ?_, ?_⟩
  · simp [body, lateBody, Steps.source, Step.source, Compound.source, Choice.source, Suite.source,
      Guard.source, Simple.source_word, ifWord, whileWord, Gap.none,
      Gap.lineBreak, Spacing.none]
  · rw [body.convertBlock_eq names]
    simp [body, lateBody, Steps.lines, Step.lines, Compound.lines, Choice.lines, Suite.lines, orPass,
      Guard.header, Guard.line, a, c, Simple.line_word, Gap.none, Gap.lineBreak]
  · simp [body, lateBody, Steps.bareSuites, Step.bareSuites, Compound.bareSuites, Suite.bareSuites]
  · simp [body, lateBody, Steps.bareSuites, Step.bareSuites, Compound.bareSuites, Choice.bareSuites,
      Suite.bareSuites, BareSuite.IsPlaced, Suite.lines, Simple.line_word, Gap.lineBreak]

end Breadboard.Script
