import Breadboard.Proofs.Script.HeaderLine
import Breadboard.Proofs.Sketch.Apart
import Breadboard.Script.Block

set_option autoImplicit false

namespace Breadboard.Script

open Sketch hiding stripComments

def openParen : Token := ⟨.punct, "(".toList⟩

def closeParen : Token := ⟨.punct, ")".toList⟩

def openBrace : Token := ⟨.punct, "\x7b".toList⟩

def closeBrace : Token := ⟨.punct, "\x7d".toList⟩

def semicolon : Token := ⟨.punct, ";".toList⟩

def ifWord : Token := ⟨.ident, "if".toList⟩

def elseWord : Token := ⟨.ident, "else".toList⟩

def whileWord : Token := ⟨.ident, "while".toList⟩

/-- Blanks and line breaks, or nothing. -/
structure Gap where
  text : Text
  blank : text.all isSpaceChar = true

/-- Blanks on one line, or nothing. -/
structure Spacing extends Gap where
  sameLine : text.contains '\n' = false

/-- Code on one line without blanks at its ends: tokens with closed parentheses and closed literals,
without comments and without marks that end statements or blocks. -/
structure Code where
  text : Text
  inLine : text.all isLineChar = true
  noComment : ∀ token ∈ tokenize text, token.kind ≠ .comment
  closed : ∀ token ∈ tokenize text, token.kind = .literal → token.isClosedLiteral = true
  unmarked : ∀ token ∈ tokenize text, token.isBlockMark = false
  balanced : IsBalanced (tokenize text)
  start : (tokenize text).head?.any (·.kind != .space) = true
  finish : (tokenize text).getLast?.any (·.kind != .space) = true

/-- A statement that ends with a semicolon and becomes a line. -/
structure Simple (context : Context) extends Code where
  trailing : Spacing
  noHeader : (tokenize text).head?.any (fun token =>
    token.isIdent "if" || token.isIdent "else" || token.isIdent "while") = false
  converts : convertLine context (text ++ trailing.text ++ [';']) ≠ []

/-- A condition in its parentheses, up to the brace that opens the block. -/
structure Guard where
  before : Spacing
  inside : Spacing
  condition : Code
  behind : Spacing
  after : Gap

mutual

inductive Statement (context : Context) where
  | simple (code : Simple context)
  | branch (guard : Guard) (body : Block context) (next : Alternative context)
  | loop (guard : Guard) (body : Block context)

/-- What follows the block of an `if`. Between `else` and `if` stands no line break. -/
inductive Alternative (context : Context) where
  | none
  | otherwise (before after : Gap) (body : Block context)
  | elseIf (before : Gap) (between : Spacing) (apart : between.text ≠ []) (guard : Guard)
      (body : Block context) (next : Alternative context)

/-- Statements with the gaps before them, and a gap behind the last one. -/
inductive Block (context : Context) where
  | done (gap : Gap)
  | cons (gap : Gap) (statement : Statement context) (rest : Block context)

end

def Simple.source {context : Context} (simple : Simple context) : Text :=
  simple.text ++ simple.trailing.text ++ [';']

def Guard.source (guard : Guard) : Text :=
  guard.before.text ++ '(' :: guard.inside.text ++ guard.condition.text ++ guard.behind.text ++
    ')' :: guard.after.text

mutual

def Statement.source {context : Context} : Statement context → Text
  | .simple code => code.source
  | .branch guard body next =>
    ifWord.text ++ guard.source ++ ['\x7b'] ++ body.source ++ ['\x7d'] ++ next.source
  | .loop guard body => whileWord.text ++ guard.source ++ ['\x7b'] ++ body.source ++ ['\x7d']

def Alternative.source {context : Context} : Alternative context → Text
  | .none => []
  | .otherwise before after body =>
    before.text ++ elseWord.text ++ after.text ++ ['\x7b'] ++ body.source ++ ['\x7d']
  | .elseIf before between _ guard body next =>
    before.text ++ elseWord.text ++ between.text ++ ifWord.text ++ guard.source ++ ['\x7b'] ++
      body.source ++ ['\x7d'] ++ next.source

def Block.source {context : Context} : Block context → Text
  | .done gap => gap.text
  | .cons gap statement rest => gap.text ++ statement.source ++ rest.source

end

/-- The lines of a block, a `pass` if it has none. -/
def orPass (depth : Nat) (lines : List ScriptLine) : List ScriptLine :=
  if lines.isEmpty then [⟨depth, passText⟩] else lines

/-- The line of a header. -/
def Guard.line (context : Context) (depth : Nat) (keyword : String) (guard : Guard) : ScriptLine :=
  ⟨depth, keyword.toList ++ ' ' :: conditionText context guard.condition.text ++ [':']⟩

def elseLine (depth : Nat) : ScriptLine :=
  ⟨depth, "else:".toList⟩

mutual

/-- The lines of a statement at a depth. The lines inside its blocks stand one level deeper. -/
def Statement.lines {context : Context} (depth : Nat) : Statement context → List ScriptLine
  | .simple code => [⟨depth, convertLine context code.source⟩]
  | .branch guard body next =>
    guard.line context depth "if" :: orPass (depth + 1) (body.lines (depth + 1)) ++ next.lines depth
  | .loop guard body =>
    guard.line context depth "while" :: orPass (depth + 1) (body.lines (depth + 1))

def Alternative.lines {context : Context} (depth : Nat) : Alternative context → List ScriptLine
  | .none => []
  | .otherwise _ _ body =>
    elseLine depth :: orPass (depth + 1) (body.lines (depth + 1))
  | .elseIf _ _ _ guard body next =>
    guard.line context depth "elif" :: orPass (depth + 1) (body.lines (depth + 1)) ++
      next.lines depth

def Block.lines {context : Context} (depth : Nat) : Block context → List ScriptLine
  | .done _ => []
  | .cons _ statement rest => statement.lines depth ++ rest.lines depth

end

def Gap.tokens (gap : Gap) : List Token :=
  blankTokens gap.text

def Simple.tokens {context : Context} (simple : Simple context) : List Token :=
  tokenize simple.text ++ (simple.trailing.tokens ++ [semicolon])

/-- The tokens of a header's condition, without the gap behind it. -/
def Guard.tokens (guard : Guard) : List Token :=
  guard.before.tokens ++ openParen :: (guard.inside.tokens ++ tokenize guard.condition.text ++
    guard.behind.tokens ++ [closeParen])

mutual

def Statement.tokens {context : Context} : Statement context → List Token
  | .simple code => code.tokens
  | .branch guard body next =>
    ifWord :: (guard.tokens ++ (guard.after.tokens ++
      openBrace :: (body.tokens ++ closeBrace :: next.tokens)))
  | .loop guard body =>
    whileWord :: (guard.tokens ++ (guard.after.tokens ++
      openBrace :: (body.tokens ++ [closeBrace])))

def Alternative.tokens {context : Context} : Alternative context → List Token
  | .none => []
  | .otherwise before after body =>
    before.tokens ++ elseWord :: (after.tokens ++ openBrace :: (body.tokens ++ [closeBrace]))
  | .elseIf before between _ guard body next =>
    before.tokens ++ elseWord :: (between.tokens ++ ifWord :: (guard.tokens ++
      (guard.after.tokens ++ openBrace :: (body.tokens ++ closeBrace :: next.tokens))))

def Block.tokens {context : Context} : Block context → List Token
  | .done gap => gap.tokens
  | .cons gap statement rest => gap.tokens ++ (statement.tokens ++ rest.tokens)

end

@[simp] theorem Gap.render_tokens (gap : Gap) : render gap.tokens = gap.text :=
  render_blankTokens gap.text

theorem Guard.source_eq (guard : Guard) :
    guard.source = render guard.tokens ++ guard.after.text := by
  simp [Guard.source, Guard.tokens, openParen, closeParen, render_tokenize]

mutual

theorem Statement.render_tokens {context : Context} :
    ∀ statement : Statement context, render statement.tokens = statement.source
  | .simple code => by
      rw [Statement.tokens, Statement.source, Simple.tokens, Simple.source, render_append,
        render_append, render_tokenize, Gap.render_tokens, List.append_assoc]
      rfl
  | .branch guard body next => by
      simp [Statement.tokens, Statement.source, Guard.source_eq, ifWord, openBrace, closeBrace,
        body.render_tokens, next.render_tokens]
  | .loop guard body => by
      simp [Statement.tokens, Statement.source, Guard.source_eq, whileWord, openBrace, closeBrace,
        body.render_tokens]

theorem Alternative.render_tokens {context : Context} :
    ∀ next : Alternative context, render next.tokens = next.source
  | .none => by rw [Alternative.tokens, Alternative.source, render_nil]
  | .otherwise before after body => by
      simp [Alternative.tokens, Alternative.source, elseWord, openBrace, closeBrace,
        body.render_tokens]
  | .elseIf before between apart guard body next => by
      simp [Alternative.tokens, Alternative.source, Guard.source_eq, elseWord, ifWord, openBrace,
        closeBrace, body.render_tokens, next.render_tokens]

theorem Block.render_tokens {context : Context} :
    ∀ block : Block context, render block.tokens = block.source
  | .done gap => by rw [Block.tokens, Block.source, Gap.render_tokens]
  | .cons gap statement rest => by
      simp [Block.tokens, Block.source, statement.render_tokens, rest.render_tokens]

end

theorem Code.isFragment (code : Code) : IsFragment (tokenize code.text) := by
  refine ⟨isCut_tokenize code.noComment code.closed, fun token member => ?_, code.unmarked⟩
  rw [List.all_eq_true]
  intro c inText
  have inCode : c ∈ code.text := by
    rw [← render_tokenize code.text]
    exact List.mem_flatMap.mpr ⟨token, member, inText⟩
  exact List.all_eq_true.mp code.inLine c inCode

theorem Gap.isGap (gap : Gap) : IsGap gap.tokens := by
  rw [Gap.tokens, blankTokens]
  split
  · simp [IsGap]
  · intro token member
    rw [List.mem_singleton.mp member]
    refine ⟨rfl, List.all_eq_true.mpr fun c inText => ?_⟩
    exact isBlank_of_isSpaceChar (List.all_eq_true.mp gap.blank c inText)

end Breadboard.Script
