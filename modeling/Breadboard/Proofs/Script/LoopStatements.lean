import Breadboard.Proofs.Script.BlockCode
import Breadboard.Proofs.Script.BlockConversion
import Breadboard.Proofs.Script.LoopSplit

set_option autoImplicit false

namespace Breadboard.Script

open Sketch hiding stripComments

theorem isTight_pass : Text.IsTight passText :=
  @Text.isTight_enclosed 'p' 's' (by decide) (by decide) "as".toList

/-- Lines of a block at a depth: none stands further out, and none has a blank at its ends. -/
def AreInside (depth : Nat) (lines : List ScriptLine) : Prop :=
  ∀ line ∈ lines, depth ≤ line.depth ∧ Text.IsTight line.text

theorem AreInside.cons {depth : Nat} {line : ScriptLine} {lines : List ScriptLine}
    (isInside : depth ≤ line.depth ∧ Text.IsTight line.text) (more : AreInside depth lines) :
    AreInside depth (line :: lines) :=
  List.forall_mem_cons.mpr ⟨isInside, more⟩

theorem AreInside.append {depth : Nat} {first second : List ScriptLine}
    (firstLines : AreInside depth first) (secondLines : AreInside depth second) :
    AreInside depth (first ++ second) :=
  List.forall_mem_append.mpr ⟨firstLines, secondLines⟩

theorem AreInside.orPass {depth : Nat} {lines : List ScriptLine} (inside : AreInside depth lines) :
    AreInside depth (orPass depth lines) := by
  unfold Script.orPass
  split
  · exact .cons ⟨Nat.le_refl _, isTight_pass⟩ (by simp [AreInside])
  · exact inside

/-- A line goes on with the statement before it at the depth: it stands in a block or starts a branch. -/
def ScriptLine.IsBehind (depth : Nat) (line : ScriptLine) : Prop :=
  Text.IsTight line.text ∧
    (depth < line.depth ∨ line.depth = depth ∧ isContinuation line.text = true)

theorem AreInside.isBehind {depth : Nat} {lines : List ScriptLine}
    (inside : AreInside (depth + 1) lines) : ∀ line ∈ lines, line.IsBehind depth :=
  fun line member => ⟨(inside line member).2, Or.inl (inside line member).1⟩

theorem areInside_of_isBehind {depth : Nat} {lines : List ScriptLine}
    (behind : ∀ line ∈ lines, line.IsBehind depth) : AreInside depth lines := by
  intro line member
  obtain ⟨tight, deeper | ⟨level, -⟩⟩ := behind line member
  · exact ⟨Nat.le_of_lt deeper, tight⟩
  · exact ⟨Nat.le_of_eq level.symm, tight⟩

theorem AreInside.outward {depth : Nat} {lines : List ScriptLine}
    (inside : AreInside (depth + 1) lines) : AreInside depth lines :=
  fun line member => ⟨Nat.le_of_succ_le (inside line member).1, (inside line member).2⟩

theorem Guard.isTight_line {keyword : String} {first : Char} {more : Text}
    (word : keyword.toList = first :: more) (visible : Text.isBlank first = false)
    (context : Context) (depth : Nat) (guard : Guard) :
    Text.IsTight (guard.line context depth keyword).text := by
  have text : (guard.line context depth keyword).text =
      first :: ((more ++ ' ' :: conditionText context guard.condition.text) ++ [':']) := by
    simp [Guard.line, word]
  rw [text]
  exact Text.isTight_enclosed visible (by decide) _

mutual

theorem Statement.areInside_lines {context : Context} :
    ∀ (statement : Statement context) (depth : Nat), AreInside depth (statement.lines depth)
  | .simple code, depth =>
      .cons ⟨Nat.le_refl _, Text.isTight_trim code.converts⟩ (by simp [AreInside])
  | .branch guard body next, depth =>
      .cons ⟨Nat.le_refl _, guard.isTight_line rfl (by decide) context depth⟩
        ((body.areInside_lines (depth + 1)).orPass.outward.append
          (areInside_of_isBehind (next.isBehind_lines depth)))
  | .loop guard body, depth =>
      .cons ⟨Nat.le_refl _, guard.isTight_line rfl (by decide) context depth⟩
        (body.areInside_lines (depth + 1)).orPass.outward

theorem Alternative.isBehind_lines {context : Context} :
    ∀ (next : Alternative context) (depth : Nat), ∀ line ∈ next.lines depth, line.IsBehind depth
  | .none, _ => List.forall_mem_nil _
  | .otherwise _ _ body, depth =>
      List.forall_mem_cons.mpr ⟨⟨@Text.isTight_enclosed 'e' ':' (by decide) (by decide) "lse".toList,
        Or.inr ⟨rfl, rfl⟩⟩, (body.areInside_lines (depth + 1)).orPass.isBehind⟩
  | .elseIf _ _ _ guard body next, depth =>
      List.forall_mem_cons.mpr ⟨⟨guard.isTight_line rfl (by decide) context depth,
        Or.inr ⟨rfl, rfl⟩⟩, List.forall_mem_append.mpr
          ⟨(body.areInside_lines (depth + 1)).orPass.isBehind, next.isBehind_lines depth⟩⟩

theorem Block.areInside_lines {context : Context} :
    ∀ (block : Block context) (depth : Nat), AreInside depth (block.lines depth)
  | .done _, _ => by simp [AreInside, Block.lines]
  | .cons _ statement rest, depth =>
      (statement.areInside_lines depth).append (rest.areInside_lines depth)

end

theorem Block.areWritten_lines {context : Context} (names : context.HasScriptNames)
    (body : Block context) : AreWritten (orPass 0 (body.lines 0)) := fun line member =>
  ⟨((body.areInside_lines 0).orPass line member).2,
    (body.areUnbroken_lines names 0).orPass 0 line member⟩

section

variable {line : ScriptLine}

theorem isBlank_of_mem_replicate {count : Nat} :
    ∀ c ∈ List.replicate count ' ', Text.isBlank c = true := by
  intro c member
  obtain rfl := List.eq_of_mem_replicate member
  rfl

theorem trimStart_indented (tight : Text.IsTight line.text) :
    Text.trimStart line.indented = line.text := by
  rw [ScriptLine.indented, Text.trimStart, List.dropWhile_append_of_pos isBlank_of_mem_replicate]
  exact Text.trimStart_of_first tight.first

theorem trim_indented (tight : Text.IsTight line.text) : Text.trim line.indented = line.text := by
  rw [Text.trim, trimStart_indented tight, Text.trimEnd_of_last tight.last]

theorem byteLength_replicate (count : Nat) :
    Text.byteLength (List.replicate count ' ') = count := by
  induction count with
  | zero => rfl
  | succ count ih =>
      rw [List.replicate_succ, Text.byteLength_cons, ih, Nat.add_comm]
      rfl

theorem indentation_indented (tight : Text.IsTight line.text) :
    indentation line.indented = 4 * (line.depth + 1) := by
  rw [indentation, trimStart_indented tight, ScriptLine.indented, Text.byteLength_append,
    byteLength_replicate, Nat.add_sub_cancel]

theorem allBlank_indented (tight : Text.IsTight line.text) : Text.allBlank line.indented = false := by
  have visible := tight.allBlank_append (List.replicate (4 * (line.depth + 1)) ' ') []
  rwa [List.append_nil] at visible

/-- A line of the loop in its statement, without the indentation of the loop. -/
def ScriptLine.dedented (line : ScriptLine) : Text :=
  line.indented.drop 4

theorem indented_eq (line : ScriptLine) :
    line.indented = ' ' :: ' ' :: ' ' :: ' ' :: line.dedented := by
  rw [ScriptLine.dedented, ScriptLine.indented, Nat.mul_succ, Nat.add_comm, List.replicate_add]
  rfl

theorem dropBytes?_blank (rest : Text) (count : Nat) :
    Text.dropBytes? (' ' :: rest) (count + 1) = Text.dropBytes? rest count := by
  have fits : ' '.utf8Size ≤ count + 1 := Nat.le_add_left 1 count
  rw [Text.dropBytes?, if_pos fits]
  rfl

theorem dedent_indented (line : ScriptLine) : dedent 4 line.indented = line.dedented := by
  simp only [dedent, indented_eq, dropBytes?_blank]
  rw [Text.dropBytes?, Option.getD_some]

theorem allBlank_dedented (tight : Text.IsTight line.text) (rest : Text) :
    Text.allBlank (line.dedented ++ rest) = false := by
  have split : line.dedented = List.replicate (4 * line.depth) ' ' ++ line.text := by
    rw [ScriptLine.dedented, ScriptLine.indented, Nat.mul_succ, Nat.add_comm, List.replicate_add]
    rfl
  rw [split, List.append_assoc]
  exact tight.allBlank_append _ rest

/-- A line of the loop that starts a statement ends the one before it. -/
theorem statementsFrom_fresh (tight : Text.IsTight line.text) (outermost : line.depth = 0)
    (fresh : isContinuation line.text = false) (collected : Text) (rest : List Text) :
    statementsFrom 4 collected (line.indented :: rest) =
      finishStatement collected ++ statementsFrom 4 line.dedented rest := by
  have atBase : (indentation line.indented == 4) = true := by
    rw [indentation_indented tight, outermost]
    rfl
  rw [statementsFrom, trim_indented tight, dedent_indented, atBase, fresh,
    if_neg (by simpa using tight.notEmpty)]
  rfl

/-- A line that goes on with a statement is added to it. -/
theorem statementsFrom_behind (behind : line.IsBehind 0) {collected : Text} (open_ : collected ≠ [])
    (rest : List Text) :
    statementsFrom 4 collected (line.indented :: rest) =
      statementsFrom 4 (collected ++ '\n' :: line.dedented) rest := by
  obtain ⟨tight, goesOn⟩ := behind
  have noStart : (indentation line.indented == 4 && !isContinuation line.text) = false := by
    rcases goesOn with deeper | ⟨-, onward⟩
    · have notBase : (indentation line.indented == 4) = false := by
        rw [indentation_indented tight, beq_eq_false_iff_ne]
        omega
      rw [notBase, Bool.false_and]
    · rw [onward, Bool.not_true, Bool.and_false]
  have belongs : (indentation line.indented == 4 || !collected.isEmpty) = true := by
    rw [Bool.or_eq_true]
    exact Or.inr (by simpa using open_)
  rw [statementsFrom, trim_indented tight, dedent_indented, if_neg (by simpa using tight.notEmpty)]
  simp only [noStart, belongs, Bool.false_eq_true, if_false, if_true]

end

theorem statementsFrom_behind_append {lines : List ScriptLine}
    (behind : ∀ line ∈ lines, line.IsBehind 0)
    {collected : Text} (open_ : collected ≠ []) (rest : List Text) :
    statementsFrom 4 collected (lines.map ScriptLine.indented ++ rest) =
      statementsFrom 4 (collected ++ (lines.map ScriptLine.dedented).flatMap ('\n' :: ·)) rest := by
  induction lines generalizing collected with
  | nil => simp
  | cons line more ih =>
      rw [List.map_cons, List.cons_append, statementsFrom_behind (behind line List.mem_cons_self) open_,
        ih (fun other member => behind other (List.mem_cons_of_mem _ member)) (by simp)]
      simp

/-- The statements of a block, without the gaps. -/
def Block.statements {context : Context} : Block context → List (Statement context)
  | .done _ => []
  | .cons _ statement rest => statement :: rest.statements

/-- The text of a statement as the loop's text is cut: its lines without the indentation of the
loop. -/
def Statement.unit {context : Context} (statement : Statement context) : Text :=
  Text.unlines ((statement.lines 0).map ScriptLine.dedented)

/-- A simple statement whose line does not look like a branch of a conditional. -/
def Statement.StartsFresh {context : Context} : Statement context → Prop
  | .simple code => isContinuation (convertLine context code.source) = false
  | .branch .. => True
  | .loop .. => True

/-- The first line of a statement starts it, and the others belong to it. -/
theorem Statement.lines_eq_cons {context : Context} {statement : Statement context}
    (fresh : statement.StartsFresh) :
    ∃ first more, statement.lines 0 = first :: more ∧ first.depth = 0 ∧
      isContinuation first.text = false ∧ ∀ line ∈ more, line.IsBehind 0 := by
  cases statement with
  | simple code => exact ⟨_, [], rfl, rfl, fresh, by simp⟩
  | branch guard body next =>
      exact ⟨_, _, rfl, rfl, rfl, List.forall_mem_append.mpr
        ⟨(body.areInside_lines 1).orPass.isBehind, next.isBehind_lines 0⟩⟩
  | loop guard body =>
      exact ⟨_, _, rfl, rfl, rfl, (body.areInside_lines 1).orPass.isBehind⟩

/-- The lines of a statement are collected into one text. -/
theorem Statement.statementsFrom_lines {context : Context} {statement : Statement context}
    (fresh : statement.StartsFresh) (collected : Text) (rest : List Text) :
    statementsFrom 4 collected ((statement.lines 0).map ScriptLine.indented ++ rest) =
      finishStatement collected ++ statementsFrom 4 statement.unit rest ∧
    finishStatement statement.unit = [statement.unit] := by
  obtain ⟨first, more, lines, outermost, noContinuation, behind⟩ := lines_eq_cons fresh
  have tight : Text.IsTight first.text :=
    (statement.areInside_lines 0 first (by rw [lines]; exact List.mem_cons_self)).2
  have unit : statement.unit =
      first.dedented ++ (more.map ScriptLine.dedented).flatMap ('\n' :: ·) := by
    rw [Statement.unit, lines, List.map_cons, Text.unlines_cons]
  have visible := allBlank_dedented tight []
  have notEmpty : first.dedented ≠ [] := by
    intro empty
    rw [empty] at visible
    cases visible
  constructor
  · rw [lines, List.map_cons, List.cons_append,
      statementsFrom_fresh tight outermost noContinuation, statementsFrom_behind_append behind notEmpty,
      unit]
  · rw [finishStatement, unit, allBlank_dedented tight, if_neg Bool.false_ne_true]

theorem Block.statementsFrom_lines {context : Context} :
    ∀ (block : Block context), (∀ statement ∈ block.statements, statement.StartsFresh) →
      ∀ collected : Text, statementsFrom 4 collected ((block.lines 0).map ScriptLine.indented) =
        finishStatement collected ++ block.statements.map Statement.unit
  | .done gap, _, collected => by
      rw [Block.lines, Block.statements, List.map_nil, List.map_nil, List.append_nil]
      rfl
  | .cons gap statement rest, fresh, collected => by
      obtain ⟨firstFresh, othersFresh⟩ := List.forall_mem_cons.mp fresh
      obtain ⟨first, finished⟩ := Statement.statementsFrom_lines firstFresh collected
        ((rest.lines 0).map ScriptLine.indented)
      rw [Block.lines, List.map_append, first, rest.statementsFrom_lines othersFresh, finished,
        Block.statements, List.map_cons]
      rfl

/-- The lines of the loop stand four blanks or more to the right, and the first one stands at four. -/
theorem baseIndentation_eq {lines : List ScriptLine} {first : ScriptLine} (inside : AreInside 0 lines)
    (member : first ∈ lines) (outermost : first.depth = 0) :
    baseIndentation (lines.map ScriptLine.indented) = 4 := by
  have kept : (lines.map ScriptLine.indented).filter (!Text.allBlank ·) =
      lines.map ScriptLine.indented := by
    rw [List.filter_eq_self]
    intro text isLine
    obtain ⟨line, inLines, rfl⟩ := List.mem_map.mp isLine
    rw [allBlank_indented (inside line inLines).2]
    rfl
  have least : ((lines.map ScriptLine.indented).map indentation).min? = some 4 := by
    rw [List.min?_eq_some_iff]
    constructor
    · refine List.mem_map.mpr ⟨_, List.mem_map_of_mem member, ?_⟩
      rw [indentation_indented (inside first member).2, outermost]
    · intro depth isDepth
      obtain ⟨text, isLine, rfl⟩ := List.mem_map.mp isDepth
      obtain ⟨line, inLines, rfl⟩ := List.mem_map.mp isLine
      rw [indentation_indented (inside line inLines).2]
      omega
  rw [baseIndentation, kept, least]
  rfl

theorem lines_unlines_indented {lines : List ScriptLine} (written : AreWritten lines) :
    Text.lines (Text.unlines (lines.map ScriptLine.indented)) = lines.map ScriptLine.indented := by
  refine Text.lines_unlines fun text member => ?_
  obtain ⟨line, inLines, rfl⟩ := List.mem_map.mp member
  exact isLine_indented (written line inLines).1 (written line inLines).2

/-- The text of a loop is cut at the indentation of the loop. -/
theorem statements_unlines_indented {lines : List ScriptLine} (written : AreWritten lines)
    {line : ScriptLine} (member : line ∈ lines) (outermost : line.depth = 0) :
    statements (Text.unlines (lines.map ScriptLine.indented)) =
      statementsFrom 4 [] (lines.map ScriptLine.indented) := by
  have inside : AreInside 0 lines := fun other inLines => ⟨Nat.zero_le _, (written other inLines).1⟩
  rw [statements, lines_unlines_indented written, baseIndentation_eq inside member outermost]

/-- The statements of a loop that has any. -/
theorem Block.statements_unlines {context : Context} (names : context.HasScriptNames)
    {body : Block context} (fresh : ∀ statement ∈ body.statements, statement.StartsFresh) :
    Script.statements (Text.unlines ((orPass 0 (body.lines 0)).map ScriptLine.indented)) =
      if body.statements.isEmpty then [passText] else body.statements.map Statement.unit := by
  have written := body.areWritten_lines names
  cases body with
  | done gap => rw [Script.statements, lines_unlines_indented written]; rfl
  | cons gap statement rest =>
      obtain ⟨first, more, lines, outermost, -⟩ :=
        Statement.lines_eq_cons (fresh statement List.mem_cons_self)
      have filled : (Block.cons gap statement rest).lines 0 = first :: (more ++ rest.lines 0) := by
        rw [Block.lines, lines, List.cons_append]
      have kept : orPass 0 ((Block.cons gap statement rest).lines 0) =
          (Block.cons gap statement rest).lines 0 :=
        if_neg (by simp [filled])
      rw [kept] at written ⊢
      rw [statements_unlines_indented written (by rw [filled]; exact List.mem_cons_self) outermost,
        Block.statementsFrom_lines _ fresh]
      rfl

section

variable {source : Text} (noImport : isScript source = false)
  {body : Block (Context.harvest (Sketch.stripComments source))}
  (defined : IsFirstDefinition "loop" body.tokens (tokenize (Sketch.stripComments source)))

include defined

theorem functionBody?_of_block :
    functionBody? "loop" (tokenize (Sketch.stripComments source)) = some body.source := by
  rw [functionBody?_of_isFirstDefinition (by decide) defined, body.render_tokens]

include noImport

/-- The conversion of a sketch whose loop is written from a block. -/
theorem convert?_of_block :
    convert? source = some
      { usesAnalog := (tokenize (Sketch.stripComments source)).any (·.isIdent "analogRead")
        context := Context.harvest (Sketch.stripComments source)
        body := some (orPass 0 (body.lines 0)) } := by
  have names := Context.hasScriptNames_harvest (Sketch.stripComments source)
  rw [convert?_of_loop noImport (functionBody?_of_block defined), body.convertBlock_eq names]

theorem split?_of_block {conversion : Conversion} (converted : convert? source = some conversion) :
    split? (ofSketch source) = some
      ⟨conversion.preamble, Text.unlines ((orPass 0 (body.lines 0)).map ScriptLine.indented)⟩ := by
  have names := Context.hasScriptNames_harvest (Sketch.stripComments source)
  have written := body.areWritten_lines names
  rw [← body.convertBlock_eq names] at written ⊢
  exact split?_of_loop noImport (functionBody?_of_block defined) written converted

end

/-- A loop that is a definition and nothing else. -/
theorem isFirstDefinition_alone {context : Context} (body : Block context) :
    IsFirstDefinition "loop" body.tokens
      (⟨.ident, "void".toList⟩ :: ⟨.space, [' ']⟩ :: ⟨.ident, "loop".toList⟩ :: openParen ::
        closeParen :: ⟨.space, [' ']⟩ :: openBrace :: (body.tokens ++ [closeBrace])) := by
  refine ⟨[], _, rfl, ⟨[⟨.space, [' ']⟩], _, by decide, ?_, rfl⟩, fun earlier later other split => ?_⟩
  · exact ⟨[], [], [⟨.space, [' ']⟩], [], by decide, .nil, body.isClosed_tokens, rfl⟩
  · simp_all

/-- A conditional with a name in each place, and a name behind it. -/
def branchSketch : Text :=
  "void loop() \x7bif(x)\x7by;\x7delse\x7bz;\x7dw;\x7d".toList

def branchBlock (context : Context) : Block context :=
  let word (name : Text) (plain : IsPlainWord name) (rest : Block context) : Block context :=
    .cons .none (.simple (.word context plain)) rest
  .cons .none
    (.branch
      ⟨.none, .none, .word ['x'] (by decide), .none, .none⟩
      (word ['y'] (isPlainWord_of_checks rfl) (.done .none))
      (.otherwise .none .none (word ['z'] (isPlainWord_of_checks rfl) (.done .none))))
    (word ['w'] (isPlainWord_of_checks rfl) (.done .none))

theorem tokenize_branchSketch (context : Context) :
    tokenize (Sketch.stripComments branchSketch) =
      ⟨.ident, "void".toList⟩ :: ⟨.space, [' ']⟩ :: ⟨.ident, "loop".toList⟩ :: openParen ::
        closeParen :: ⟨.space, [' ']⟩ :: openBrace :: ((branchBlock context).tokens ++ [closeBrace]) := by
  have cutAt : tokenize (Sketch.stripComments branchSketch) =
      [⟨.ident, "void".toList⟩, ⟨.space, [' ']⟩, ⟨.ident, "loop".toList⟩, openParen, closeParen,
        ⟨.space, [' ']⟩, openBrace, ifWord, openParen, ⟨.ident, ['x']⟩, closeParen, openBrace,
        ⟨.ident, ['y']⟩, semicolon, closeBrace, elseWord, openBrace, ⟨.ident, ['z']⟩, semicolon,
        closeBrace, ⟨.ident, ['w']⟩, semicolon, closeBrace] := by
    cbv
  rw [cutAt]
  have x : tokenize ['x'] = _ := tokenize_word rfl
  simp [branchBlock, Block.tokens, Statement.tokens, Alternative.tokens, Guard.tokens,
    Simple.tokens_word, Spacing.none, Gap.none, Gap.tokens, blankTokens, x]

end Breadboard.Script
