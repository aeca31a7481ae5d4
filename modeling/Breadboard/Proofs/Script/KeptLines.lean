import Breadboard.Proofs.Script.BodyLines
import Breadboard.Proofs.Script.LoopLines

set_option autoImplicit false

/- What is left of a loop's lines once the loop is cut into statements. Before the first line in the loop's
outermost column nothing is collected, so the deeper lines there are lost; behind it every line stays, in
its place. -/
namespace Breadboard.Script

open Sketch hiding stripComments

/-- The lines from the first one at the base indentation on. -/
def linesKept (base : Nat) (lines : List Text) : List Text :=
  lines.dropWhile (indentation · != base)

/-- The empty line in front of a continuation that has nothing to go on with. -/
def openingBreak (lines : List Text) : List Text :=
  if lines.head?.any (isContinuation <| Text.trim ·) then [[]] else []

/-- A line that can be told apart with the base indentation and without it. -/
structure IsKept (base : Nat) (line : Text) : Prop where
  visible : Text.trim line ≠ []
  isLine : Text.IsLine (dedent base line)
  shown : Text.allBlank (dedent base line) = false

/-- Lines that are collected for a statement. Only the first one can be empty. -/
structure IsRun (parts : List Text) : Prop where
  notEmpty : parts ≠ []
  plain : ∀ part ∈ parts, '\n' ∉ part ∧ part.getLast? ≠ some '\r'
  shown : ∀ last ∈ parts.getLast?, Text.allBlank last = false

theorem isRun_concat {parts : List Text} {base : Nat} {line : Text}
    (plain : ∀ part ∈ parts, '\n' ∉ part ∧ part.getLast? ≠ some '\r') (kept : IsKept base line) :
    IsRun (parts ++ [dedent base line]) := by
  refine ⟨by simp, List.forall_mem_append.mpr ⟨plain, ?_⟩, fun last isLast => ?_⟩
  · exact List.forall_mem_singleton.mpr ⟨kept.isLine.unbroken, kept.isLine.noReturn⟩
  · rw [List.getLast?_concat, Option.mem_some_iff] at isLast
    exact isLast ▸ kept.shown

namespace IsRun

variable {parts : List Text}

theorem lines_unlines (run : IsRun parts) : Text.lines (Text.unlines parts) = parts := by
  refine Text.lines_unlines_of_last run.plain fun last isLast empty => ?_
  have shown := run.shown last isLast
  rw [empty] at shown
  cases shown

theorem finishStatement_eq (run : IsRun parts) :
    finishStatement (Text.unlines parts) = [Text.unlines parts] := by
  have isLast := List.getLast?_eq_some_getLast run.notEmpty
  obtain ⟨c, inLast, visible⟩ := List.all_eq_false.mp (run.shown _ isLast)
  exact finishStatement_of_visible (List.all_eq_false.mpr
    ⟨c, Text.mem_unlines (List.mem_of_getLast? isLast) inLast, visible⟩)

theorem unlines_ne_nil (run : IsRun parts) : Text.unlines parts ≠ [] := by
  intro empty
  have finished := run.finishStatement_eq
  rw [empty] at finished
  cases finished

end IsRun

section

variable {base : Nat} {lines : List Text} (kept : ∀ line ∈ lines, IsKept base line)

include kept

/-- The lines behind collected ones all stay, in this statement or in the next ones. -/
theorem lines_statementsFrom_run {parts : List Text} (run : IsRun parts) :
    (statementsFrom base (Text.unlines parts) lines).flatMap Text.lines =
      parts ++ lines.map (dedent base) := by
  induction lines generalizing parts with
  | nil =>
      rw [statementsFrom, run.finishStatement_eq, List.flatMap_singleton, run.lines_unlines,
        List.map_nil, List.append_nil]
  | cons line rest ih =>
      obtain ⟨here, later⟩ := List.forall_mem_cons.mp kept
      have alone : IsRun [dedent base line] := @isRun_concat [] base line (by simp) here
      have joined := isRun_concat run.plain here
      rw [statementsFrom, if_neg (by simpa using here.visible)]
      dsimp only
      split
      · rw [run.finishStatement_eq, List.flatMap_append, List.flatMap_singleton, run.lines_unlines]
        have onward := ih later alone
        rw [show Text.unlines [dedent base line] = dedent base line by simp [Text.unlines]] at onward
        rw [onward, List.map_cons]
        rfl
      · have open_ : (Text.unlines parts).isEmpty = false := by simpa using run.unlines_ne_nil
        rw [open_, Bool.not_false, Bool.or_true, if_pos rfl, ← Text.unlines_concat run.notEmpty,
          ih later joined, List.map_cons, List.append_assoc]
        rfl

/-- Only the lines in front of the first one at the base indentation are lost. -/
theorem lines_statementsFrom :
    (statementsFrom base [] lines).flatMap Text.lines =
      openingBreak (linesKept base lines) ++ (linesKept base lines).map (dedent base) := by
  induction lines with
  | nil => rfl
  | cons line rest ih =>
      obtain ⟨here, later⟩ := List.forall_mem_cons.mp kept
      have noText : (Text.trim line).isEmpty = false := by simpa using here.visible
      by_cases atBase : indentation line = base
      · have all : linesKept base (line :: rest) = line :: rest :=
          List.dropWhile_cons_of_neg (by simp [atBase])
        rw [all, List.map_cons, statementsFrom]
        cases goesOn : isContinuation (Text.trim line) with
        | false =>
            have run := lines_statementsFrom_run later (@isRun_concat [] base line (by simp) here)
            have fresh : openingBreak (line :: rest) = [] := by simp [openingBreak, goesOn]
            rw [fresh]
            simpa [noText, atBase, finishStatement, Text.allBlank, Text.unlines] using run
        | true =>
            have run := lines_statementsFrom_run later (@isRun_concat [[]] base line (by simp) here)
            have broken : openingBreak (line :: rest) = [[]] := by simp [openingBreak, goesOn]
            rw [broken]
            simpa [noText, atBase, Text.unlines] using run
      · have fewer : linesKept base (line :: rest) = linesKept base rest :=
          List.dropWhile_cons_of_pos (by simp [atBase])
        rw [fewer, ← ih later, statementsFrom]
        simp [noText, atBase]

end

theorem baseIndentation_le {lines : List Text} {line : Text} (member : line ∈ lines)
    (visible : Text.allBlank line = false) : baseIndentation lines ≤ indentation line := by
  have listed : indentation line ∈ (lines.filter (!Text.allBlank ·)).map indentation :=
    List.mem_map_of_mem (List.mem_filter.mpr ⟨member, by simp [visible]⟩)
  obtain ⟨least, isLeast⟩ := Option.isSome_iff_exists.mp
    (List.isSome_min?_of_mem listed)
  rw [baseIndentation, isLeast]
  exact (List.min?_eq_some_iff.mp isLeast).2 _ listed

section

variable {lines : List ScriptLine} (written : AreWritten lines) {line : ScriptLine}
  (member : line ∈ lines)

include written member

theorem dedent_indented_base :
    ∃ count, dedent (baseIndentation (lines.map ScriptLine.indented)) line.indented =
      List.replicate count ' ' ++ line.text := by
  have tight := (written line member).1
  have fits := baseIndentation_le (List.mem_map_of_mem member) (allBlank_indented tight)
  rw [indentation_indented tight] at fits
  obtain ⟨count, deeper⟩ := Nat.exists_eq_add_of_le fits
  refine ⟨count, ?_⟩
  have dropped := dropBytes?_append
    (List.replicate (baseIndentation (lines.map ScriptLine.indented)) ' ')
    (List.replicate count ' ' ++ line.text)
  rw [byteLength_replicate, ← List.append_assoc, ← List.replicate_add, ← deeper] at dropped
  rw [dedent, ScriptLine.indented, dropped, Option.getD_some]

theorem isKept_indented :
    IsKept (baseIndentation (lines.map ScriptLine.indented)) line.indented := by
  obtain ⟨tight, unbroken⟩ := written line member
  obtain ⟨count, dedented⟩ := dedent_indented_base written member
  refine ⟨by rw [trim_indented tight]; exact tight.notEmpty, ?_, ?_⟩
  · rw [dedented]
    exact isLine_blank_append tight unbroken count
  · have visible := tight.allBlank_append (List.replicate count ' ') []
    rwa [dedented, ← List.append_nil line.text]

theorem trimStart_dedent_indented :
    Text.trimStart (dedent (baseIndentation (lines.map ScriptLine.indented)) line.indented) =
      line.text := by
  obtain ⟨count, dedented⟩ := dedent_indented_base written member
  rw [dedented, Text.trimStart, List.dropWhile_append_of_pos isBlank_of_mem_replicate]
  exact Text.trimStart_of_first (written line member).1.first

end

section

variable {lines : List ScriptLine} (written : AreWritten lines)

include written

theorem isKept_of_mem_indented :
    ∀ text ∈ lines.map ScriptLine.indented,
      IsKept (baseIndentation (lines.map ScriptLine.indented)) text := by
  intro text isLine
  obtain ⟨line, member, rfl⟩ := List.mem_map.mp isLine
  exact isKept_indented written member

/-- The lines of a loop's statements. -/
theorem lines_statements_indented :
    (statements (Text.unlines (lines.map ScriptLine.indented))).flatMap Text.lines =
      openingBreak (linesKept (baseIndentation (lines.map ScriptLine.indented))
          (lines.map ScriptLine.indented)) ++
        (linesKept (baseIndentation (lines.map ScriptLine.indented))
          (lines.map ScriptLine.indented)).map
            (dedent (baseIndentation (lines.map ScriptLine.indented))) := by
  rw [statements, lines_unlines_indented written]
  exact lines_statementsFrom (isKept_of_mem_indented written)

theorem map_trimStart_dedent {texts : List Text} (among : texts ⊆ lines.map ScriptLine.indented) :
    (texts.map (dedent (baseIndentation (lines.map ScriptLine.indented)))).map Text.trimStart =
      texts.map Text.trimStart := by
  rw [List.map_map]
  refine List.map_congr_left fun text inTexts => ?_
  obtain ⟨line, member, rfl⟩ := List.mem_map.mp (among inTexts)
  rw [Function.comp_apply, trimStart_dedent_indented written member,
    trimStart_indented (written line member).1]

/-- All lines of a loop stay just in case the first one stands in the outermost column and does not look
like a branch of a conditional. -/
theorem lines_statements_iff :
    ((statements (Text.unlines (lines.map ScriptLine.indented))).flatMap Text.lines).map
        Text.trimStart = (lines.map ScriptLine.indented).map Text.trimStart ↔
      ∀ first ∈ (lines.map ScriptLine.indented).head?,
        indentation first = baseIndentation (lines.map ScriptLine.indented) ∧
          isContinuation (Text.trim first) = false := by
  have suffix : linesKept (baseIndentation (lines.map ScriptLine.indented))
      (lines.map ScriptLine.indented) <:+ lines.map ScriptLine.indented := List.dropWhile_suffix _
  rw [lines_statements_indented written, List.map_append,
    map_trimStart_dedent written suffix.subset]
  constructor
  · intro same first isFirst
    obtain ⟨line, member, rfl⟩ := List.mem_map.mp (List.mem_of_mem_head? isFirst)
    have tight := (written line member).1
    obtain ⟨others, split⟩ := List.head?_eq_some_iff.mp isFirst
    -- An empty line in front of the others would be a line of the loop.
    have noBreak : ¬ (linesKept (baseIndentation (lines.map ScriptLine.indented))
        (lines.map ScriptLine.indented)).head?.any (isContinuation <| Text.trim ·) = true := by
      intro goesOn
      rw [openingBreak, if_pos goesOn, List.map_singleton, List.singleton_append, split,
        List.map_cons, trimStart_indented tight] at same
      exact tight.notEmpty (List.head_eq_of_cons_eq same).symm
    rw [openingBreak, if_neg noBreak, List.map_nil, List.nil_append] at same
    have all := suffix.eq_of_length (by simpa using congrArg List.length same)
    rw [all, split, List.head?_cons, Option.any_some, Bool.not_eq_true] at noBreak
    refine ⟨?_, noBreak⟩
    rw [linesKept, split, List.dropWhile_eq_self_iff] at all
    have atBase := all (Nat.succ_pos _)
    rw [List.getElem_cons_zero, ← split] at atBase
    simpa using atBase
  · intro fresh
    have all : linesKept (baseIndentation (lines.map ScriptLine.indented))
        (lines.map ScriptLine.indented) = lines.map ScriptLine.indented := by
      cases lines with
      | nil => rfl
      | cons first others => exact List.dropWhile_cons_of_neg (by simp [(fresh _ rfl).1])
    have noBreak : openingBreak (lines.map ScriptLine.indented) = [] := by
      refine if_neg ?_
      rw [Option.any_eq_true]
      rintro ⟨first, isFirst, goesOn⟩
      rw [(fresh first isFirst).2] at goesOn
      cases goesOn
    rw [all, noBreak, List.map_nil, List.nil_append]

end

/-- The lines that a sketch's loop becomes, indented as they are written. -/
def loopLines (source body : Text) : List Text :=
  (convertBlock (Context.harvest (Sketch.stripComments source)) body).map ScriptLine.indented

/-- The script of a sketch with a loop ends with the loop's lines. -/
theorem ofSketch_of_loop {source body : Text} (noImport : isScript source = false)
    (defined : functionBody? "loop" (tokenize (Sketch.stripComments source)) = some body)
    {conversion : Conversion} (converted : convert? source = some conversion) :
    ofSketch source = conversion.preamble ++ "while True:\n".toList ++
      (loopLines source body).flatMap (· ++ ['\n']) := by
  obtain rfl := Option.some.inj ((convert?_of_loop noImport defined).symm.trans converted)
  rw [ofSketch, converted, loopLines, List.flatMap_map]
  exact (List.append_assoc _ _ _).symm

/-- The lines of a converted loop on their way into the statements. In front of the first line in the
outermost column the lines are lost, all lines behind it stay in their order, and a continuation there has an
empty line before it. So the statements have the lines of the loop just in case the loop starts in its
outermost column with a line that is no continuation. -/
theorem loop_lines_kept_iff {source body : Text} (noImport : isScript source = false)
    (literals : ∀ token ∈ tokenize source, token.kind = .literal → '\n' ∉ token.text)
    (defined : functionBody? "loop" (tokenize (Sketch.stripComments source)) = some body) :
    ∃ split,
      ofSketch source =
        split.setup ++ "while True:\n".toList ++ (loopLines source body).flatMap (· ++ ['\n']) ∧
      (∀ line ∈ loopLines source body, '\n' ∉ line) ∧
      split? (ofSketch source) = some split ∧
      (statements split.body).flatMap Text.lines =
        openingBreak (linesKept (baseIndentation (loopLines source body)) (loopLines source body)) ++
          (linesKept (baseIndentation (loopLines source body)) (loopLines source body)).map
            (dedent (baseIndentation (loopLines source body))) ∧
      (((statements split.body).flatMap Text.lines).map Text.trimStart =
          (loopLines source body).map Text.trimStart ↔
        ∀ first ∈ (loopLines source body).head?,
          indentation first = baseIndentation (loopLines source body) ∧
            isContinuation (Text.trim first) = false) := by
  have names := Context.hasScriptNames_harvest (Sketch.stripComments source)
  have written := areWritten_convertBlock names (unbroken_logicalLines literals defined)
  have converted := convert?_of_loop noImport defined
  refine ⟨_, ofSketch_of_loop noImport defined converted, fun text isLine => ?_,
    split?_of_loop noImport defined written converted, lines_statements_indented written,
    lines_statements_iff written⟩
  obtain ⟨line, member, rfl⟩ := List.mem_map.mp isLine
  exact (isLine_indented (written line member).1 (written line member).2).unbroken

theorem loopLines_branchSketch :
    functionBody? "loop" (tokenize (Sketch.stripComments branchSketch)) =
        some (branchBlock (Context.harvest (Sketch.stripComments branchSketch))).source ∧
      loopLines branchSketch (branchBlock (Context.harvest (Sketch.stripComments branchSketch))).source =
        ["    if x:".toList, "        y".toList, "    else:".toList, "        z".toList,
          "    w".toList] := by
  have names := Context.hasScriptNames_harvest (Sketch.stripComments branchSketch)
  refine ⟨functionBody?_of_block (by rw [tokenize_branchSketch]; exact isFirstDefinition_alone _), ?_⟩
  have x : conditionText (Context.harvest (Sketch.stripComments branchSketch)) ['x'] = ['x'] :=
    (isPlainWord_of_checks rfl).conditionText_eq _
  have line {name : Text} (plain : IsPlainWord name) :
      convertLine (Context.harvest (Sketch.stripComments branchSketch))
        (Simple.word (Context.harvest (Sketch.stripComments branchSketch)) plain).source = name := by
    rw [Simple.source_word, plain.convertLine_eq]
  rw [loopLines, Block.convertBlock_eq names]
  simp [branchBlock, Statement.lines, Block.lines, Alternative.lines, Guard.line, orPass, elseLine,
    line, x, ScriptLine.indented, List.replicate]

/-- A branch at the end of a loop's first statement belongs to it. -/
theorem loop_lines_kept_iff_branchSketch :
    isScript branchSketch = false ∧
    (∀ token ∈ tokenize branchSketch, token.kind = .literal → '\n' ∉ token.text) ∧
    ∃ body, functionBody? "loop" (tokenize (Sketch.stripComments branchSketch)) = some body ∧
      ∃ split, split? (ofSketch branchSketch) = some split ∧
        ((statements split.body).flatMap Text.lines).map Text.trimStart =
          ["if x:".toList, "y".toList, "else:".toList, "z".toList, "w".toList] := by
  have noImport : isScript branchSketch = false := by decide
  have noLiteral : (tokenize branchSketch).all (·.kind != .literal) = true := by cbv
  have literals : ∀ token ∈ tokenize branchSketch, token.kind = .literal → '\n' ∉ token.text := by
    intro token member literal
    have other := List.all_eq_true.mp noLiteral token member
    rw [literal] at other
    cases other
  obtain ⟨defined, lines⟩ := loopLines_branchSketch
  obtain ⟨split, -, -, found, -, kept⟩ := loop_lines_kept_iff noImport literals defined
  refine ⟨noImport, literals, _, defined, split, found, ?_⟩
  rw [lines] at kept
  exact kept.mpr (by decide)

/-- A block without a header, and a statement behind it. -/
def nestedScope : Text :=
  "void loop() \x7b \x7b x; \x7d y; \x7d".toList

theorem functionBody?_nestedScope :
    functionBody? "loop" (tokenize (Sketch.stripComments nestedScope)) =
      some " \x7b x; \x7d y; ".toList := by
  cbv

theorem logicalLines_nestedScope :
    logicalLines " \x7b x; \x7d y; ".toList =
      [['\x7b'], ['x'] ++ [';'], ['\x7d'], ['y'] ++ [';']] := by
  cbv

theorem loopLines_nestedScope :
    loopLines nestedScope " \x7b x; \x7d y; ".toList = ["        x".toList, "    y".toList] := by
  have names := Context.hasScriptNames_harvest (Sketch.stripComments nestedScope)
  have word {name : Text} (plain : IsPlainWord name) :
      convertLine (Context.harvest (Sketch.stripComments nestedScope)) (name ++ [';']) = name :=
    plain.convertLine_eq _
  have x := word (show IsPlainWord ['x'] from isPlainWord_of_checks rfl)
  have y := word (show IsPlainWord ['y'] from isPlainWord_of_checks rfl)
  have noBraces : braceCounts (['x'] ++ [';']) = (0, 0) ∧ braceCounts (['y'] ++ [';']) = (0, 0) :=
    ⟨by cbv, by cbv⟩
  have inner : List.replicate 0 false ++ fillInnermost [false] = [true] := rfl
  rw [loopLines, convertBlock, logicalLines_nestedScope, convertLines_openBrace names,
    convertLines_cons_filled noBraces.1 rfl (by rw [x]; exact List.cons_ne_nil _ _), x, inner,
    convertLines_closeBrace names,
    convertLines_cons_filled noBraces.2 rfl (by rw [y]; exact List.cons_ne_nil _ _), y]
  rfl

/-- The statement of the inner block is lost. -/
theorem nestedScope_loses_statement :
    isScript nestedScope = false ∧
    (∀ token ∈ tokenize nestedScope, token.kind ≠ .literal) ∧
    ∃ setup, ofSketch nestedScope = setup ++ "while True:\n        x\n    y\n".toList ∧
      split? (ofSketch nestedScope) = some ⟨setup, "        x\n    y".toList⟩ ∧
      statements "        x\n    y".toList = [['y']] := by
  have noImport : isScript nestedScope = false := by decide
  have noLiteral : (tokenize nestedScope).all (·.kind != .literal) = true := by cbv
  have names := Context.hasScriptNames_harvest (Sketch.stripComments nestedScope)
  have written := areWritten_convertBlock names
    (show ∀ line ∈ logicalLines " \x7b x; \x7d y; ".toList, '\n' ∉ line by
      rw [logicalLines_nestedScope]; decide)
  have converted := convert?_of_loop noImport functionBody?_nestedScope
  have split := split?_of_loop noImport functionBody?_nestedScope written converted
  have script := ofSketch_of_loop noImport functionBody?_nestedScope converted
  have lines := loopLines_nestedScope
  rw [lines, List.append_assoc] at script
  rw [loopLines] at lines
  rw [lines] at split
  refine ⟨noImport, fun token member => ?_, _, script, split, by decide⟩
  simpa using List.all_eq_true.mp noLiteral token member

end Breadboard.Script
