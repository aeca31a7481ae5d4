import Breadboard.Proofs.Script.LoopStatements

set_option autoImplicit false

namespace Breadboard.Script

open Sketch hiding stripComments

theorem areWritten_closeBlocks (count : Nat) (blocks : OpenBlocks) :
    AreWritten (closeBlocks count blocks).1 := by
  induction count generalizing blocks with
  | zero => simp [closeBlocks, AreWritten]
  | succ count ih =>
      cases blocks with
      | nil => simp [closeBlocks, AreWritten]
      | cons filled outer =>
          cases filled with
          | true => exact ih outer
          | false => exact List.forall_mem_cons.mpr ⟨⟨isTight_pass, show '\n' ∉ passText by decide⟩, ih outer⟩

theorem length_closeBlocks (count : Nat) (blocks : OpenBlocks) :
    (closeBlocks count blocks).2.length = blocks.length - count := by
  induction count generalizing blocks with
  | zero => rfl
  | succ count ih =>
      cases blocks with
      | nil => simp [closeBlocks]
      | cons filled outer => rw [closeBlocks, ih, List.length_cons, Nat.add_sub_add_right]

theorem length_convertLogicalLine (context : Context) (blocks : OpenBlocks) (line : Text) :
    (convertLogicalLine context blocks line).2.length =
      blocks.length - (braceCounts line).1 + (braceCounts line).2 := by
  have closed := length_closeBlocks (braceCounts line).1 blocks
  rw [convertLogicalLine]
  dsimp only
  split <;> simp [closed, Nat.add_comm]

/-- The lines that logical lines become, and the blocks that they leave open. -/
def convertedLines (context : Context) (blocks : OpenBlocks) :
    List Text → List ScriptLine × OpenBlocks
  | [] => ([], blocks)
  | line :: rest =>
    let (out, next) := convertLogicalLine context blocks line
    let (lines, last) := convertedLines context next rest
    (out ++ lines, last)

/-- What stands in front changes the lines behind it only by the blocks that it leaves open. -/
theorem convertLines_append (context : Context) (blocks : OpenBlocks) (first second : List Text) :
    convertLines context blocks (first ++ second) =
      (convertedLines context blocks first).1 ++
        convertLines context (convertedLines context blocks first).2 second := by
  induction first generalizing blocks with
  | nil => rfl
  | cons line rest ih =>
      rw [List.cons_append, convertLines, convertedLines]
      dsimp only
      rw [ih, List.append_assoc]

/-- How many blocks logical lines leave open. -/
def blockDepth (lines : List Text) : Nat :=
  lines.foldl (fun depth line => depth - (braceCounts line).1 + (braceCounts line).2) 0

theorem length_convertedLines (context : Context) (blocks : OpenBlocks) (lines : List Text) :
    (convertedLines context blocks lines).2.length = lines.foldl
      (fun depth line => depth - (braceCounts line).1 + (braceCounts line).2) blocks.length := by
  induction lines generalizing blocks with
  | nil => rfl
  | cons line rest ih =>
      rw [convertedLines, List.foldl_cons, ← length_convertLogicalLine context]
      exact ih _

/-- Behind lines whose braces all close the script stands outside all blocks. -/
theorem convertedLines_of_blockDepth {lines : List Text} (outermost : blockDepth lines = 0)
    (context : Context) : (convertedLines context [] lines).2 = [] := by
  rw [← List.length_eq_zero_iff, length_convertedLines]
  exact outermost

section

variable {context : Context} (names : context.HasScriptNames)

include names

theorem areWritten_convertLogicalLine (blocks : OpenBlocks) {line : Text} (unbroken : '\n' ∉ line) :
    AreWritten (convertLogicalLine context blocks line).1 := by
  have passes := areWritten_closeBlocks (braceCounts line).1 blocks
  rw [convertLogicalLine]
  dsimp only
  split
  · exact passes
  · rename_i filled
    have tight : Text.IsTight (convertLine context line) :=
      Text.isTight_trim (by simpa [convertLine] using filled)
    exact List.forall_mem_append.mpr ⟨passes, List.forall_mem_singleton.mpr
      ⟨tight, not_mem_convertLine names unbroken⟩⟩

theorem areWritten_convertLines (blocks : OpenBlocks) {lines : List Text}
    (unbroken : ∀ line ∈ lines, '\n' ∉ line) : AreWritten (convertLines context blocks lines) := by
  induction lines generalizing blocks with
  | nil => exact areWritten_closeBlocks _ _
  | cons line rest ih =>
      obtain ⟨first, others⟩ := List.forall_mem_cons.mp unbroken
      exact List.forall_mem_append.mpr ⟨areWritten_convertLogicalLine names blocks first, ih _ others⟩

theorem areWritten_convertBlock {text : Text} (unbroken : ∀ line ∈ logicalLines text, '\n' ∉ line) :
    AreWritten (convertBlock context text) := by
  have lines := areWritten_convertLines names [] unbroken
  rw [convertBlock]
  split
  · exact List.forall_mem_singleton.mpr ⟨isTight_pass, by decide⟩
  · exact lines

end

section

variable {base : Nat} {collected : Text}

theorem finishStatement_of_visible (visible : Text.allBlank collected = false) :
    finishStatement collected = [collected] := by
  rw [finishStatement, visible, if_neg Bool.false_ne_true]

theorem visible_append (visible : Text.allBlank collected = false) (more : Text) :
    Text.allBlank (collected ++ more) = false := by
  rw [Text.allBlank, List.all_append, show collected.all _ = false from visible, Bool.false_and]

/-- The text that is collected at the start stays in front of the first statement. -/
theorem exists_statementsFrom (visible : Text.allBlank collected = false) (lines : List Text) :
    ∃ more rest, statementsFrom base collected lines = (collected ++ more) :: rest := by
  induction lines generalizing collected with
  | nil =>
      exact ⟨[], [], by rw [statementsFrom, finishStatement_of_visible visible, List.append_nil]⟩
  | cons line rest ih =>
      rw [statementsFrom]
      dsimp only
      split
      · exact ih visible
      · split
        · exact ⟨[], statementsFrom base (dedent base line) rest, by
            rw [finishStatement_of_visible visible, List.append_nil]; rfl⟩
        · split
          · obtain ⟨more, others, eq⟩ := ih (visible_append visible ('\n' :: dedent base line))
            exact ⟨'\n' :: dedent base line ++ more, others, by rw [eq, List.append_assoc]⟩
          · exact ih visible

/-- The lines before a line that starts a statement are cut on their own. -/
theorem statementsFrom_append_fresh {line : ScriptLine} (tight : Text.IsTight line.text)
    (outermost : line.depth = 0) (fresh : isContinuation line.text = false) (front : List Text)
    (rest : List Text) :
    statementsFrom 4 collected (front ++ line.indented :: rest) =
      statementsFrom 4 collected front ++ statementsFrom 4 line.dedented rest := by
  induction front generalizing collected with
  | nil => exact statementsFrom_fresh tight outermost fresh collected rest
  | cons first others ih =>
      rw [List.cons_append, statementsFrom, statementsFrom]
      dsimp only
      split
      · exact ih
      · split
        · rw [ih, List.append_assoc]
        · split
          · exact ih
          · exact ih

/-- The line stands outside all blocks and does not look like a branch. -/
def ScriptLine.StartsStatement (line : ScriptLine) : Prop :=
  line.depth = 0 ∧ isContinuation line.text = false

/-- A line is a statement of its own if the next line starts another one. -/
theorem statementsFrom_line {line : Text} (visible : Text.allBlank line = false)
    {after : List ScriptLine} (written : AreWritten after) :
    ∃ unit rest, statementsFrom 4 line (after.map ScriptLine.indented) = unit :: rest ∧
      ((∀ next ∈ after.head?, next.StartsStatement) ∧ unit = line ∨
        ¬ (∀ next ∈ after.head?, next.StartsStatement) ∧
          ∃ onward, Text.allBlank onward = false ∧ unit = line ++ '\n' :: onward) := by
  cases after with
  | nil => exact ⟨line, [], finishStatement_of_visible visible, Or.inl ⟨by simp, rfl⟩⟩
  | cons next others =>
      have tight := (written next List.mem_cons_self).1
      by_cases starts : next.StartsStatement
      · refine ⟨line, statementsFrom 4 next.dedented (others.map ScriptLine.indented), ?_,
          Or.inl ⟨by simpa using starts, rfl⟩⟩
        rw [List.map_cons, statementsFrom_fresh tight starts.1 starts.2,
          finishStatement_of_visible visible]
        rfl
      · -- A line that starts no statement is deeper or a branch, and both are added to what is collected.
        have behind : next.IsBehind 0 := by
          refine ⟨tight, ?_⟩
          rcases Nat.eq_zero_or_pos next.depth with outermost | deeper
          · exact Or.inr ⟨outermost, by simpa [ScriptLine.StartsStatement, outermost] using starts⟩
          · exact Or.inl deeper
        have notEmpty : line ≠ [] := by
          rintro rfl
          cases visible
        obtain ⟨more, rest, eq⟩ := @exists_statementsFrom 4 _
          (visible_append visible ('\n' :: next.dedented)) (others.map ScriptLine.indented)
        refine ⟨line ++ '\n' :: (next.dedented ++ more), rest, ?_, Or.inr ⟨by simpa using starts,
          next.dedented ++ more, allBlank_dedented tight more, rfl⟩⟩
        rw [List.map_cons, statementsFrom_behind behind notEmpty, eq, List.append_assoc,
          List.cons_append]

end

section

variable {context : Context} {text line : Text} {before after : List Text}
  (placed : logicalLines text = before ++ line :: after) (outermost : blockDepth before = 0)
  (noBraces : braceCounts line = (0, 0)) (filled : convertLine context line ≠ [])

include placed outermost noBraces filled

/-- A line outside all blocks stands in the loop's first column. -/
theorem convertBlock_of_line :
    convertBlock context text = (convertedLines context [] before).1 ++
      ⟨0, convertLine context line⟩ :: convertLines context [] after := by
  have lines : convertLines context [] (logicalLines text) = (convertedLines context [] before).1 ++
      ⟨0, convertLine context line⟩ :: convertLines context [] after := by
    rw [placed, convertLines_append, convertedLines_of_blockDepth outermost,
      convertLines_cons_filled noBraces rfl filled]
    rfl
  rw [convertBlock, lines]
  exact if_neg (by simp)

/-- The loop is cut in front of such a line, and behind it only what looks like a part of it is added. -/
theorem exists_unit_of_line (names : context.HasScriptNames)
    (unbroken : ∀ line ∈ logicalLines text, '\n' ∉ line)
    (fresh : isContinuation (convertLine context line) = false) :
    AreWritten (convertBlock context text) ∧ ∃ unit rest,
      statements (Text.unlines ((convertBlock context text).map ScriptLine.indented)) =
        statementsFrom 4 [] ((convertedLines context [] before).1.map ScriptLine.indented) ++
          unit :: rest ∧
      ((∀ next ∈ (convertLines context [] after).head?, next.StartsStatement) ∧
          unit = convertLine context line ∨
        ¬ (∀ next ∈ (convertLines context [] after).head?, next.StartsStatement) ∧
          ∃ onward, Text.allBlank onward = false ∧ unit = convertLine context line ++ '\n' :: onward) := by
  have block := convertBlock_of_line placed outermost noBraces filled
  have written := areWritten_convertBlock names unbroken
  refine ⟨written, ?_⟩
  rw [block] at written ⊢
  have member : (⟨0, convertLine context line⟩ : ScriptLine) ∈ (convertedLines context [] before).1 ++
      ⟨0, convertLine context line⟩ :: convertLines context [] after := by simp
  have tight : Text.IsTight (convertLine context line) := (written _ member).1
  have visible : Text.allBlank (convertLine context line) = false := by
    simpa using tight.allBlank_append [] []
  have behind : AreWritten (convertLines context [] after) := fun other inAfter =>
    written other (List.mem_append_right _ (List.mem_cons_of_mem _ inAfter))
  obtain ⟨unit, rest, cut, shape⟩ := statementsFrom_line visible behind
  refine ⟨unit, rest, ?_, shape⟩
  rw [statements_unlines_indented written member rfl, List.map_append, List.map_cons,
    @statementsFrom_append_fresh [] ⟨0, convertLine context line⟩ tight rfl fresh]
  exact congrArg _ cut

end

end Breadboard.Script
