import Breadboard.Proofs.Script.KeptLines
import Breadboard.Proofs.Script.StatementUnits

set_option autoImplicit false

namespace Breadboard.Script

/-- A line with nothing but a comment behind its margin. -/
structure Remark where
  margin : Text
  note : Text
  blank : Text.allBlank margin = true
  marginUnbroken : '\n' ∉ margin
  noteUnbroken : '\n' ∉ note

namespace Remark

def line (remark : Remark) : Text :=
  remark.margin ++ '#' :: remark.note

theorem unbroken (remark : Remark) : '\n' ∉ remark.line := by
  simp [line, remark.marginUnbroken, remark.noteUnbroken]

theorem trimStart_line (remark : Remark) : Text.trimStart remark.line = '#' :: remark.note := by
  rw [line, Text.trimStart, List.dropWhile_append_of_pos (List.all_eq_true.mp remark.blank)]
  exact List.dropWhile_cons_of_neg (by decide)

theorem isRemark_line (remark : Remark) : isRemark remark.line = true := by
  rw [isRemark, trimStart_line]
  rfl

theorem indentation_line (remark : Remark) :
    indentation remark.line = Text.byteLength remark.margin := by
  rw [indentation, trimStart_line, line, Text.byteLength_append]
  omega

/-- A comment line behind which a break is cut off is still one, with the same margin. -/
theorem exists_withoutBreak (remark : Remark) : ∃ other : Remark,
    other.margin = remark.margin ∧ Text.withoutBreak (remark.line ++ ['\n']) = other.line := by
  rcases Text.withoutBreak_cases remark.line with same | shorter
  · exact ⟨remark, rfl, same⟩
  · have noteEnds : remark.note.getLast? = some '\r' := by
      have ends := congrArg List.getLast? shorter
      rw [line, List.getLast?_append_of_ne_nil _ (by simp), List.getLast?_concat] at ends
      cases noted : remark.note with
      | nil =>
          rw [noted] at ends
          cases ends
      | cons c note =>
          rwa [noted, List.getLast?_cons_cons] at ends
    obtain ⟨note, split⟩ := List.getLast?_eq_some_iff.mp noteEnds
    have unbroken := remark.noteUnbroken
    rw [split, List.mem_append, not_or] at unbroken
    let other : Remark := ⟨remark.margin, note, remark.blank, remark.marginUnbroken, unbroken.1⟩
    have whole : remark.line = other.line ++ ['\r'] := by simp [line, other, split]
    exact ⟨other, rfl, List.append_cancel_right (shorter.symm.trans whole)⟩

end Remark

/-- A gap between two lines of a script's loop, with the script cut apart there. -/
structure LoopGap where
  before : Text
  after : Text
  setup : List Text
  above : List Text
  found : splitAtHeader? (Text.brokenLines before) = some (setup, above)
  ended : before.getLast? = some '\n'
  filled : above ≠ []
  aboveInside : ∀ line ∈ above, isInsideLoop (Text.withoutBreak line) = true
  belowInside : (Text.lines after).head?.any isInsideLoop = true

theorem splitAtHeader?_append {lines setup loop : List Text}
    (found : splitAtHeader? lines = some (setup, loop)) (more : List Text) :
    splitAtHeader? (lines ++ more) = some (setup, loop ++ more) := by
  induction lines generalizing setup with
  | nil => cases found
  | cons line rest ih =>
      rw [splitAtHeader?] at found
      rw [List.cons_append, splitAtHeader?]
      split
      · rename_i isHeader
        rw [if_pos isHeader] at found
        obtain ⟨rfl, rfl⟩ : [] = setup ∧ rest = loop := by simpa using found
        rfl
      · rename_i noHeader
        rw [if_neg noHeader] at found
        obtain ⟨⟨front, back⟩, inRest, same⟩ := Option.map_eq_some_iff.mp found
        obtain ⟨rfl, rfl⟩ := Prod.mk.inj same
        rw [ih inRest, Option.map_some]

namespace LoopGap

variable (gap : LoopGap)

/-- The script as it is. -/
def script : Text :=
  gap.before ++ gap.after

/-- The script with the comment line in the gap. -/
def commented (remark : Remark) : Text :=
  gap.before ++ (remark.line ++ '\n' :: gap.after)

/-- The lines of the loop in front of the gap, as texts. -/
def front : Text :=
  Text.unlines (gap.above.map Text.withoutBreak) ++ ['\n']

/-- The lines of the loop's body above the gap. -/
def linesAbove : List Text :=
  Text.lines gap.front

/-- The text of the loop below the gap. -/
def back : Text :=
  Text.unlines ((Text.lines gap.after).takeWhile isInsideLoop)

/-- The lines of the loop's body below the gap. -/
def linesBelow : List Text :=
  Text.lines gap.back

theorem takeWhile_after_ne_nil : (Text.lines gap.after).takeWhile isInsideLoop ≠ [] := by
  have inside := gap.belowInside
  cases lines : Text.lines gap.after with
  | nil =>
      rw [lines] at inside
      cases inside
  | cons line rest =>
      rw [lines] at inside
      rw [List.takeWhile_cons_of_pos (by simpa using inside)]
      exact List.cons_ne_nil _ _

theorem getLast?_front : gap.front.getLast? = some '\n' :=
  List.getLast?_concat

/-- Whatever stands in the gap, the loop's lines above it are kept. -/
theorem split?_before (rest : Text) :
    split? (gap.before ++ rest) = some ⟨gap.setup.flatten, Text.unlines
      (gap.above.map Text.withoutBreak ++ (Text.lines rest).takeWhile isInsideLoop)⟩ := by
  have inside : ∀ line ∈ gap.above.map Text.withoutBreak, isInsideLoop line = true := by
    simpa using gap.aboveInside
  rw [split?, Text.brokenLines_append_of_break gap.ended, splitAtHeader?_append gap.found,
    Option.map_some]
  dsimp only
  rw [List.map_append, ← Text.lines, List.takeWhile_append_of_pos inside]

theorem unlines_append {lines : List Text} (nonempty : lines ≠ []) :
    Text.unlines (gap.above.map Text.withoutBreak ++ lines) = gap.front ++ Text.unlines lines := by
  rw [Text.unlines_append (by simpa using gap.filled) nonempty, front, List.append_assoc]
  rfl

theorem split?_script : split? gap.script = some ⟨gap.setup.flatten, gap.front ++ gap.back⟩ := by
  rw [script, split?_before, gap.unlines_append gap.takeWhile_after_ne_nil, back]

theorem lines_script : Text.lines (gap.front ++ gap.back) = gap.linesAbove ++ gap.linesBelow :=
  Text.lines_append_of_break gap.getLast?_front _

variable (remark : Remark)

theorem lines_remark (rest : Text) : ∃ other : Remark, other.margin = remark.margin ∧
    Text.lines (remark.line ++ '\n' :: rest) = other.line :: Text.lines rest := by
  obtain ⟨other, margin, cut⟩ := remark.exists_withoutBreak
  refine ⟨other, margin, ?_⟩
  rw [Text.lines, Text.brokenLines_append_break remark.unbroken, List.map_cons, cut, Text.lines]

/-- A comment line with a margin becomes one more line of the loop's body. -/
theorem split?_commented (inside : remark.margin ≠ []) : ∃ body, ∃ other : Remark,
    other.margin = remark.margin ∧
      split? (gap.commented remark) = some ⟨gap.setup.flatten, body⟩ ∧
      Text.lines body = gap.linesAbove ++ other.line :: gap.linesBelow := by
  obtain ⟨first, firstMargin, firstCut⟩ := lines_remark remark gap.after
  obtain ⟨second, secondMargin, secondCut⟩ := lines_remark first gap.back
  have isInside : isInsideLoop first.line = true := by
    obtain ⟨c, rest, margin⟩ := List.exists_cons_of_ne_nil inside
    have blank := List.all_eq_true.mp remark.blank c (by simp [margin])
    simp [isInsideLoop, Remark.line, firstMargin, margin, blank]
  refine ⟨gap.front ++ (first.line ++ '\n' :: gap.back), second, secondMargin.trans firstMargin, ?_, ?_⟩
  · rw [commented, split?_before, firstCut, List.takeWhile_cons_of_pos isInside,
      gap.unlines_append (List.cons_ne_nil _ _)]
    have below := Text.unlines_append (List.cons_ne_nil first.line []) gap.takeWhile_after_ne_nil
    rw [List.singleton_append, Text.unlines_cons first.line [], List.flatMap_nil, List.append_nil] at below
    rw [below, back]
  · rw [Text.lines_append_of_break gap.getLast?_front, secondCut, linesAbove, linesBelow]

/-- A comment line without a margin ends the loop. -/
theorem split?_commented_of_outer (outer : remark.margin = []) :
    split? (gap.commented remark) =
      some ⟨gap.setup.flatten, Text.unlines (gap.above.map Text.withoutBreak)⟩ := by
  obtain ⟨other, margin, cut⟩ := lines_remark remark gap.after
  have outside : isInsideLoop other.line = false := by
    rw [isInsideLoop, Remark.line, margin, outer]
    rfl
  rw [commented, split?_before, cut, List.takeWhile_cons_of_neg (by simp [outside]), List.append_nil]

end LoopGap

theorem exists_baseIndentation {lines : List Text} {line : Text} (member : line ∈ lines)
    (visible : Text.allBlank line = false) :
    ∃ least ∈ lines, Text.allBlank least = false ∧ indentation least = baseIndentation lines := by
  have listed : indentation line ∈ (lines.filter (!Text.allBlank ·)).map indentation :=
    List.mem_map_of_mem (List.mem_filter.mpr ⟨member, by simp [visible]⟩)
  obtain ⟨least, isLeast⟩ := Option.isSome_iff_exists.mp (List.isSome_min?_of_mem listed)
  obtain ⟨first, shown, same⟩ := List.mem_map.mp (List.min?_eq_some_iff.mp isLeast).1
  obtain ⟨inLines, firstVisible⟩ := List.mem_filter.mp shown
  exact ⟨first, inLines, by simpa using firstVisible, by rw [same, baseIndentation, isLeast]; rfl⟩

theorem baseIndentation_of_least {lines : List Text} {line : Text} (member : line ∈ lines)
    (visible : Text.allBlank line = false)
    (least : ∀ other ∈ lines, Text.allBlank other = false → indentation line ≤ indentation other) :
    baseIndentation lines = indentation line := by
  obtain ⟨first, inLines, firstVisible, same⟩ := exists_baseIndentation member visible
  exact Nat.le_antisymm (baseIndentation_le member visible)
    (same ▸ least first inLines firstVisible)

section

variable {above below : List Text} {line : Text}

/-- A line no further out than the other lines leaves the base indentation as it is. -/
theorem baseIndentation_insert_inner {other : Text} (member : other ∈ above ++ below)
    (visible : Text.allBlank other = false)
    (inner : baseIndentation (above ++ below) ≤ indentation line) :
    baseIndentation (above ++ line :: below) = baseIndentation (above ++ below) := by
  obtain ⟨first, inLines, firstVisible, same⟩ := exists_baseIndentation member visible
  rw [← same]
  refine baseIndentation_of_least ?_ firstVisible fun next inAll nextVisible => ?_
  · exact ((List.sublist_cons_self line below).append_left above).subset inLines
  · rw [same]
    rcases List.mem_append.mp inAll with inAbove | inBelow
    · exact baseIndentation_le (List.mem_append_left _ inAbove) nextVisible
    · rcases List.mem_cons.mp inBelow with rfl | later
      · exact inner
      · exact baseIndentation_le (List.mem_append_right _ later) nextVisible

/-- A line further out than the other lines gives the base indentation. -/
theorem baseIndentation_insert_outer (visible : Text.allBlank line = false)
    (outer : ∀ other ∈ above ++ below, Text.allBlank other = false → indentation line ≤ indentation other) :
    baseIndentation (above ++ line :: below) = indentation line := by
  refine baseIndentation_of_least (by simp) visible fun next inAll nextVisible => ?_
  rcases List.mem_append.mp inAll with inAbove | inBelow
  · exact outer next (List.mem_append_left _ inAbove) nextVisible
  · rcases List.mem_cons.mp inBelow with rfl | later
    · exact Nat.le_refl _
    · exact outer next (List.mem_append_right _ later) nextVisible

/-- A comment further out than the other lines is followed by one statement. -/
theorem bareUnits_insert_outer (isComment : isRemark line = true)
    (outer : ∀ other ∈ above ++ below, Text.allBlank other = false → indentation line < indentation other) :
    bareUnits (baseIndentation (above ++ line :: below)) [] (above ++ line :: below) =
      bareUnit ((below.filter (!Text.allBlank ·)).map (dedent (indentation line))) := by
  rw [baseIndentation_insert_outer (allBlank_of_isRemark isComment)
    fun other member shown => (outer other member shown).le]
  exact bareUnits_outer_remark isComment rfl
    (fun other member => outer other (List.mem_append_left _ member))
    (fun other member => outer other (List.mem_append_right _ member))

/-- A comment deeper than the base indentation leaves the code of the statements as it is. -/
theorem bareUnits_insert_inner (isComment : isRemark line = true)
    (deeper : baseIndentation (above ++ below) < indentation line) :
    bareUnits (baseIndentation (above ++ line :: below)) [] (above ++ line :: below) =
      bareUnits (baseIndentation (above ++ below)) [] (above ++ below) := by
  by_cases some : ∃ other ∈ above ++ below, Text.allBlank other = false
  · obtain ⟨other, member, shown⟩ := some
    rw [baseIndentation_insert_inner member shown deeper.le]
    exact bareUnits_deeper_remark isComment deeper _ _
  · -- Without other lines the comment gives the base indentation, and no code is there on either side.
    have noCode (base : Nat) : ∀ other ∈ above ++ below,
        Text.allBlank other = false → base < indentation other := fun other member shown =>
      absurd ⟨other, member, shown⟩ some
    have noneBelow : below.filter (!Text.allBlank ·) = [] := by
      rw [List.filter_eq_nil_iff]
      intro other member shown
      exact some ⟨other, List.mem_append_right _ member, by simpa using shown⟩
    have nothing := bareUnits_deeper (noCode (baseIndentation (above ++ below))) []
    rw [List.append_nil] at nothing
    rw [bareUnits_insert_outer isComment (noCode _), noneBelow, nothing]
    rfl

/-- A comment at the base indentation leaves the code of the statements as it is just in case it parts no
code from code of one statement. -/
theorem bareUnits_insert_base_iff (isComment : isRemark line = true)
    (body : AreBodyLines (indentation line) (above ++ below)) :
    bareUnits (baseIndentation (above ++ line :: below)) [] (above ++ line :: below) =
        bareUnits (indentation line) [] (above ++ below) ↔
      (∀ other ∈ leadingLines (indentation line) below,
        Text.allBlank other = true ∨ isRemark other = true) ∨
      openUnit (indentation line) above ≠ [] ∧
        ∀ part ∈ openUnit (indentation line) above, isRemark part = true := by
  rw [baseIndentation_insert_outer (allBlank_of_isRemark isComment) body.deep]
  exact bareUnits_base_remark_iff isComment rfl _
    ⟨fun other member => body.unbroken other (List.mem_append_right _ member),
      fun other member => body.deep other (List.mem_append_right _ member)⟩

end

theorem areBodyLines_lines (body : Text) :
    AreBodyLines (baseIndentation (Text.lines body)) (Text.lines body) :=
  ⟨fun _ member => Text.unbroken_of_mem_lines member, fun _ member => baseIndentation_le member⟩

/-- What is left of the statements of a body without its comment lines. -/
theorem withoutRemarks_statements (body : Text) :
    withoutRemarks (statements body) =
      bareUnits (baseIndentation (Text.lines body)) [] (Text.lines body) :=
  withoutRemarks_statementsFrom (areBodyLines_lines body)

/-- What a comment line in a gap of a loop does to what the loop runs, given the script's parts without it
and with it. -/
structure CommentEffect (gap : LoopGap) (remark : Remark) (plain commented : Split) : Prop where
  /-- The setup stays. -/
  setup : commented.setup = plain.setup
  /-- The gap is in the body. -/
  lines : Text.lines plain.body = gap.linesAbove ++ gap.linesBelow
  /-- A comment line deeper than the base indentation is inert. -/
  deeper : baseIndentation (Text.lines plain.body) < Text.byteLength remark.margin →
    withoutRemarks (statements commented.body) = withoutRemarks (statements plain.body)
  /-- One at the base indentation is inert just in case it parts no code from code of one statement. -/
  atBase : remark.margin ≠ [] →
    Text.byteLength remark.margin = baseIndentation (Text.lines plain.body) →
    (withoutRemarks (statements commented.body) = withoutRemarks (statements plain.body) ↔
      (∀ line ∈ leadingLines (Text.byteLength remark.margin) gap.linesBelow,
        Text.allBlank line = true ∨ isRemark line = true) ∨
      openUnit (Text.byteLength remark.margin) gap.linesAbove ≠ [] ∧
        ∀ part ∈ openUnit (Text.byteLength remark.margin) gap.linesAbove, isRemark part = true)
  /-- One further out takes the lines below it into one statement, and those above it are lost. -/
  outer : remark.margin ≠ [] →
    Text.byteLength remark.margin < baseIndentation (Text.lines plain.body) →
    withoutRemarks (statements commented.body) =
      bareUnit ((gap.linesBelow.filter (!Text.allBlank ·)).map
        (dedent (Text.byteLength remark.margin)))
  /-- One without a margin ends the loop. -/
  outermost : remark.margin = [] →
    commented.body = Text.unlines (gap.above.map Text.withoutBreak)

/-- What any comment line does in any gap of any script's loop. -/
theorem exists_commentEffect (gap : LoopGap) (remark : Remark) :
    ∃ plain commented, split? gap.script = some plain ∧
      split? (gap.commented remark) = some commented ∧ CommentEffect gap remark plain commented := by
  have plainLines := gap.lines_script
  by_cases margin : remark.margin = []
  · refine ⟨_, _, gap.split?_script, gap.split?_commented_of_outer remark margin, rfl, plainLines, ?_,
      fun inside => absurd margin inside, fun inside => absurd margin inside, fun _ => rfl⟩
    intro deeper
    rw [margin] at deeper
    cases deeper
  · obtain ⟨body, other, sameMargin, split, bodyLines⟩ := gap.split?_commented remark margin
    have isComment := other.isRemark_line
    have depth : indentation other.line = Text.byteLength remark.margin := by
      rw [other.indentation_line, sameMargin]
    have plainBody := areBodyLines_lines (gap.front ++ gap.back)
    rw [plainLines] at plainBody
    refine ⟨_, _, gap.split?_script, split, rfl, plainLines, ?_, ?_, ?_, fun outer => absurd outer margin⟩
    all_goals
      dsimp only
      rw [withoutRemarks_statements body, bodyLines, plainLines, ← depth]
    · intro deeper
      rw [withoutRemarks_statements, plainLines]
      exact bareUnits_insert_inner isComment deeper
    · intro _ atBase
      rw [withoutRemarks_statements, plainLines, ← atBase]
      exact bareUnits_insert_base_iff isComment (atBase ▸ plainBody)
    · intro _ outer
      exact bareUnits_insert_outer isComment fun line member shown =>
        outer.trans_le (plainBody.deep line member shown)

/-- The gap between the suite of an `if` and its `else`. -/
def branchGap : LoopGap where
  before := "while True:\n    if x:\n        a()\n".toList
  after := "    else:\n        b()\n".toList
  setup := []
  above := ["    if x:\n".toList, "        a()\n".toList]
  found := by decide
  ended := by decide
  filled := by decide
  aboveInside := by decide
  belowInside := by decide

def branchRemark : Remark where
  margin := "    ".toList
  note := " note".toList
  blank := by decide
  marginUnbroken := by decide
  noteUnbroken := by decide

/-- A comment in front of an `else` parts it from its `if`: two statements run where one did, even without
the comment. -/
theorem branchRemark_parts_branch :
    (split? branchGap.script).map (fun split => withoutRemarks (statements split.body)) =
        some ["if x:\n    a()\nelse:\n    b()".toList] ∧
      (split? (branchGap.commented branchRemark)).map
          (fun split => withoutRemarks (statements split.body)) =
        some ["if x:\n    a()".toList, "else:\n    b()".toList] := by
  decide

end Breadboard.Script
