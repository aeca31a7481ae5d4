import Breadboard.Proofs.Script.CommentLine

set_option autoImplicit false

namespace Breadboard.Script

/-- The lines of a text that are not blank. -/
def visibleLines (text : Text) : List Text :=
  (Text.lines text).filter (!Text.allBlank ·)

/-- The second line stays in the statement of the first one. -/
def staysInside (base : Nat) (_ next : Text) : Bool :=
  !startsStatement base next

/-- The text of the statement that is collected from the given lines. -/
def statementText (base : Nat) (unit : List Text) : Text :=
  Text.unlines (openingBreak unit ++ unit.map (dedent base))

/-- The lines of each statement. -/
def statementLines (base : Nat) (lines : List Text) : List (List Text) :=
  (linesKept base lines).splitBy (staysInside base)

theorem mem_visibleLines {body line : Text} :
    line ∈ visibleLines body ↔ line ∈ Text.lines body ∧ Text.allBlank line = false := by
  rw [visibleLines, List.mem_filter, Bool.not_eq_true']

theorem startsStatement_iff {base : Nat} {line : Text} (visible : Text.allBlank line = false) :
    startsStatement base line = true ↔
      indentation line = base ∧ isContinuation (Text.trim line) = false := by
  simp [startsStatement, visible]

section

variable {base : Nat} {unit lines : List Text} {line : Text}

theorem statementText_concat (nonempty : unit ≠ []) (line : Text) :
    statementText base (unit ++ [line]) = statementText base unit ++ '\n' :: dedent base line := by
  obtain ⟨first, more, rfl⟩ := List.exists_cons_of_ne_nil nonempty
  rw [statementText, statementText, ← Text.unlines_concat (by simp), List.append_assoc, List.map_append,
    List.map_singleton]
  rfl

theorem statementText_of_starts (starts : startsStatement base line = true) :
    statementText base [line] = dedent base line := by
  have fresh : isContinuation (Text.trim line) = false := by
    rw [startsStatement, Bool.and_eq_true] at starts
    simpa using starts.2
  simp [statementText, openingBreak, fresh, Text.unlines]

/-- Every line of the statement is visible and no further out than the base indentation. -/
def AreShown (base : Nat) (unit : List Text) : Prop :=
  ∀ line ∈ unit, Text.allBlank line = false ∧ base ≤ indentation line

theorem AreShown.allBlank_statementText (shown : AreShown base unit) (nonempty : unit ≠ []) :
    Text.allBlank (statementText base unit) = false := by
  obtain ⟨line, member⟩ := List.exists_mem_of_ne_nil unit nonempty
  obtain ⟨visible, deep⟩ := shown line member
  obtain ⟨c, inLine, isShown⟩ := List.all_eq_false.mp (allBlank_dedent deep visible)
  exact List.all_eq_false.mpr ⟨c, Text.mem_unlines
    (List.mem_append_right _ (List.mem_map_of_mem member)) inLine, isShown⟩

/-- Behind collected lines the statements are the parts of all lines that there are. -/
theorem statementsFrom_unit (nonempty : unit ≠ []) (whole : unit.IsChain (staysInside base · ·))
    (shown : AreShown base unit)
    (deep : ∀ line ∈ lines, Text.allBlank line = false → base ≤ indentation line) :
    statementsFrom base (statementText base unit) lines =
      ((unit ++ lines.filter (!Text.allBlank ·)).splitBy (staysInside base)).map
        (statementText base) := by
  induction lines generalizing unit with
  | nil =>
      rw [statementsFrom, finishStatement_of_visible (shown.allBlank_statementText nonempty),
        List.filter_nil, List.append_nil, List.splitBy_of_isChain nonempty whole, List.map_singleton]
  | cons line rest ih =>
      obtain ⟨here, later⟩ := List.forall_mem_cons.mp deep
      cases blank : Text.allBlank line with
      | true =>
          rw [statementsFrom_blank blank, List.filter_cons_of_neg (by simp [blank])]
          exact ih nonempty whole shown later
      | false =>
          have alone : AreShown base [line] := List.forall_mem_singleton.mpr ⟨blank, here blank⟩
          have visible := shown.allBlank_statementText nonempty
          rw [statementsFrom_visible blank, List.filter_cons_of_pos (by simp [blank])]
          cases starts : startsStatement base line with
          | true =>
              have cut : ∀ last ∈ unit.getLast?, staysInside base last line = false := by
                simp [staysInside, starts]
              rw [if_pos rfl, finishStatement_of_visible visible, List.splitBy_append_cons _ cut,
                List.splitBy_of_isChain nonempty whole, List.map_append, List.map_singleton,
                ← statementText_of_starts starts,
                ih (List.cons_ne_nil _ _) (List.isChain_singleton line) alone later]
              rfl
          | false =>
              have longer : (unit ++ [line]).IsChain (staysInside base · ·) := by
                refine List.isChain_append.mpr ⟨whole, List.isChain_singleton line, ?_⟩
                intro last _ next isNext
                rw [List.head?_cons, Option.mem_some_iff] at isNext
                rw [← isNext, staysInside, starts, Bool.not_false]
              have notEmpty : (statementText base unit).isEmpty = false := by
                rw [List.isEmpty_eq_false_iff]
                rintro empty
                rw [empty] at visible
                cases visible
              rw [if_neg Bool.false_ne_true, notEmpty, Bool.not_false, Bool.or_true, if_pos rfl,
                ← statementText_concat nonempty,
                ih (by simp) longer (List.forall_mem_append.mpr ⟨shown, alone⟩) later,
                List.append_assoc, List.singleton_append]

theorem statementsFrom_nil
    (deep : ∀ line ∈ lines, Text.allBlank line = false → base ≤ indentation line) :
    statementsFrom base [] lines =
      (statementLines base (lines.filter (!Text.allBlank ·))).map (statementText base) := by
  induction lines with
  | nil => rfl
  | cons line rest ih =>
      obtain ⟨here, later⟩ := List.forall_mem_cons.mp deep
      cases blank : Text.allBlank line with
      | true =>
          rw [statementsFrom_blank blank, List.filter_cons_of_neg (by simp [blank])]
          exact ih later
      | false =>
          have run := statementsFrom_unit (List.cons_ne_nil line []) (List.isChain_singleton line)
            (List.forall_mem_singleton.mpr ⟨blank, here blank⟩) later
          rw [List.singleton_append] at run
          rw [statementsFrom_visible blank, List.filter_cons_of_pos (by simp [blank]), statementLines]
          by_cases atBase : indentation line = base
          · rw [linesKept, List.dropWhile_cons_of_neg (by simp [atBase]), ← run]
            cases goesOn : isContinuation (Text.trim line) with
            | false =>
                have starts : startsStatement base line = true := by
                  simp [startsStatement, blank, atBase, goesOn]
                rw [if_pos starts, statementText_of_starts starts]
                rfl
            | true =>
                have inside : startsStatement base line = false := by
                  simp [startsStatement, goesOn]
                simp [inside, atBase, statementText, openingBreak, goesOn, Text.unlines]
          · have inside : startsStatement base line = false := by
              simp [startsStatement, atBase]
            rw [linesKept, List.dropWhile_cons_of_pos (by simp [atBase]), inside,
              if_neg Bool.false_ne_true, beq_eq_false_iff_ne.mpr atBase, ih later, statementLines, linesKept]
            rfl

end

/-- The statements of a body are the texts of the parts that its lines are cut into. -/
theorem statements_eq (body : Text) :
    statements body =
      (statementLines (baseIndentation (Text.lines body)) (visibleLines body)).map
        (statementText (baseIndentation (Text.lines body))) :=
  statementsFrom_nil (areBodyLines_lines body).deep

/-- Where each entry behind another one has a property, all but the first have it. -/
theorem forall_of_isChain_cons {α : Type} {holds : α → Prop} {first : α} {more : List α}
    (chain : (first :: more).IsChain fun _ next => holds next) : ∀ other ∈ more, holds other := by
  induction more generalizing first with
  | nil => exact fun other member => absurd member List.not_mem_nil
  | cons second rest ih =>
      obtain ⟨here, later⟩ := List.isChain_cons_cons.mp chain
      exact List.forall_mem_cons.mpr ⟨here, ih later⟩

section

variable {base : Nat} {lines : List Text}

/-- No line but the first of a part starts a statement. -/
theorem exists_cons_of_mem_splitBy {unit : List Text} (member : unit ∈ lines.splitBy (staysInside base)) :
    ∃ first more, unit = first :: more ∧ ∀ line ∈ more, startsStatement base line = false := by
  obtain ⟨first, more, rfl⟩ := List.exists_cons_of_ne_nil (List.ne_nil_of_mem_splitBy member)
  have chain := (List.isChain_of_mem_splitBy member).imp fun _ next inside =>
    show startsStatement base next = false by simpa [staysInside] using inside
  exact ⟨first, more, rfl, forall_of_isChain_cons chain⟩

/-- Every part begins with the start of a statement if the first one does. -/
theorem startsStatement_head {first : Text} (starts : startsStatement base first = true) (rest : List Text) :
    ∀ unit ∈ (first :: rest).splitBy (staysInside base), ∀ line ∈ unit.head?,
      startsStatement base line = true := by
  have heads := List.isChain_getLast_head_splitBy (staysInside base) (first :: rest)
  have isFirst := List.head_head_splitBy (staysInside base) (List.cons_ne_nil first rest)
  cases cut : (first :: rest).splitBy (staysInside base) with
  | nil => exact fun unit member => absurd member List.not_mem_nil
  | cons opening others =>
      rw [cut] at heads
      simp only [cut, List.head_cons] at isFirst
      have later := heads.imp fun _ unit ⟨_, _, cutHere⟩ =>
        show ∀ line ∈ unit.head?, startsStatement base line = true by
          intro line isHead
          rwa [staysInside, List.head_of_mem_head? isHead, Bool.not_eq_false'] at cutHere
      refine List.forall_mem_cons.mpr ⟨fun line isHead => ?_, forall_of_isChain_cons later⟩
      rwa [← List.head_of_mem_head? isHead, isFirst]

/-- A part is a line that starts a statement, with the lines that do not. -/
theorem exists_start_of_mem_splitBy {unit : List Text} {first : Text}
    (shown : AreShown base (first :: lines)) (starts : startsStatement base first = true)
    (member : unit ∈ (first :: lines).splitBy (staysInside base)) :
    ∃ start more, unit = start :: more ∧ indentation start = base ∧
      isContinuation (Text.trim start) = false ∧
      ∀ line ∈ more, base < indentation line ∨ isContinuation (Text.trim line) = true := by
  have inLines : ∀ line ∈ unit, line ∈ first :: lines := fun line inUnit => by
    rw [← List.flatten_splitBy (staysInside base) (first :: lines)]
    exact List.mem_flatten_of_mem member inUnit
  obtain ⟨start, more, rfl, inside⟩ := exists_cons_of_mem_splitBy member
  have isStart := startsStatement_head starts lines _ member start rfl
  rw [startsStatement_iff (shown start (inLines start List.mem_cons_self)).1] at isStart
  refine ⟨start, more, rfl, isStart.1, isStart.2, fun line inMore => ?_⟩
  obtain ⟨visible, deep⟩ := shown line (inLines line (List.mem_cons_of_mem _ inMore))
  have stays := inside line inMore
  rw [← Bool.not_eq_true, startsStatement_iff visible, not_and_or, Bool.not_eq_false] at stays
  exact stays.imp_left fun other => lt_of_le_of_ne deep (Ne.symm other)

end

/-- The margin of a line is ASCII text. -/
def HasPlainMargin (line : Text) : Prop :=
  ∀ c ∈ line.takeWhile Text.isBlank, c.toNat < 128

theorem byteLength_of_ascii {text : Text} (ascii : ∀ c ∈ text, c.toNat < 128) :
    Text.byteLength text = text.length := by
  induction text with
  | nil => rfl
  | cons c rest ih =>
      obtain ⟨here, later⟩ := List.forall_mem_cons.mp ascii
      have size : c.utf8Size = 1 :=
        Char.utf8Size_eq_one_iff.mpr (UInt32.le_iff_toNat_le.mpr (Nat.le_of_lt_succ here))
      rw [Text.byteLength_cons, ih later, size, List.length_cons, Nat.add_comm]

/-- From an ASCII margin any number of bytes can be taken. -/
theorem dropBytes?_dedent {base : Nat} {line : Text} (plain : HasPlainMargin line)
    (deep : base ≤ indentation line) : Text.dropBytes? line base = some (dedent base line) := by
  have parts : line.takeWhile Text.isBlank ++ Text.trimStart line = line :=
    List.takeWhile_append_dropWhile
  have fits : base ≤ (line.takeWhile Text.isBlank).length := by
    have whole := congrArg Text.byteLength parts
    rw [Text.byteLength_append, byteLength_of_ascii plain] at whole
    rw [indentation] at deep
    omega
  have size : Text.byteLength ((line.takeWhile Text.isBlank).take base) = base := by
    rw [byteLength_of_ascii fun c member => plain c (List.mem_of_mem_take member), List.length_take,
      Nat.min_eq_left fits]
  have dropped := Sketch.dropBytes?_append ((line.takeWhile Text.isBlank).take base)
    ((line.takeWhile Text.isBlank).drop base ++ Text.trimStart line)
  rw [← List.append_assoc, List.take_append_drop, parts, size] at dropped
  rw [dedent, dropped, Option.getD_some]

/-- Texts of several lines each, written below each other. -/
theorem unlines_map_unlines {groups : List (List Text)} (filled : ∀ group ∈ groups, group ≠ []) :
    Text.unlines (groups.map Text.unlines) = Text.unlines groups.flatten := by
  induction groups with
  | nil => rfl
  | cons group rest ih =>
      obtain ⟨here, later⟩ := List.forall_mem_cons.mp filled
      cases rest with
      | nil => simp [Text.unlines_cons]
      | cons next more =>
          have nonempty : (next :: more).flatten ≠ [] := fun nothing =>
            later next List.mem_cons_self (List.flatten_eq_nil_iff.mp nothing next List.mem_cons_self)
          have front := Text.unlines_append (List.cons_ne_nil (Text.unlines group) [])
            (show (next :: more).map Text.unlines ≠ [] from List.cons_ne_nil _ _)
          rw [Text.unlines_cons (Text.unlines group) [], List.flatMap_nil, List.append_nil] at front
          rw [List.flatten_cons, Text.unlines_append here nonempty, ← ih later, ← front]
          rfl

/-- Lines cut into statements: nothing is lost, and only the starts of statements are cut at. -/
structure IsPartition (base : Nat) (lines : List Text) (units : List (List Text)) (elements : List Text) :
    Prop where
  /-- Each element has the lines of a part, without their margins. -/
  texts : elements = units.map fun unit => Text.unlines (unit.map (dedent base))
  unbroken : ∀ line ∈ lines, '\n' ∉ line
  margins : ∀ line ∈ lines, Text.dropBytes? line base = some (dedent base line)
  lossless : units.flatten = lines
  joined : Text.unlines elements = Text.unlines (lines.map (dedent base))
  /-- A part starts with the only line in it that starts a statement. -/
  starts : ∀ unit ∈ units, ∃ first more, unit = first :: more ∧ indentation first = base ∧
    isContinuation (Text.trim first) = false ∧
    ∀ line ∈ more, base < indentation line ∨ isContinuation (Text.trim line) = true

section

variable {body first : Text} (isFirst : (visibleLines body).head? = some first)
  (least : ∀ line ∈ visibleLines body, indentation first ≤ indentation line)

include isFirst least

theorem baseIndentation_of_first : baseIndentation (Text.lines body) = indentation first := by
  obtain ⟨inLines, visible⟩ := mem_visibleLines.mp (List.mem_of_mem_head? isFirst)
  exact baseIndentation_of_least inLines visible fun other inOthers otherVisible =>
    least other (mem_visibleLines.mpr ⟨inOthers, otherVisible⟩)

/-- A body that starts in its outermost column with no continuation is cut into its statements. -/
theorem exists_isPartition (fresh : isContinuation (Text.trim first) = false)
    (plain : ∀ line ∈ visibleLines body, HasPlainMargin line) :
    ∃ units, IsPartition (indentation first) (visibleLines body) units (statements body) := by
  have base := baseIndentation_of_first isFirst least
  obtain ⟨rest, split⟩ := List.head?_eq_some_iff.mp isFirst
  have firstVisible := (mem_visibleLines.mp (List.mem_of_mem_head? isFirst)).2
  have starts : startsStatement (indentation first) first = true :=
    (startsStatement_iff firstVisible).mpr ⟨rfl, fresh⟩
  have kept : linesKept (indentation first) (visibleLines body) = visibleLines body := by
    rw [linesKept, split]
    exact List.dropWhile_cons_of_neg (by simp)
  have units := statements_eq body
  rw [base, statementLines, kept] at units
  have flatten := List.flatten_splitBy (staysInside (indentation first)) (visibleLines body)
  have shown : AreShown (indentation first) (visibleLines body) := fun line member =>
    ⟨(mem_visibleLines.mp member).2, least line member⟩
  have parts := fun unit => @exists_start_of_mem_splitBy _ _ unit _ (split ▸ shown) starts
  rw [← split] at parts
  have texts : statements body = ((visibleLines body).splitBy (staysInside (indentation first))).map
      fun unit => Text.unlines (unit.map (dedent (indentation first))) := by
    rw [units]
    refine List.map_congr_left fun unit member => ?_
    obtain ⟨start, more, rfl, -, noContinuation, -⟩ := parts unit member
    rw [statementText, openingBreak, List.head?_cons, Option.any_some, noContinuation]
    rfl
  refine ⟨_, texts, fun line member => ?_, fun line member => ?_, flatten, ?_, parts⟩
  · exact Text.unbroken_of_mem_lines (mem_visibleLines.mp member).1
  · exact dropBytes?_dedent (plain line member) (least line member)
  · have filled : ∀ group ∈ ((visibleLines body).splitBy (staysInside (indentation first))).map
        (·.map (dedent (indentation first))), group ≠ [] := by
      intro group member
      obtain ⟨unit, inUnits, rfl⟩ := List.mem_map.mp member
      simpa using List.ne_nil_of_mem_splitBy inUnits
    have joined := unlines_map_unlines filled
    rw [List.map_map, ← List.map_flatten, flatten] at joined
    rw [texts, ← joined]
    rfl

end

/-- A script cut apart at its first loop header. The loop's lines are those behind it, up to the first one
that is not blank and has no margin. -/
structure HeaderCut (script : Text) where
  above : List Text
  header : Text
  below : List Text
  lines : Text.brokenLines script = above ++ header :: below
  isHeader : Text.trimEnd header = "while True:".toList
  isFirst : ∀ line ∈ above, Text.trimEnd line ≠ "while True:".toList
  inside : List Text
  outside : List Text
  parts : below.map Text.withoutBreak = inside ++ outside
  stays : ∀ line ∈ inside, Text.allBlank line = true ∨ ∃ c ∈ line.head?, Text.isBlank c = true
  leaves : ∀ line ∈ outside.head?, Text.allBlank line = false ∧ ∀ c ∈ line.head?, Text.isBlank c = false

namespace HeaderCut

variable {script : Text}

/-- Nothing of the script is left out. -/
theorem text_eq (cut : HeaderCut script) :
    script = cut.above.flatten ++ (cut.header ++ cut.below.flatten) := by
  conv_lhs => rw [← Text.flatten_brokenLines script, cut.lines, List.flatten_append, List.flatten_cons]

end HeaderCut

theorem isLoopHeader_iff {line : Text} :
    isLoopHeader line = true ↔ Text.trimEnd line = "while True:".toList := by
  rw [isLoopHeader, beq_iff_eq]

theorem isInsideLoop_iff {line : Text} :
    isInsideLoop line = true ↔ Text.allBlank line = true ∨ ∃ c ∈ line.head?, Text.isBlank c = true := by
  rw [isInsideLoop, Bool.or_eq_true, Option.any_eq_true]
  exact Iff.rfl

/-- The lines are cut at the first header among them. -/
theorem exists_splitAtHeader? {lines : List Text} {line : Text} (member : line ∈ lines)
    (isHeader : isLoopHeader line = true) : ∃ above header below, lines = above ++ header :: below ∧
      isLoopHeader header = true ∧ (∀ other ∈ above, isLoopHeader other = false) ∧
      splitAtHeader? lines = some (above, below) := by
  induction lines with
  | nil => cases member
  | cons next rest ih =>
      cases here : isLoopHeader next with
      | true => exact ⟨[], next, rest, rfl, here, by simp, by rw [splitAtHeader?, if_pos here]⟩
      | false =>
          have later : line ∈ rest := by
            rcases List.mem_cons.mp member with rfl | inRest
            · exact absurd isHeader (by simp [here])
            · exact inRest
          obtain ⟨above, header, below, rfl, found, noneAbove, cut⟩ := ih later
          refine ⟨next :: above, header, below, rfl, found, List.forall_mem_cons.mpr ⟨here, noneAbove⟩, ?_⟩
          rw [splitAtHeader?, if_neg (by simp [here]), cut, Option.map_some]

/-- A script with a loop header is split at the first one. -/
theorem exists_headerCut {script line : Text} (member : line ∈ Text.brokenLines script)
    (isHeader : Text.trimEnd line = "while True:".toList) : ∃ cut : HeaderCut script,
      split? script = some ⟨cut.above.flatten, Text.unlines cut.inside⟩ := by
  obtain ⟨above, header, below, lines, found, noneAbove, cut⟩ :=
    exists_splitAtHeader? member (isLoopHeader_iff.mpr isHeader)
  refine ⟨⟨above, header, below, lines, isLoopHeader_iff.mp found, fun other inAbove => ?_,
    (below.map Text.withoutBreak).takeWhile isInsideLoop,
    (below.map Text.withoutBreak).dropWhile isInsideLoop, List.takeWhile_append_dropWhile.symm,
    fun other inside => isInsideLoop_iff.mp (List.mem_takeWhile_imp inside), fun other isNext => ?_⟩, ?_⟩
  · rw [ne_eq, ← isLoopHeader_iff, noneAbove other inAbove]
    exact Bool.false_ne_true
  · have stop := List.head?_dropWhile_not isInsideLoop (below.map Text.withoutBreak)
    rw [isNext] at stop
    have outside : ¬ isInsideLoop other = true := by simpa using stop
    rw [isInsideLoop_iff, not_or] at outside
    refine ⟨by simpa using outside.1, fun c isHead => ?_⟩
    exact Bool.eq_false_iff.mpr fun blank => outside.2 ⟨c, isHead, blank⟩
  · rw [split?, cut, Option.map_some]

/-- The way of a script into statements. It is cut at its first loop header; and where the loop's lines have
ASCII margins and start in the outermost column with no continuation, the statements keep all lines that are
not blank, and only the starts of statements are cut at. -/
theorem script_cut_lossless :
    (∀ script : Text, (∃ line ∈ Text.brokenLines script, Text.trimEnd line = "while True:".toList) →
      ∃ cut : HeaderCut script,
        split? script = some ⟨cut.above.flatten, Text.unlines cut.inside⟩ ∧
        script = cut.above.flatten ++ (cut.header ++ cut.below.flatten)) ∧
    ∀ body first : Text, (visibleLines body).head? = some first →
      (∀ line ∈ visibleLines body, indentation first ≤ indentation line) →
      isContinuation (Text.trim first) = false →
      (∀ line ∈ visibleLines body, HasPlainMargin line) →
      ∃ units, IsPartition (indentation first) (visibleLines body) units (statements body) := by
  constructor
  · rintro script ⟨line, member, isHeader⟩
    obtain ⟨cut, split⟩ := exists_headerCut member isHeader
    exact ⟨cut, split, cut.text_eq⟩
  · intro body first isFirst least fresh plain
    exact exists_isPartition isFirst least fresh plain

/-- A script whose loop is one conditional, with a blank line in it. -/
def branchScript : Text :=
  "x = 1\nwhile True: \r\n    if x:\n        y()\n\n    else:\n        z()\nw()".toList

theorem script_cut_lossless_branchScript :
    (∃ line ∈ Text.brokenLines branchScript, Text.trimEnd line = "while True:".toList) ∧
    ∃ cut : HeaderCut branchScript,
      split? branchScript = some ⟨cut.above.flatten, Text.unlines cut.inside⟩ ∧
      Text.unlines cut.inside = "    if x:\n        y()\n\n    else:\n        z()".toList ∧
      (visibleLines (Text.unlines cut.inside)).head? = some "    if x:".toList ∧
      (∀ line ∈ visibleLines (Text.unlines cut.inside), 4 ≤ indentation line) ∧
      isContinuation (Text.trim "    if x:".toList) = false ∧
      (∀ line ∈ visibleLines (Text.unlines cut.inside), HasPlainMargin line) ∧
      ∃ units, IsPartition 4 (visibleLines (Text.unlines cut.inside)) units
        (statements (Text.unlines cut.inside)) := by
  have isHeader : ∃ line ∈ Text.brokenLines branchScript, Text.trimEnd line = "while True:".toList := by
    decide
  have found : split? branchScript =
      some ⟨"x = 1\n".toList, "    if x:\n        y()\n\n    else:\n        z()".toList⟩ := by
    decide
  obtain ⟨cut, split, -⟩ := script_cut_lossless.1 branchScript isHeader
  have body : Text.unlines cut.inside = "    if x:\n        y()\n\n    else:\n        z()".toList := by
    rw [found] at split
    exact (Split.mk.inj (Option.some.inj split)).2.symm
  refine ⟨isHeader, cut, split, body, ?_⟩
  rw [body]
  have isFirst : (visibleLines "    if x:\n        y()\n\n    else:\n        z()".toList).head? =
      some "    if x:".toList := by decide
  have least : ∀ line ∈ visibleLines "    if x:\n        y()\n\n    else:\n        z()".toList,
      4 ≤ indentation line := by decide
  have fresh : isContinuation (Text.trim "    if x:".toList) = false := by decide
  have spaces : (visibleLines "    if x:\n        y()\n\n    else:\n        z()".toList).all
      (fun line => (line.takeWhile Text.isBlank).all (· == ' ')) = true := by decide
  have plain : ∀ line ∈ visibleLines "    if x:\n        y()\n\n    else:\n        z()".toList,
      HasPlainMargin line := by
    intro line member c inMargin
    have isSpace := List.all_eq_true.mp (List.all_eq_true.mp spaces line member) c inMargin
    rw [beq_iff_eq.mp isSpace]
    decide
  exact ⟨isFirst, least, fresh, plain, script_cut_lossless.2 _ _ isFirst least fresh plain⟩

end Breadboard.Script
