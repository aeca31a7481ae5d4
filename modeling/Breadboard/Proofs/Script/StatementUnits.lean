import Breadboard.Proofs.Text.LineCut
import Breadboard.Proofs.Text.Trim
import Breadboard.Script.Loop

set_option autoImplicit false

namespace Breadboard.Script

/-- A line of which only a comment is to be seen. -/
def isRemark (line : Text) : Bool :=
  (Text.trimStart line).head? == some '#'

/-- The line ends the statement before it and starts the next one. -/
def startsStatement (base : Nat) (line : Text) : Bool :=
  !Text.allBlank line && indentation line == base && !isContinuation (Text.trim line)

/-- The lines collected for a statement, with one more line. A line that is to go on with nothing has an
empty line in front of it. -/
def joined (collected : List Text) (line : Text) : List Text :=
  if collected.isEmpty then [[], line] else collected ++ [line]

/-- What is collected behind a line. -/
def collect (base : Nat) (collected : List Text) (line : Text) : List Text :=
  if Text.allBlank line then collected
  else if startsStatement base line then [dedent base line]
  else if indentation line == base || !collected.isEmpty then joined collected (dedent base line)
  else collected

/-- The statements as lists of lines. The first one goes on with what is collected. -/
def unitsFrom (base : Nat) (collected : List Text) : List Text → List (List Text)
  | [] => [collected]
  | line :: rest =>
    (if startsStatement base line then [collected] else []) ++
      unitsFrom base (collect base collected line) rest

/-- The lines of a statement without its comment lines, none if nothing is left. -/
def bareUnit (unit : List Text) : List Text :=
  if (unit.filter (!isRemark ·)).isEmpty then []
  else [Text.unlines (unit.filter (!isRemark ·))]

/-- The statements without their comment lines. A statement of comments is dropped. -/
def withoutRemarks (statements : List Text) : List Text :=
  statements.flatMap fun statement => bareUnit (statement.splitOn '\n')

/-- Cutting off no more than the blanks at the start leaves the text behind them. -/
theorem dropBytes?_margin {margin : Text} (text : Text) {count : Nat}
    (fits : count ≤ Text.byteLength margin) :
    Text.dropBytes? (margin ++ text) count = none ∨
      ∃ rest, rest <:+ margin ∧ Text.dropBytes? (margin ++ text) count = some (rest ++ text) := by
  induction margin generalizing count with
  | nil =>
      obtain rfl := Nat.le_zero.mp fits
      exact Or.inr ⟨[], List.suffix_refl _, by rw [Text.dropBytes?]⟩
  | cons c more ih =>
      cases count with
      | zero => exact Or.inr ⟨c :: more, List.suffix_refl _, by rw [Text.dropBytes?]⟩
      | succ count =>
          rw [Text.byteLength_cons] at fits
          rw [List.cons_append, Text.dropBytes?]
          split
          · rcases @ih (count + 1 - c.utf8Size) (by omega) with missing | ⟨rest, suffix, found⟩
            · exact Or.inl missing
            · exact Or.inr ⟨rest, suffix.trans (List.suffix_cons c more), found⟩
          · exact Or.inl rfl

section

variable {base : Nat} {line : Text}

/-- A line without its base indentation: some of its margin may be left, and at the end a blank may be
lost. -/
theorem dedent_cases (deep : base ≤ indentation line) :
    dedent base line = Text.trim line ∨
      ∃ margin, Text.allBlank margin = true ∧ dedent base line = margin ++ Text.trimStart line := by
  have parts : line.takeWhile Text.isBlank ++ Text.trimStart line = line :=
    List.takeWhile_append_dropWhile
  have fits : base ≤ Text.byteLength (line.takeWhile Text.isBlank) := by
    have whole := congrArg Text.byteLength parts
    rw [Text.byteLength_append] at whole
    rw [indentation] at deep
    omega
  rcases dropBytes?_margin (Text.trimStart line) fits with missing | ⟨rest, suffix, found⟩
  · rw [parts] at missing
    exact Or.inl (by rw [dedent, missing, Option.getD_none])
  · rw [parts] at found
    refine Or.inr ⟨rest, ?_, by rw [dedent, found, Option.getD_some]⟩
    exact List.all_eq_true.mpr fun c member => List.mem_takeWhile_imp (suffix.subset member)

theorem isRemark_blank_append {margin : Text} (blank : Text.allBlank margin = true) (text : Text) :
    isRemark (margin ++ text) = isRemark text := by
  rw [isRemark, Text.trimStart, List.dropWhile_append_of_pos (List.all_eq_true.mp blank)]
  rfl

theorem isRemark_trimStart (line : Text) : isRemark (Text.trimStart line) = isRemark line := by
  rw [isRemark, Text.trimStart_of_first Text.isBlank_of_head?_trimStart, isRemark]

theorem isRemark_trim (line : Text) : isRemark (Text.trim line) = isRemark line := by
  by_cases nothing : Text.trim line = []
  · rw [nothing, ← isRemark_trimStart line, Text.trimStart_of_trim_eq_nil nothing]
  · obtain ⟨front, back, blank, -, split⟩ := Text.exists_trim line
    have first : (Text.trim line ++ back).head? = (Text.trim line).head? :=
      List.head?_append_of_ne_nil _ nothing
    have tight := Text.isTight_trim nothing
    conv_rhs => rw [split, isRemark_blank_append blank]
    rw [isRemark, Text.trimStart_of_first tight.first, isRemark,
      Text.trimStart_of_first (by rw [first]; exact tight.first), first]

theorem isRemark_dedent (deep : base ≤ indentation line) :
    isRemark (dedent base line) = isRemark line := by
  rcases dedent_cases deep with trimmed | ⟨margin, blank, dedented⟩
  · rw [trimmed, isRemark_trim]
  · rw [dedented, isRemark_blank_append blank, isRemark_trimStart]

theorem allBlank_dedent (deep : base ≤ indentation line) (visible : Text.allBlank line = false) :
    Text.allBlank (dedent base line) = false := by
  obtain ⟨c, member, shown⟩ := List.all_eq_false.mp visible
  rw [Bool.not_eq_true] at shown
  refine List.all_eq_false.mpr ⟨c, ?_, by simp [shown]⟩
  rcases dedent_cases deep with trimmed | ⟨margin, -, dedented⟩
  · rw [trimmed]
    exact Text.mem_trim member shown
  · rw [dedented]
    exact List.mem_append_right _ (Text.mem_trimStart member shown)

theorem dropBytes?_suffix {text rest : Text} {count : Nat}
    (found : Text.dropBytes? text count = some rest) : rest <:+ text := by
  induction text generalizing count with
  | nil =>
      cases count with
      | zero =>
          rw [Text.dropBytes?, Option.some_inj] at found
          exact found ▸ List.suffix_refl _
      | succ count => simp [Text.dropBytes?] at found
  | cons c more ih =>
      cases count with
      | zero =>
          rw [Text.dropBytes?, Option.some_inj] at found
          exact found ▸ List.suffix_refl _
      | succ count =>
          rw [Text.dropBytes?] at found
          split at found
          · exact (ih found).trans (List.suffix_cons c more)
          · cases found

theorem not_mem_dedent {c : Char} (absent : c ∉ line) (base : Nat) : c ∉ dedent base line := by
  rw [dedent]
  cases found : Text.dropBytes? line base with
  | some rest => exact fun member => absent ((dropBytes?_suffix found).subset member)
  | none =>
      obtain ⟨front, back, -, -, split⟩ := Text.exists_trim line
      intro member
      rw [Option.getD_none] at member
      rw [split] at absent
      exact absent (List.mem_append_right _ (List.mem_append_left _ member))

end

/-- Lines that a statement can be collected from: none, or lines of which one can be seen. -/
structure IsUnit (unit : List Text) : Prop where
  unbroken : ∀ part ∈ unit, '\n' ∉ part
  shown : unit = [] ∨ ∃ part ∈ unit, Text.allBlank part = false

theorem isUnit_nil : IsUnit [] :=
  ⟨by simp, Or.inl rfl⟩

theorem isUnit_concat {front : List Text} {line : Text} (unbroken : ∀ part ∈ front, '\n' ∉ part)
    (lineUnbroken : '\n' ∉ line) (visible : Text.allBlank line = false) : IsUnit (front ++ [line]) :=
  ⟨List.forall_mem_append.mpr ⟨unbroken, List.forall_mem_singleton.mpr lineUnbroken⟩,
    Or.inr ⟨line, by simp, visible⟩⟩

theorem unlines_joined (collected : List Text) (line : Text) :
    Text.unlines (joined collected line) = Text.unlines collected ++ '\n' :: line := by
  rw [joined]
  split
  · rename_i nothing
    rw [List.isEmpty_iff.mp nothing]
    simp [Text.unlines]
  · rename_i nonempty
    exact Text.unlines_concat (by simpa using nonempty) line

namespace IsUnit

variable {unit : List Text}

theorem isEmpty_unlines (isUnit : IsUnit unit) : (Text.unlines unit).isEmpty = unit.isEmpty := by
  rcases isUnit.shown with rfl | ⟨part, member, visible⟩
  · rfl
  · obtain ⟨c, inPart, -⟩ := List.all_eq_false.mp visible
    have inText := Text.mem_unlines member inPart
    rw [List.isEmpty_eq_false_iff.mpr (List.ne_nil_of_mem inText),
      List.isEmpty_eq_false_iff.mpr (List.ne_nil_of_mem member)]

theorem withoutRemarks_finish (isUnit : IsUnit unit) :
    withoutRemarks (finishStatement (Text.unlines unit)) = bareUnit unit := by
  rcases isUnit.shown with rfl | ⟨part, member, visible⟩
  · rfl
  · obtain ⟨c, inPart, shown⟩ := List.all_eq_false.mp visible
    have visibleText : Text.allBlank (Text.unlines unit) = false :=
      List.all_eq_false.mpr ⟨c, Text.mem_unlines member inPart, shown⟩
    have cut : (Text.unlines unit).splitOn '\n' = unit :=
      List.splitOn_intercalate '\n' isUnit.unbroken (List.ne_nil_of_mem member)
    rw [finishStatement, visibleText, if_neg Bool.false_ne_true, withoutRemarks,
      List.flatMap_singleton, cut]

theorem joined {line : Text} (isUnit : IsUnit unit) (unbroken : '\n' ∉ line)
    (visible : Text.allBlank line = false) : IsUnit (joined unit line) := by
  rw [Script.joined]
  split
  · exact @isUnit_concat [[]] _ (by simp) unbroken visible
  · exact isUnit_concat isUnit.unbroken unbroken visible

end IsUnit

/-- The lines have no break in them and stand no further out than the base indentation. -/
structure AreBodyLines (base : Nat) (lines : List Text) : Prop where
  unbroken : ∀ line ∈ lines, '\n' ∉ line
  deep : ∀ line ∈ lines, Text.allBlank line = false → base ≤ indentation line

section

variable {base : Nat} {collected lines : List Text} {line : Text}

theorem isUnit_collect (isUnit : IsUnit collected) (unbroken : '\n' ∉ line)
    (deep : Text.allBlank line = false → base ≤ indentation line) :
    IsUnit (collect base collected line) := by
  rw [collect]
  cases blank : Text.allBlank line with
  | true => exact isUnit
  | false =>
      have lineUnbroken := not_mem_dedent unbroken base
      have visible := allBlank_dedent (deep blank) blank
      rw [if_neg Bool.false_ne_true]
      split
      · exact @isUnit_concat [] _ (by simp) lineUnbroken visible
      · split
        · exact isUnit.joined lineUnbroken visible
        · exact isUnit

theorem statementsFrom_blank (blank : Text.allBlank line = true) (text : Text) :
    statementsFrom base text (line :: lines) = statementsFrom base text lines := by
  rw [statementsFrom, Text.isEmpty_trim, if_pos blank]

theorem statementsFrom_visible (visible : Text.allBlank line = false) (text : Text) :
    statementsFrom base text (line :: lines) =
      if startsStatement base line then
        finishStatement text ++ statementsFrom base (dedent base line) lines
      else if indentation line == base || !text.isEmpty then
        statementsFrom base (text ++ '\n' :: dedent base line) lines
      else statementsFrom base text lines := by
  rw [statementsFrom, Text.isEmpty_trim, visible, if_neg Bool.false_ne_true, startsStatement, visible,
    Bool.not_false, Bool.true_and]

theorem startsStatement_blank (blank : Text.allBlank line = true) :
    startsStatement base line = false := by
  rw [startsStatement, blank]
  rfl

/-- The statements are the texts of the units that are not blank. -/
theorem statementsFrom_eq (body : AreBodyLines base lines) (isUnit : IsUnit collected) :
    statementsFrom base (Text.unlines collected) lines =
      (unitsFrom base collected lines).flatMap fun unit => finishStatement (Text.unlines unit) := by
  induction lines generalizing collected with
  | nil => simp [statementsFrom, unitsFrom]
  | cons line rest ih =>
      obtain ⟨unbroken, othersUnbroken⟩ := List.forall_mem_cons.mp body.unbroken
      obtain ⟨deep, othersDeep⟩ := List.forall_mem_cons.mp body.deep
      have next := isUnit_collect isUnit unbroken deep
      have onward := ih ⟨othersUnbroken, othersDeep⟩ next
      rw [unitsFrom, List.flatMap_append, ← onward, collect]
      cases blank : Text.allBlank line with
      | true =>
          rw [statementsFrom_blank blank, startsStatement_blank blank]
          rfl
      | false =>
          rw [statementsFrom_visible blank, if_neg Bool.false_ne_true, isUnit.isEmpty_unlines]
          split
          · rw [List.flatMap_singleton, Text.unlines_cons (dedent base line) [], List.flatMap_nil,
              List.append_nil]
          · split
            · rw [unlines_joined, List.flatMap_nil, List.nil_append]
            · rw [List.flatMap_nil, List.nil_append]

theorem isUnit_of_mem_unitsFrom (body : AreBodyLines base lines) (isUnit : IsUnit collected) :
    ∀ unit ∈ unitsFrom base collected lines, IsUnit unit := by
  induction lines generalizing collected with
  | nil => simpa [unitsFrom] using isUnit
  | cons line rest ih =>
      obtain ⟨unbroken, othersUnbroken⟩ := List.forall_mem_cons.mp body.unbroken
      obtain ⟨deep, othersDeep⟩ := List.forall_mem_cons.mp body.deep
      rw [unitsFrom, List.forall_mem_append]
      refine ⟨fun unit member => ?_, ih ⟨othersUnbroken, othersDeep⟩ (isUnit_collect isUnit unbroken deep)⟩
      split at member
      · rwa [List.mem_singleton.mp member]
      · cases member

/-- Without comment lines the statements are what is left of the units. -/
theorem withoutRemarks_statementsFrom (body : AreBodyLines base lines) :
    withoutRemarks (statementsFrom base [] lines) = (unitsFrom base [] lines).flatMap bareUnit := by
  have units := statementsFrom_eq body isUnit_nil
  rw [show Text.unlines [] = [] from rfl] at units
  rw [units, withoutRemarks, List.flatMap_assoc]
  refine List.flatMap_congr fun unit member => ?_
  exact (isUnit_of_mem_unitsFrom body isUnit_nil unit member).withoutRemarks_finish

/-- What is left of the statements, going on with what is collected. -/
def bareUnits (base : Nat) (collected lines : List Text) : List Text :=
  (unitsFrom base collected lines).flatMap bareUnit

theorem bareUnits_cons (base : Nat) (collected : List Text) (line : Text) (rest : List Text) :
    bareUnits base collected (line :: rest) =
      (if startsStatement base line then bareUnit collected else []) ++
        bareUnits base (collect base collected line) rest := by
  rw [bareUnits, unitsFrom, List.flatMap_append, bareUnits]
  split <;> simp

theorem bareUnit_congr {first second : List Text}
    (same : first.filter (!isRemark ·) = second.filter (!isRemark ·)) :
    bareUnit first = bareUnit second := by
  rw [bareUnit, bareUnit, same]

/-- Comment lines among the collected lines make no difference. -/
theorem bareUnits_congr {first second : List Text} (firstSome : first ≠ []) (secondSome : second ≠ [])
    (same : first.filter (!isRemark ·) = second.filter (!isRemark ·)) (lines : List Text) :
    bareUnits base first lines = bareUnits base second lines := by
  induction lines generalizing first second with
  | nil => simp [bareUnits, unitsFrom, bareUnit_congr same]
  | cons line rest ih =>
      rw [bareUnits_cons, bareUnits_cons, bareUnit_congr same, collect, collect]
      rw [← List.isEmpty_eq_false_iff] at firstSome secondSome
      congr 1
      split
      · exact ih (by simpa using firstSome) (by simpa using secondSome) same
      · split
        · rfl
        · rw [firstSome, secondSome, Bool.not_false, Bool.or_true, if_pos rfl, if_pos rfl,
            joined, joined, firstSome, secondSome]
          exact ih (by simp) (by simp) (by simp [same])

/-- A comment line deeper than the base indentation leaves the statements as they are. -/
theorem bareUnits_deeper_remark {remark : Text} (isComment : isRemark remark = true)
    (deeper : base < indentation remark) (above below : List Text) :
    bareUnits base collected (above ++ remark :: below) =
      bareUnits base collected (above ++ below) := by
  induction above generalizing collected with
  | nil =>
      have inside : startsStatement base remark = false := by
        simp [startsStatement, Nat.ne_of_gt deeper]
      rw [List.nil_append, bareUnits_cons, inside, if_neg Bool.false_ne_true, List.nil_append, collect,
        inside]
      split
      · rfl
      · cases empty : collected.isEmpty with
        | true => simp [Nat.ne_of_gt deeper]
        | false =>
            have comment : isRemark (dedent base remark) = true := by
              rw [isRemark_dedent (Nat.le_of_lt deeper), isComment]
            rw [joined, empty]
            simp only [Bool.false_eq_true, ↓reduceIte, Bool.not_false, Bool.or_true]
            exact bareUnits_congr (by simp) (by simpa using empty) (by simp [comment]) below
  | cons line rest ih => rw [List.cons_append, bareUnits_cons, ih, List.cons_append, bareUnits_cons]

/-- The lines in front of the next one that starts a statement. -/
def leadingLines (base : Nat) (lines : List Text) : List Text :=
  lines.takeWhile (!startsStatement base ·)

/-- What is collected behind the lines, when nothing is collected in front of them. -/
def openUnit (base : Nat) (lines : List Text) : List Text :=
  lines.foldl (collect base) []

theorem exists_bareUnits_append (base : Nat) (collected above : List Text) :
    ∃ done, ∀ below, bareUnits base collected (above ++ below) =
      done ++ bareUnits base (above.foldl (collect base) collected) below := by
  induction above generalizing collected with
  | nil => exact ⟨[], fun below => rfl⟩
  | cons line rest ih =>
      obtain ⟨done, onward⟩ := ih (collect base collected line)
      refine ⟨(if startsStatement base line then bareUnit collected else []) ++ done, fun below => ?_⟩
      rw [List.cons_append, bareUnits_cons, onward, List.foldl_cons, List.append_assoc]

theorem leadingLines_cons_of_starts (starts : startsStatement base line = true) (rest : List Text) :
    leadingLines base (line :: rest) = [] :=
  List.takeWhile_cons_of_neg (by simp [starts])

theorem leadingLines_cons_of_inside (inside : startsStatement base line = false) (rest : List Text) :
    leadingLines base (line :: rest) = line :: leadingLines base rest :=
  List.takeWhile_cons_of_pos (by simp [inside])

/-- What is collected counts up to the next line that starts a statement. -/
theorem exists_bareUnits_leading (base : Nat) (below : List Text) :
    ∃ rest, ∀ collected, bareUnits base collected below =
      bareUnit ((leadingLines base below).foldl (collect base) collected) ++ rest := by
  induction below with
  | nil => exact ⟨[], fun collected => by simp [bareUnits, unitsFrom, leadingLines]⟩
  | cons line rest ih =>
      cases starts : startsStatement base line with
      | true =>
          refine ⟨bareUnits base [dedent base line] rest, fun collected => ?_⟩
          have visible : Text.allBlank line = false := by
            rw [startsStatement, Bool.and_eq_true, Bool.and_eq_true] at starts
            simpa using starts.1.1
          rw [bareUnits_cons, collect, visible, starts, leadingLines_cons_of_starts starts]
          rfl
      | false =>
          obtain ⟨later, onward⟩ := ih
          refine ⟨later, fun collected => ?_⟩
          rw [bareUnits_cons, starts, if_neg Bool.false_ne_true, List.nil_append, onward,
            leadingLines_cons_of_inside starts, List.foldl_cons]

theorem startsStatement_leadingLines (base : Nat) (lines : List Text) :
    ∀ line ∈ leadingLines base lines, startsStatement base line = false := fun line member => by
  simpa using List.mem_takeWhile_imp member

/-- Behind a line that is collected all lines are collected that start no statement. -/
theorem foldl_collect (nonempty : collected ≠ [])
    (inside : ∀ line ∈ lines, startsStatement base line = false) :
    lines.foldl (collect base) collected =
      collected ++ (lines.filter (!Text.allBlank ·)).map (dedent base) := by
  induction lines generalizing collected with
  | nil => simp
  | cons line rest ih =>
      obtain ⟨here, later⟩ := List.forall_mem_cons.mp inside
      rw [List.foldl_cons, collect, here]
      cases blank : Text.allBlank line with
      | true => simpa [blank] using ih nonempty later
      | false =>
          have filled : collected.isEmpty = false := by simpa using nonempty
          simpa [blank, joined, filled] using @ih (collected ++ [dedent base line])
            (by simp) later

theorem bareUnit_eq_nil {unit : List Text} :
    bareUnit unit = [] ↔ ∀ part ∈ unit, isRemark part = true := by
  rw [bareUnit]
  split
  · rename_i nothing
    simpa using nothing
  · rename_i nonempty
    simpa using nonempty

theorem length_bareUnit_le (unit : List Text) : (bareUnit unit).length ≤ 1 := by
  rw [bareUnit]
  split <;> simp

/-- Two units give what they give as one just in case one of them is of comments. -/
theorem bareUnit_append_iff {first second : List Text} :
    bareUnit first ++ bareUnit second = bareUnit (first ++ second) ↔
      bareUnit first = [] ∨ bareUnit second = [] := by
  constructor
  · intro same
    have count := congrArg List.length same
    have atMost := length_bareUnit_le (first ++ second)
    rw [← count, List.length_append] at atMost
    rw [← List.length_eq_zero_iff, ← List.length_eq_zero_iff]
    omega
  · rintro (nothing | nothing)
    · have comments : first.filter (!isRemark ·) = [] := by
        simpa using bareUnit_eq_nil.mp nothing
      rw [nothing, List.nil_append]
      exact bareUnit_congr (by simp [comments])
    · have comments : second.filter (!isRemark ·) = [] := by
        simpa using bareUnit_eq_nil.mp nothing
      rw [nothing, List.append_nil]
      exact bareUnit_congr (by simp [comments])

theorem allBlank_of_isRemark (isComment : isRemark line = true) : Text.allBlank line = false := by
  cases blank : Text.allBlank line with
  | false => rfl
  | true =>
      rw [isRemark, Text.trimStart_of_allBlank blank] at isComment
      cases isComment

theorem head?_trim_of_isRemark (isComment : isRemark line = true) :
    (Text.trim line).head? = some '#' := by
  have visible : Text.trim line ≠ [] := by
    rw [← List.isEmpty_eq_false_iff, Text.isEmpty_trim, allBlank_of_isRemark isComment]
  rw [← isRemark_trim, isRemark, Text.trimStart_of_first (Text.isTight_trim visible).first] at isComment
  simpa using isComment

theorem startsStatement_remark (isComment : isRemark line = true) (atBase : indentation line = base) :
    startsStatement base line = true := by
  have noBranch : isContinuation (Text.trim line) = false := by
    obtain ⟨note, split⟩ := List.head?_eq_some_iff.mp (head?_trim_of_isRemark isComment)
    simp [split, isContinuation, List.isPrefixOf]
  rw [startsStatement, allBlank_of_isRemark isComment, noBranch, atBase]
  simp

/-- Where no statement has started, a continuation stands behind an empty line. -/
theorem foldl_collect_nil (inside : ∀ line ∈ lines, startsStatement base line = false) :
    lines.foldl (collect base) [] = [] ∨
      (∃ more, lines.foldl (collect base) [] = [] :: more) ∧
        ∃ line ∈ lines, Text.allBlank line = false ∧ isRemark line = false := by
  induction lines with
  | nil => exact Or.inl rfl
  | cons line rest ih =>
      obtain ⟨here, later⟩ := List.forall_mem_cons.mp inside
      rw [List.foldl_cons]
      by_cases joins : Text.allBlank line = false ∧ indentation line = base
      · have first : collect base [] line = [[], dedent base line] := by
          simp [collect, joins.1, here, joins.2, joined]
        have noComment : isRemark line = false := Bool.eq_false_iff.mpr fun isComment => by
          rw [startsStatement_remark isComment joins.2] at here
          cases here
        refine Or.inr ⟨⟨[dedent base line] ++ (rest.filter (!Text.allBlank ·)).map (dedent base), ?_⟩,
          line, List.mem_cons_self, joins.1, noComment⟩
        rw [first, foldl_collect (by simp) later]
        rfl
      · have skipped : collect base [] line = [] := by
          cases blank : Text.allBlank line with
          | true => simp [collect, blank]
          | false =>
              have elsewhere : indentation line ≠ base := fun atBase => joins ⟨blank, atBase⟩
              simp [collect, blank, here, elsewhere]
        rw [skipped]
        refine (ih later).imp_right ?_
        rintro ⟨more, other, member, shown⟩
        exact ⟨more, other, List.mem_cons_of_mem _ member, shown⟩

theorem AreBodyLines.isRemark_dedents (body : AreBodyLines base lines) :
    (∀ part ∈ (lines.filter (!Text.allBlank ·)).map (dedent base), isRemark part = true) ↔
      ∀ line ∈ lines, Text.allBlank line = true ∨ isRemark line = true := by
  rw [List.forall_mem_map]
  refine ⟨fun comments line member => ?_, fun comments line shown => ?_⟩
  · cases blank : Text.allBlank line with
    | true => exact Or.inl rfl
    | false =>
        have comment := comments line (List.mem_filter.mpr ⟨member, by simp [blank]⟩)
        rw [isRemark_dedent (body.deep line member blank)] at comment
        exact Or.inr comment
  · obtain ⟨member, visible⟩ := List.mem_filter.mp shown
    rw [Bool.not_eq_true'] at visible
    rw [isRemark_dedent (body.deep line member visible)]
    exact (comments line member).resolve_left (by simp [visible])

/-- Lines of which each can be seen never give a text that starts with an empty line. -/
theorem bareUnit_ne_of_visible {unit more : List Text}
    (unbroken : ∀ part ∈ unit, '\n' ∉ part) (visible : ∀ part ∈ unit, Text.allBlank part = false) :
    bareUnit unit ≠ bareUnit ([] :: more) := by
  have kept : ([] :: more).filter (!isRemark ·) = [] :: more.filter (!isRemark ·) :=
    List.filter_cons_of_pos rfl
  rw [bareUnit, bareUnit, kept, Text.unlines_cons]
  cases code : unit.filter (!isRemark ·) with
  | nil => simp
  | cons part others =>
      have member : part ∈ unit := List.mem_of_mem_filter (code ▸ List.mem_cons_self)
      obtain ⟨c, text, rfl⟩ := List.exists_cons_of_ne_nil (l := part) (by
        rintro rfl
        exact absurd (visible [] member) (by decide))
      have noBreak : c ≠ '\n' := fun isBreak => unbroken _ member (isBreak ▸ List.mem_cons_self)
      rw [Text.unlines_cons (c :: text)]
      cases more.filter (!isRemark ·) with
      | nil => simp
      | cons next later => simp [noBreak]

/-- Where no statement is open, lines that start none give what they give behind a comment just in case they
are all blank or comments. -/
theorem AreBodyLines.bareUnit_collect_iff (body : AreBodyLines base lines)
    (inside : ∀ line ∈ lines, startsStatement base line = false) :
    bareUnit ((lines.filter (!Text.allBlank ·)).map (dedent base)) =
        bareUnit (lines.foldl (collect base) []) ↔
      bareUnit ((lines.filter (!Text.allBlank ·)).map (dedent base)) = [] := by
  rcases foldl_collect_nil inside with skipped | ⟨⟨more, behind⟩, line, member, visible, noComment⟩
  · rw [skipped]
    rfl
  · have code : bareUnit ((lines.filter (!Text.allBlank ·)).map (dedent base)) ≠ [] := fun none => by
      have comments := body.isRemark_dedents.mp (bareUnit_eq_nil.mp none) line member
      simp [visible, noComment] at comments
    rw [behind]
    refine iff_of_false (bareUnit_ne_of_visible ?_ ?_) code
    · rw [List.forall_mem_map]
      intro line shown
      exact not_mem_dedent (body.unbroken line (List.mem_of_mem_filter shown)) base
    · rw [List.forall_mem_map]
      intro line shown
      obtain ⟨member, visible⟩ := List.mem_filter.mp shown
      rw [Bool.not_eq_true'] at visible
      exact allBlank_dedent (body.deep line member visible) visible

/-- A comment line at the base indentation starts a statement of its own. That makes no difference just in
case nothing but comments goes on below it with the statement above it, or nothing but comments stands
above it in that statement. -/
theorem bareUnits_base_remark_iff {remark : Text} (isComment : isRemark remark = true)
    (atBase : indentation remark = base) (above : List Text) {below : List Text}
    (body : AreBodyLines base below) :
    bareUnits base [] (above ++ remark :: below) = bareUnits base [] (above ++ below) ↔
      (∀ line ∈ leadingLines base below, Text.allBlank line = true ∨ isRemark line = true) ∨
        openUnit base above ≠ [] ∧ ∀ part ∈ openUnit base above, isRemark part = true := by
  obtain ⟨done, onward⟩ := exists_bareUnits_append base [] above
  obtain ⟨rest, leading⟩ := exists_bareUnits_leading base below
  have inside := startsStatement_leadingLines base below
  have leadingBody : AreBodyLines base (leadingLines base below) :=
    ⟨fun line member => body.unbroken line (List.takeWhile_subset _ member),
      fun line member => body.deep line (List.takeWhile_subset _ member)⟩
  have comment : isRemark (dedent base remark) = true := by
    rw [isRemark_dedent (Nat.le_of_eq atBase.symm), isComment]
  have starts := startsStatement_remark isComment atBase
  rw [← leadingBody.isRemark_dedents, ← bareUnit_eq_nil, ← bareUnit_eq_nil]
  -- Behind the comment line stands what goes on below it, whatever the statement above it is.
  have apart : bareUnits base [] (above ++ remark :: below) =
      done ++ (bareUnit (openUnit base above) ++
        bareUnit (((leadingLines base below).filter (!Text.allBlank ·)).map (dedent base)) ++ rest) := by
    have fresh : collect base (openUnit base above) remark = [dedent base remark] := by
      simp [collect, allBlank_of_isRemark isComment, starts]
    rw [onward, ← openUnit, bareUnits_cons, starts, if_pos rfl, fresh, leading,
      foldl_collect (by simp) inside, List.append_assoc]
    congr 3
    exact bareUnit_congr (by simp [comment])
  rw [apart, onward, ← openUnit, leading, List.append_right_inj, List.append_left_inj]
  by_cases nothing : openUnit base above = []
  · rw [nothing, show bareUnit [] = [] from rfl, List.nil_append]
    rw [leadingBody.bareUnit_collect_iff inside]
    simp
  · rw [foldl_collect nothing inside, bareUnit_append_iff, or_comm]
    simp [nothing]

/-- Lines that start no statement go on with the one above them. -/
theorem bareUnits_of_inside (nonempty : collected ≠ [])
    (inside : ∀ line ∈ lines, startsStatement base line = false) :
    bareUnits base collected lines =
      bareUnit (collected ++ (lines.filter (!Text.allBlank ·)).map (dedent base)) := by
  rw [← foldl_collect nonempty inside]
  clear nonempty
  induction lines generalizing collected with
  | nil => simp [bareUnits, unitsFrom]
  | cons line rest ih =>
      obtain ⟨here, later⟩ := List.forall_mem_cons.mp inside
      rw [bareUnits_cons, here, ih later]
      rfl

/-- Lines further in than the base indentation are all skipped where no statement has started. -/
theorem bareUnits_deeper (deeper : ∀ line ∈ lines, Text.allBlank line = false → base < indentation line)
    (rest : List Text) : bareUnits base [] (lines ++ rest) = bareUnits base [] rest := by
  induction lines with
  | nil => rfl
  | cons line more ih =>
      obtain ⟨here, later⟩ := List.forall_mem_cons.mp deeper
      have inside : startsStatement base line = false ∧ collect base [] line = [] := by
        cases blank : Text.allBlank line with
        | true => simp [startsStatement, collect, blank]
        | false => simp [startsStatement, collect, blank, Nat.ne_of_gt (here blank)]
      rw [List.cons_append, bareUnits_cons, inside.1, inside.2, ih later]
      rfl

/-- A comment line further out than all other lines takes the lines below it into one statement, and the
lines above it are lost. -/
theorem bareUnits_outer_remark {remark : Text} (isComment : isRemark remark = true)
    (atBase : indentation remark = base) {above below : List Text}
    (aboveDeeper : ∀ line ∈ above, Text.allBlank line = false → base < indentation line)
    (belowDeeper : ∀ line ∈ below, Text.allBlank line = false → base < indentation line) :
    bareUnits base [] (above ++ remark :: below) =
      bareUnit ((below.filter (!Text.allBlank ·)).map (dedent base)) := by
  have starts := startsStatement_remark isComment atBase
  have comment : isRemark (dedent base remark) = true := by
    rw [isRemark_dedent (Nat.le_of_eq atBase.symm), isComment]
  have inside : ∀ line ∈ below, startsStatement base line = false := fun line member => by
    cases blank : Text.allBlank line with
    | true => exact startsStatement_blank blank
    | false => simp [startsStatement, Nat.ne_of_gt (belowDeeper line member blank)]
  rw [bareUnits_deeper aboveDeeper, bareUnits_cons, starts, collect, allBlank_of_isRemark isComment,
    starts, if_neg Bool.false_ne_true, if_pos rfl, if_pos rfl, bareUnits_of_inside (by simp) inside]
  exact bareUnit_congr (by simp [comment])

end

end Breadboard.Script
