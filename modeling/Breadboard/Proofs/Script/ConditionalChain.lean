import Breadboard.Proofs.Script.StatementPartition

set_option autoImplicit false

namespace Breadboard.Script

open Sketch (isWordChar)

/-- Two neighbouring lines of one part, with what stands below them. -/
def AreTogether (units : List (List Text)) (prev line : Text) (below : List Text) : Prop :=
  ∃ before head tail after, units = before ++ (head ++ prev :: line :: tail) :: after ∧
    below = tail ++ after.flatten

section

variable {related : Text → Text → Bool} {above below : List Text} {prev line : Text}

/-- Lines with the end of a part between them are not related. -/
theorem unrelated_of_parts {before after : List (List Text)}
    (parts : (above ++ prev :: line :: below).splitBy related = before ++ after)
    (front : above ++ [prev] = before.flatten) (back : line :: below = after.flatten) :
    related prev line = false := by
  have chain := List.isChain_getLast_head_splitBy related (above ++ prev :: line :: below)
  rw [parts, List.isChain_append] at chain
  have someBefore : before ≠ [] := by
    rintro rfl
    simp at front
  obtain ⟨others, unit, rfl⟩ := (List.eq_nil_or_concat' before).resolve_left someBefore
  cases after with
  | nil => cases back
  | cons next more =>
      obtain ⟨unitSome, nextSome, cut⟩ := chain.2.2 unit (by simp) next (by simp)
      have isLast : unit.getLast? = some prev := by
        have last := congrArg List.getLast? front
        rw [List.getLast?_concat, List.flatten_append, List.flatten_singleton,
          List.getLast?_append_of_ne_nil _ unitSome] at last
        exact last.symm
      have isNext : next.head? = some line := by
        have head := congrArg List.head? back
        rw [List.head?_cons, List.flatten_cons, List.head?_append_of_ne_nil _ nextSome] at head
        exact head.symm
      rwa [List.getLast_of_mem_getLast? isLast, List.head_of_mem_head? isNext] at cut

/-- Neighbouring lines stand in one part just in case they are related. -/
theorem areTogether_splitBy_iff :
    AreTogether ((above ++ prev :: line :: below).splitBy related) prev line below ↔
      related prev line = true := by
  constructor
  · rintro ⟨before, head, tail, after, parts, -⟩
    have member : head ++ prev :: line :: tail ∈ (above ++ prev :: line :: below).splitBy related := by
      rw [parts]
      exact List.mem_append_right _ List.mem_cons_self
    have chain := List.isChain_of_mem_splitBy member
    exact (List.isChain_cons_cons.mp (List.isChain_append.mp chain).2.1).1
  · intro isRelated
    have whole := List.flatten_splitBy related (above ++ prev :: line :: below)
    conv_rhs at whole => rw [← List.singleton_append, ← List.append_assoc]
    rcases List.flatten_eq_append_iff.mp whole with
      ⟨before, after, parts, front, back⟩ | ⟨before, head, next, tail, after, parts, front, back⟩
    · rw [unrelated_of_parts parts front back] at isRelated
      cases isRelated
    · obtain ⟨rfl, rfl⟩ := List.cons.inj back
      rcases List.eq_nil_or_concat' head with rfl | ⟨others, last, rfl⟩
      · have cut := unrelated_of_parts parts (by simpa using front) back
        rw [cut] at isRelated
        cases isRelated
      · rw [← List.append_assoc] at front
        obtain ⟨-, same⟩ := List.append_inj' front rfl
        obtain rfl := List.singleton_inj.mp same
        exact ⟨before, others, tail, after, by simpa using parts, rfl⟩

theorem AreTogether.length_le {units : List (List Text)} (together : AreTogether units prev line below) :
    below.length + 2 ≤ units.flatten.length := by
  obtain ⟨before, head, tail, after, rfl, rfl⟩ := together
  simp only [List.flatten_append, List.flatten_cons, List.length_append, List.length_cons]
  omega

end

/-- The first word of a line, behind its margin. -/
def firstWord (line : Text) : Text :=
  (Text.trimStart line).takeWhile isWordChar

/-- What stands behind the first word of a line. -/
def behindWord (line : Text) : Text :=
  (Text.trimStart line).dropWhile isWordChar

/-- A line with the first word of a branch is told as one: it goes on with a colon, or behind `elif` with a
space and more. -/
def IsToldBranch (line : Text) : Prop :=
  (Text.trimEnd (behindWord line)).head? = some ':' ∨
    firstWord line = "elif".toList ∧ (Text.trimEnd (behindWord line)).head? = some ' '

theorem trimEnd_append_of_tight {word : Text} (tight : Text.trimEnd word = word) (behind : Text) :
    Text.trimEnd (word ++ behind) = word ++ Text.trimEnd behind := by
  cases blank : Text.allBlank behind with
  | false => exact (Text.trimEnd_append blank word).1
  | true =>
      have nothing := Text.trimEnd_append_blank blank []
      rw [List.nil_append] at nothing
      rw [Text.trimEnd_append_blank blank, tight, nothing]
      exact (List.append_nil word).symm

theorem isPrefixOf_append_mark (word : Text) (mark : Char) (rest : Text) :
    (word ++ [mark]).isPrefixOf (word ++ rest) = true ↔ rest.head? = some mark := by
  rw [List.isPrefixOf_iff_prefix, List.prefix_append_right_inj, List.singleton_prefix_iff_head?_eq_some]

theorem isContinuation_elif (rest : Text) :
    isContinuation ("elif".toList ++ rest) = true ↔ rest.head? = some ':' ∨ rest.head? = some ' ' := by
  have other : "else:".toList.isPrefixOf ("elif".toList ++ rest) = false := rfl
  have space := isPrefixOf_append_mark "elif".toList ' ' rest
  have colon := isPrefixOf_append_mark "elif".toList ':' rest
  rw [isContinuation, other, Bool.or_false, Bool.or_eq_true, or_comm]
  exact or_congr colon space

theorem isContinuation_else (rest : Text) :
    isContinuation ("else".toList ++ rest) = true ↔ rest.head? = some ':' := by
  have others : "elif ".toList.isPrefixOf ("else".toList ++ rest) = false ∧
    "elif:".toList.isPrefixOf ("else".toList ++ rest) = false := ⟨rfl, rfl⟩
  rw [isContinuation, others.1, others.2, Bool.or_self, Bool.false_or]
  exact isPrefixOf_append_mark "else".toList ':' rest

/-- Of the lines whose first word is that of a branch, those told by it are continuations. -/
theorem isContinuation_trim_iff {line : Text}
    (branch : firstWord line = "elif".toList ∨ firstWord line = "else".toList) :
    isContinuation (Text.trim line) = true ↔ IsToldBranch line := by
  have parts : firstWord line ++ behindWord line = Text.trimStart line := List.takeWhile_append_dropWhile
  rw [Text.trim, ← parts, IsToldBranch]
  rcases branch with isElif | isElse
  · rw [isElif, trimEnd_append_of_tight (by decide), isContinuation_elif]
    simp
  · rw [isElse, trimEnd_append_of_tight (by decide), isContinuation_else]
    simp

section

variable {base : Nat} {above : List Text} {prev line : Text}

/-- Behind a line at the base indentation every line is kept. -/
theorem exists_linesKept_append (reached : ∃ earlier ∈ above ++ [prev], indentation earlier = base)
    (below : List Text) : ∃ front, linesKept base (above ++ prev :: below) = front ++ prev :: below := by
  obtain ⟨earlier, member, atBase⟩ := reached
  have nonempty : (above ++ [prev]).dropWhile (indentation · != base) ≠ [] := fun nothing => by
    have outer := List.dropWhile_eq_nil_iff.mp nothing earlier member
    simp [atBase] at outer
  obtain ⟨lost, parts⟩ := List.dropWhile_suffix (indentation · != base) (l := above ++ [prev])
  obtain ⟨front, last, kept⟩ := (List.eq_nil_or_concat' _).resolve_left nonempty
  rw [kept, ← List.append_assoc] at parts
  obtain rfl := List.singleton_inj.mp (List.append_inj' parts rfl).2
  refine ⟨front, ?_⟩
  rw [← List.singleton_append, ← List.append_assoc, linesKept, List.dropWhile_append, kept, if_neg (by simp),
    List.append_assoc]

theorem linesKept_of_unreached (unreached : ¬ ∃ earlier ∈ above ++ [prev], indentation earlier = base)
    (atBase : indentation line = base) (below : List Text) :
    linesKept base (above ++ prev :: line :: below) = line :: below := by
  have outer : ∀ earlier ∈ above ++ [prev], (indentation earlier != base) = true := fun earlier member =>
    bne_iff_ne.mpr fun same => unreached ⟨earlier, member, same⟩
  rw [← List.singleton_append, ← List.append_assoc, linesKept, List.dropWhile_append_of_pos outer]
  exact List.dropWhile_cons_of_neg (by simp [atBase])

end

/-- A branch in the outermost column goes with the line before it just in case it is told by what stands
behind its first word, and the line before it is kept at all. -/
theorem branch_together_iff {body prev line : Text} {above below : List Text}
    (lines : visibleLines body = above ++ prev :: line :: below)
    (atBase : indentation line = baseIndentation (Text.lines body))
    (branch : firstWord line = "elif".toList ∨ firstWord line = "else".toList) :
    ∃ units, statements body = units.map (statementText (baseIndentation (Text.lines body))) ∧
      units.flatten = linesKept (baseIndentation (Text.lines body)) (visibleLines body) ∧
      (AreTogether units prev line below ↔ IsToldBranch line ∧
        ∃ earlier ∈ above ++ [prev], indentation earlier = baseIndentation (Text.lines body)) := by
  have flatten := List.flatten_splitBy (staysInside (baseIndentation (Text.lines body)))
    (linesKept (baseIndentation (Text.lines body)) (visibleLines body))
  refine ⟨_, statements_eq body, flatten, ?_⟩
  by_cases reached : ∃ earlier ∈ above ++ [prev], indentation earlier = baseIndentation (Text.lines body)
  · obtain ⟨front, kept⟩ := exists_linesKept_append reached (line :: below)
    have inLines : line ∈ visibleLines body := by simp [lines]
    rw [statementLines, lines, kept, areTogether_splitBy_iff, ← isContinuation_trim_iff branch]
    have stays : staysInside (baseIndentation (Text.lines body)) prev line =
        isContinuation (Text.trim line) := by
      simp [staysInside, startsStatement, (mem_visibleLines.mp inLines).2, atBase]
    rw [stays]
    exact (and_iff_left reached).symm
  · have kept := linesKept_of_unreached reached atBase below
    rw [statementLines, lines, kept]
    rw [lines, kept] at flatten
    refine ⟨fun together => ?_, fun told => absurd told.2 reached⟩
    have longer := together.length_le
    rw [flatten, List.length_cons] at longer
    omega

/-- A conditional whose branches are told. -/
def toldBranches : Text :=
  "if a:\n    x()\nelif b:\n    y()\nelse:\n    z()".toList

theorem branch_together_iff_toldBranches :
    visibleLines toldBranches = ["if a:".toList] ++ "    x()".toList :: "elif b:".toList ::
      ["    y()".toList, "else:".toList, "    z()".toList] ∧
    indentation "elif b:".toList = baseIndentation (Text.lines toldBranches) ∧
    firstWord "elif b:".toList = "elif".toList ∧
    ∃ units, statements toldBranches =
        units.map (statementText (baseIndentation (Text.lines toldBranches))) ∧
      units.flatten = linesKept (baseIndentation (Text.lines toldBranches)) (visibleLines toldBranches) ∧
      AreTogether units "    x()".toList "elif b:".toList
        ["    y()".toList, "else:".toList, "    z()".toList] := by
  have lines : visibleLines toldBranches = ["if a:".toList] ++ "    x()".toList :: "elif b:".toList ::
      ["    y()".toList, "else:".toList, "    z()".toList] := by decide
  have atBase : indentation "elif b:".toList = baseIndentation (Text.lines toldBranches) := by decide
  have branch : firstWord "elif b:".toList = "elif".toList := by decide
  obtain ⟨units, texts, kept, together⟩ := branch_together_iff lines atBase (Or.inl branch)
  exact ⟨lines, atBase, branch, units, texts, kept,
    together.mpr ⟨Or.inr (by decide), "if a:".toList, by simp, by decide⟩⟩

/-- A conditional with a parenthesis behind one branch, and a space behind the other. -/
def looseBranches : Text :=
  "if a:\n    x()\nelif(b):\n    y()\nelse :\n    z()".toList

/-- The branches are statements of their own, without the lines before them. -/
theorem looseBranches_leave_chain :
    visibleLines looseBranches = ["if a:".toList, "    x()".toList, "elif(b):".toList, "    y()".toList,
      "else :".toList, "    z()".toList] ∧
    indentation "elif(b):".toList = baseIndentation (Text.lines looseBranches) ∧
    indentation "else :".toList = baseIndentation (Text.lines looseBranches) ∧
    firstWord "elif(b):".toList = "elif".toList ∧ firstWord "else :".toList = "else".toList ∧
    statements looseBranches =
      ["if a:\n    x()".toList, "elif(b):\n    y()".toList, "else :\n    z()".toList] ∧
    ∀ element ∈ statements looseBranches,
      ¬ ("    x()".toList ∈ element.splitOn '\n' ∧ "elif(b):".toList ∈ element.splitOn '\n') ∧
      ¬ ("    y()".toList ∈ element.splitOn '\n' ∧ "else :".toList ∈ element.splitOn '\n') := by
  decide

end Breadboard.Script
