import Breadboard.Proofs.Script.LogicalLines
import Breadboard.Proofs.Script.Definition

set_option autoImplicit false

namespace Breadboard.Text

/-- A tight part of a text is not trimmed. -/
theorem IsTight.infix_trim {part text : Text} (tight : IsTight part) (inside : part <:+: text) :
    part <:+: trim text := by
  obtain ⟨front, back, rfl⟩ := inside
  have backVisible : allBlank (part ++ back) = false := by
    simpa using tight.allBlank_append [] back
  have front' : trimStart (front ++ part ++ back) = trimStart front ++ (part ++ back) := by
    rw [List.append_assoc]
    refine trimStart_append (fun c first => ?_) front
    rw [List.head?_append_of_ne_nil _ tight.notEmpty] at first
    exact tight.first c first
  rw [trim, front', (trimEnd_append backVisible (trimStart front)).1]
  refine List.IsInfix.trans ?_ (List.suffix_append _ _).isInfix
  cases blank : allBlank back with
  | true =>
      rw [trimEnd_append_blank blank, trimEnd_of_last tight.last]
  | false =>
      rw [(trimEnd_append blank part).1]
      exact (List.prefix_append _ _).isInfix

end Breadboard.Text

namespace Breadboard.Script

open Sketch hiding stripComments
open Text (shown shown_append)

/-- A pair of parentheses: the tokens before it, between them and after it. -/
structure IsGroup (tokens before inner after : List Token) : Prop where
  split : tokens = before ++ openParen :: (inner ++ closeParen :: after)
  closed : IsClosed "(" ")" inner

/-- A token that ends a line in parentheses as well: a line break or a closing brace. -/
def EndsEveryLine (token : Token) : Prop :=
  token.kind = .space ∧ '\n' ∈ token.text ∨ token.isPunct "\x7d" = true

/-- Two of the lines meet between the parentheses: those above show the opening one, and nothing that stands
behind the tokens in the pair. -/
def PartsGroup (lines : List Text) (before inner : List Token) : Prop :=
  ∃ above below, lines = above ++ below ∧ above ≠ [] ∧ below ≠ [] ∧
    shown (render (before ++ [openParen])) <+: shown above.flatten ∧
    shown above.flatten <+: shown (render (before ++ openParen :: inner))

theorem linesFrom_opening (depth : Nat) (collected : Text) (rest : List Token) :
    linesFrom depth collected (⟨.punct, "(".toList⟩ :: rest) =
      linesFrom (depth + 1) (collected ++ "(".toList) rest := by
  rw [linesFrom, if_neg (by simp), if_pos (by rfl)]

theorem linesFrom_closing (depth : Nat) (collected : Text) (rest : List Token) :
    linesFrom (depth + 1) collected (⟨.punct, ")".toList⟩ :: rest) =
      linesFrom depth (collected ++ ")".toList) rest := by
  rw [linesFrom, if_neg (by simp), if_neg (by decide), if_pos (by rfl), Nat.add_sub_cancel]

section

variable {inner : List Token} (closed : IsClosed "(" ")" inner)

include closed

theorem IsClosed.foldl_parensAfter (depth : Nat) : inner.foldl parensAfter depth = depth := by
  induction closed generalizing depth with
  | nil => rfl
  | cons notOpening notClosing _ ih =>
      rw [List.foldl_cons, ih, parensAfter, if_neg (by simp [notOpening]), if_neg (by simp [notClosing])]
  | group _ _ insideSame moreSame =>
      rw [List.foldl_cons, List.foldl_append, insideSame, List.foldl_cons, moreSame]
      rfl

/-- Inside a pair no more parentheses are closed than opened. -/
theorem IsClosed.le_foldl_parensAfter {front back : List Token} (split : inner = front ++ back)
    (depth : Nat) : depth ≤ front.foldl parensAfter depth := by
  induction closed generalizing front back depth with
  | nil =>
      rw [(List.append_eq_nil_iff.mp split.symm).1]
      exact Nat.le_refl depth
  | cons notOpening notClosing _ ih =>
      rcases List.cons_eq_append_iff.mp split with ⟨rfl, -⟩ | ⟨more, rfl, rest⟩
      · exact Nat.le_refl depth
      · rw [List.foldl_cons, parensAfter, if_neg (by simp [notOpening]), if_neg (by simp [notClosing])]
        exact ih rest depth
  | group inside _ insideLe restLe =>
      rcases List.cons_eq_append_iff.mp split with ⟨rfl, -⟩ | ⟨more, rfl, rest⟩
      · exact Nat.le_refl depth
      · have opened : parensAfter depth ⟨.punct, "(".toList⟩ = depth + 1 := rfl
        rw [List.foldl_cons, opened]
        rcases List.append_eq_append_iff.mp rest with ⟨behind, rfl, onward⟩ | ⟨within, insideEq, -⟩
        · rw [List.foldl_append, inside.foldl_parensAfter]
          rcases List.cons_eq_append_iff.mp onward with ⟨rfl, -⟩ | ⟨last, rfl, further⟩
          · exact Nat.le_succ depth
          · exact restLe further depth
        · exact Nat.le_trans (Nat.le_succ depth) (insideLe insideEq (depth + 1))

/-- In parentheses the line goes on as long as no token ends it at any depth. -/
theorem IsClosed.linesFrom_append (unbroken : ∀ token ∈ inner, ¬ EndsEveryLine token) (depth : Nat)
    (collected : Text) (rest : List Token) :
    linesFrom (depth + 1) collected (inner ++ rest) =
      linesFrom (depth + 1) (collected ++ render inner) rest := by
  induction closed generalizing depth collected rest with
  | nil => rw [List.nil_append, render_nil, List.append_nil]
  | @cons token more notOpening notClosing _ ih =>
      obtain ⟨here, later⟩ := List.forall_mem_cons.mp unbroken
      obtain ⟨noBreak, noBrace⟩ := not_or.mp here
      have goesOn : linesFrom (depth + 1) collected (token :: (more ++ rest)) =
          linesFrom (depth + 1) (collected ++ token.text) (more ++ rest) := by
        rw [linesFrom, if_neg (by simpa using noBreak), if_neg (by simp [notOpening]),
          if_neg (by simp [notClosing]), if_neg (by simp), if_neg noBrace]
      rw [List.cons_append, goesOn, ih later, render_cons, List.append_assoc]
  | @group inside more _ _ insideSame moreSame =>
      have insideUnbroken : ∀ token ∈ inside, ¬ EndsEveryLine token := fun token member =>
        unbroken token (by simp [member])
      have moreUnbroken : ∀ token ∈ more, ¬ EndsEveryLine token := fun token member =>
        unbroken token (by simp [member])
      rw [List.cons_append, List.append_assoc, List.cons_append, linesFrom_opening, insideSame insideUnbroken,
        linesFrom_closing, moreSame moreUnbroken]
      simp [List.append_assoc]

end

/-- A tight part of what is collected stands in one line. -/
theorem exists_mem_finishLine {part collected : Text} (tight : Text.IsTight part)
    (inside : part <:+: collected) : ∃ line ∈ finishLine collected, part <:+: line := by
  have kept := tight.infix_trim inside
  have nonempty : Text.trim collected ≠ [] := by
    intro nothing
    rw [nothing, List.infix_nil] at kept
    exact tight.notEmpty kept
  exact ⟨Text.trim collected, by simp [finishLine, nonempty], kept⟩

theorem exists_mem_linesFrom {part : Text} (tight : Text.IsTight part) (depth : Nat) {collected : Text}
    (inside : part <:+: collected) (tokens : List Token) :
    ∃ line ∈ linesFrom depth collected tokens, part <:+: line := by
  induction tokens generalizing depth collected with
  | nil => exact exists_mem_finishLine tight inside
  | cons token rest ih =>
      obtain ⟨done, onward, step, eq⟩ := exists_lineStep depth collected token rest
      rw [eq]
      have wider : part <:+: collected ++ token.text :=
        inside.trans (List.prefix_append collected token.text).isInfix
      -- A token that is not collected finishes the line that the part stands in.
      have finished (text : Text) (lines : List Text) (inText : part <:+: text) :
          ∃ line ∈ (finishLine text ++ lines) ++ linesFrom (parensAfter depth token) onward rest,
            part <:+: line := by
        obtain ⟨line, member, inLine⟩ := exists_mem_finishLine tight inText
        exact ⟨line, by simp [member], inLine⟩
      cases step with
      | collect => exact ih _ wider
      | lineBreak space inText => simpa using finished collected [] inside
      | mark isMark outside => simpa using finished (collected ++ token.text) [] wider
      | closing closes => simpa using finished collected [] inside
      | closingLine closes => exact finished collected (finishLine token.text) inside

theorem EndsEveryLine.exists_linesFrom {token : Token} (ends : EndsEveryLine token) (depth : Nat)
    (collected : Text) (rest : List Token) :
    ∃ below, linesFrom depth collected (token :: rest) = finishLine collected ++ below := by
  rcases ends with ⟨space, inText⟩ | closing
  · exact ⟨linesFrom depth [] rest, by rw [linesFrom, if_pos (by simp [space, inText])]⟩
  · obtain ⟨line, below, eq, -⟩ := exists_linesFrom_closing closing depth collected rest
    exact ⟨line :: below, eq⟩

section

variable {body : Text} {before inner after : List Token} (group : IsGroup (tokenize body) before inner after)

include group

/-- Up to the opening parenthesis some lines are finished, and the pair is read behind them. -/
theorem IsGroup.exists_linesFrom :
    ∃ finished onward, logicalLines body = finished ++
        linesFrom (openParens before + 1) (onward ++ "(".toList) (inner ++ closeParen :: after) ∧
      shown (finished.flatten ++ onward) = shown (render before) := by
  have blank : ∀ token ∈ before, token.kind = .space → Text.allBlank token.text = true :=
    fun token member => allBlank_of_mem_tokenize (group.split ▸ List.mem_append_left _ member)
  obtain ⟨finished, onward, lines, same⟩ :=
    exists_linesFrom_append blank 0 [] (openParen :: (inner ++ closeParen :: after))
  refine ⟨finished, onward, ?_, same⟩
  rw [logicalLines, group.split, lines, openParen, linesFrom_opening]
  rfl

/-- A pair in which no line ends stands in one line as it is written. -/
theorem IsGroup.exists_line (unbroken : ∀ token ∈ inner, ¬ EndsEveryLine token) :
    ∃ line ∈ logicalLines body, render (openParen :: (inner ++ [closeParen])) <:+: line := by
  obtain ⟨finished, onward, lines, -⟩ := group.exists_linesFrom
  have goesOn : linesFrom (openParens before + 1) (onward ++ "(".toList) (inner ++ closeParen :: after) =
      linesFrom (openParens before) (onward ++ render (openParen :: (inner ++ [closeParen]))) after := by
    rw [group.closed.linesFrom_append unbroken, closeParen, linesFrom_closing]
    simp [openParen]
  have tight : Text.IsTight (render (openParen :: (inner ++ [closeParen]))) := by
    have enclosed := @Text.isTight_enclosed '(' ')' (by decide) (by decide) (render inner)
    simpa [openParen, closeParen] using enclosed
  obtain ⟨line, member, inLine⟩ := exists_mem_linesFrom tight (openParens before)
    (List.suffix_append onward _).isInfix after
  exact ⟨line, by rw [lines, goesOn]; exact List.mem_append_right finished member, inLine⟩

/-- What the body shows: the text up to the pair, the pair, and what stands behind it. -/
theorem IsGroup.shown_body :
    shown body = shown (render before) ++ '(' :: (shown (render inner) ++ ')' :: shown (render after)) := by
  have whole := render_tokenize body
  rw [group.split] at whole
  rw [← whole]
  simp only [render_append, render_cons, shown_append]
  rfl

/-- A token that ends every line parts the pair that it stands in. -/
theorem IsGroup.parted (broken : ∃ token ∈ inner, EndsEveryLine token) :
    PartsGroup (logicalLines body) before inner := by
  obtain ⟨token, member, ends⟩ := broken
  obtain ⟨front, back, rfl⟩ := List.append_of_mem member
  have blank : ∀ other ∈ front, other.kind = .space → Text.allBlank other.text = true :=
    fun other inFront => allBlank_of_mem_tokenize (by rw [group.split]; simp [inFront])
  obtain ⟨finished, onward, lines, same⟩ := group.exists_linesFrom
  obtain ⟨further, collected, run, sameFurther⟩ := exists_linesFrom_append blank (openParens before + 1)
    (onward ++ "(".toList) (token :: (back ++ closeParen :: after))
  obtain ⟨below, cut⟩ := ends.exists_linesFrom (front.foldl parensAfter (openParens before + 1)) collected
    (back ++ closeParen :: after)
  have split : logicalLines body = (finished ++ (further ++ finishLine collected)) ++ below := by
    rw [lines, List.append_assoc, List.cons_append, run, cut]
    simp only [List.append_assoc]
  have shownAbove : shown (finished ++ (further ++ finishLine collected)).flatten =
      shown (render before) ++ '(' :: shown (render front) := by
    rw [List.flatten_append, List.flatten_append, shown_append, shown_append, shown_finishLine,
      ← shown_append further.flatten, sameFurther, shown_append, shown_append, ← List.append_assoc,
      ← List.append_assoc, ← shown_append, same, List.append_assoc]
    rfl
  refine ⟨_, below, split, ?_, ?_, ?_, ?_⟩
  · intro nothing
    rw [nothing] at shownAbove
    simp [shown] at shownAbove
  · -- The closing parenthesis is to be seen, so some line shows it.
    rintro rfl
    have whole := (isLineCut_logicalLines body).lossless
    rw [split, List.append_nil, shownAbove, group.shown_body] at whole
    have length := congrArg List.length whole
    simp only [render_append, render_cons, shown_append, List.length_append, List.length_cons] at length
    omega
  · rw [shownAbove, render_append, shown_append]
    exact ⟨shown (render front), by simp [openParen, shown, Text.isBlank]⟩
  · rw [shownAbove, render_append, shown_append]
    exact ⟨shown (render (token :: back)), by
      simp only [render_append, render_cons, shown_append, List.append_assoc]
      rfl⟩

/-- Where lines meet that part the pair, the tokens are cut between its parentheses. -/
theorem IsGroup.exists_cut {seen rest : List Token} (cut : tokenize body = seen ++ rest)
    (behindOpening : shown (render (before ++ [openParen])) <+: shown (render seen))
    (beforeClosing : shown (render seen) <+: shown (render (before ++ openParen :: inner))) :
    ∃ front back, seen = before ++ openParen :: front ∧ rest = back ++ closeParen :: after ∧
      inner = front ++ back := by
  have opening : shown openParen.text = ['('] := rfl
  have closing : shown closeParen.text = [')'] := rfl
  have split := group.split
  rw [cut, ← List.singleton_append, ← List.append_assoc] at split
  rcases List.append_eq_append_iff.mp split with ⟨missed, whole, restEq⟩ | ⟨front, rfl, onward⟩
  · -- Nothing is missed, for the opening parenthesis is to be seen.
    rcases List.eq_nil_or_concat' missed with rfl | ⟨others, last, rfl⟩
    · exact ⟨[], inner, by rw [← List.append_nil seen, ← whole], restEq, rfl⟩
    · rw [← List.append_assoc] at whole
      obtain ⟨rfl, same⟩ := List.append_inj' whole rfl
      have longer := behindOpening.length_le
      simp only [render_append, render_cons, render_nil, shown_append, List.length_append, opening,
        List.length_singleton] at longer
      omega
  · rcases List.append_eq_append_iff.mp onward with ⟨beyond, rfl, behind⟩ | ⟨back, rfl, rfl⟩
    · cases beyond with
      | nil => exact ⟨inner, [], by simp, by simpa using behind.symm, by simp⟩
      | cons first more =>
          obtain ⟨rfl, -⟩ := List.cons.inj behind
          have longer := beforeClosing.length_le
          simp only [render_append, render_cons, render_nil, shown_append, List.length_append, opening,
            closing, List.length_singleton] at longer
          omega
    · exact ⟨front, back, by simp, rfl, rfl⟩

/-- Lines that meet in a pair meet at a token that ends every line. -/
theorem IsGroup.exists_of_parted (parted : PartsGroup (logicalLines body) before inner) :
    ∃ token ∈ inner, EndsEveryLine token := by
  obtain ⟨above, below, lines, aboveSome, belowSome, behindOpening, beforeClosing⟩ := parted
  obtain ⟨seen, rest, cut, ends, same⟩ :=
    (isLineCut_logicalLines body).apart above below lines aboveSome belowSome
  rw [same] at behindOpening beforeClosing
  obtain ⟨front, back, rfl, rfl, rfl⟩ := group.exists_cut cut behindOpening beforeClosing
  rcases ends with ⟨mark, isLast, kind⟩ | ⟨next, isNext, kind⟩
  · have inFront : mark = openParen ∨ mark ∈ front := by
      rw [List.getLast?_append_of_ne_nil _ (List.cons_ne_nil openParen front)] at isLast
      exact List.mem_cons.mp (List.mem_of_getLast? isLast)
    rcases kind with closing | ⟨isMark, outside⟩
    · rcases inFront with rfl | inFront
      · cases closing
      · exact ⟨mark, List.mem_append_left back inFront, Or.inr closing⟩
    · -- The opening parenthesis is not closed yet.
      have deep := group.closed.le_foldl_parensAfter rfl (before.foldl parensAfter 0 + 1)
      have opened (depth : Nat) : parensAfter depth openParen = depth + 1 := rfl
      rw [List.foldl_append, List.foldl_cons, opened] at outside
      omega
  · cases back with
    | nil =>
        obtain rfl := Option.some.inj isNext
        rcases kind with closing | ⟨space, -⟩
        · cases closing
        · cases space
    | cons first more =>
        obtain rfl := Option.some.inj isNext
        exact ⟨first, by simp, kind.symm⟩

end

/-- Two lines meet in a pair of parentheses just in case a line break or a closing brace stands in it. A pair
without these stands in one line as it is written. -/
theorem group_parted_iff {body : Text} {before inner after : List Token}
    (group : IsGroup (tokenize body) before inner after) :
    (PartsGroup (logicalLines body) before inner ↔ ∃ token ∈ inner, EndsEveryLine token) ∧
      ((¬ ∃ token ∈ inner, EndsEveryLine token) →
        ∃ line ∈ logicalLines body, render (openParen :: (inner ++ [closeParen])) <:+: line) := by
  refine ⟨⟨group.exists_of_parted, group.parted⟩, fun unbroken => group.exists_line ?_⟩
  exact fun token member ends => unbroken ⟨token, member, ends⟩

/-- A header with semicolons between its parentheses. -/
def countingHeader : Text :=
  "for (i = 0; i < 3; i++) \x7b".toList

def countingInner : List Token :=
  [⟨.ident, "i".toList⟩, ⟨.space, " ".toList⟩, ⟨.punct, "=".toList⟩, ⟨.space, " ".toList⟩,
    ⟨.number, "0".toList⟩, ⟨.punct, ";".toList⟩, ⟨.space, " ".toList⟩, ⟨.ident, "i".toList⟩,
    ⟨.space, " ".toList⟩, ⟨.punct, "<".toList⟩, ⟨.space, " ".toList⟩, ⟨.number, "3".toList⟩,
    ⟨.punct, ";".toList⟩, ⟨.space, " ".toList⟩, ⟨.ident, "i".toList⟩, ⟨.punct, "++".toList⟩]

theorem group_parted_iff_countingHeader :
    IsGroup (tokenize countingHeader) [⟨.ident, "for".toList⟩, ⟨.space, " ".toList⟩] countingInner
      [⟨.space, " ".toList⟩, openBrace] ∧
    ¬ PartsGroup (logicalLines countingHeader) [⟨.ident, "for".toList⟩, ⟨.space, " ".toList⟩]
      countingInner ∧
    ∃ line ∈ logicalLines countingHeader, "(i = 0; i < 3; i++)".toList <:+: line := by
  have plain : ∀ token ∈ countingInner, token.isPunct "(" = false ∧ token.isPunct ")" = false := by decide
  have group : IsGroup (tokenize countingHeader) [⟨.ident, "for".toList⟩, ⟨.space, " ".toList⟩]
      countingInner [⟨.space, " ".toList⟩, openBrace] := ⟨by cbv, .of_plain plain⟩
  have unbroken : ¬ ∃ token ∈ countingInner, EndsEveryLine token := by
    rintro ⟨token, member, ends⟩
    revert token
    simp [countingInner, EndsEveryLine, Token.isPunct]
  obtain ⟨parted, whole⟩ := group_parted_iff group
  exact ⟨group, fun parts => unbroken (parted.mp parts), whole unbroken⟩

/-- A call with braces in it that is written over two lines. -/
def brokenCall : Text :=
  "move(\x7bx\x7d,\n  y);".toList

def brokenInner : List Token :=
  [⟨.punct, "\x7b".toList⟩, ⟨.ident, "x".toList⟩, ⟨.punct, "\x7d".toList⟩, ⟨.punct, ",".toList⟩,
    ⟨.space, "\n  ".toList⟩, ⟨.ident, "y".toList⟩]

/-- All brackets are balanced, and the closing brace and the line break part the call. -/
theorem brokenCall_parted :
    IsClosed "(" ")" (tokenize brokenCall) ∧ IsClosed "\x7b" "\x7d" (tokenize brokenCall) ∧
    IsGroup (tokenize brokenCall) [⟨.ident, "move".toList⟩] brokenInner [⟨.punct, ";".toList⟩] ∧
    logicalLines brokenCall =
      ["move(\x7bx".toList, "\x7d".toList, ",".toList, "y);".toList] ∧
    PartsGroup (logicalLines brokenCall) [⟨.ident, "move".toList⟩] brokenInner := by
  have tokens : tokenize brokenCall =
      ⟨.ident, "move".toList⟩ :: openParen :: (brokenInner ++ closeParen :: [⟨.punct, ";".toList⟩]) := by
    cbv
  have inside : IsClosed "(" ")" brokenInner := .of_plain (by decide)
  have braces : IsClosed "\x7b" "\x7d" (tokenize brokenCall) := by
    rw [tokens]
    exact .cons rfl rfl (.cons rfl rfl
      (.group (.cons rfl rfl .nil) (.of_plain (by decide))))
  have lines : logicalLines brokenCall =
      ["move(\x7bx".toList, "\x7d".toList, ",".toList, "y);".toList] := by
    rw [logicalLines, tokens]
    decide
  refine ⟨?_, braces, ⟨tokens, inside⟩, lines, ["move(\x7bx".toList, "\x7d".toList],
    [",".toList, "y);".toList], lines, by simp, by simp, by decide, by decide⟩
  rw [tokens]
  exact .cons rfl rfl (.group inside (.of_plain (by decide)))

end Breadboard.Script
