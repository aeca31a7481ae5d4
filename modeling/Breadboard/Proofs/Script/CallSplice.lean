import Breadboard.Proofs.Script.CallForm
import Breadboard.Proofs.Script.CallText

set_option autoImplicit false

/- What is put in place of a call. A call that starts before it, in it or behind it was there before, so a rule
brings no call back that is gone. -/
namespace Breadboard.Script

open Sketch hiding stripComments

def isDot (token : Token) : Bool :=
  token.isPunct "."

/-- A token that is no bracket. -/
def IsFlat (token : Token) : Prop :=
  token.isOpening = false ∧ token.isClosing = false

/-- A name that can follow any token: it is no parenthesis, and where it is a dot, no name that is printed by
stands behind it. -/
inductive IsFresh : List Token → Prop where
  | word {first : Token} {more : List Token} (visible : first.isTrivia = false)
      (other : first.text ∉ ["(", "."].map String.toList) : IsFresh (first :: more)
  | method {first second : Token} {more : List Token} (dot : first.isPunct "." = true)
      (visible : second.isTrivia = false)
      (other : second.text ∉ ["print", "println"].map String.toList) : IsFresh (first :: second :: more)

/-- The name of a call that a rule puts in the place of one of its form. -/
structure IsCallName (rule : CallForm) (name : List Token) : Prop where
  flat : ∀ token ∈ name, IsFlat token ∧ token ≠ comma
  fresh : IsFresh name
  opens : OpensCall rule.head (name ++ [openParen])
  quiet : ∀ isPin form after, NoCallIn isPin isDot form false (name ++ [openParen]) after

/-- Tokens that can be put before the parenthesis that closes a call. -/
structure IsCallEnd (extra : List Token) : Prop where
  flat : ∀ token ∈ extra, IsFlat token
  closes : IsFragment (extra ++ [closeParen])
  stops : StopsCall (extra ++ [closeParen])
  quiet : ∀ form : CallForm, ∀ token ∈ extra, token ≠ ⟨.ident, form.head.toList⟩

/-- A call and what the rule of its form puts in its place. The name of the call is replaced; of what stands in
its parentheses the `part` stays, and `extra` is put behind it. -/
structure Splice (rule : CallForm) where
  path : List Token
  before : List Token
  part : List Token
  behind : List Token
  name : List Token
  extra : List Token
  isName : IsCallName rule name
  isEnd : IsCallEnd extra
  innerClosed : IsClosed "(" ")" (before ++ (part ++ behind))
  partClosed : IsClosed "(" ")" part
  partCut : IsCut part
  pathFlat : ∀ token ∈ path, IsFlat token ∧ token ≠ comma
  beforeFlat : ∀ token ∈ before, IsFlat token
  behindFlat : ∀ token ∈ behind, IsFlat token ∧ token ≠ comma
  /-- What is left out before the part is no dot. -/
  free : part ≠ [] → before.foldl (dotAfter isDot) false = false
  /-- What is put behind the part stays apart from it. -/
  apart : part ≠ [] → ∃ c more, extra ++ [closeParen] = ⟨.punct, [c]⟩ :: more ∧ isDelimiter c = true

/-- A token is flat if its characters are all of a sort that brackets and commas are not. -/
theorem flat_of_all {p : Char → Bool} {token : Token} (all : ∀ c ∈ token.text, p c = true)
    (outside : "()[]\x7b\x7d,".toList.all (fun c => !p c) = true) : IsFlat token ∧ token ≠ comma := by
  have other (c : Char) (member : c ∈ "()[]\x7b\x7d,".toList) : token ≠ ⟨.punct, [c]⟩ := by
    rintro rfl
    have fails := List.all_eq_true.mp outside c member
    rw [all c (List.mem_singleton_self c)] at fails
    cases fails
  refine ⟨⟨?_, ?_⟩, other ',' (by decide)⟩
  · by_contra opening
    rw [Bool.not_eq_false, Token.isOpening, Bool.or_eq_true, Bool.or_eq_true] at opening
    rcases opening with (mark | mark) | mark
    · exact other '(' (by decide) (eq_of_isPunct mark)
    · exact other '[' (by decide) (eq_of_isPunct mark)
    · exact other '\x7b' (by decide) (eq_of_isPunct mark)
  · by_contra closing
    rw [Bool.not_eq_false, Token.isClosing, Bool.or_eq_true, Bool.or_eq_true] at closing
    rcases closing with (mark | mark) | mark
    · exact other ')' (by decide) (eq_of_isPunct mark)
    · exact other ']' (by decide) (eq_of_isPunct mark)
    · exact other '\x7d' (by decide) (eq_of_isPunct mark)

theorem bracketsAfter_of_flat {token : Token} (flat : IsFlat token) (depth : Nat) :
    bracketsAfter depth token = depth := by
  rw [bracketsAfter, flat.1, flat.2, if_neg Bool.false_ne_true, if_neg Bool.false_ne_true]

theorem foldl_bracketsAfter_of_flat {tokens : List Token} (flat : ∀ token ∈ tokens, IsFlat token)
    (depth : Nat) : tokens.foldl bracketsAfter depth = depth := by
  induction tokens with
  | nil => rfl
  | cons token tokens ih =>
      rw [List.foldl_cons, bracketsAfter_of_flat (flat token List.mem_cons_self),
        ih fun other member => flat other (List.mem_cons_of_mem _ member)]

theorem bracketsAfter_openParen (depth : Nat) : bracketsAfter depth openParen = depth + 1 :=
  rfl

theorem IsFlat.not_paren {token : Token} (flat : IsFlat token) :
    token.isPunct "(" = false ∧ token.isPunct ")" = false := by
  obtain ⟨opens, closes⟩ := flat
  rw [Token.isOpening, Bool.or_eq_false_iff, Bool.or_eq_false_iff] at opens
  rw [Token.isClosing, Bool.or_eq_false_iff, Bool.or_eq_false_iff] at closes
  exact ⟨opens.1.1, closes.1.1⟩

theorem isClosed_of_flat {tokens : List Token} (flat : ∀ token ∈ tokens, IsFlat token) :
    IsClosed "(" ")" tokens :=
  .of_plain fun token member => (flat token member).not_paren

theorem parenDepth?_of_flat {tokens : List Token} (flat : ∀ token ∈ tokens, IsFlat token) (depth : Nat) :
    parenDepth? depth tokens = some depth :=
  parenDepth?_of_plain (fun token member => (flat token member).not_paren) depth

theorem IsClosed.of_flat_append {front tokens : List Token} (flat : ∀ token ∈ front, IsFlat token)
    (closed : IsClosed "(" ")" (front ++ tokens)) : IsClosed "(" ")" tokens := by
  rw [isClosed_iff_isBalanced, IsBalanced, parenDepth?_append, parenDepth?_of_flat flat] at closed
  exact isClosed_iff_isBalanced.mpr closed

theorem IsClosed.of_append_flat {tokens back : List Token} (closed : IsClosed "(" ")" (tokens ++ back))
    (flat : ∀ token ∈ back, IsFlat token) : IsClosed "(" ")" tokens := by
  rw [isClosed_iff_isBalanced, IsBalanced, parenDepth?_append] at closed
  obtain ⟨depth, ends, same⟩ := Option.bind_eq_some_iff.mp closed
  rw [parenDepth?_of_flat flat] at same
  rw [Option.some.inj same] at ends
  exact isClosed_iff_isBalanced.mpr ends

theorem isWhole_append {first second : List Token} {depth : Nat} :
    IsWhole depth (first ++ second) ↔
      IsWhole depth first ∧ IsWhole (first.foldl bracketsAfter depth) second := by
  induction first generalizing depth with
  | nil => simp [isWhole_nil]
  | cons token first ih =>
      rw [List.cons_append, isWhole_cons, isWhole_cons, ih, and_assoc, List.foldl_cons]

theorem isWhole_of_no_comma {tokens : List Token} (none : comma ∉ tokens) (depth : Nat) :
    IsWhole depth tokens := by
  intro before after split
  rw [split] at none
  simp at none

theorem isWhole_of_flat {tokens : List Token} (flat : ∀ token ∈ tokens, IsFlat token) (depth : Nat) :
    IsWhole (depth + 1) tokens := by
  intro before after split
  rw [split] at flat
  rw [foldl_bracketsAfter_of_flat fun token member => flat token (List.mem_append_left _ member)]
  exact Nat.succ_ne_zero depth

theorem areTwoArguments_iff {inner first second : List Token} :
    AreTwoArguments inner first second ↔ inner = first ++ comma :: second ∧ IsWhole 0 first ∧
      first.foldl bracketsAfter 0 = 0 ∧ IsWhole 0 second := by
  rw [← pieces_eq_two_iff, pieces_eq_cons]
  constructor
  · rintro (⟨nothing, -⟩ | ⟨rest, rfl, whole, outside, last⟩)
    · cases nothing
    · obtain ⟨rfl, restWhole⟩ := pieces_eq_one_iff.mp last
      exact ⟨rfl, whole, outside, restWhole⟩
  · rintro ⟨rfl, whole, outside, secondWhole⟩
    exact Or.inr ⟨second, rfl, whole, outside, pieces_eq_one_iff.mpr ⟨rfl, secondWhole⟩⟩

/-- Behind blanks and comments a token that counts is the next one or comes later. -/
theorem trivia_append_eq {gap rest front back : List Token} {next token : Token}
    (trivia : ∀ other ∈ gap, other.isTrivia = true) (visible : token.isTrivia = false)
    (split : gap ++ next :: rest = front ++ token :: back) :
    (front = gap ∧ next = token ∧ rest = back) ∨
      ∃ between, front = gap ++ next :: between ∧ rest = between ++ token :: back := by
  rcases List.append_eq_append_iff.mp split with ⟨later, rfl, onward⟩ | ⟨later, rfl, onward⟩
  · rcases List.cons_eq_append_iff.mp onward with ⟨rfl, same⟩ | ⟨between, rfl, rest⟩
    · obtain ⟨rfl, rfl⟩ := List.cons.inj same
      exact Or.inl ⟨List.append_nil gap, rfl, rfl⟩
    · exact Or.inr ⟨between, rfl, rest⟩
  · rcases List.cons_eq_append_iff.mp onward with ⟨rfl, same⟩ | ⟨between, rfl, -⟩
    · obtain ⟨rfl, rfl⟩ := List.cons.inj same
      exact Or.inl ⟨(List.append_nil front).symm, rfl, rfl⟩
    · have isTrivia := trivia token (by simp)
      rw [visible] at isTrivia
      cases isTrivia

theorem foldl_dotAfter_trivia {isDot : Token → Bool} {gap : List Token}
    (trivia : ∀ token ∈ gap, token.isTrivia = true) (afterDot : Bool) :
    gap.foldl (dotAfter isDot) afterDot = afterDot := by
  induction gap with
  | nil => rfl
  | cons token gap ih =>
      rw [List.foldl_cons, dotAfter, if_pos (trivia token List.mem_cons_self)]
      exact ih fun other member => trivia other (List.mem_cons_of_mem _ member)

theorem not_trivia_of_isFresh {name : List Token} (fresh : IsFresh name) :
    ∃ first more, name = first :: more ∧ first.isTrivia = false := by
  cases fresh with
  | word visible other => exact ⟨_, _, rfl, visible⟩
  | method dot visible other => exact ⟨_, _, rfl, isTrivia_of_isPunct dot⟩

/-- Only a dot is spelled like one. -/
def HasPlainDots (tokens : List Token) : Prop :=
  ∀ token ∈ tokens, token.text = ".".toList → token.isPunct "." = true

theorem SpellsPath.exists_member {dot member : String} {path : List Token}
    (spells : SpellsPath [dot, member] path) :
    ∃ gap dotToken between word, (∀ token ∈ gap, token.isTrivia = true) ∧ dotToken.isTrivia = false ∧
      dotToken.text = dot.toList ∧ (∀ token ∈ between, token.isTrivia = true) ∧ word.isTrivia = false ∧
      word.text = member.toList ∧ path = gap ++ dotToken :: (between ++ [word]) := by
  cases spells with
  | @cons _ _ gap _ dotToken trivia visible spelled more =>
      cases more with
      | @cons _ _ between _ word betweenTrivia wordVisible wordSpelled last =>
          cases last
          exact ⟨gap, dotToken, between, word, trivia, visible, spelled, betweenTrivia, wordVisible,
            wordSpelled, rfl⟩

/-- The parenthesis that opens the arguments is no start of a fresh name. -/
theorem IsFresh.opening_before {name front gap rest after : List Token} (fresh : IsFresh name)
    (trivia : ∀ other ∈ gap, other.isTrivia = true)
    (split : front ++ (name ++ after) = gap ++ openParen :: rest) :
    ∃ between, front = gap ++ openParen :: between ∧ rest = between ++ (name ++ after) := by
  obtain ⟨first, more, rfl, visible⟩ := not_trivia_of_isFresh fresh
  rcases trivia_append_eq trivia visible (by simpa using split.symm) with ⟨-, same, -⟩ | ⟨between, rfl, rfl⟩
  · rw [← same] at fresh
    cases fresh with
    | word visible other => exact absurd (by decide) other
    | method dot visible other => cases dot
  · exact ⟨between, rfl, by simp⟩

/-- The tokens of a call up to its parenthesis all stand before a fresh name, if that is no method. -/
theorem IsFresh.exists_before {form : CallForm} {name path gap front rest after : List Token} {dotBefore : Bool}
    (fresh : IsFresh name) (free : front.foldl (dotAfter isDot) dotBefore = false)
    (plain : HasPlainDots front) (spells : SpellsPath form.tail path)
    (trivia : ∀ other ∈ gap, other.isTrivia = true)
    (split : front ++ (name ++ after) = path ++ (gap ++ openParen :: rest)) :
    ∃ between, front = path ++ (gap ++ openParen :: between) ∧ rest = between ++ (name ++ after) := by
  have member {printed : String} (isPrinted : printed.toList ∈ ["print", "println"].map String.toList)
      (spells : SpellsPath [".", printed] path) :
      ∃ between, front = path ++ (gap ++ openParen :: between) ∧ rest = between ++ (name ++ after) := by
    obtain ⟨lead, dot, between, word, leadTrivia, dotVisible, isDot, betweenTrivia, wordVisible, isWord, rfl⟩ :=
      spells.exists_member
    obtain ⟨first, more, rfl, visible⟩ := not_trivia_of_isFresh fresh
    rcases trivia_append_eq leadTrivia visible (by simpa using split.symm) with
      ⟨-, rfl, onward⟩ | ⟨behind, rfl, onward⟩
    · -- The dot of the path would be that of the name.
      cases fresh with
      | word visible other =>
          rw [isDot] at other
          exact absurd (by decide) other
      | @method _ second others _ secondVisible other =>
          rcases @trivia_append_eq _ _ [] _ _ _ betweenTrivia secondVisible onward with
            ⟨-, rfl, -⟩ | ⟨_, nothing, -⟩
          · rw [isWord] at other
            exact absurd isPrinted other
          · simp at nothing
    · rcases trivia_append_eq betweenTrivia visible onward with ⟨rfl, -, -⟩ | ⟨later, rfl, final⟩
      · -- The name would stand behind the dot of the path.
        rw [List.foldl_append, List.foldl_cons, foldl_dotAfter_trivia betweenTrivia, dotAfter,
          if_neg (by rw [dotVisible]; exact Bool.false_ne_true)] at free
        have punct : dot.isPunct "." = true := plain dot (by simp) isDot
        rw [Script.isDot, punct] at free
        cases free
      · have behindLater : later ++ (first :: more ++ after) = gap ++ openParen :: rest := by
          simpa using final.symm
        obtain ⟨left, rfl, rfl⟩ := fresh.opening_before trivia behindLater
        exact ⟨left, by simp, rfl⟩
  cases form with
  | printLine => exact @member "println" (by decide) spells
  | print => exact @member "print" (by decide) spells
  | _ =>
      cases spells
      exact fresh.opening_before trivia split

namespace Splice

variable {rule : CallForm} (splice : Splice rule)

/-- The tokens of the call before its parentheses. -/
def call : List Token :=
  ⟨.ident, rule.head.toList⟩ :: splice.path

/-- The call, up to the parenthesis that closes it. -/
def segment : List Token :=
  splice.call ++ openParen :: (splice.before ++ (splice.part ++ (splice.behind ++ [closeParen])))

/-- What is put in the place of the call. -/
def made : List Token :=
  splice.name ++ openParen :: (splice.part ++ (splice.extra ++ [closeParen]))

theorem callFlat : ∀ token ∈ splice.call, IsFlat token ∧ token ≠ comma := by
  intro token member
  rcases List.mem_cons.mp member with rfl | inPath
  · exact ⟨⟨rfl, rfl⟩, fun same => by cases same⟩
  · exact splice.pathFlat token inPath

variable {splice}

theorem segment_closed : IsClosed "(" ")" splice.segment := by
  have callClosed := isClosed_of_flat fun token member => (splice.callFlat token member).1
  have group : IsClosed "(" ")"
      (openParen :: ((splice.before ++ (splice.part ++ splice.behind)) ++ closeParen :: [])) :=
    .group splice.innerClosed .nil
  have whole := callClosed.append group
  simpa [segment] using whole

theorem made_closed : IsClosed "(" ")" splice.made := by
  have nameClosed := isClosed_of_flat fun token member => (splice.isName.flat token member).1
  have inside := splice.partClosed.append (isClosed_of_flat splice.isEnd.flat)
  have group : IsClosed "(" ")" (openParen :: ((splice.part ++ splice.extra) ++ closeParen :: [])) :=
    .group inside .nil
  have whole := nameClosed.append group
  simpa [made] using whole

/-- What is put in the place of a call opens and closes the same brackets. -/
theorem foldl_bracketsAfter_made (depth : Nat) :
    splice.made.foldl bracketsAfter depth = splice.segment.foldl bracketsAfter depth := by
  have call := foldl_bracketsAfter_of_flat fun token member => (splice.callFlat token member).1
  have name := foldl_bracketsAfter_of_flat fun token member => (splice.isName.flat token member).1
  have behind := foldl_bracketsAfter_of_flat fun token member => (splice.behindFlat token member).1
  simp only [made, segment, List.foldl_append, List.foldl_cons, call, name, behind,
    foldl_bracketsAfter_of_flat splice.beforeFlat, foldl_bracketsAfter_of_flat splice.isEnd.flat]

theorem no_comma {tokens : List Token} (flat : ∀ token ∈ tokens, IsFlat token ∧ token ≠ comma) :
    comma ∉ tokens :=
  fun member => (flat comma member).2 rfl

/-- A comma of the call that separates arguments outside it is still there. -/
theorem isWhole_segment {depth : Nat} (whole : IsWhole depth splice.made) :
    IsWhole depth splice.segment := by
  have name := foldl_bracketsAfter_of_flat (fun token member => (splice.isName.flat token member).1) depth
  have call := foldl_bracketsAfter_of_flat (fun token member => (splice.callFlat token member).1) depth
  have before := foldl_bracketsAfter_of_flat splice.beforeFlat (depth + 1)
  rw [made, isWhole_append, name, isWhole_cons, bracketsAfter_openParen, isWhole_append] at whole
  rw [segment, isWhole_append, call, isWhole_cons, bracketsAfter_openParen, isWhole_append, before,
    isWhole_append, isWhole_append]
  have last : ∀ token : Token, token = closeParen → ¬ token = comma := by
    rintro _ rfl same
    cases same
  refine ⟨isWhole_of_no_comma (no_comma splice.callFlat) depth, whole.2.1,
    isWhole_of_flat splice.beforeFlat depth, whole.2.2.1, isWhole_of_no_comma (no_comma splice.behindFlat) _,
    isWhole_of_no_comma (fun member => ?_) _⟩
  exact last comma (List.mem_singleton.mp member) rfl

theorem openParen_mem_segment : openParen ∈ splice.segment := by
  simp [segment]

/-- What stands behind is behind no dot. -/
theorem foldl_dotAfter_segment (afterDot : Bool) :
    splice.segment.foldl (dotAfter isDot) afterDot = false := by
  have whole : splice.segment =
      (splice.call ++ openParen :: (splice.before ++ (splice.part ++ splice.behind))) ++ [closeParen] := by
    simp [segment]
  rw [whole, List.foldl_append]
  rfl

theorem foldl_dotAfter_made (afterDot : Bool) : splice.made.foldl (dotAfter isDot) afterDot = false := by
  have whole : splice.made = (splice.name ++ openParen :: (splice.part ++ splice.extra)) ++ [closeParen] := by
    simp [made]
  rw [whole, List.foldl_append]
  rfl

/-- The tokens that are put in place of a call stay apart. -/
theorem isCut_made : IsCut splice.made := by
  have parts : splice.made = (splice.name ++ [openParen]) ++ (splice.part ++ (splice.extra ++ [closeParen])) := by
    simp [made]
  have inside : IsCut (splice.part ++ (splice.extra ++ [closeParen])) := by
    refine splice.partCut.append splice.isEnd.closes.cut fun last isLast next isNext d isFirst => ?_
    have member := List.mem_of_getLast? isLast
    obtain ⟨c, more, split, delimiter⟩ := splice.apart (List.ne_nil_of_mem member)
    rw [split] at isNext
    obtain rfl : ⟨.punct, [c]⟩ = next := by simpa using isNext
    obtain rfl : c = d := by simpa using isFirst
    exact endsBefore_delimiter (splice.partCut.whole last member) delimiter
  rw [parts]
  refine splice.isName.opens.code.cut.append inside fun last isLast next _ d _ => ?_
  obtain rfl : openParen = last := by simpa using isLast
  exact delimiter_endsBefore rfl d

/-- What is put in place of a call starts a call again, so it stays apart from what is before it. -/
theorem exists_start : ∃ first more c text, splice.made = first :: more ∧ first.text = c :: text ∧
    isCallStart c = true := by
  obtain ⟨first, more, c, text, split, textEq, start⟩ := splice.isName.opens.start
  refine ⟨first, more ++ (splice.part ++ (splice.extra ++ [closeParen])), c, text, ?_, textEq, start⟩
  rw [← List.cons_append, ← split, made]
  simp

theorem isCut_replaced {back : List Token} (cut : IsCut (splice.segment ++ back)) :
    IsCut (splice.made ++ back) := by
  refine isCut_made.append (cut.part ⟨splice.segment, [], by simp⟩) fun last isLast next _ d _ => ?_
  have whole : splice.made = (splice.name ++ openParen :: (splice.part ++ splice.extra)) ++ [closeParen] := by
    simp [made]
  rw [whole, List.getLast?_concat] at isLast
  obtain rfl : closeParen = last := Option.some.inj isLast
  exact delimiter_endsBefore rfl d

/-- Tokens that stay apart from a call stay apart from what is put in its place. -/
theorem meets_replaced {back : List Token} (cut : IsCut (splice.segment ++ back)) {token : Token}
    (whole : IsLexeme token) (meets : ∀ next ∈ (splice.segment ++ back).head?, token.Meets next) :
    ∀ next ∈ (splice.made ++ back).head?, token.Meets next := by
  obtain ⟨first, more, c, text, split, textEq, start⟩ := splice.exists_start
  intro next isNext
  rw [split] at isNext
  obtain rfl : first = next := by simpa using isNext
  have called : (splice.segment ++ back).head? = some ⟨.ident, rule.head.toList⟩ := rfl
  exact (meets _ called).of_callStart whole (cut.whole _ (List.mem_of_mem_head? called)) rfl textEq start

/-- What is put in place of a call has no mark of a block, if the call has none. -/
theorem unmarked_made (unmarked : ∀ token ∈ splice.segment, token.isBlockMark = false) :
    ∀ token ∈ splice.made, token.isBlockMark = false := by
  have parts : splice.made = (splice.name ++ [openParen]) ++ (splice.part ++ (splice.extra ++ [closeParen])) := by
    simp [made]
  intro token member
  rw [parts] at member
  rcases List.mem_append.mp member with inOpening | inRest
  · exact splice.isName.opens.code.unmarked token inOpening
  · rcases List.mem_append.mp inRest with inPart | inClosing
    · exact unmarked token (by simp [segment, inPart])
    · exact splice.isEnd.closes.unmarked token inClosing

/-- Each replaced call leaves fewer names of calls of its form. -/
theorem countP_made_lt :
    splice.made.countP (·.isIdent rule.head) < splice.segment.countP (·.isIdent rule.head) := by
  have parts : splice.made = (splice.name ++ [openParen]) ++ (splice.part ++ (splice.extra ++ [closeParen])) := by
    simp [made]
  have closing : (splice.extra ++ [closeParen]).countP (·.isIdent rule.head) = 0 := by
    rw [List.countP_eq_zero]
    intro token member named
    rcases List.mem_append.mp member with inExtra | last
    · exact splice.isEnd.quiet rule token inExtra (eq_of_isIdent named)
    · rw [List.mem_singleton.mp last] at named
      cases named
  have made : splice.made.countP (·.isIdent rule.head) = splice.part.countP (·.isIdent rule.head) := by
    rw [parts, @List.countP_append _ _ (splice.name ++ [openParen])]
    rw [splice.isName.opens.absent, List.countP_append, closing]
    omega
  rw [made, segment, call, List.cons_append, List.countP_cons, isIdent_self, if_pos rfl, List.countP_append,
    List.countP_cons, List.countP_append, List.countP_append]
  omega

end Splice

/-- No parenthesis stands in a reference to a pin. -/
def IsSpelledPlainly (isPin : Text → Prop) : Prop :=
  ∀ text, isPin text → '(' ∉ text

section

variable {rule : CallForm} {splice : Splice rule} {isPin : Text → Prop} {form : CallForm}

theorem paren_mem_trim {tokens : List Token} (member : openParen ∈ tokens) :
    '(' ∈ Text.trim (render tokens) := by
  refine Text.mem_trim ?_ rfl
  rw [render, List.mem_flatMap]
  exact ⟨openParen, member, List.mem_cons_self⟩

/-- What stands before a comma and holds no parenthesis ends before what was put in, for that has no comma before
its parenthesis. -/
theorem Splice.exists_between {front back first second : List Token}
    (split : front ++ (splice.made ++ back) = first ++ comma :: second) (noParen : openParen ∉ first) :
    ∃ between, front = first ++ comma :: between ∧ second = between ++ (splice.made ++ back) := by
  have noComma : comma ∉ splice.name := fun member => (splice.isName.flat comma member).2 rfl
  rcases List.append_eq_append_iff.mp split with ⟨later, rfl, onward⟩ | ⟨later, rfl, onward⟩
  · have named : splice.name ++ (openParen :: (splice.part ++ (splice.extra ++ [closeParen])) ++ back) =
        later ++ comma :: second := by
      rw [← onward, Splice.made, List.append_assoc]
    rcases List.append_eq_append_iff.mp named with ⟨more, rfl, rest⟩ | ⟨more, same, rest⟩
    · rcases List.cons_eq_append_iff.mp rest with ⟨-, opens⟩ | ⟨_, rfl, -⟩
      · cases opens
      · exact absurd (by simp) noParen
    · rcases List.cons_eq_append_iff.mp rest with ⟨-, opens⟩ | ⟨between, rfl, -⟩
      · cases opens
      · exact absurd (by rw [same]; simp) noComma
  · rcases List.cons_eq_append_iff.mp onward with ⟨-, same⟩ | ⟨between, rfl, rest⟩
    · obtain ⟨start, more, named, -⟩ := not_trivia_of_isFresh splice.isName.fresh
      rw [Splice.made, named, List.cons_append, List.cons_append] at same
      rw [named, ← (List.cons.inj same).1] at noComma
      exact absurd List.mem_cons_self noComma
    · exact ⟨between, rfl, rest⟩

/-- With the call in the place of what was put there, the arguments around it are still those of a known
call. -/
theorem Splice.takes (plainly : IsSpelledPlainly isPin) {front back : List Token}
    (takes : form.Takes isPin (front ++ (splice.made ++ back))) :
    form.Takes isPin (front ++ (splice.segment ++ back)) := by
  have inMade : openParen ∈ splice.made := by simp [Splice.made]
  have one (isOne : IsOneArgument (front ++ (splice.made ++ back)) ∧
      isPin (Text.trim (render (front ++ (splice.made ++ back))))) : False :=
    plainly _ isOne.2 (paren_mem_trim (by simp [inMade]))
  cases form with
  | analogRead => exact (one takes).elim
  | digitalRead => exact (one takes).elim
  | printLine => exact takes
  | print => exact takes
  | delay =>
      intro nothing
      have inside : openParen ∈ front ++ (splice.segment ++ back) := by
        simp [Splice.openParen_mem_segment]
      have member := paren_mem_trim inside
      rw [nothing] at member
      cases member
  | digitalWrite =>
      obtain ⟨first, second, two, pin⟩ := takes
      obtain ⟨split, firstWhole, outside, secondWhole⟩ := areTwoArguments_iff.mp two
      have noParen : openParen ∉ first := fun member => plainly _ pin (paren_mem_trim member)
      obtain ⟨between, rfl, rfl⟩ := splice.exists_between split noParen
      rw [isWhole_append, isWhole_append, Splice.foldl_bracketsAfter_made] at secondWhole
      refine ⟨first, between ++ (splice.segment ++ back), areTwoArguments_iff.mpr
        ⟨by simp, firstWhole, outside, ?_⟩, pin⟩
      rw [isWhole_append, isWhole_append]
      exact ⟨secondWhole.1, Splice.isWhole_segment secondWhole.2.1, secondWhole.2.2⟩

/-- A call that starts before what is put in starts there before it is put in. -/
theorem Splice.startsCall (plainly : IsSpelledPlainly isPin) {token : Token} {front back : List Token}
    {afterDot : Bool} (free : front.foldl (dotAfter isDot) afterDot = false) (plain : HasPlainDots front)
    (starts : StartsCall isPin form (token :: (front ++ (splice.made ++ back)))) :
    StartsCall isPin form (token :: (front ++ (splice.segment ++ back))) := by
  obtain ⟨path, gap, inner, after, spells, trivia, closed, takes, split⟩ := starts
  obtain ⟨rfl, onward⟩ := List.cons.inj split
  have named : front ++ (splice.name ++ (openParen :: (splice.part ++ (splice.extra ++ [closeParen])) ++ back)) =
      path ++ (gap ++ openParen :: (inner ++ closeParen :: after)) := by
    rw [← onward, Splice.made]
    simp
  obtain ⟨between, rfl, same⟩ := splice.isName.fresh.exists_before free plain spells trivia named
  have whole : between ++ (splice.made ++ back) = inner ++ closeParen :: after := by
    rw [same, Splice.made]
    simp
  have cutAt : splitGroup "(" ")" 0 (between ++ (splice.made ++ back)) = some (inner, after) :=
    (splitGroup_eq_some (by decide)).mpr ⟨closed, whole⟩
  have found {others behind : List Token} (othersTakes : form.Takes isPin others)
      (other : splitGroup "(" ")" 0 (between ++ (splice.segment ++ back)) = some (others, behind)) :
      StartsCall isPin form (⟨.ident, form.head.toList⟩ ::
        (path ++ (gap ++ openParen :: between) ++ (splice.segment ++ back))) := by
    obtain ⟨othersClosed, rest⟩ := (splitGroup_eq_some (by decide)).mp other
    exact ⟨path, gap, others, behind, spells, trivia, othersClosed, othersTakes, by simp [rest]; rfl⟩
  rcases splitGroup_append_cases 0 between with ⟨others, behind, ends⟩ | ⟨inside, goes⟩
  · -- The call ends before what is put in.
    rw [ends] at cutAt
    obtain ⟨rfl, -⟩ := Prod.mk.inj (Option.some.inj cutAt)
    exact found takes (ends _)
  · -- What is put in stands between the parentheses of the call.
    rw [goes, Splice.made_closed.splitGroup_append (by decide), Option.map_map] at cutAt
    obtain ⟨⟨more, behind⟩, cutBack, made⟩ := Option.map_eq_some_iff.mp cutAt
    obtain ⟨rfl, rfl⟩ := Prod.mk.inj made
    refine @found _ behind (Splice.takes plainly takes) ?_
    rw [goes, Splice.segment_closed.splitGroup_append (by decide), cutBack]
    rfl

theorem StopsCall.append {tokens : List Token} (stops : StopsCall tokens) (more : List Token) :
    StopsCall (tokens ++ more) := by
  obtain ⟨first, rest, rfl, visible, other⟩ := stops
  exact ⟨first, rest ++ more, rfl, visible, other⟩

/-- No call starts in what is put in the place of a call, if none starts in the part that stays. -/
theorem Splice.noCallIn_made {back : List Token}
    (none : NoCallIn isPin isDot form false splice.segment back) :
    NoCallIn isPin isDot form false splice.made back := by
  have segmentParts : splice.segment = (splice.call ++ openParen :: splice.before) ++
      (splice.part ++ (splice.behind ++ [closeParen])) := by
    simp [Splice.segment]
  have madeParts : splice.made =
      (splice.name ++ [openParen]) ++ (splice.part ++ (splice.extra ++ [closeParen])) := by
    simp [Splice.made]
  have inside : NoCallIn isPin isDot form false splice.part (splice.extra ++ [closeParen] ++ back) := by
    by_cases some : splice.part = []
    · rw [some]
      exact noCallIn_nil
    · rw [segmentParts] at none
      have inPart := (noCallIn_append.mp (noCallIn_append.mp none).2).1
      rw [List.foldl_append, List.foldl_cons,
        show ∀ afterDot, dotAfter isDot afterDot openParen = false from fun _ => rfl,
        splice.free some] at inPart
      exact inPart.of_closed splice.partClosed (splice.isEnd.stops.append back)
  have outside : NoCallIn isPin isDot form false (splice.extra ++ [closeParen]) back := by
    refine noCallIn_of_others fun token member => ?_
    rcases List.mem_append.mp member with inExtra | last
    · exact splice.isEnd.quiet form token inExtra
    · rw [List.mem_singleton.mp last]
      exact fun same => by cases same
  have nameFree : (splice.name ++ [openParen]).foldl (dotAfter isDot) false = false := by
    rw [List.foldl_append]
    rfl
  rw [madeParts]
  refine noCallIn_append.mpr ⟨splice.isName.quiet isPin form _, ?_⟩
  rw [nameFree]
  exact noCallIn_append.mpr ⟨inside, outside.anywhere _⟩

end

end Breadboard.Script
