import Breadboard.Proofs.Script.CallSplice
import Breadboard.Proofs.Script.TrimmedTokens

set_option autoImplicit false

/- Tokens of which some runs are spelled anew. If what is spelled anew is no part of a call, then no call is known
behind the change that was not known before. -/
namespace Breadboard.Script

open Sketch hiding stripComments

/-- The tokens with some of their runs, one after another, changed into words. -/
inductive Respelt (changes : List Token → List Token → Prop) : List Token → List Token → Prop where
  | nil : Respelt changes [] []
  | keep {rest made : List Token} (token : Token) (more : Respelt changes rest made) :
      Respelt changes (token :: rest) (token :: made)
  | change {run word rest made : List Token} (spelled : changes run word) (more : Respelt changes rest made) :
      Respelt changes (run ++ rest) (word ++ made)

/-- Changes that touch no bracket, no comma and no name of a call, and after which a name stands behind a dot
if it did before. -/
structure IsRespelling (isDot isNewDot : Token → Bool) (changes : List Token → List Token → Prop) : Prop where
  runFlat : ∀ {run word}, changes run word → ∀ token ∈ run, IsFlat token ∧ token ≠ comma
  wordFlat : ∀ {run word}, changes run word → ∀ token ∈ word, IsFlat token ∧ token ≠ comma
  others : ∀ {run word}, changes run word → ∀ form : CallForm, ∀ token ∈ word,
    token ≠ ⟨.ident, form.head.toList⟩
  visible : ∀ {run word}, changes run word → ∃ token ∈ run, token.isTrivia = false ∧ ¬ IsBlankToken token
  loud : ∀ {run word}, changes run word → ∃ token ∈ word,
    ¬ (token.isTrivia = true ∨ token.text ∈ ["(", ".", "print", "println"].map String.toList)
  kept : ∀ token, isDot token = true → isNewDot token = true
  dots : ∀ {run word}, changes run word → ∀ afterDot afterNewDot,
    word.foldl (dotAfter isNewDot) afterNewDot = false → run.foldl (dotAfter isDot) afterDot = false

namespace Respelt

variable {changes : List Token → List Token → Prop} {tokens made : List Token}

/-- A token that is in no word was there before. -/
theorem exists_split {token : Token} (respelt : Respelt changes tokens made)
    (stays : ∀ {run word}, changes run word → token ∉ word) {front back : List Token}
    (split : made = front ++ token :: back) :
    ∃ first rest, tokens = first ++ token :: rest ∧ Respelt changes first front ∧
      Respelt changes rest back := by
  induction respelt generalizing front with
  | nil => simp at split
  | @keep rest made other more ih =>
      cases front with
      | nil =>
          obtain ⟨rfl, rfl⟩ := List.cons.inj split
          exact ⟨[], rest, rfl, .nil, more⟩
      | cons next front =>
          obtain ⟨rfl, onward⟩ := List.cons.inj split
          obtain ⟨first, left, rfl, before, after⟩ := ih onward
          exact ⟨other :: first, left, rfl, .keep other before, after⟩
  | @change run word rest made spelled more ih =>
      rcases List.append_eq_append_iff.mp split with ⟨later, rfl, onward⟩ | ⟨later, rfl, onward⟩
      · obtain ⟨first, left, rfl, before, after⟩ := ih onward
        exact ⟨run ++ first, left, by simp, .change spelled before, after⟩
      · rcases List.cons_eq_append_iff.mp onward with ⟨rfl, same⟩ | ⟨others, rfl, -⟩
        · obtain ⟨first, left, rfl, before, after⟩ := @ih [] same
          refine ⟨run ++ first, left, by simp, ?_, after⟩
          rw [List.append_nil] at spelled
          rw [← List.append_nil front]
          exact .change spelled before
        · exact absurd (List.mem_append_right front List.mem_cons_self) (stays spelled)

theorem eq_of_made {P : Token → Prop} (respelt : Respelt changes tokens made)
    (loud : ∀ {run word}, changes run word → ∃ token ∈ word, ¬ P token)
    (all : ∀ token ∈ made, P token) : tokens = made := by
  induction respelt with
  | nil => rfl
  | keep token more ih => rw [ih (List.forall_mem_cons.mp all).2]
  | change spelled more ih =>
      obtain ⟨token, member, notAll⟩ := loud spelled
      exact absurd (all token (List.mem_append_left _ member)) notAll

theorem eq_of_tokens {P : Token → Prop} (respelt : Respelt changes tokens made)
    (loud : ∀ {run word}, changes run word → ∃ token ∈ run, ¬ P token)
    (all : ∀ token ∈ tokens, P token) : tokens = made := by
  induction respelt with
  | nil => rfl
  | keep token more ih => rw [ih (List.forall_mem_cons.mp all).2]
  | change spelled more ih =>
      obtain ⟨token, member, notAll⟩ := loud spelled
      exact absurd (all token (List.mem_append_left _ member)) notAll

variable {isDot isNewDot : Token → Bool}

section

variable (respelling : IsRespelling isDot isNewDot changes)
include respelling

theorem parenDepth?_eq (respelt : Respelt changes tokens made) (depth : Nat) :
    parenDepth? depth tokens = parenDepth? depth made := by
  induction respelt generalizing depth with
  | nil => rfl
  | keep token more ih =>
      rw [parenDepth?_cons, parenDepth?_cons]
      simp only [ih]
  | change spelled more ih =>
      rw [parenDepth?_append, parenDepth?_append,
        parenDepth?_of_flat fun token member => (respelling.runFlat spelled token member).1,
        parenDepth?_of_flat fun token member => (respelling.wordFlat spelled token member).1,
        Option.bind_some, Option.bind_some, ih]

theorem isClosed (respelt : Respelt changes tokens made) (closed : IsClosed "(" ")" made) :
    IsClosed "(" ")" tokens := by
  rw [isClosed_iff_isBalanced, IsBalanced] at closed ⊢
  rw [respelt.parenDepth?_eq respelling, closed]

theorem foldl_bracketsAfter_eq (respelt : Respelt changes tokens made) (depth : Nat) :
    tokens.foldl bracketsAfter depth = made.foldl bracketsAfter depth := by
  induction respelt generalizing depth with
  | nil => rfl
  | keep token more ih => exact ih (bracketsAfter depth token)
  | change spelled more ih =>
      rw [List.foldl_append, List.foldl_append,
        foldl_bracketsAfter_of_flat fun token member => (respelling.runFlat spelled token member).1,
        foldl_bracketsAfter_of_flat fun token member => (respelling.wordFlat spelled token member).1, ih]

theorem isWhole (respelt : Respelt changes tokens made) {depth : Nat} (whole : IsWhole depth made) :
    IsWhole depth tokens := by
  induction respelt generalizing depth with
  | nil => exact whole
  | keep token more ih =>
      rw [isWhole_cons] at whole ⊢
      exact ⟨whole.1, ih whole.2⟩
  | change spelled more ih =>
      have runFlat := respelling.runFlat spelled
      rw [isWhole_append, foldl_bracketsAfter_of_flat
        fun token member => (respelling.wordFlat spelled token member).1] at whole
      rw [isWhole_append, foldl_bracketsAfter_of_flat fun token member => (runFlat token member).1]
      exact ⟨isWhole_of_no_comma (fun member => (runFlat comma member).2 rfl) depth, ih whole.2⟩

theorem foldl_dotAfter (respelt : Respelt changes tokens made) {afterDot afterNewDot : Bool}
    (starts : afterNewDot = false → afterDot = false)
    (free : made.foldl (dotAfter isNewDot) afterNewDot = false) :
    tokens.foldl (dotAfter isDot) afterDot = false := by
  induction respelt generalizing afterDot afterNewDot with
  | nil => exact starts free
  | @keep rest made token more ih =>
      refine ih (fun isFree => ?_) free
      rw [dotAfter] at isFree ⊢
      split at isFree
      · rename_i trivia
        rw [if_pos trivia]
        exact starts isFree
      · rename_i visible
        rw [if_neg visible]
        by_contra dot
        rw [respelling.kept token (Bool.not_eq_false _ ▸ dot)] at isFree
        cases isFree
  | change spelled more ih =>
      rw [List.foldl_append] at free ⊢
      exact ih (respelling.dots spelled afterDot afterNewDot) free

theorem exists_visible (respelt : Respelt changes tokens made)
    (visible : ∃ token ∈ made, token.isTrivia = false) : ∃ token ∈ tokens, token.isTrivia = false := by
  by_contra none
  have trivia : ∀ token ∈ tokens, token.isTrivia = true := fun token member => by
    by_contra shown
    exact none ⟨token, member, Bool.not_eq_true _ ▸ shown⟩
  have same := respelt.eq_of_tokens (fun spelled => by
    obtain ⟨token, member, shown, -⟩ := respelling.visible spelled
    exact ⟨token, member, by rw [shown]; exact Bool.false_ne_true⟩) trivia
  exact none (same ▸ visible)

theorem isOneArgument (respelt : Respelt changes tokens made) (one : IsOneArgument made) :
    IsOneArgument tokens :=
  ⟨respelt.exists_visible respelling one.visible, respelt.isWhole respelling one.whole⟩

/-- Two arguments were two before. -/
theorem exists_areTwoArguments (respelt : Respelt changes tokens made) {first second : List Token}
    (two : AreTwoArguments made first second) : ∃ before after, AreTwoArguments tokens before after ∧
      Respelt changes before first ∧ first <:+: made := by
  obtain ⟨split, firstWhole, outside, secondWhole⟩ := areTwoArguments_iff.mp two
  obtain ⟨before, after, rfl, firstSpelt, secondSpelt⟩ := respelt.exists_split
    (fun spelled member => (respelling.wordFlat spelled comma member).2 rfl) split
  refine ⟨before, after, areTwoArguments_iff.mpr ⟨rfl, firstSpelt.isWhole respelling firstWhole, ?_,
    secondSpelt.isWhole respelling secondWhole⟩, firstSpelt, [], comma :: second, split.symm⟩
  rw [firstSpelt.foldl_bracketsAfter_eq respelling, outside]

theorem trim_ne_nil (respelt : Respelt changes tokens made) (nonempty : Text.trim (render made) ≠ []) :
    Text.trim (render tokens) ≠ [] := by
  intro nothing
  obtain ⟨front, back, frontBlank, backBlank, parts⟩ := Text.exists_trim (render tokens)
  rw [nothing] at parts
  have allBlank : Text.allBlank (render tokens) = true := by
    rw [parts, Text.allBlank, List.all_append, List.all_append]
    simp only [Text.allBlank] at frontBlank backBlank
    rw [frontBlank, backBlank]
    rfl
  have blank : ∀ token ∈ tokens, IsBlankToken token := fun token member =>
    List.all_eq_true.mpr fun c inText =>
      List.all_eq_true.mp allBlank c (List.mem_flatMap.mpr ⟨token, member, inText⟩)
  have same := respelt.eq_of_tokens (fun spelled => by
    obtain ⟨token, member, -, solid⟩ := respelling.visible spelled
    exact ⟨token, member, solid⟩) blank
  rw [← same] at nonempty
  exact nonempty nothing

variable {isPin isNewPin : Text → Prop}

/-- The references to pins among the respelt tokens were ones before. -/
theorem takes {whole : List Token} (pins : ∀ {tokens made}, Respelt changes tokens made → made <:+: whole →
      isNewPin (Text.trim (render made)) → isPin (Text.trim (render tokens)))
    {form : CallForm} (respelt : Respelt changes tokens made) (inside : made <:+: whole)
    (takes : form.Takes isNewPin made) : form.Takes isPin tokens := by
  cases form with
  | analogRead => exact ⟨respelt.isOneArgument respelling takes.1, pins respelt inside takes.2⟩
  | digitalRead => exact ⟨respelt.isOneArgument respelling takes.1, pins respelt inside takes.2⟩
  | printLine => exact takes
  | print => exact takes
  | delay => exact respelt.trim_ne_nil respelling takes
  | digitalWrite =>
      obtain ⟨first, second, two, pin⟩ := takes
      obtain ⟨before, after, wasTwo, spelt, part⟩ := respelt.exists_areTwoArguments respelling two
      exact ⟨before, after, wasTwo, pins spelt (part.trans inside) pin⟩

/-- A known call among the respelt tokens was one before. -/
theorem startsCall {whole : List Token} (pins : ∀ {tokens made}, Respelt changes tokens made → made <:+: whole →
      isNewPin (Text.trim (render made)) → isPin (Text.trim (render tokens)))
    {form : CallForm} {token : Token} (respelt : Respelt changes tokens made) (inside : made <:+: whole)
    (starts : StartsCall isNewPin form (token :: made)) : StartsCall isPin form (token :: tokens) := by
  obtain ⟨path, gap, inner, after, spells, trivia, closed, takes, split⟩ := starts
  obtain ⟨rfl, rfl⟩ := List.cons.inj split
  have noOpening {run word : List Token} (spelled : changes run word) : openParen ∉ word := fun member => by
    cases (respelling.wordFlat spelled openParen member).1.1
  have noClosing {run word : List Token} (spelled : changes run word) : closeParen ∉ word := fun member => by
    cases (respelling.wordFlat spelled closeParen member).1.2
  obtain ⟨before, rest, rfl, beforeSpelt, restSpelt⟩ := respelt.exists_split noOpening
    (show _ = (path ++ gap) ++ openParen :: (inner ++ closeParen :: after) by simp)
  obtain ⟨within, behind, rfl, withinSpelt, -⟩ := restSpelt.exists_split noClosing rfl
  -- The tokens up to the parenthesis hold no word, so they are those of before.
  obtain rfl : before = path ++ gap := beforeSpelt.eq_of_made respelling.loud fun other member => by
    rcases List.mem_append.mp member with inPath | inGap
    · rcases spells.of_mem inPath with isTrivia | ⟨part, isPart, same⟩
      · exact Or.inl isTrivia
      · exact Or.inr (same ▸ CallForm.mem_of_tail isPart)
    · exact Or.inl (trivia other inGap)
  refine ⟨path, gap, within, behind, spells, trivia, withinSpelt.isClosed respelling closed,
    withinSpelt.takes respelling pins (List.IsInfix.trans ⟨path ++ (gap ++ [openParen]), closeParen :: after,
      by simp⟩ inside) takes, by simp⟩

/-- Where no known call was, none is among the respelt tokens. -/
theorem noCallIn (respelt : Respelt changes tokens made)
    (pins : ∀ {before after}, Respelt changes before after → after <:+: made →
      isNewPin (Text.trim (render after)) → isPin (Text.trim (render before)))
    {form : CallForm} (none : NoCallIn isPin isDot form false tokens []) :
    NoCallIn isNewPin isNewDot form false made [] := by
  intro front token back split free starts
  have isHead := starts.isIdent_head
  obtain ⟨first, rest, rfl, firstSpelt, restSpelt⟩ := respelt.exists_split
    (fun spelled member => respelling.others spelled form token member isHead) split
  refine none first token rest rfl (firstSpelt.foldl_dotAfter respelling id free) ?_
  rw [List.append_nil] at starts ⊢
  exact restSpelt.startsCall respelling pins ⟨front ++ [token], [], by simp [split]⟩ starts

end

end Respelt

end Breadboard.Script
