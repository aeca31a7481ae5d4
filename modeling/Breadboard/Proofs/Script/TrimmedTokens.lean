import Breadboard.Proofs.Script.ConstantValue
import Breadboard.Proofs.Sketch.Fragment

set_option autoImplicit false

namespace Breadboard.Script

open Sketch hiding stripComments

def IsBlankToken (token : Token) : Prop :=
  Text.allBlank token.text = true

/-- A token that is blank throughout or at neither end. -/
def IsSolid (token : Token) : Prop :=
  IsBlankToken token ∨ Text.IsTight token.text

theorem isTight_of_visible {text : Text} (notEmpty : text ≠ []) (visible : ∀ c ∈ text, Text.isBlank c = false) :
    Text.IsTight text :=
  ⟨notEmpty, fun c first => visible c (List.mem_of_mem_head? first),
    fun c last => visible c (List.mem_of_getLast? last)⟩

theorem isTight_of_numberChars {text : Text} (notEmpty : text ≠ [])
    (all : ∀ c ∈ text, isNumberChar c = true) : Text.IsTight text :=
  isTight_of_visible notEmpty fun c member => isBlank_of_isNumberChar (all c member)

theorem mem_of_isOperatorPair {first second : Char} (operator : isOperatorPair first second = true) :
    first ∈ ['=', '!', '<', '>', '&', '|', '+', '-', '*', '/', ':'] ∧
      second ∈ ['=', '<', '>', '&', '|', '+', '-', ':'] := by
  refine ⟨?_, ?_⟩
  · by_contra other
    simp only [List.mem_cons, List.not_mem_nil, or_false, not_or] at other
    unfold isOperatorPair at operator
    split at operator
    all_goals first | cases operator | simp_all
  · by_contra other
    have outside : ['=', '<', '>', '&', '|', '+', '-', ':'].contains second = false := by simpa using other
    rw [isOperatorPair_eq_false outside] at operator
    cases operator

theorem isBlank_of_isOperatorPair {first second : Char} (operator : isOperatorPair first second = true) :
    Text.isBlank first = false ∧ Text.isBlank second = false := by
  obtain ⟨isFirst, isSecond⟩ := mem_of_isOperatorPair operator
  have firsts : ['=', '!', '<', '>', '&', '|', '+', '-', '*', '/', ':'].all (!Text.isBlank ·) = true := rfl
  have seconds : ['=', '<', '>', '&', '|', '+', '-', ':'].all (!Text.isBlank ·) = true := rfl
  have visible {c : Char} (noBlank : (!Text.isBlank c) = true) : Text.isBlank c = false := by
    simpa using noBlank
  exact ⟨visible (List.all_eq_true.mp firsts first isFirst), visible (List.all_eq_true.mp seconds second isSecond)⟩

theorem isSolid_of_isLexeme {token : Token} (whole : IsLexeme token) : IsSolid token := by
  cases whole with
  | @space c rest start run =>
      refine Or.inl (List.all_eq_true.mpr fun d member => ?_)
      rcases List.mem_cons.mp member with rfl | inRest
      · exact isBlank_of_isSpaceChar start
      · exact isBlank_of_isSpaceChar (List.all_eq_true.mp run d inRest)
  | @word c rest start run =>
      refine Or.inr (isTight_of_numberChars (List.cons_ne_nil c rest) fun d member => ?_)
      rcases List.mem_cons.mp member with rfl | inRest
      · exact isNumberChar_of_isWordChar (isWordChar_of_isWordStart start)
      · exact isNumberChar_of_isWordChar (List.all_eq_true.mp run d inRest)
  | @number c rest start run =>
      refine Or.inr (isTight_of_numberChars (List.cons_ne_nil c rest) fun d member => ?_)
      rcases List.mem_cons.mp member with rfl | inRest
      · rcases start with digit | ⟨rfl, -⟩
        · simp [isNumberChar, Char.isAlphanum, digit]
        · rfl
      · exact List.all_eq_true.mp run d inRest
  | @literal quote rest start closed =>
      have visible : Text.isBlank quote = false := by
        rw [isQuote, Bool.or_eq_true, beq_iff_eq, beq_iff_eq] at start
        rcases start with rfl | rfl <;> rfl
      refine Or.inr ⟨List.cons_ne_nil quote rest, fun c first => ?_, fun c last => ?_⟩
      · obtain rfl : quote = c := Option.some.inj first
        exact visible
      · have ends := getLast?_of_closesLiteral closed
        rw [List.getLast?_cons, ends] at last
        obtain rfl : quote = c := by simpa using last
        exact visible
  | @mark c single =>
      cases blank : Text.isBlank c with
      | true => exact Or.inl (by simp [IsBlankToken, Text.allBlank, blank])
      | false => exact Or.inr (isTight_of_visible (List.cons_ne_nil c []) (by simpa using blank))
  | pair operator =>
      refine Or.inr (isTight_of_visible (List.cons_ne_nil _ _) fun c member => ?_)
      obtain ⟨firstVisible, secondVisible⟩ := isBlank_of_isOperatorPair operator
      rcases List.mem_cons.mp member with rfl | inRest
      · exact firstVisible
      · rwa [List.mem_singleton.mp inRest]

/-- A list without the members at its two ends that have a property. -/
theorem exists_dropped {α : Type} (p : α → Bool) (members : List α) :
    ∃ lead part trail, members = lead ++ (part ++ trail) ∧ (∀ a ∈ lead, p a = true) ∧
      (∀ a ∈ trail, p a = true) ∧ (∀ a ∈ part.head?, p a = false) ∧ ∀ a ∈ part.getLast?, p a = false := by
  have front (members : List α) : ∃ lead rest, members = lead ++ rest ∧ (∀ a ∈ lead, p a = true) ∧
      ∀ a ∈ rest.head?, p a = false := by
    refine ⟨members.takeWhile p, members.dropWhile p, (List.takeWhile_append_dropWhile).symm,
      fun a member => List.mem_takeWhile_imp member, fun a first => ?_⟩
    have stops := List.head?_dropWhile_not p members
    rw [Option.mem_def.mp first] at stops
    simpa using stops
  obtain ⟨lead, rest, rfl, leadAll, restFirst⟩ := front members
  obtain ⟨trail, part, reversed, trailAll, partLast⟩ := front rest.reverse
  have split : rest = part.reverse ++ trail.reverse := by
    rw [← List.reverse_append, ← reversed, List.reverse_reverse]
  refine ⟨lead, part.reverse, trail.reverse, by rw [split], leadAll,
    fun a member => trailAll a (List.mem_reverse.mp member), fun a first => restFirst a ?_,
    fun a last => partLast a (by rwa [List.getLast?_reverse] at last)⟩
  rw [split, List.head?_append, Option.mem_def.mp first]
  rfl

theorem isTight_render {tokens : List Token} (nonempty : tokens ≠ [])
    (first : ∀ token ∈ tokens.head?, Text.IsTight token.text)
    (last : ∀ token ∈ tokens.getLast?, Text.IsTight token.text) : Text.IsTight (render tokens) := by
  obtain ⟨start, more, rfl⟩ := List.exists_cons_of_ne_nil nonempty
  have startTight := first start rfl
  refine ⟨by simp [startTight.notEmpty], fun c isFirst => startTight.first c ?_, fun c isLast => ?_⟩
  · rw [render_cons] at isFirst
    rwa [List.head?_append_of_ne_nil _ startTight.notEmpty] at isFirst
  · obtain ⟨others, final, split⟩ := (List.eq_nil_or_concat' (start :: more)).resolve_left nonempty
    rw [split, List.getLast?_concat] at last
    have finalTight := last final rfl
    rw [split, render_append, render_cons, render_nil, List.append_nil,
      List.getLast?_append_of_ne_nil _ finalTight.notEmpty] at isLast
    exact finalTight.last c isLast

/-- The trimmed text is that of the tokens between blank ones. -/
theorem exists_trim_render {tokens : List Token} (solid : ∀ token ∈ tokens, IsSolid token) :
    ∃ lead part trail, tokens = lead ++ (part ++ trail) ∧ (∀ token ∈ lead, IsBlankToken token) ∧
      (∀ token ∈ trail, IsBlankToken token) ∧ Text.trim (render tokens) = render part ∧
      (part ≠ [] → Text.IsTight (render part)) := by
  obtain ⟨lead, part, trail, rfl, leadBlank, trailBlank, first, last⟩ :=
    exists_dropped (fun token => Text.allBlank token.text) tokens
  have tight (nonempty : part ≠ []) : Text.IsTight (render part) := by
    refine isTight_render nonempty (fun token isFirst => ?_) fun token isLast => ?_
    · refine (solid token ?_).resolve_left (Bool.eq_false_iff.mp (first token isFirst))
      simp [List.mem_of_mem_head? isFirst]
    · refine (solid token ?_).resolve_left (Bool.eq_false_iff.mp (last token isLast))
      simp [List.mem_of_getLast? isLast]
  refine ⟨lead, part, trail, rfl, leadBlank, trailBlank, ?_, tight⟩
  rw [render_append, render_append, Text.trim_blank_append (allBlank_render leadBlank),
    Text.trim_append_blank (allBlank_render trailBlank)]
  by_cases empty : part = []
  · rw [empty]
    rfl
  · exact (tight empty).trim_eq

end Breadboard.Script
