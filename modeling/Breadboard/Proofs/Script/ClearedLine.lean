import Breadboard.Proofs.Script.CallRule
import Breadboard.Proofs.Script.RuleScope

set_option autoImplicit false

/- The rules for calls one after another. Each of them starts from whole tokens, comes to its end and leaves to
the next one a line without the calls of the forms so far. -/
namespace Breadboard.Script

open Sketch hiding stripComments

/-- A line whose literals end, without comments, with marks of blocks at its ends only. -/
structure IsPlainLine (line : Text) : Prop where
  uncommented : ∀ token ∈ tokenize line, token.kind ≠ .comment
  terminated : ∀ token ∈ tokenize line, token.kind = .literal → token.isClosedLiteral = true
  marks : IsBlockLine (tokenize line)

/-- The tokens that the rules for calls start from. -/
def declaredTokens (line : Text) : List Token :=
  stripTypes false (stripComments (tokenize line))

/-- The passes of the rules for the forms, one after another. -/
def passes (context : Context) (forms : List CallForm) (tokens : List Token) : List Token :=
  forms.foldl (fun tokens form => form.pass context tokens) tokens

theorem passes_concat (context : Context) (forms : List CallForm) (form : CallForm) (tokens : List Token) :
    passes context (forms ++ [form]) tokens = form.pass context (passes context forms tokens) := by
  rw [passes, List.foldl_append]
  rfl

theorem convertTokens_eq_passes (context : Context) (line : Text) :
    convertTokens context (tokenize line) =
      convertHeader (normalizeWords none (passes context callForms (declaredTokens line))) :=
  rfl

section

variable {tokens : List Token}

/-- Without types the tokens are whole ones again. -/
theorem stripTypes_isCut {afterType : Bool} (cut : IsCut tokens)
    (named : afterType = true → leadsToAssignment tokens = true) :
    IsCut (stripTypes afterType tokens) ∧ (afterType = false →
      ∀ before, IsLexeme before → (∀ next ∈ tokens.head?, before.Meets next) →
        ∀ next ∈ (stripTypes afterType tokens).head?, before.Meets next) := by
  induction tokens generalizing afterType with
  | nil => exact ⟨cut, fun _ _ _ _ _ member => by cases member⟩
  | cons token rest ih =>
      have restCut : IsCut rest := cut.part ⟨[token], [], by simp⟩
      have whole := cut.whole token List.mem_cons_self
      rw [stripTypes]
      by_cases dropped : (isTypeWord token && leadsToAssignment rest) = true
      · obtain ⟨type, leads⟩ := Bool.and_eq_true_iff.mp dropped
        have made := (@ih true restCut fun _ => leads).1
        rw [if_pos dropped]
        refine ⟨made, fun _ before lexeme meets next first => ?_⟩
        obtain ⟨c, more, textEq, start⟩ :=
          (made.whole next (List.mem_of_mem_head? first)).exists_wordStart (head_stripTypes leads next first)
        exact (meets token rfl).of_callStart lexeme whole (kind_of_isTypeWord type) textEq
          (by rw [isCallStart, start]; rfl)
      · rw [if_neg dropped]
        by_cases blank : (afterType && token.isTrivia) = true
        · obtain ⟨after, trivia⟩ := Bool.and_eq_true_iff.mp blank
          rw [if_pos blank]
          exact ⟨(@ih true restCut fun _ => by rw [← leadsToAssignment_of_trivia trivia, named after]).1,
            fun before => by rw [before] at after; cases after⟩
        · rw [if_neg blank]
          obtain ⟨made, meets⟩ := @ih false restCut (by simp)
          refine ⟨made.cons whole (meets rfl token whole (List.isChain_cons.mp cut.chain).1),
            fun _ before _ apart next first => apart next first⟩

theorem stripTypes_endsInMark {afterType : Bool} (ends : EndsInMark tokens) :
    EndsInMark (stripTypes afterType tokens) := by
  induction tokens generalizing afterType with
  | nil => exact ends
  | cons token rest ih =>
      rw [stripTypes]
      rcases endsInMark_cons.mp ends with ⟨plain, restEnds⟩ | ⟨rfl, isMark⟩
      · split
        · exact ih restEnds
        · split
          · exact ih restEnds
          · exact endsInMark_cons.mpr (Or.inl ⟨plain, ih restEnds⟩)
      · have kept : isTypeWord token = false ∧ token.isTrivia = false := by
          rcases isMark with mark | mark <;> rw [eq_of_isPunct mark] <;> decide
        rw [kept.1, kept.2, Bool.false_and, if_neg Bool.false_ne_true, Bool.and_false,
          if_neg Bool.false_ne_true]
        exact ends

theorem stripTypes_isBlockLine (isLine : IsBlockLine tokens) : IsBlockLine (stripTypes false tokens) := by
  obtain ⟨closer, body, rfl, isCloser, ends⟩ := isLine
  have frames : ∀ token ∈ closer, isFrame token = true := by
    rcases isCloser with rfl | rfl <;> decide
  rw [stripTypes_frame_append frames]
  exact ⟨closer, _, rfl, isCloser, stripTypes_endsInMark ends⟩

end

/-- Whole tokens of a line, with no known call of the forms. -/
structure IsCleared (forms : List CallForm) (tokens : List Token) : Prop where
  cut : IsCut tokens
  marks : IsBlockLine tokens
  noCall : ∀ form ∈ forms, NoCallIn IsPinReference isDot form false tokens []

theorem IsPlainLine.isCleared {line : Text} (plain : IsPlainLine line) :
    IsCleared [] (declaredTokens line) := by
  have same : stripComments (tokenize line) = tokenize line :=
    List.filter_eq_self.mpr fun token member => bne_iff_ne.mpr (plain.uncommented token member)
  rw [declaredTokens, same]
  exact ⟨(stripTypes_isCut (isCut_tokenize plain.uncommented plain.terminated) (by simp)).1,
    stripTypes_isBlockLine plain.marks, fun form member => by cases member⟩

section

variable {context : Context} {forms : List CallForm} {tokens : List Token}

/-- The pass of each form ends, and no call that the rule knows is passed over. -/
theorem CallForm.exists_run (names : context.HasScriptNames) (form : CallForm) (cut : IsCut tokens) :
    ∃ count, Rewrites form.head form.tail (form.rule context) true false tokens count
      (form.pass context tokens) :=
  (splicesForm_rule names form).exists_run cut (List.countP_le_length.trans cut.length_le) false

theorem IsCleared.pass (names : context.HasScriptNames) (cleared : IsCleared forms tokens)
    (form : CallForm) : IsCleared (forms ++ [form]) (form.pass context tokens) := by
  obtain ⟨count, run⟩ := form.exists_run names cleared.cut
  have clears := (splicesForm_rule names form).clears run cleared.cut
  refine ⟨(clears.isCut cleared.cut).1, clears.isBlockLine cleared.marks, fun other member => ?_⟩
  rcases List.mem_append.mp member with earlier | last
  · exact clears.keepsNoCall cleared.cut (cleared.noCall other earlier)
  · rw [List.mem_singleton.mp last]
    exact clears.noCall cleared.cut

/-- After all passes no call of any of the forms is left. -/
theorem IsCleared.passes (names : context.HasScriptNames) (cleared : IsCleared forms tokens)
    (more : List CallForm) : IsCleared (forms ++ more) (passes context more tokens) := by
  induction more generalizing forms tokens with
  | nil => simpa [passes] using cleared
  | cons form more ih => simpa [passes] using ih (cleared.pass names form)

end

end Breadboard.Script
