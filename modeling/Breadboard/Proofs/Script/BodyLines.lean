import Breadboard.Proofs.Script.Definition
import Breadboard.Proofs.Script.LineBreak
import Breadboard.Proofs.Sketch.LineEnding

set_option autoImplicit false

namespace Breadboard.Script

open Sketch hiding stripComments

theorem FollowsName.isInfix {body tokens : List Token} (follows : FollowsName body tokens) :
    body <:+: tokens := by
  obtain ⟨lead, parameters, trail, after, -, -, -, rfl⟩ := follows
  exact ⟨lead ++ openParen :: (parameters ++ closeParen :: (trail ++ [openBrace])),
    closeBrace :: after, by simp⟩

theorem bodyWithin?_isInfix {name : String} {afterVoid : Bool} {body tokens : List Token}
    (found : bodyWithin? name afterVoid tokens = some body) : body <:+: tokens := by
  induction tokens generalizing afterVoid with
  | nil => cases found
  | cons token rest ih =>
      have later : body <:+: rest → body <:+: token :: rest := fun inside =>
        inside.trans (List.suffix_cons token rest).isInfix
      rw [bodyWithin?] at found
      split at found
      · rename_i here defined
        obtain rfl := Option.some.inj found
        obtain ⟨-, defined⟩ := Option.ite_none_right_eq_some.mp defined
        exact later (bodyAfterName?_eq_some.mp defined).isInfix
      · exact later (ih found)

/-- The text of a body is cut into tokens of the text that it was found in. -/
theorem tokenize_functionBody {name : String} {text body : Text}
    (defined : functionBody? name (tokenize text) = some body) :
    tokenize body <:+: tokenize text := by
  obtain ⟨part, found, rfl⟩ := Option.map_eq_some_iff.mp defined
  have inside := bodyWithin?_isInfix found
  have same := tokenize_render_infix inside
  rwa [same]

section

variable {tokens : List Token}
  (spaced : ∀ token ∈ tokens, '\n' ∈ token.text → token.kind = .space)

theorem unbroken_finishLine {collected : Text} (unbroken : '\n' ∉ collected) :
    ∀ line ∈ finishLine collected, '\n' ∉ line := by
  intro line member
  rw [finishLine] at member
  split at member
  · cases member
  · rw [List.mem_singleton.mp member]
    exact not_mem_trim unbroken

include spaced

theorem unbroken_linesFrom (depth : Nat) {collected : Text} (unbroken : '\n' ∉ collected) :
    ∀ line ∈ linesFrom depth collected tokens, '\n' ∉ line := by
  induction tokens generalizing depth collected with
  | nil => exact unbroken_finishLine unbroken
  | cons token rest ih =>
      obtain ⟨here, later⟩ := List.forall_mem_cons.mp spaced
      rw [linesFrom]
      split
      · exact List.forall_mem_append.mpr
          ⟨unbroken_finishLine unbroken, ih later depth (List.not_mem_nil)⟩
      · rename_i noBreak
        have text : '\n' ∉ token.text := fun member => noBreak (by simp [here member, member])
        have both : '\n' ∉ collected ++ token.text := by simp [unbroken, text]
        split
        · exact ih later _ both
        · split
          · exact ih later _ both
          · split
            · exact List.forall_mem_append.mpr
                ⟨unbroken_finishLine both, ih later _ List.not_mem_nil⟩
            · split
              · refine List.forall_mem_append.mpr ⟨unbroken_finishLine unbroken, ?_⟩
                split
                · exact ih later _ text
                · exact List.forall_mem_append.mpr
                    ⟨unbroken_finishLine text, ih later _ List.not_mem_nil⟩
              · exact ih later _ both

end

/-- The logical lines of a function's body are not broken if no literal of the sketch is. -/
theorem unbroken_logicalLines {source body : Text} {name : String}
    (literals : ∀ token ∈ tokenize source, token.kind = .literal → '\n' ∉ token.text)
    (defined : functionBody? name (tokenize (Sketch.stripComments source)) = some body) :
    ∀ line ∈ logicalLines body, '\n' ∉ line := by
  refine unbroken_linesFrom (fun token inBody broken => ?_) 0 List.not_mem_nil
  have member := (tokenize_functionBody defined).subset inBody
  by_contra noSpace
  refine unbroken_of_mem_tokenize member noSpace
    (kind_ne_comment_stripComments source token member) (fun literal => ?_) broken
  have kept : token ∈ Sketch.literals (tokenize (Sketch.stripComments source)) :=
    List.mem_filter.mpr ⟨member, by simp [literal]⟩
  rw [literals_tokenize_stripComments] at kept
  exact literals token (List.mem_filter.mp kept).1 literal broken

end Breadboard.Script
