import Breadboard.Proofs.Script.Definition

set_option autoImplicit false

namespace Breadboard.Script

open Sketch hiding stripComments

/-- The header takes its condition from a group in parentheses and what follows from behind the group, or it has
no condition and ends with its keyword. -/
structure Header.IsReadFrom (header : Header) (tokens : List Token) : Prop where
  keyword : header.keyword ∈ ["if", "elif", "while", "else"].map String.toList
  parts : (∃ front inner, (∀ token ∈ front, token.kind ≠ .literal) ∧ IsClosed "(" ")" inner ∧
      tokens = front ++ openParen :: (inner ++ closeParen :: header.after) ∧
      header.condition = some (Text.trim (Sketch.render inner))) ∨
    ∃ front word, (∀ token ∈ front, token.kind ≠ .literal) ∧ word.kind = .ident ∧
      tokens = front ++ word :: header.after ∧ header.condition = none

section

variable {header : Header} {tokens : List Token}

theorem Header.IsReadFrom.behind {rest lead : List Token} (isRead : header.IsReadFrom rest)
    (others : ∀ token ∈ lead, token.kind ≠ .literal) : header.IsReadFrom (lead ++ rest) := by
  refine ⟨isRead.keyword, isRead.parts.imp ?_ ?_⟩
  · rintro ⟨front, inner, noLiteral, closed, rfl, condition⟩
    exact ⟨lead ++ front, inner, List.forall_mem_append.mpr ⟨others, noLiteral⟩, closed, by simp, condition⟩
  · rintro ⟨front, word, noLiteral, ident, rfl, condition⟩
    exact ⟨lead ++ front, word, List.forall_mem_append.mpr ⟨others, noLiteral⟩, ident, by simp, condition⟩

theorem Header.IsReadFrom.of_dropTrivia (isRead : header.IsReadFrom (dropTrivia tokens)) :
    header.IsReadFrom tokens := by
  obtain ⟨lead, split, trivia⟩ := exists_trivia_append tokens
  rw [split]
  refine isRead.behind fun token member literal => ?_
  have isTrivia := trivia token member
  rw [Token.isTrivia, literal] at isTrivia
  cases isTrivia

theorem Header.IsReadFrom.cons {token : Token} (isRead : header.IsReadFrom tokens)
    (other : token.kind ≠ .literal) : header.IsReadFrom (token :: tokens) := by
  have single : ∀ next ∈ [token], next.kind ≠ .literal := by simpa using other
  exact isRead.behind single

theorem isReadFrom_conditional {keyword : String}
    (isKeyword : keyword.toList ∈ ["if", "elif", "while", "else"].map String.toList)
    (found : conditional? keyword tokens = some header) : header.IsReadFrom tokens := by
  obtain ⟨⟨inner, after⟩, group, rfl⟩ := Option.map_eq_some_iff.mp found
  obtain ⟨lead, trivia, closed, rfl⟩ := parenthesized?_eq_some.mp group
  refine ⟨isKeyword, Or.inl ⟨lead, inner, fun token member literal => ?_, closed, rfl, rfl⟩⟩
  have isTrivia := trivia token member
  rw [Token.isTrivia, literal] at isTrivia
  cases isTrivia

theorem isReadFrom_else {token : Token} (isElse : token.isIdent "else" = true) (rest : List Token) :
    Header.IsReadFrom ⟨"else".toList, none, rest⟩ (token :: rest) := by
  rw [eq_of_isIdent isElse]
  exact ⟨by simp, Or.inr ⟨[], _, by simp, rfl, rfl, rfl⟩⟩

theorem kind_ne_literal_of_isIdent {token : Token} {name : String}
    (ident : token.isIdent name = true) : token.kind ≠ .literal := by
  rw [eq_of_isIdent ident]
  simp

theorem isReadFrom_headerAt (found : headerAt? tokens = some header) : header.IsReadFrom tokens := by
  unfold headerAt? at found
  split at found
  · cases found
  · rename_i token rest
    split at found
    · rename_i isElse
      split at found
      · obtain rfl := Option.some.inj found
        exact isReadFrom_else isElse rest
      · rename_i next more dropped
        split at found
        · rename_i isIf
          have conditional : header.IsReadFrom (dropTrivia rest) := by
            rw [dropped]
            exact (isReadFrom_conditional (by simp) found).cons (kind_ne_literal_of_isIdent isIf)
          exact conditional.of_dropTrivia.cons (kind_ne_literal_of_isIdent isElse)
        · obtain rfl := Option.some.inj found
          exact isReadFrom_else isElse rest
    · split at found
      · rename_i isIf
        exact (isReadFrom_conditional (by simp) found).cons (kind_ne_literal_of_isIdent isIf)
      · split at found
        · rename_i isWhile
          exact (isReadFrom_conditional (by simp) found).cons (kind_ne_literal_of_isIdent isWhile)
        · cases found

theorem isReadFrom_header (found : header? tokens = some header) : header.IsReadFrom tokens := by
  unfold header? at found
  refine Header.IsReadFrom.of_dropTrivia ?_
  split at found
  · cases found
  · rename_i token rest dropped
    rw [dropped]
    split at found
    · rename_i isBrace
      refine (isReadFrom_headerAt found).of_dropTrivia.cons ?_
      rw [eq_of_isPunct isBrace]
      simp
    · exact isReadFrom_headerAt found

end

end Breadboard.Script
