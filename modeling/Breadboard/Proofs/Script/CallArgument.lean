import Breadboard.Proofs.Script.RuleScope

set_option autoImplicit false

namespace Breadboard.Script

open Sketch hiding stripComments

/-- The number of open brackets behind a token. A closing one where none is open counts nothing. -/
def bracketsAfter (depth : Nat) (token : Token) : Nat :=
  if token.isOpening then depth + 1 else if token.isClosing then depth - 1 else depth

def comma : Token := ⟨.punct, ",".toList⟩

/-- No comma of the tokens stands outside all brackets, of which `depth` are open before them. -/
def IsWhole (depth : Nat) (tokens : List Token) : Prop :=
  ∀ before after, tokens = before ++ comma :: after → before.foldl bracketsAfter depth ≠ 0

theorem isWhole_nil (depth : Nat) : IsWhole depth [] := by
  intro before after split
  simp at split

theorem isWhole_cons {depth : Nat} {token : Token} {rest : List Token} :
    IsWhole depth (token :: rest) ↔
      ¬ (depth = 0 ∧ token = comma) ∧ IsWhole (bracketsAfter depth token) rest := by
  constructor
  · intro whole
    refine ⟨?_, fun before after split => ?_⟩
    · rintro ⟨outside, rfl⟩
      exact whole [] rest rfl outside
    · exact whole (token :: before) after (by rw [split]; rfl)
  · rintro ⟨here, later⟩ before after split
    cases before with
    | nil =>
        obtain ⟨isComma, -⟩ := List.cons.inj split
        exact fun outside => here ⟨outside, isComma⟩
    | cons first more =>
        obtain ⟨rfl, behind⟩ := List.cons.inj split
        exact later more after behind

theorem pieces_comma (rest : List Token) : pieces 0 (comma :: rest) = [] :: pieces 0 rest := by
  rw [pieces, if_pos ⟨rfl, rfl⟩]

theorem pieces_cons_inside {depth : Nat} {token : Token} (inside : ¬ (depth = 0 ∧ token = comma))
    {rest piece : List Token} {more : List (List Token)}
    (found : pieces (bracketsAfter depth token) rest = piece :: more) :
    pieces depth (token :: rest) = (token :: piece) :: more := by
  have other : ¬ (depth = 0 ∧ token.isPunct "," = true) := fun isComma =>
    inside ⟨isComma.1, eq_of_isPunct isComma.2⟩
  rw [bracketsAfter] at found
  rw [pieces, if_neg other]
  simp only [found]

/-- The first piece is all there is, or it goes up to the first comma outside all brackets. -/
theorem pieces_eq_cons {depth : Nat} {tokens first : List Token} {more : List (List Token)} :
    pieces depth tokens = first :: more ↔
      (more = [] ∧ first = tokens ∧ IsWhole depth tokens) ∨
        ∃ rest, tokens = first ++ comma :: rest ∧ IsWhole depth first ∧
          first.foldl bracketsAfter depth = 0 ∧ pieces 0 rest = more := by
  induction tokens generalizing depth first with
  | nil =>
      rw [pieces, List.cons.injEq]
      constructor
      · rintro ⟨rfl, rfl⟩
        exact Or.inl ⟨rfl, rfl, isWhole_nil depth⟩
      · rintro (⟨rfl, rfl, -⟩ | ⟨rest, nothing, -⟩)
        · exact ⟨rfl, rfl⟩
        · simp at nothing
  | cons token tokens ih =>
      by_cases separates : depth = 0 ∧ token = comma
      · obtain ⟨rfl, rfl⟩ := separates
        rw [pieces_comma, List.cons.injEq]
        constructor
        · rintro ⟨rfl, rfl⟩
          exact Or.inr ⟨tokens, rfl, isWhole_nil 0, rfl, rfl⟩
        · rintro (⟨-, -, whole⟩ | ⟨rest, split, whole, -, same⟩)
          · exact absurd ⟨rfl, rfl⟩ (isWhole_cons.mp whole).1
          · cases first with
            | nil => exact ⟨rfl, (List.cons.inj split).2 ▸ same⟩
            | cons other others =>
                obtain ⟨rfl, -⟩ := List.cons.inj split
                exact absurd ⟨rfl, rfl⟩ (isWhole_cons.mp whole).1
      · obtain ⟨piece, others, found⟩ :=
          List.exists_cons_of_ne_nil (pieces_ne_nil (bracketsAfter depth token) tokens)
        rw [pieces_cons_inside separates found, List.cons.injEq]
        constructor
        · rintro ⟨rfl, rfl⟩
          rcases ih.mp found with ⟨rfl, rfl, whole⟩ | ⟨rest, rfl, whole, outside, same⟩
          · exact Or.inl ⟨rfl, rfl, isWhole_cons.mpr ⟨separates, whole⟩⟩
          · exact Or.inr ⟨rest, rfl, isWhole_cons.mpr ⟨separates, whole⟩, outside, same⟩
        · rintro (⟨rfl, rfl, whole⟩ | ⟨rest, split, whole, outside, same⟩)
          · have alone := ih.mpr (Or.inl ⟨rfl, rfl, (isWhole_cons.mp whole).2⟩)
            obtain ⟨rfl, rfl⟩ := List.cons.inj (found.symm.trans alone)
            exact ⟨rfl, rfl⟩
          · cases first with
            | nil => exact absurd ⟨outside, (List.cons.inj split).1⟩ separates
            | cons other others =>
                obtain ⟨rfl, rfl⟩ := List.cons.inj split
                have parted := ih.mpr (Or.inr ⟨rest, rfl, (isWhole_cons.mp whole).2, outside, same⟩)
                obtain ⟨rfl, rfl⟩ := List.cons.inj (found.symm.trans parted)
                exact ⟨rfl, rfl⟩

/-- Tokens that count and have no comma outside all brackets. -/
structure IsOneArgument (inner : List Token) : Prop where
  visible : ∃ token ∈ inner, token.isTrivia = false
  whole : IsWhole 0 inner

/-- Tokens with one comma outside all brackets, which stands between these parts. -/
structure AreTwoArguments (inner first second : List Token) : Prop where
  split : inner = first ++ comma :: second
  outside : first.foldl bracketsAfter 0 = 0
  only : ∀ before after, inner = before ++ comma :: after → before.foldl bracketsAfter 0 = 0 →
    before = first

theorem foldl_bracketsAfter_comma (before after : List Token) (depth : Nat) :
    (before ++ comma :: after).foldl bracketsAfter depth =
      after.foldl bracketsAfter (before.foldl bracketsAfter depth) := by
  rw [List.foldl_append]
  rfl

theorem pieces_eq_one_iff {inner piece : List Token} :
    pieces 0 inner = [piece] ↔ piece = inner ∧ IsWhole 0 inner := by
  rw [pieces_eq_cons]
  constructor
  · rintro (⟨-, same, whole⟩ | ⟨rest, -, -, -, nothing⟩)
    · exact ⟨same, whole⟩
    · exact absurd nothing (pieces_ne_nil 0 rest)
  · exact fun only => Or.inl ⟨rfl, only⟩

theorem pieces_eq_two_iff {inner first second : List Token} :
    pieces 0 inner = [first, second] ↔ AreTwoArguments inner first second := by
  rw [pieces_eq_cons]
  constructor
  · rintro (⟨nothing, -⟩ | ⟨rest, rfl, whole, outside, parts⟩)
    · cases nothing
    · obtain ⟨rfl, restWhole⟩ := pieces_eq_one_iff.mp parts
      refine ⟨rfl, outside, fun before after split closed => ?_⟩
      rcases List.append_eq_append_iff.mp split with ⟨later, rfl, onward⟩ | ⟨later, rfl, onward⟩
      · rcases List.cons_eq_append_iff.mp onward with ⟨rfl, -⟩ | ⟨between, rfl, rfl⟩
        · exact List.append_nil first
        · rw [foldl_bracketsAfter_comma, outside] at closed
          exact absurd closed (restWhole between after rfl)
      · rcases List.cons_eq_append_iff.mp onward with ⟨rfl, -⟩ | ⟨between, rfl, -⟩
        · exact (List.append_nil before).symm
        · exact absurd closed (whole before between rfl)
  · rintro ⟨rfl, outside, only⟩
    have shorter {before : List Token} (same : before = first) : before.length = first.length :=
      congrArg List.length same
    refine Or.inr ⟨second, rfl, ?_, outside, pieces_eq_one_iff.mpr ⟨rfl, ?_⟩⟩
    · intro before after split closed
      have earlier := shorter (only before (after ++ comma :: second) (by simp [split]) closed)
      rw [split] at earlier
      simp at earlier
    · intro before after split closed
      have later := shorter (only (first ++ comma :: before) after (by simp [split])
        (by rw [foldl_bracketsAfter_comma, outside, closed]))
      simp at later

theorem arguments_eq_one_iff {inner : List Token} {argument : Text} :
    Sketch.arguments inner = [argument] ↔
      IsOneArgument inner ∧ Text.trim (render inner) = argument := by
  rw [Sketch.arguments]
  split
  · rename_i blank
    refine iff_of_false (by simp) fun one => ?_
    obtain ⟨token, member, counts⟩ := one.1.visible
    rw [List.all_eq_true.mp blank token member] at counts
    cases counts
  · rename_i visible
    rw [List.map_eq_singleton_iff]
    constructor
    · rintro ⟨piece, parts, same⟩
      obtain ⟨rfl, whole⟩ := pieces_eq_one_iff.mp parts
      exact ⟨⟨by simpa using visible, whole⟩, same⟩
    · rintro ⟨one, same⟩
      exact ⟨inner, pieces_eq_one_iff.mpr ⟨rfl, one.whole⟩, same⟩

theorem arguments_eq_two_iff {inner : List Token} {first second : Text} :
    Sketch.arguments inner = [first, second] ↔ ∃ before after, AreTwoArguments inner before after ∧
      Text.trim (render before) = first ∧ Text.trim (render after) = second := by
  rw [Sketch.arguments]
  split
  · rename_i blank
    refine iff_of_false (by simp) ?_
    rintro ⟨before, after, ⟨rfl, -⟩, -⟩
    have commaBlank := List.all_eq_true.mp blank comma (by simp)
    cases commaBlank
  · constructor
    · intro texts
      obtain ⟨before, more, parts, firstEq, moreEq⟩ := List.map_eq_cons_iff.mp texts
      obtain ⟨after, rfl, secondEq⟩ := List.map_eq_singleton_iff.mp moreEq
      exact ⟨before, after, pieces_eq_two_iff.mp parts, firstEq, secondEq⟩
    · rintro ⟨before, after, two, rfl, rfl⟩
      rw [pieces_eq_two_iff.mpr two]
      rfl

end Breadboard.Script
