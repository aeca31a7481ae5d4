import Breadboard.Proofs.Sketch.Fragment

set_option autoImplicit false

/- Tokens set apart: blanks and marks that no token runs into stand between them. -/
namespace Breadboard.Sketch

/-- The token of a run of blanks, none of no blanks. -/
def blankTokens (blank : Text) : List Token :=
  if blank.isEmpty then [] else [⟨.space, blank⟩]

@[simp] theorem render_blankTokens (blank : Text) : render (blankTokens blank) = blank := by
  rw [blankTokens]
  split
  · rename_i empty
    rw [render_nil, List.isEmpty_iff.mp empty]
  · simp

/-- The tokens start with a blank or with a mark that no token runs into. -/
def StartsApart (tokens : List Token) : Prop :=
  ∀ token ∈ tokens.head?, ∀ c ∈ token.text.head?, isSpaceChar c = true ∨ isDelimiter c = true

/-- The tokens do not start with a blank. -/
def StartsTight (tokens : List Token) : Prop :=
  ∀ token ∈ tokens.head?, token.kind ≠ .space

theorem endsBefore_space {token : Token} (whole : IsLexeme token) (tight : token.kind ≠ .space)
    {next : Char} (space : isSpaceChar next = true) : token.endsBefore next = true := by
  have outside : ['=', '<', '>', '&', '|', '+', '-', ':'].contains next = false := by
    simp only [isSpaceChar, Bool.or_eq_true, beq_iff_eq] at space
    rcases space with (((rfl | rfl) | rfl) | rfl) | rfl <;> rfl
  have plain : isWordChar next = false ∧ isNumberChar next = false ∧ next.isDigit = false ∧
      next ≠ '/' ∧ next ≠ '*' := by
    simp only [isSpaceChar, Bool.or_eq_true, beq_iff_eq] at space
    rcases space with (((rfl | rfl) | rfl) | rfl) | rfl <;> decide
  obtain ⟨notWord, notNumber, notDigit, notSlash, notStar⟩ := plain
  cases whole with
  | space => exact absurd rfl tight
  | word => simp [Token.endsBefore, notWord]
  | number => simp [Token.endsBefore, notNumber]
  | literal => rfl
  | mark =>
      simp [Token.endsBefore, isOperatorPair_eq_false outside, notDigit, notSlash, notStar]
  | pair => rfl

theorem IsCut.cons {token : Token} {rest : List Token} (whole : IsLexeme token)
    (meets : ∀ next ∈ rest.head?, token.Meets next) (cut : IsCut rest) : IsCut (token :: rest) := by
  refine ⟨fun other member => ?_, List.isChain_cons.mpr ⟨meets, cut.chain⟩⟩
  rcases List.mem_cons.mp member with rfl | inRest
  · exact whole
  · exact cut.whole other inRest

/-- A token that is no blank ends before tokens that start apart. -/
theorem meets_of_startsApart {token : Token} (whole : IsLexeme token) (tight : token.kind ≠ .space)
    {rest : List Token} (apart : StartsApart rest) : ∀ next ∈ rest.head?, token.Meets next := by
  intro next isNext c first
  rcases apart next isNext c first with space | delimiter
  · exact endsBefore_space whole tight space
  · exact endsBefore_delimiter whole delimiter

theorem isCut_append_apart {tokens rest : List Token} (cut : IsCut tokens)
    (tight : ∀ token ∈ tokens.getLast?, token.kind ≠ .space) (restCut : IsCut rest)
    (apart : StartsApart rest) : IsCut (tokens ++ rest) :=
  cut.append restCut fun last isLast =>
    meets_of_startsApart (cut.whole last (List.mem_of_getLast? isLast)) (tight last isLast) apart

theorem isLexeme_delimiter {c : Char} (delimiter : isDelimiter c = true) :
    IsLexeme ⟨.punct, [c]⟩ := by
  refine .mark ?_
  simp only [isDelimiter, Bool.or_eq_true, beq_iff_eq] at delimiter
  rcases delimiter with ((((((rfl | rfl) | rfl) | rfl) | rfl) | rfl) | rfl) | rfl <;> rfl

/-- A text is a run of blanks and a text that starts with none. -/
theorem exists_blank_run (text : Text) :
    ∃ run behind, text = run ++ behind ∧ run.all isSpaceChar = true ∧
      ∀ c ∈ behind.head?, isSpaceChar c = false := by
  refine ⟨text.takeWhile isSpaceChar, text.dropWhile isSpaceChar,
    List.takeWhile_append_dropWhile.symm, List.all_takeWhile, fun c first => ?_⟩
  have := List.head?_dropWhile_not isSpaceChar text
  rw [Option.mem_def.mp first] at this
  simpa using this

theorem isCut_delimiter_cons {c : Char} (delimiter : isDelimiter c = true) {rest : List Token}
    (cut : IsCut rest) : IsCut (⟨.punct, [c]⟩ :: rest) :=
  IsCut.cons (isLexeme_delimiter delimiter) (fun _ _ d _ => delimiter_endsBefore delimiter d) cut

theorem isSpaceChar_first {token : Token} (whole : IsLexeme token) (tight : token.kind ≠ .space) :
    ∀ c ∈ token.text.head?, isSpaceChar c = false := by
  intro c first
  cases whole with
  | space => exact absurd rfl tight
  | word start =>
      obtain rfl := Option.some.inj first
      exact isSpaceChar_eq_false start rfl
  | number start =>
      obtain rfl := Option.some.inj first
      rcases start with digit | ⟨rfl, -⟩
      · exact isSpaceChar_eq_false digit rfl
      · rfl
  | literal start =>
      obtain rfl := Option.some.inj first
      exact isSpaceChar_eq_false start rfl
  | mark single =>
      obtain rfl := Option.some.inj first
      exact isSpaceChar_eq_false single rfl
  | pair operator =>
      obtain rfl := Option.some.inj first
      by_contra space
      simp only [isSpaceChar, Bool.not_eq_false, Bool.or_eq_true, beq_iff_eq] at space
      rcases space with (((rfl | rfl) | rfl) | rfl) | rfl <;> cases operator

theorem startsApart_delimiter {c : Char} (delimiter : isDelimiter c = true) (rest : List Token) :
    StartsApart (⟨.punct, [c]⟩ :: rest) := by
  intro token first d inText
  obtain rfl := Option.some.inj first
  obtain rfl := Option.some.inj inText
  exact Or.inr delimiter

theorem isCut_blank_append {blank : Text} (all : blank.all isSpaceChar = true) {rest : List Token}
    (cut : IsCut rest) (tight : StartsTight rest) : IsCut (blankTokens blank ++ rest) := by
  rw [blankTokens]
  split
  · exact cut
  · rename_i notEmpty
    cases blank with
    | nil => simp at notEmpty
    | cons c text =>
        rw [List.all_cons, Bool.and_eq_true] at all
        refine IsCut.cons (.space all.1 all.2) (fun next isNext d first => ?_) cut
        have other := isSpaceChar_first (cut.whole next (List.mem_of_mem_head? isNext))
          (tight next isNext) d first
        simp [Token.endsBefore, other]

theorem startsApart_blank {blank : Text} (all : blank.all isSpaceChar = true) (notEmpty : blank ≠ [])
    (rest : List Token) : StartsApart (blankTokens blank ++ rest) := by
  rw [blankTokens, if_neg (by simpa using notEmpty)]
  intro token first c inText
  obtain rfl := Option.some.inj first
  exact Or.inl (List.all_eq_true.mp all c (List.mem_of_mem_head? inText))

theorem startsApart_blank_append {blank : Text} (all : blank.all isSpaceChar = true)
    {rest : List Token} (apart : StartsApart rest) : StartsApart (blankTokens blank ++ rest) := by
  by_cases empty : blank = []
  · subst empty
    exact apart
  · exact startsApart_blank all empty rest

theorem startsTight_cons {token : Token} (tight : token.kind ≠ .space) (rest : List Token) :
    StartsTight (token :: rest) := by
  intro other first
  obtain rfl := Option.some.inj first
  exact tight

/-- A word stands in front of what starts apart. -/
theorem isCut_word_cons {word : Token} (whole : IsLexeme word) (ident : word.kind = .ident)
    {rest : List Token} (cut : IsCut rest) (apart : StartsApart rest) : IsCut (word :: rest) :=
  IsCut.cons whole (meets_of_startsApart whole (by simp [ident]) apart) cut

end Breadboard.Sketch
