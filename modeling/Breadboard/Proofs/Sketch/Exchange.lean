import Breadboard.Proofs.Sketch.Fragment

set_option autoImplicit false

/- Exchanging words, numbers and literals. A token can take the place of another one of its kind, so a list
of tokens is cut where the lexer cuts if a sample of it is. -/
namespace Breadboard.Sketch

/-- The second token can take the place of the first. -/
inductive Token.Like : Token → Token → Prop where
  | same (token : Token) : Like token token
  | word {first second : Token} (firstKind : first.kind = .ident) (kind : second.kind = .ident)
      (whole : IsLexeme second) : Like first second
  | number {first : Token} {c d : Char} {more digits : Text} (firstIs : first = ⟨.number, c :: more⟩)
      (digit : c.isDigit = true) (all : (d :: digits).all Char.isDigit = true) :
      Like first ⟨.number, d :: digits⟩
  | literal {quote : Char} {more rest : Text} (start : isQuote quote = true)
      (closed : closesLiteral quote rest = true) :
      Like ⟨.literal, quote :: more⟩ ⟨.literal, quote :: rest⟩

theorem isNumberChar_of_isDigit {c : Char} (digit : c.isDigit = true) : isNumberChar c = true := by
  simp [isNumberChar, Char.isAlphanum, digit]

theorem isLexeme_digits {c : Char} {digits : Text} (all : (c :: digits).all Char.isDigit = true) :
    IsLexeme ⟨.number, c :: digits⟩ := by
  rw [List.all_cons, Bool.and_eq_true] at all
  refine .number (Or.inl all.1) (List.all_eq_true.mpr fun d member => ?_)
  exact isNumberChar_of_isDigit (List.all_eq_true.mp all.2 d member)

theorem Token.Like.whole {first second : Token} (like : first.Like second)
    (firstWhole : IsLexeme first) : IsLexeme second := by
  cases like with
  | same => exact firstWhole
  | word _ _ whole => exact whole
  | number _ _ all => exact isLexeme_digits all
  | literal start closed => exact .literal start closed

theorem Token.Like.endsBefore {first second : Token} (like : first.Like second) (next : Char) :
    first.endsBefore next = true → second.endsBefore next = true := by
  intro ends
  cases like with
  | same => exact ends
  | word firstKind kind _ =>
      rw [Token.endsBefore, kind]
      rwa [Token.endsBefore, firstKind] at ends
  | number firstIs _ _ =>
      subst firstIs
      exact ends
  | literal => rfl

/-- A token that ends before a digit ends before any other digit. -/
theorem endsBefore_digit {token : Token} (whole : IsLexeme token) {next other : Char}
    (ends : token.endsBefore next = true) (digit : next.isDigit = true)
    (otherDigit : other.isDigit = true) : token.endsBefore other = true := by
  cases whole with
  | space => simp [Token.endsBefore, isSpaceChar_eq_false otherDigit rfl]
  | word => simp [Token.endsBefore, isWordChar, Char.isAlphanum, digit] at ends
  | number => simp [Token.endsBefore, isNumberChar_of_isDigit digit] at ends
  | literal => rfl
  | @mark c single =>
      have outside : ['=', '<', '>', '&', '|', '+', '-', ':'].contains other = false := by
        by_contra operator
        simp only [List.contains_eq_mem, Bool.not_eq_false, decide_eq_true_eq, List.mem_cons,
          List.not_mem_nil, or_false] at operator
        rcases operator with rfl | rfl | rfl | rfl | rfl | rfl | rfl | rfl <;> cases otherDigit
      have notSlash : other ≠ '/' := ne_of_holds otherDigit rfl
      have notStar : other ≠ '*' := ne_of_holds otherDigit rfl
      have notDot : c ≠ '.' := by
        rintro rfl
        simp [Token.endsBefore, digit] at ends
      simp [Token.endsBefore, isOperatorPair_eq_false outside, notSlash, notStar, notDot]
  | pair => rfl

theorem Token.Like.meets {token first second : Token} (like : first.Like second)
    (whole : IsLexeme token) (firstWhole : IsLexeme first) (meets : token.Meets first) :
    token.Meets second := by
  cases like with
  | same => exact meets
  | word firstKind kind secondWhole =>
      obtain ⟨c, rest, textEq, start⟩ := IsLexeme.exists_wordStart secondWhole kind
      refine Token.Meets.of_callStart meets whole firstWhole firstKind textEq ?_
      rw [isCallStart, start, Bool.true_or]
  | @number _ c d more digits firstIs digit all =>
      subst firstIs
      intro other first
      obtain rfl : d = other := Option.some.inj first
      rw [List.all_cons, Bool.and_eq_true] at all
      exact endsBefore_digit whole (meets c rfl) digit all.1
  | @literal quote more rest =>
      intro other first
      obtain rfl : quote = other := Option.some.inj first
      exact meets quote rfl

theorem IsCut.like {tokens others : List Token} (cut : IsCut tokens)
    (alike : List.Forall₂ Token.Like tokens others) : IsCut others := by
  induction alike with
  | nil => exact cut
  | @cons first second rest more like others ih =>
      have firstWhole := cut.whole first List.mem_cons_self
      have restCut : IsCut rest :=
        ⟨fun token member => cut.whole token (List.mem_cons_of_mem _ member), cut.chain.tail⟩
      have moreCut := ih restCut
      refine ⟨fun token member => ?_, List.isChain_cons.mpr ⟨fun next isNext => ?_, moreCut.chain⟩⟩
      · rcases List.mem_cons.mp member with rfl | inMore
        · exact like.whole firstWhole
        · exact moreCut.whole token inMore
      · cases others with
        | nil => cases isNext
        | @cons before _ _ _ nextLike _ =>
            obtain rfl := Option.some.inj isNext
            have beforeWhole := restCut.whole before List.mem_cons_self
            have meets := nextLike.meets firstWhole beforeWhole
              (List.isChain_cons_cons.mp cut.chain).1
            exact fun c atHead => like.endsBefore c (meets c atHead)

end Breadboard.Sketch
