import Breadboard.Proofs.Script.QuietLine

set_option autoImplicit false

namespace Breadboard.Script

open Sketch hiding stripComments

/-- The colon behind a header. Behind a condition that ends with a colon the two of them are one mark. -/
def IsSeparator (token : Token) : Prop :=
  token = ⟨.punct, [':']⟩ ∨ token = ⟨.punct, [':', ':']⟩

section

variable {tokens front part back : List Token} {token : Token}

theorem EndsInMark.behind_front (ends : EndsInMark (front ++ tokens)) : EndsInMark tokens := by
  induction front with
  | nil => exact ends
  | cons first front ih =>
      rcases endsInMark_cons.mp ends with ⟨-, rest⟩ | ⟨nothing, -⟩
      · exact ih rest
      · rw [(List.append_eq_nil_iff.mp nothing).2]
        exact ⟨[], [], rfl, by simp, Or.inl rfl⟩

theorem EndsInMark.before_back (ends : EndsInMark (part ++ back)) : EndsInMark part := by
  induction part with
  | nil => exact ⟨[], [], rfl, by simp, Or.inl rfl⟩
  | cons first part ih =>
      rcases endsInMark_cons.mp ends with ⟨plain, rest⟩ | ⟨nothing, isMark⟩
      · exact endsInMark_cons.mpr (Or.inl ⟨plain, ih rest⟩)
      · exact endsInMark_cons.mpr (Or.inr ⟨(List.append_eq_nil_iff.mp nothing).1, isMark⟩)

theorem EndsInMark.eq_nil_of_mark (ends : EndsInMark (front ++ token :: back))
    (isMark : token.isBlockMark = true) : back = [] := by
  rcases endsInMark_cons.mp ends.behind_front with ⟨plain, -⟩ | ⟨nothing, -⟩
  · rw [isMark] at plain
    cases plain
  · exact nothing

/-- Without its marks the line is what stands before the last of them. -/
theorem EndsInMark.filter_eq (ends : EndsInMark tokens) : ∃ ending,
    tokens = tokens.filter (!isPunctuationDropped ·) ++ ending := by
  obtain ⟨core, ending, rfl, unmarked, isEnding⟩ := ends
  have keeps : core.filter (!isPunctuationDropped ·) = core :=
    List.filter_eq_self.mpr fun token member => by
      rw [show isPunctuationDropped token = token.isBlockMark from rfl, unmarked token member]
      rfl
  have drops : ending.filter (!isPunctuationDropped ·) = [] := by
    rcases isEnding with rfl | ⟨mark, rfl, isMark | isMark⟩
    · rfl
    · rw [eq_of_isPunct isMark]
      rfl
    · rw [eq_of_isPunct isMark]
      rfl
  exact ⟨ending, by rw [List.filter_append, keeps, drops, List.append_nil]⟩

/-- Behind a token that is no mark a line goes on without the brace that may start it. -/
theorem IsBlockLine.behind {middle : List Token} {last : Token} (isLine : IsBlockLine tokens)
    (split : tokens = front ++ (middle ++ last :: back)) (start : front = [] → middle = [])
    (plain : last.isBlockMark = false) :
    (∀ token ∈ middle, token.isBlockMark = false) ∧ EndsInMark back := by
  obtain ⟨closer, body, rfl, isCloser, ends⟩ := isLine
  have onward : ∃ before, body = before ++ (middle ++ last :: back) := by
    rcases isCloser with rfl | rfl
    · exact ⟨front, split⟩
    · cases front with
      | nil =>
          rw [start rfl] at split
          rw [← (List.cons.inj split).1] at plain
          cases plain
      | cons first others => exact ⟨others, (List.cons.inj split).2⟩
  obtain ⟨before, rfl⟩ := onward
  obtain ⟨unmarked, backEnds⟩ := ends.behind_front.behind plain
  exact ⟨(List.forall_mem_append.mp unmarked).1, backEnds⟩

theorem IsLoose.endsBefore_colon (loose : IsLoose token) (other : token ≠ ⟨.punct, [':']⟩) :
    token.endsBefore ':' = true := by
  rcases loose with whole | level
  · cases whole with
    | @mark c single =>
        have noColon : c ≠ ':' := fun same => other (by rw [same])
        have noPair : isOperatorPair c ':' = false := by
          unfold isOperatorPair
          split <;> simp_all
        simp [Token.endsBefore, noPair]
    | _ => rfl
  · obtain ⟨c, rfl, -⟩ := level.exists_digit
    rfl

/-- A condition with the colon behind it, as tokens. -/
theorem IsQuiet.exists_separator (quiet : IsQuiet tokens) : ∃ kept separator, IsSeparator separator ∧
    render tokens ++ [':'] = render (kept ++ [separator]) ∧ IsQuiet kept ∧
    (∀ last ∈ kept.getLast?, Adjoins last separator) ∧ ∃ dropped, tokens = kept ++ dropped ∧
      ∀ token ∈ dropped, IsFlat token := by
  have plainly (apart : ∀ last ∈ tokens.getLast?, last ≠ ⟨.punct, [':']⟩) : ∃ kept separator,
      IsSeparator separator ∧ render tokens ++ [':'] = render (kept ++ [separator]) ∧ IsQuiet kept ∧
      (∀ last ∈ kept.getLast?, Adjoins last separator) ∧ ∃ dropped, tokens = kept ++ dropped ∧
        ∀ token ∈ dropped, IsFlat token := by
    refine ⟨tokens, ⟨.punct, [':']⟩, Or.inl rfl, by simp, quiet, fun last isLast => Or.inl fun c first => ?_,
      [], by simp, by simp⟩
    rw [← Option.some.inj first]
    exact (quiet.cut.whole last (List.mem_of_getLast? isLast)).endsBefore_colon (apart last isLast)
  rcases List.eq_nil_or_concat' tokens with rfl | ⟨others, last, rfl⟩
  · exact plainly (by simp)
  by_cases colon : last = ⟨.punct, [':']⟩
  · subst colon
    refine ⟨others, ⟨.punct, [':', ':']⟩, Or.inr rfl, by simp, @IsQuiet.part _ [] others _ quiet rfl rfl,
      fun last isLast => Or.inl fun c first => ?_, [⟨.punct, [':']⟩], rfl, ?_⟩
    · have adjoins := (List.isChain_append.mp quiet.cut.chain).2.2 last isLast _ rfl
      exact adjoins.resolve_right (fun both => absurd both.2 (by decide)) c first
    · rintro token member
      rw [List.mem_singleton.mp member]
      exact ⟨rfl, rfl⟩
  · exact plainly (by simpa using colon)

/-- A blank can stand before a token that a trimmed text starts with. -/
theorem adjoins_tight {rest : List Token} (loose : IsLoose token) (tight : Text.IsTight (render (token :: rest))) :
    Adjoins blankToken token := by
  refine Or.inl fun c first => ?_
  have visible := tight.first c (by rw [head?_render_cons loose]; exact first)
  have noSpace : isSpaceChar c = false := by
    by_contra space
    rw [isBlank_of_isSpaceChar (Bool.not_eq_false _ ▸ space)] at visible
    cases visible
  simp [Token.endsBefore, blankToken, noSpace]

/-- What follows a header, with the blank before it. -/
theorem IsQuiet.exists_trailing (quiet : IsQuiet tokens) (ends : EndsInMark tokens) : ∃ trailing,
    (if (Text.trim (render (dropOpeningBrace tokens))).isEmpty then []
      else ' ' :: Text.trim (render (dropOpeningBrace tokens))) = render trailing ∧
    IsQuiet trailing ∧ EndsInMark trailing ∧ ∀ next ∈ trailing.head?, next = blankToken := by
  obtain ⟨restQuiet, restEnds⟩ : IsQuiet (dropOpeningBrace tokens) ∧ EndsInMark (dropOpeningBrace tokens) := by
    unfold dropOpeningBrace
    obtain ⟨lead, split, -⟩ := exists_trivia_append tokens
    split
    · exact ⟨quiet, ends⟩
    · rename_i token rest dropped
      rw [dropped] at split
      split
      · rename_i isBrace
        rw [split] at ends
        rw [ends.eq_nil_of_mark (by rw [Token.isBlockMark, isBrace, Bool.or_true]; rfl)]
        exact ⟨isQuiet_nil, ⟨[], [], rfl, by simp, Or.inl rfl⟩⟩
      · exact ⟨quiet, ends⟩
  obtain ⟨lead, part, trail, split, -, -, trimmed, partQuiet, tight⟩ := restQuiet.exists_trim
  rw [split] at restEnds
  have partEnds : EndsInMark part := restEnds.behind_front.before_back
  rw [trimmed]
  cases part with
  | nil => exact ⟨[], rfl, isQuiet_nil, partEnds, by simp⟩
  | cons first more =>
      have visible := tight (List.cons_ne_nil first more)
      refine ⟨blankToken :: first :: more, ?_, partQuiet.cons (Or.inl (.space rfl rfl)) (by rintro form ⟨⟩)
        fun next isNext => ?_, endsInMark_cons.mpr (Or.inl ⟨rfl, partEnds⟩), by simp⟩
      · rw [if_neg (by simpa using visible.notEmpty)]
        rfl
      · rw [← Option.some.inj isNext]
        exact adjoins_tight (partQuiet.cut.whole first List.mem_cons_self) visible

theorem IsSeparator.isQuiet_cons (separator : IsSeparator token) (quiet : IsQuiet tokens)
    (blank : ∀ next ∈ tokens.head?, next = blankToken) : IsQuiet (token :: tokens) := by
  have loose : IsLoose token := by
    rcases separator with rfl | rfl
    · exact Or.inl (.mark rfl)
    · exact Or.inl (.pair rfl)
  refine quiet.cons loose (fun form => ?_) fun next isNext => ?_
  · rcases separator with rfl | rfl <;> rintro ⟨⟩
  · rw [blank next isNext]
    refine adjoins_blank loose ?_
    rcases separator with rfl | rfl <;> rfl

/-- The keyword of a header can stand before a blank or a colon. -/
theorem isQuiet_keyword {keyword : Text} (isKeyword : keyword ∈ ["if", "elif", "while", "else"].map String.toList)
    (quiet : IsQuiet tokens) (apart : ∀ next ∈ tokens.head?, next = blankToken ∨ next = ⟨.punct, [':']⟩) :
    IsQuiet (⟨.ident, keyword⟩ :: tokens) := by
  have checked : (["if", "elif", "while", "else"].map String.toList).all (fun text => text.head?.any isWordStart &&
      text.all isWordChar && callForms.all fun form => text != form.head.toList) = true := by
    decide
  have plain := List.all_eq_true.mp checked keyword isKeyword
  rw [Bool.and_eq_true, Bool.and_eq_true] at plain
  have loose : IsLoose ⟨.ident, keyword⟩ := by
    obtain ⟨c, rest, rfl⟩ : ∃ c rest, keyword = c :: rest := by
      cases keyword with
      | nil => cases plain.1.1
      | cons c rest => exact ⟨c, rest, rfl⟩
    have words := plain.1.2
    rw [List.all_cons, Bool.and_eq_true] at words
    exact Or.inl (.word plain.1.1 words.2)
  refine quiet.cons loose (fun form same => ?_) fun next isNext => ?_
  · have differs := List.all_eq_true.mp plain.2 form (mem_callForms form)
    exact bne_iff_ne.mp differs (Token.mk.inj same).2
  · rcases apart next isNext with rfl | rfl
    · exact adjoins_blank loose rfl
    · exact Or.inl fun c first => Option.some.inj first ▸ rfl

/-- A condition, the colon behind it and what follows are put together from quiet tokens. -/
theorem IsQuiet.exists_condition {inner trailing : List Token} (quiet : IsQuiet inner)
    (closed : IsClosed "(" ")" inner) (unmarked : ∀ token ∈ inner, token.isBlockMark = false)
    (trailingQuiet : IsQuiet trailing) (trailingEnds : EndsInMark trailing)
    (trailingBlank : ∀ next ∈ trailing.head?, next = blankToken) :
    ∃ made, ' ' :: (Text.trim (render inner) ++ ':' :: render trailing) = render made ∧ IsQuiet made ∧
      EndsInMark made ∧ ∀ next ∈ made.head?, next = blankToken := by
  obtain ⟨lead, part, trail, rfl, leadBlank, trailBlank, trimmed, partQuiet, tight⟩ := quiet.exists_trim
  obtain ⟨kept, separator, isSeparator, separated, keptQuiet, adjoins, dropped, rfl, droppedFlat⟩ :=
    partQuiet.exists_separator
  have keptClosed : IsClosed "(" ")" kept := by
    have partClosed := (closed.of_flat_append fun token member => (flat_of_blank leadBlank token member).1)
      |>.of_append_flat fun token member => (flat_of_blank trailBlank token member).1
    exact partClosed.of_append_flat droppedFlat
  have stops : StopsCall (separator :: trailing) := by
    rcases isSeparator with rfl | rfl <;> exact ⟨_, _, rfl, rfl, by decide⟩
  have conditionQuiet : IsQuiet (kept ++ separator :: trailing) :=
    keptQuiet.append (isSeparator.isQuiet_cons trailingQuiet trailingBlank) keptClosed stops
      fun last isLast next isNext => Option.some.inj isNext ▸ adjoins last isLast
  have blankQuiet : IsQuiet (blankToken :: (kept ++ separator :: trailing)) := by
    refine conditionQuiet.cons (Or.inl (.space rfl rfl)) (by rintro form ⟨⟩) fun next isNext => ?_
    cases kept with
    | nil =>
        rw [← Option.some.inj isNext]
        rcases isSeparator with rfl | rfl <;> exact Or.inl fun c first => Option.some.inj first ▸ rfl
    | cons first more =>
        rw [← Option.some.inj isNext]
        exact adjoins_tight (keptQuiet.cut.whole first List.mem_cons_self) (tight (List.cons_ne_nil _ _))
  refine ⟨blankToken :: (kept ++ separator :: trailing), ?_, blankQuiet, ?_, by simp⟩
  · have spelled : Text.trim (render (lead ++ (kept ++ dropped ++ trail))) ++ [':'] =
        render (kept ++ [separator]) := by
      rw [trimmed, separated]
    have whole : render (kept ++ separator :: trailing) = render (kept ++ [separator]) ++ render trailing := by
      simp
    rw [render_cons, whole, ← spelled]
    simp [blankToken]
  · have frontUnmarked : ∀ token ∈ blankToken :: (kept ++ [separator]), token.isBlockMark = false := by
      refine List.forall_mem_cons.mpr ⟨rfl, List.forall_mem_append.mpr ⟨fun token member => ?_, ?_⟩⟩
      · exact unmarked token (by simp [member])
      · rcases isSeparator with rfl | rfl <;> simp [Token.isBlockMark, Token.isPunct]
    simpa using trailingEnds.prepend frontUnmarked

/-- A header in the script's form is put together from quiet tokens. -/
theorem Header.IsReadFrom.exists_tokens {header : Header} (isRead : header.IsReadFrom tokens)
    (quiet : IsQuiet tokens) (isLine : IsBlockLine tokens) :
    ∃ made, header.render = Sketch.render made ∧ IsQuiet made ∧ EndsInMark made := by
  obtain ⟨isKeyword, parts⟩ := isRead
  rcases parts with ⟨front, inner, -, closed, split, condition⟩ | ⟨front, word, -, ident, split, condition⟩
  · have behindOpening : (front ++ [openParen]).foldl (dotAfter isDot) false = false := by
      rw [List.foldl_append]
      rfl
    have behindGroup : (front ++ openParen :: (inner ++ [closeParen])).foldl (dotAfter isDot) false = false := by
      rw [← List.cons_append, ← List.append_assoc, List.foldl_append]
      rfl
    have innerQuiet : IsQuiet inner :=
      @IsQuiet.part _ (front ++ [openParen]) inner (closeParen :: header.after) quiet (by simp [split])
        behindOpening
    have afterQuiet : IsQuiet header.after :=
      @IsQuiet.part _ (front ++ openParen :: (inner ++ [closeParen])) header.after [] quiet (by simp [split])
        behindGroup
    obtain ⟨unmarked, afterEnds⟩ := @IsBlockLine.behind _ (front ++ [openParen]) header.after inner closeParen
      isLine (by simp [split]) (by simp) rfl
    obtain ⟨trailing, trailingEq, trailingQuiet, trailingEnds, trailingBlank⟩ :=
      afterQuiet.exists_trailing afterEnds
    obtain ⟨made, madeEq, madeQuiet, madeEnds, madeBlank⟩ :=
      innerQuiet.exists_condition closed unmarked trailingQuiet trailingEnds trailingBlank
    refine ⟨⟨.ident, header.keyword⟩ :: made, ?_, isQuiet_keyword isKeyword madeQuiet
      fun next isNext => Or.inl (madeBlank next isNext), endsInMark_cons.mpr (Or.inl ⟨rfl, madeEnds⟩)⟩
    rw [Header.render, condition, trailingEq, render_cons, ← madeEq]
    simp
  · have behindWord : (front ++ [word]).foldl (dotAfter isDot) false = false := by
      simp [List.foldl_append, dotAfter, isDot, Token.isPunct, Token.isTrivia, ident]
    have afterQuiet : IsQuiet header.after :=
      @IsQuiet.part _ (front ++ [word]) header.after [] quiet (by simp [split]) behindWord
    obtain ⟨-, afterEnds⟩ := @IsBlockLine.behind _ front header.after [] word
      isLine (by simp [split]) (fun _ => rfl) (by simp [Token.isBlockMark, Token.isPunct, ident])
    obtain ⟨trailing, trailingEq, trailingQuiet, trailingEnds, trailingBlank⟩ :=
      afterQuiet.exists_trailing afterEnds
    have colonQuiet := IsSeparator.isQuiet_cons (Or.inl rfl) trailingQuiet trailingBlank
    refine ⟨⟨.ident, header.keyword⟩ :: ⟨.punct, [':']⟩ :: trailing, ?_, isQuiet_keyword isKeyword colonQuiet
      fun next isNext => Or.inr (Option.some.inj isNext).symm,
      endsInMark_cons.mpr (Or.inl ⟨rfl, endsInMark_cons.mpr (Or.inl ⟨rfl, trailingEnds⟩)⟩)⟩
    rw [Header.render, condition, trailingEq, render_cons, render_cons]
    simp

end

end Breadboard.Script
