import Breadboard.Proofs.Sketch.Uncommented
import Breadboard.Proofs.Text.LineEnding

set_option autoImplicit false

namespace Breadboard.Sketch

theorem unbroken_of_scan {c : Char} {rest : Text} (noSpace : (scan c rest).1 ≠ .space)
    (noComment : (scan c rest).1 ≠ .comment) (noLiteral : (scan c rest).1 ≠ .literal) :
    '\n' ∉ c :: rest.take (scan c rest).2 := by
  have run {p : Char → Bool} (start : p c = true) (outside : p '\n' = false) (all : Char → Bool)
      (runs : all '\n' = false) : '\n' ∉ c :: rest.take (runLength all rest) := by
    rw [List.mem_cons, not_or]
    refine ⟨(ne_of_holds start outside).symm, fun member => ?_⟩
    have holds := List.all_eq_true.mp (all_take_runLength all rest) '\n' member
    rw [runs] at holds
    cases holds
  rcases scan_cases c rest with ⟨-, eq⟩ | ⟨-, eq⟩ | ⟨start, eq⟩ | ⟨start, eq⟩ | ⟨-, comment, -⟩ |
    ⟨next, more, rfl, operator, eq⟩ | ⟨single, -, eq⟩
  case inr.inr.inr.inr.inl => exact absurd comment noComment
  all_goals rw [eq] at noSpace noLiteral ⊢
  · exact absurd rfl noSpace
  · exact absurd rfl noLiteral
  · exact run start rfl isWordChar rfl
  · rcases start with digit | ⟨rfl, -⟩
    · exact run digit rfl isNumberChar rfl
    · exact @run (· == '.') rfl rfl isNumberChar rfl
  · have plain : c ≠ '\n' ∧ next ≠ '\n' := by
      constructor
      · rintro rfl
        cases operator
      · rintro rfl
        rw [isOperatorPair_eq_false (by decide)] at operator
        cases operator
    simp [plain.1.symm, plain.2.symm]
  · have plain : c ≠ '\n' := ne_of_holds single rfl
    simp [plain.symm]

/-- Only blanks, comments and literals hold line breaks. -/
theorem unbroken_of_mem_tokenize {text : Text} {token : Token} (member : token ∈ tokenize text)
    (noSpace : token.kind ≠ .space) (noComment : token.kind ≠ .comment)
    (noLiteral : token.kind ≠ .literal) : '\n' ∉ token.text := by
  obtain ⟨c, rest, rfl⟩ := exists_scan_of_mem_tokenize member
  exact unbroken_of_scan noSpace noComment noLiteral

/-- A token and what becomes of it where line breaks are spelled in another way. -/
inductive Token.Agrees : Token → Token → Prop where
  | same (token : Token) : Agrees token token
  | blank {text other : Text} (texts : Text.Rebroken text other) : Agrees ⟨.space, text⟩ ⟨.space, other⟩
  | comment {text other : Text} (breaks : other.filter (· == '\n') = text.filter (· == '\n')) :
      Agrees ⟨.comment, text⟩ ⟨.comment, other⟩

section

variable {text other : Text} (rebroken : Text.Rebroken text other)

include rebroken

/-- A run that goes on over line breaks ends at the same place. -/
theorem rebroken_runLength {p : Char → Bool} (back : p '\r' = true) (feed : p '\n' = true) :
    Text.Rebroken (text.take (runLength p text)) (other.take (runLength p other)) ∧
      Text.Rebroken (text.drop (runLength p text)) (other.drop (runLength p other)) := by
  induction rebroken with
  | nil => exact ⟨.nil, .nil⟩
  | @keep c text other more ih =>
      by_cases holds : p c = true
      · rw [runLength_cons holds, runLength_cons holds]
        exact ⟨.keep c ih.1, ih.2⟩
      · have stops (rest : Text) : runLength p (c :: rest) = 0 :=
          runLength_of_head fun next first => by
            obtain rfl := Option.some.inj first
            exact Bool.not_eq_true _ ▸ holds
        rw [stops, stops]
        exact ⟨.nil, .keep c more⟩
  | insert _ ih =>
      rw [runLength_cons feed, runLength_cons back, runLength_cons feed]
      exact ⟨.insert ih.1, ih.2⟩

/-- The rest of a line takes the carriage return that its line feed has got. -/
theorem rebroken_drop_line :
    Text.Rebroken (text.drop (runLength (· != '\n') text)) (other.drop (runLength (· != '\n') other)) := by
  induction rebroken with
  | nil => exact .nil
  | @keep c text other more ih =>
      by_cases isBreak : c = '\n'
      · subst isBreak
        exact .keep '\n' more
      · have goesOn : (c != '\n') = true := by simpa using isBreak
        rw [@runLength_cons (· != '\n') c goesOn, @runLength_cons (· != '\n') c goesOn]
        exact ih
  | insert more => exact .keep '\n' more

/-- A block comment ends at the same mark. -/
theorem rebroken_blockLength :
    Text.Rebroken (text.take (blockLength text)) (other.take (blockLength other)) ∧
      Text.Rebroken (text.drop (blockLength text)) (other.drop (blockLength other)) := by
  induction rebroken with
  | nil => exact ⟨.nil, .nil⟩
  | @keep c text other more ih =>
      by_cases closes : c = '*' ∧ text.head? = some '/'
      · obtain ⟨rfl, slash⟩ := closes
        obtain ⟨behind, rfl⟩ := List.head?_eq_some_iff.mp slash
        cases more with
        | keep _ last => exact ⟨.keep '*' (.keep '/' .nil), last⟩
      · have goesOn : ¬(c = '*' ∧ other.head? = some '/') := by
          rintro ⟨star, slash⟩
          rcases more.head_cases with same | ⟨-, isReturn⟩
          · exact closes ⟨star, same ▸ slash⟩
          · rw [isReturn] at slash
            cases slash
        rw [blockLength_cons_of_ne closes, blockLength_cons_of_ne goesOn]
        exact ⟨.keep c ih.1, ih.2⟩
  | insert _ ih =>
      have goesOn {c : Char} (noStar : c ≠ '*') (rest : Text) :
          blockLength (c :: rest) = blockLength rest + 1 :=
        blockLength_cons_of_ne fun closes => noStar closes.1
      rw [goesOn (by decide), goesOn (by decide), goesOn (by decide)]
      exact ⟨.insert ih.1, ih.2⟩

end

/-- A token without line breaks ends at the same place, whichever way the next one is spelled. -/
theorem scan_take_rebroken {c : Char} {rest after : Text} (noSpace : (scan c rest).1 ≠ .space)
    (noComment : (scan c rest).1 ≠ .comment)
    (rebroken : Text.Rebroken (rest.drop (scan c rest).2) after) :
    scan c (rest.take (scan c rest).2 ++ after) = scan c rest := by
  by_cases literal : (scan c rest).1 = .literal
  · have start := isQuote_of_scan literal
    rw [scan_quote start] at rebroken ⊢
    rw [scan_quote start, literalLength_take_append]
    intro left
    rw [left] at rebroken
    exact rebroken.eq_nil
  · obtain ⟨whole, ends⟩ := isLexeme_scan noComment fun isLiteral => absurd isLiteral literal
    have stop : ∀ next ∈ after.head?,
        Token.endsBefore ⟨(scan c rest).1, c :: rest.take (scan c rest).2⟩ next = true := by
      intro next first
      rcases rebroken.head_cases with same | ⟨-, isReturn⟩
      · exact ends next (same ▸ first)
      · obtain rfl := Option.some.inj (isReturn.symm.trans first)
        exact endsBefore_space whole noSpace rfl
    obtain ⟨d, more, textEq, scanEq⟩ := scan_lexeme whole stop
    obtain ⟨rfl, rfl⟩ := List.cons.inj textEq
    rw [scanEq, List.length_take_of_le (scan_le c rest)]

theorem filter_line (text : Text) :
    ('/' :: ('/' :: text).take (runLength (· != '\n') text + 1)).filter (· == '\n') = [] := by
  have inLine := List.all_eq_true.mp (all_take_runLength (· != '\n') text)
  simpa [List.filter_eq_nil_iff] using inLine

/-- The first token of the text agrees with the first one of the other text, and what is left of the
text is left of the other one. -/
def StartsAlike (c : Char) (rest other : Text) : Prop :=
  ∃ d others, other = d :: others ∧
    Token.Agrees ⟨(scan c rest).1, c :: rest.take (scan c rest).2⟩
      ⟨(scan d others).1, d :: others.take (scan d others).2⟩ ∧
    Text.Rebroken (rest.drop (scan c rest).2) (others.drop (scan d others).2)

section

variable {c : Char} {rest other : Text} (rebroken : Text.Rebroken (c :: rest) other)

include rebroken

theorem startsAlike_space (space : isSpaceChar c = true) : StartsAlike c rest other := by
  rw [StartsAlike, scan_space space]
  cases rebroken with
  | keep _ more =>
      have run := rebroken_runLength more (p := isSpaceChar) rfl rfl
      refine ⟨_, _, rfl, ?_⟩
      rw [scan_space space]
      exact ⟨.blank (.keep c run.1), run.2⟩
  | @insert _ others more =>
      have run := rebroken_runLength more (p := isSpaceChar) rfl rfl
      refine ⟨'\r', '\n' :: others, rfl, ?_⟩
      rw [scan_space rfl, runLength_cons rfl]
      exact ⟨.blank (.insert run.1), run.2⟩

theorem startsAlike_comment (comment : (scan c rest).1 = .comment) : StartsAlike c rest other := by
  obtain ⟨rfl, next, more, rfl, isLine | isBlock⟩ := comment_of_scan comment
  · subst isLine
    have line (text : Text) : scan '/' ('/' :: text) = (.comment, runLength (· != '\n') text + 1) := by
      show (_, runLength _ ('/' :: text)) = _
      rw [runLength_cons (by decide)]
    cases rebroken with
    | keep _ tail =>
        cases tail with
        | @keep _ _ others texts =>
            refine ⟨'/', '/' :: others, rfl, ?_⟩
            rw [line, line]
            exact ⟨.comment ((filter_line others).trans (filter_line more).symm), rebroken_drop_line texts⟩
  · subst isBlock
    have block (text : Text) : scan '/' ('*' :: text) = (.comment, blockLength text + 1) := rfl
    cases rebroken with
    | keep _ tail =>
        cases tail with
        | @keep _ _ others texts =>
            obtain ⟨inside, behind⟩ := rebroken_blockLength texts
            refine ⟨'/', '*' :: others, rfl, ?_⟩
            rw [block, block]
            exact ⟨.comment (Text.Rebroken.keep '/' (.keep '*' inside)).filter_break, behind⟩

/-- A token without line breaks is the same in the other text. -/
theorem startsAlike_unbroken (noSpace : (scan c rest).1 ≠ .space)
    (noComment : (scan c rest).1 ≠ .comment) (unbroken : '\n' ∉ c :: rest.take (scan c rest).2) :
    StartsAlike c rest other := by
  have split : c :: rest = (c :: rest.take (scan c rest).2) ++ rest.drop (scan c rest).2 := by
    rw [List.cons_append, List.take_append_drop]
  rw [split] at rebroken
  obtain ⟨first, after, rfl, isFirst, isAfter⟩ := rebroken.exists_append
  obtain rfl := isFirst.eq_of_unbroken unbroken
  have size := List.length_take_of_le (scan_le c rest)
  refine ⟨c, rest.take (scan c rest).2 ++ after, rfl, ?_⟩
  rw [scan_take_rebroken noSpace noComment isAfter, List.take_left' size, List.drop_left' size]
  exact ⟨.same _, isAfter⟩

theorem startsAlike_rebroken
    (unbroken : (scan c rest).1 = .literal → '\n' ∉ c :: rest.take (scan c rest).2) :
    StartsAlike c rest other := by
  by_cases space : isSpaceChar c = true
  · exact startsAlike_space rebroken space
  by_cases comment : (scan c rest).1 = .comment
  · exact startsAlike_comment rebroken comment
  have noSpace : (scan c rest).1 ≠ .space := fun isSpace => space (isSpaceChar_of_scan isSpace)
  refine startsAlike_unbroken rebroken noSpace comment ?_
  by_cases literal : (scan c rest).1 = .literal
  · exact unbroken literal
  · exact unbroken_of_scan noSpace comment literal

end

/-- The tokens agree, one by one. -/
theorem forall₂_agrees_tokenize {source other : Text} (rebroken : Text.Rebroken source other)
    (unbroken : ∀ token ∈ literals (tokenize source), '\n' ∉ token.text) :
    List.Forall₂ Token.Agrees (tokenize source) (tokenize other) := by
  fun_induction tokenize source generalizing other with
  | case1 =>
      rw [rebroken.eq_nil, tokenize_nil]
      exact .nil
  | case2 c rest kind size scanEq ih =>
      obtain ⟨rfl, rfl⟩ : (scan c rest).1 = kind ∧ (scan c rest).2 = size := by
        rw [scanEq]
        exact ⟨rfl, rfl⟩
      have here : (scan c rest).1 = .literal → '\n' ∉ c :: rest.take (scan c rest).2 := fun literal =>
        unbroken _ (List.mem_filter.mpr ⟨List.mem_cons_self, beq_iff_eq.mpr literal⟩)
      have later : ∀ token ∈ literals (tokenize (rest.drop (scan c rest).2)), '\n' ∉ token.text := by
        intro token member
        obtain ⟨isToken, literal⟩ := List.mem_filter.mp member
        exact unbroken token (List.mem_filter.mpr ⟨List.mem_cons_of_mem _ isToken, literal⟩)
      obtain ⟨d, others, rfl, agrees, left⟩ := startsAlike_rebroken rebroken here
      rw [tokenize_cons d]
      exact .cons agrees (ih left later)

namespace Token

/-- A blank with a line break in it. -/
def isBreak (token : Token) : Bool :=
  token.kind == .space && token.text.contains '\n'

/-- The token, or the line break alone where it is a blank with one in it. -/
def withBareBreak (token : Token) : Token :=
  if token.isBreak then ⟨.space, ['\n']⟩ else token

variable {first second : Token}

theorem Agrees.withoutComment (agrees : Agrees first second) :
    Text.Rebroken first.withoutComment second.withoutComment := by
  cases agrees with
  | same token => exact Text.rebroken_refl _
  | blank texts => exact texts
  | @comment text other breaks =>
      show Text.Rebroken (text.filter _) (other.filter _)
      rw [breaks]
      exact Text.rebroken_refl _

theorem Agrees.withBareBreak (agrees : Agrees first second) (noComment : first.kind ≠ .comment) :
    second.withBareBreak = first.withBareBreak := by
  cases agrees with
  | same token => rfl
  | comment => exact absurd rfl noComment
  | @blank text other texts =>
      by_cases broken : '\n' ∈ text
      · have both : '\n' ∈ other := texts.mem_break broken
        simp [Token.withBareBreak, isBreak, broken, both]
      · rw [texts.eq_of_unbroken broken]

theorem withBareBreak_of_isBreak {token : Token} (breaks : token.isBreak = true) :
    token.withBareBreak = ⟨.space, ['\n']⟩ :=
  if_pos breaks

theorem withBareBreak_of_not_isBreak {token : Token} (stays : ¬token.isBreak = true) :
    token.withBareBreak = token :=
  if_neg stays

theorem withBareBreak_of_kind_ne {token : Token} (noSpace : token.kind ≠ .space) :
    token.withBareBreak = token :=
  withBareBreak_of_not_isBreak (by simp [isBreak, noSpace])

@[simp] theorem kind_withBareBreak (token : Token) : token.withBareBreak.kind = token.kind := by
  rw [Token.withBareBreak]
  split
  · rename_i breaks
    rw [isBreak, Bool.and_eq_true, beq_iff_eq] at breaks
    exact breaks.1.symm
  · rfl

@[simp] theorem isTrivia_withBareBreak (token : Token) : token.withBareBreak.isTrivia = token.isTrivia := by
  rw [isTrivia, isTrivia, kind_withBareBreak]

@[simp] theorem isIdent_withBareBreak (name : String) (token : Token) :
    token.withBareBreak.isIdent name = token.isIdent name := by
  by_cases space : token.kind = .space
  · rw [isIdent, isIdent, kind_withBareBreak, space]
    rfl
  · rw [withBareBreak_of_kind_ne space]

@[simp] theorem isPunct_withBareBreak (mark : String) (token : Token) :
    token.withBareBreak.isPunct mark = token.isPunct mark := by
  by_cases space : token.kind = .space
  · rw [isPunct, isPunct, kind_withBareBreak, space]
    rfl
  · rw [withBareBreak_of_kind_ne space]

end Token

section

variable {source other : Text} (rebroken : Text.Rebroken source other)
  (unbroken : ∀ token ∈ literals (tokenize source), '\n' ∉ token.text)

include rebroken unbroken

theorem rebroken_stripComments : Text.Rebroken (stripComments source) (stripComments other) := by
  have agree := forall₂_agrees_tokenize rebroken unbroken
  unfold stripComments
  generalize tokenize source = tokens at agree
  generalize tokenize other = others at agree
  induction agree with
  | nil => exact .nil
  | cons agrees _ ih => exact agrees.withoutComment.append ih

/-- Without comments the tokens are the same but for blanks with line breaks. -/
theorem map_withBareBreak_stripComments :
    (tokenize (stripComments other)).map Token.withBareBreak =
      (tokenize (stripComments source)).map Token.withBareBreak := by
  have agree := forall₂_agrees_tokenize (rebroken_stripComments rebroken unbroken)
    (by rwa [literals_tokenize_stripComments])
  have noComment := kind_ne_comment_stripComments source
  generalize tokenize (stripComments source) = tokens at agree noComment
  generalize tokenize (stripComments other) = others at agree
  induction agree with
  | nil => rfl
  | cons agrees _ ih =>
      obtain ⟨here, later⟩ := List.forall_mem_cons.mp noComment
      rw [List.map_cons, List.map_cons, agrees.withBareBreak here, ih later]

end

end Breadboard.Sketch
