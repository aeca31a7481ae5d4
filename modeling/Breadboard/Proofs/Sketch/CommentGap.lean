import Breadboard.Proofs.Sketch.Apart
import Breadboard.Proofs.Sketch.Relexing

set_option autoImplicit false

namespace Breadboard.Sketch

/-- The tokens that are no trivia. -/
def significant (tokens : List Token) : List Token :=
  tokens.filter fun token => !token.isTrivia

namespace Token

/-- A comment that leaves nothing of itself. -/
def isErased (token : Token) : Bool :=
  token.kind == .comment && token.text.all (· != '\n')

theorem isTrivia_of_isErased {token : Token} (erased : token.isErased = true) :
    token.isTrivia = true := by
  rw [isErased, Bool.and_eq_true] at erased
  rw [isTrivia, erased.1, Bool.or_true]

theorem withoutComment_of_isErased {token : Token} (erased : token.isErased = true) :
    token.withoutComment = [] := by
  rw [isErased, Bool.and_eq_true, beq_iff_eq, List.all_eq_true] at erased
  rw [withoutComment, if_pos erased.1, List.filter_eq_nil_iff]
  intro c member isBreak
  have := erased.2 c member
  rw [beq_iff_eq.mp isBreak] at this
  cases this

/-- What trivia leaves is blank. -/
theorem withoutComment_blank {c : Char} {rest : Text}
    (trivia : Token.isTrivia ⟨(scan c rest).1, c :: rest.take (scan c rest).2⟩ = true) :
    (Token.withoutComment ⟨(scan c rest).1, c :: rest.take (scan c rest).2⟩).all isSpaceChar =
      true := by
  by_cases comment : (scan c rest).1 = .comment
  · rw [withoutComment, if_pos comment, List.all_filter, List.all_eq_true]
    intro d _
    by_cases isBreak : d = '\n'
    · rw [isBreak]
      rfl
    · rw [Bool.or_eq_true, Bool.not_eq_true', beq_eq_false_iff_ne]
      exact Or.inl isBreak
  · have space : (scan c rest).1 = .space := by
      simpa [isTrivia, comment] using trivia
    have start := isSpaceChar_of_scan space
    rw [withoutComment, if_neg comment, scan_space start, List.all_cons, start, Bool.true_and]
    exact all_take_runLength _ _

theorem withoutComment_of_significant {token : Token} (noTrivia : token.isTrivia = false) :
    token.withoutComment = token.text := by
  rw [isTrivia, Bool.or_eq_false_iff, beq_eq_false_iff_ne, beq_eq_false_iff_ne] at noTrivia
  rw [withoutComment, if_neg noTrivia.2]

theorem withoutComment_ne_nil {token : Token} (notEmpty : token.text ≠ [])
    (kept : token.isErased = false) : token.withoutComment ≠ [] := by
  rw [withoutComment]
  split
  · rename_i comment
    rw [isErased, comment] at kept
    simpa using kept
  · exact notEmpty

/-- Any tokens behind this one that leave nothing of themselves leave it in front of a token that it ends
before. -/
def StandsApart (token : Token) (behind : List Token) : Prop :=
  ∀ erased next after, behind = erased ++ next :: after →
    (∀ comment ∈ erased, comment.isErased = true) → next.isTrivia = false → token.Meets next

theorem standsApart_nil (token : Token) : token.StandsApart [] := by
  intro erased next after split
  simp at split

theorem standsApart_erased (token : Token) {comment : Token} (erased : comment.isErased = true)
    (rest : List Token) : token.StandsApart (comment :: rest) ↔ token.StandsApart rest := by
  constructor
  · rintro apart gone next after rfl allErased
    exact apart (comment :: gone) next after rfl (List.forall_mem_cons.mpr ⟨erased, allErased⟩)
  · intro apart gone next after split allErased noTrivia
    cases gone with
    | nil =>
        obtain ⟨rfl, -⟩ := List.cons.inj split
        rw [isTrivia_of_isErased erased] at noTrivia
        cases noTrivia
    | cons first others =>
        obtain ⟨-, rfl⟩ := List.cons.inj split
        exact apart others next after rfl (List.forall_mem_cons.mp allErased).2 noTrivia

/-- Only the first token that leaves something counts. -/
theorem standsApart_kept (token : Token) {first : Token} (kept : first.isErased = false)
    (rest : List Token) :
    token.StandsApart (first :: rest) ↔ (first.isTrivia = false → token.Meets first) := by
  constructor
  · intro apart
    exact apart [] first rest rfl (by simp)
  · intro meets gone next after split allErased noTrivia
    cases gone with
    | nil =>
        obtain ⟨rfl, -⟩ := List.cons.inj split
        exact meets noTrivia
    | cons other others =>
        obtain ⟨rfl, -⟩ := List.cons.inj split
        rw [allErased first List.mem_cons_self] at kept
        cases kept

end Token

/-- No two meaningful tokens run into each other where nothing is left between them. -/
def KeepsApart (tokens : List Token) : Prop :=
  ∀ before token after, tokens = before ++ token :: after → token.isTrivia = false →
    token.StandsApart after

theorem keepsApart_cons (token : Token) (rest : List Token) :
    KeepsApart (token :: rest) ↔
      (token.isTrivia = false → token.StandsApart rest) ∧ KeepsApart rest := by
  constructor
  · intro apart
    refine ⟨apart [] token rest rfl, ?_⟩
    rintro before other after rfl
    exact apart (token :: before) other after rfl
  · rintro ⟨first, others⟩ before other after split
    cases before with
    | nil =>
        obtain ⟨rfl, rfl⟩ := List.cons.inj split
        exact first
    | cons _ more =>
        obtain ⟨-, rfl⟩ := List.cons.inj split
        exact others more other after rfl

theorem stripComments_nil : stripComments [] = [] := by
  rw [stripComments, tokenize_nil, List.flatMap_nil]

theorem stripComments_cons (c : Char) (rest : Text) :
    stripComments (c :: rest) =
      Token.withoutComment ⟨(scan c rest).1, c :: rest.take (scan c rest).2⟩ ++
        stripComments (rest.drop (scan c rest).2) := by
  rw [stripComments, tokenize_cons, List.flatMap_cons]
  rfl

/-- Blanks are cut off a text that starts with none. -/
theorem tokenize_blank_append {blank : Text} (all : blank.all isSpaceChar = true) {rest : Text}
    (tight : ∀ c ∈ rest.head?, isSpaceChar c = false) :
    tokenize (blank ++ rest) = blankTokens blank ++ tokenize rest := by
  cases blank with
  | nil => rfl
  | cons c more =>
      rw [List.all_cons, Bool.and_eq_true] at all
      have cut : IsCut (blankTokens (c :: more)) :=
        IsCut.cons (.space all.1 all.2) (by simp) isCut_nil
      have joined := @IsCut.tokenize_render_append _ cut rest fun last isLast next first => by
        obtain rfl := Option.some.inj isLast
        simp [Token.endsBefore, tight next first]
      rwa [render_blankTokens] at joined

theorem significant_blankTokens (blank : Text) : significant (blankTokens blank) = [] := by
  rw [blankTokens]
  split <;> rfl

theorem significant_append (first second : List Token) :
    significant (first ++ second) = significant first ++ significant second :=
  List.filter_append ..

/-- Blanks in front of a text do not change its meaningful tokens. -/
theorem significant_tokenize_blank {blank : Text} (all : blank.all isSpaceChar = true)
    (rest : Text) : significant (tokenize (blank ++ rest)) = significant (tokenize rest) := by
  obtain ⟨run, behind, rfl, runAll, tight⟩ := exists_blank_run rest
  have both : (blank ++ run).all isSpaceChar = true := by
    rw [List.all_append, all, runAll, Bool.and_self]
  rw [← List.append_assoc, tokenize_blank_append both tight, tokenize_blank_append runAll tight,
    significant_append, significant_append, significant_blankTokens, significant_blankTokens]

theorem endsBefore_scan {c : Char} {rest : Text} (noComment : (scan c rest).1 ≠ .comment) :
    ∀ next ∈ (rest.drop (scan c rest).2).head?,
      Token.endsBefore ⟨(scan c rest).1, c :: rest.take (scan c rest).2⟩ next = true := by
  by_cases literal : (scan c rest).1 = .literal
  · intro next _
    rw [Token.endsBefore, literal]
  · exact (isLexeme_scan noComment fun isLiteral => absurd isLiteral literal).2

theorem endsBefore_blank_of_scan {c : Char} {rest : Text}
    (noTrivia : Token.isTrivia ⟨(scan c rest).1, c :: rest.take (scan c rest).2⟩ = false)
    {next : Char} (space : isSpaceChar next = true) :
    Token.endsBefore ⟨(scan c rest).1, c :: rest.take (scan c rest).2⟩ next = true := by
  simp only [Token.isTrivia, Bool.or_eq_false_iff, beq_eq_false_iff_ne] at noTrivia
  by_cases literal : (scan c rest).1 = .literal
  · rw [Token.endsBefore, literal]
  · have whole := (isLexeme_scan noTrivia.2 fun isLiteral => absurd isLiteral literal).1
    exact endsBefore_space whole noTrivia.1 space

/-- Whether the token stands apart is seen at the first character that the text behind it keeps. -/
theorem standsApart_tokenize_iff {token : Token}
    (blank : ∀ next, isSpaceChar next = true → token.endsBefore next = true) (text : Text) :
    token.StandsApart (tokenize text) ↔
      ∀ next ∈ (stripComments text).head?, token.endsBefore next = true := by
  fun_induction tokenize text with
  | case1 => simp [Token.standsApart_nil, stripComments_nil]
  | case2 c rest kind size scanEq ih =>
      have stripped := stripComments_cons c rest
      have left := @Token.withoutComment_blank c rest
      rw [scanEq] at stripped left
      rw [stripped]
      by_cases erased : Token.isErased ⟨kind, c :: rest.take size⟩ = true
      · rw [Token.standsApart_erased token erased, ih, Token.withoutComment_of_isErased erased,
          List.nil_append]
      · rw [Bool.not_eq_true] at erased
        have notEmpty := Token.withoutComment_ne_nil (List.cons_ne_nil _ _) erased
        rw [Token.standsApart_kept token erased, List.head?_append_of_ne_nil _ notEmpty]
        cases trivia : Token.isTrivia ⟨kind, c :: rest.take size⟩ with
        | true =>
            refine iff_of_true (fun isFalse => by cases isFalse) fun next first => blank next ?_
            exact List.all_eq_true.mp (left trivia) next (List.mem_of_mem_head? first)
        | false =>
            rw [Token.withoutComment_of_significant trivia]
            exact ⟨fun meets => meets rfl, fun ends _ => ends⟩

/-- Where a token ends before a text, it may run into what the text keeps only if a comment came
first. -/
theorem endsBefore_slash_or_kept {token : Token} {text : Text}
    (ends : ∀ next ∈ text.head?, token.endsBefore next = true) :
    token.endsBefore '/' = true ∨
      ∀ next ∈ (stripComments text).head?, token.endsBefore next = true := by
  cases text with
  | nil => exact Or.inr (by simp [stripComments_nil])
  | cons c rest =>
      by_cases comment : (scan c rest).1 = .comment
      · obtain ⟨rfl, -⟩ := comment_of_scan comment
        exact Or.inl (ends '/' rfl)
      · rw [stripComments_cons, Token.withoutComment, if_neg comment]
        exact Or.inr ends

/-- A token is cut off again in front of any text that it ends before. -/
theorem scan_take_append_of_endsBefore {c : Char} {rest after : Text}
    (noComment : (scan c rest).1 ≠ .comment)
    (stop : ∀ next ∈ after.head?,
      Token.endsBefore ⟨(scan c rest).1, c :: rest.take (scan c rest).2⟩ next = true)
    (atEnd : rest.drop (scan c rest).2 = [] → after = []) :
    scan c (rest.take (scan c rest).2 ++ after) = scan c rest := by
  rcases scan_cases c rest with ⟨space, eq⟩ | ⟨quote, eq⟩ | ⟨word, eq⟩ | ⟨number, eq⟩ |
    ⟨-, comment, -⟩ | ⟨next, more, rfl, operator, eq⟩ | ⟨single, -, eq⟩
  case inr.inr.inr.inr.inl => exact absurd comment noComment
  all_goals rw [eq] at stop atEnd ⊢
  · rw [scan_space space, runLength_take_append]
    exact fun next first => by simpa [Token.endsBefore] using stop next first
  · rw [scan_quote quote, literalLength_take_append atEnd]
  · rw [scan_word word, runLength_take_append]
    exact fun next first => by simpa [Token.endsBefore] using stop next first
  · rw [scan_number (startsNumber_take number after), runLength_take_append]
    exact fun next first => by simpa [Token.endsBefore] using stop next first
  · exact scan_pair operator after
  · exact scan_mark single stop

theorem lt_runLength_take_append {p : Char → Bool} {next : Char} (holds : p next = true)
    (text more : Text) :
    runLength p text < runLength p (text.take (runLength p text) ++ next :: more) := by
  rw [runLength_append_of_all (all_take_runLength p text), runLength_cons holds,
    List.length_take_of_le (runLength_le p text)]
  omega

/-- A meaningful token is cut longer in front of a character that it does not end before, unless a comment
starts there. -/
theorem scan_longer {c : Char} {rest : Text}
    (noTrivia : Token.isTrivia ⟨(scan c rest).1, c :: rest.take (scan c rest).2⟩ = false)
    (slash : Token.endsBefore ⟨(scan c rest).1, c :: rest.take (scan c rest).2⟩ '/' = true)
    {next : Char}
    (runs : Token.endsBefore ⟨(scan c rest).1, c :: rest.take (scan c rest).2⟩ next = false)
    (more : Text) :
    (scan c rest).2 < (scan c (rest.take (scan c rest).2 ++ next :: more)).2 ∧
      Token.isTrivia ⟨(scan c (rest.take (scan c rest).2 ++ next :: more)).1, []⟩ = false := by
  rcases scan_cases c rest with ⟨-, eq⟩ | ⟨-, eq⟩ | ⟨word, eq⟩ | ⟨number, eq⟩ |
    ⟨-, comment, -⟩ | ⟨_, _, rfl, -, eq⟩ | ⟨single, -, eq⟩
  case inr.inr.inr.inr.inl => simp [Token.isTrivia, comment] at noTrivia
  all_goals rw [eq] at noTrivia slash runs ⊢
  · cases noTrivia
  · cases runs
  · rw [scan_word word]
    exact ⟨lt_runLength_take_append (by simpa [Token.endsBefore] using runs) rest more, rfl⟩
  · rw [scan_number (startsNumber_take number (next :: more))]
    exact ⟨lt_runLength_take_append (by simpa [Token.endsBefore] using runs) rest more, rfl⟩
  · cases runs
  · have notSlash : c ≠ '/' := by
      rintro rfl
      cases slash
    rw [List.take_zero, List.nil_append]
    by_cases operator : isOperatorPair c next = true
    · rw [scan_pair operator]
      exact ⟨Nat.one_pos, rfl⟩
    · have number : c = '.' ∧ next.isDigit = true := by
        simpa [Token.endsBefore, operator, notSlash] using runs
      rw [scan_number (Or.inr number), runLength_cons (by simp [isNumberChar, Char.isAlphanum, number.2])]
      exact ⟨Nat.succ_pos _, rfl⟩

theorem significant_cons_of_trivia {token : Token} (trivia : token.isTrivia = true)
    (rest : List Token) : significant (token :: rest) = significant rest := by
  rw [significant, List.filter_cons_of_neg (by simp [trivia])]
  rfl

theorem significant_cons {token : Token} (noTrivia : token.isTrivia = false)
    (rest : List Token) : significant (token :: rest) = token :: significant rest := by
  rw [significant, List.filter_cons_of_pos (by simp [noTrivia])]
  rfl

section

variable {c : Char} {rest : Text}
  (noTrivia : Token.isTrivia ⟨(scan c rest).1, c :: rest.take (scan c rest).2⟩ = false)

include noTrivia

/-- A meaningful token that ends before what is kept behind it is cut again. -/
theorem tokenize_stripComments_of_ends
    (ends : ∀ next ∈ (stripComments (rest.drop (scan c rest).2)).head?,
      Token.endsBefore ⟨(scan c rest).1, c :: rest.take (scan c rest).2⟩ next = true) :
    tokenize (stripComments (c :: rest)) =
      ⟨(scan c rest).1, c :: rest.take (scan c rest).2⟩ ::
        tokenize (stripComments (rest.drop (scan c rest).2)) := by
  have noComment : (scan c rest).1 ≠ .comment := by
    intro comment
    simp [Token.isTrivia, comment] at noTrivia
  have size : (rest.take (scan c rest).2).length = (scan c rest).2 :=
    List.length_take_of_le (scan_le c rest)
  have again := scan_take_append_of_endsBefore noComment ends fun left => by
    rw [left, stripComments_nil]
  rw [stripComments_cons, Token.withoutComment_of_significant noTrivia, List.cons_append,
    tokenize_cons, again, List.take_left' size, List.drop_left' size]

/-- A meaningful token that runs into what is kept behind it is lost. -/
theorem significant_stripComments_of_runs {next : Char}
    (first : (stripComments (rest.drop (scan c rest).2)).head? = some next)
    (runs : Token.endsBefore ⟨(scan c rest).1, c :: rest.take (scan c rest).2⟩ next = false)
    (others : List Token) :
    significant (tokenize (stripComments (c :: rest))) ≠
      ⟨(scan c rest).1, c :: rest.take (scan c rest).2⟩ :: others := by
  have noComment : (scan c rest).1 ≠ .comment := by
    intro comment
    simp [Token.isTrivia, comment] at noTrivia
  obtain ⟨more, kept⟩ := List.head?_eq_some_iff.mp first
  have slash : Token.endsBefore ⟨(scan c rest).1, c :: rest.take (scan c rest).2⟩ '/' = true := by
    refine (endsBefore_slash_or_kept (endsBefore_scan noComment)).resolve_right fun ends => ?_
    rw [ends next first] at runs
    cases runs
  obtain ⟨longer, stillNoTrivia⟩ := scan_longer noTrivia slash runs more
  rw [stripComments_cons, Token.withoutComment_of_significant noTrivia, List.cons_append, kept,
    tokenize_cons, significant_cons (by exact stillNoTrivia)]
  intro same
  have texts := congrArg (fun token : Token => token.text.length) (List.head_eq_of_cons_eq same)
  simp only [List.length_cons, List.length_take_of_le (scan_le _ _)] at texts
  omega

end

/-- A text keeps its meaningful tokens without its comments just in case no two of them run into each
other where nothing is left between them. -/
theorem significant_tokenize_stripComments_iff (source : Text) :
    significant (tokenize (stripComments source)) = significant (tokenize source) ↔
      KeepsApart (tokenize source) := by
  fun_induction tokenize source with
  | case1 =>
      refine iff_of_true (by rw [stripComments_nil, tokenize_nil]) fun before token after split => ?_
      simp at split
  | case2 c rest kind size scanEq ih =>
      obtain ⟨rfl, rfl⟩ : (scan c rest).1 = kind ∧ (scan c rest).2 = size := by
        rw [scanEq]
        exact ⟨rfl, rfl⟩
      rw [keepsApart_cons]
      cases trivia : Token.isTrivia ⟨(scan c rest).1, c :: rest.take (scan c rest).2⟩ with
      | true =>
          rw [stripComments_cons, significant_tokenize_blank (Token.withoutComment_blank trivia),
            significant_cons_of_trivia trivia, ih]
          simp
      | false =>
          have atHead := standsApart_tokenize_iff
            (fun _ => endsBefore_blank_of_scan trivia) (rest.drop (scan c rest).2)
          rw [atHead, significant_cons trivia, ← ih]
          by_cases ends : ∀ next ∈ (stripComments (rest.drop (scan c rest).2)).head?,
              Token.endsBefore ⟨(scan c rest).1, c :: rest.take (scan c rest).2⟩ next = true
          · rw [tokenize_stripComments_of_ends trivia ends, significant_cons trivia]
            refine ⟨fun same => ⟨fun _ => ends, List.tail_eq_of_cons_eq same⟩, fun both => ?_⟩
            rw [both.2]
          · simp only [Option.mem_def, not_forall] at ends
            obtain ⟨next, first, runs⟩ := ends
            have lost := significant_stripComments_of_runs trivia first
              (Bool.eq_false_iff.mpr runs)
            refine iff_of_false (lost _) fun both => ?_
            exact runs (both.1 rfl next first)

/-- A sketch whose two first words have only a comment between them. -/
def parted : Text :=
  "void/* main */loop() { delay(5); }".toList

/-- Without the comment the two words are one. -/
theorem parted_words_fuse :
    (significant (tokenize parted)).map (String.ofList ∘ Token.text) =
        ["void", "loop", "(", ")", "\x7b", "delay", "(", "5", ")", ";", "\x7d"] ∧
      (significant (tokenize (stripComments parted))).map (String.ofList ∘ Token.text) =
        ["voidloop", "(", ")", "\x7b", "delay", "(", "5", ")", ";", "\x7d"] ∧
      significant (tokenize (stripComments parted)) ≠ significant (tokenize parted) := by
  have words : (significant (tokenize parted)).map (String.ofList ∘ Token.text) =
      ["void", "loop", "(", ")", "\x7b", "delay", "(", "5", ")", ";", "\x7d"] := by cbv
  have fused : (significant (tokenize (stripComments parted))).map (String.ofList ∘ Token.text) =
      ["voidloop", "(", ")", "\x7b", "delay", "(", "5", ")", ";", "\x7d"] := by cbv
  refine ⟨words, fused, fun same => ?_⟩
  rw [same, words] at fused
  exact absurd fused (by decide)

end Breadboard.Sketch
