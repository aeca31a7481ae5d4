import Breadboard.Proofs.Sketch.CommentGap
import Breadboard.Proofs.Sketch.MarkFree

set_option autoImplicit false

/- What a text without its comments holds. Its tokens may be cut in other places than before, but no comment
starts between them, and its literals are those of the text with comments. -/
namespace Breadboard.Sketch

/-- The string and character literals among the tokens. -/
def literals (tokens : List Token) : List Token :=
  tokens.filter (·.kind == .literal)

theorem literals_cons_literal {token : Token} (literal : token.kind = .literal)
    (rest : List Token) : literals (token :: rest) = token :: literals rest := by
  rw [literals, List.filter_cons_of_pos (by simp [literal])]
  rfl

theorem literals_cons_other {token : Token} (other : token.kind ≠ .literal) (rest : List Token) :
    literals (token :: rest) = literals rest := by
  rw [literals, List.filter_cons_of_neg (by simp [other])]
  rfl

/-- Read character by character, the text has these literals, and no comment starts outside them.
`afterSlash` tells whether a slash stands before the text. -/
inductive Uncommented : Bool → Text → List Token → Prop where
  | nil (afterSlash : Bool) : Uncommented afterSlash [] []
  | code {afterSlash : Bool} {c : Char} {rest : Text} {found : List Token}
      (noQuote : isQuote c = false) (noComment : afterSlash = true → c ≠ '/' ∧ c ≠ '*')
      (more : Uncommented (c == '/') rest found) : Uncommented afterSlash (c :: rest) found
  | literal {afterSlash : Bool} {quote : Char} {rest : Text} {found : List Token}
      (start : isQuote quote = true)
      (more : Uncommented false (rest.drop (literalLength quote rest)) found) :
      Uncommented afterSlash (quote :: rest)
        (⟨.literal, quote :: rest.take (literalLength quote rest)⟩ :: found)

namespace Uncommented

variable {afterSlash : Bool} {text rest : Text} {found : List Token}

theorem plain_append {front : Text} (plain : front.all isPlainChar = true)
    (more : Uncommented (front.isEmpty && afterSlash) rest found) :
    Uncommented afterSlash (front ++ rest) found := by
  induction front generalizing afterSlash with
  | nil => exact more
  | cons c others ih =>
      rw [List.all_cons, Bool.and_eq_true] at plain
      obtain ⟨⟨⟨noQuote, -⟩, noSlash⟩, noStar⟩ := by simpa [isPlainChar] using plain.1
      refine .code noQuote (fun _ => ⟨noSlash, noStar⟩) (ih plain.2 ?_)
      rwa [beq_eq_false_iff_ne.mpr noSlash, Bool.and_false]

theorem of_plain_append {front : Text} (plain : front.all isPlainChar = true)
    (read : Uncommented afterSlash (front ++ rest) found) :
    ∃ slash, Uncommented slash rest found := by
  induction front generalizing afterSlash with
  | nil => exact ⟨afterSlash, read⟩
  | cons c others ih =>
      rw [List.all_cons, Bool.and_eq_true] at plain
      cases read with
      | code _ _ more => exact ih plain.2 more
      | literal start _ =>
          rw [isPlainChar, start] at plain
          cases plain.1

end Uncommented

/-- A token that is neither a comment nor a literal has no quote, and only its first character can be a
slash or a star. -/
theorem plain_of_scan {c : Char} {rest : Text} (noComment : (scan c rest).1 ≠ .comment)
    (noLiteral : (scan c rest).1 ≠ .literal) :
    isQuote c = false ∧ (rest.take (scan c rest).2).all isPlainChar = true := by
  have run {p : Char → Bool} (plain : ∀ d, p d = true → isPlainChar d = true) :
      (rest.take (runLength p rest)).all isPlainChar = true :=
    List.all_eq_true.mpr fun d member =>
      plain d (List.all_eq_true.mp (all_take_runLength p rest) d member)
  rcases scan_cases c rest with ⟨start, eq⟩ | ⟨-, eq⟩ | ⟨start, eq⟩ | ⟨start, eq⟩ |
    ⟨-, comment, -⟩ | ⟨next, more, rfl, operator, eq⟩ | ⟨single, -, eq⟩
  case inr.inl =>
    rw [eq] at noLiteral
    exact absurd rfl noLiteral
  case inr.inr.inr.inr.inl => exact absurd comment noComment
  all_goals rw [eq]
  · exact ⟨isQuote_eq_false start rfl rfl, run fun d holds => isPlainChar_of_holds holds rfl⟩
  · exact ⟨isQuote_eq_false start rfl rfl, run fun d holds => isPlainChar_of_holds holds rfl⟩
  · refine ⟨?_, run fun d holds => isPlainChar_of_holds holds rfl⟩
    rcases start with digit | ⟨rfl, -⟩
    · exact isQuote_eq_false digit rfl rfl
    · rfl
  · obtain ⟨plain, noQuote, -⟩ := isPlainChar_of_isOperatorPair operator
    exact ⟨noQuote, by simp [plain]⟩
  · refine ⟨?_, rfl⟩
    simp only [isMark, Bool.and_eq_true, Bool.not_eq_true'] at single
    exact single.1.1.2

theorem head_ne_of_scan {rest : Text} (noComment : (scan '/' rest).1 ≠ .comment) :
    ∀ next ∈ rest.head?, next ≠ '/' ∧ next ≠ '*' := by
  intro next first
  obtain ⟨more, rfl⟩ := List.head?_eq_some_iff.mp first
  constructor <;> rintro rfl <;> exact noComment rfl

theorem Uncommented.of_scan_literal {c : Char} {rest after : Text} {found : List Token}
    (literal : (scan c rest).1 = .literal) (atEnd : rest.drop (scan c rest).2 = [] → after = [])
    (more : Uncommented false after found) (afterSlash : Bool) :
    Uncommented afterSlash (c :: rest.take (scan c rest).2 ++ after)
      (⟨(scan c rest).1, c :: rest.take (scan c rest).2⟩ :: found) := by
  have start := isQuote_of_scan literal
  rw [scan_quote start] at atEnd ⊢
  have again := literalLength_take_append atEnd
  have length := List.length_take_of_le (literalLength_le c rest)
  have read := @Uncommented.literal afterSlash c (rest.take (literalLength c rest) ++ after) found
    start (by rwa [again, List.drop_left' length])
  rwa [again, List.take_left' length] at read

/-- Behind a slash that is a token of its own no comment starts. -/
theorem Uncommented.of_scan_code {c : Char} {rest after : Text} {found : List Token}
    {afterSlash : Bool} (noComment : (scan c rest).1 ≠ .comment)
    (noLiteral : (scan c rest).1 ≠ .literal) (apart : afterSlash = true → c ≠ '/' ∧ c ≠ '*')
    (more : ∀ slash, (slash = true → ∀ next ∈ (rest.drop (scan c rest).2).head?,
      next ≠ '/' ∧ next ≠ '*') → Uncommented slash after found) :
    Uncommented afterSlash (c :: rest.take (scan c rest).2 ++ after) found := by
  obtain ⟨noQuote, plain⟩ := plain_of_scan noComment noLiteral
  refine .code noQuote apart (.plain_append plain (more _ fun isTrue => ?_))
  obtain ⟨alone, slash⟩ := Bool.and_eq_true_iff.mp isTrue
  obtain rfl := beq_iff_eq.mp slash
  have whole := List.take_append_drop (scan '/' rest).2 rest
  rw [List.isEmpty_iff.mp alone, List.nil_append] at whole
  rw [whole]
  exact head_ne_of_scan noComment

/-- The text without its comments reads like the text itself. -/
theorem uncommented_stripComments {source : Text} {afterSlash : Bool}
    (apart : afterSlash = true → ∀ c ∈ source.head?, c ≠ '/' ∧ c ≠ '*') :
    Uncommented afterSlash (stripComments source) (literals (tokenize source)) := by
  fun_induction tokenize source generalizing afterSlash with
  | case1 =>
      rw [stripComments_nil]
      exact .nil _
  | case2 c rest kind size scanEq ih =>
      obtain ⟨rfl, rfl⟩ : (scan c rest).1 = kind ∧ (scan c rest).2 = size := by
        rw [scanEq]
        exact ⟨rfl, rfl⟩
      have behind := @ih false (fun isTrue => by cases isTrue)
      rw [stripComments_cons]
      by_cases comment : (scan c rest).1 = .comment
      · have noSlash : afterSlash = false := by
          rw [Bool.eq_false_iff]
          intro isTrue
          exact (apart isTrue c rfl).1 (comment_of_scan comment).1
        rw [literals_cons_other (by simp [comment]), noSlash, Token.withoutComment, if_pos comment]
        refine .plain_append (List.all_eq_true.mpr fun d member => ?_) (by rwa [Bool.and_false])
        rw [beq_iff_eq.mp (List.mem_filter.mp member).2]
        rfl
      rw [Token.withoutComment, if_neg comment]
      by_cases literal : (scan c rest).1 = .literal
      · rw [literals_cons_literal literal]
        refine .of_scan_literal literal (fun left => ?_) behind afterSlash
        rw [left, stripComments_nil]
      · rw [literals_cons_other literal]
        exact .of_scan_code comment literal (fun isTrue => apart isTrue c rfl) fun _ => ih

/-- A text that is read so is cut into tokens without a comment, and into these literals. -/
theorem Uncommented.literals_eq {text : Text} {afterSlash : Bool} {found : List Token}
    (read : Uncommented afterSlash text found) :
    (∀ token ∈ tokenize text, token.kind ≠ .comment) ∧ literals (tokenize text) = found := by
  fun_induction tokenize text generalizing afterSlash found with
  | case1 =>
      cases read
      exact ⟨by simp, rfl⟩
  | case2 c rest kind size scanEq ih =>
      obtain ⟨rfl, rfl⟩ : (scan c rest).1 = kind ∧ (scan c rest).2 = size := by
        rw [scanEq]
        exact ⟨rfl, rfl⟩
      cases read with
      | code noQuote noComment more =>
          have noLiteral : (scan c rest).1 ≠ .literal := fun literal => by
            rw [isQuote_of_scan literal] at noQuote
            cases noQuote
          have noRemark : (scan c rest).1 ≠ .comment := by
            intro comment
            obtain ⟨rfl, next, others, rfl, second⟩ := comment_of_scan comment
            cases more with
            | code _ apart _ => exact second.elim (apart rfl).1 (apart rfl).2
            | literal start _ => rcases second with rfl | rfl <;> cases start
          rw [← List.take_append_drop (scan c rest).2 rest] at more
          obtain ⟨slash, behind⟩ := more.of_plain_append (plain_of_scan noRemark noLiteral).2
          obtain ⟨none, same⟩ := ih behind
          rw [literals_cons_other noLiteral]
          exact ⟨List.forall_mem_cons.mpr ⟨noRemark, none⟩, same⟩
      | literal start more =>
          rw [scan_quote start] at ih ⊢
          obtain ⟨none, same⟩ := ih more
          rw [literals_cons_literal rfl, same]
          exact ⟨List.forall_mem_cons.mpr ⟨by simp, none⟩, rfl⟩

section

variable (source : Text)

/-- Nothing is left of the comments when the text is cut again. -/
theorem kind_ne_comment_stripComments :
    ∀ token ∈ tokenize (stripComments source), token.kind ≠ .comment :=
  (@uncommented_stripComments source false fun isTrue => by cases isTrue).literals_eq.1

/-- The literals stay as they are. -/
theorem literals_tokenize_stripComments :
    literals (tokenize (stripComments source)) = literals (tokenize source) :=
  (@uncommented_stripComments source false fun isTrue => by cases isTrue).literals_eq.2

end

/-- Taking the comments out of a text leaves no comment, all of the code and as many line breaks as there were.
The literals stay as they are, and there is nothing to take out any more. -/
structure IsCleaned (source cleaned : Text) : Prop where
  noComment : ∀ token ∈ tokenize cleaned, token.kind ≠ .comment
  breaks : cleaned.count '\n' = source.count '\n'
  code : cleaned.filter (· != '\n') =
    (render ((tokenize source).filter (·.kind != .comment))).filter (· != '\n')
  sameLiterals : literals (tokenize cleaned) = literals (tokenize source)
  stable : stripComments cleaned = cleaned

theorem Token.count_withoutComment (token : Token) :
    token.withoutComment.count '\n' = token.text.count '\n' := by
  unfold withoutComment
  split
  · exact List.count_filter (beq_self_eq_true '\n')
  · rfl

/-- A comment goes without its line breaks, and any other token goes not at all. -/
theorem count_stripComments (source : Text) : (stripComments source).count '\n' = source.count '\n' := by
  rw [stripComments, List.count_flatMap]
  conv_rhs => rw [← render_tokenize source, render, List.count_flatMap]
  exact congrArg List.sum (List.map_congr_left fun token _ => token.count_withoutComment)

/-- What is kept beside line breaks are the tokens that are no comments. -/
theorem filter_stripComments (source : Text) :
    (stripComments source).filter (· != '\n') =
      (render ((tokenize source).filter (·.kind != .comment))).filter (· != '\n') := by
  rw [stripComments]
  induction tokenize source with
  | nil => rfl
  | cons token rest ih =>
      rw [List.flatMap_cons, List.filter_append, ih]
      by_cases comment : token.kind = .comment
      · have nothing : token.withoutComment.filter (· != '\n') = [] := by
          rw [Token.withoutComment, if_pos comment, List.filter_filter]
          simp
        rw [nothing, List.nil_append, List.filter_cons_of_neg (by simp [comment])]
      · rw [Token.withoutComment, if_neg comment, List.filter_cons_of_pos (by simp [comment]), render_cons,
          List.filter_append]

theorem stripComments_eq_self {text : Text} (noComment : ∀ token ∈ tokenize text, token.kind ≠ .comment) :
    stripComments text = text := by
  conv_rhs => rw [← render_tokenize text]
  exact List.flatMap_congr fun token member => if_neg (noComment token member)

theorem isCleaned_stripComments (source : Text) : IsCleaned source (stripComments source) where
  noComment := kind_ne_comment_stripComments source
  breaks := count_stripComments source
  code := filter_stripComments source
  sameLiterals := literals_tokenize_stripComments source
  stable := stripComments_eq_self (kind_ne_comment_stripComments source)

end Breadboard.Sketch
