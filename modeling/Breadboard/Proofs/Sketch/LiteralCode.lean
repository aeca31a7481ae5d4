import Breadboard.Proofs.Sketch.Uncommented
import Breadboard.Proofs.Text.Trim

set_option autoImplicit false

/- Texts and tokens whose literals stay the same wherever the text is cut again. Code turns into a comment
only where a slash of its own comes to stand in front of a slash or a star, and a literal that is closed
does not reach over its end. -/
namespace Breadboard.Sketch

/-- A slash in front of the text would not start a comment together with it. -/
def OpensCode (text : Text) : Prop :=
  ∀ c ∈ text.head?, c ≠ '/' ∧ c ≠ '*'

/-- A token that is read as a closed literal, or as code up to its end. -/
inductive IsPiece : Token → Prop where
  | literal {quote : Char} {rest : Text} (start : isQuote quote = true)
      (closed : closesLiteral quote rest = true) : IsPiece ⟨.literal, quote :: rest⟩
  | code {kind : TokenKind} {c : Char} {rest : Text} (other : kind ≠ .literal)
      (noQuote : isQuote c = false) (plain : rest.all isPlainChar = true) : IsPiece ⟨kind, c :: rest⟩

/-- Tokens that are read whole, none of which starts a comment together with the next. -/
structure IsCode (tokens : List Token) : Prop where
  whole : ∀ token ∈ tokens, IsPiece token
  apart : tokens.IsChain fun first second => first.text = ['/'] → OpensCode second.text

/-- The text has these literals, all of them closed, and no comment. -/
structure ReadsAs (text : Text) (found : List Token) : Prop where
  read : Uncommented false text found
  closed : ∀ token ∈ found, token.isClosedLiteral = true

theorem literals_append (first second : List Token) :
    literals (first ++ second) = literals first ++ literals second :=
  List.filter_append ..

theorem literals_eq_nil {tokens : List Token} (others : ∀ token ∈ tokens, token.kind ≠ .literal) :
    literals tokens = [] :=
  List.filter_eq_nil_iff.mpr fun token member => by simp [others token member]

/-- Tokens that are no literals can be left out. -/
theorem literals_filter {p : Token → Bool} (keeps : ∀ token, token.kind = .literal → p token = true)
    (tokens : List Token) : literals (tokens.filter p) = literals tokens := by
  rw [literals, literals, List.filter_filter]
  refine List.filter_congr fun token _ => ?_
  by_cases literal : token.kind = .literal
  · simp [literal, keeps token literal]
  · simp [literal]

theorem kind_ne_literal_of_isTrivia {token : Token} (trivia : token.isTrivia = true) :
    token.kind ≠ .literal := by
  intro literal
  rw [Token.isTrivia, literal] at trivia
  cases trivia

/-- A closed literal ends in front of the blanks behind it. -/
theorem literalLength_append_blank {quote : Char} (start : isQuote quote = true) {body blank : Text}
    (all : Text.allBlank blank = true)
    (closed : closesLiteral quote
      ((body ++ blank).take (literalLength quote (body ++ blank))) = true) :
    literalLength quote (body ++ blank) = literalLength quote body := by
  have inside : literalLength quote (body ++ blank) ≤ body.length := by
    by_contra beyond
    have last := getLast?_of_closesLiteral closed
    have notEmpty : blank.take (literalLength quote (body ++ blank) - body.length) ≠ [] := by
      have whole := literalLength_le quote (body ++ blank)
      rw [List.length_append] at whole
      rw [ne_eq, List.take_eq_nil_iff, ← List.length_eq_zero_iff]
      omega
    rw [List.take_append, List.getLast?_append_of_ne_nil _ notEmpty] at last
    have member := List.mem_of_mem_take (List.mem_of_getLast? last)
    have notQuote : isQuote quote = false :=
      isQuote_eq_false (List.all_eq_true.mp all quote member) rfl rfl
    rw [start] at notQuote
    cases notQuote
  rw [List.take_append_of_le_length inside] at closed
  conv_rhs => rw [← List.take_append_drop (literalLength quote (body ++ blank)) body]
  rw [literalLength_of_closes start closed, List.length_take_of_le inside]

namespace Uncommented

variable {afterSlash : Bool} {text rest : Text} {found more : List Token}

/-- A slash in front matters to the first character only. -/
theorem of_opensCode (read : Uncommented afterSlash text found) (slash : Bool)
    (opens : slash = true → OpensCode text) : Uncommented slash text found := by
  cases read with
  | nil => exact .nil _
  | code noQuote _ more => exact .code noQuote (fun isSlash => opens isSlash _ rfl) more
  | literal start more => exact .literal start more

theorem append (read : Uncommented afterSlash text found)
    (closed : ∀ token ∈ found, token.isClosedLiteral = true)
    (behind : ∀ slash, Uncommented slash rest more) :
    Uncommented afterSlash (text ++ rest) (found ++ more) := by
  induction read with
  | nil => exact behind _
  | code noQuote noComment _ ih => exact .code noQuote noComment (ih closed)
  | @literal _ quote body found start _ ih =>
      have ends := closed _ List.mem_cons_self
      have stops : literalLength quote (body ++ rest) = literalLength quote body := by
        conv_lhs => rw [← List.take_append_drop (literalLength quote body) body, List.append_assoc]
        rw [literalLength_of_closes start ends, List.length_take_of_le (literalLength_le quote body)]
      have whole := literalLength_le quote body
      have onward := ih fun token member => closed token (List.mem_cons_of_mem _ member)
      rw [← List.drop_append_of_le_length whole, ← stops] at onward
      rw [← List.take_append_of_le_length whole, List.cons_append, List.cons_append, ← stops]
      exact .literal start onward

theorem eq_nil_of_plain (plain : text.all isPlainChar = true)
    (read : Uncommented afterSlash text found) : found = [] := by
  rw [← List.append_nil text] at read
  obtain ⟨slash, nothing⟩ := read.of_plain_append plain
  cases nothing
  rfl

/-- Blanks at the end are in no literal that is closed. -/
theorem of_append_blank {blank : Text} (all : Text.allBlank blank = true)
    (read : Uncommented afterSlash (text ++ blank) found)
    (closed : ∀ token ∈ found, token.isClosedLiteral = true) : Uncommented afterSlash text found := by
  have plain := all_isPlainChar_of_allBlank all
  generalize joined : text ++ blank = whole at read
  induction read generalizing text with
  | nil =>
      rw [(List.append_eq_nil_iff.mp joined).1]
      exact .nil _
  | @code slash c rest found noQuote noComment more ih =>
      cases text with
      | nil =>
          obtain rfl : blank = c :: rest := joined
          obtain rfl := (Uncommented.code noQuote noComment more).eq_nil_of_plain plain
          exact .nil _
      | cons d body =>
          obtain ⟨rfl, tail⟩ := List.cons.inj joined
          exact .code noQuote noComment (ih closed tail)
  | @literal slash quote rest found start more ih =>
      cases text with
      | nil =>
          obtain rfl : blank = quote :: rest := joined
          rw [List.all_cons, isPlainChar, start] at plain
          cases plain
      | cons d body =>
          obtain ⟨rfl, rfl⟩ := List.cons.inj joined
          have stops := literalLength_append_blank start all (closed _ List.mem_cons_self)
          have inside := literalLength_le d body
          rw [List.append_eq, stops, List.take_append_of_le_length inside]
          refine .literal start (ih (fun token member => closed token (List.mem_cons_of_mem _ member)) ?_)
          rw [List.append_eq, stops, List.drop_append_of_le_length inside]

end Uncommented

namespace ReadsAs

variable {text rest : Text} {found more : List Token}

theorem append (first : ReadsAs text found) (second : ReadsAs rest more) (opens : OpensCode rest) :
    ReadsAs (text ++ rest) (found ++ more) :=
  ⟨first.read.append first.closed fun slash => second.read.of_opensCode slash fun _ => opens,
    List.forall_mem_append.mpr ⟨first.closed, second.closed⟩⟩

theorem of_plain (plain : text.all isPlainChar = true) : ReadsAs text [] := by
  have read : Uncommented false (text ++ []) [] := .plain_append plain (.nil _)
  rw [List.append_nil] at read
  exact ⟨read, by simp⟩

theorem plain_append (plain : text.all isPlainChar = true) (second : ReadsAs rest more) :
    ReadsAs (text ++ rest) more :=
  ⟨.plain_append plain (by rw [Bool.and_false]; exact second.read), second.closed⟩

theorem trim (reads : ReadsAs text found) : ReadsAs (Text.trim text) found := by
  obtain ⟨front, back, frontBlank, backBlank, split⟩ := Text.exists_trim text
  have read := reads.read
  rw [split] at read
  obtain ⟨slash, read⟩ := read.of_plain_append (all_isPlainChar_of_allBlank frontBlank)
  have started := read.of_opensCode false fun isTrue => by cases isTrue
  exact ⟨started.of_append_blank backBlank reads.closed, reads.closed⟩

end ReadsAs

theorem IsPiece.text_ne_nil {token : Token} (whole : IsPiece token) : token.text ≠ [] := by
  cases whole <;> simp

theorem IsLexeme.isPiece {token : Token} (whole : IsLexeme token) : IsPiece token := by
  by_cases literal : token.kind = .literal
  · cases whole with
    | literal start closed => exact .literal start closed
    | _ => cases literal
  · obtain ⟨c, tail, textEq, scanEq⟩ := @scan_lexeme token whole [] (by simp)
    rw [List.append_nil] at scanEq
    have plain := @plain_of_scan c tail
    rw [scanEq] at plain
    obtain ⟨noQuote, tailPlain⟩ := plain whole.kind_ne_comment literal
    rw [List.take_length] at tailPlain
    rw [show token = ⟨token.kind, c :: tail⟩ by rw [← textEq]]
    exact .code literal noQuote tailPlain

theorem opensCode_of_head {text : Text} {c : Char} (first : text.head? = some c)
    (other : (c != '/' && c != '*') = true) : OpensCode text := by
  intro d isFirst
  obtain rfl := Option.some.inj (first.symm.trans isFirst)
  simpa using other

theorem opensCode_append_iff {front : Text} (notEmpty : front ≠ []) (rest : Text) :
    OpensCode (front ++ rest) ↔ OpensCode front := by
  rw [OpensCode, OpensCode, List.head?_append_of_ne_nil _ notEmpty]

section

variable {token : Token} {tokens first second : List Token}

theorem isCode_cons : IsCode (token :: tokens) ↔ IsPiece token ∧
    (token.text = ['/'] → OpensCode (render tokens)) ∧ IsCode tokens := by
  have opens (wholes : ∀ other ∈ tokens, IsPiece other) :
      OpensCode (render tokens) ↔ ∀ next ∈ tokens.head?, OpensCode next.text := by
    cases tokens with
    | nil => simp [OpensCode]
    | cons next others =>
        rw [render_cons, opensCode_append_iff (wholes next List.mem_cons_self).text_ne_nil]
        simp
  constructor
  · rintro ⟨wholes, apart⟩
    obtain ⟨whole, others⟩ := List.forall_mem_cons.mp wholes
    obtain ⟨first, chain⟩ := List.isChain_cons.mp apart
    exact ⟨whole, fun slash => (opens others).mpr fun next isNext => first next isNext slash,
      others, chain⟩
  · rintro ⟨whole, first, code⟩
    exact ⟨List.forall_mem_cons.mpr ⟨whole, code.whole⟩, List.isChain_cons.mpr
      ⟨fun next isNext slash => (opens code.whole).mp (first slash) next isNext, code.apart⟩⟩

/-- A token of plain characters keeps what is in front of it apart from what is behind it. -/
theorem isCode_cons_plain {kind : TokenKind} (other : kind ≠ .literal) {text : Text}
    (notEmpty : text ≠ []) (plain : text.all isPlainChar = true) (code : IsCode tokens) :
    IsCode (⟨kind, text⟩ :: tokens) ∧ OpensCode (render (⟨kind, text⟩ :: tokens)) := by
  obtain ⟨c, rest, rfl⟩ := List.exists_cons_of_ne_nil notEmpty
  rw [List.all_cons, Bool.and_eq_true] at plain
  obtain ⟨⟨⟨noQuote, -⟩, noSlash⟩, noStar⟩ := by simpa [isPlainChar] using plain.1
  refine ⟨isCode_cons.mpr ⟨.code other noQuote plain.2, fun slash => ?_, code⟩, fun d first => ?_⟩
  · exact absurd (List.cons.inj slash).1 noSlash
  · obtain rfl := Option.some.inj first
    exact ⟨noSlash, noStar⟩

theorem IsCode.part {part : List Token} (code : IsCode tokens) (inside : part <:+: tokens) :
    IsCode part :=
  ⟨fun token member => code.whole token (inside.subset member), code.apart.infix inside⟩

theorem IsCode.append (firstCode : IsCode first) (secondCode : IsCode second)
    (opens : (∃ last ∈ first.getLast?, last.text = ['/']) → OpensCode (render second)) :
    IsCode (first ++ second) := by
  induction first with
  | nil => exact secondCode
  | cons token rest ih =>
      obtain ⟨whole, start, code⟩ := isCode_cons.mp firstCode
      rw [List.cons_append, isCode_cons]
      cases rest with
      | nil => exact ⟨whole, fun slash => opens ⟨token, rfl, slash⟩, secondCode⟩
      | cons next others =>
          have notEmpty := (code.whole next List.mem_cons_self).text_ne_nil
          refine ⟨whole, fun slash => ?_, ih code fun last => opens (by simpa using last)⟩
          rw [render_append, opensCode_append_iff (by simp [notEmpty])]
          exact start slash

theorem IsCut.isCode (cut : IsCut tokens) : IsCode tokens := by
  refine ⟨fun token member => (cut.whole token member).isPiece, ?_⟩
  induction tokens with
  | nil => exact .nil
  | cons token rest ih =>
      obtain ⟨meets, chain⟩ := List.isChain_cons.mp cut.chain
      obtain ⟨whole, others⟩ := List.forall_mem_cons.mp cut.whole
      refine List.isChain_cons.mpr ⟨fun next isNext slash c first => ?_, ih ⟨others, chain⟩⟩
      have ends := meets next isNext c first
      cases whole with
      | mark _ =>
          obtain rfl := (List.cons.inj slash).1
          simp only [Token.endsBefore, BEq.rfl, Bool.true_and, Bool.and_eq_true, Bool.not_eq_true',
            Bool.or_eq_false_iff, beq_eq_false_iff_ne] at ends
          exact ends.1.2
      | space start _ | word start _ | literal start _ =>
          obtain rfl := (List.cons.inj slash).1
          cases start
      | number start _ =>
          obtain rfl := (List.cons.inj slash).1
          rcases start with digit | ⟨dot, -⟩
          · cases digit
          · cases dot
      | pair _ => cases slash

/-- Code is read with its literals, whatever stands in front. -/
theorem IsCode.uncommented (code : IsCode tokens) {afterSlash : Bool}
    (opens : afterSlash = true → OpensCode (render tokens)) :
    Uncommented afterSlash (render tokens) (literals tokens) := by
  induction tokens generalizing afterSlash with
  | nil => exact .nil _
  | cons token rest ih =>
      obtain ⟨whole, start, restCode⟩ := isCode_cons.mp code
      cases whole with
      | @literal quote body isQuote closed =>
          have onward := ih restCode fun isTrue : false = true => nomatch isTrue
          have stops := literalLength_of_closes isQuote closed (render rest)
          have read := @Uncommented.literal afterSlash quote (body ++ render rest) _ isQuote
            (by rwa [stops, List.drop_left])
          rwa [stops, List.take_left] at read
      | @code kind c tail other noQuote plain =>
          rw [literals_cons_other other]
          refine .code noQuote (fun slash => opens slash c rfl)
            (.plain_append plain (ih restCode fun isTrue => start ?_))
          obtain ⟨alone, slash⟩ := Bool.and_eq_true_iff.mp isTrue
          rw [List.isEmpty_iff.mp alone, beq_iff_eq.mp slash]

theorem IsCode.readsAs (code : IsCode tokens) : ReadsAs (render tokens) (literals tokens) := by
  refine ⟨code.uncommented (fun isTrue => nomatch isTrue), fun token member => ?_⟩
  obtain ⟨inTokens, literal⟩ := List.mem_filter.mp member
  cases code.whole token inTokens with
  | literal _ closed => exact closed
  | code other _ _ => exact absurd (by simpa using literal) other

end

/-- A text that is read so is cut into code with these literals. -/
theorem ReadsAs.isCode {text : Text} {found : List Token} (reads : ReadsAs text found) :
    IsCode (tokenize text) ∧ literals (tokenize text) = found := by
  obtain ⟨noComment, same⟩ := reads.read.literals_eq
  refine ⟨(isCut_tokenize noComment fun token member literal => reads.closed token ?_).isCode, same⟩
  rw [← same]
  exact List.mem_filter.mpr ⟨member, by simp [literal]⟩

end Breadboard.Sketch
