import Breadboard.Proofs.Sketch.Apart

set_option autoImplicit false

namespace Breadboard.Sketch

theorem withoutComment_of_isLexeme {token : Token} (whole : IsLexeme token) :
    token.withoutComment = token.text := by
  cases whole <;> rfl

theorem stripComments_lexeme {token : Token} (whole : IsLexeme token) {rest : Text}
    (stop : ∀ next ∈ rest.head?, token.endsBefore next = true) :
    stripComments (token.text ++ rest) = token.text ++ stripComments rest := by
  obtain ⟨c, more, textEq, scanEq⟩ := scan_lexeme whole stop
  have same := withoutComment_of_isLexeme whole
  rw [stripComments, textEq, List.cons_append, tokenize_cons, scanEq]
  simp only [List.take_left, List.drop_left, List.flatMap_cons]
  rw [← textEq, same]
  rfl

theorem stripComments_cut {tokens : List Token} (cut : IsCut tokens) {rest : Text}
    (stop : ∀ last ∈ tokens.getLast?, ∀ next ∈ rest.head?, last.endsBefore next = true) :
    stripComments (render tokens ++ rest) = render tokens ++ stripComments rest := by
  induction tokens with
  | nil => rfl
  | cons token more ih =>
      have whole := cut.whole token List.mem_cons_self
      rw [render_cons, List.append_assoc]
      cases more with
      | nil =>
          rw [render_nil, List.nil_append]
          rw [stripComments_lexeme whole (stop token rfl), List.append_nil]
      | cons second others =>
          have restCut : IsCut (second :: others) :=
            ⟨fun other member => cut.whole other (List.mem_cons_of_mem _ member), cut.chain.tail⟩
          have notEmpty := (restCut.whole second List.mem_cons_self).text_ne_nil
          have meets : token.Meets second := cut.chain.rel
          have stopHere : ∀ next ∈ (render (second :: others) ++ rest).head?,
              token.endsBefore next = true := by
            intro next first
            rw [render_cons, List.append_assoc, List.head?_append_of_ne_nil _ notEmpty] at first
            exact meets next first
          have stopLater := fun last isLast =>
            stop last (by rw [List.getLast?_cons_cons]; exact isLast)
          rw [stripComments_lexeme whole stopHere, ih restCut stopLater, List.append_assoc]

theorem stripComments_run {blank : Text} (all : blank.all isSpaceChar = true) {rest : Text}
    (tight : ∀ c ∈ rest.head?, isSpaceChar c = false) :
    stripComments (blank ++ rest) = blank ++ stripComments rest := by
  cases blank with
  | nil => rfl
  | cons c more =>
      rw [List.all_cons, Bool.and_eq_true] at all
      exact stripComments_lexeme (.space all.1 all.2) fun next first => by
        simp [Token.endsBefore, tight next first]

/-- Blanks stay, also where they run into other blanks. -/
theorem stripComments_blank {blank : Text} (all : blank.all isSpaceChar = true) (rest : Text) :
    stripComments (blank ++ rest) = blank ++ stripComments rest := by
  obtain ⟨run, behind, rfl, runAll, tight⟩ := exists_blank_run rest
  have both : (blank ++ run).all isSpaceChar = true := by
    rw [List.all_append, all, runAll, Bool.and_self]
  rw [← List.append_assoc, stripComments_run both tight, stripComments_run runAll tight,
    List.append_assoc]

/-- A comment goes, its line break stays. -/
theorem stripComments_remark {remark : Text} (oneLine : '\n' ∉ remark) (rest : Text) :
    stripComments ('/' :: '/' :: remark ++ '\n' :: rest) = '\n' :: stripComments rest := by
  have all : ('/' :: remark).all (· != '\n') = true := by
    rw [List.all_cons, Bool.and_eq_true, List.all_eq_true]
    refine ⟨rfl, fun c member => ?_⟩
    simp only [bne_iff_ne, ne_eq]
    rintro rfl
    exact oneLine member
  have size : runLength (· != '\n') ('/' :: remark ++ '\n' :: rest) = ('/' :: remark).length := by
    rw [runLength_append_of_all all, runLength_of_head, Nat.add_zero]
    rintro next ⟨⟩
    rfl
  have scanned : scan '/' ('/' :: remark ++ '\n' :: rest) =
      (.comment, ('/' :: remark).length) := by
    rw [← size]
    rfl
  have nothing : Token.withoutComment ⟨.comment, '/' :: '/' :: remark⟩ = [] := by
    rw [Token.withoutComment, if_pos rfl, List.filter_eq_nil_iff]
    intro c member
    simp only [beq_iff_eq]
    rintro rfl
    rcases List.mem_cons.mp member with slash | inRemark
    · cases slash
    · exact absurd (List.all_eq_true.mp all '\n' inRemark) (by decide)
  have breaks := @stripComments_blank ['\n'] rfl rest
  rw [List.singleton_append, List.singleton_append] at breaks
  rw [← breaks, List.cons_append, stripComments, tokenize_cons, scanned]
  simp only [List.take_left, List.drop_left, List.flatMap_cons]
  rw [nothing, List.nil_append]
  rfl

/-- A row of a text: code behind blanks, and behind the code a remark. -/
structure Row where
  lead : Text
  code : List Token
  gap : Text
  remark : Option Text

namespace Row

def codeText (row : Row) : Text :=
  row.lead ++ render row.code ++ row.gap

def text (row : Row) : Text :=
  row.codeText ++ (row.remark.map ('/' :: '/' :: ·)).getD [] ++ ['\n']

/-- The row without its remark. -/
def cleaned (row : Row) : Text :=
  row.codeText ++ ['\n']

/-- What the writer of a row takes care of. -/
structure IsWritten (row : Row) : Prop where
  lead : row.lead.all isSpaceChar = true
  gap : row.gap.all isSpaceChar = true
  cut : IsCut row.code
  starts : ∀ token ∈ row.code.head?, token.kind ≠ .space
  ends : ∀ token ∈ row.code.getLast?, token.kind ≠ .space
  remark : ∀ remark ∈ row.remark, '\n' ∉ remark
  apart : row.remark = none ∨ row.gap ≠ [] ∨ row.code = []

theorem IsWritten.stripComments_text {row : Row} (written : row.IsWritten) (rest : Text) :
    stripComments (row.text ++ rest) = row.cleaned ++ stripComments rest := by
  have breaks := @stripComments_blank ['\n'] rfl rest
  rw [List.singleton_append, List.singleton_append] at breaks
  have behind : stripComments ((row.remark.map ('/' :: '/' :: ·)).getD [] ++ '\n' :: rest) =
      '\n' :: stripComments rest := by
    cases remark : row.remark with
    | none => exact breaks
    | some text => exact stripComments_remark (written.remark text remark) rest
  have stop : ∀ last ∈ row.code.getLast?,
      ∀ next ∈ (row.gap ++ ((row.remark.map ('/' :: '/' :: ·)).getD [] ++ '\n' :: rest)).head?,
        last.endsBefore next = true := by
    intro last isLast next first
    have whole := written.cut.whole last (List.mem_of_getLast? isLast)
    refine endsBefore_space whole (written.ends last isLast) ?_
    cases gapEq : row.gap with
    | cons c more =>
        have blank := written.gap
        rw [gapEq, List.all_cons, Bool.and_eq_true] at blank
        rw [gapEq] at first
        obtain rfl : c = next := Option.some.inj first
        exact blank.1
    | nil =>
        rcases written.apart with noRemark | gap | noCode
        · rw [gapEq, noRemark] at first
          obtain rfl : '\n' = next := Option.some.inj first
          rfl
        · exact absurd gapEq gap
        · rw [noCode] at isLast
          cases isLast
  have regrouped : row.text ++ rest = row.lead ++ (render row.code ++
      (row.gap ++ ((row.remark.map ('/' :: '/' :: ·)).getD [] ++ '\n' :: rest))) := by
    simp [text, codeText]
  rw [regrouped, stripComments_blank written.lead, stripComments_cut written.cut stop,
    stripComments_blank written.gap, behind]
  simp [cleaned, codeText]

/-- A text in rows loses its remarks. -/
theorem stripComments_rows {rows : List Row} (written : ∀ row ∈ rows, row.IsWritten) :
    stripComments (rows.flatMap text) = rows.flatMap cleaned := by
  induction rows with
  | nil => simp [stripComments]
  | cons row rest ih =>
      rw [List.flatMap_cons, (written row List.mem_cons_self).stripComments_text,
        ih fun other member => written other (List.mem_cons_of_mem _ member), List.flatMap_cons]

/-- The tokens of rows without remarks, with blanks before them and tokens behind them. The blanks of
rows without code run together. -/
def tokens (pending : Text) : List Row → List Token → List Token
  | [], rest => blankTokens pending ++ rest
  | row :: rows, rest =>
    if row.code.isEmpty then tokens (pending ++ row.cleaned) rows rest
    else
      blankTokens (pending ++ row.lead) ++ (row.code ++ tokens (row.gap ++ ['\n']) rows rest)

theorem tokens_append (pending : Text) (rows : List Row) (rest : List Token) :
    tokens pending rows [] ++ rest = tokens pending rows rest := by
  induction rows generalizing pending with
  | nil => rw [tokens, tokens, List.append_nil]
  | cons row rows ih =>
      rw [tokens, tokens]
      split
      · exact ih _
      · rw [List.append_assoc, List.append_assoc, ih]

theorem render_tokens (pending : Text) (rows : List Row) (rest : List Token) :
    render (tokens pending rows rest) = pending ++ rows.flatMap cleaned ++ render rest := by
  induction rows generalizing pending with
  | nil => simp [tokens]
  | cons row rows ih =>
      rw [tokens]
      split
      · rw [ih, List.flatMap_cons]
        simp
      · simp [ih, cleaned, codeText]

theorem IsWritten.all_cleaned {row : Row} (written : row.IsWritten) (noCode : row.code = [])
    {pending : Text} (all : pending.all isSpaceChar = true) :
    (pending ++ row.cleaned).all isSpaceChar = true := by
  rw [cleaned, codeText, noCode, render_nil, List.append_nil, List.all_append, List.all_append,
    List.all_append, all, written.lead, written.gap]
  rfl

theorem IsWritten.all_break {row : Row} (written : row.IsWritten) :
    (row.gap ++ ['\n']).all isSpaceChar = true := by
  rw [List.all_append, written.gap]
  rfl

section

variable {rows : List Row} {pending : Text}

theorem startsApart_tokens (all : pending.all isSpaceChar = true) (notEmpty : pending ≠ [])
    (written : ∀ row ∈ rows, row.IsWritten) (rest : List Token) :
    StartsApart (tokens pending rows rest) := by
  induction rows generalizing pending with
  | nil => exact startsApart_blank all notEmpty rest
  | cons row rows ih =>
      have rowWritten := written row List.mem_cons_self
      rw [tokens]
      split
      · rename_i noCode
        exact ih (rowWritten.all_cleaned (List.isEmpty_iff.mp noCode) all) (by simp [notEmpty])
          fun other member => written other (List.mem_cons_of_mem _ member)
      · exact startsApart_blank (by rw [List.all_append, all, rowWritten.lead]; rfl)
          (by simp [notEmpty]) _

theorem isCut_tokens (all : pending.all isSpaceChar = true)
    (written : ∀ row ∈ rows, row.IsWritten) {rest : List Token} (cut : IsCut rest)
    (tight : StartsTight rest) : IsCut (tokens pending rows rest) := by
  induction rows generalizing pending with
  | nil => exact isCut_blank_append all cut tight
  | cons row rows ih =>
      have rowWritten := written row List.mem_cons_self
      have others : ∀ other ∈ rows, other.IsWritten := fun other member =>
        written other (List.mem_cons_of_mem _ member)
      rw [tokens]
      split
      · rename_i noCode
        exact ih (rowWritten.all_cleaned (List.isEmpty_iff.mp noCode) all) others
      · rename_i hasCode
        have following := ih rowWritten.all_break others
        have apart := startsApart_tokens rowWritten.all_break (by simp) others rest
        refine isCut_blank_append (by rw [List.all_append, all, rowWritten.lead]; rfl)
          (isCut_append_apart rowWritten.cut rowWritten.ends following apart) ?_
        cases code : row.code with
        | nil => simp [code] at hasCode
        | cons token more => exact startsTight_cons (rowWritten.starts token (by rw [code]; rfl)) _

/-- Every token is a blank, comes from a row or stands behind the rows. -/
theorem mem_tokens {pending : Text} {rows : List Row} {rest : List Token} {token : Token}
    (member : token ∈ tokens pending rows rest) :
    token.kind = .space ∨ (∃ row ∈ rows, token ∈ row.code) ∨ token ∈ rest := by
  have blank : ∀ text, token ∈ blankTokens text → token.kind = .space := by
    intro text inBlank
    rw [blankTokens] at inBlank
    split at inBlank
    · cases inBlank
    · rw [List.mem_singleton.mp inBlank]
  induction rows generalizing pending with
  | nil =>
      rcases List.mem_append.mp member with inBlank | inRest
      · exact .inl (blank _ inBlank)
      · exact .inr (.inr inRest)
  | cons row rows ih =>
      have later : token ∈ tokens (row.gap ++ ['\n']) rows rest ∨
          token ∈ tokens (pending ++ row.cleaned) rows rest →
          token.kind = .space ∨ (∃ other ∈ row :: rows, token ∈ other.code) ∨ token ∈ rest := by
        intro inTokens
        rcases inTokens.elim ih ih with space | ⟨other, inRows, inCode⟩ | inRest
        · exact .inl space
        · exact .inr (.inl ⟨other, List.mem_cons_of_mem _ inRows, inCode⟩)
        · exact .inr (.inr inRest)
      rw [tokens] at member
      split at member
      · exact later (.inr member)
      · rcases List.mem_append.mp member with inBlank | inOthers
        · exact .inl (blank _ inBlank)
        · rcases List.mem_append.mp inOthers with inCode | inTokens
          · exact .inr (.inl ⟨row, List.mem_cons_self, inCode⟩)
          · exact later (.inl inTokens)

/-- A row of code without blanks before it starts a new list of rows. -/
theorem tokens_append_cons (pending : Text) (rows : List Row) {row : Row} (noLead : row.lead = [])
    (hasCode : row.code ≠ []) (others : List Row) (rest : List Token) :
    tokens pending (rows ++ row :: others) rest =
      tokens pending rows (row.code ++ tokens (row.gap ++ ['\n']) others rest) := by
  induction rows generalizing pending with
  | nil =>
      rw [List.nil_append, tokens, tokens, if_neg (by simpa using hasCode), noLead, List.append_nil]
  | cons first rows ih =>
      rw [List.cons_append, tokens, tokens]
      split
      · exact ih _
      · rw [ih]

/-- What passes over blanks works row by row. -/
theorem fold_tokens {β : Type} {f : List Token → List β}
    (blank : ∀ text rest, f (blankTokens text ++ rest) = f rest)
    (each : ∀ row ∈ rows, ∀ rest, f (row.code ++ rest) = f row.code ++ f rest) (pending : Text)
    (rest : List Token) :
    f (tokens pending rows rest) = (rows.flatMap fun row => f row.code) ++ f rest := by
  induction rows generalizing pending with
  | nil => exact blank pending rest
  | cons row rows ih =>
      have others : ∀ other ∈ rows, ∀ rest, f (other.code ++ rest) = f other.code ++ f rest :=
        fun other member => each other (List.mem_cons_of_mem _ member)
      rw [tokens, List.flatMap_cons, List.append_assoc]
      split
      · rename_i noCode
        have nothing := each row List.mem_cons_self rest
        rw [List.isEmpty_iff.mp noCode, List.nil_append] at nothing
        rw [ih others, List.isEmpty_iff.mp noCode, List.self_eq_append_left.mp nothing,
          List.nil_append]
      · rw [blank, each row List.mem_cons_self, ih others]

/-- What a text in rows is cut into without its remarks. -/
theorem tokenize_rows (written : ∀ row ∈ rows, row.IsWritten) :
    tokenize (stripComments (rows.flatMap text)) = tokens [] rows [] := by
  have rendered := render_tokens [] rows []
  rw [render_nil, List.append_nil, List.nil_append] at rendered
  rw [stripComments_rows written, ← rendered]
  exact IsCut.tokenize_render (isCut_tokens rfl written isCut_nil fun _ first => by cases first)

end

end Row

end Breadboard.Sketch
