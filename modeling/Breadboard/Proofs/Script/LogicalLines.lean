import Breadboard.Proofs.Script.BlockLines
import Breadboard.Proofs.Text.Trim

set_option autoImplicit false

namespace Breadboard.Text

/-- What is to be seen of a text: its characters that are not blank. -/
def shown (text : Text) : Text :=
  text.filter (!isBlank ·)

theorem shown_append (first second : Text) : shown (first ++ second) = shown first ++ shown second :=
  List.filter_append first second

theorem shown_of_allBlank {blank : Text} (all : allBlank blank = true) : shown blank = [] :=
  List.filter_eq_nil_iff.mpr fun c member => by simp [List.all_eq_true.mp all c member]

theorem shown_trim (text : Text) : shown (trim text) = shown text := by
  obtain ⟨front, back, frontBlank, backBlank, split⟩ := exists_trim text
  conv_rhs => rw [split, shown_append, shown_append, shown_of_allBlank frontBlank,
    shown_of_allBlank backBlank, List.nil_append, List.append_nil]

end Breadboard.Text

namespace Breadboard.Script

open Sketch hiding stripComments
open Text (shown shown_append)

theorem allBlank_of_scan {c : Char} {rest : Text} (space : (scan c rest).1 = .space) :
    Text.allBlank (c :: rest.take (scan c rest).2) = true := by
  have start := isSpaceChar_of_scan space
  have run := List.all_eq_true.mp (all_take_runLength isSpaceChar rest)
  rw [scan_space start]
  exact List.all_eq_true.mpr (List.forall_mem_cons.mpr ⟨isBlank_of_isSpaceChar start,
    fun d inRun => isBlank_of_isSpaceChar (run d inRun)⟩)

theorem allBlank_of_mem_tokenize {text : Text} {token : Token} (member : token ∈ tokenize text)
    (space : token.kind = .space) : Text.allBlank token.text = true := by
  obtain ⟨c, rest, rfl⟩ := exists_scan_of_mem_tokenize member
  exact allBlank_of_scan space

/-- The number of open parentheses behind a token. A closing one where none is open counts nothing. -/
def parensAfter (depth : Nat) (token : Token) : Nat :=
  if token.isPunct "(" then depth + 1 else if token.isPunct ")" then depth - 1 else depth

/-- The number of open parentheses behind tokens. -/
def openParens (tokens : List Token) : Nat :=
  tokens.foldl parensAfter 0

theorem parensAfter_of_kind {token : Token} (other : token.kind ≠ .punct) (depth : Nat) :
    parensAfter depth token = depth := by
  have noMark (mark : String) : token.isPunct mark = false := by
    rw [Token.isPunct, beq_eq_false_iff_ne.mpr other, Bool.false_and]
  rw [parensAfter, noMark, noMark]
  rfl

theorem shown_finishLine (collected : Text) : shown (finishLine collected).flatten = shown collected := by
  rw [finishLine, ← Text.shown_trim collected]
  split
  · rename_i nothing
    rw [List.isEmpty_iff.mp nothing]
    rfl
  · rw [List.flatten_singleton]

theorem isTight_finishLine (collected : Text) :
    ∀ line ∈ finishLine collected, Text.IsTight line := by
  intro line member
  rw [finishLine] at member
  split at member
  · cases member
  · rename_i nonempty
    rw [List.mem_singleton.mp member]
    exact Text.isTight_trim (by simpa using nonempty)

section

variable {c : Char} (visible : Text.isBlank c = false)

include visible

/-- Up to a visible character there is one line, and the character ends it. -/
theorem finishLine_concat (collected : Text) :
    ∃ line, finishLine (collected ++ [c]) = [line] ∧ [c] <:+ line := by
  have shownLast : Text.allBlank [c] = false := by simp [Text.allBlank, visible]
  have ends := (Text.trimEnd_append shownLast (Text.trimStart collected)).1
  rw [@Text.trimEnd_of_last [c] (by simpa using visible)] at ends
  have trimmed : Text.trim (collected ++ [c]) = Text.trimStart collected ++ [c] := by
    rw [Text.trim, Text.trimStart_append (by simpa using visible), ends]
  refine ⟨Text.trimStart collected ++ [c], ?_, List.suffix_append _ _⟩
  rw [finishLine, trimmed, if_neg (by simp)]

/-- From a visible character on there is one line, and the character starts it. -/
theorem finishLine_cons (more : Text) :
    ∃ line, finishLine (c :: more) = [line] ∧ [c] <+: line := by
  have start : Text.trimStart (c :: more) = [c] ++ more :=
    Text.trimStart_of_first (by simpa using visible)
  have trimmed : ∃ rest, Text.trim (c :: more) = c :: rest := by
    rw [Text.trim, start]
    cases blank : Text.allBlank more with
    | true =>
        rw [Text.trimEnd_append_blank blank, Text.trimEnd_of_last (by simpa using visible)]
        exact ⟨[], rfl⟩
    | false => exact ⟨Text.trimEnd more, (Text.trimEnd_append blank [c]).1⟩
  obtain ⟨rest, eq⟩ := trimmed
  exact ⟨c :: rest, by rw [finishLine, eq]; rfl, List.prefix_append [c] rest⟩

end

/-- What one token does: the lines that it finishes, and the text that is collected behind it. -/
inductive LineStep (depth : Nat) (collected : Text) (token : Token) : List Text → Text → Prop where
  | collect : LineStep depth collected token [] (collected ++ token.text)
  | lineBreak (space : token.kind = .space) (inText : '\n' ∈ token.text) :
      LineStep depth collected token (finishLine collected) []
  | mark (isMark : token.isPunct "\x7b" = true ∨ token.isPunct ";" = true) (outside : depth = 0) :
      LineStep depth collected token (finishLine (collected ++ token.text)) []
  /-- A closing brace that the next line goes on with. -/
  | closing (closes : token.isPunct "\x7d" = true) :
      LineStep depth collected token (finishLine collected) token.text
  /-- A closing brace on a line of its own. -/
  | closingLine (closes : token.isPunct "\x7d" = true) :
      LineStep depth collected token (finishLine collected ++ finishLine token.text) []

theorem exists_lineStep (depth : Nat) (collected : Text) (token : Token) (rest : List Token) :
    ∃ done onward, LineStep depth collected token done onward ∧
      linesFrom depth collected (token :: rest) =
        done ++ linesFrom (parensAfter depth token) onward rest := by
  rw [linesFrom]
  split
  · rename_i breaks
    obtain ⟨space, inText⟩ : token.kind = .space ∧ '\n' ∈ token.text := by simpa using breaks
    exact ⟨_, _, .lineBreak space inText, by rw [parensAfter_of_kind (by simp [space])]⟩
  · split
    · rename_i opens
      exact ⟨_, _, .collect, by rw [parensAfter, if_pos opens]; rfl⟩
    · rename_i noOpen
      split
      · rename_i closes
        exact ⟨_, _, .collect, by rw [parensAfter, if_neg noOpen, if_pos closes]; rfl⟩
      · rename_i noClose
        rw [show parensAfter depth token = depth by rw [parensAfter, if_neg noOpen, if_neg noClose]]
        split
        · rename_i isMark
          rw [Bool.and_eq_true, Bool.or_eq_true, beq_iff_eq] at isMark
          exact ⟨_, _, .mark isMark.1 isMark.2, rfl⟩
        · split
          · rename_i closes
            split
            · exact ⟨_, _, .closing closes, rfl⟩
            · exact ⟨_, _, .closingLine closes, (List.append_assoc _ _ _).symm⟩
          · exact ⟨_, _, .collect, rfl⟩

namespace LineStep

variable {depth : Nat} {collected onward : Text} {token : Token} {done : List Text}
  (step : LineStep depth collected token done onward)

include step

/-- Nothing but blanks is lost. -/
theorem shown_eq (blank : token.kind = .space → Text.allBlank token.text = true) :
    shown (done.flatten ++ onward) = shown (collected ++ token.text) := by
  cases step with
  | collect => rfl
  | lineBreak space inText =>
      rw [List.append_nil, shown_finishLine, shown_append, Text.shown_of_allBlank (blank space),
        List.append_nil]
  | mark isMark outside => rw [List.append_nil, shown_finishLine]
  | closing closes => rw [shown_append, shown_append, shown_finishLine]
  | closingLine closes =>
      rw [List.append_nil, List.flatten_append, shown_append, shown_append, shown_finishLine,
        shown_finishLine]

theorem isTight : ∀ line ∈ done, Text.IsTight line := by
  cases step with
  | collect => exact fun line member => absurd member List.not_mem_nil
  | lineBreak space inText => exact isTight_finishLine _
  | mark isMark outside => exact isTight_finishLine _
  | closing closes => exact isTight_finishLine _
  | closingLine closes =>
      exact List.forall_mem_append.mpr ⟨isTight_finishLine _, isTight_finishLine _⟩

/-- A token goes on with the line, or finishes what is collected. -/
theorem cases_cons {c : Char} {more : Text} (start : collected = c :: more)
    (visible : Text.isBlank c = false) :
    (done = [] ∧ ∃ text, onward = c :: text) ∨ ∃ line below, done = line :: below ∧ [c] <+: line := by
  subst start
  have finished (text : Text) (lines : List Text) :
      ∃ line below, finishLine (c :: text) ++ lines = line :: below ∧ [c] <+: line := by
    obtain ⟨line, eq, starts⟩ := finishLine_cons visible text
    exact ⟨line, lines, by rw [eq]; rfl, starts⟩
  cases step with
  | collect => exact Or.inl ⟨rfl, more ++ token.text, rfl⟩
  | lineBreak space inText => exact Or.inr (by simpa using finished more [])
  | mark isMark outside => exact Or.inr (by simpa using finished (more ++ token.text) [])
  | closing closes => exact Or.inr (by simpa using finished more [])
  | closingLine closes => exact Or.inr (finished more _)

end LineStep

/-- A line that starts with a visible character keeps it, whatever is added. -/
theorem exists_linesFrom_cons {c : Char} (visible : Text.isBlank c = false) (depth : Nat) (more : Text)
    (tokens : List Token) :
    ∃ line below, linesFrom depth (c :: more) tokens = line :: below ∧ [c] <+: line := by
  induction tokens generalizing depth more with
  | nil =>
      obtain ⟨line, eq, starts⟩ := finishLine_cons visible more
      exact ⟨line, [], eq, starts⟩
  | cons token rest ih =>
      obtain ⟨done, onward, step, eq⟩ := exists_lineStep depth (c :: more) token rest
      rw [eq]
      rcases step.cases_cons rfl visible with ⟨rfl, text, rfl⟩ | ⟨line, below, rfl, starts⟩
      · exact ih _ text
      · exact ⟨line, below ++ linesFrom _ onward rest, rfl, starts⟩

/-- A brace or a semicolon outside parentheses ends the line. -/
theorem exists_linesFrom_mark {mark : Token}
    (isMark : mark.isPunct "\x7b" = true ∨ mark.isPunct ";" = true) (collected : Text)
    (rest : List Token) :
    ∃ line, linesFrom 0 collected (mark :: rest) = line :: linesFrom 0 [] rest ∧
      mark.text <:+ line ∧ shown line = shown (collected ++ mark.text) := by
  have step : linesFrom 0 collected (mark :: rest) =
      finishLine (collected ++ mark.text) ++ linesFrom 0 [] rest := by
    rcases isMark with isMark | isMark <;> rw [eq_of_isPunct isMark] <;> rfl
  obtain ⟨c, visible, text⟩ : ∃ c, Text.isBlank c = false ∧ mark.text = [c] := by
    rcases isMark with isMark | isMark <;> rw [eq_of_isPunct isMark]
    · exact ⟨'\x7b', rfl, rfl⟩
    · exact ⟨';', rfl, rfl⟩
  obtain ⟨line, finish, ends⟩ := finishLine_concat visible collected
  have same := shown_finishLine (collected ++ [c])
  rw [finish, List.flatten_singleton] at same
  exact ⟨line, by rw [step, text, finish]; rfl, text ▸ ends, by rw [same, text]⟩

/-- A closing brace ends the line before it and starts one. -/
theorem exists_linesFrom_closing {mark : Token} (closing : mark.isPunct "\x7d" = true) (depth : Nat)
    (collected : Text) (rest : List Token) :
    ∃ line below, linesFrom depth collected (mark :: rest) = finishLine collected ++ line :: below ∧
      mark.text <+: line := by
  rw [eq_of_isPunct closing]
  have step : linesFrom depth collected (⟨.punct, "\x7d".toList⟩ :: rest) = finishLine collected ++
      if (dropTrivia rest).head?.any (·.isIdent "else") then linesFrom depth ['\x7d'] rest
      else ['\x7d'] :: linesFrom depth [] rest := rfl
  rw [step]
  split
  · obtain ⟨line, below, lines, starts⟩ :=
      @exists_linesFrom_cons '\x7d' (by decide) depth [] rest
    exact ⟨line, below, by rw [lines], starts⟩
  · exact ⟨['\x7d'], linesFrom depth [] rest, rfl, List.prefix_refl _⟩

/-- Behind a run of tokens some lines are finished and the rest is collected; nothing but blanks is lost. -/
theorem exists_linesFrom_append {front : List Token}
    (blank : ∀ token ∈ front, token.kind = .space → Text.allBlank token.text = true) (depth : Nat)
    (collected : Text) (rest : List Token) :
    ∃ finished onward, linesFrom depth collected (front ++ rest) =
        finished ++ linesFrom (front.foldl parensAfter depth) onward rest ∧
      shown (finished.flatten ++ onward) = shown (collected ++ render front) := by
  induction front generalizing depth collected with
  | nil => exact ⟨[], collected, rfl, by simp⟩
  | cons token more ih =>
      obtain ⟨here, later⟩ := List.forall_mem_cons.mp blank
      obtain ⟨first, text, step, eq⟩ := exists_lineStep depth collected token (more ++ rest)
      obtain ⟨finished, onward, run, shownRest⟩ := ih later (parensAfter depth token) text
      refine ⟨first ++ finished, onward, ?_, ?_⟩
      · rw [List.cons_append, eq, run, List.append_assoc]
        rfl
      · rw [List.flatten_append, List.append_assoc, shown_append, shownRest, ← shown_append,
          ← List.append_assoc, shown_append, step.shown_eq here, ← shown_append, List.append_assoc,
          render_cons]

theorem isTight_linesFrom (depth : Nat) (collected : Text) (tokens : List Token) :
    ∀ line ∈ linesFrom depth collected tokens, Text.IsTight line := by
  induction tokens generalizing depth collected with
  | nil => exact isTight_finishLine collected
  | cons token rest ih =>
      obtain ⟨done, onward, step, eq⟩ := exists_lineStep depth collected token rest
      rw [eq]
      exact List.forall_mem_append.mpr ⟨step.isTight, ih _ _⟩

/-- Between the tokens a line may end: behind a closing brace, behind a semicolon or an opening brace outside
parentheses, before a closing brace, and at a line break. -/
def IsLineEnd (depth : Nat) (before after : List Token) : Prop :=
  (∃ mark ∈ before.getLast?, mark.isPunct "\x7d" = true ∨
    (mark.isPunct "\x7b" = true ∨ mark.isPunct ";" = true) ∧ before.foldl parensAfter depth = 0) ∨
  ∃ next ∈ after.head?, next.isPunct "\x7d" = true ∨ next.kind = .space ∧ '\n' ∈ next.text

theorem IsLineEnd.cons {depth : Nat} {token : Token} {before after : List Token}
    (ends : IsLineEnd (parensAfter depth token) before after) :
    IsLineEnd depth (token :: before) after := by
  refine ends.imp_left ?_
  rintro ⟨mark, isLast, kind⟩
  have last : (token :: before).getLast? = before.getLast? := by
    rw [List.getLast?_cons, Option.mem_def.mp isLast]
    rfl
  exact ⟨mark, Option.mem_def.mpr (last.trans isLast), kind⟩

/-- A cut behind a finished line, or one further on. -/
theorem cut_finishLine {text : Text} {lines above below : List Text} (nonempty : above ≠ [])
    (cut : finishLine text ++ lines = above ++ below) :
    above = finishLine text ∨
      ∃ later, later ≠ [] ∧ above = finishLine text ++ later ∧ lines = later ++ below := by
  rcases List.append_eq_append_iff.mp cut with ⟨later, whole, rest⟩ | ⟨later, whole, rest⟩
  · by_cases nothing : later = []
    · exact Or.inl (by rw [whole, nothing, List.append_nil])
    · exact Or.inr ⟨later, nothing, whole, rest⟩
  · have single : (finishLine text).length ≤ 1 := by
      rw [finishLine]
      split <;> simp
    have atLeast := List.length_pos_iff.mpr nonempty
    rw [whole, List.length_append] at single
    have nothing : later = [] := List.length_eq_zero_iff.mp (by omega)
    exact Or.inl (by rw [whole, nothing, List.append_nil])

theorem eq_finishLine {text : Text} {above below : List Text} (nonempty : above ≠ [])
    (cut : finishLine text = above ++ below) : above = finishLine text := by
  rw [← List.append_nil (finishLine text)] at cut
  rcases cut_finishLine nonempty cut with same | ⟨later, laterSome, -, nothing⟩
  · exact same
  · exact absurd (List.append_eq_nil_iff.mp nothing.symm).1 laterSome

/-- The lines show what is collected and the tokens up to a place where a line may end. -/
def EndsAt (depth : Nat) (collected : Text) (tokens : List Token) (lines : List Text) : Prop :=
  ∃ before after, tokens = before ++ after ∧ IsLineEnd depth before after ∧
    shown lines.flatten = shown (collected ++ render before)

section

variable {depth : Nat} {collected : Text} {token : Token} {rest : List Token}

theorem endsAt_start (ends : IsLineEnd depth [] (token :: rest)) :
    EndsAt depth collected (token :: rest) (finishLine collected) :=
  ⟨[], token :: rest, rfl, ends, by rw [shown_finishLine, render_nil, List.append_nil]⟩

theorem endsAt_token {lines : List Text} (ends : IsLineEnd depth [token] rest)
    (same : shown lines.flatten = shown (collected ++ token.text)) :
    EndsAt depth collected (token :: rest) lines :=
  ⟨[token], rest, rfl, ends, by rw [same, render_cons, render_nil, List.append_nil]⟩

theorem EndsAt.cons {text : Text} {lines : List Text}
    (later : EndsAt (parensAfter depth token) text rest lines) {done : List Text}
    (same : shown (done.flatten ++ text) = shown (collected ++ token.text)) :
    EndsAt depth collected (token :: rest) (done ++ lines) := by
  obtain ⟨before, after, split, ends, shownLines⟩ := later
  refine ⟨token :: before, after, by rw [split]; rfl, ends.cons, ?_⟩
  rw [List.flatten_append, shown_append, shownLines, ← shown_append, ← List.append_assoc,
    shown_append, same, ← shown_append, List.append_assoc, render_cons]

end

/-- Between the lines that one token finishes there is an end as well. -/
theorem LineStep.endsAt {depth : Nat} {collected onward : Text} {token : Token} {rest : List Token}
    {done above below : List Text} (step : LineStep depth collected token done onward)
    (nonempty : above ≠ []) (cut : done = above ++ below) : EndsAt depth collected (token :: rest) above := by
  cases step with
  | collect => exact absurd (List.append_eq_nil_iff.mp cut.symm).1 nonempty
  | lineBreak space inText =>
      rw [eq_finishLine nonempty cut]
      exact endsAt_start (Or.inr ⟨token, rfl, Or.inr ⟨space, inText⟩⟩)
  | mark isMark outside =>
      rw [eq_finishLine nonempty cut]
      have other : parensAfter depth token = depth := by
        rcases isMark with isMark | isMark <;> rw [eq_of_isPunct isMark] <;> rfl
      refine endsAt_token (Or.inl ⟨token, rfl, Or.inr ⟨isMark, ?_⟩⟩) (shown_finishLine _)
      rw [List.foldl_cons, List.foldl_nil, other, outside]
  | closing closes =>
      rw [eq_finishLine nonempty cut]
      exact endsAt_start (Or.inr ⟨token, rfl, Or.inl closes⟩)
  | closingLine closes =>
      rcases cut_finishLine nonempty cut with rfl | ⟨later, laterSome, rfl, eq⟩
      · exact endsAt_start (Or.inr ⟨token, rfl, Or.inl closes⟩)
      · rw [eq_finishLine laterSome eq]
        refine endsAt_token (Or.inl ⟨token, rfl, Or.inl closes⟩) ?_
        rw [List.flatten_append, shown_append, shown_append, shown_finishLine, shown_finishLine]

/-- Lines are cut at their ends only. -/
theorem endsAt_of_cut {tokens : List Token}
    (blank : ∀ token ∈ tokens, token.kind = .space → Text.allBlank token.text = true) {depth : Nat}
    {collected : Text} {above below : List Text} (aboveSome : above ≠ []) (belowSome : below ≠ [])
    (cut : linesFrom depth collected tokens = above ++ below) :
    EndsAt depth collected tokens above := by
  induction tokens generalizing depth collected above with
  | nil =>
      rw [linesFrom] at cut
      have whole := eq_finishLine aboveSome cut
      rw [← whole] at cut
      exact absurd (List.self_eq_append_right.mp cut) belowSome
  | cons token rest ih =>
      obtain ⟨here, later⟩ := List.forall_mem_cons.mp blank
      obtain ⟨done, onward, step, eq⟩ := exists_lineStep depth collected token rest
      rw [eq] at cut
      rcases List.append_eq_append_iff.mp cut with ⟨more, whole, behind⟩ | ⟨more, whole, -⟩
      · by_cases nothing : more = []
        · rw [nothing, List.append_nil] at whole
          exact step.endsAt aboveSome (by rw [whole, List.append_nil])
        · rw [whole]
          exact (ih later nothing behind).cons (step.shown_eq here)
      · exact step.endsAt aboveSome whole

/-- How the lines are cut from a text: nothing but blanks is lost, no line is empty or has a blank at its
ends, and the marks stand where a line ends or starts. -/
structure IsLineCut (body : Text) (lines : List Text) : Prop where
  lossless : shown lines.flatten = shown body
  tight : ∀ line ∈ lines, Text.IsTight line
  /-- An opening brace or a semicolon outside parentheses ends its line. -/
  ends : ∀ before mark after, tokenize body = before ++ mark :: after → openParens before = 0 →
    mark.isPunct "\x7b" = true ∨ mark.isPunct ";" = true →
      ∃ above line below, lines = above ++ line :: below ∧ mark.text <:+ line ∧
        shown (above ++ [line]).flatten = shown (render (before ++ [mark]))
  /-- A closing brace starts its line. -/
  starts : ∀ before mark after, tokenize body = before ++ mark :: after →
    mark.isPunct "\x7d" = true →
      ∃ above line below, lines = above ++ line :: below ∧ mark.text <+: line ∧
        shown above.flatten = shown (render before)
  /-- Two lines meet only where one may end. -/
  apart : ∀ above below, lines = above ++ below → above ≠ [] → below ≠ [] →
    ∃ before after, tokenize body = before ++ after ∧ IsLineEnd 0 before after ∧
      shown above.flatten = shown (render before)

theorem isLineCut_logicalLines (body : Text) : IsLineCut body (logicalLines body) := by
  have blank : ∀ token ∈ tokenize body, token.kind = .space → Text.allBlank token.text = true :=
    fun token member => allBlank_of_mem_tokenize member
  -- Up to any token some lines are finished, and what follows depends on the token alone.
  have front {before after : List Token} (split : tokenize body = before ++ after) :
      ∃ finished onward, logicalLines body =
          finished ++ linesFrom (openParens before) onward after ∧
        shown (finished.flatten ++ onward) = shown (render before) := by
    rw [logicalLines, split]
    exact exists_linesFrom_append
      (fun token member => blank token (split ▸ List.mem_append_left after member)) 0 [] after
  refine ⟨?_, isTight_linesFrom 0 [] _, ?_, ?_, ?_⟩
  · obtain ⟨finished, onward, lines, same⟩ := front (List.append_nil _).symm
    rw [linesFrom] at lines
    rw [lines, List.flatten_append, shown_append, shown_finishLine, ← shown_append, same,
      render_tokenize]
  · intro before mark after split outside isMark
    obtain ⟨finished, onward, lines, same⟩ := front split
    rw [outside] at lines
    obtain ⟨line, step, ends, shownLine⟩ := exists_linesFrom_mark isMark onward after
    refine ⟨finished, line, linesFrom 0 [] after, by rw [lines, step], ends, ?_⟩
    rw [List.flatten_append, List.flatten_singleton, shown_append, shownLine, ← shown_append,
      ← List.append_assoc, shown_append, same, ← shown_append, render_append, render_cons, render_nil,
      List.append_nil]
  · intro before mark after split closing
    obtain ⟨finished, onward, lines, same⟩ := front split
    obtain ⟨line, below, step, starts⟩ := exists_linesFrom_closing closing (openParens before) onward after
    refine ⟨finished ++ finishLine onward, line, below, ?_, starts, ?_⟩
    · rw [lines, step, List.append_assoc]
    · rw [List.flatten_append, shown_append, shown_finishLine, ← shown_append, same]
  · intro above below cut aboveSome belowSome
    exact endsAt_of_cut blank aboveSome belowSome cut

end Breadboard.Script
