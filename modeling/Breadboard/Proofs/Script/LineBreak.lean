import Breadboard.Proofs.Script.BlockTokens

set_option autoImplicit false

namespace Breadboard.Script

open Sketch hiding stripComments

theorem not_mem_render {tokens : List Token} (unbroken : ∀ token ∈ tokens, '\n' ∉ token.text) :
    '\n' ∉ render tokens := by
  intro member
  obtain ⟨token, inTokens, inText⟩ := List.mem_flatMap.mp member
  exact unbroken token inTokens inText

theorem not_mem_of_words {text : Text} (words : text.all isWordChar = true) : '\n' ∉ text := by
  intro member
  have word := List.all_eq_true.mp words '\n' member
  cases word

theorem IsScriptName.not_mem {name : Text} (script : IsScriptName name) : '\n' ∉ name :=
  not_mem_of_words (List.all_eq_true.mpr fun c member =>
    (Bool.and_eq_true_iff.mp (List.all_eq_true.mp script.small c member)).1)

theorem not_mem_trim {c : Char} {text : Text} (absent : c ∉ text) : c ∉ Text.trim text := by
  intro member
  rw [Text.trim, Text.trimEnd, Text.trimStart, List.mem_reverse] at member
  have inStart := List.mem_reverse.mp ((List.dropWhile_suffix _).subset member)
  exact absent ((List.dropWhile_suffix _).subset inStart)

theorem not_mem_normalizeWords {tokens : List Token} (unbroken : '\n' ∉ render tokens)
    (previous : Option Token) : '\n' ∉ render (normalizeWords previous tokens) := by
  refine not_mem_render fun token member breaks => ?_
  rcases mem_normalizeWords member with stays | rfl | ⟨-, word⟩
  · exact unbroken (List.mem_flatMap.mpr ⟨token, stays, breaks⟩)
  · exact absurd breaks (by decide)
  · exact not_mem_of_words word breaks

theorem subset_of_splitGroup {opening closing : String} {depth : Nat}
    {tokens inner after : List Token}
    (group : splitGroup opening closing depth tokens = some (inner, after)) :
    inner ⊆ tokens ∧ after ⊆ tokens := by
  induction tokens generalizing depth inner with
  | nil => cases group
  | cons token rest ih =>
      have extended {inside : Nat} (found : (splitGroup opening closing inside rest).map
          (fun group => (token :: group.1, group.2)) = some (inner, after)) :
          inner ⊆ token :: rest ∧ after ⊆ token :: rest := by
        obtain ⟨⟨innerRest, afterRest⟩, ended, eq⟩ := Option.map_eq_some_iff.mp found
        obtain ⟨rfl, rfl⟩ := Prod.mk.inj eq
        obtain ⟨innerIn, afterIn⟩ := ih ended
        exact ⟨List.cons_subset_cons _ innerIn, List.subset_cons_of_subset _ afterIn⟩
      rw [splitGroup_cons] at group
      split at group
      · exact extended group
      · split at group
        · cases depth with
          | zero =>
              obtain ⟨rfl, rfl⟩ := Prod.mk.inj (Option.some.inj group)
              exact ⟨List.nil_subset _, List.subset_cons_self _ _⟩
          | succ depth => exact extended group
        · exact extended group

theorem subset_of_parenthesized? {tokens inner after : List Token}
    (group : parenthesized? tokens = some (inner, after)) : inner ⊆ tokens ∧ after ⊆ tokens := by
  unfold parenthesized? at group
  have inTokens : dropTrivia tokens ⊆ tokens := (List.dropWhile_suffix _).subset
  split at group
  · cases group
  · rename_i token rest dropped
    rw [dropped] at inTokens
    have restIn := List.Subset.trans (List.subset_cons_self token rest) inTokens
    split at group
    · obtain ⟨innerIn, afterIn⟩ := subset_of_splitGroup group
      exact ⟨List.Subset.trans innerIn restIn, List.Subset.trans afterIn restIn⟩
    · cases group

/-- What a header takes from a line comes from the line's tokens. -/
structure Header.IsOf (header : Header) (tokens : List Token) : Prop where
  keyword : '\n' ∉ header.keyword
  condition : ∀ condition ∈ header.condition, ∀ c ∈ condition, c ∈ Sketch.render tokens
  after : header.after ⊆ tokens

theorem mem_render_of_subset {first second : List Token} (subset : first ⊆ second) {c : Char}
    (member : c ∈ render first) : c ∈ render second := by
  obtain ⟨token, inFirst, inText⟩ := List.mem_flatMap.mp member
  exact List.mem_flatMap.mpr ⟨token, subset inFirst, inText⟩

theorem mem_of_mem_trim {c : Char} {text : Text} (member : c ∈ Text.trim text) : c ∈ text := by
  by_contra absent
  exact not_mem_trim absent member

theorem Header.IsOf.mono {header : Header} {first second : List Token} (isOf : header.IsOf first)
    (subset : first ⊆ second) : header.IsOf second :=
  ⟨isOf.keyword, fun condition found c member =>
    mem_render_of_subset subset (isOf.condition condition found c member),
    List.Subset.trans isOf.after subset⟩

theorem dropTrivia_subset (tokens : List Token) : dropTrivia tokens ⊆ tokens :=
  (List.dropWhile_suffix _).subset

theorem isOf_of_conditional? {keyword : String} {tokens : List Token} {header : Header}
    (plain : '\n' ∉ keyword.toList) (found : conditional? keyword tokens = some header) :
    header.IsOf tokens := by
  obtain ⟨⟨inner, after⟩, group, rfl⟩ := Option.map_eq_some_iff.mp found
  have parts := subset_of_parenthesized? group
  refine ⟨plain, fun condition isCondition c member => ?_, parts.2⟩
  obtain rfl := Option.some.inj isCondition
  exact mem_render_of_subset parts.1 (mem_of_mem_trim member)

theorem isOf_else {tokens rest : List Token} (restIn : rest ⊆ tokens) :
    Header.IsOf ⟨"else".toList, none, rest⟩ tokens where
  keyword := show '\n' ∉ "else".toList by decide
  condition := fun _ found => by cases found
  after := restIn

theorem isOf_of_headerAt? {tokens : List Token} {header : Header}
    (found : headerAt? tokens = some header) : header.IsOf tokens := by
  unfold headerAt? at found
  split at found
  · cases found
  · rename_i token rest
    have restIn := List.subset_cons_self token rest
    split at found
    · split at found
      · obtain rfl := Option.some.inj found
        exact isOf_else restIn
      · rename_i next more dropped
        have moreIn : more ⊆ rest := by
          have inRest := dropTrivia_subset rest
          rw [dropped] at inRest
          exact List.Subset.trans (List.subset_cons_self next more) inRest
        split at found
        · exact (isOf_of_conditional? (by decide) found).mono (List.Subset.trans moreIn restIn)
        · obtain rfl := Option.some.inj found
          exact isOf_else restIn
    · split at found
      · exact (isOf_of_conditional? (by decide) found).mono restIn
      · split at found
        · exact (isOf_of_conditional? (by decide) found).mono restIn
        · cases found

theorem isOf_of_header? {tokens : List Token} {header : Header}
    (found : header? tokens = some header) : header.IsOf tokens := by
  unfold header? at found
  split at found
  · cases found
  · rename_i token rest dropped
    have inTokens := dropTrivia_subset tokens
    rw [dropped] at inTokens
    split at found
    · have restIn := List.Subset.trans (List.subset_cons_self token rest) inTokens
      exact (isOf_of_headerAt? found).mono (List.Subset.trans (dropTrivia_subset rest) restIn)
    · exact (isOf_of_headerAt? found).mono inTokens

theorem dropOpeningBrace_subset (tokens : List Token) : dropOpeningBrace tokens ⊆ tokens := by
  unfold dropOpeningBrace
  split
  · exact List.Subset.refl _
  · rename_i token rest dropped
    have inTokens := dropTrivia_subset tokens
    rw [dropped] at inTokens
    split
    · exact List.Subset.trans (List.subset_cons_self token rest) inTokens
    · exact List.Subset.refl _

theorem Header.IsOf.not_mem_render {header : Header} {tokens : List Token}
    (isOf : header.IsOf tokens) (unbroken : '\n' ∉ Sketch.render tokens) : '\n' ∉ header.render := by
  have trailing : '\n' ∉ Text.trim (Sketch.render (dropOpeningBrace header.after)) := fun member =>
    unbroken (mem_render_of_subset (List.Subset.trans (dropOpeningBrace_subset _) isOf.after)
      (mem_of_mem_trim member))
  have condition : '\n' ∉ (header.condition.map (' ' :: ·)).getD [] := by
    cases found : header.condition with
    | none => simp
    | some condition =>
        have := fun member => unbroken (isOf.condition condition found '\n' member)
        simpa using this
  rw [Header.render]
  split
  · simp [isOf.keyword, condition]
  · simp [isOf.keyword, condition, trailing]

theorem not_mem_convertHeader {tokens : List Token} (unbroken : '\n' ∉ render tokens) :
    '\n' ∉ render (convertHeader tokens) := by
  unfold convertHeader
  split
  · exact unbroken
  · rename_i header found
    rw [render_tokenize]
    exact (isOf_of_header? found).not_mem_render unbroken

/-- The texts of a call hold no line break. -/
structure Call.IsUnbroken (call : Call) : Prop where
  args : ∀ arg ∈ call.args, '\n' ∉ arg
  inner : '\n' ∉ call.inner

theorem subset_of_mem_pieces {depth : Nat} {tokens piece : List Token}
    (member : piece ∈ pieces depth tokens) : piece ⊆ tokens := by
  induction tokens generalizing depth piece with
  | nil => simp_all [pieces]
  | cons token rest ih =>
      rcases pieces_cons depth token rest with ⟨-, eq⟩ | ⟨_, head, more, others, eq⟩
      · rw [eq] at member
        rcases List.mem_cons.mp member with rfl | inRest
        · exact List.nil_subset _
        · exact List.Subset.trans (ih inRest) (List.subset_cons_self token rest)
      · rw [eq] at member
        rcases List.mem_cons.mp member with rfl | inMore
        · have inRest := ih (others ▸ List.mem_cons_self : head ∈ pieces _ rest)
          exact List.cons_subset_cons token inRest
        · have inRest := ih (others ▸ List.mem_cons_of_mem _ inMore : piece ∈ pieces _ rest)
          exact List.Subset.trans inRest (List.subset_cons_self token rest)

theorem isUnbroken_ofTokens {inner : List Token} (unbroken : '\n' ∉ render inner) :
    (Call.ofTokens inner).IsUnbroken := by
  refine ⟨fun arg member => ?_, not_mem_trim unbroken⟩
  simp only [Call.ofTokens, arguments] at member
  split at member
  · cases member
  · obtain ⟨piece, isPiece, rfl⟩ := List.mem_map.mp member
    exact not_mem_trim fun breaks => unbroken (mem_render_of_subset (subset_of_mem_pieces isPiece) breaks)

theorem subset_of_afterPath? {parts : List String} {tokens after : List Token}
    (found : afterPath? parts tokens = some after) : after ⊆ tokens := by
  induction parts generalizing tokens with
  | nil =>
      obtain rfl := Option.some.inj found
      exact List.Subset.refl _
  | cons part parts ih =>
      rw [afterPath?] at found
      have inTokens := dropTrivia_subset tokens
      split at found
      · cases found
      · rename_i token rest dropped
        rw [dropped] at inTokens
        split at found
        · exact List.Subset.trans (ih found)
            (List.Subset.trans (List.subset_cons_self token rest) inTokens)
        · cases found

section

variable {head : String} {tail : List String} {replacement : Call → Option Text}

theorem parts_of_callAt? {token : Token} {rest after : List Token} {call : Call}
    (called : callAt? head tail token rest = some (call, after)) :
    ∃ inner, call = Call.ofTokens inner ∧ inner ⊆ rest ∧ after ⊆ rest := by
  rw [callAt?] at called
  split at called
  · obtain ⟨behind, path, called⟩ := Option.bind_eq_some_iff.mp called
    obtain ⟨⟨inner, left⟩, group, made⟩ := Option.bind_eq_some_iff.mp called
    obtain ⟨rfl, rfl⟩ := Prod.mk.inj (Option.some.inj made)
    have parts := subset_of_parenthesized? group
    have inRest := subset_of_afterPath? path
    exact ⟨inner, rfl, List.Subset.trans parts.1 inRest, List.Subset.trans parts.2 inRest⟩
  · cases called

/-- The text for an unbroken call is unbroken. -/
def KeepsLines (replacement : Call → Option Text) : Prop :=
  ∀ call text, call.IsUnbroken → replacement call = some text → '\n' ∉ text

theorem KeepsLines.not_mem_replaced? (keeps : KeepsLines replacement) {afterDot : Bool} {token : Token}
    {rest made : List Token} (unbroken : '\n' ∉ render rest)
    (found : replaced? head tail replacement afterDot token rest = some made) : '\n' ∉ render made := by
  rw [replaced?] at found
  split at found
  · cases found
  · obtain ⟨⟨call, after⟩, called, found⟩ := Option.bind_eq_some_iff.mp found
    obtain ⟨text, isText, rfl⟩ := Option.map_eq_some_iff.mp found
    obtain ⟨inner, rfl, innerIn, afterIn⟩ := parts_of_callAt? called
    have inside := isUnbroken_ofTokens fun breaks => unbroken (mem_render_of_subset innerIn breaks)
    rw [render_append, render_tokenize, List.mem_append, not_or]
    exact ⟨keeps _ _ inside isText, fun breaks => unbroken (mem_render_of_subset afterIn breaks)⟩

theorem KeepsLines.not_mem_replaceWithin (keeps : KeepsLines replacement) {budget : Nat}
    {afterDot : Bool} {tokens : List Token} (unbroken : '\n' ∉ render tokens) :
    '\n' ∉ render (replaceWithin head tail replacement budget afterDot tokens) := by
  -- A replaced call costs some of the budget and may leave a longer list, a token that stays shortens it.
  induction budget using Nat.strongRecOn generalizing afterDot tokens with
  | ind budget ihBudget =>
      induction tokens generalizing afterDot with
      | nil => rwa [replaceWithin]
      | cons token rest ih =>
          have both := unbroken
          rw [render_cons, List.mem_append, not_or] at both
          rcases @replaceWithin_cons head tail replacement budget afterDot token rest with
            ⟨smaller, first, more, rfl, found, eq⟩ | eq
          · have made := keeps.not_mem_replaced? both.2 found
            rw [render_cons, List.mem_append, not_or] at made
            rw [eq, render_cons, List.mem_append, not_or]
            exact ⟨made.1, ihBudget smaller (Nat.lt_succ_self _) made.2⟩
          · rw [eq, render_cons, List.mem_append, not_or]
            exact ⟨both.1, ih both.2⟩

theorem KeepsLines.not_mem_replaceCalls (keeps : KeepsLines replacement) {tokens : List Token}
    (unbroken : '\n' ∉ render tokens) : '\n' ∉ render (replaceCalls head tail replacement tokens) :=
  keeps.not_mem_replaceWithin unbroken

end

theorem subset_stripTypes (afterType : Bool) (tokens : List Token) :
    stripTypes afterType tokens ⊆ tokens := by
  induction tokens generalizing afterType with
  | nil => exact List.Subset.refl _
  | cons token rest ih =>
      have inRest (afterType : Bool) : stripTypes afterType rest ⊆ token :: rest :=
        List.Subset.trans (ih afterType) (List.subset_cons_self token rest)
      rw [stripTypes]
      split
      · exact inRest true
      · split
        · exact inRest true
        · exact List.cons_subset_cons token (ih false)

theorem not_mem_levelText {level : Text} (unbroken : '\n' ∉ level) : '\n' ∉ levelText level := by
  unfold levelText
  split
  · decide
  · split
    · decide
    · exact unbroken

section

variable {context : Context} {tokens : List Token}

theorem not_mem_of_digitalName? (names : context.HasScriptNames) {first second : Binding → Bool}
    {source name : Text}
    (found : digitalName? (context.namesByPin first) (context.namesByPin second) source = some name) :
    '\n' ∉ name :=
  (isScriptName_digitalName? names found).2.not_mem

theorem not_mem_stripTypes (unbroken : '\n' ∉ render tokens) (afterType : Bool) :
    '\n' ∉ render (stripTypes afterType tokens) :=
  fun breaks => unbroken (mem_render_of_subset (subset_stripTypes afterType tokens) breaks)

theorem not_mem_convertAnalogRead (names : context.HasScriptNames) (unbroken : '\n' ∉ render tokens) :
    '\n' ∉ render (convertAnalogRead context tokens) := by
  refine KeepsLines.not_mem_replaceCalls (fun call text inside found => ?_) unbroken
  split at found
  · obtain ⟨name, isName, rfl⟩ := Option.map_eq_some_iff.mp found
    simp [(isScriptName_analogName? names isName).not_mem]
  · cases found

theorem not_mem_convertDigitalWrite (names : context.HasScriptNames) (unbroken : '\n' ∉ render tokens) :
    '\n' ∉ render (convertDigitalWrite context tokens) := by
  refine KeepsLines.not_mem_replaceCalls (fun call text inside found => ?_) unbroken
  split at found
  · rename_i source level args
    obtain ⟨name, isName, rfl⟩ := Option.map_eq_some_iff.mp found
    have levelUnbroken := not_mem_levelText (inside.args level (by simp [args]))
    simp [not_mem_of_digitalName? names isName, levelUnbroken]
  · cases found

theorem not_mem_convertDigitalRead (names : context.HasScriptNames) (unbroken : '\n' ∉ render tokens) :
    '\n' ∉ render (convertDigitalRead context tokens) := by
  refine KeepsLines.not_mem_replaceCalls (fun call text inside found => ?_) unbroken
  split at found
  · obtain ⟨name, isName, rfl⟩ := Option.map_eq_some_iff.mp found
    simp [not_mem_of_digitalName? names isName]
  · cases found

theorem not_mem_convertPrintLine (unbroken : '\n' ∉ render tokens) :
    '\n' ∉ render (convertPrintLine tokens) := by
  refine KeepsLines.not_mem_replaceCalls (fun call text inside found => ?_) unbroken
  obtain rfl := Option.some.inj found
  simp [inside.inner]

theorem not_mem_convertPrint (unbroken : '\n' ∉ render tokens) :
    '\n' ∉ render (convertPrint tokens) := by
  refine KeepsLines.not_mem_replaceCalls (fun call text inside found => ?_) unbroken
  split at found
  · obtain rfl := Option.some.inj found
    decide
  · obtain rfl := Option.some.inj found
    simp [inside.inner]

theorem not_mem_convertDelay (unbroken : '\n' ∉ render tokens) :
    '\n' ∉ render (convertDelay tokens) := by
  refine KeepsLines.not_mem_replaceCalls (fun call text inside found => ?_) unbroken
  split at found
  · cases found
  · obtain rfl := Option.some.inj found
    simp [inside.inner]

theorem not_mem_convertCalls (names : context.HasScriptNames) (unbroken : '\n' ∉ render tokens) :
    '\n' ∉ render (convertCalls context tokens) := by
  have stripped := not_mem_stripTypes unbroken false
  have analog := not_mem_convertAnalogRead names stripped
  have write := not_mem_convertDigitalWrite names analog
  have read := not_mem_convertDigitalRead names write
  exact not_mem_convertDelay (not_mem_convertPrint (not_mem_convertPrintLine read))

end

/-- A line that does not break becomes a line that does not break. -/
theorem not_mem_convertLine {context : Context} (names : context.HasScriptNames) {line : Text}
    (unbroken : '\n' ∉ line) : '\n' ∉ convertLine context line := by
  have code : '\n' ∉ render (Script.stripComments (tokenize line)) := by
    intro breaks
    have inLine := mem_render_of_subset (fun _ kept => (List.mem_filter.mp kept).1) breaks
    rw [render_tokenize] at inLine
    exact unbroken inLine
  have called := not_mem_convertCalls names code
  rw [convertLine]
  refine not_mem_trim fun member => ?_
  exact not_mem_convertHeader (not_mem_normalizeWords called none)
    (mem_render_of_subset (fun _ kept => (List.mem_filter.mp kept).1) member)

theorem Code.not_mem (code : Code) : '\n' ∉ code.text := by
  intro breaks
  have inLine := List.all_eq_true.mp code.inLine '\n' breaks
  cases inLine

theorem not_mem_conditionText {context : Context} (names : context.HasScriptNames) (code : Code) :
    '\n' ∉ conditionText context code.text := by
  have called := @not_mem_convertCalls _ (tokenize code.text) names
    (by rw [render_tokenize]; exact code.not_mem)
  exact not_mem_trim (not_mem_normalizeWords called none)

theorem Spacing.not_mem (spacing : Spacing) : '\n' ∉ spacing.text := by
  simpa using spacing.sameLine

theorem Simple.not_mem_source {context : Context} (simple : Simple context) : '\n' ∉ simple.source := by
  simp [Simple.source, simple.not_mem, simple.trailing.not_mem]

theorem Guard.not_mem_line {context : Context} (names : context.HasScriptNames) (guard : Guard)
    (depth : Nat) {keyword : String} (plain : '\n' ∉ keyword.toList) :
    '\n' ∉ (guard.line context depth keyword).text := by
  have condition := not_mem_conditionText names guard.condition
  simp [Guard.line, plain, condition]

/-- Lines that all stay unbroken. -/
def AreUnbroken (lines : List ScriptLine) : Prop :=
  ∀ line ∈ lines, '\n' ∉ line.text

theorem AreUnbroken.cons {line : ScriptLine} {lines : List ScriptLine}
    (first : '\n' ∉ line.text) (others : AreUnbroken lines) : AreUnbroken (line :: lines) :=
  List.forall_mem_cons.mpr ⟨first, others⟩

theorem AreUnbroken.append {first second : List ScriptLine} (firstLines : AreUnbroken first)
    (secondLines : AreUnbroken second) : AreUnbroken (first ++ second) :=
  List.forall_mem_append.mpr ⟨firstLines, secondLines⟩

theorem AreUnbroken.orPass {lines : List ScriptLine} (unbroken : AreUnbroken lines) (depth : Nat) :
    AreUnbroken (orPass depth lines) := by
  unfold Script.orPass
  split
  · exact .cons (show '\n' ∉ passText by decide) (by simp [AreUnbroken])
  · exact unbroken

mutual

theorem Statement.areUnbroken_lines {context : Context} (names : context.HasScriptNames) :
    ∀ (statement : Statement context) (depth : Nat), AreUnbroken (statement.lines depth)
  | .simple code, depth => by
      rw [Statement.lines]
      exact .cons (not_mem_convertLine names code.not_mem_source) (by simp [AreUnbroken])
  | .branch guard body next, depth => by
      rw [Statement.lines]
      exact .cons (guard.not_mem_line names depth (by decide))
        (((body.areUnbroken_lines names (depth + 1)).orPass _).append
          (next.areUnbroken_lines names depth))
  | .loop guard body, depth => by
      rw [Statement.lines]
      exact .cons (guard.not_mem_line names depth (by decide))
        ((body.areUnbroken_lines names (depth + 1)).orPass _)

theorem Alternative.areUnbroken_lines {context : Context} (names : context.HasScriptNames) :
    ∀ (next : Alternative context) (depth : Nat), AreUnbroken (next.lines depth)
  | .none, depth => by simp [Alternative.lines, AreUnbroken]
  | .otherwise before after body, depth => by
      rw [Alternative.lines]
      exact .cons (show '\n' ∉ "else:".toList by decide)
        ((body.areUnbroken_lines names (depth + 1)).orPass _)
  | .elseIf before between apart guard body next, depth => by
      rw [Alternative.lines]
      exact .cons (guard.not_mem_line names depth (by decide))
        (((body.areUnbroken_lines names (depth + 1)).orPass _).append
          (next.areUnbroken_lines names depth))

theorem Block.areUnbroken_lines {context : Context} (names : context.HasScriptNames) :
    ∀ (block : Block context) (depth : Nat), AreUnbroken (block.lines depth)
  | .done gap, depth => by simp [Block.lines, AreUnbroken]
  | .cons gap statement rest, depth => by
      rw [Block.lines]
      exact (statement.areUnbroken_lines names depth).append (rest.areUnbroken_lines names depth)

end

end Breadboard.Script
