import Breadboard.Proofs.Script.CallLiterals
import Breadboard.Proofs.Script.CallSplice

set_option autoImplicit false

namespace Breadboard.Script

open Sketch hiding stripComments

def IsPinReference (text : Text) : Prop :=
  (PinRef.ofText? text).isSome = true

instance (text : Text) : Decidable (IsPinReference text) :=
  inferInstanceAs (Decidable (_ = true))

theorem isSpelledPlainly_isPinReference : IsSpelledPlainly IsPinReference := by
  intro text isPin member
  obtain ⟨ref, isRef⟩ := Option.isSome_iff_exists.mp isPin
  have word := List.all_eq_true.mp (PinRef.ofText?_eq_some isRef).1 '(' member
  cases word

/-- A rule that takes the known calls of a form and puts splices in their place. -/
structure SplicesForm (form : CallForm) (replacement : Call → Option Text) : Prop where
  takes : ∀ inner, (replacement (Call.ofTokens inner)).isSome = true ↔ form.Takes IsPinReference inner
  splice : ∀ {path gap inner : List Token} {text : Text}, SpellsPath form.tail path →
    (∀ token ∈ gap, token.isTrivia = true) → IsClosed "(" ")" inner → IsCut inner →
    replacement (Call.ofTokens inner) = some text → ∃ splice : Splice form,
      splice.segment =
        ⟨.ident, form.head.toList⟩ :: (path ++ (gap ++ openParen :: (inner ++ [closeParen]))) ∧
      tokenize text = splice.made

/-- A pass over the tokens that leaves no call of the form. -/
inductive Clears (form : CallForm) : Bool → List Token → List Token → Prop where
  | nil {afterDot : Bool} : Clears form afterDot [] []
  | keep {afterDot : Bool} {token : Token} {rest made : List Token}
      (none : afterDot = false → ¬ StartsCall IsPinReference form (token :: rest))
      (onward : Clears form (dotAfter isDot afterDot token) rest made) :
      Clears form afterDot (token :: rest) (token :: made)
  | replace (splice : Splice form) {back more made : List Token} {first : Token}
      (split : splice.made ++ back = first :: more)
      (onward : Clears form (dotAfter isDot false first) more made) :
      Clears form false (splice.segment ++ back) (first :: made)

section

variable {form : CallForm} {replacement : Call → Option Text}

theorem startsCall_iff {isPin : Text → Prop} {token : Token} {rest : List Token} :
    StartsCall isPin form (token :: rest) ↔ ∃ inner after, form.Takes isPin inner ∧
      callAt? form.head form.tail token rest = some (Call.ofTokens inner, after) ∧
      ∃ path gap, SpellsPath form.tail path ∧ (∀ other ∈ gap, other.isTrivia = true) ∧
        IsClosed "(" ")" inner ∧ rest = path ++ (gap ++ openParen :: (inner ++ closeParen :: after)) := by
  constructor
  · rintro ⟨path, gap, inner, after, spells, trivia, closed, takes, split⟩
    obtain ⟨rfl, rfl⟩ := List.cons.inj split
    exact ⟨inner, after, takes, callAt?_eq_some_iff.mpr
      ⟨rfl, path, gap, inner, spells, trivia, closed, rfl, rfl⟩, path, gap, spells, trivia, closed, rfl⟩
  · rintro ⟨inner, after, takes, found, path, gap, spells, trivia, closed, rfl⟩
    obtain ⟨rfl, -⟩ := callAt?_eq_some_iff.mp found
    exact ⟨path, gap, inner, after, spells, trivia, closed, takes, rfl⟩

/-- A rule that takes the known calls of a form finds one at a token, or there is none. -/
theorem replaced?_cases
    (takes : ∀ inner, (replacement (Call.ofTokens inner)).isSome = true ↔ form.Takes IsPinReference inner)
    (afterDot : Bool) (token : Token) (rest : List Token) :
    (replaced? form.head form.tail replacement afterDot token rest = none ∧
        (afterDot = false → ¬ StartsCall IsPinReference form (token :: rest))) ∨
      ∃ path gap inner after text, afterDot = false ∧ SpellsPath form.tail path ∧
        (∀ other ∈ gap, other.isTrivia = true) ∧ IsClosed "(" ")" inner ∧
        replacement (Call.ofTokens inner) = some text ∧ token = ⟨.ident, form.head.toList⟩ ∧
        rest = path ++ (gap ++ openParen :: (inner ++ closeParen :: after)) ∧
        replaced? form.head form.tail replacement afterDot token rest = some (tokenize text ++ after) := by
  cases afterDot with
  | true => exact Or.inl ⟨rfl, fun free => by cases free⟩
  | false =>
      rw [replaced?, if_neg Bool.false_ne_true]
      cases found : callAt? form.head form.tail token rest with
      | none =>
          refine Or.inl ⟨rfl, fun _ starts => ?_⟩
          obtain ⟨inner, after, -, called, -⟩ := startsCall_iff.mp starts
          rw [found] at called
          cases called
      | some group =>
          obtain ⟨call, after⟩ := group
          obtain ⟨rfl, path, gap, inner, spells, trivia, closed, rfl, rfl⟩ := callAt?_eq_some_iff.mp found
          rw [Option.bind_some]
          cases put : replacement (Call.ofTokens inner) with
          | none =>
              refine Or.inl ⟨by simp only [put, Option.map_none], fun _ starts => ?_⟩
              obtain ⟨other, behind, known, called, -⟩ := startsCall_iff.mp starts
              obtain ⟨same, -⟩ := Prod.mk.inj (Option.some.inj (found.symm.trans called))
              rw [← takes, ← same, put] at known
              cases known
          | some text =>
              exact Or.inr ⟨path, gap, inner, after, text, rfl, spells, trivia, closed, put, rfl, rfl,
                by simp only [put, Option.map_some]⟩

/-- The rule finds a splice at a token, or there is no known call. -/
theorem SplicesForm.replaced?_cases (rule : SplicesForm form replacement) {afterDot : Bool} {token : Token}
    {rest : List Token} (cut : IsCut (token :: rest)) :
    (replaced? form.head form.tail replacement afterDot token rest = none ∧
        (afterDot = false → ¬ StartsCall IsPinReference form (token :: rest))) ∨
      (afterDot = false ∧ ∃ (splice : Splice form) (back : List Token), token :: rest = splice.segment ++ back ∧
        replaced? form.head form.tail replacement afterDot token rest = some (splice.made ++ back)) := by
  refine (Script.replaced?_cases rule.takes afterDot token rest).imp_right ?_
  rintro ⟨path, gap, inner, after, text, rfl, spells, trivia, closed, put, rfl, rfl, found⟩
  have innerCut : IsCut inner :=
    cut.part ⟨⟨.ident, form.head.toList⟩ :: (path ++ (gap ++ [openParen])), closeParen :: after, by simp⟩
  obtain ⟨splice, segment, made⟩ := rule.splice spells trivia closed innerCut put
  refine ⟨rfl, splice, after, ?_, ?_⟩
  · rw [segment]
    simp
  · rw [found, made]

/-- The pass of a rule comes to its end whatever the calls are, for each call that is replaced leaves fewer
names of such calls. -/
theorem SplicesForm.exists_run (rule : SplicesForm form replacement) {budget : Nat} {tokens : List Token}
    (cut : IsCut tokens) (enough : tokens.countP (·.isIdent form.head) ≤ budget) (afterDot : Bool) :
    ∃ count, Rewrites form.head form.tail replacement true afterDot tokens count
      (replaceWithin form.head form.tail replacement budget afterDot tokens) := by
  induction budget using Nat.strongRecOn generalizing afterDot tokens with
  | ind budget ihBudget =>
      induction tokens generalizing afterDot with
      | nil =>
          rw [replaceWithin]
          exact ⟨0, .nil⟩
      | cons token rest ih =>
          rcases @SplicesForm.replaced?_cases _ _ rule afterDot _ _ cut with
            ⟨missing, -⟩ | ⟨rfl, splice, back, split, found⟩
          · rw [replaceWithin_cons_keep missing]
            have restEnough : rest.countP (·.isIdent form.head) ≤ budget := by
              rw [List.countP_cons] at enough
              omega
            obtain ⟨count, run⟩ := ih (cut.part ⟨[token], [], by simp⟩) restEnough (isDotNext afterDot token)
            exact ⟨count, .keep (fun _ => missing) run⟩
          · obtain ⟨first, more, -, -, made, -, -⟩ := splice.exists_start
            rw [made, List.cons_append] at found
            rw [split] at cut enough
            have fewer := splice.countP_made_lt
            have madeCut := splice.isCut_replaced cut
            rw [made, List.cons_append] at madeCut
            rw [List.countP_append] at enough
            rw [made, List.countP_cons] at fewer
            obtain ⟨smaller, rfl⟩ : ∃ smaller, budget = smaller + 1 := ⟨budget - 1, by omega⟩
            have moreEnough : (more ++ back).countP (·.isIdent form.head) ≤ smaller := by
              rw [List.countP_append]
              omega
            rw [replaceWithin_cons_replace found]
            obtain ⟨count, run⟩ := ihBudget smaller (Nat.lt_succ_self smaller)
              (madeCut.part ⟨[first], [], by simp⟩) moreEnough (isDotNext false first)
            exact ⟨count + 1, .call found run⟩

/-- A thorough run of the rule clears the tokens of the calls of its form. -/
theorem SplicesForm.clears (rule : SplicesForm form replacement) {afterDot : Bool} {tokens made : List Token}
    {count : Nat} (run : Rewrites form.head form.tail replacement true afterDot tokens count made)
    (cut : IsCut tokens) : Clears form afterDot tokens made := by
  induction run with
  | nil => exact .nil
  | @keep afterDot token rest made count missing onward ih =>
      rcases @SplicesForm.replaced?_cases _ _ rule afterDot _ _ cut with ⟨-, none⟩ | ⟨-, _, _, -, found⟩
      · exact .keep none (ih (cut.part ⟨[token], [], by simp⟩))
      · rw [missing rfl] at found
        cases found
  | @call afterDot token first rest more made count found onward ih =>
      rcases @SplicesForm.replaced?_cases _ _ rule afterDot _ _ cut with
        ⟨missing, -⟩ | ⟨rfl, splice, back, split, replaced⟩
      · rw [found] at missing
        cases missing
      · have same := (Option.some.inj (found.symm.trans replaced)).symm
        rw [split] at cut ⊢
        have madeCut := splice.isCut_replaced cut
        rw [same] at madeCut
        exact .replace splice same (ih (madeCut.part ⟨[first], [], by simp⟩))

end

/-- No mark of a block stands in the tokens but one that ends them. -/
def EndsInMark (tokens : List Token) : Prop :=
  ∃ core ending, tokens = core ++ ending ∧ (∀ token ∈ core, token.isBlockMark = false) ∧
    (ending = [] ∨ ∃ mark, ending = [mark] ∧ (mark.isPunct ";" = true ∨ mark.isPunct "\x7b" = true))

section

variable {token : Token} {tokens rest : List Token}

theorem endsInMark_cons : EndsInMark (token :: rest) ↔ (token.isBlockMark = false ∧ EndsInMark rest) ∨
    (rest = [] ∧ (token.isPunct ";" = true ∨ token.isPunct "\x7b" = true)) := by
  constructor
  · rintro ⟨core, ending, split, unmarked, isEnding⟩
    rcases List.cons_eq_append_iff.mp split with ⟨rfl, rfl⟩ | ⟨others, rfl, rfl⟩
    · rcases isEnding with nothing | ⟨mark, single, isMark⟩
      · cases nothing
      · obtain ⟨rfl, rfl⟩ := List.cons.inj single
        exact Or.inr ⟨rfl, isMark⟩
    · exact Or.inl ⟨unmarked token List.mem_cons_self, others, ending, rfl,
        fun other member => unmarked other (List.mem_cons_of_mem _ member), isEnding⟩
  · rintro (⟨plain, core, ending, rfl, unmarked, isEnding⟩ | ⟨rfl, isMark⟩)
    · exact ⟨token :: core, ending, rfl, List.forall_mem_cons.mpr ⟨plain, unmarked⟩, isEnding⟩
    · exact ⟨[], [token], rfl, by simp, Or.inr ⟨token, rfl, isMark⟩⟩

theorem EndsInMark.prepend {front : List Token} (ends : EndsInMark tokens)
    (unmarked : ∀ token ∈ front, token.isBlockMark = false) : EndsInMark (front ++ tokens) := by
  obtain ⟨core, ending, rfl, coreUnmarked, isEnding⟩ := ends
  exact ⟨front ++ core, ending, by simp, List.forall_mem_append.mpr ⟨unmarked, coreUnmarked⟩, isEnding⟩

/-- No mark stands in tokens behind which there is one that is no mark. -/
theorem EndsInMark.behind {front : List Token} {last : Token} (ends : EndsInMark (front ++ last :: rest))
    (plain : last.isBlockMark = false) :
    (∀ token ∈ front ++ [last], token.isBlockMark = false) ∧ EndsInMark rest := by
  induction front with
  | nil =>
      rcases endsInMark_cons.mp ends with ⟨-, restEnds⟩ | ⟨-, isMark⟩
      · exact ⟨by simpa using plain, restEnds⟩
      · rw [Token.isBlockMark, Bool.or_eq_false_iff, Bool.or_eq_false_iff] at plain
        rw [plain.1.1, plain.1.2] at isMark
        rcases isMark with impossible | impossible <;> cases impossible
  | cons first front ih =>
      rcases endsInMark_cons.mp ends with ⟨firstPlain, onward⟩ | ⟨nothing, -⟩
      · obtain ⟨unmarked, restEnds⟩ := ih onward
        exact ⟨List.forall_mem_cons.mpr ⟨firstPlain, unmarked⟩, restEnds⟩
      · simp at nothing

end

namespace Clears

variable {form other : CallForm} {afterDot : Bool} {tokens made : List Token}

theorem isCut (clears : Clears form afterDot tokens made) (cut : IsCut tokens) :
    IsCut made ∧ ∀ token, IsLexeme token → (∀ next ∈ tokens.head?, token.Meets next) →
      ∀ next ∈ made.head?, token.Meets next := by
  induction clears with
  | nil => exact ⟨cut, fun _ _ meets => meets⟩
  | @keep afterDot token rest made none onward ih =>
      obtain ⟨madeCut, meets⟩ := ih (cut.part ⟨[token], [], by simp⟩)
      have whole := cut.whole token List.mem_cons_self
      refine ⟨madeCut.cons whole (meets token whole fun next isNext => ?_), fun _ _ apart => apart⟩
      exact (List.isChain_cons.mp cut.chain).1 next isNext
  | @replace splice back more made first split onward ih =>
      have replaced := splice.isCut_replaced cut
      rw [split] at replaced
      obtain ⟨madeCut, meets⟩ := ih (replaced.part ⟨[first], [], by simp⟩)
      have whole := replaced.whole first List.mem_cons_self
      refine ⟨madeCut.cons whole (meets first whole fun next isNext => ?_), fun token lexeme apart => ?_⟩
      · exact (List.isChain_cons.mp replaced.chain).1 next isNext
      · have meetsFirst := splice.meets_replaced cut lexeme apart
        rw [split] at meetsFirst
        exact meetsFirst

theorem hasPlainDots_of_isCut {tokens : List Token} (cut : IsCut tokens) : HasPlainDots tokens := by
  intro token member dot
  have whole := cut.whole token member
  cases whole with
  | mark single =>
      obtain ⟨rfl, -⟩ := List.cons.inj dot
      rfl
  | space start run => rw [(List.cons.inj dot).1] at start; cases start
  | word start run => rw [(List.cons.inj dot).1] at start; cases start
  | literal start closed => rw [(List.cons.inj dot).1] at start; cases start
  | pair operator => cases dot
  | number start run =>
      obtain ⟨rfl, rfl⟩ := List.cons.inj dot
      rcases start with digit | ⟨-, digit⟩
      · cases digit
      · cases digit

/-- A call that starts before the tokens of a pass starts there before the pass. -/
theorem startsCall (clears : Clears form afterDot tokens made) (cut : IsCut tokens) {token : Token}
    {front : List Token} {dotBefore : Bool} (plain : HasPlainDots front)
    (behind : front.foldl (dotAfter isDot) dotBefore = afterDot)
    (starts : StartsCall IsPinReference other (token :: (front ++ made))) :
    StartsCall IsPinReference other (token :: (front ++ tokens)) := by
  induction clears generalizing front with
  | nil => exact starts
  | @keep afterDot next rest made none onward ih =>
      have restCut : IsCut rest := cut.part ⟨[next], [], by simp⟩
      have plainNext : HasPlainDots (front ++ [next]) := List.forall_mem_append.mpr
        ⟨plain, fun other member => hasPlainDots_of_isCut cut other (by simp [List.mem_singleton.mp member])⟩
      have found := @ih restCut (front ++ [next]) plainNext
        (by rw [List.foldl_append, behind]; rfl) (by simpa using starts)
      simpa using found
  | @replace splice back more made first split onward ih =>
      have replaced := splice.isCut_replaced cut
      have firstPlain := hasPlainDots_of_isCut replaced
      rw [split] at replaced firstPlain
      have plainFirst : HasPlainDots (front ++ [first]) := List.forall_mem_append.mpr
        ⟨plain, fun other member => firstPlain other (by simp [List.mem_singleton.mp member])⟩
      have found := @ih (replaced.part ⟨[first], [], by simp⟩) (front ++ [first]) plainFirst
        (by rw [List.foldl_append, behind]; rfl) (by simpa using starts)
      rw [List.append_assoc, List.singleton_append, ← split] at found
      exact splice.startsCall isSpelledPlainly_isPinReference behind plain found

/-- A token that starts no call before the pass starts none behind it. -/
theorem not_startsCall {token : Token} {rest made : List Token}
    (clears : Clears form (dotAfter isDot afterDot token) rest made) (cut : IsCut (token :: rest))
    (none : ¬ StartsCall IsPinReference other (token :: rest)) :
    ¬ StartsCall IsPinReference other (token :: made) := by
  intro starts
  have restCut : IsCut rest := cut.part ⟨[token], [], by simp⟩
  have plain : HasPlainDots [] := fun other member => by cases member
  exact none (clears.startsCall restCut plain rfl starts)

/-- The pass brings no call of any form. -/
theorem keepsNoCall (clears : Clears form afterDot tokens made) (cut : IsCut tokens)
    (none : NoCallIn IsPinReference isDot other afterDot tokens []) :
    NoCallIn IsPinReference isDot other afterDot made [] := by
  induction clears with
  | nil => exact none
  | @keep afterDot token rest made _ onward ih =>
      obtain ⟨here, later⟩ := noCallIn_cons.mp none
      rw [List.append_nil] at here
      refine noCallIn_cons.mpr ⟨fun free => ?_, ih (cut.part ⟨[token], [], by simp⟩) later⟩
      rw [List.append_nil]
      exact onward.not_startsCall cut (here free)
  | @replace splice back more made first split onward ih =>
      have replaced := splice.isCut_replaced cut
      obtain ⟨inSegment, inBack⟩ := noCallIn_append.mp none
      have inMade : NoCallIn IsPinReference isDot other false (splice.made ++ back) [] := by
        refine noCallIn_append.mpr ⟨splice.noCallIn_made inSegment, ?_⟩
        rw [Splice.foldl_dotAfter_made]
        rwa [Splice.foldl_dotAfter_segment] at inBack
      rw [split] at replaced inMade
      obtain ⟨here, later⟩ := noCallIn_cons.mp inMade
      rw [List.append_nil] at here
      refine noCallIn_cons.mpr ⟨fun free => ?_, ih (replaced.part ⟨[first], [], by simp⟩) later⟩
      rw [List.append_nil]
      exact onward.not_startsCall replaced (here free)

/-- Behind the pass there is no call of its form. -/
theorem noCall (clears : Clears form afterDot tokens made) (cut : IsCut tokens) :
    NoCallIn IsPinReference isDot form afterDot made [] := by
  induction clears with
  | nil => exact noCallIn_nil
  | @keep afterDot token rest made none onward ih =>
      refine noCallIn_cons.mpr ⟨fun free => ?_, ih (cut.part ⟨[token], [], by simp⟩)⟩
      rw [List.append_nil]
      exact onward.not_startsCall cut (none free)
  | @replace splice back more made first split onward ih =>
      have replaced := splice.isCut_replaced cut
      rw [split] at replaced
      refine noCallIn_cons.mpr ⟨fun _ => ?_, ih (replaced.part ⟨[first], [], by simp⟩)⟩
      rw [List.append_nil]
      refine onward.not_startsCall replaced fun starts => ?_
      -- The call would start with the name that is put in the place of one.
      obtain ⟨start, others, -, -, opening, -, -⟩ := splice.isName.opens.start
      have quiet := splice.isName.quiet IsPinReference form
        (splice.part ++ (splice.extra ++ [closeParen]) ++ back)
      have parts : splice.made ++ back = (splice.name ++ [openParen]) ++
          (splice.part ++ (splice.extra ++ [closeParen]) ++ back) := by
        simp [Splice.made]
      rw [opening] at quiet parts
      refine (noCallIn_cons.mp quiet).1 rfl ?_
      rwa [← List.cons_append, ← parts, split]

theorem eq_nil (clears : Clears form afterDot tokens made) (nothing : tokens = []) : made = [] := by
  cases clears with
  | nil => rfl
  | keep => cases nothing
  | replace splice => simp [Splice.segment] at nothing

/-- The pass leaves marks of blocks where they are. -/
theorem endsInMark (clears : Clears form afterDot tokens made) (ends : EndsInMark tokens) :
    EndsInMark made := by
  induction clears with
  | nil => exact ends
  | @keep afterDot token rest made none onward ih =>
      rcases endsInMark_cons.mp ends with ⟨plain, restEnds⟩ | ⟨rfl, isMark⟩
      · exact endsInMark_cons.mpr (Or.inl ⟨plain, ih restEnds⟩)
      · exact endsInMark_cons.mpr (Or.inr ⟨onward.eq_nil rfl, isMark⟩)
  | @replace splice back more made first split onward ih =>
      have parts : splice.segment ++ back =
          (splice.call ++ openParen :: (splice.before ++ (splice.part ++ splice.behind))) ++
            closeParen :: back := by
        simp [Splice.segment]
      rw [parts] at ends
      obtain ⟨unmarked, backEnds⟩ := ends.behind rfl
      have segmentUnmarked : ∀ token ∈ splice.segment, token.isBlockMark = false := by
        simpa [Splice.segment] using unmarked
      have madeUnmarked := splice.unmarked_made segmentUnmarked
      obtain ⟨start, others, -, -, opening, -, -⟩ := splice.exists_start
      have firstUnmarked : first.isBlockMark = false := by
        rw [opening] at split
        rw [← (List.cons.inj split).1]
        exact madeUnmarked start (by rw [opening]; exact List.mem_cons_self)
      have madeEnds := backEnds.prepend madeUnmarked
      rw [split] at madeEnds
      rcases endsInMark_cons.mp madeEnds with ⟨-, moreEnds⟩ | ⟨rfl, -⟩
      · exact endsInMark_cons.mpr (Or.inl ⟨firstUnmarked, ih moreEnds⟩)
      · rw [onward.eq_nil rfl]
        exact madeEnds

/-- A token that is no name stays the first one. -/
theorem exists_cons {token : Token} {rest : List Token}
    (clears : Clears form afterDot tokens made) (split : tokens = token :: rest) (other : token.kind ≠ .ident) :
    ∃ more, made = token :: more ∧ Clears form (dotAfter isDot afterDot token) rest more := by
  cases clears with
  | nil => cases split
  | keep none onward =>
      obtain ⟨rfl, rfl⟩ := List.cons.inj split
      exact ⟨_, rfl, onward⟩
  | replace splice =>
      rw [Splice.segment, Splice.call, List.cons_append, List.cons_append] at split
      rw [← (List.cons.inj split).1] at other
      exact absurd rfl other

end Clears

/-- A line that at most starts with the brace that closes a block and ends with one mark that opens a block or
ends a statement. -/
def IsBlockLine (tokens : List Token) : Prop :=
  ∃ closer body, tokens = closer ++ body ∧ (closer = [] ∨ closer = [closeBrace]) ∧ EndsInMark body

theorem Clears.isBlockLine {form : CallForm} {tokens made : List Token} (clears : Clears form false tokens made)
    (isLine : IsBlockLine tokens) : IsBlockLine made := by
  obtain ⟨closer, body, rfl, isCloser, ends⟩ := isLine
  rcases isCloser with rfl | rfl
  · exact ⟨[], made, rfl, Or.inl rfl, clears.endsInMark ends⟩
  · obtain ⟨more, rfl, onward⟩ := clears.exists_cons rfl (by decide)
    exact ⟨[closeBrace], more, rfl, Or.inr rfl, onward.endsInMark ends⟩

end Breadboard.Script
