import Breadboard.Proofs.Script.ClearedLine
import Breadboard.Proofs.Script.HeaderParts
import Breadboard.Proofs.Script.WordRespelling

set_option autoImplicit false

/- The last steps of a line's conversion: words are put in, a header is written in the script's form, marks of blocks
are left out and blanks trimmed off. A line without known calls stays one through all of them. -/
namespace Breadboard.Script

open Sketch hiding stripComments

/-- Tokens that make up a text, with no known call among them. -/
structure IsQuiet (tokens : List Token) : Prop where
  cut : IsLooselyCut tokens
  noCall : ∀ form, NoCallIn IsPinOperand isDot form false tokens []

section

variable {tokens made : List Token}

theorem NoCallIn.alone {isPin : Text → Prop} {isDot : Token → Bool} {form : CallForm} {afterDot : Bool}
    {after : List Token} (none : NoCallIn isPin isDot form afterDot tokens after) :
    NoCallIn isPin isDot form afterDot tokens [] := by
  intro front token back split free starts
  rw [List.append_nil] at starts
  exact none front token back split free (starts.append after)

theorem IsQuiet.part {front part back : List Token} (quiet : IsQuiet tokens)
    (split : tokens = front ++ (part ++ back)) (free : front.foldl (dotAfter isDot) false = false) :
    IsQuiet part := by
  refine ⟨quiet.cut.part ⟨front, back, by rw [split, List.append_assoc]⟩, fun form => ?_⟩
  have noCall := quiet.noCall form
  rw [split, noCallIn_append, free, noCallIn_append] at noCall
  exact noCall.2.1.alone

theorem IsLooselyCut.append {first second : List Token} (firstCut : IsLooselyCut first)
    (secondCut : IsLooselyCut second)
    (adjoins : ∀ last ∈ first.getLast?, ∀ next ∈ second.head?, Adjoins last next) :
    IsLooselyCut (first ++ second) :=
  ⟨List.forall_mem_append.mpr ⟨firstCut.whole, secondCut.whole⟩,
    List.isChain_append.mpr ⟨firstCut.chain, secondCut.chain, adjoins⟩⟩

/-- Quiet tokens whose parentheses close stay quiet before a token that is no part of a call. -/
theorem IsQuiet.append {first second : List Token} (firstQuiet : IsQuiet first) (secondQuiet : IsQuiet second)
    (closed : IsClosed "(" ")" first) (stops : StopsCall second)
    (adjoins : ∀ last ∈ first.getLast?, ∀ next ∈ second.head?, Adjoins last next) :
    IsQuiet (first ++ second) := by
  refine ⟨firstQuiet.cut.append secondQuiet.cut adjoins, fun form => noCallIn_append.mpr ⟨?_, ?_⟩⟩
  · rw [List.append_nil]
    exact (firstQuiet.noCall form).of_closed closed stops
  · exact (secondQuiet.noCall form).anywhere _

/-- A token that starts no call stays apart from what the tokens after it start. -/
theorem IsQuiet.cons {token : Token} (loose : IsLoose token) (quiet : IsQuiet tokens)
    (other : ∀ form : CallForm, token ≠ ⟨.ident, form.head.toList⟩)
    (adjoins : ∀ next ∈ tokens.head?, Adjoins token next) : IsQuiet (token :: tokens) := by
  refine ⟨quiet.cut.cons loose adjoins, fun form => noCallIn_cons.mpr ⟨fun _ starts => ?_, ?_⟩⟩
  · exact other form starts.isIdent_head
  · exact (quiet.noCall form).anywhere _

theorem isQuiet_nil : IsQuiet [] :=
  ⟨⟨by simp, .nil⟩, fun _ => noCallIn_nil⟩

/-- The trimmed text of quiet tokens is that of quiet tokens. -/
theorem IsQuiet.exists_trim (quiet : IsQuiet tokens) : ∃ lead part trail, tokens = lead ++ (part ++ trail) ∧
    (∀ token ∈ lead, IsBlankToken token) ∧ (∀ token ∈ trail, IsBlankToken token) ∧
    Text.trim (render tokens) = render part ∧ IsQuiet part ∧ (part ≠ [] → Text.IsTight (render part)) := by
  obtain ⟨lead, part, trail, split, leadBlank, trailBlank, trimmed, tight⟩ :=
    exists_trim_render fun token member => isSolid_of_isLoose (quiet.cut.whole token member)
  exact ⟨lead, part, trail, split, leadBlank, trailBlank, trimmed,
    quiet.part split (foldl_dotAfter_blank leadBlank), tight⟩

theorem Respelt.exists_cons {token : Token} {rest : List Token} (respelt : Respelt Rewords tokens made)
    (split : tokens = token :: rest) (other : ∀ text, (token, text) ∉ respellings) :
    ∃ more, made = token :: more ∧ Respelt Rewords rest more := by
  cases respelt with
  | nil => cases split
  | keep first more =>
      obtain ⟨rfl, rfl⟩ := List.cons.inj split
      exact ⟨_, rfl, more⟩
  | change spelled more =>
      obtain @⟨old, text, before, after, pair, -, -⟩ := spelled
      rw [List.singleton_append] at split
      rw [(List.cons.inj split).1] at pair
      exact absurd pair (other text)

theorem unmarked_of_mem_respellings {token : Token} {text : Text} (pair : (token, text) ∈ respellings) :
    token.isBlockMark = false := by
  have plain := @of_mem_respellings _ _ (fun token _ => !token.isBlockMark) (by decide) pair
  simpa using plain

theorem Respelt.endsInMark (respelt : Respelt Rewords tokens made) (ends : EndsInMark tokens) :
    EndsInMark made := by
  induction respelt with
  | nil => exact ends
  | keep token more ih =>
      rcases endsInMark_cons.mp ends with ⟨plain, restEnds⟩ | ⟨rfl, isMark⟩
      · exact endsInMark_cons.mpr (Or.inl ⟨plain, ih restEnds⟩)
      · obtain rfl := more.eq_of_tokens shown_of_run (by simp)
        exact ends
  | change spelled more ih =>
      obtain @⟨old, text, before, after, pair, blankBefore, blankAfter⟩ := spelled
      have atFirst : EndsInMark ([] ++ old :: _) := ends
      exact (ih (atFirst.behind (unmarked_of_mem_respellings pair)).2).prepend (forall_mem_word blankBefore blankAfter rfl rfl)

theorem Respelt.isBlockLine (respelt : Respelt Rewords tokens made) (isLine : IsBlockLine tokens) :
    IsBlockLine made := by
  obtain ⟨closer, body, split, isCloser, ends⟩ := isLine
  rcases isCloser with rfl | rfl
  · exact ⟨[], made, rfl, Or.inl rfl, respelt.endsInMark (split ▸ ends)⟩
  · obtain ⟨more, rfl, onward⟩ := respelt.exists_cons split fun text pair => by
      have plain := unmarked_of_mem_respellings pair
      cases plain
    exact ⟨[closeBrace], more, rfl, Or.inr rfl, onward.endsInMark ends⟩

/-- With the words put in, a line without known calls is quiet. -/
theorem IsCleared.isQuiet (cleared : IsCleared callForms tokens) :
    IsQuiet (normalizeWords none tokens) ∧ IsBlockLine (normalizeWords none tokens) := by
  have respelt := respelt_normalizeWords none tokens
  have cut := (staysApart_normalizeWords cleared.cut none).1
  refine ⟨⟨cut, fun form => ?_⟩, respelt.isBlockLine cleared.marks⟩
  exact respelt.noCallIn isRespelling_rewords
    (fun spelt inside pin => pin_of_respelt (cut.part inside) spelt pin) (cleared.noCall form (mem_callForms form))

end

end Breadboard.Script
