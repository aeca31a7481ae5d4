import Breadboard.Proofs.Script.BlockTree
import Breadboard.Script.Conversion

set_option autoImplicit false

namespace Breadboard.Script

open Sketch hiding stripComments

/-- The tokens close each group of brackets that they open, and no other one. -/
inductive IsClosed (opening closing : String) : List Token → Prop where
  | nil : IsClosed opening closing []
  | cons {token : Token} {rest : List Token} (notOpening : token.isPunct opening = false)
      (notClosing : token.isPunct closing = false) (more : IsClosed opening closing rest) :
      IsClosed opening closing (token :: rest)
  | group {inner rest : List Token} (inside : IsClosed opening closing inner)
      (more : IsClosed opening closing rest) :
      IsClosed opening closing
        (⟨.punct, opening.toList⟩ :: (inner ++ ⟨.punct, closing.toList⟩ :: rest))

section

variable {opening closing : String}

theorem isPunct_of_ne {mark other : String} (differ : mark ≠ other) :
    Token.isPunct mark ⟨.punct, other.toList⟩ = false := by
  simpa [Token.isPunct, String.toList_inj] using differ.symm

theorem IsClosed.append {first second : List Token} (firstClosed : IsClosed opening closing first)
    (secondClosed : IsClosed opening closing second) : IsClosed opening closing (first ++ second) := by
  induction firstClosed with
  | nil => exact secondClosed
  | cons notOpening notClosing _ ih => exact .cons notOpening notClosing ih
  | group inside _ _ ih =>
      rw [List.cons_append, List.append_assoc, List.cons_append]
      exact .group inside ih

theorem IsClosed.of_plain {tokens : List Token}
    (plain : ∀ token ∈ tokens, token.isPunct opening = false ∧ token.isPunct closing = false) :
    IsClosed opening closing tokens := by
  induction tokens with
  | nil => exact .nil
  | cons token rest ih =>
      obtain ⟨notOpening, notClosing⟩ := plain token List.mem_cons_self
      exact .cons notOpening notClosing (ih fun other member => plain other (List.mem_cons_of_mem _ member))

theorem splitGroup_closing_zero (differ : opening ≠ closing) (rest : List Token) :
    splitGroup opening closing 0 (⟨.punct, closing.toList⟩ :: rest) = some ([], rest) := by
  rw [splitGroup_cons, isPunct_of_ne differ, isPunct_self, if_neg Bool.false_ne_true, if_pos rfl]

theorem splitGroup_closing_succ (differ : opening ≠ closing) (depth : Nat) (rest : List Token) :
    splitGroup opening closing (depth + 1) (⟨.punct, closing.toList⟩ :: rest) =
      (splitGroup opening closing depth rest).map
        fun (inner, after) => (⟨.punct, closing.toList⟩ :: inner, after) := by
  rw [splitGroup_cons, isPunct_of_ne differ, isPunct_self, if_neg Bool.false_ne_true, if_pos rfl]

/-- Closed tokens are inside the group that is open before them. -/
theorem IsClosed.splitGroup_append (differ : opening ≠ closing) {inner : List Token}
    (closed : IsClosed opening closing inner) (depth : Nat) (rest : List Token) :
    splitGroup opening closing depth (inner ++ rest) =
      (splitGroup opening closing depth rest).map fun (more, after) => (inner ++ more, after) := by
  induction closed generalizing depth rest with
  | nil => exact Option.map_id.symm ▸ rfl
  | @cons token inner notOpening notClosing _ ih =>
      rw [List.cons_append, splitGroup_cons, notOpening, notClosing, if_neg Bool.false_ne_true,
        if_neg Bool.false_ne_true, ih, Option.map_map]
      rfl
  | @group inner more _ _ ihInside ihMore =>
      rw [List.cons_append, List.append_assoc, List.cons_append, splitGroup_cons, isPunct_self,
        if_pos rfl, ihInside, splitGroup_closing_succ differ, ihMore]
      simp only [Option.map_map]
      congr 1
      funext ⟨other, after⟩
      simp

/-- What is cut off starts with closed tokens, up to a bracket that closes an outer group. -/
theorem exists_closed_of_splitGroup (differ : opening ≠ closing) {depth : Nat}
    {tokens inner after : List Token}
    (cutAt : splitGroup opening closing depth tokens = some (inner, after)) :
    ∃ first rest more, IsClosed opening closing first ∧
      tokens = first ++ ⟨.punct, closing.toList⟩ :: rest ∧ inner = first ++ more ∧
      splitGroup opening closing depth (⟨.punct, closing.toList⟩ :: rest) = some (more, after) := by
  induction size : tokens.length using Nat.strongRecOn generalizing depth tokens inner after with
  | ind count ih =>
      cases tokens with
      | nil => cases cutAt
      | cons token tail =>
          rw [List.length_cons] at size
          by_cases isClosing : token.isPunct closing = true
          · obtain rfl := eq_of_isPunct isClosing
            exact ⟨[], tail, inner, .nil, rfl, rfl, cutAt⟩
          rw [splitGroup_cons] at cutAt
          by_cases isOpening : token.isPunct opening = true
          · rw [if_pos isOpening] at cutAt
            obtain ⟨⟨shorter, left⟩, cutTail, eq⟩ := Option.map_eq_some_iff.mp cutAt
            obtain ⟨rfl, rfl⟩ := Prod.mk.inj eq
            -- The group that the bracket opens ends first, then the search goes on behind it.
            obtain ⟨first, rest, more, closed, rfl, rfl, cutClosing⟩ := ih tail.length (by omega) cutTail rfl
            rw [splitGroup_closing_succ differ] at cutClosing
            obtain ⟨⟨further, behind⟩, cutRest, eqMore⟩ := Option.map_eq_some_iff.mp cutClosing
            obtain ⟨rfl, rfl⟩ := Prod.mk.inj eqMore
            have smaller : rest.length < count := by
              rw [← size, List.length_append, List.length_cons]
              omega
            obtain ⟨second, onward, last, secondClosed, rfl, rfl, cutLast⟩ :=
              ih rest.length smaller cutRest rfl
            refine ⟨token :: (first ++ ⟨.punct, closing.toList⟩ :: second), onward, last, ?_, by simp,
              by simp, cutLast⟩
            rw [eq_of_isPunct isOpening]
            exact .group closed secondClosed
          · rw [if_neg isOpening, if_neg isClosing] at cutAt
            obtain ⟨⟨shorter, left⟩, cutTail, eq⟩ := Option.map_eq_some_iff.mp cutAt
            obtain ⟨rfl, rfl⟩ := Prod.mk.inj eq
            obtain ⟨first, rest, more, closed, rfl, rfl, found⟩ := ih tail.length (by omega) cutTail rfl
            exact ⟨token :: first, rest, more,
              .cons (Bool.eq_false_iff.mpr isOpening) (Bool.eq_false_iff.mpr isClosing) closed,
              rfl, rfl, found⟩

/-- A group is cut off behind the bracket that opens it if and only if it is closed. -/
theorem splitGroup_eq_some (differ : opening ≠ closing) {tokens inner after : List Token} :
    splitGroup opening closing 0 tokens = some (inner, after) ↔
      IsClosed opening closing inner ∧ tokens = inner ++ ⟨.punct, closing.toList⟩ :: after := by
  constructor
  · intro cutAt
    obtain ⟨first, rest, more, closed, rfl, rfl, last⟩ := exists_closed_of_splitGroup differ cutAt
    rw [splitGroup_closing_zero differ] at last
    obtain ⟨rfl, rfl⟩ := Prod.mk.inj (Option.some.inj last)
    rw [List.append_nil]
    exact ⟨closed, rfl⟩
  · rintro ⟨closed, rfl⟩
    rw [closed.splitGroup_append differ, splitGroup_closing_zero differ]
    simp

end

/-- The parameters and the body behind the name of a function. -/
def FollowsName (body tokens : List Token) : Prop :=
  ∃ lead parameters trail after, (∀ token ∈ lead ++ trail, token.isTrivia = true) ∧
    IsClosed "(" ")" parameters ∧ IsClosed "\x7b" "\x7d" body ∧
    tokens = lead ++ openParen :: (parameters ++ closeParen ::
      (trail ++ openBrace :: (body ++ closeBrace :: after)))

/-- The tokens start with a definition `void name (…) { … }`. -/
def StartsDefinition (name : String) (body tokens : List Token) : Prop :=
  ∃ gap rest, (∀ token ∈ gap, token.isTrivia = true) ∧ FollowsName body rest ∧
    tokens = ⟨.ident, "void".toList⟩ :: (gap ++ ⟨.ident, name.toList⟩ :: rest)

/-- The tokens hold a definition of the function with this body, and none starts before it. -/
def IsFirstDefinition (name : String) (body tokens : List Token) : Prop :=
  ∃ before rest, tokens = before ++ rest ∧ StartsDefinition name body rest ∧
    ∀ earlier later other, before = earlier ++ later → later ≠ [] →
      ¬StartsDefinition name other (later ++ rest)

theorem dropTrivia_trivia_append {gap : List Token} (all : ∀ token ∈ gap, token.isTrivia = true)
    (tokens : List Token) : dropTrivia (gap ++ tokens) = dropTrivia tokens :=
  List.dropWhile_append_of_pos all

theorem parenthesized?_eq_some {tokens inner after : List Token} :
    parenthesized? tokens = some (inner, after) ↔
      ∃ lead, (∀ token ∈ lead, token.isTrivia = true) ∧ IsClosed "(" ")" inner ∧
        tokens = lead ++ openParen :: (inner ++ closeParen :: after) := by
  constructor
  · intro found
    unfold parenthesized? at found
    split at found
    · cases found
    · rename_i token rest dropped
      obtain ⟨isOpening, cutAt⟩ := Option.ite_none_right_eq_some.mp found
      obtain ⟨closed, rfl⟩ := (splitGroup_eq_some (by decide)).mp cutAt
      obtain ⟨lead, split, trivia⟩ := exists_trivia_append tokens
      exact ⟨lead, trivia, closed, by rw [split, dropped, eq_of_isPunct isOpening]; rfl⟩
  · rintro ⟨lead, trivia, closed, rfl⟩
    rw [parenthesized?, dropTrivia_trivia_append trivia]
    exact (splitGroup_eq_some (by decide)).mpr ⟨closed, rfl⟩

theorem braced?_eq_some {tokens inner after : List Token} :
    braced? tokens = some (inner, after) ↔
      ∃ lead, (∀ token ∈ lead, token.isTrivia = true) ∧ IsClosed "\x7b" "\x7d" inner ∧
        tokens = lead ++ openBrace :: (inner ++ closeBrace :: after) := by
  constructor
  · intro found
    unfold braced? at found
    split at found
    · cases found
    · rename_i token rest dropped
      obtain ⟨isOpening, cutAt⟩ := Option.ite_none_right_eq_some.mp found
      obtain ⟨closed, rfl⟩ := (splitGroup_eq_some (by decide)).mp cutAt
      obtain ⟨lead, split, trivia⟩ := exists_trivia_append tokens
      exact ⟨lead, trivia, closed, by rw [split, dropped, eq_of_isPunct isOpening]; rfl⟩
  · rintro ⟨lead, trivia, closed, rfl⟩
    rw [braced?, dropTrivia_trivia_append trivia]
    exact (splitGroup_eq_some (by decide)).mpr ⟨closed, rfl⟩

theorem bodyAfterName?_eq_some {body tokens : List Token} :
    bodyAfterName? tokens = some body ↔ FollowsName body tokens := by
  simp only [bodyAfterName?, Option.bind_eq_bind, Option.bind_eq_some_iff, Option.pure_def,
    Option.some_inj, Prod.exists]
  constructor
  · rintro ⟨parameters, rest, parenthesized, inner, after, braced, rfl⟩
    obtain ⟨lead, leadTrivia, closed, rfl⟩ := parenthesized?_eq_some.mp parenthesized
    obtain ⟨trail, trailTrivia, bodyClosed, rfl⟩ := braced?_eq_some.mp braced
    exact ⟨lead, parameters, trail, after, List.forall_mem_append.mpr ⟨leadTrivia, trailTrivia⟩,
      closed, bodyClosed, rfl⟩
  · rintro ⟨lead, parameters, trail, after, trivia, closed, bodyClosed, rfl⟩
    obtain ⟨leadTrivia, trailTrivia⟩ := List.forall_mem_append.mp trivia
    exact ⟨parameters, _, parenthesized?_eq_some.mpr ⟨lead, leadTrivia, closed, rfl⟩, body, after,
      braced?_eq_some.mpr ⟨trail, trailTrivia, bodyClosed, rfl⟩, rfl⟩

section

variable {name : String}

theorem bodyWithin?_cons (afterVoid : Bool) {token : Token} {rest : List Token}
    (noBody : token.isIdent name = true → afterVoid = true → bodyAfterName? rest = none) :
    bodyWithin? name afterVoid (token :: rest) =
      bodyWithin? name (if token.isTrivia then afterVoid else token.isIdent "void") rest := by
  have missing : (if token.isIdent name && afterVoid then bodyAfterName? rest else none) = none := by
    by_cases named : token.isIdent name = true
    · cases afterVoid with
      | true => simp [named, noBody named rfl]
      | false => simp
    · simp [named]
  rw [bodyWithin?]
  simp only [missing]

theorem isIdent_of_isTrivia {token : Token} (trivia : token.isTrivia = true) (word : String) :
    token.isIdent word = false := by
  simp only [Token.isTrivia, Bool.or_eq_true, beq_iff_eq] at trivia
  rcases trivia with kind | kind <;> simp [Token.isIdent, kind]

theorem bodyWithin?_trivia {gap : List Token} (all : ∀ token ∈ gap, token.isTrivia = true)
    (afterVoid : Bool) (rest : List Token) :
    bodyWithin? name afterVoid (gap ++ rest) = bodyWithin? name afterVoid rest := by
  induction gap with
  | nil => rfl
  | cons token more ih =>
      have trivia := all token List.mem_cons_self
      have noName : token.isIdent name = true → afterVoid = true →
          bodyAfterName? (more ++ rest) = none := by
        rw [isIdent_of_isTrivia trivia]
        exact fun named => by cases named
      rw [List.cons_append, bodyWithin?_cons afterVoid noName, trivia, if_pos rfl,
        ih fun other member => all other (List.mem_cons_of_mem _ member)]

/-- A definition at the start of the tokens is found there. -/
theorem bodyWithin?_of_startsDefinition (notVoid : name ≠ "void") {body tokens : List Token}
    (starts : StartsDefinition name body tokens) (afterVoid : Bool) :
    bodyWithin? name afterVoid tokens = some body := by
  obtain ⟨gap, rest, trivia, follows, rfl⟩ := starts
  have noName : Token.isIdent name ⟨.ident, "void".toList⟩ = false := by
    simpa [Token.isIdent, ← String.toList_inj] using notVoid.symm
  have onward := @bodyWithin?_cons name afterVoid ⟨.ident, "void".toList⟩
    (gap ++ ⟨.ident, name.toList⟩ :: rest) (by rw [noName]; exact fun named => by cases named)
  rw [onward]
  show bodyWithin? name true (gap ++ ⟨.ident, name.toList⟩ :: rest) = some body
  rw [bodyWithin?_trivia trivia, bodyWithin?, isIdent_self]
  simp only [Bool.and_self, if_true, bodyAfterName?_eq_some.mpr follows]

/-- Whether the last significant token is `void`. -/
def EndsWithVoid (tokens : List Token) : Prop :=
  ∃ before gap, (∀ token ∈ gap, token.isTrivia = true) ∧
    tokens = before ++ ⟨.ident, "void".toList⟩ :: gap

/-- The search passes over tokens in which no definition starts. `seen` are the tokens before. -/
theorem bodyWithin?_append {seen tokens rest : List Token}
    (noDefinition : ∀ earlier later other, seen ++ tokens = earlier ++ later → later ≠ [] →
      ¬StartsDefinition name other (later ++ rest))
    {afterVoid : Bool} (void : afterVoid = true → EndsWithVoid seen) :
    ∃ behind, bodyWithin? name afterVoid (tokens ++ rest) = bodyWithin? name behind rest := by
  induction tokens generalizing seen afterVoid with
  | nil => exact ⟨afterVoid, rfl⟩
  | cons token more ih =>
      have noBody : token.isIdent name = true → afterVoid = true →
          bodyAfterName? (more ++ rest) = none := by
        intro named after
        obtain ⟨before, gap, trivia, rfl⟩ := void after
        rw [Option.eq_none_iff_forall_ne_some]
        intro other found
        refine noDefinition before (⟨.ident, "void".toList⟩ :: (gap ++ token :: more)) other
          (by simp) (List.cons_ne_nil _ _) ⟨gap, more ++ rest, trivia,
            bodyAfterName?_eq_some.mp found, ?_⟩
        rw [eq_of_isIdent named]
        simp
      rw [List.cons_append, bodyWithin?_cons afterVoid noBody]
      refine @ih (seen ++ [token]) (by simpa using noDefinition) _ fun after => ?_
      split at after
      · rename_i trivia
        obtain ⟨before, gap, gapTrivia, rfl⟩ := void after
        refine ⟨before, gap ++ [token], ?_, by simp⟩
        exact List.forall_mem_append.mpr ⟨gapTrivia, by simpa using trivia⟩
      · exact ⟨seen, [], by simp, by rw [eq_of_isIdent after]⟩

/-- The parameters of a function and the semicolon behind its name, where it is only declared. -/
def FollowsPrototype (tokens : List Token) : Prop :=
  ∃ lead parameters trail after, (∀ token ∈ lead ++ trail, token.isTrivia = true) ∧
    IsClosed "(" ")" parameters ∧
    tokens = lead ++ openParen :: (parameters ++ closeParen ::
      (trail ++ ⟨.punct, ";".toList⟩ :: after))

/-- Wherever the function's name follows `void`, the function is only declared. -/
def DeclaresOnly (name : String) (tokens : List Token) : Prop :=
  ∀ before after, tokens = before ++ ⟨.ident, name.toList⟩ :: after → EndsWithVoid before →
    FollowsPrototype after

theorem FollowsPrototype.not_followsName {tokens : List Token} (prototype : FollowsPrototype tokens)
    (more body : List Token) : ¬FollowsName body (tokens ++ more) := by
  obtain ⟨lead, parameters, trail, after, trivia, closed, rfl⟩ := prototype
  obtain ⟨leadTrivia, trailTrivia⟩ := List.forall_mem_append.mp trivia
  have parenthesized : parenthesized? (lead ++ openParen :: (parameters ++ closeParen ::
      (trail ++ ⟨.punct, ";".toList⟩ :: (after ++ more)))) =
        some (parameters, trail ++ ⟨.punct, ";".toList⟩ :: (after ++ more)) :=
    parenthesized?_eq_some.mpr ⟨lead, leadTrivia, closed, rfl⟩
  have noBrace : braced? (trail ++ ⟨.punct, ";".toList⟩ :: (after ++ more)) = none := by
    rw [braced?, dropTrivia_trivia_append trailTrivia]
    rfl
  intro follows
  have found := bodyAfterName?_eq_some.mpr follows
  simp only [List.append_assoc, List.cons_append] at found
  rw [bodyAfterName?, parenthesized] at found
  simp only [Option.bind_eq_bind, Option.bind_some, noBrace, Option.bind_none] at found
  cases found

/-- No definition starts in tokens that only declare the function. -/
theorem isFirstDefinition_of_declaresOnly (notVoid : name ≠ "void") {before rest body : List Token}
    (declares : DeclaresOnly name before) (starts : StartsDefinition name body rest) :
    IsFirstDefinition name body (before ++ rest) := by
  refine ⟨before, rest, rfl, starts, fun earlier later other split notEmpty => ?_⟩
  rintro ⟨gap, onward, trivia, follows, definition⟩
  obtain ⟨token, more, rfl⟩ := List.exists_cons_of_ne_nil notEmpty
  obtain ⟨_, _, -, -, rfl⟩ := starts
  obtain ⟨rfl, search⟩ := List.cons.inj definition
  have noName : (⟨.ident, "void".toList⟩ : Token) ≠ ⟨.ident, name.toList⟩ := by
    intro same
    injection same with _ text
    exact notVoid (String.toList_inj.mp text).symm
  -- The name lies before the definition, which starts with `void`: neither the name nor a blank.
  rcases List.append_eq_append_iff.mp search with ⟨blank, rfl, start⟩ | ⟨named, rfl, start⟩
  · cases blank with
    | nil => exact noName (List.cons.inj start).1
    | cons first _ =>
        obtain rfl := (List.cons.inj start).1
        have isBlank := trivia _ (List.mem_append_right _ List.mem_cons_self)
        cases isBlank
  · cases named with
    | nil => exact noName (List.cons.inj start).1.symm
    | cons first after =>
        obtain ⟨rfl, rfl⟩ := List.cons.inj start
        have prototype := declares (earlier ++ ⟨.ident, "void".toList⟩ :: gap) after (by simp [split])
          ⟨earlier, gap, trivia, rfl⟩
        exact prototype.not_followsName _ other follows

/-- No definition starts in tokens without the function's name. -/
theorem isFirstDefinition_of_absent (notVoid : name ≠ "void") {before rest body : List Token}
    (absent : ∀ token ∈ before, token.isIdent name = false)
    (starts : StartsDefinition name body rest) : IsFirstDefinition name body (before ++ rest) := by
  refine isFirstDefinition_of_declaresOnly notVoid (fun front after split _ => ?_) starts
  have missing := absent ⟨.ident, name.toList⟩ (by simp [split])
  rw [isIdent_self] at missing
  cases missing

theorem functionBody?_of_isFirstDefinition (notVoid : name ≠ "void") {body tokens : List Token}
    (first : IsFirstDefinition name body tokens) : functionBody? name tokens = some (render body) := by
  obtain ⟨before, rest, rfl, starts, noDefinition⟩ := first
  obtain ⟨behind, passed⟩ := @bodyWithin?_append name [] before rest
    (by simpa using noDefinition) false (by simp)
  rw [functionBody?, passed, bodyWithin?_of_startsDefinition notVoid starts, Option.map_some]

end

end Breadboard.Script
