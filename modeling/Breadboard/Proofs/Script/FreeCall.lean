import Breadboard.Proofs.Script.ConstantDefinition
import Breadboard.Proofs.Script.Definition

set_option autoImplicit false

namespace Breadboard.Script

open Sketch hiding stripComments

/-- The parts of a path, each behind blanks and comments. -/
inductive SpellsPath : List String → List Token → Prop where
  | nil : SpellsPath [] []
  | cons {part : String} {parts : List String} {gap rest : List Token} {token : Token}
      (trivia : ∀ other ∈ gap, other.isTrivia = true) (visible : token.isTrivia = false)
      (spelled : token.text = part.toList) (more : SpellsPath parts rest) :
      SpellsPath (part :: parts) (gap ++ token :: rest)

/-- The last token that counts is a dot. -/
def EndsInDot (tokens : List Token) : Prop :=
  ∃ before gap, (∀ token ∈ gap, token.isTrivia = true) ∧ tokens = before ++ ⟨.punct, ".".toList⟩ :: gap

/-- Behind the tokens `before` a function is called by its path, not as a method of something, and `inner`
stands between the parentheses. -/
structure IsFreeCall (head : String) (tail : List String) (tokens before inner : List Token) : Prop where
  free : ¬ EndsInDot before
  closed : IsClosed "(" ")" inner
  split : ∃ path gap after, SpellsPath tail path ∧ (∀ token ∈ gap, token.isTrivia = true) ∧
    tokens = before ++ ⟨.ident, head.toList⟩ :: (path ++ (gap ++ openParen :: (inner ++ closeParen :: after)))

theorem endsInDot_concat_trivia {tokens : List Token} {token : Token} (trivia : token.isTrivia = true) :
    EndsInDot (tokens ++ [token]) ↔ EndsInDot tokens := by
  constructor
  · rintro ⟨before, gap, gapTrivia, split⟩
    rcases List.eq_nil_or_concat' gap with rfl | ⟨others, last, rfl⟩
    · obtain ⟨-, same⟩ := List.append_inj' split rfl
      obtain rfl := List.singleton_inj.mp same
      cases trivia
    · rw [← List.cons_append, ← List.append_assoc] at split
      exact ⟨before, others, fun other member => gapTrivia other (List.mem_append_left _ member),
        (List.append_inj' split rfl).1⟩
  · rintro ⟨before, gap, gapTrivia, rfl⟩
    refine ⟨before, gap ++ [token], List.forall_mem_append.mpr ⟨gapTrivia, by simpa using trivia⟩, by simp⟩

theorem endsInDot_concat_visible {tokens : List Token} {token : Token} (visible : token.isTrivia = false) :
    EndsInDot (tokens ++ [token]) ↔ token.isPunct "." = true := by
  constructor
  · rintro ⟨before, gap, gapTrivia, split⟩
    rcases List.eq_nil_or_concat' gap with rfl | ⟨others, last, rfl⟩
    · obtain ⟨-, same⟩ := List.append_inj' split rfl
      rw [List.singleton_inj.mp same]
      rfl
    · rw [← List.cons_append, ← List.append_assoc] at split
      obtain ⟨-, same⟩ := List.append_inj' split rfl
      have lastTrivia := gapTrivia last (by simp)
      rw [← List.singleton_inj.mp same, visible] at lastTrivia
      cases lastTrivia
  · intro dot
    exact ⟨tokens, [], by simp, by rw [eq_of_isPunct dot]⟩

theorem foldl_isDotNext_iff (tokens : List Token) :
    tokens.foldl isDotNext false = true ↔ EndsInDot tokens := by
  induction tokens using List.reverseRecOn with
  | nil => simp [EndsInDot]
  | append_singleton tokens token ih =>
      rw [List.foldl_append, List.foldl_cons, List.foldl_nil, isDotNext]
      cases trivia : token.isTrivia with
      | true => rw [if_pos rfl, ih, endsInDot_concat_trivia trivia]
      | false => rw [if_neg Bool.false_ne_true, endsInDot_concat_visible trivia]

theorem foldl_isDotNext_eq_false {tokens : List Token} :
    tokens.foldl isDotNext false = false ↔ ¬ EndsInDot tokens := by
  rw [← foldl_isDotNext_iff, Bool.not_eq_true]

theorem afterPath?_eq_some_iff {parts : List String} {tokens after : List Token} :
    afterPath? parts tokens = some after ↔ ∃ path, SpellsPath parts path ∧ tokens = path ++ after := by
  induction parts generalizing tokens with
  | nil =>
      rw [afterPath?, Option.some.injEq]
      constructor
      · rintro rfl
        exact ⟨[], .nil, rfl⟩
      · rintro ⟨path, spells, rfl⟩
        cases spells
        rfl
  | cons part parts ih =>
      rw [afterPath?]
      constructor
      · intro found
        split at found
        · cases found
        · rename_i token rest dropped
          obtain ⟨spelled, onward⟩ := Option.ite_none_right_eq_some.mp found
          obtain ⟨visible, gap, trivia, rfl⟩ := dropTrivia_eq_cons.mp dropped
          obtain ⟨path, spells, rfl⟩ := ih.mp onward
          exact ⟨gap ++ token :: path, .cons trivia visible spelled spells, by simp⟩
      · rintro ⟨path, spells, rfl⟩
        cases spells with
        | @cons _ _ gap rest token trivia visible spelled more =>
            have dropped : dropTrivia ((gap ++ token :: rest) ++ after) = token :: (rest ++ after) :=
              dropTrivia_eq_cons.mpr ⟨visible, gap, trivia, by simp⟩
            rw [dropped]
            simp only [spelled, if_true]
            exact ih.mpr ⟨rest, more, rfl⟩

/-- What a call is made of. -/
theorem callAt?_eq_some_iff {head : String} {tail : List String} {token : Token} {rest after : List Token}
    {call : Call} :
    callAt? head tail token rest = some (call, after) ↔ token = ⟨.ident, head.toList⟩ ∧
      ∃ path gap inner, SpellsPath tail path ∧ (∀ other ∈ gap, other.isTrivia = true) ∧
        IsClosed "(" ")" inner ∧ call = Call.ofTokens inner ∧
        rest = path ++ (gap ++ openParen :: (inner ++ closeParen :: after)) := by
  rw [callAt?]
  constructor
  · intro found
    obtain ⟨named, found⟩ := Option.ite_none_right_eq_some.mp found
    obtain ⟨behind, onPath, found⟩ := Option.bind_eq_some_iff.mp found
    obtain ⟨⟨inner, rest'⟩, group, made⟩ := Option.bind_eq_some_iff.mp found
    obtain ⟨rfl, rfl⟩ := Prod.mk.inj (Option.some.inj made)
    obtain ⟨path, spells, rfl⟩ := afterPath?_eq_some_iff.mp onPath
    obtain ⟨gap, trivia, closed, rfl⟩ := parenthesized?_eq_some.mp group
    exact ⟨eq_of_isIdent named, path, gap, inner, spells, trivia, closed, rfl, rfl⟩
  · rintro ⟨rfl, path, gap, inner, spells, trivia, closed, rfl, rfl⟩
    have onPath := afterPath?_eq_some_iff.mpr
      ⟨path, spells, (rfl : path ++ (gap ++ openParen :: (inner ++ closeParen :: after)) = _)⟩
    have group := parenthesized?_eq_some.mpr
      ⟨gap, trivia, closed, (rfl : gap ++ openParen :: (inner ++ closeParen :: after) = _)⟩
    rw [if_pos (isIdent_self head), onPath]
    simp only [Option.bind_eq_bind, Option.bind_some, group]
    rfl

/-- A call of a function that has a name of its own. -/
theorem isFreeCall_function_iff {name : String} {tokens before inner : List Token} :
    IsFreeCall name [] tokens before inner ↔ ¬ EndsInDot before ∧ ∃ token rest after,
      tokens = before ++ token :: rest ∧ token.isIdent name = true ∧
        parenthesized? rest = some (inner, after) := by
  constructor
  · rintro ⟨free, closed, path, gap, after, spells, trivia, rfl⟩
    cases spells
    exact ⟨free, _, _, after, rfl, isIdent_self name,
      parenthesized?_eq_some.mpr ⟨gap, trivia, closed, rfl⟩⟩
  · rintro ⟨free, token, rest, after, rfl, named, group⟩
    obtain ⟨gap, trivia, closed, rfl⟩ := parenthesized?_eq_some.mp group
    exact ⟨free, closed, [], gap, after, .nil, trivia, by rw [eq_of_isIdent named]; rfl⟩

/-- The calls of a function in the order of their places, each with the tokens between its parentheses. A
place is the number of tokens before the call. -/
structure ListsCalls (name : String) (tokens : List Token) (calls : List (Nat × List Token)) : Prop where
  inOrder : calls.Pairwise fun first second => first.1 < second.1
  complete : ∀ place inner, (place, inner) ∈ calls ↔
    ∃ before, before.length = place ∧ IsFreeCall name [] tokens before inner

/-- The calls of a function from a place on. -/
def callSites (name : String) : Nat → Bool → List Token → List (Nat × List Token)
  | _, _, [] => []
  | place, afterDot, token :: rest =>
    let group := if token.isIdent name && !afterDot then parenthesized? rest else none
    (group.map fun (inner, _) => (place, inner)).toList ++
      callSites name (place + 1) (isDotNext afterDot token) rest

theorem callsOf_eq_map (name : String) (place : Nat) (afterDot : Bool) (tokens : List Token) :
    callsOf name afterDot tokens =
      (callSites name place afterDot tokens).map fun site => Sketch.arguments site.2 := by
  induction tokens generalizing place afterDot with
  | nil => rfl
  | cons token rest ih =>
      have onward : callsOf name (isDotNext afterDot token) rest = _ :=
        ih (place + 1) (isDotNext afterDot token)
      rw [callsOf, callSites, List.map_append, ← onward]
      congr 1
      split
      · cases parenthesized? rest with
        | none => rfl
        | some group => rfl
      · rfl

theorem mem_callSites {name : String} {start place : Nat} {afterDot : Bool} {tokens inner : List Token} :
    (place, inner) ∈ callSites name start afterDot tokens ↔ ∃ before token rest after,
      tokens = before ++ token :: rest ∧ place = start + before.length ∧
        before.foldl isDotNext afterDot = false ∧ token.isIdent name = true ∧
        parenthesized? rest = some (inner, after) := by
  induction tokens generalizing start afterDot with
  | nil => simp [callSites]
  | cons token rest ih =>
      rw [callSites, List.mem_append, ih]
      constructor
      · rintro (here | ⟨before, other, more, after, rfl, rfl, free, named, group⟩)
        · rw [Option.mem_toList] at here
          obtain ⟨⟨inside, after⟩, group, same⟩ := Option.map_eq_some_iff.mp here
          obtain ⟨called, group⟩ := Option.ite_none_right_eq_some.mp group
          obtain ⟨rfl, rfl⟩ := Prod.mk.inj same
          obtain ⟨named, noDot⟩ : token.isIdent name = true ∧ afterDot = false := by simpa using called
          exact ⟨[], token, rest, after, rfl, rfl, noDot, named, group⟩
        · exact ⟨token :: before, other, more, after, rfl, by simp; omega, free, named, group⟩
      · rintro ⟨before, other, more, after, split, rfl, free, named, group⟩
        cases before with
        | nil =>
            obtain ⟨rfl, rfl⟩ := List.cons.inj split
            refine Or.inl ?_
            rw [show afterDot = false from free, named, group]
            simp
        | cons first others =>
            obtain ⟨rfl, rfl⟩ := List.cons.inj split
            exact Or.inr ⟨others, other, more, after, rfl, by simp; omega, free, named, group⟩

theorem le_of_mem_callSites {name : String} {start : Nat} {afterDot : Bool} {tokens : List Token}
    {site : Nat × List Token} (member : site ∈ callSites name start afterDot tokens) : start ≤ site.1 := by
  obtain ⟨before, token, rest, after, -, place, -⟩ := mem_callSites.mp member
  omega

theorem pairwise_callSites (name : String) (start : Nat) (afterDot : Bool) (tokens : List Token) :
    (callSites name start afterDot tokens).Pairwise fun first second => first.1 < second.1 := by
  induction tokens generalizing start afterDot with
  | nil => exact .nil
  | cons token rest ih =>
      rw [callSites, List.pairwise_append]
      refine ⟨?_, ih _ _, fun first here second later => ?_⟩
      · generalize Option.map _ _ = site
        cases site <;> simp
      · rw [Option.mem_toList] at here
        obtain ⟨group, -, rfl⟩ := Option.map_eq_some_iff.mp here
        exact le_of_mem_callSites later

theorem listsCalls_callSites (name : String) (tokens : List Token) :
    ListsCalls name tokens (callSites name 0 false tokens) := by
  refine ⟨pairwise_callSites name 0 false tokens, fun place inner => ?_⟩
  rw [mem_callSites]
  constructor
  · rintro ⟨before, token, rest, after, split, rfl, free, named, group⟩
    exact ⟨before, (Nat.zero_add _).symm, isFreeCall_function_iff.mpr
      ⟨foldl_isDotNext_eq_false.mp free, token, rest, after, split, named, group⟩⟩
  · rintro ⟨before, rfl, call⟩
    obtain ⟨free, token, rest, after, split, named, group⟩ := isFreeCall_function_iff.mp call
    exact ⟨before, token, rest, after, split, (Nat.zero_add _).symm,
      foldl_isDotNext_eq_false.mpr free, named, group⟩

end Breadboard.Script
