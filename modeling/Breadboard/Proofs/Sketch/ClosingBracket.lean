import Mathlib
import Breadboard.Proofs.Sketch.Fragment

set_option autoImplicit false

namespace Breadboard.Sketch

inductive BracketKind where
  | paren
  | brace
  | square
  deriving DecidableEq, Repr

/-- The tokens from `start` on, up to the one at `stop` and with it. -/
def through (tokens : List Token) (start stop : Nat) : List Token :=
  (tokens.drop start).take (stop + 1 - start)

/-- The same token, or two literals or two comments whatever they hold. -/
def Token.IsSameCode (token other : Token) : Prop :=
  token.kind = other.kind ∧ (token.text = other.text ∨ token.kind = .literal ∨ token.kind = .comment)

theorem Token.IsSameCode.isPunct_eq {token other : Token} (same : token.IsSameCode other) (mark : String) :
    token.isPunct mark = other.isPunct mark := by
  obtain ⟨kind, text | literal | comment⟩ := same
  · rw [Token.isPunct, Token.isPunct, kind, text]
  · rw [Token.isPunct, Token.isPunct, ← kind, literal]
    rfl
  · rw [Token.isPunct, Token.isPunct, ← kind, comment]
    rfl

/-- The first place is the one behind it where the very first does not count. -/
theorem isLeast_succ_iff {holds : Nat → Prop} (notFirst : ¬ holds 0) (place : Nat) :
    IsLeast {n | holds n} (place + 1) ↔ IsLeast {n | holds (n + 1)} place := by
  constructor
  · intro least
    refine ⟨least.1, fun other held => ?_⟩
    have bound := least.2 held
    omega
  · intro least
    refine ⟨least.1, fun other held => ?_⟩
    cases other with
    | zero => exact absurd held notFirst
    | succ other => exact Nat.succ_le_succ (least.2 held)

namespace BracketKind

def opening : BracketKind → String
  | paren => "("
  | brace => "\x7b"
  | square => "["

def closing : BracketKind → String
  | paren => ")"
  | brace => "\x7d"
  | square => "]"

variable (kind : BracketKind)

def opened (tokens : List Token) : Nat :=
  tokens.countP (·.isPunct kind.opening)

def closed (tokens : List Token) : Nat :=
  tokens.countP (·.isPunct kind.closing)

/-- The number of open brackets behind a token, from the number before it. There is none below zero. -/
def count? (before : Nat) (token : Token) : Option Nat :=
  if token.isPunct kind.opening then some (before + 1)
  else if token.isPunct kind.closing then
    if before = 0 then none else some (before - 1)
  else some before

/-- The tokens from `start` to a place behind it close as many brackets as they open. -/
structure IsSettled (tokens : List Token) (start place : Nat) : Prop where
  behind : start < place
  within : place < tokens.length
  settled : kind.closed (through tokens start place) = kind.opened (through tokens start place)

theorem isPunct_closing {token : Token} (opens : token.isPunct kind.opening = true) :
    token.isPunct kind.closing = false := by
  simp only [Token.isPunct, Bool.and_eq_true, beq_iff_eq] at opens
  rw [Token.isPunct, opens.2]
  cases kind <;> simp [opening, closing]

/-- The number of groups that are open inside one, behind a token of it. -/
def depthAfter (depth : Nat) (token : Token) : Nat :=
  if token.isPunct kind.opening then depth + 1
  else if token.isPunct kind.closing then depth - 1
  else depth

/-- The token at `place` closes the group that is open before the tokens with `depth` more inside it: up to
there they close these too. -/
def Ends (depth : Nat) (tokens : List Token) (place : Nat) : Prop :=
  place < tokens.length ∧
    kind.closed (tokens.take (place + 1)) = depth + 1 + kind.opened (tokens.take (place + 1))

section

variable {kind}

/-- What a token that does not end the group adds to the brackets that are open. -/
theorem depthAfter_add {depth : Nat} {token : Token}
    (goesOn : ¬ (token.isPunct kind.closing = true ∧ depth = 0)) :
    kind.depthAfter depth token + kind.closed [token] = depth + kind.opened [token] := by
  simp only [depthAfter, closed, opened, List.countP_singleton]
  by_cases opens : token.isPunct kind.opening = true
  · simp [opens, kind.isPunct_closing opens]
  · by_cases closes : token.isPunct kind.closing = true
    · have deeper : depth ≠ 0 := fun outside => goesOn ⟨closes, outside⟩
      simp only [opens, closes, Bool.false_eq_true, if_true, if_false]
      omega
    · simp [opens, closes]

theorem closed_cons (token : Token) (rest : List Token) :
    kind.closed (token :: rest) = kind.closed [token] + kind.closed rest :=
  @List.countP_append _ _ [token] rest

theorem opened_cons (token : Token) (rest : List Token) :
    kind.opened (token :: rest) = kind.opened [token] + kind.opened rest :=
  @List.countP_append _ _ [token] rest

theorem opened_opening {token : Token} (opens : token.isPunct kind.opening = true) :
    kind.opened [token] = 1 := by
  simp [opened, opens]

theorem closed_opening {token : Token} (opens : token.isPunct kind.opening = true) :
    kind.closed [token] = 0 := by
  simp [closed, kind.isPunct_closing opens]

theorem ends_zero {depth : Nat} {token : Token} {rest : List Token} :
    kind.Ends depth (token :: rest) 0 ↔ token.isPunct kind.closing = true ∧ depth = 0 := by
  simp only [Ends, Nat.zero_add, List.take_succ_cons, List.take_zero, List.length_cons, closed, opened,
    List.countP_singleton]
  by_cases opens : token.isPunct kind.opening = true
  · simp [opens, kind.isPunct_closing opens]
  · by_cases closes : token.isPunct kind.closing = true
    · simp [opens, closes]
    · simp [opens, closes]

/-- Behind a token that does not end the group, the rest of the tokens ends it. -/
theorem ends_succ {depth : Nat} {token : Token} {rest : List Token} {place : Nat}
    (goesOn : ¬ (token.isPunct kind.closing = true ∧ depth = 0)) :
    kind.Ends depth (token :: rest) (place + 1) ↔ kind.Ends (kind.depthAfter depth token) rest place := by
  have added := depthAfter_add goesOn
  rw [Ends, Ends, List.take_succ_cons, closed_cons, opened_cons, List.length_cons, Nat.add_lt_add_iff_right]
  apply and_congr_right
  intro within
  omega

theorem Ends.of_take {depth length place : Nat} {tokens : List Token}
    (ends : kind.Ends depth (tokens.take length) place) : kind.Ends depth tokens place := by
  obtain ⟨within, even⟩ := ends
  rw [List.length_take] at within
  rw [List.take_take, Nat.min_eq_left (by omega)] at even
  exact ⟨by omega, even⟩

theorem splitGroup_step (depth : Nat) (token : Token) (rest : List Token) :
    splitGroup kind.opening kind.closing depth (token :: rest) =
      if token.isPunct kind.closing = true ∧ depth = 0 then some ([], rest)
      else (splitGroup kind.opening kind.closing (kind.depthAfter depth token) rest).map
        fun (inner, after) => (token :: inner, after) := by
  rw [splitGroup_cons, depthAfter]
  by_cases opens : token.isPunct kind.opening = true
  · simp [opens, kind.isPunct_closing opens]
  · by_cases closes : token.isPunct kind.closing = true
    · cases depth with
      | zero => simp [opens, closes]
      | succ depth => simp [opens, closes]
    · simp [opens, closes]

/-- A group is cut off at the first token that ends it. -/
theorem splitGroup_eq_some_iff {depth : Nat} {tokens inner after : List Token} :
    splitGroup kind.opening kind.closing depth tokens = some (inner, after) ↔
      ∃ place, IsLeast {n | kind.Ends depth tokens n} place ∧ inner = tokens.take place ∧
        after = tokens.drop (place + 1) := by
  induction tokens generalizing depth inner with
  | nil =>
      refine iff_of_false (by simp [splitGroup]) ?_
      rintro ⟨place, least, -⟩
      exact absurd least.1.1 (Nat.not_lt_zero place)
  | cons token rest ih =>
      rw [splitGroup_step]
      by_cases here : token.isPunct kind.closing = true ∧ depth = 0
      · rw [if_pos here]
        have least : IsLeast {n | kind.Ends depth (token :: rest) n} 0 :=
          ⟨ends_zero.mpr here, fun _ _ => Nat.zero_le _⟩
        constructor
        · intro cut
          obtain ⟨rfl, rfl⟩ := Prod.mk.inj (Option.some.inj cut)
          exact ⟨0, least, rfl, rfl⟩
        · rintro ⟨place, other, rfl, rfl⟩
          rw [other.unique least]
          rfl
      · rw [if_neg here, Option.map_eq_some_iff]
        have notFirst : ¬ kind.Ends depth (token :: rest) 0 := fun ends => here (ends_zero.mp ends)
        have later (place : Nat) : IsLeast {n | kind.Ends depth (token :: rest) n} (place + 1) ↔
            IsLeast {n | kind.Ends (kind.depthAfter depth token) rest n} place := by
          rw [isLeast_succ_iff notFirst]
          simp only [ends_succ here]
        constructor
        · rintro ⟨⟨inside, behind⟩, cut, eq⟩
          obtain ⟨rfl, rfl⟩ := Prod.mk.inj eq
          obtain ⟨place, least, rfl, rfl⟩ := ih.mp cut
          exact ⟨place + 1, (later place).mpr least, rfl, rfl⟩
        · rintro ⟨place, least, rfl, rfl⟩
          cases place with
          | zero => exact absurd least.1 notFirst
          | succ place =>
              exact ⟨_, ih.mpr ⟨place, (later place).mp least, rfl, rfl⟩, rfl⟩

theorem count?_succ {depth : Nat} {token : Token}
    (goesOn : ¬ (token.isPunct kind.closing = true ∧ depth = 0)) :
    kind.count? (depth + 1) token = some (kind.depthAfter depth token + 1) := by
  rw [count?, depthAfter]
  by_cases opens : token.isPunct kind.opening = true
  · rw [if_pos opens, if_pos opens]
  · rw [if_neg opens, if_neg opens]
    by_cases closes : token.isPunct kind.closing = true
    · have deeper : depth ≠ 0 := fun outside => goesOn ⟨closes, outside⟩
      rw [if_pos closes, if_pos closes, if_neg (Nat.succ_ne_zero depth)]
      congr 1
      omega
    · rw [if_neg closes, if_neg closes]

/-- Up to the end of a group its open brackets can be counted, and they are those that are not closed. -/
theorem foldlM_count? {depth : Nat} {tokens : List Token}
    (goesOn : ∀ place, place + 1 < tokens.length → ¬ kind.Ends depth tokens place) :
    ∃ count, tokens.foldlM kind.count? (depth + 1) = some count ∧
      count + kind.closed tokens = depth + 1 + kind.opened tokens := by
  induction tokens generalizing depth with
  | nil => exact ⟨depth + 1, rfl, rfl⟩
  | cons token rest ih =>
      rw [List.foldlM_cons, closed_cons, opened_cons]
      by_cases here : token.isPunct kind.closing = true ∧ depth = 0
      · obtain ⟨closes, rfl⟩ := here
        have notOpens : ¬ token.isPunct kind.opening = true := by
          intro opens
          rw [kind.isPunct_closing opens] at closes
          cases closes
        -- The token ends the group, so it is the last one.
        have nothing : rest = [] := by
          by_contra some
          have longer := List.length_pos_iff.mpr some
          apply goesOn 0 (by simpa using longer)
          exact ends_zero.mpr ⟨closes, rfl⟩
        subst nothing
        refine ⟨0, ?_, ?_⟩
        · simp [count?, notOpens, closes]
        · simp [closed, opened, notOpens, closes]
      · have added := depthAfter_add here
        have onward : ∀ place, place + 1 < rest.length →
            ¬ kind.Ends (kind.depthAfter depth token) rest place := by
          intro place within ends
          apply goesOn (place + 1) (Nat.succ_lt_succ within)
          exact (ends_succ here).mpr ends
        obtain ⟨count, counted, total⟩ := ih onward
        refine ⟨count, ?_, ?_⟩
        · rw [count?_succ here]
          exact counted
        · omega

/-- Literals and comments do not change where a group ends. -/
theorem length_splitGroup_of_sameCode {tokens others : List Token}
    (same : List.Forall₂ Token.IsSameCode tokens others) (depth : Nat) :
    (splitGroup kind.opening kind.closing depth others).map (·.1.length) =
      (splitGroup kind.opening kind.closing depth tokens).map (·.1.length) := by
  induction same generalizing depth with
  | nil => rfl
  | @cons token other tokens others first _ ih =>
      have closes := first.isPunct_eq kind.closing
      have deeper : kind.depthAfter depth other = kind.depthAfter depth token := by
        rw [depthAfter, depthAfter, first.isPunct_eq, first.isPunct_eq]
      rw [splitGroup_step, splitGroup_step, ← closes, deeper]
      split
      · rfl
      · have onward := congrArg (Option.map (· + 1)) (ih (kind.depthAfter depth token))
        rw [Option.map_map, Option.map_map] at onward ⊢
        exact onward

section

variable {tokens : List Token} {start : Nat} {bracket : Token} (here : tokens[start]? = some bracket)
  (opens : bracket.isPunct kind.opening = true)

include here

theorem through_eq (length : Nat) :
    through tokens start (start + length) = bracket :: (tokens.drop (start + 1)).take length := by
  obtain ⟨within, rfl⟩ := List.getElem?_eq_some_iff.mp here
  have width : start + length + 1 - start = length + 1 := by omega
  rw [through, width, List.drop_eq_getElem_cons within, List.take_succ_cons]

include opens

theorem isSettled_iff {place : Nat} :
    kind.IsSettled tokens start place ↔
      ∃ length, place = start + 1 + length ∧ kind.Ends 0 (tokens.drop (start + 1)) length := by
  have counts (length : Nat) :
      kind.closed (through tokens start (start + 1 + length)) =
          kind.opened (through tokens start (start + 1 + length)) ↔
        kind.closed ((tokens.drop (start + 1)).take (length + 1)) =
          0 + 1 + kind.opened ((tokens.drop (start + 1)).take (length + 1)) := by
    rw [Nat.add_assoc, Nat.add_comm 1, through_eq here, closed_cons, opened_cons, opened_opening opens,
      closed_opening opens, Nat.zero_add, Nat.zero_add]
  constructor
  · intro settled
    obtain ⟨length, rfl⟩ := Nat.exists_eq_add_of_le (Nat.succ_le_of_lt settled.behind)
    refine ⟨length, rfl, ?_, (counts length).mp settled.settled⟩
    have within := settled.within
    rw [List.length_drop]
    omega
  · rintro ⟨length, rfl, within, even⟩
    rw [List.length_drop] at within
    exact ⟨by omega, by omega, (counts length).mpr even⟩

/-- Until the brackets are settled, the open ones can be counted. -/
theorem exists_count {place : Nat} (behind : start ≤ place)
    (unsettled : ∀ earlier < place, ¬ kind.IsSettled tokens start earlier) :
    ∃ count, (through tokens start place).foldlM kind.count? 0 = some count ∧
      count + kind.closed (through tokens start place) = kind.opened (through tokens start place) := by
  obtain ⟨length, rfl⟩ := Nat.exists_eq_add_of_le behind
  have goesOn : ∀ place, place + 1 < ((tokens.drop (start + 1)).take length).length →
      ¬ kind.Ends 0 ((tokens.drop (start + 1)).take length) place := by
    intro place before ends
    rw [List.length_take] at before
    apply unsettled (start + 1 + place) (by omega)
    exact (isSettled_iff here opens).mpr ⟨place, rfl, ends.of_take⟩
  obtain ⟨count, counted, total⟩ := foldlM_count? goesOn
  have first : kind.count? 0 bracket = some 1 := if_pos opens
  refine ⟨count, ?_, ?_⟩
  · rw [through_eq here, List.foldlM_cons, first]
    exact counted
  · rw [through_eq here, closed_cons, opened_cons, opened_opening opens, closed_opening opens]
    omega

theorem isLeast_isSettled_iff {stop : Nat} :
    IsLeast {place | kind.IsSettled tokens start place} stop ↔
      ∃ length, stop = start + 1 + length ∧
        IsLeast {n | kind.Ends 0 (tokens.drop (start + 1)) n} length := by
  constructor
  · intro least
    obtain ⟨length, rfl, ends⟩ := (isSettled_iff here opens).mp least.1
    refine ⟨length, rfl, ends, fun other otherEnds => ?_⟩
    have bound := least.2 ((isSettled_iff here opens).mpr ⟨other, rfl, otherEnds⟩)
    omega
  · rintro ⟨length, rfl, least⟩
    refine ⟨(isSettled_iff here opens).mpr ⟨length, rfl, least.1⟩, fun other settled => ?_⟩
    obtain ⟨place, rfl, ends⟩ := (isSettled_iff here opens).mp settled
    have bound := least.2 ends
    omega

end

end

end BracketKind

/-- A group is cut off at the first place up to which its brackets are settled, and it has no end if there is no
such place. On the way there the open brackets can be counted, and only brackets that are tokens of their own
count. -/
theorem splitGroup_first_settled (kind : BracketKind) {tokens : List Token} {start : Nat} {bracket : Token}
    (here : tokens[start]? = some bracket) (opens : bracket.isPunct kind.opening = true) :
    (∀ inner after, splitGroup kind.opening kind.closing 0 (tokens.drop (start + 1)) = some (inner, after) ↔
      ∃ stop, IsLeast {place | kind.IsSettled tokens start place} stop ∧
        inner = (tokens.drop (start + 1)).take (stop - (start + 1)) ∧ after = tokens.drop (stop + 1)) ∧
    (splitGroup kind.opening kind.closing 0 (tokens.drop (start + 1)) = none ↔
      ∀ place, ¬ kind.IsSettled tokens start place) ∧
    (∀ place, start ≤ place → (∀ earlier < place, ¬ kind.IsSettled tokens start earlier) →
      ∃ count, (through tokens start place).foldlM kind.count? 0 = some count ∧
        count + kind.closed (through tokens start place) = kind.opened (through tokens start place)) ∧
    ∀ others, List.Forall₂ Token.IsSameCode tokens others →
      (splitGroup kind.opening kind.closing 0 (others.drop (start + 1))).map (·.1.length) =
        (splitGroup kind.opening kind.closing 0 (tokens.drop (start + 1))).map (·.1.length) := by
  have cut (inner after : List Token) :
      splitGroup kind.opening kind.closing 0 (tokens.drop (start + 1)) = some (inner, after) ↔
        ∃ stop, IsLeast {place | kind.IsSettled tokens start place} stop ∧
          inner = (tokens.drop (start + 1)).take (stop - (start + 1)) ∧ after = tokens.drop (stop + 1) := by
    rw [BracketKind.splitGroup_eq_some_iff]
    constructor
    · rintro ⟨length, least, rfl, rfl⟩
      have first := (BracketKind.isLeast_isSettled_iff here opens).mpr ⟨length, rfl, least⟩
      refine ⟨start + 1 + length, first, ?_, ?_⟩
      · rw [Nat.add_sub_cancel_left]
      · rw [List.drop_drop]
        rfl
    · rintro ⟨stop, least, rfl, rfl⟩
      obtain ⟨length, rfl, first⟩ := (BracketKind.isLeast_isSettled_iff here opens).mp least
      refine ⟨length, first, ?_, ?_⟩
      · rw [Nat.add_sub_cancel_left]
      · rw [List.drop_drop]
        rfl
  have unending : splitGroup kind.opening kind.closing 0 (tokens.drop (start + 1)) = none ↔
      ∀ place, ¬ kind.IsSettled tokens start place := by
    constructor
    · intro nothing place settled
      have least : IsLeast {place | kind.IsSettled tokens start place} _ :=
        ⟨Nat.sInf_mem ⟨place, settled⟩, fun _ held => Nat.sInf_le held⟩
      have found := (cut _ _).mpr ⟨_, least, rfl, rfl⟩
      rw [nothing] at found
      cases found
    · intro never
      rw [Option.eq_none_iff_forall_ne_some]
      intro found isFound
      obtain ⟨stop, least, -⟩ := (cut found.1 found.2).mp isFound
      exact never stop least.1
  refine ⟨cut, unending, fun place behind unsettled => ?_, fun others same => ?_⟩
  · exact BracketKind.exists_count here opens behind unsettled
  · exact BracketKind.length_splitGroup_of_sameCode (List.forall₂_drop (start + 1) same) 0

/-- A call of a call with a bracket in a literal. -/
def nestedCall : Text :=
  "f(g(')'), (1)) )".toList

theorem splitGroup_first_settled_nestedCall :
    (tokenize nestedCall)[1]? = some ⟨.punct, "(".toList⟩ ∧
    Token.isPunct BracketKind.paren.opening ⟨.punct, "(".toList⟩ = true ∧
    IsLeast {place | BracketKind.paren.IsSettled (tokenize nestedCall) 1 place} 11 := by
  have tokens : tokenize nestedCall = [⟨.ident, "f".toList⟩, ⟨.punct, "(".toList⟩, ⟨.ident, "g".toList⟩,
      ⟨.punct, "(".toList⟩, ⟨.literal, "')'".toList⟩, ⟨.punct, ")".toList⟩, ⟨.punct, ",".toList⟩,
      ⟨.space, " ".toList⟩, ⟨.punct, "(".toList⟩, ⟨.number, "1".toList⟩, ⟨.punct, ")".toList⟩,
      ⟨.punct, ")".toList⟩, ⟨.space, " ".toList⟩, ⟨.punct, ")".toList⟩] := by
    cbv
  have here : (tokenize nestedCall)[1]? = some ⟨.punct, "(".toList⟩ := by
    rw [tokens]
    rfl
  have opens : Token.isPunct BracketKind.paren.opening ⟨.punct, "(".toList⟩ = true := by decide
  have found : splitGroup "(" ")" 0 ((tokenize nestedCall).drop 2) =
      some ((tokenize nestedCall).drop 2 |>.take 9, (tokenize nestedCall).drop 12) := by
    rw [tokens]
    decide
  obtain ⟨stop, least, -, after⟩ := ((splitGroup_first_settled .paren here opens).1 _ _).mp found
  have left := congrArg List.length after
  have within := least.1.within
  rw [tokens] at left within
  simp only [List.length_drop, List.length_cons, List.length_nil] at left within
  have place : stop = 11 := by omega
  exact ⟨here, opens, place ▸ least⟩

end Breadboard.Sketch
