import Breadboard.Proofs.Script.CallArgument
import Breadboard.Proofs.Sketch.ClosingBracket

set_option autoImplicit false

namespace Breadboard.Script

open Sketch hiding stripComments

/-- Each bracket that is opened is closed by one of its kind, around what is nested in the same way. -/
inductive IsNested : List Token → Prop where
  | nil : IsNested []
  | plain {token : Token} {rest : List Token} (notOpening : token.isOpening = false)
      (notClosing : token.isClosing = false) (more : IsNested rest) : IsNested (token :: rest)
  | group (kind : BracketKind) {opening closing : Token} {inner rest : List Token}
      (opens : opening.isPunct kind.opening = true) (closes : closing.isPunct kind.closing = true)
      (inside : IsNested inner) (more : IsNested rest) : IsNested (opening :: (inner ++ closing :: rest))

/-- How many more brackets the tokens open than they close. -/
def bracketDepth (tokens : List Token) : Int :=
  tokens.countP Token.isOpening - tokens.countP Token.isClosing

/-- The places of the commas outside all brackets, of which `depth` are open before the tokens. -/
def separators (depth : Int) (tokens : List Token) : List Nat :=
  (List.range tokens.length).filter fun place =>
    tokens[place]? = some comma ∧ depth + bracketDepth (tokens.take place) = 0

/-- The tokens from `start` on, cut at places that are left out. -/
def cutAt (tokens : List Token) : Nat → List Nat → List (List Token)
  | start, [] => [tokens.drop start]
  | start, place :: more => (tokens.drop start).take (place - start) :: cutAt tokens (place + 1) more

theorem isOpening_of_kind (kind : BracketKind) {token : Token} (opens : token.isPunct kind.opening = true) :
    token.isOpening = true ∧ token.isClosing = false := by
  rw [eq_of_isPunct opens]
  cases kind <;> decide

theorem isClosing_of_kind (kind : BracketKind) {token : Token} (closes : token.isPunct kind.closing = true) :
    token.isOpening = false ∧ token.isClosing = true := by
  rw [eq_of_isPunct closes]
  cases kind <;> decide

theorem not_isClosing_of_isOpening {token : Token} (opens : token.isOpening = true) :
    token.isClosing = false := by
  simp only [Token.isOpening, Bool.or_eq_true] at opens
  rcases opens with (paren | square) | brace
  · exact (isOpening_of_kind .paren paren).2
  · exact (isOpening_of_kind .square square).2
  · exact (isOpening_of_kind .brace brace).2

theorem bracketDepth_append (first second : List Token) :
    bracketDepth (first ++ second) = bracketDepth first + bracketDepth second := by
  simp only [bracketDepth, List.countP_append]
  omega

theorem bracketDepth_cons (token : Token) (rest : List Token) :
    bracketDepth (token :: rest) = bracketDepth [token] + bracketDepth rest :=
  bracketDepth_append [token] rest

@[simp] theorem bracketDepth_nil : bracketDepth [] = 0 := rfl

theorem bracketDepth_opening {token : Token} (opens : token.isOpening = true) : bracketDepth [token] = 1 := by
  simp [bracketDepth, opens, not_isClosing_of_isOpening opens]

theorem bracketDepth_closing {token : Token} (notOpening : token.isOpening = false)
    (closes : token.isClosing = true) : bracketDepth [token] = -1 := by
  simp [bracketDepth, notOpening, closes]

theorem bracketDepth_plain {token : Token} (notOpening : token.isOpening = false)
    (notClosing : token.isClosing = false) : bracketDepth [token] = 0 := by
  simp [bracketDepth, notOpening, notClosing]

/-- The count of open brackets is exact where none is closed that is not open. -/
theorem bracketsAfter_eq {depth : Nat} {token : Token} (held : 0 ≤ depth + bracketDepth [token]) :
    (bracketsAfter depth token : Int) = depth + bracketDepth [token] := by
  rw [bracketsAfter]
  cases opens : token.isOpening with
  | true =>
      rw [if_pos rfl, bracketDepth_opening opens]
      omega
  | false =>
      rw [if_neg Bool.false_ne_true]
      cases closes : token.isClosing with
      | true =>
          rw [bracketDepth_closing opens closes] at held ⊢
          rw [if_pos rfl]
          omega
      | false =>
          rw [if_neg Bool.false_ne_true, bracketDepth_plain opens closes]
          omega

theorem separators_cons (depth : Int) (token : Token) (rest : List Token) :
    separators depth (token :: rest) =
      (if token = comma ∧ depth = 0 then [0] else []) ++
        (separators (depth + bracketDepth [token]) rest).map (· + 1) := by
  have behind : (fun place : Nat => decide ((token :: rest)[place]? = some comma ∧
        depth + bracketDepth ((token :: rest).take place) = 0)) ∘ Nat.succ =
      fun place => decide (rest[place]? = some comma ∧
        depth + bracketDepth [token] + bracketDepth (rest.take place) = 0) := by
    funext place
    rw [Function.comp_apply, decide_eq_decide, Nat.succ_eq_add_one, List.getElem?_cons_succ,
      List.take_succ_cons, bracketDepth_cons, Int.add_assoc]
  have first : ((token :: rest)[0]? = some comma ∧ depth + bracketDepth ((token :: rest).take 0) = 0) ↔
      token = comma ∧ depth = 0 := by
    rw [List.getElem?_cons_zero, Option.some_inj, List.take_zero, bracketDepth_nil, Int.add_zero]
  rw [separators, List.length_cons, List.range_succ_eq_map, List.filter_cons, List.filter_map, behind,
    separators]
  simp only [first, decide_eq_true_eq]
  split
  · rfl
  · rfl

theorem cutAt_cons (token : Token) (rest : List Token) (start : Nat) (places : List Nat) :
    cutAt (token :: rest) (start + 1) (places.map (· + 1)) = cutAt rest start places := by
  induction places generalizing start with
  | nil => rfl
  | cons place more ih =>
      rw [List.map_cons, cutAt, ih, cutAt, List.drop_succ_cons, Nat.add_sub_add_right]

theorem cutAt_comma (rest : List Token) (places : List Nat) :
    cutAt (comma :: rest) 0 (0 :: places.map (· + 1)) = [] :: cutAt rest 0 places := by
  rw [cutAt, cutAt_cons]
  rfl

/-- Where no bracket is closed that is not open, the pieces are cut at the commas outside all brackets. -/
theorem pieces_eq_cutAt {depth : Nat} {tokens : List Token}
    (held : ∀ count, 0 ≤ depth + bracketDepth (tokens.take count)) :
    pieces depth tokens = cutAt tokens 0 (separators depth tokens) := by
  induction tokens generalizing depth with
  | nil => rfl
  | cons token rest ih =>
      have first : 0 ≤ (depth : Int) + bracketDepth [token] := held 1
      have exact := bracketsAfter_eq first
      have onward := @ih (bracketsAfter depth token) fun count => by
        have later := held (count + 1)
        rw [List.take_succ_cons, bracketDepth_cons] at later
        omega
      rw [separators_cons, ← exact]
      by_cases here : token = comma ∧ depth = 0
      · obtain ⟨rfl, rfl⟩ := here
        have same : bracketsAfter 0 comma = 0 := rfl
        rw [same] at onward ⊢
        rw [pieces_comma, onward, if_pos ⟨rfl, rfl⟩, List.singleton_append]
        exact (cutAt_comma rest _).symm
      · rw [if_neg (by simpa using here), List.nil_append]
        have inside : ¬ (depth = 0 ∧ token = comma) := fun outside => here outside.symm
        cases places : separators (bracketsAfter depth token) rest with
        | nil =>
            rw [places] at onward
            exact pieces_cons_inside inside onward
        | cons place more =>
            rw [places, cutAt] at onward
            rw [pieces_cons_inside inside onward, List.map_cons, cutAt, cutAt_cons]
            rfl

theorem length_cutAt (tokens : List Token) (start : Nat) (places : List Nat) :
    (cutAt tokens start places).length = places.length + 1 := by
  induction places generalizing start with
  | nil => rfl
  | cons place more ih => rw [cutAt, List.length_cons, ih, List.length_cons]

/-- Joined with commas, the pieces are the tokens again. -/
theorem render_pieces (depth : Nat) (tokens : List Token) :
    [','].intercalate ((pieces depth tokens).map render) = render tokens := by
  induction tokens generalizing depth with
  | nil => rfl
  | cons token rest ih =>
      by_cases here : depth = 0 ∧ token = comma
      · obtain ⟨rfl, rfl⟩ := here
        have onward := ih 0
        obtain ⟨piece, more, found⟩ := List.exists_cons_of_ne_nil (pieces_ne_nil 0 rest)
        rw [found] at onward
        rw [pieces_comma, found, List.map_cons, List.map_cons, List.intercalate_cons_cons, ← List.map_cons,
          onward]
        rfl
      · have onward := ih (bracketsAfter depth token)
        obtain ⟨piece, more, found⟩ :=
          List.exists_cons_of_ne_nil (pieces_ne_nil (bracketsAfter depth token) rest)
        rw [found] at onward
        rw [pieces_cons_inside here found, render_cons, ← onward]
        cases more with
        | nil => simp
        | cons next others => simp [List.intercalate_cons_cons]

/-- In brackets the tokens are not cut. -/
def IsUncut (tokens : List Token) : Prop :=
  ∀ (depth : Nat) (rest piece : List Token) (more : List (List Token)),
    pieces (depth + 1) rest = piece :: more → pieces (depth + 1) (tokens ++ rest) = (tokens ++ piece) :: more

theorem bracketsAfter_plain {token : Token} (notOpening : token.isOpening = false)
    (notClosing : token.isClosing = false) (depth : Nat) : bracketsAfter depth token = depth := by
  rw [bracketsAfter, notOpening, notClosing]
  rfl

/-- A bracketed group is not cut if what is in it is not. -/
theorem IsUncut.pieces_group (kind : BracketKind) {opening closing : Token} {inner : List Token}
    (uncut : IsUncut inner) (opens : opening.isPunct kind.opening = true)
    (closes : closing.isPunct kind.closing = true) {depth : Nat} {rest piece : List Token}
    {more : List (List Token)} (found : pieces depth rest = piece :: more) :
    pieces depth (opening :: (inner ++ closing :: rest)) = (opening :: (inner ++ closing :: piece)) :: more := by
  obtain ⟨isOpening, opensOnly⟩ := isOpening_of_kind kind opens
  obtain ⟨closesOnly, isClosing⟩ := isClosing_of_kind kind closes
  have noComma {token : Token} (bracket : token.isOpening = true ∨ token.isClosing = true) :
      ¬ (depth = 0 ∧ token = comma) := by
    rintro ⟨-, rfl⟩
    revert bracket
    decide
  have deeper : bracketsAfter depth opening = depth + 1 := by
    rw [bracketsAfter, isOpening]
    rfl
  have back : bracketsAfter (depth + 1) closing = depth := by
    rw [bracketsAfter, closesOnly, isClosing]
    rfl
  apply pieces_cons_inside (noComma (.inl isOpening))
  rw [deeper]
  apply uncut
  apply pieces_cons_inside (by simp)
  rw [back]
  exact found

section

variable {tokens : List Token} (nested : IsNested tokens)

include nested

theorem IsNested.bracketDepth_eq : bracketDepth tokens = 0 := by
  induction nested with
  | nil => rfl
  | plain notOpening notClosing _ ih =>
      rw [bracketDepth_cons, bracketDepth_plain notOpening notClosing, ih]
      rfl
  | @group kind opening closing inner rest opens closes _ _ insideSame moreSame =>
      obtain ⟨closesOnly, isClosing⟩ := isClosing_of_kind kind closes
      have first := bracketDepth_opening (isOpening_of_kind kind opens).1
      have last := bracketDepth_closing closesOnly isClosing
      rw [bracketDepth_cons, bracketDepth_append, bracketDepth_cons closing]
      omega

/-- No bracket is closed that is not open. -/
theorem IsNested.bracketDepth_take (count : Nat) : 0 ≤ bracketDepth (tokens.take count) := by
  induction nested generalizing count with
  | nil => rw [List.take_nil, bracketDepth_nil]
  | plain notOpening notClosing _ ih =>
      cases count with
      | zero => exact Int.le_refl 0
      | succ count =>
          have later := ih count
          rw [List.take_succ_cons, bracketDepth_cons, bracketDepth_plain notOpening notClosing]
          omega
  | @group kind opening closing inner rest opens closes inside _ insideHeld restHeld =>
      obtain ⟨closesOnly, isClosing⟩ := isClosing_of_kind kind closes
      cases count with
      | zero => exact Int.le_refl 0
      | succ count =>
          have first := bracketDepth_opening (isOpening_of_kind kind opens).1
          have within := insideHeld count
          rw [List.take_succ_cons, bracketDepth_cons, List.take_append, bracketDepth_append, first]
          cases behind : count - inner.length with
          | zero =>
              rw [List.take_zero, bracketDepth_nil]
              omega
          | succ further =>
              have whole : inner.take count = inner := List.take_of_length_le (by omega)
              have later := restHeld further
              rw [whole, inside.bracketDepth_eq, List.take_succ_cons, bracketDepth_cons,
                bracketDepth_closing closesOnly isClosing]
              omega

theorem IsNested.isUncut : IsUncut tokens := by
  induction nested with
  | nil => exact fun _ _ _ _ found => found
  | plain notOpening notClosing _ ih =>
      intro depth rest piece more found
      apply pieces_cons_inside (by simp)
      rw [bracketsAfter_plain notOpening notClosing]
      exact ih depth rest piece more found
  | group kind opens closes _ _ insideUncut restUncut =>
      intro depth rest piece more found
      have whole := insideUncut.pieces_group kind opens closes (restUncut depth rest piece more found)
      simpa only [List.cons_append, List.append_assoc] using whole

/-- Each piece has both brackets of a group or none. -/
theorem IsNested.pieces : ∀ piece ∈ pieces 0 tokens, IsNested piece := by
  induction nested with
  | nil =>
      intro piece member
      rw [List.mem_singleton.mp member]
      exact .nil
  | @plain token rest notOpening notClosing _ ih =>
      by_cases here : token = comma
      · rw [here, pieces_comma]
        exact List.forall_mem_cons.mpr ⟨.nil, ih⟩
      · obtain ⟨piece, more, found⟩ := List.exists_cons_of_ne_nil (pieces_ne_nil 0 rest)
        rw [found] at ih
        obtain ⟨first, others⟩ := List.forall_mem_cons.mp ih
        rw [← bracketsAfter_plain notOpening notClosing 0] at found
        rw [pieces_cons_inside (by simp [here]) found]
        exact List.forall_mem_cons.mpr ⟨.plain notOpening notClosing first, others⟩
  | @group kind opening closing inner rest opens closes inside _ _ restNested =>
      obtain ⟨piece, more, found⟩ := List.exists_cons_of_ne_nil (pieces_ne_nil 0 rest)
      rw [found] at restNested
      obtain ⟨first, others⟩ := List.forall_mem_cons.mp restNested
      rw [inside.isUncut.pieces_group kind opens closes found]
      exact List.forall_mem_cons.mpr ⟨.group kind opens closes inside first, others⟩

end

section

variable {tokens others : List Token} (same : List.Forall₂ Token.IsSameCode tokens others)

include same

theorem bracketDepth_sameCode : bracketDepth others = bracketDepth tokens := by
  induction same with
  | nil => rfl
  | @cons token other tokens others first _ ih =>
      have opens : other.isOpening = token.isOpening := by simp only [Token.isOpening, first.isPunct_eq]
      have closes : other.isClosing = token.isClosing := by simp only [Token.isClosing, first.isPunct_eq]
      have one : bracketDepth [other] = bracketDepth [token] := by
        simp only [bracketDepth, List.countP_singleton, opens, closes]
      rw [bracketDepth_cons, ih, one, ← bracketDepth_cons]

theorem separators_sameCode (depth : Int) : separators depth others = separators depth tokens := by
  induction same generalizing depth with
  | nil => rfl
  | @cons token other tokens others first _ ih =>
      have one := bracketDepth_sameCode (List.Forall₂.cons first .nil)
      have sameComma : other = comma ↔ token = comma := by
        constructor
        · rintro rfl
          exact eq_of_isPunct (first.isPunct_eq ",")
        · rintro rfl
          exact eq_of_isPunct (first.isPunct_eq ",").symm
      rw [separators_cons, separators_cons, ih, one]
      simp only [sameComma]

theorem all_isTrivia_sameCode : others.all Token.isTrivia = tokens.all Token.isTrivia := by
  induction same with
  | nil => rfl
  | cons first _ ih => rw [List.all_cons, List.all_cons, ih, Token.isTrivia, Token.isTrivia, first.1]

end

/-- The arguments are the trimmed texts between the commas outside all brackets. -/
theorem arguments_eq_cutAt {inner : List Token} (visible : inner.all Token.isTrivia = false)
    (held : ∀ count, 0 ≤ bracketDepth (inner.take count)) :
    Sketch.arguments inner =
      (cutAt inner 0 (separators 0 inner)).map fun part => Text.trim (render part) := by
  have cut := @pieces_eq_cutAt 0 inner (by simpa using held)
  rw [Sketch.arguments, visible, if_neg Bool.false_ne_true, cut]
  rfl

/-- The arguments of a call: there is one more than there are commas outside all brackets, and they are what
stands between these. Each has the brackets that belong together, and what literals and comments hold cuts
nothing. -/
theorem arguments_between_commas {inner : List Token} (visible : ∃ token ∈ inner, token.isTrivia = false)
    (nested : IsNested inner) :
    (Sketch.arguments inner).length = (separators 0 inner).length + 1 ∧
    Sketch.arguments inner =
      ((cutAt inner 0 (separators 0 inner)).map fun part => Text.trim (render part)) ∧
    [','].intercalate ((cutAt inner 0 (separators 0 inner)).map render) = render inner ∧
    (∀ part ∈ cutAt inner 0 (separators 0 inner), IsNested part) ∧
    ∀ others, List.Forall₂ Token.IsSameCode inner others →
      Sketch.arguments others =
        (cutAt others 0 (separators 0 inner)).map fun part => Text.trim (render part) := by
  have someVisible : inner.all Token.isTrivia = false := by
    rw [List.all_eq_false]
    obtain ⟨token, member, shows⟩ := visible
    exact ⟨token, member, by simp [shows]⟩
  have cut : pieces 0 inner = cutAt inner 0 (separators 0 inner) :=
    @pieces_eq_cutAt 0 inner (by simpa using nested.bracketDepth_take)
  have texts := arguments_eq_cutAt someVisible nested.bracketDepth_take
  refine ⟨?_, texts, ?_, ?_, fun others same => ?_⟩
  · rw [texts, List.length_map, length_cutAt]
  · rw [← cut]
    exact render_pieces 0 inner
  · rw [← cut]
    exact nested.pieces
  · rw [← separators_sameCode same]
    apply arguments_eq_cutAt
    · rw [all_isTrivia_sameCode same, someVisible]
    · intro count
      rw [bracketDepth_sameCode (List.forall₂_take count same)]
      exact nested.bracketDepth_take count

/-- Arguments with commas in brackets and in a string. -/
def nestedArguments : Text :=
  "f(b, [c]), \x22d,e\x22".toList

theorem arguments_between_commas_nestedArguments :
    (∃ token ∈ tokenize nestedArguments, token.isTrivia = false) ∧ IsNested (tokenize nestedArguments) ∧
    separators 0 (tokenize nestedArguments) = [9] ∧
    Sketch.arguments (tokenize nestedArguments) = ["f(b, [c])".toList, "\x22d,e\x22".toList] := by
  have tokens : tokenize nestedArguments = [⟨.ident, "f".toList⟩, ⟨.punct, "(".toList⟩, ⟨.ident, "b".toList⟩,
      ⟨.punct, ",".toList⟩, ⟨.space, " ".toList⟩, ⟨.punct, "[".toList⟩, ⟨.ident, "c".toList⟩,
      ⟨.punct, "]".toList⟩, ⟨.punct, ")".toList⟩, ⟨.punct, ",".toList⟩, ⟨.space, " ".toList⟩,
      ⟨.literal, "\x22d,e\x22".toList⟩] := by
    cbv
  have visible : ∃ token ∈ tokenize nestedArguments, token.isTrivia = false := by
    rw [tokens]
    decide
  have nested : IsNested (tokenize nestedArguments) := by
    rw [tokens]
    have element : IsNested [⟨.punct, "[".toList⟩, ⟨.ident, "c".toList⟩, ⟨.punct, "]".toList⟩] :=
      .group .square rfl rfl (.plain rfl rfl .nil) .nil
    have inside : IsNested [⟨.ident, "b".toList⟩, ⟨.punct, ",".toList⟩, ⟨.space, " ".toList⟩,
        ⟨.punct, "[".toList⟩, ⟨.ident, "c".toList⟩, ⟨.punct, "]".toList⟩] :=
      .plain rfl rfl (.plain rfl rfl (.plain rfl rfl element))
    have behind : IsNested [⟨.punct, ",".toList⟩, ⟨.space, " ".toList⟩, ⟨.literal, "\x22d,e\x22".toList⟩] :=
      .plain rfl rfl (.plain rfl rfl (.plain rfl rfl .nil))
    exact .plain rfl rfl (.group .paren rfl rfl inside behind)
  have places : separators 0 (tokenize nestedArguments) = [9] := by
    rw [tokens]
    decide
  obtain ⟨-, texts, -⟩ := arguments_between_commas visible nested
  rw [places, tokens] at texts
  rw [tokens] at visible nested places ⊢
  exact ⟨visible, nested, places, texts.trans (by decide)⟩

end Breadboard.Script
