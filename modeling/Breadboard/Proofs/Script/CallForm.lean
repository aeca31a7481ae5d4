import Breadboard.Proofs.Script.CallArgument
import Breadboard.Proofs.Script.FreeCall

set_option autoImplicit false

namespace Breadboard.Script

open Sketch hiding stripComments

/-- The forms of calls that the conversion of a line knows, in the order of its rules. -/
inductive CallForm where
  | analogRead
  | digitalWrite
  | digitalRead
  | printLine
  | print
  | delay
  deriving DecidableEq, Repr

namespace CallForm

def head : CallForm → String
  | analogRead => "analogRead"
  | digitalWrite => "digitalWrite"
  | digitalRead => "digitalRead"
  | printLine => "Serial"
  | print => "Serial"
  | delay => "delay"

def tail : CallForm → List String
  | printLine => [".", "println"]
  | print => [".", "print"]
  | _ => []

/-- A call of the form is known if this stands between its parentheses; `isPin` holds for the references to
pins. -/
def Takes (isPin : Text → Prop) (inner : List Token) : CallForm → Prop
  | analogRead | digitalRead => IsOneArgument inner ∧ isPin (Text.trim (render inner))
  | digitalWrite => ∃ first second, AreTwoArguments inner first second ∧ isPin (Text.trim (render first))
  | printLine | print => True
  | delay => Text.trim (render inner) ≠ []

end CallForm

/-- The tokens start with a known call. -/
def StartsCall (isPin : Text → Prop) (form : CallForm) (tokens : List Token) : Prop :=
  ∃ path gap inner after, SpellsPath form.tail path ∧ (∀ token ∈ gap, token.isTrivia = true) ∧
    IsClosed "(" ")" inner ∧ form.Takes isPin inner ∧
    tokens = ⟨.ident, form.head.toList⟩ :: (path ++ (gap ++ openParen :: (inner ++ closeParen :: after)))

/-- Whether a name that comes next is one behind a dot, or behind anything else that counts as one. -/
def dotAfter (isDot : Token → Bool) (afterDot : Bool) (token : Token) : Bool :=
  if token.isTrivia then afterDot else isDot token

/-- No call starts in the tokens if `after` stands behind them. -/
def NoCallIn (isPin : Text → Prop) (isDot : Token → Bool) (form : CallForm) (afterDot : Bool)
    (tokens after : List Token) : Prop :=
  ∀ front token back, tokens = front ++ token :: back → front.foldl (dotAfter isDot) afterDot = false →
    ¬ StartsCall isPin form (token :: (back ++ after))

section

variable {isPin : Text → Prop} {isDot : Token → Bool} {form : CallForm} {afterDot : Bool}
  {token : Token} {tokens rest after : List Token}

theorem StartsCall.append (starts : StartsCall isPin form tokens) (more : List Token) :
    StartsCall isPin form (tokens ++ more) := by
  obtain ⟨path, gap, inner, after, spells, trivia, closed, takes, rfl⟩ := starts
  exact ⟨path, gap, inner, after ++ more, spells, trivia, closed, takes, by simp⟩

theorem StartsCall.isIdent_head (starts : StartsCall isPin form (token :: rest)) :
    token = ⟨.ident, form.head.toList⟩ := by
  obtain ⟨path, gap, inner, after, -, -, -, -, split⟩ := starts
  exact (List.cons.inj split).1

theorem noCallIn_nil : NoCallIn isPin isDot form afterDot [] after := by
  intro front token back split
  simp at split

theorem noCallIn_cons :
    NoCallIn isPin isDot form afterDot (token :: tokens) after ↔
      (afterDot = false → ¬ StartsCall isPin form (token :: (tokens ++ after))) ∧
        NoCallIn isPin isDot form (dotAfter isDot afterDot token) tokens after := by
  constructor
  · intro none
    refine ⟨fun free => none [] token tokens rfl free, fun front other back split free => ?_⟩
    exact none (token :: front) other back (by rw [split]; rfl) free
  · rintro ⟨here, later⟩ front other back split free
    cases front with
    | nil =>
        obtain ⟨rfl, rfl⟩ := List.cons.inj split
        exact here free
    | cons first others =>
        obtain ⟨rfl, rfl⟩ := List.cons.inj split
        exact later others other back rfl free

theorem noCallIn_append {first second : List Token} :
    NoCallIn isPin isDot form afterDot (first ++ second) after ↔
      NoCallIn isPin isDot form afterDot first (second ++ after) ∧
        NoCallIn isPin isDot form (first.foldl (dotAfter isDot) afterDot) second after := by
  induction first generalizing afterDot with
  | nil => simp [noCallIn_nil]
  | cons token first ih =>
      rw [List.cons_append, noCallIn_cons, noCallIn_cons, ih, List.append_assoc, and_assoc]
      rfl

theorem foldl_dotAfter_of_false (free : tokens.foldl (dotAfter isDot) true = false) :
    tokens.foldl (dotAfter isDot) false = false := by
  induction tokens with
  | nil => rfl
  | cons token tokens ih =>
      rw [List.foldl_cons, dotAfter] at free ⊢
      split at free
      · rename_i trivia
        rw [if_pos trivia]
        exact ih free
      · rename_i visible
        rw [if_neg visible]
        exact free

/-- What holds behind anything but a dot holds behind a dot as well. -/
theorem NoCallIn.anywhere (none : NoCallIn isPin isDot form false tokens after) (afterDot : Bool) :
    NoCallIn isPin isDot form afterDot tokens after := by
  intro front token back split free
  cases afterDot with
  | false => exact none front token back split free
  | true => exact none front token back split (foldl_dotAfter_of_false free)

/-- A token of another kind or spelling starts no call. -/
theorem noCallIn_of_others
    (others : ∀ token ∈ tokens, token ≠ ⟨.ident, form.head.toList⟩) :
    NoCallIn isPin isDot form afterDot tokens after := by
  intro front token back split free starts
  exact others token (by rw [split]; simp) starts.isIdent_head

theorem SpellsPath.of_mem {parts : List String} {path : List Token} (spells : SpellsPath parts path)
    (member : token ∈ path) : token.isTrivia = true ∨ ∃ part ∈ parts, token.text = part.toList := by
  induction spells with
  | nil => cases member
  | cons trivia visible spelled more ih =>
      rcases List.mem_append.mp member with inGap | inRest
      · exact Or.inl (trivia token inGap)
      · rcases List.mem_cons.mp inRest with rfl | later
        · exact Or.inr ⟨_, List.mem_cons_self, spelled⟩
        · rcases ih later with isTrivia | ⟨part, isPart, same⟩
          · exact Or.inl isTrivia
          · exact Or.inr ⟨part, List.mem_cons_of_mem _ isPart, same⟩

end

section

variable {front tokens rest after inner : List Token}

theorem isClosed_iff_isBalanced : IsClosed "(" ")" tokens ↔ IsBalanced tokens := by
  constructor
  · intro closed
    induction closed with
    | nil => rfl
    | cons notOpening notClosing _ ih =>
        rw [IsBalanced, parenDepth?_cons, notOpening, notClosing]
        exact ih
    | @group inner rest _ _ insideEnds restEnds =>
        have inside := parenDepth?_add insideEnds 1
        rw [IsBalanced, parenDepth?_cons, isPunct_self, if_pos rfl, parenDepth?_append, inside]
        exact restEnds
  · intro balanced
    induction size : tokens.length using Nat.strongRecOn generalizing tokens with
    | ind count ih =>
        cases tokens with
        | nil => exact .nil
        | cons token rest =>
            rw [List.length_cons] at size
            rw [IsBalanced, parenDepth?_cons] at balanced
            by_cases isOpening : token.isPunct "(" = true
            · rw [if_pos isOpening] at balanced
              obtain ⟨inner, closing, after, rfl, isClosing, innerEnds, afterEnds, -⟩ :=
                splitGroup_of_parenDepth? 0 0 balanced (Nat.le_refl 0)
              rw [List.length_append, List.length_cons] at size
              rw [eq_of_isPunct isOpening, eq_of_isPunct isClosing]
              exact .group (ih inner.length (by omega) innerEnds rfl) (ih after.length (by omega) afterEnds rfl)
            · rw [if_neg isOpening] at balanced
              by_cases isClosing : token.isPunct ")" = true
              · rw [if_pos isClosing] at balanced
                cases balanced
              · rw [if_neg isClosing] at balanced
                exact .cons (Bool.not_eq_true _ ▸ isOpening) (Bool.not_eq_true _ ▸ isClosing)
                  (ih rest.length (by omega) balanced rfl)

/-- A group that opens among closed tokens closes among them. -/
theorem IsClosed.exists_group_end (closed : IsClosed "(" ")" tokens) {front : List Token}
    (split : tokens = front ++ openParen :: rest) :
    ∃ inner after, IsClosed "(" ")" inner ∧ rest = inner ++ closeParen :: after := by
  have balanced := isClosed_iff_isBalanced.mp closed
  rw [split, IsBalanced, parenDepth?_append] at balanced
  obtain ⟨depth, -, onward⟩ := Option.bind_eq_some_iff.mp balanced
  rw [parenDepth?_cons, openParen, isPunct_self, if_pos rfl] at onward
  obtain ⟨inner, closing, after, rfl, isClosing, innerEnds, -⟩ :=
    splitGroup_of_parenDepth? 0 depth (by rwa [Nat.add_zero]) (Nat.zero_le depth)
  rw [eq_of_isPunct isClosing]
  exact ⟨inner, after, isClosed_iff_isBalanced.mpr innerEnds, rfl⟩

/-- A group closes at one place only. -/
theorem group_end_unique {first second firstAfter secondAfter : List Token}
    (firstClosed : IsClosed "(" ")" first) (secondClosed : IsClosed "(" ")" second)
    (same : first ++ closeParen :: firstAfter = second ++ closeParen :: secondAfter) :
    first = second ∧ firstAfter = secondAfter := by
  have differ : "(" ≠ ")" := by decide
  have found : splitGroup "(" ")" 0 (first ++ closeParen :: firstAfter) = some (first, firstAfter) :=
    (splitGroup_eq_some differ).mpr ⟨firstClosed, rfl⟩
  have other := (splitGroup_eq_some differ).mpr ⟨secondClosed, same⟩
  exact Prod.mk.inj (Option.some.inj (found.symm.trans other))

/-- A search for the end of a group either ends among the first tokens or goes on behind them, at a depth
that depends on them alone. -/
theorem splitGroup_append_cases (depth : Nat) (front : List Token) :
    (∃ inner after, ∀ rest, splitGroup "(" ")" depth (front ++ rest) = some (inner, after ++ rest)) ∨
      ∃ inside, ∀ rest, splitGroup "(" ")" depth (front ++ rest) =
        (splitGroup "(" ")" inside rest).map fun (more, after) => (front ++ more, after) := by
  induction front generalizing depth with
  | nil => exact Or.inr ⟨depth, fun rest => Option.map_id.symm ▸ rfl⟩
  | cons token front ih =>
      have step {next : Nat} (onward : ∀ rest, splitGroup "(" ")" depth (token :: (front ++ rest)) =
          (splitGroup "(" ")" next (front ++ rest)).map fun (more, after) => (token :: more, after)) :
          (∃ inner after, ∀ rest,
            splitGroup "(" ")" depth (token :: front ++ rest) = some (inner, after ++ rest)) ∨
          ∃ inside, ∀ rest, splitGroup "(" ")" depth (token :: front ++ rest) =
            (splitGroup "(" ")" inside rest).map fun (more, after) => (token :: front ++ more, after) := by
        rcases ih next with ⟨inner, after, ends⟩ | ⟨inside, goes⟩
        · refine Or.inl ⟨token :: inner, after, fun rest => ?_⟩
          rw [List.cons_append, onward, ends]
          rfl
        · refine Or.inr ⟨inside, fun rest => ?_⟩
          rw [List.cons_append, onward, goes, Option.map_map]
          rfl
      by_cases isOpening : token.isPunct "(" = true
      · exact @step (depth + 1) fun rest => by rw [splitGroup_cons, if_pos isOpening]
      · by_cases isClosing : token.isPunct ")" = true
        · cases depth with
          | zero =>
              refine Or.inl ⟨[], front, fun rest => ?_⟩
              rw [List.cons_append, splitGroup_cons, if_neg isOpening, if_pos isClosing]
          | succ depth =>
              exact @step depth fun rest => by
                rw [splitGroup_cons, if_neg isOpening, if_pos isClosing]
        · exact @step depth fun rest => by rw [splitGroup_cons, if_neg isOpening, if_neg isClosing]

/-- The first token counts and goes on with no call: it is neither a parenthesis that opens nor a part of a
path. -/
def StopsCall (tokens : List Token) : Prop :=
  ∃ first rest, tokens = first :: rest ∧ first.isTrivia = false ∧
    first.text ∉ ["(", ".", "print", "println"].map String.toList

/-- Tokens up to the parenthesis of a call stand before any token that stops the call. -/
theorem StopsCall.exists_before {isCall : List Token} (stops : StopsCall after)
    (parts : ∀ token ∈ isCall, token.isTrivia = true ∨
      token.text ∈ ["(", ".", "print", "println"].map String.toList)
    (split : tokens ++ after = isCall ++ rest) : ∃ between, tokens = isCall ++ between := by
  obtain ⟨first, behind, rfl, visible, noPart⟩ := stops
  rcases List.append_eq_append_iff.mp split with ⟨later, rfl, onward⟩ | ⟨later, rfl, -⟩
  · rcases List.cons_eq_append_iff.mp onward with ⟨rfl, -⟩ | ⟨between, rfl, -⟩
    · exact ⟨[], by simp⟩
    · rcases parts first (by simp) with trivia | isPart
      · rw [visible] at trivia
        cases trivia
      · exact absurd isPart noPart
  · exact ⟨later, rfl⟩

end

section

variable {isPin : Text → Prop} {form : CallForm} {token : Token}

theorem CallForm.mem_of_tail {part : String} (isPart : part ∈ form.tail) :
    part.toList ∈ ["(", ".", "print", "println"].map String.toList := by
  have names : part = "." ∨ part = "print" ∨ part = "println" := by
    cases form with
    | printLine => exact (List.mem_pair.mp isPart).imp_right Or.inr
    | print => exact (List.mem_pair.mp isPart).imp_right Or.inl
    | _ => cases isPart
  rcases names with rfl | rfl | rfl <;> decide

theorem CallForm.parts_of_opening {path gap : List Token} (spells : SpellsPath form.tail path)
    (trivia : ∀ token ∈ gap, token.isTrivia = true) :
    ∀ token ∈ path ++ (gap ++ [openParen]), token.isTrivia = true ∨
      token.text ∈ ["(", ".", "print", "println"].map String.toList := by
  intro token member
  rcases List.mem_append.mp member with inPath | inRest
  · rcases spells.of_mem inPath with isTrivia | ⟨part, isPart, same⟩
    · exact Or.inl isTrivia
    · exact Or.inr (same ▸ mem_of_tail isPart)
  · rcases List.mem_append.mp inRest with inGap | isOpening
    · exact Or.inl (trivia token inGap)
    · rw [List.mem_singleton.mp isOpening]
      exact Or.inr (by decide)

/-- A call that starts among closed tokens ends among them, unless what stands behind them goes on with it. -/
theorem StartsCall.of_closed {front back after : List Token} (closed : IsClosed "(" ")" (front ++ token :: back))
    (stops : StopsCall after) (starts : StartsCall isPin form (token :: (back ++ after))) :
    StartsCall isPin form (token :: back) := by
  obtain ⟨path, gap, inner, behind, spells, trivia, innerClosed, takes, split⟩ := starts
  obtain ⟨rfl, onward⟩ := List.cons.inj split
  have upTo : back ++ after = path ++ (gap ++ [openParen]) ++ (inner ++ closeParen :: behind) := by
    simpa using onward
  obtain ⟨between, rfl⟩ := stops.exists_before (CallForm.parts_of_opening spells trivia) upTo
  have opens : front ++ ⟨.ident, form.head.toList⟩ :: (path ++ (gap ++ [openParen]) ++ between) =
      front ++ ⟨.ident, form.head.toList⟩ :: (path ++ gap) ++ openParen :: between := by
    simp
  obtain ⟨found, left, foundClosed, rfl⟩ := closed.exists_group_end opens
  have same : inner ++ closeParen :: behind = found ++ closeParen :: (left ++ after) := by
    simpa using upTo.symm
  obtain ⟨rfl, rfl⟩ := group_end_unique innerClosed foundClosed same
  exact ⟨path, gap, inner, left, spells, trivia, innerClosed, takes, by simp⟩

/-- What stands behind closed tokens does not matter, if only it goes on with no call. -/
theorem NoCallIn.of_closed {isDot : Token → Bool} {afterDot : Bool} {tokens after other : List Token}
    (none : NoCallIn isPin isDot form afterDot tokens other) (closed : IsClosed "(" ")" tokens)
    (stops : StopsCall after) : NoCallIn isPin isDot form afterDot tokens after := by
  intro front token back split free starts
  rw [split] at closed
  refine none front token back split free ?_
  rw [← List.cons_append]
  exact (starts.of_closed closed stops).append other

end

end Breadboard.Script
