import Breadboard.Proofs.Script.Definition

set_option autoImplicit false

namespace Breadboard.Script

open Sketch hiding stripComments

/-- As many brackets are closed as opened, and up to no place are more closed than opened. -/
structure Balances (opening closing : String) (tokens : List Token) : Prop where
  settled : tokens.countP (·.isPunct closing) = tokens.countP (·.isPunct opening)
  held : ∀ front, front <+: tokens →
    front.countP (·.isPunct closing) ≤ front.countP (·.isPunct opening)

section

variable {opening closing : String}

/-- Brackets that close what is open before them, and no more at any place, end at the next closing one. -/
theorem splitGroup_of_counts (differ : opening ≠ closing) {depth : Nat} {tokens : List Token}
    (settled : tokens.countP (·.isPunct closing) = depth + tokens.countP (·.isPunct opening))
    (held : ∀ front, front <+: tokens →
      front.countP (·.isPunct closing) ≤ depth + front.countP (·.isPunct opening))
    (after : List Token) :
    splitGroup opening closing depth (tokens ++ ⟨.punct, closing.toList⟩ :: after) =
      some (tokens, after) := by
  induction tokens generalizing depth with
  | nil =>
      obtain rfl : depth = 0 := by simpa using settled.symm
      exact splitGroup_closing_zero differ after
  | cons token rest ih =>
      have heldBehind (front : List Token) (isFront : front <+: rest) :=
        held (token :: front) (List.cons_prefix_cons.mpr ⟨rfl, isFront⟩)
      simp only [List.countP_cons] at settled heldBehind
      rw [List.cons_append]
      by_cases isOpening : token.isPunct opening = true
      · obtain rfl := eq_of_isPunct isOpening
        simp only [isPunct_self, isPunct_of_ne differ.symm, if_true, Bool.false_eq_true, if_false]
          at settled heldBehind
        rw [splitGroup_cons, isPunct_self, if_pos rfl,
          ih (by omega) fun front isFront => by have := heldBehind front isFront; omega, Option.map_some]
      · by_cases isClosing : token.isPunct closing = true
        · obtain rfl := eq_of_isPunct isClosing
          simp only [isPunct_self, isPunct_of_ne differ, if_true, Bool.false_eq_true, if_false]
            at settled heldBehind
          have first := heldBehind [] List.nil_prefix
          obtain ⟨outer, rfl⟩ : ∃ outer, depth = outer + 1 := ⟨depth - 1, by simp at first; omega⟩
          rw [splitGroup_closing_succ differ,
            ih (by omega) fun front isFront => by have := heldBehind front isFront; omega, Option.map_some]
        · simp only [isOpening, isClosing, Bool.false_eq_true, if_false] at settled heldBehind
          rw [splitGroup_cons, if_neg isOpening, if_neg isClosing, ih settled heldBehind, Option.map_some]

theorem Balances.isClosed {tokens : List Token} (balances : Balances opening closing tokens)
    (differ : opening ≠ closing) : IsClosed opening closing tokens := by
  have cutAt := @splitGroup_of_counts opening closing differ 0 tokens
    (by rw [balances.settled, Nat.zero_add]) (by simpa using balances.held) []
  exact ((splitGroup_eq_some differ).mp cutAt).1

end

/-- How the definition of a function starts. -/
def definitionHead (name : String) : Text :=
  "void ".toList ++ name.toList ++ "() \x7b".toList

theorem tokenize_definitionHead {name : String} (isEntry : name = "setup" ∨ name = "loop") :
    tokenize (definitionHead name) =
      [⟨.ident, "void".toList⟩, ⟨.space, " ".toList⟩, ⟨.ident, name.toList⟩, openParen, closeParen,
        ⟨.space, " ".toList⟩, openBrace] := by
  rcases isEntry with rfl | rfl
  · cbv
  · cbv

/-- The body is found whatever stands in literals or behind the definition, as long as each piece of the text
has tokens of its own. -/
theorem functionBody?_definition {name : String} (isEntry : name = "setup" ∨ name = "loop")
    {front body behind : Text}
    (cut : tokenize (front ++ definitionHead name ++ body ++ "\x7d".toList ++ behind) =
      tokenize front ++ tokenize (definitionHead name) ++ tokenize body ++ tokenize "\x7d".toList ++
        tokenize behind)
    (balances : Balances "\x7b" "\x7d" (tokenize body))
    (declares : DeclaresOnly name (tokenize front)) :
    functionBody? name (tokenize (front ++ definitionHead name ++ body ++ "\x7d".toList ++ behind)) =
      some body := by
  have notVoid : name ≠ "void" := by
    rcases isEntry with rfl | rfl
    · decide
    · decide
  have closing : tokenize "\x7d".toList = [closeBrace] := by cbv
  have starts : StartsDefinition name (tokenize body)
      (tokenize (definitionHead name) ++ tokenize body ++ [closeBrace] ++ tokenize behind) := by
    rw [tokenize_definitionHead isEntry]
    refine ⟨[⟨.space, " ".toList⟩], _, by simp [Token.isTrivia], ?_, rfl⟩
    exact ⟨[], [], [⟨.space, " ".toList⟩], tokenize behind, by simp [Token.isTrivia], .nil,
      balances.isClosed (by decide), by simp⟩
  have first := isFirstDefinition_of_declaresOnly notVoid declares starts
  have found := functionBody?_of_isFirstDefinition notVoid first
  rw [render_tokenize] at found
  rw [cut, closing]
  simpa only [List.append_assoc] using found

def declaredLoop : Text :=
  "void loop();\n".toList

/-- A block, and a brace that is a character. -/
def bracedBody : Text :=
  " \x7b c = '\x7b'; \x7d ".toList

/-- The start of another definition in a string, and another definition. -/
def secondLoop : Text :=
  "\ns = \"void loop() \x7b\"; void loop() \x7b\x7d".toList

theorem functionBody?_bracedBody :
    tokenize (declaredLoop ++ definitionHead "loop" ++ bracedBody ++ "\x7d".toList ++ secondLoop) =
        tokenize declaredLoop ++ tokenize (definitionHead "loop") ++ tokenize bracedBody ++
          tokenize "\x7d".toList ++ tokenize secondLoop ∧
      Balances "\x7b" "\x7d" (tokenize bracedBody) ∧ DeclaresOnly "loop" (tokenize declaredLoop) ∧
      functionBody? "loop" (tokenize (declaredLoop ++ definitionHead "loop" ++ bracedBody ++
        "\x7d".toList ++ secondLoop)) = some bracedBody := by
  have body : tokenize bracedBody = [⟨.space, " ".toList⟩, openBrace, ⟨.space, " ".toList⟩,
      ⟨.ident, "c".toList⟩, ⟨.space, " ".toList⟩, ⟨.punct, "=".toList⟩, ⟨.space, " ".toList⟩,
      ⟨.literal, "'\x7b'".toList⟩, ⟨.punct, ";".toList⟩, ⟨.space, " ".toList⟩, closeBrace,
      ⟨.space, " ".toList⟩] := by
    cbv
  have front : tokenize declaredLoop = [⟨.ident, "void".toList⟩, ⟨.space, " ".toList⟩] ++
      ⟨.ident, "loop".toList⟩ :: [openParen, closeParen, ⟨.punct, ";".toList⟩, ⟨.space, "\n".toList⟩] := by
    cbv
  have cut : tokenize (declaredLoop ++ definitionHead "loop" ++ bracedBody ++ "\x7d".toList ++ secondLoop) =
      tokenize declaredLoop ++ tokenize (definitionHead "loop") ++ tokenize bracedBody ++
        tokenize "\x7d".toList ++ tokenize secondLoop := by
    cbv
  have balances : Balances "\x7b" "\x7d" (tokenize bracedBody) := by
    rw [body]
    refine ⟨by decide, fun part isFront => ?_⟩
    rw [← List.mem_inits] at isFront
    revert part
    decide
  have declares : DeclaresOnly "loop" (tokenize declaredLoop) := by
    intro before after split _
    rw [front] at split
    obtain ⟨-, -, rfl⟩ := (List.append_cons_inj_of_notMem (by decide) (by decide)).mp split
    exact ⟨[], [], [], [⟨.space, "\n".toList⟩], by simp, .nil, rfl⟩
  exact ⟨cut, balances, declares, functionBody?_definition (.inr rfl) cut balances declares⟩

end Breadboard.Script
