import Breadboard.Proofs.Sketch.Fragment
import Breadboard.Script.PinName

set_option autoImplicit false

/- Conditions as the sketch's language and the script's language read them. Both have the same lexical shape
and the same parentheses, but the operators bind differently: `!` is the tightest operator of the sketch
and stands above all comparisons in the script, and only the sketch compares the outcome of a comparison. -/
namespace Breadboard.Script

open Sketch

inductive Comparison where
  | equal
  | unequal
  | less
  | lessEqual
  | greater
  | greaterEqual
  deriving DecidableEq, Repr

def Comparison.text : Comparison → Text
  | .equal => "==".toList
  | .unequal => "!=".toList
  | .less => "<".toList
  | .lessEqual => "<=".toList
  | .greater => ">".toList
  | .greaterEqual => ">=".toList

/-- The operators between two operands. A `link` goes on with the comparison on its left: in the script
`a < b < c` compares `a` with `b` and `b` with `c`. -/
inductive Operator where
  | conjunction
  | disjunction
  | comparison (sign : Comparison)
  | link (sign : Comparison)
  deriving DecidableEq, Repr

inductive Symbol where
  | word (text : Text)
  | opening
  | closing
  | negation
  | conjunction
  | disjunction
  | sign (comparison : Comparison)
  deriving DecidableEq, Repr

def Symbol.sketchText : Symbol → Text
  | .word text => text
  | .opening => "(".toList
  | .closing => ")".toList
  | .negation => "!".toList
  | .conjunction => "&&".toList
  | .disjunction => "||".toList
  | .sign comparison => comparison.text

def Symbol.scriptText : Symbol → Text
  | .word text => text
  | .opening => "(".toList
  | .closing => ")".toList
  | .negation => "not".toList
  | .conjunction => "and".toList
  | .disjunction => "or".toList
  | .sign comparison => comparison.text

def Operator.symbol : Operator → Symbol
  | .conjunction => .conjunction
  | .disjunction => .disjunction
  | .comparison sign => .sign sign
  | .link sign => .sign sign

/-- The syntax tree of a condition. A `group` is a pair of parentheses. -/
inductive Condition where
  | word (text : Text)
  | group (inner : Condition)
  | negation (operand : Condition)
  | binary (operator : Operator) (left right : Condition)
  deriving DecidableEq, Repr

/-- Whether a character is a digit of a number written to the radix. -/
def isDigitOf (radix : Nat) (c : Char) : Bool :=
  (Text.hexDigit? c).any (· < radix)

/-- The suffixes that give an integer of a sketch its type. -/
def integerSuffixes : List Text :=
  ["", "u", "U", "l", "L", "ll", "LL", "ul", "uL", "ull", "uLL", "Ul", "UL", "Ull", "ULL", "lu", "lU",
    "Lu", "LU", "llu", "llU", "LLu", "LLU"].map String.toList

/-- The marks behind a leading zero, each with its radix. -/
def sketchRadices : List (Char × Nat) :=
  [('x', 16), ('X', 16), ('b', 2), ('B', 2)]

/-- The names and integers of a sketch. -/
inductive IsSketchWord : Text → Prop where
  | name {text : Text} (identifier : isIdentifier text = true) : IsSketchWord text
  | decimal {c : Char} {digits suffix : Text} (start : c.isDigit = true) (notZero : c ≠ '0')
      (run : digits.all Char.isDigit = true) (typed : suffix ∈ integerSuffixes) :
      IsSketchWord (c :: (digits ++ suffix))
  | octal {digits suffix : Text} (run : digits.all (isDigitOf 8) = true)
      (typed : suffix ∈ integerSuffixes) : IsSketchWord ('0' :: (digits ++ suffix))
  | marked {mark : Char} {radix : Nat} {digits suffix : Text} (known : (mark, radix) ∈ sketchRadices)
      (nonempty : digits ≠ []) (run : digits.all (isDigitOf radix) = true)
      (typed : suffix ∈ integerSuffixes) : IsSketchWord ('0' :: mark :: (digits ++ suffix))

/-- The words of the script's language that are no operands. -/
def reservedWords : List Text :=
  ["and", "as", "assert", "async", "await", "break", "class", "continue", "def", "del", "elif", "else",
    "except", "finally", "for", "from", "global", "if", "import", "in", "is", "lambda", "nonlocal",
    "not", "or", "pass", "raise", "return", "try", "while", "with", "yield"].map String.toList

def scriptRadices : List (Char × Nat) :=
  sketchRadices ++ [('o', 8), ('O', 8)]

/-- Whether the script reads the text as an integer. Digits that are grouped by underscores are left out,
since no integer of a sketch has them. -/
def isScriptInteger : Text → Bool
  | '0' :: mark :: digits =>
    match scriptRadices.lookup mark with
    | some radix => !digits.isEmpty && digits.all (isDigitOf radix)
    | none => mark == '0' && digits.all (· == '0')
  | text => !text.isEmpty && text.all Char.isDigit

/-- Whether the script reads the text as an operand of its own: a name, one of the constants `True`,
`False` and `None`, or an integer. -/
def isScriptAtom (text : Text) : Bool :=
  isIdentifier text && !reservedWords.contains text || isScriptInteger text

def Operator.sketchLevel : Operator → Nat
  | .disjunction => 0
  | .conjunction => 1
  | .comparison .equal | .comparison .unequal => 2
  | .comparison _ => 3
  | .link _ => 3

def Operator.scriptLevel : Operator → Nat
  | .disjunction => 0
  | .conjunction => 1
  | .comparison _ | .link _ => 3

namespace Condition

/-- The words, operators and parentheses of a tree from left to right. -/
def symbols : Condition → List Symbol
  | word text => [.word text]
  | group inner => .opening :: (inner.symbols ++ [.closing])
  | negation operand => .negation :: operand.symbols
  | binary operator left right => left.symbols ++ operator.symbol :: right.symbols

/-- How tight the sketch's language takes the outermost operator. -/
def sketchLevel : Condition → Nat
  | word _ | group _ => 5
  | negation _ => 4
  | binary operator _ _ => operator.sketchLevel

/-- The sketch's language reads the symbols of the tree as this tree. -/
def IsSketch : Condition → Prop
  | word text => IsSketchWord text
  | group inner => inner.IsSketch
  | negation operand => 4 ≤ operand.sketchLevel ∧ operand.IsSketch
  | binary operator left right =>
    (∀ sign, operator ≠ .link sign) ∧ operator.sketchLevel ≤ left.sketchLevel ∧
      operator.sketchLevel < right.sketchLevel ∧ left.IsSketch ∧ right.IsSketch

/-- How tight the script's language takes the outermost operator. -/
def scriptLevel : Condition → Nat
  | word _ | group _ => 4
  | negation _ => 2
  | binary operator _ _ => operator.scriptLevel

end Condition

/-- Whether a tree of this level can stand left of the operator in the script. -/
def Operator.takesLeft : Operator → Nat → Prop
  | .disjunction, _ => True
  | .conjunction, level => 1 ≤ level
  | .comparison _, level => 3 < level
  | .link _, level => level = 3

namespace Condition

/-- The script's language reads the symbols of the tree as this tree. -/
def IsScript : Condition → Prop
  | word text => isScriptAtom text = true
  | group inner => inner.IsScript
  | negation operand => 2 ≤ operand.scriptLevel ∧ operand.IsScript
  | binary operator left right =>
    operator.takesLeft left.scriptLevel ∧ operator.scriptLevel < right.scriptLevel ∧ left.IsScript ∧
      right.IsScript

/-- The operators and operands alone. -/
def ungrouped : Condition → Condition
  | word text => word text
  | group inner => inner.ungrouped
  | negation operand => negation operand.ungrouped
  | binary operator left right => binary operator left.ungrouped right.ungrouped

def words : Condition → List Text
  | word text => [text]
  | group inner => inner.words
  | negation operand => operand.words
  | binary _ left right => left.words ++ right.words

def mapWords (f : Text → Text) : Condition → Condition
  | word text => word (f text)
  | group inner => group (inner.mapWords f)
  | negation operand => negation (operand.mapWords f)
  | binary operator left right => binary operator (left.mapWords f) (right.mapWords f)

def isOperand : Condition → Bool
  | word _ | group _ => true
  | _ => false

/-- Each comparison is of words and groups only. -/
def comparesOperands : Condition → Bool
  | word _ => true
  | group inner => inner.comparesOperands
  | negation operand => operand.comparesOperands
  | binary (.comparison _) left right =>
    left.isOperand && right.isOperand && left.comparesOperands && right.comparesOperands
  | binary _ left right => left.comparesOperands && right.comparesOperands

end Condition

/-- The spelling of levels and truth values in the script. -/
def scriptWord (text : Text) : Text :=
  if text = "HIGH".toList then "1".toList
  else if text = "LOW".toList then "0".toList
  else if text = "true".toList then "True".toList
  else if text = "false".toList then "False".toList
  else text

/-- The blanks within a line. -/
def isGapChar (c : Char) : Bool :=
  c == ' ' || c == '\t' || c == '\x0C'

/-- Whether two characters next to each other belong to one word or mark, or to one run of blanks. -/
def isGlued (first second : Char) : Bool :=
  (isWordChar first && isWordChar second) || (isGapChar first && isGapChar second) ||
    ((first == '=' || first == '!' || first == '<' || first == '>') && second == '=') ||
    ((first == '&' || first == '|' || first == '<' || first == '>') && second == first)

/-- The words and marks of a line. Both languages cut a condition in the same way. -/
def lexemes (line : Text) : List Text :=
  (line.splitBy isGlued).filter fun part => !part.all isGapChar

/-- The sketch's language reads the text as the tree. -/
def SketchParses (source : Text) (tree : Condition) : Prop :=
  tree.IsSketch ∧ lexemes source = tree.symbols.map Symbol.sketchText

/-- The script's language reads the text as the tree. -/
def ScriptParses (text : Text) (tree : Condition) : Prop :=
  tree.IsScript ∧ lexemes text = tree.symbols.map Symbol.scriptText

/-- The token that the lexer of sketches makes of the symbol. -/
def Symbol.token : Symbol → Token
  | .word text => ⟨if text.head?.any isWordStart then .ident else .number, text⟩
  | symbol => ⟨.punct, symbol.sketchText⟩

theorem Symbol.isPunct_word (text : Text) (mark : String) :
    (Symbol.word text).token.isPunct mark = false := by
  rw [token, Token.isPunct]
  split <;> rfl

theorem Operator.isPunct_symbol (operator : Operator) :
    operator.symbol.token.isPunct "(" = false ∧ operator.symbol.token.isPunct ")" = false := by
  cases operator with
  | comparison sign => cases sign <;> decide
  | link sign => cases sign <;> decide
  | _ => decide

namespace Condition

/-- The parentheses of a tree close. -/
theorem isBalanced_symbols (tree : Condition) : IsBalanced (tree.symbols.map Symbol.token) := by
  unfold IsBalanced
  induction tree with
  | word text =>
      rw [symbols, List.map_singleton, parenDepth?_cons, Symbol.isPunct_word, Symbol.isPunct_word]
      rfl
  | group inner ih =>
      have inside : parenDepth? 1 (inner.symbols.map Symbol.token) = some 1 := parenDepth?_add ih 1
      have opened (rest : List Token) :
          parenDepth? 0 (Symbol.opening.token :: rest) = parenDepth? 1 rest := by
        rw [parenDepth?_cons]
        rfl
      rw [symbols, List.map_cons, List.map_append, opened, parenDepth?_append, inside,
        Option.bind_some]
      rfl
  | negation operand ih =>
      rw [symbols, List.map_cons, parenDepth?_cons]
      exact ih
  | binary operator left right leftIh rightIh =>
      rw [symbols, List.map_append, List.map_cons, parenDepth?_append, leftIh, Option.bind_some,
        parenDepth?_cons, operator.isPunct_symbol.1, operator.isPunct_symbol.2]
      exact rightIh

theorem symbols_ne_nil (tree : Condition) : tree.symbols ≠ [] := by
  cases tree <;> simp [symbols]

theorem symbol_ne_closing (operator : Operator) : operator.symbol ≠ .closing := by
  cases operator <;> simp [Operator.symbol]

/-- The parentheses around a group are not those at the two ends of an operator's operands. -/
theorem binary_ne_group {left : Condition} {operator : Operator} {right : List Symbol}
    (inner : Condition) :
    left.symbols ++ operator.symbol :: right ≠ .opening :: (inner.symbols ++ [.closing]) := by
  intro same
  obtain ⟨first, rest, split⟩ := List.exists_cons_of_ne_nil left.symbols_ne_nil
  have balanced := left.isBalanced_symbols
  rw [split, List.cons_append, List.cons.injEq] at same
  obtain ⟨rfl, same⟩ := same
  have closed : parenDepth? 1 (rest.map Symbol.token) = some 0 := by
    rw [split, IsBalanced, List.map_cons, parenDepth?_cons] at balanced
    exact balanced
  rcases List.append_eq_append_iff.mp same with ⟨more, split, -⟩ | ⟨more, -, ending⟩
  · have whole := inner.isBalanced_symbols
    rw [split, List.map_append, IsBalanced, parenDepth?_append, Option.bind_eq_some_iff] at whole
    obtain ⟨depth, inside, -⟩ := whole
    have deeper := parenDepth?_add inside 1
    rw [Nat.zero_add, closed] at deeper
    simp at deeper
  · cases more with
    | nil => exact symbol_ne_closing operator (List.cons.inj ending).1.symm
    | cons symbol others => simp at ending

/-- The operators and operands, which both readings of the same symbols must share out. -/
def weight (symbols : List Symbol) : Nat :=
  symbols.countP fun symbol => symbol != .opening && symbol != .closing

theorem weight_append (first second : List Symbol) :
    weight (first ++ second) = weight first + weight second :=
  List.countP_append

theorem weight_operator_cons (operator : Operator) (symbols : List Symbol) :
    weight (operator.symbol :: symbols) = weight symbols + 1 := by
  refine List.countP_cons_of_pos ?_
  cases operator <;> simp [Operator.symbol]

theorem weight_symbols (tree : Condition) : weight tree.symbols = weight tree.ungrouped.symbols := by
  induction tree with
  | word text => rfl
  | group inner ih => simpa [weight, symbols, ungrouped] using ih
  | negation operand ih => simpa [weight, symbols, ungrouped] using ih
  | binary operator left right leftIh rightIh =>
      rw [symbols, ungrouped, symbols, weight_append, weight_append, weight_operator_cons,
        weight_operator_cons, leftIh, rightIh]

/-- An operand that went on with the operator behind it would have more operators. -/
theorem eq_nil_of_weight_eq {front more back right : List Symbol} {operator : Operator}
    (goesOn : operator.symbol :: right = more ++ back) (same : weight (front ++ more) = weight front) :
    more = [] := by
  cases more with
  | nil => rfl
  | cons symbol others =>
      obtain ⟨rfl, -⟩ := List.cons.inj goesOn
      rw [weight_append, weight_operator_cons] at same
      omega

/-- Operands with the same operators end at the same symbol. -/
theorem left_eq_of_append {left other : Condition} {operator second : Operator} {right more : List Symbol}
    (same : left.symbols ++ operator.symbol :: right = other.symbols ++ second.symbol :: more)
    (operators : left.ungrouped = other.ungrouped) : left.symbols = other.symbols := by
  have weights : weight left.symbols = weight other.symbols := by
    rw [weight_symbols left, weight_symbols other, operators]
  rcases List.append_eq_append_iff.mp same with ⟨between, longer, goesOn⟩ | ⟨between, longer, goesOn⟩
  · have none := eq_nil_of_weight_eq goesOn (longer ▸ weights.symm)
    rw [longer, none, List.append_nil]
  · have none := eq_nil_of_weight_eq goesOn (longer ▸ weights)
    rw [longer, none, List.append_nil]

/-- The symbols and the operators of a tree determine where its parentheses stand. -/
theorem eq_of_symbols {first second : Condition} (same : first.symbols = second.symbols)
    (operators : first.ungrouped = second.ungrouped) : first = second := by
  induction first generalizing second with
  | word text =>
      cases second with
      | word other => exact operators
      | group inner => simp [symbols] at same
      | negation operand => cases operators
      | binary operator left right => cases operators
  | group inner ih =>
      cases second with
      | word text => simp [symbols] at same
      | group other =>
          have inside : inner.symbols = other.symbols := by simpa [symbols] using same
          exact congrArg group (ih inside operators)
      | negation operand => simp [symbols] at same
      | binary operator left right => exact absurd same.symm (binary_ne_group inner)
  | negation operand ih =>
      cases second with
      | word text => cases operators
      | group inner => simp [symbols] at same
      | negation other =>
          have behind : operand.symbols = other.symbols := by simpa [symbols] using same
          exact congrArg negation (ih behind (negation.inj operators))
      | binary operator left right => cases operators
  | binary operator left right leftIh rightIh =>
      cases second with
      | word text => cases operators
      | group inner => exact absurd same (binary_ne_group inner)
      | negation other => cases operators
      | binary second otherLeft otherRight =>
          obtain ⟨rfl, leftOperators, rightOperators⟩ := Condition.binary.inj operators
          rw [symbols, symbols] at same
          have leftSame := left_eq_of_append same leftOperators
          rw [leftSame, List.append_cancel_left_eq, List.cons.injEq] at same
          have leftEq := leftIh leftSame leftOperators
          have rightEq := rightIh same.2 rightOperators
          rw [leftEq, rightEq]

theorem words_ungrouped (tree : Condition) : tree.ungrouped.words = tree.words := by
  induction tree <;> simp_all [ungrouped, words]

/-- Up to conjunctions and negations both languages order their operators alike. -/
theorem le_scriptLevel {tree : Condition} {level : Nat} (low : level ≤ 2)
    (tight : level ≤ tree.sketchLevel) : level ≤ tree.scriptLevel := by
  cases tree with
  | word text => exact low.trans (show 2 ≤ 4 by decide)
  | group inner => exact low.trans (show 2 ≤ 4 by decide)
  | negation operand => exact low
  | binary operator left right =>
      cases operator with
      | comparison sign => exact low.trans (show 2 ≤ 3 by decide)
      | link sign => exact low.trans (show 2 ≤ 3 by decide)
      | _ => exact tight

theorem three_lt_scriptLevel (tree : Condition) : 3 < tree.scriptLevel ↔ tree.isOperand = true := by
  cases tree with
  | binary operator left right => cases operator <;> simp [scriptLevel, Operator.scriptLevel, isOperand]
  | _ => simp [scriptLevel, isOperand]

section

variable (f : Text → Text)

@[simp] theorem scriptLevel_mapWords (tree : Condition) :
    (tree.mapWords f).scriptLevel = tree.scriptLevel := by
  cases tree <;> rfl

/-- Spelled in the script, a condition of the sketch is read as before just in case all its comparisons are
of words and groups, and all its words are operands. -/
theorem isScript_mapWords_iff {tree : Condition} (sketch : tree.IsSketch) :
    (tree.mapWords f).IsScript ↔
      tree.comparesOperands = true ∧ ∀ word ∈ tree.words, isScriptAtom (f word) = true := by
  induction tree with
  | word text => simp [mapWords, IsScript, comparesOperands, words]
  | group inner ih => exact ih sketch
  | negation operand ih =>
      obtain ⟨tight, sketch⟩ := sketch
      have fits : 2 ≤ operand.scriptLevel := le_scriptLevel le_rfl ((by decide : 2 ≤ 4).trans tight)
      rw [mapWords, IsScript, scriptLevel_mapWords, ih sketch]
      exact and_iff_right fits
  | binary operator left right leftIh rightIh =>
      obtain ⟨noLink, leftTight, rightTight, leftSketch, rightSketch⟩ := sketch
      rw [mapWords, IsScript, scriptLevel_mapWords, scriptLevel_mapWords, leftIh leftSketch,
        rightIh rightSketch, words, List.forall_mem_append]
      cases operator with
      | disjunction =>
          have fits : Operator.disjunction.scriptLevel < right.scriptLevel :=
            le_scriptLevel (by decide) rightTight
          simp only [Operator.takesLeft, comparesOperands, Bool.and_eq_true]
          tauto
      | conjunction =>
          have leftFits : 1 ≤ left.scriptLevel := le_scriptLevel (by decide) leftTight
          have fits : Operator.conjunction.scriptLevel < right.scriptLevel :=
            le_scriptLevel (by decide) rightTight
          simp only [Operator.takesLeft, comparesOperands, Bool.and_eq_true]
          tauto
      | comparison sign =>
          simp only [Operator.takesLeft, Operator.scriptLevel, three_lt_scriptLevel, comparesOperands,
            Bool.and_eq_true]
          tauto
      | link sign => exact absurd rfl (noLink sign)

end

end Condition

def Symbol.mapWord (f : Text → Text) : Symbol → Symbol
  | .word text => .word (f text)
  | symbol => symbol

theorem Condition.symbols_mapWords (f : Text → Text) (tree : Condition) :
    (tree.mapWords f).symbols = tree.symbols.map (Symbol.mapWord f) := by
  induction tree with
  | word text => rfl
  | group inner ih => simp [mapWords, symbols, ih, Symbol.mapWord]
  | negation operand ih => simp [mapWords, symbols, ih, Symbol.mapWord]
  | binary operator left right leftIh rightIh =>
      have kept : operator.symbol.mapWord f = operator.symbol := by cases operator <;> rfl
      rw [mapWords, symbols, symbols, leftIh, rightIh, List.map_append, List.map_cons, kept]

/-- The symbol is no word, or a word that the script reads as an operand. -/
def Symbol.IsScript : Symbol → Prop
  | .word text => isScriptAtom text = true
  | _ => True

/-- What holds of the words and of every mark holds of the symbols. -/
theorem Condition.forall_mem_symbols {p : Symbol → Prop} {tree : Condition}
    (words : ∀ word ∈ tree.words, p (.word word))
    (marks : ∀ symbol, (∀ text, symbol ≠ .word text) → p symbol) : ∀ symbol ∈ tree.symbols, p symbol := by
  induction tree with
  | word text => exact List.forall_mem_singleton.mpr (words text List.mem_cons_self)
  | group inner ih =>
      rw [symbols, List.forall_mem_cons, List.forall_mem_append, List.forall_mem_singleton]
      exact ⟨marks _ nofun, ih words, marks _ nofun⟩
  | negation operand ih => exact List.forall_mem_cons.mpr ⟨marks _ nofun, ih words⟩
  | binary operator left right leftIh rightIh =>
      obtain ⟨leftWords, rightWords⟩ := List.forall_mem_append.mp words
      have mark : p operator.symbol := marks _ (by cases operator <;> exact nofun)
      exact List.forall_mem_append.mpr
        ⟨leftIh leftWords, List.forall_mem_cons.mpr ⟨mark, rightIh rightWords⟩⟩

theorem Condition.isScript_of_mem_symbols {tree : Condition}
    (atoms : ∀ word ∈ tree.words, isScriptAtom word = true) :
    ∀ symbol ∈ tree.symbols, symbol.IsScript := by
  refine forall_mem_symbols atoms fun symbol noWord => ?_
  cases symbol with
  | word text => exact absurd rfl (noWord text)
  | _ => trivial

/-- No operand is spelled like an operator or a parenthesis. -/
theorem Symbol.ne_scriptText {text : Text} (atom : isScriptAtom text = true) {mark : Symbol}
    (noWord : ∀ text, mark ≠ .word text) : text ≠ mark.scriptText := by
  rintro rfl
  cases mark with
  | word text => exact noWord text rfl
  | sign comparison => cases comparison <;> exact absurd atom (by decide)
  | _ => exact absurd atom (by decide)

theorem Comparison.text_injective {first second : Comparison} (same : first.text = second.text) :
    first = second := by
  cases first <;> cases second <;> first | rfl | exact absurd same (by decide)

/-- Operands and marks of the script are told apart by their texts. -/
theorem Symbol.scriptText_injective {first second : Symbol} (firstScript : first.IsScript)
    (secondScript : second.IsScript) (same : first.scriptText = second.scriptText) :
    first = second := by
  cases first with
  | word text =>
      cases second with
      | word other => exact congrArg word same
      | _ => exact absurd same (ne_scriptText firstScript fun _ => nofun)
  | sign comparison =>
      cases second with
      | word other => exact absurd same.symm (ne_scriptText secondScript fun _ => nofun)
      | sign other => exact congrArg sign (Comparison.text_injective same)
      | _ => cases comparison <;> exact absurd same (by decide)
  | _ =>
      cases second with
      | word other => exact absurd same.symm (ne_scriptText secondScript fun _ => nofun)
      | sign other => cases other <;> exact absurd same (by decide)
      | _ => first | rfl | exact absurd same (by decide)

theorem symbols_eq_of_scriptText {first second : List Symbol} (firstScript : ∀ symbol ∈ first, symbol.IsScript)
    (secondScript : ∀ symbol ∈ second, symbol.IsScript)
    (same : first.map Symbol.scriptText = second.map Symbol.scriptText) : first = second := by
  induction first generalizing second with
  | nil => exact (List.map_eq_nil_iff.mp same.symm).symm
  | cons symbol rest ih =>
      cases second with
      | nil => cases same
      | cons other others =>
          obtain ⟨here, later⟩ := List.cons.inj same
          rw [List.forall_mem_cons] at firstScript secondScript
          rw [Symbol.scriptText_injective firstScript.1 secondScript.1 here,
            ih firstScript.2 secondScript.2 later]

theorem Condition.words_of_isScript {tree : Condition} (script : tree.IsScript) :
    ∀ word ∈ tree.words, isScriptAtom word = true := by
  induction tree with
  | word text => exact List.forall_mem_singleton.mpr script
  | group inner ih => exact ih script
  | negation operand ih => exact ih script.2
  | binary operator left right leftIh rightIh =>
      exact List.forall_mem_append.mpr ⟨leftIh script.2.2.1, rightIh script.2.2.2⟩

/-- A text that spells a tree is read with the tree's operators just in case it is read as the tree. -/
theorem exists_scriptParses_iff {text : Text} {tree : Condition}
    (spelled : lexemes text = tree.symbols.map Symbol.scriptText) :
    (∃ made, ScriptParses text made ∧ made.ungrouped = tree.ungrouped) ↔ tree.IsScript := by
  constructor
  · rintro ⟨made, ⟨script, madeSpelled⟩, operators⟩
    have atoms := Condition.words_of_isScript script
    have treeAtoms : ∀ word ∈ tree.words, isScriptAtom word = true := by
      rwa [← tree.words_ungrouped, ← operators, made.words_ungrouped]
    have symbols : made.symbols = tree.symbols :=
      symbols_eq_of_scriptText (Condition.isScript_of_mem_symbols atoms)
        (Condition.isScript_of_mem_symbols treeAtoms) (madeSpelled.symm.trans spelled)
    exact Condition.eq_of_symbols symbols operators ▸ script
  · exact fun script => ⟨tree, ⟨script, spelled⟩, rfl⟩

end Breadboard.Script
