import Breadboard.Proofs.Script.LogicalLines
import Breadboard.Proofs.Script.RuleScope
import Breadboard.Proofs.Script.SignedLiteral

set_option autoImplicit false

namespace Breadboard.Script

open Sketch hiding stripComments

/-- The two forms of a definition: `#define NAME …` and `const int NAME = …;`. -/
inductive DefinitionForm where
  | directive
  | declaration
  deriving DecidableEq, Repr

/-- The tokens of a definition in front of its value. -/
inductive IsOpening : DefinitionForm → Text → List Token → Prop where
  | directive {hash keyword name : Token} {gap more : List Token} (isHash : hash.isPunct "#" = true)
      (gapTrivia : ∀ token ∈ gap, token.isTrivia = true) (isKeyword : keyword.isIdent "define" = true)
      (moreTrivia : ∀ token ∈ more, token.isTrivia = true) (isName : name.kind = .ident) :
      IsOpening .directive name.text (hash :: (gap ++ keyword :: (more ++ [name])))
  | declaration {keyword name equals : Token} {types gap : List Token}
      (isKeyword : keyword.isIdent "const" = true)
      (typesOnly : ∀ token ∈ types, token.isTrivia = true ∨ isNumericType token = true)
      (typed : ∃ token ∈ types, isNumericType token = true)
      (isName : name.kind = .ident) (noType : isNumericType name = false)
      (gapTrivia : ∀ token ∈ gap, token.isTrivia = true) (isEquals : equals.isPunct "=" = true) :
      IsOpening .declaration name.text (keyword :: (types ++ name :: (gap ++ [equals])))

/-- The tokens of a number, negated or not, from behind the opening on. -/
inductive IsValue : List Token → Binary64 → Prop where
  | plain {gap : List Token} {number : Token} {value : Binary64}
      (gapTrivia : ∀ token ∈ gap, token.isTrivia = true) (isNumber : number.kind = .number)
      (denotes : numericLiteral? number.text = some value) : IsValue (gap ++ [number]) value
  | negated {gap inner : List Token} {minus number : Token} {value : Binary64}
      (gapTrivia : ∀ token ∈ gap, token.isTrivia = true) (isMinus : minus.isPunct "-" = true)
      (innerTrivia : ∀ token ∈ inner, token.isTrivia = true) (isNumber : number.kind = .number)
      (denotes : numericLiteral? number.text = some value) :
      IsValue (gap ++ minus :: (inner ++ [number])) value.neg

theorem dropWhile_eq_cons {α : Type} {p : α → Bool} {list rest : List α} {first : α} :
    list.dropWhile p = first :: rest ↔
      p first = false ∧ ∃ front, (∀ other ∈ front, p other = true) ∧ list = front ++ first :: rest := by
  constructor
  · intro left
    have stop := List.head?_dropWhile_not p list
    rw [left] at stop
    refine ⟨by simpa using stop, list.takeWhile p, fun other => List.mem_takeWhile_imp, ?_⟩
    rw [← left, List.takeWhile_append_dropWhile]
  · rintro ⟨fails, front, holds, rfl⟩
    rw [List.dropWhile_append_of_pos holds]
    exact List.dropWhile_cons_of_neg (by simp [fails])

theorem dropTrivia_eq_cons {tokens rest : List Token} {token : Token} :
    dropTrivia tokens = token :: rest ↔ token.isTrivia = false ∧
      ∃ gap, (∀ other ∈ gap, other.isTrivia = true) ∧ tokens = gap ++ token :: rest :=
  dropWhile_eq_cons

theorem isTrivia_of_isPunct {token : Token} {mark : String} (punct : token.isPunct mark = true) :
    token.isTrivia = false := by
  rw [← Bool.not_eq_true]
  intro trivia
  rw [isPunct_of_isTrivia trivia] at punct
  cases punct

theorem isTrivia_of_kind {token : Token} (visible : token.kind = .ident ∨ token.kind = .number) :
    token.isTrivia = false := by
  rcases visible with kind | kind <;> rw [Token.isTrivia, kind] <;> rfl

theorem kind_of_isIdent {token : Token} {name : String} (ident : token.isIdent name = true) :
    token.kind = .ident := by
  rw [eq_of_isIdent ident]

theorem leadingNumber?_eq_some {tokens : List Token} {value : Binary64} :
    leadingNumber? tokens = some value ↔ ∃ number behind, tokens = number :: behind ∧
      number.kind = .number ∧ numericLiteral? number.text = some value := by
  cases tokens with
  | nil => simp [leadingNumber?]
  | cons number behind =>
      rw [leadingNumber?, Option.ite_none_right_eq_some]
      constructor
      · intro found
        exact ⟨number, behind, rfl, found⟩
      · rintro ⟨_, _, same, found⟩
        obtain ⟨rfl, -⟩ := List.cons.inj same
        exact found

theorem signedNumber?_eq_some {tokens : List Token} {value : Binary64} :
    signedNumber? tokens = some value ↔
      ∃ number behind, tokens = number ++ behind ∧ IsValue number value := by
  constructor
  · intro found
    rw [signedNumber?] at found
    cases left : dropTrivia tokens with
    | nil =>
        rw [left] at found
        cases found
    | cons token rest =>
        obtain ⟨-, gap, gapTrivia, rfl⟩ := dropTrivia_eq_cons.mp left
        rw [left] at found
        dsimp only at found
        split at found
        · rename_i isMinus
          obtain ⟨magnitude, leading, rfl⟩ := Option.map_eq_some_iff.mp found
          obtain ⟨number, behind, inner, isNumber, denotes⟩ := leadingNumber?_eq_some.mp leading
          obtain ⟨-, inner, innerTrivia, rfl⟩ := dropTrivia_eq_cons.mp inner
          exact ⟨_, behind, by simp, .negated gapTrivia isMinus innerTrivia isNumber denotes⟩
        · obtain ⟨number, behind, same, isNumber, denotes⟩ := leadingNumber?_eq_some.mp found
          obtain ⟨rfl, rfl⟩ := List.cons.inj same
          exact ⟨_, rest, by simp, .plain gapTrivia isNumber denotes⟩
  · rintro ⟨_, behind, rfl, isValue⟩
    cases isValue with
    | @plain gap number _ gapTrivia isNumber denotes =>
        have left : dropTrivia (gap ++ [number] ++ behind) = number :: behind :=
          dropTrivia_eq_cons.mpr ⟨isTrivia_of_kind (Or.inr isNumber), gap, gapTrivia, by simp⟩
        have noMinus : number.isPunct "-" = false := by
          rw [Token.isPunct, isNumber]
          rfl
        rw [signedNumber?, left]
        dsimp only
        rw [noMinus, if_neg Bool.false_ne_true]
        exact leadingNumber?_eq_some.mpr ⟨number, behind, rfl, isNumber, denotes⟩
    | @negated gap inner minus number magnitude gapTrivia isMinus innerTrivia isNumber denotes =>
        have left : dropTrivia (gap ++ minus :: (inner ++ [number]) ++ behind) =
            minus :: (inner ++ number :: behind) :=
          dropTrivia_eq_cons.mpr ⟨isTrivia_of_isPunct isMinus, gap, gapTrivia, by simp⟩
        have innerLeft : dropTrivia (inner ++ number :: behind) = number :: behind :=
          dropTrivia_eq_cons.mpr ⟨isTrivia_of_kind (Or.inr isNumber), inner, innerTrivia, rfl⟩
        rw [signedNumber?, left]
        dsimp only
        rw [isMinus, if_pos rfl, innerLeft,
          leadingNumber?_eq_some.mpr ⟨number, behind, rfl, isNumber, denotes⟩, Option.map_some]

theorem macroConstant?_eq_some {tokens : List Token} {constant : Constant} :
    macroConstant? tokens = some constant ↔ ∃ gap keyword more name value,
      tokens = gap ++ keyword :: (more ++ name :: value) ∧ (∀ token ∈ gap, token.isTrivia = true) ∧
      keyword.isIdent "define" = true ∧ (∀ token ∈ more, token.isTrivia = true) ∧ name.kind = .ident ∧
      constant.name = name.text ∧ signedNumber? value = some constant.value := by
  constructor
  · intro found
    rw [macroConstant?] at found
    cases left : dropTrivia tokens with
    | nil =>
        rw [left] at found
        cases found
    | cons keyword rest =>
        obtain ⟨-, gap, gapTrivia, rfl⟩ := dropTrivia_eq_cons.mp left
        rw [left] at found
        dsimp only at found
        obtain ⟨isKeyword, found⟩ := Option.ite_none_right_eq_some.mp found
        cases onward : dropTrivia rest with
        | nil =>
            rw [onward] at found
            cases found
        | cons name value =>
            obtain ⟨-, more, moreTrivia, rfl⟩ := dropTrivia_eq_cons.mp onward
            rw [onward] at found
            dsimp only at found
            obtain ⟨isName, found⟩ := Option.ite_none_right_eq_some.mp found
            obtain ⟨number, signed, rfl⟩ := Option.map_eq_some_iff.mp found
            exact ⟨gap, keyword, more, name, value, rfl, gapTrivia, isKeyword, moreTrivia, isName, rfl, signed⟩
  · rintro ⟨gap, keyword, more, name, value, rfl, gapTrivia, isKeyword, moreTrivia, isName, named, signed⟩
    have left : dropTrivia (gap ++ keyword :: (more ++ name :: value)) =
        keyword :: (more ++ name :: value) :=
      dropTrivia_eq_cons.mpr ⟨isTrivia_of_kind (Or.inl (kind_of_isIdent isKeyword)), gap, gapTrivia, rfl⟩
    have onward : dropTrivia (more ++ name :: value) = name :: value :=
      dropTrivia_eq_cons.mpr ⟨isTrivia_of_kind (Or.inl isName), more, moreTrivia, rfl⟩
    rw [macroConstant?, left]
    dsimp only
    rw [if_pos isKeyword, onward]
    dsimp only
    rw [if_pos isName, signed, Option.map_some, ← named]

theorem isNumericType_of_isTrivia {token : Token} (trivia : token.isTrivia = true) :
    isNumericType token = false := by
  rw [Token.isTrivia, Bool.or_eq_true, beq_iff_eq, beq_iff_eq] at trivia
  rcases trivia with kind | kind <;> rw [isNumericType, kind] <;> rfl

/-- A declaration has a type just in case its first word is one. -/
theorem head?_dropTrivia_types {types rest : List Token} {name : Token}
    (typesOnly : ∀ token ∈ types, token.isTrivia = true ∨ isNumericType token = true)
    (noType : isNumericType name = false) (visible : name.isTrivia = false) :
    (dropTrivia (types ++ name :: rest)).head?.any isNumericType = true ↔
      ∃ token ∈ types, isNumericType token = true := by
  induction types with
  | nil =>
      rw [List.nil_append, dropTrivia, List.dropWhile_cons_of_neg (by simp [visible])]
      simp [noType]
  | cons first others ih =>
      obtain ⟨here, later⟩ := List.forall_mem_cons.mp typesOnly
      rw [List.cons_append, dropTrivia]
      cases trivia : first.isTrivia with
      | true =>
          rw [List.dropWhile_cons_of_pos trivia, ← dropTrivia, ih later]
          simp [isNumericType_of_isTrivia trivia]
      | false =>
          have isType := here.resolve_left (by simp [trivia])
          rw [List.dropWhile_cons_of_neg (by simp [trivia])]
          simp [isType]

theorem declaredConstant?_eq_some {tokens : List Token} {constant : Constant} :
    declaredConstant? tokens = some constant ↔ ∃ types name gap equals value,
      tokens = types ++ name :: (gap ++ equals :: value) ∧
      (∀ token ∈ types, token.isTrivia = true ∨ isNumericType token = true) ∧
      (∃ token ∈ types, isNumericType token = true) ∧ name.kind = .ident ∧ isNumericType name = false ∧
      (∀ token ∈ gap, token.isTrivia = true) ∧ equals.isPunct "=" = true ∧
      constant.name = name.text ∧ signedNumber? value = some constant.value := by
  constructor
  · intro found
    rw [declaredConstant?] at found
    obtain ⟨typed, found⟩ := Option.ite_none_right_eq_some.mp found
    cases left : dropNumericTypes tokens with
    | nil =>
        rw [left] at found
        cases found
    | cons name rest =>
        obtain ⟨apart, types, typesOnly, rfl⟩ := dropWhile_eq_cons.mp left
        rw [Bool.or_eq_false_iff] at apart
        simp only [Bool.or_eq_true] at typesOnly
        rw [head?_dropTrivia_types typesOnly apart.2 apart.1] at typed
        rw [left] at found
        dsimp only at found
        obtain ⟨isName, found⟩ := Option.ite_none_right_eq_some.mp found
        cases onward : dropTrivia rest with
        | nil =>
            rw [onward] at found
            cases found
        | cons equals value =>
            obtain ⟨-, gap, gapTrivia, rfl⟩ := dropTrivia_eq_cons.mp onward
            rw [onward] at found
            dsimp only at found
            obtain ⟨isEquals, found⟩ := Option.ite_none_right_eq_some.mp found
            obtain ⟨number, signed, rfl⟩ := Option.map_eq_some_iff.mp found
            exact ⟨types, name, gap, equals, value, rfl, typesOnly, typed, isName, apart.2, gapTrivia,
              isEquals, rfl, signed⟩
  · rintro ⟨types, name, gap, equals, value, rfl, typesOnly, typed, isName, noType, gapTrivia, isEquals,
      named, signed⟩
    have visible : name.isTrivia = false := isTrivia_of_kind (Or.inl isName)
    have left : dropNumericTypes (types ++ name :: (gap ++ equals :: value)) =
        name :: (gap ++ equals :: value) :=
      dropWhile_eq_cons.mpr ⟨by simp [visible, noType], types, by simpa using typesOnly, rfl⟩
    have onward : dropTrivia (gap ++ equals :: value) = equals :: value :=
      dropTrivia_eq_cons.mpr ⟨isTrivia_of_isPunct isEquals, gap, gapTrivia, rfl⟩
    rw [declaredConstant?, if_pos ((head?_dropTrivia_types typesOnly noType visible).mpr typed), left]
    dsimp only
    rw [if_pos isName, onward]
    dsimp only
    rw [if_pos isEquals, signed, Option.map_some, ← named]

/-- The constant whose definition starts with the first token. -/
def constantAt? : List Token → Option Constant
  | [] => none
  | token :: rest =>
    if token.isPunct "#" then macroConstant? rest
    else if token.isIdent "const" then declaredConstant? rest
    else none

/-- A definition is its opening and a value, whatever stands behind them. -/
theorem constantAt?_eq_some {tokens : List Token} {constant : Constant} :
    constantAt? tokens = some constant ↔ ∃ form opening number behind,
      tokens = opening ++ (number ++ behind) ∧ IsOpening form constant.name opening ∧
      IsValue number constant.value := by
  constructor
  · intro found
    cases tokens with
    | nil => cases found
    | cons first rest =>
        rw [constantAt?] at found
        split at found
        · rename_i isHash
          obtain ⟨gap, keyword, more, name, value, rfl, gapTrivia, isKeyword, moreTrivia, isName, named,
            signed⟩ := macroConstant?_eq_some.mp found
          obtain ⟨number, behind, rfl, isValue⟩ := signedNumber?_eq_some.mp signed
          have isOpening := IsOpening.directive isHash gapTrivia isKeyword moreTrivia isName
          rw [← named] at isOpening
          exact ⟨_, _, number, behind, by simp, isOpening, isValue⟩
        · obtain ⟨isKeyword, found⟩ := Option.ite_none_right_eq_some.mp found
          obtain ⟨types, name, gap, equals, value, rfl, typesOnly, typed, isName, noType, gapTrivia, isEquals,
            named, signed⟩ := declaredConstant?_eq_some.mp found
          obtain ⟨number, behind, rfl, isValue⟩ := signedNumber?_eq_some.mp signed
          have isOpening :=
            IsOpening.declaration isKeyword typesOnly typed isName noType gapTrivia isEquals
          rw [← named] at isOpening
          exact ⟨_, _, number, behind, by simp, isOpening, isValue⟩
  · rintro ⟨form, opening, number, behind, rfl, isOpening, isValue⟩
    have signed := signedNumber?_eq_some.mpr ⟨number, behind, rfl, isValue⟩
    obtain ⟨constantName, constantValue⟩ := constant
    cases isOpening with
    | @directive hash keyword name gap more isHash gapTrivia isKeyword moreTrivia isName =>
        rw [List.cons_append, constantAt?, if_pos isHash]
        exact macroConstant?_eq_some.mpr ⟨gap, keyword, more, name, number ++ behind, by simp, gapTrivia,
          isKeyword, moreTrivia, isName, rfl, signed⟩
    | @declaration keyword name equals types gap isKeyword typesOnly typed isName noType gapTrivia isEquals =>
        have noHash : keyword.isPunct "#" = false := by
          rw [eq_of_isIdent isKeyword]
          rfl
        rw [List.cons_append, constantAt?, noHash, if_neg Bool.false_ne_true, if_pos isKeyword]
        exact declaredConstant?_eq_some.mpr ⟨types, name, gap, equals, number ++ behind, by simp, typesOnly,
          typed, isName, noType, gapTrivia, isEquals, rfl, signed⟩

theorem mem_define {table : List Constant} {entry constant : Constant} :
    entry ∈ define table constant ↔ entry = constant ∨ entry ∈ table ∧ entry.name ≠ constant.name := by
  rw [define]
  split
  · rename_i known
    obtain ⟨old, inTable, same⟩ := List.any_eq_true.mp known
    rw [beq_iff_eq] at same
    rw [List.mem_map]
    constructor
    · rintro ⟨other, member, rfl⟩
      split
      · exact Or.inl rfl
      · rename_i apart
        exact Or.inr ⟨member, apart⟩
    · rintro (rfl | ⟨member, apart⟩)
      · exact ⟨old, inTable, if_pos same⟩
      · exact ⟨entry, member, if_neg apart⟩
  · rename_i unknown
    rw [List.mem_append, List.mem_singleton, or_comm]
    refine or_congr_right ⟨fun member => ⟨member, fun same => unknown ?_⟩, And.left⟩
    exact List.any_eq_true.mpr ⟨entry, member, beq_iff_eq.mpr same⟩

/-- The table has the last one of the constants of each name. -/
theorem mem_foldl_define {constants : List Constant} {constant : Constant} :
    constant ∈ constants.foldl define [] ↔
      constants.reverse.find? (·.name == constant.name) = some constant := by
  induction constants using List.reverseRecOn with
  | nil => simp
  | append_singleton front last ih =>
      rw [List.foldl_append, List.foldl_cons, List.foldl_nil, mem_define, ih, List.reverse_append,
        List.reverse_singleton, List.singleton_append]
      by_cases same : last.name = constant.name
      · rw [List.find?_cons_of_pos (by simp [same]), Option.some_inj]
        simp [same, eq_comm]
      · rw [List.find?_cons_of_neg (by simp [same])]
        have apart : constant ≠ last := fun equal => same (congrArg Constant.name equal.symm)
        simp [apart, Ne.symm same]

theorem definitions_cons (token : Token) (rest : List Token) :
    definitions (token :: rest) = (constantAt? (token :: rest)).toList ++ definitions rest :=
  rfl

theorem mem_definitions {tokens : List Token} {constant : Constant} :
    constant ∈ definitions tokens ↔ ∃ before token rest, tokens = before ++ token :: rest ∧
      constantAt? (token :: rest) = some constant := by
  induction tokens with
  | nil => simp [definitions]
  | cons first more ih =>
      rw [definitions_cons, List.mem_append, Option.mem_toList, ih]
      constructor
      · rintro (found | ⟨before, token, rest, rfl, found⟩)
        · exact ⟨[], first, more, rfl, found⟩
        · exact ⟨first :: before, token, rest, rfl, found⟩
      · rintro ⟨before, token, rest, split, found⟩
        rcases List.cons_eq_append_iff.mp split with ⟨rfl, same⟩ | ⟨others, rfl, same⟩
        · exact Or.inl (same ▸ found)
        · exact Or.inr ⟨others, token, rest, same, found⟩

/-- The last constant of a name is the one that no later definition has the name of. -/
theorem find?_definitions {tokens : List Token} {constant : Constant} :
    (definitions tokens).reverse.find? (·.name == constant.name) = some constant ↔
      ∃ before token rest, tokens = before ++ token :: rest ∧ constantAt? (token :: rest) = some constant ∧
        ∀ other ∈ definitions rest, other.name ≠ constant.name := by
  induction tokens with
  | nil => simp [definitions]
  | cons first more ih =>
      rw [definitions_cons, List.reverse_append, List.find?_append, Option.or_eq_some_iff, ih]
      constructor
      · rintro (⟨before, token, rest, rfl, found, isLast⟩ | ⟨noLater, found⟩)
        · exact ⟨first :: before, token, rest, rfl, found, isLast⟩
        · refine ⟨[], first, more, rfl, ?_, fun other member same => ?_⟩
          · have member := List.mem_of_find?_eq_some found
            simpa using member
          · have apart := List.find?_eq_none.mp noLater other (List.mem_reverse.mpr member)
            simp [same] at apart
      · rintro ⟨before, token, rest, split, found, isLast⟩
        rcases List.cons_eq_append_iff.mp split with ⟨rfl, same⟩ | ⟨others, rfl, same⟩
        · obtain ⟨rfl, rfl⟩ := List.cons.inj same
          refine Or.inr ⟨List.find?_eq_none.mpr fun other member => ?_, by simp [found]⟩
          simpa using isLast other (List.mem_reverse.mp member)
        · exact Or.inl ⟨others, token, rest, same, found, isLast⟩

/-- A definition in a sketch, with the tokens around it. -/
structure ConstantDefinition (source : Text) where
  form : DefinitionForm
  before : List Token
  opening : List Token
  number : List Token
  behind : List Token
  constant : Constant
  isOpening : IsOpening form constant.name opening
  isValue : IsValue number constant.value
  tokens : tokenize source = before ++ (opening ++ (number ++ behind))

namespace ConstantDefinition

variable {source : Text}

/-- No later definition has the same name. -/
def IsLast (definition : ConstantDefinition source) : Prop :=
  ∀ other : ConstantDefinition source, other.constant.name = definition.constant.name →
    other.before.length ≤ definition.before.length

theorem exists_of_constantAt? {before rest : List Token} {constant : Constant}
    (tokens : tokenize source = before ++ rest) (found : constantAt? rest = some constant) :
    ∃ definition : ConstantDefinition source,
      definition.before = before ∧ definition.constant = constant := by
  obtain ⟨form, opening, number, behind, rfl, isOpening, isValue⟩ := constantAt?_eq_some.mp found
  exact ⟨⟨form, before, opening, number, behind, constant, isOpening, isValue, tokens⟩, rfl, rfl⟩

theorem constantAt?_eq (definition : ConstantDefinition source) :
    constantAt? (definition.opening ++ (definition.number ++ definition.behind)) =
      some definition.constant :=
  constantAt?_eq_some.mpr ⟨definition.form, definition.opening, definition.number, definition.behind, rfl,
    definition.isOpening, definition.isValue⟩

/-- A definition starts with its first token. -/
theorem exists_cons (definition : ConstantDefinition source) : ∃ token rest,
    tokenize source = definition.before ++ token :: rest ∧
      constantAt? (token :: rest) = some definition.constant := by
  have found := definition.constantAt?_eq
  have split := definition.tokens
  cases whole : definition.opening ++ (definition.number ++ definition.behind) with
  | nil =>
      rw [whole] at found
      cases found
  | cons token rest =>
      rw [whole] at found split
      exact ⟨token, rest, split, found⟩

end ConstantDefinition

theorem constants_harvest (source : Text) :
    (Context.harvest source).constants = (definitions (tokenize source)).foldl define [] :=
  rfl

/-- The constants of a sketch are those of the last definitions of their names. -/
theorem mem_constants_iff {source : Text} {constant : Constant} :
    constant ∈ (Context.harvest source).constants ↔
      ∃ definition : ConstantDefinition source, definition.constant = constant ∧ definition.IsLast := by
  rw [constants_harvest, mem_foldl_define, find?_definitions]
  constructor
  · rintro ⟨before, token, rest, tokens, found, noLater⟩
    obtain ⟨definition, place, rfl⟩ := ConstantDefinition.exists_of_constantAt? tokens found
    refine ⟨definition, rfl, fun other same => ?_⟩
    by_contra! later
    obtain ⟨next, more, otherTokens, otherFound⟩ := other.exists_cons
    rw [tokens] at otherTokens
    rcases List.append_eq_append_iff.mp otherTokens with ⟨between, otherBefore, inRest⟩ | ⟨between, shorter, -⟩
    · have nonempty : between ≠ [] := by
        rintro rfl
        rw [otherBefore, List.append_nil, place] at later
        exact lt_irrefl _ later
      rcases List.cons_eq_append_iff.mp inRest with ⟨nothing, -⟩ | ⟨others, -, parts⟩
      · exact nonempty nothing
      · exact noLater other.constant (mem_definitions.mpr ⟨others, next, more, parts, otherFound⟩) same
    · rw [place, shorter, List.length_append] at later
      omega
  · rintro ⟨definition, rfl, isLast⟩
    obtain ⟨token, rest, tokens, found⟩ := definition.exists_cons
    refine ⟨_, token, rest, tokens, found, fun other member same => ?_⟩
    obtain ⟨between, next, more, rfl, otherFound⟩ := mem_definitions.mp member
    have place : tokenize source = (definition.before ++ token :: between) ++ next :: more := by
      rw [tokens, List.append_assoc, List.cons_append]
    obtain ⟨later, isPlace, rfl⟩ := ConstantDefinition.exists_of_constantAt? place otherFound
    have longer := isLast later same
    rw [isPlace, List.length_append, List.length_cons] at longer
    omega

end Breadboard.Script
