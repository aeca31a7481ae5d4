import Breadboard.Proofs.Script.PinBindings

set_option autoImplicit false

namespace Breadboard.Script

open Sketch hiding stripComments

/-- The tokens of one definition up to its number. -/
inductive IsDefinition (constant : Constant) : List Token → Prop where
  | intro {form : DefinitionForm} {opening number : List Token}
      (isOpening : IsOpening form constant.name opening) (isValue : IsValue number constant.value) :
      IsDefinition constant (opening ++ number)

/-- The definitions that a scan of the tokens accepts, one after the other. -/
inductive Accepts : List Token → List Constant → Prop where
  | done : Accepts [] []
  | passed {token : Token} {rest : List Token} {found : List Constant}
      (noDefinition : ∀ constant front behind, IsDefinition constant front → token :: rest ≠ front ++ behind)
      (onward : Accepts rest found) : Accepts (token :: rest) found
  | accepted {constant : Constant} {front behind : List Token} {found : List Constant}
      (isDefinition : IsDefinition constant front) (onward : Accepts behind found) :
      Accepts (front ++ behind) (constant :: found)

theorem constantAt?_eq_some_iff {tokens : List Token} {constant : Constant} :
    constantAt? tokens = some constant ↔
      ∃ front behind, tokens = front ++ behind ∧ IsDefinition constant front := by
  rw [constantAt?_eq_some]
  constructor
  · rintro ⟨form, opening, number, behind, rfl, isOpening, isValue⟩
    exact ⟨opening ++ number, behind, by rw [List.append_assoc], .intro isOpening isValue⟩
  · rintro ⟨_, behind, rfl, @⟨form, opening, number, isOpening, isValue⟩⟩
    exact ⟨form, opening, number, behind, by rw [List.append_assoc], isOpening, isValue⟩

theorem constantAt?_append {constant : Constant} {front : List Token}
    (isDefinition : IsDefinition constant front) (behind : List Token) :
    constantAt? (front ++ behind) = some constant :=
  constantAt?_eq_some_iff.mpr ⟨front, behind, rfl, isDefinition⟩

/-- No definition starts with this token, whatever follows. -/
def IsInert (token : Token) : Prop :=
  token.isPunct "#" = false ∧ token.isIdent "const" = false

theorem isInert_of_isTrivia {token : Token} (trivia : token.isTrivia = true) : IsInert token :=
  ⟨isPunct_of_isTrivia trivia "#", isIdent_of_isTrivia trivia "const"⟩

theorem isInert_of_isIdent_define {token : Token} (isKeyword : token.isIdent "define" = true) :
    IsInert token := by
  rw [eq_of_isIdent isKeyword]
  exact ⟨rfl, rfl⟩

theorem isInert_of_isPunct {token : Token} {mark : String} (punct : token.isPunct mark = true)
    (noHash : mark ≠ "#") : IsInert token := by
  rw [eq_of_isPunct punct]
  have apart : mark.toList ≠ "#".toList := fun same => noHash (String.toList_injective same)
  exact ⟨by simpa [Token.isPunct] using apart, rfl⟩

theorem isInert_of_isNumber {token : Token} (isNumber : token.kind = .number) : IsInert token := by
  constructor
  · rw [Token.isPunct, isNumber]
    rfl
  · rw [Token.isIdent, isNumber]
    rfl

theorem isInert_of_isNumericType {token : Token} (isType : isNumericType token = true) :
    IsInert token := by
  constructor <;> rw [← Bool.not_eq_true]
  · intro isHash
    rw [eq_of_isPunct isHash] at isType
    cases isType
  · intro isKeyword
    rw [eq_of_isIdent isKeyword] at isType
    exact absurd isType (by decide)

theorem definitions_append_of_inert {front : List Token} (inert : ∀ token ∈ front, IsInert token)
    (rest : List Token) : definitions (front ++ rest) = definitions rest := by
  induction front with
  | nil => rfl
  | cons token more ih =>
      obtain ⟨here, later⟩ := List.forall_mem_cons.mp inert
      rw [List.cons_append, definitions, here.1, here.2, ih later]
      rfl

/-- No definition starts inside a number. -/
theorem IsValue.isInert {number : List Token} {value : Binary64} (isValue : IsValue number value) :
    ∀ token ∈ number, IsInert token := by
  intro token member
  cases isValue with
  | plain gapTrivia isNumber _ =>
      rcases List.mem_append.mp member with inGap | isLast
      · exact isInert_of_isTrivia (gapTrivia token inGap)
      · exact List.mem_singleton.mp isLast ▸ isInert_of_isNumber isNumber
  | @negated gap inner minus number value gapTrivia isMinus innerTrivia isNumber _ =>
      simp only [List.mem_append, List.mem_cons, List.not_mem_nil, or_false] at member
      rcases member with inGap | rfl | inInner | rfl
      · exact isInert_of_isTrivia (gapTrivia token inGap)
      · exact isInert_of_isPunct isMinus (by decide)
      · exact isInert_of_isTrivia (innerTrivia token inInner)
      · exact isInert_of_isNumber isNumber

/-- The first token that is no trivia is no word of a type. -/
def IsUntyped (tokens : List Token) : Prop :=
  (dropTrivia tokens).head?.any isNumericType = false

theorem isUntyped_append {gap rest : List Token} {token : Token}
    (gapTrivia : ∀ other ∈ gap, other.isTrivia = true) (visible : token.isTrivia = false)
    (noType : isNumericType token = false) : IsUntyped (gap ++ token :: rest) := by
  rw [IsUntyped, dropTrivia_eq_cons.mpr ⟨visible, gap, gapTrivia, rfl⟩]
  exact noType

theorem isNumericType_of_kind {token : Token} (noIdent : token.kind ≠ .ident) :
    isNumericType token = false := by
  simp [isNumericType, noIdent]

theorem IsValue.isUntyped {number : List Token} {value : Binary64} (isValue : IsValue number value)
    (behind : List Token) : IsUntyped (number ++ behind) := by
  cases isValue with
  | @plain gap number value gapTrivia isNumber _ =>
      rw [List.append_assoc, List.singleton_append]
      exact isUntyped_append gapTrivia (isTrivia_of_kind (Or.inr isNumber))
        (isNumericType_of_kind (by simp [isNumber]))
  | @negated gap inner minus number value gapTrivia isMinus _ _ _ =>
      rw [List.append_assoc, List.cons_append]
      exact isUntyped_append gapTrivia (isTrivia_of_isPunct isMinus)
        (isNumericType_of_kind (by simp [eq_of_isPunct isMinus]))

/-- The name of a constant may be `const`, but no type stands behind it. -/
theorem definitions_name {name : Token} {rest : List Token} (isName : name.kind = .ident)
    (untyped : IsUntyped rest) : definitions (name :: rest) = definitions rest := by
  have noHash : name.isPunct "#" = false := by
    rw [Token.isPunct, isName]
    rfl
  rw [IsUntyped] at untyped
  rw [definitions, noHash, declaredConstant?, untyped]
  simp

/-- Behind its first token, an opening has no definition inside. -/
theorem IsOpening.definitions_tail {form : DefinitionForm} {name : Text} {opening : List Token}
    (isOpening : IsOpening form name opening) : ∃ first others, opening = first :: others ∧
      ∀ rest, IsUntyped rest → definitions (others ++ rest) = definitions rest := by
  cases isOpening with
  | @directive hash keyword name gap more _ gapTrivia isKeyword moreTrivia isName =>
      refine ⟨hash, _, rfl, fun rest untyped => ?_⟩
      have inGap : ∀ token ∈ gap, IsInert token := fun token member =>
        isInert_of_isTrivia (gapTrivia token member)
      have inKeyword : ∀ token ∈ keyword :: more, IsInert token :=
        List.forall_mem_cons.mpr ⟨isInert_of_isIdent_define isKeyword, fun token member =>
          isInert_of_isTrivia (moreTrivia token member)⟩
      calc definitions (gap ++ keyword :: (more ++ [name]) ++ rest)
          = definitions (gap ++ (keyword :: more ++ name :: rest)) := by simp
        _ = definitions (name :: rest) := by
          rw [definitions_append_of_inert inGap, definitions_append_of_inert inKeyword]
        _ = definitions rest := definitions_name isName untyped
  | @declaration keyword name equals types gap _ typesOnly _ isName _ gapTrivia isEquals =>
      refine ⟨keyword, _, rfl, fun rest _ => ?_⟩
      have inTypes : ∀ token ∈ types, IsInert token := fun token member =>
        (typesOnly token member).elim isInert_of_isTrivia isInert_of_isNumericType
      have inGap : ∀ token ∈ gap, IsInert token := fun token member =>
        isInert_of_isTrivia (gapTrivia token member)
      have noType : isNumericType equals = false :=
        isNumericType_of_kind (by simp [eq_of_isPunct isEquals])
      calc definitions (types ++ name :: (gap ++ [equals]) ++ rest)
          = definitions (types ++ name :: (gap ++ equals :: rest)) := by simp
        _ = definitions (gap ++ equals :: rest) := by
          rw [definitions_append_of_inert inTypes,
            definitions_name isName (isUntyped_append gapTrivia (isTrivia_of_isPunct isEquals) noType)]
        _ = definitions ([equals] ++ rest) := definitions_append_of_inert inGap _
        _ = definitions rest :=
          definitions_append_of_inert (by simpa using isInert_of_isPunct isEquals (by decide)) rest

/-- No definition starts inside another one. -/
theorem definitions_append_of_isDefinition {constant : Constant} {front : List Token}
    (isDefinition : IsDefinition constant front) (behind : List Token) :
    definitions (front ++ behind) = constant :: definitions behind := by
  have here := constantAt?_append isDefinition behind
  obtain @⟨form, opening, number, isOpening, isValue⟩ := isDefinition
  obtain ⟨first, others, rfl, onward⟩ := isOpening.definitions_tail
  rw [List.append_assoc, List.cons_append] at here ⊢
  rw [definitions_cons, here, onward _ (isValue.isUntyped behind),
    definitions_append_of_inert isValue.isInert]
  rfl

theorem constantAt?_eq_none_iff {tokens : List Token} :
    constantAt? tokens = none ↔
      ∀ constant front behind, IsDefinition constant front → tokens ≠ front ++ behind := by
  rw [Option.eq_none_iff_forall_ne_some]
  constructor
  · intro none constant front behind isDefinition same
    exact none constant (constantAt?_eq_some_iff.mpr ⟨front, behind, same, isDefinition⟩)
  · intro noDefinition constant found
    obtain ⟨front, behind, same, isDefinition⟩ := constantAt?_eq_some_iff.mp found
    exact noDefinition constant front behind isDefinition same

theorem Accepts.eq_definitions {tokens : List Token} {found : List Constant}
    (accepts : Accepts tokens found) : found = definitions tokens := by
  induction accepts with
  | done => rfl
  | passed noDefinition _ ih =>
      rw [definitions_cons, constantAt?_eq_none_iff.mpr noDefinition, ih]
      rfl
  | accepted isDefinition _ ih => rw [definitions_append_of_isDefinition isDefinition, ih]

theorem IsDefinition.ne_nil {constant : Constant} {front : List Token}
    (isDefinition : IsDefinition constant front) : front ≠ [] := by
  rintro rfl
  cases constantAt?_append isDefinition []

/-- The scan comes to the end of every list of tokens. -/
theorem accepts_definitions (tokens : List Token) : Accepts tokens (definitions tokens) := by
  match tokens with
  | [] => exact .done
  | token :: rest =>
      cases here : constantAt? (token :: rest) with
      | none =>
          rw [definitions_cons, here]
          exact .passed (constantAt?_eq_none_iff.mp here) (accepts_definitions rest)
      | some constant =>
          obtain ⟨front, behind, split, isDefinition⟩ := constantAt?_eq_some_iff.mp here
          have shorter : behind.length ≤ rest.length := by
            have positive := List.length_pos_of_ne_nil isDefinition.ne_nil
            have size := congrArg List.length split
            rw [List.length_cons, List.length_append] at size
            omega
          rw [split, definitions_append_of_isDefinition isDefinition]
          exact .accepted isDefinition (accepts_definitions behind)
termination_by tokens.length

/-- A scan that looks into every definition finds the same ones as a scan that goes on behind them. -/
theorem accepts_iff {tokens : List Token} {found : List Constant} :
    Accepts tokens found ↔ found = definitions tokens := by
  constructor
  · exact Accepts.eq_definitions
  · rintro rfl
    exact accepts_definitions tokens

theorem names_define (table : List Constant) (constant : Constant) :
    (define table constant).map Constant.name =
      if (table.map Constant.name).contains constant.name then table.map Constant.name
      else table.map Constant.name ++ [constant.name] := by
  have known : (table.map Constant.name).contains constant.name =
      table.any (·.name == constant.name) := by
    rw [List.contains_eq_any_beq, List.any_map]
    exact List.any_congr rfl fun entry => BEq.comm
  rw [define, known]
  split
  · rw [List.map_map]
    apply List.map_congr_left
    intro entry _
    rw [Function.comp_apply]
    split
    · rename_i same
      exact same.symm
    · rfl
  · rw [List.map_append]
    rfl

/-- A name has the place of its first definition. -/
theorem names_foldl_define (found : List Constant) :
    (found.foldl define []).map Constant.name = (found.map Constant.name).eraseDups := by
  induction found using List.reverseRecOn with
  | nil => rfl
  | append_singleton front last ih =>
      rw [List.foldl_append, List.foldl_cons, List.foldl_nil, names_define, ih, List.map_append,
        List.map_singleton, eraseDups_concat]
      simp [List.mem_eraseDups]

/-- A name has the value of its last definition. -/
theorem find?_foldl_define (found : List Constant) (name : Text) :
    (found.foldl define []).find? (·.name == name) = found.reverse.find? (·.name == name) := by
  have atMost {constant : Constant} (first : (found.foldl define []).find? (·.name == name) = some constant) :
      found.reverse.find? (·.name == name) = some constant := by
    have named : constant.name = name := by simpa using List.find?_some first
    have isLast := mem_foldl_define.mp (List.mem_of_find?_eq_some first)
    rwa [named] at isLast
  cases first : (found.foldl define []).find? (·.name == name) with
  | some constant => exact (atMost first).symm
  | none =>
      cases isLast : found.reverse.find? (·.name == name) with
      | none => rfl
      | some constant =>
          have named : constant.name = name := by simpa using List.find?_some isLast
          have member : constant ∈ found.foldl define [] := mem_foldl_define.mpr (by rw [named, isLast])
          exact absurd named (by simpa using List.find?_eq_none.mp first constant member)

/-- The pins' names are in the order of the table. -/
theorem sublist_pinNames (table : List Constant) :
    ((table.filterMap fun constant => constant.value.pinNumber?.map fun pin => (constant.name, pin)).map
      Prod.fst).Sublist (table.map Constant.name) := by
  induction table with
  | nil => exact .slnil
  | cons constant rest ih =>
      rw [List.filterMap_cons, List.map_cons]
      cases constant.value.pinNumber? with
      | none => exact ih.cons _
      | some pin => exact ih.cons_cons _

/-- A table of the definitions `found`, with its two views. -/
structure IsTableOf (found : List Constant) (context : Context) : Prop where
  names : context.constants.map Constant.name = (found.map Constant.name).eraseDups
  distinct : (context.constants.map Constant.name).Nodup
  value (name : Text) :
    context.constant? name = (found.reverse.find? (·.name == name)).map Constant.value
  assigned : context.scriptConstants.Sublist context.constants
  parted : ∀ constant ∈ context.constants,
    Xor (constant ∈ context.scriptConstants) (isPinConstant constant.name = true)
  pins (name : Text) (pin : Nat) : (name, pin) ∈ context.pinConstants ↔ isPinConstant name = true ∧
    ∃ value, context.constant? name = some value ∧ value.IsWhole pin ∧ pin < 2 ^ 32
  pinsDistinct : (context.pinConstants.map Prod.fst).Nodup

theorem nodup_names (source : Text) : ((Context.harvest source).constants.map Constant.name).Nodup := by
  rw [constants_harvest, names_foldl_define]
  exact nodup_eraseDups _

theorem constant?_harvest_eq_some {source name : Text} {value : Binary64} :
    (Context.harvest source).constant? name = some value ↔
      ⟨name, value⟩ ∈ (Context.harvest source).constants := by
  rw [Context.constant?, Context.valueIn, constants_harvest, find?_foldl_define, mem_foldl_define,
    Option.map_eq_some_iff]
  constructor
  · rintro ⟨constant, isLast, rfl⟩
    have named : constant.name = name := by simpa using List.find?_some isLast
    rw [isLast, ← named]
  · intro isLast
    exact ⟨_, isLast, rfl⟩

theorem mem_scriptConstants {context : Context} {constant : Constant} :
    constant ∈ context.scriptConstants ↔
      constant ∈ context.constants ∧ isPinConstant constant.name = false := by
  simp [Context.scriptConstants]

theorem mem_pinConstants_iff {context : Context} {name : Text} {pin : Nat} :
    (name, pin) ∈ context.pinConstants ↔ isPinConstant name = true ∧
      ∃ value, ⟨name, value⟩ ∈ context.constants ∧ value.pinNumber? = some pin := by
  rw [Context.pinConstants, List.mem_filterMap]
  constructor
  · rintro ⟨constant, member, made⟩
    obtain ⟨inTable, isPin⟩ := List.mem_filter.mp member
    obtain ⟨number, isNumber, same⟩ := Option.map_eq_some_iff.mp made
    obtain ⟨rfl, rfl⟩ := Prod.mk.inj same
    exact ⟨isPin, constant.value, inTable, isNumber⟩
  · rintro ⟨isPin, value, inTable, isNumber⟩
    exact ⟨_, List.mem_filter.mpr ⟨inTable, isPin⟩, by rw [isNumber, Option.map_some]⟩

theorem isTableOf_harvest (source : Text) :
    IsTableOf (definitions (tokenize source)) (Context.harvest source) where
  names := names_foldl_define _
  distinct := nodup_names source
  value name := by
    rw [Context.constant?, Context.valueIn, constants_harvest, find?_foldl_define]
  assigned := List.filter_sublist
  parted constant inTable := by
    rw [mem_scriptConstants, xor_iff_not_iff]
    simp [inTable]
  pins name pin := by
    simp only [mem_pinConstants_iff, constant?_harvest_eq_some, Binary64.pinNumber?_eq_some]
  pinsDistinct := by
    rw [Context.pinConstants]
    apply List.Nodup.sublist (sublist_pinNames _)
    exact (nodup_names source).sublist (List.filter_sublist.map Constant.name)

/-- The scan of a sketch accepts one list of definitions. The table has their names, each once, in the order of
their first definitions and with the values of the last ones. What the script assigns and the constants named
as pins part the table, and the pins' names lead to the numbers of pins that they have. -/
theorem constantTable_of_accepted (source : Text) :
    ∃ found, (∀ other, Accepts (tokenize source) other ↔ other = found) ∧
      IsTableOf found (Context.harvest source) :=
  ⟨definitions (tokenize source), fun _ => accepts_iff, isTableOf_harvest source⟩

end Breadboard.Script
