import Breadboard.Proofs.Script.ScriptName
import Breadboard.Proofs.Text.Numeral

set_option autoImplicit false

/- Reading the names that constants of pins have: a base before `_PIN`, with or without a number behind it. -/
namespace Breadboard.Script

open Sketch

theorem splitLastUnderscore?_append {after : Text} (plain : '_' ∉ after) (before : Text) :
    splitLastUnderscore? (before ++ '_' :: after) = some (before, after) := by
  have back : ∀ c ∈ after.reverse, (c != '_') = true := by
    intro c member
    simp only [bne_iff_ne, ne_eq]
    rintro rfl
    exact plain (List.mem_reverse.mp member)
  have turned : (before ++ '_' :: after).reverse = after.reverse ++ '_' :: before.reverse := by simp
  rw [splitLastUnderscore?, turned, List.span_eq_takeWhile_dropWhile,
    List.takeWhile_append_of_pos back, List.dropWhile_append_of_pos back]
  simp

theorem isWordChar_of_isDigit {c : Char} (digit : c.isDigit = true) : isWordChar c = true := by
  simp [isWordChar, Char.isAlphanum, digit]

section

variable {base : Text}

theorem isSuffixOf?_pinSuffix (base : Text) : pinSuffix.isSuffixOf? (base ++ pinSuffix) = some base :=
  List.isSuffixOf?_eq_some_iff_append_eq.mpr rfl

theorem splitIndexed?_counted (notEmpty : base ≠ []) {index : Nat} (below : index < Text.pinBound) :
    splitIndexed? (base ++ pinSuffix ++ '_' :: Text.ofNat index) = some (base, index) := by
  have isEmpty : base.isEmpty = false := by simpa using notEmpty
  simp only [splitIndexed?, splitLastUnderscore?_append (Text.not_mem_ofNat rfl index),
    Option.bind_eq_bind, Option.bind_some, Text.pinNumber?_ofNat below, isSuffixOf?_pinSuffix, isEmpty,
    Bool.false_eq_true, if_false]

theorem splitIndexed?_pinSuffix (base : Text) : splitIndexed? (base ++ pinSuffix) = none := by
  have split : splitLastUnderscore? (base ++ pinSuffix) = some (base, "PIN".toList) :=
    @splitLastUnderscore?_append "PIN".toList (by decide) base
  have noNumber : Text.pinNumber? "PIN".toList = none :=
    Text.pinNumber?_eq_none (c := 'P') (by decide) rfl
  simp only [splitIndexed?, split, Option.bind_eq_bind, Option.bind_some, noNumber, Option.bind_none]

theorem isIdentifier_append {more : Text} (identifier : isIdentifier base = true)
    (words : more.all isWordChar = true) : isIdentifier (base ++ more) = true := by
  cases base with
  | nil => cases identifier
  | cons c rest =>
      rw [isIdentifier, Bool.and_eq_true] at identifier
      rw [List.cons_append, isIdentifier, identifier.1, List.all_append, identifier.2, words]
      rfl

theorem isIdentifier_pinSuffix (identifier : isIdentifier base = true) :
    isIdentifier (base ++ pinSuffix) = true :=
  isIdentifier_append identifier (by decide)

theorem isIdentifier_counted (identifier : isIdentifier base = true) (index : Nat) :
    isIdentifier (base ++ pinSuffix ++ '_' :: Text.ofNat index) = true := by
  refine isIdentifier_append (isIdentifier_pinSuffix identifier) ?_
  rw [List.all_cons, Bool.and_eq_true]
  exact ⟨rfl, List.all_eq_true.mpr fun c member =>
    isWordChar_of_isDigit (Text.isDigit_of_mem_ofNat member)⟩

theorem ne_nil_of_isIdentifier (identifier : isIdentifier base = true) : base ≠ [] := by
  rintro rfl
  cases identifier

/-- A numbered name of a pin refers to its base and its number. -/
theorem pinRef?_counted (identifier : isIdentifier base = true) {index : Nat}
    (below : index < Text.pinBound) :
    PinRef.ofText? (base ++ pinSuffix ++ '_' :: Text.ofNat index) = some (.indexed base index) := by
  have noNumber : Text.pinNumber? (base ++ pinSuffix ++ '_' :: Text.ofNat index) = none :=
    Text.pinNumber?_eq_none (c := '_') (by simp) rfl
  rw [PinRef.ofText?, noNumber]
  simp only [isIdentifier_counted identifier, if_true,
    splitIndexed?_counted (ne_nil_of_isIdentifier identifier) below]

/-- A name of a pin without a number refers to itself. -/
theorem pinRef?_pinSuffix (identifier : isIdentifier base = true) :
    PinRef.ofText? (base ++ pinSuffix) = some (.named (base ++ pinSuffix)) := by
  have noNumber : Text.pinNumber? (base ++ pinSuffix) = none :=
    Text.pinNumber?_eq_none (c := '_') (by simp [pinSuffix]) rfl
  rw [PinRef.ofText?, noNumber]
  simp only [isIdentifier_pinSuffix identifier, if_true, splitIndexed?_pinSuffix]

theorem identifier_pinSuffix (base : Text) :
    PinRef.identifier (.named (base ++ pinSuffix)) = lowercase base := by
  rw [PinRef.identifier, isSuffixOf?_pinSuffix, Option.getD_some]

theorem isPinConstant_counted (notEmpty : base ≠ []) {index : Nat} (below : index < Text.pinBound) :
    isPinConstant (base ++ pinSuffix ++ '_' :: Text.ofNat index) = true := by
  rw [isPinConstant, splitIndexed?_counted notEmpty below, Option.isSome_some, Bool.or_true]

theorem isPinConstant_pinSuffix (base : Text) : isPinConstant (base ++ pinSuffix) = true := by
  rw [isPinConstant, ← List.isSome_isSuffixOf?_eq_isSuffixOf, isSuffixOf?_pinSuffix]
  rfl

end

end Breadboard.Script
