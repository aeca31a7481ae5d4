import Breadboard.Proofs.Script.ConditionTree
import Breadboard.Proofs.Script.PinAccess

set_option autoImplicit false

namespace Breadboard.Script

open Sketch (Token isWordChar isWordStart tokenize)

/-- The words that the script's language keeps for itself, its constants among them. -/
def languageWords : List Text :=
  reservedWords ++ ["False", "None", "True"].map String.toList

/-- The names that every script relies on. -/
def scriptNames : List Text :=
  ["time", "print", "machine"].map String.toList

/-- A pin object of a script can have the name. -/
structure Context.IsUsable (context : Context) (name : Text) : Prop where
  spelled : isIdentifier name = true
  notReserved : name ∉ languageWords
  notRelied : name ∉ scriptNames
  notConstant : ∀ constant ∈ context.scriptConstants, constant.name ≠ name

/-- A use of a pin and the name of the object that it asks for. -/
inductive AsksForName : PinUse → Text → Prop where
  | number {use : PinUse} {pin : Nat} (number : Text.pinNumber? use.reference = some pin) :
      AsksForName use (use.numberMark ++ Text.ofNat pin)
  | word {use : PinUse} {stem : Text} (word : isIdentifier use.reference = true)
      (isStem : IsStem use.reference stem) : AsksForName use (use.wordMark ++ lowercase stem)

/-- The reference is such a word in any capitals, with or without the mark of a pin behind it. -/
def SpellsWord (reference : Text) : Prop :=
  ∃ name, (reference = name ∨ reference = name ++ "_PIN".toList) ∧
    lowercase name ∈ languageWords ++ scriptNames

/-- What can be said of the name of a binding. -/
structure IsNamedBySpelling (context : Context) (binding : Binding) : Prop where
  spelled : isIdentifier binding.identifier = true
  small : ∀ c ∈ binding.identifier, c.isUpper = false
  usable : context.IsUsable binding.identifier ↔
    ¬ (binding.isAnalog = false ∧ SpellsWord binding.source) ∧
      ∀ constant ∈ context.scriptConstants, ¬ AsksForName binding.use constant.name

theorem name?_eq_some_iff {use : PinUse} {name : Text} : use.name? = some name ↔ AsksForName use name := by
  constructor
  · intro named
    rcases PinUse.exists_number_or_word named with ⟨pin, number, rfl⟩ | ⟨word, stem, isStem, rfl⟩
    · exact .number number
    · exact .word word isStem
  · intro asks
    cases asks with
    | number number => exact PinUse.name?_number number
    | word word isStem => exact PinUse.name?_word word isStem

theorem IsScriptName.not_isUpper {name : Text} (script : IsScriptName name) :
    ∀ c ∈ name, c.isUpper = false := by
  intro c member
  have small := List.all_eq_true.mp script.small c member
  rw [isSmallChar, Bool.and_eq_true, Bool.not_eq_true'] at small
  exact small.2

/-- Only the name for digital use of the mark of a pin itself is empty. -/
theorem AsksForName.ne_nil {use : PinUse} {name : Text} (asks : AsksForName use name)
    (notMark : use ≠ ⟨false, "_PIN".toList⟩) : name ≠ [] := by
  obtain ⟨analog, reference⟩ := use
  cases asks with
  | number number => cases analog <;> exact List.cons_ne_nil _ _
  | word word isStem =>
      cases analog with
      | true => exact List.cons_ne_nil _ _
      | false =>
          rw [PinUse.wordMark, if_neg Bool.false_ne_true, List.nil_append]
          intro empty
          rw [lowercase, List.map_eq_nil_iff] at empty
          cases isStem with
          | counted notEmpty number => exact notEmpty (List.append_eq_nil_iff.mp empty).1
          | marked base =>
              rw [empty] at notMark
              exact notMark rfl
          | plain notMarked notCounted =>
              rw [empty] at word
              cases word

/-- A word that is taken is not empty, has no digit and no underscore in it and does not start like the name of
an analog input. -/
theorem takenWord_letters {word : Text} (taken : word ∈ languageWords ++ scriptNames) :
    word ≠ [] ∧ (∀ c ∈ word, c.isDigit = false ∧ c ≠ '_') ∧ "adc".toList.isPrefixOf word = false := by
  have checked : (languageWords ++ scriptNames).all (fun word => !word.isEmpty &&
      word.all (fun c => !c.isDigit && c != '_') && !"adc".toList.isPrefixOf word) = true := by
    decide +kernel
  simpa [and_assoc] using List.all_eq_true.mp checked word taken

theorem not_mem_of_isDigit {name : Text} {c : Char} (member : c ∈ name) (digit : c.isDigit = true) :
    name ∉ languageWords ++ scriptNames := by
  intro taken
  have noDigit := ((takenWord_letters taken).2.1 c member).1
  rw [digit] at noDigit
  cases noDigit

theorem not_mem_append_ofNat (mark : Text) (n : Nat) :
    mark ++ Text.ofNat n ∉ languageWords ++ scriptNames := by
  obtain ⟨c, rest, digits⟩ := List.exists_cons_of_ne_nil (Text.ofNat_ne_nil n)
  have member : c ∈ Text.ofNat n := by rw [digits]; exact List.mem_cons_self
  exact not_mem_of_isDigit (List.mem_append_right _ member) (Text.isDigit_of_mem_ofNat member)

/-- The stem of a name in which no line stands is the name itself. -/
theorem isStem_self {name : Text} (noLine : '_' ∉ name) : IsStem name name := by
  refine .plain (fun base marked => noLine ?_) (fun base digits index _ _ counted => noLine ?_)
  · rw [marked]
    simp
  · rw [counted]
    simp

theorem not_line_mem_of_taken {name : Text} (taken : lowercase name ∈ languageWords ++ scriptNames) :
    '_' ∉ name := by
  intro line
  have inLowercase : '_' ∈ lowercase name := List.mem_map.mpr ⟨'_', line, by decide⟩
  exact ((takenWord_letters taken).2.1 '_' inLowercase).2 rfl

theorem exists_letter_of_taken {name : Text} (taken : lowercase name ∈ languageWords ++ scriptNames) :
    ∃ c ∈ name, c.isDigit = false := by
  obtain ⟨notEmpty, letters, -⟩ := takenWord_letters taken
  obtain ⟨c, rest, rfl⟩ := List.exists_cons_of_ne_nil fun empty : name = [] =>
    notEmpty (congrArg lowercase empty)
  refine ⟨c, List.mem_cons_self, Bool.eq_false_iff.mpr fun digit => ?_⟩
  have small := isSmallChar_of_isDigit digit
  rw [isSmallChar, Bool.and_eq_true, Bool.not_eq_true'] at small
  have same : c.toLower = c := toLower_of_not_isUpper small.2
  have noDigit := (letters c.toLower List.mem_cons_self).1
  rw [same, digit] at noDigit
  cases noDigit

/-- An object has the name of a taken word only if a name for digital use spells the word. -/
theorem AsksForName.taken_iff {use : PinUse} {name : Text} (asks : AsksForName use name) :
    name ∈ languageWords ++ scriptNames ↔ use.analog = false ∧ SpellsWord use.reference := by
  constructor
  · intro taken
    cases asks with
    | number number => exact absurd taken (not_mem_append_ofNat _ _)
    | @word stem word isStem =>
        obtain ⟨analog, reference⟩ := use
        cases analog with
        | true =>
            have marked := (takenWord_letters taken).2.2
            cases marked
        | false =>
            refine ⟨rfl, ?_⟩
            rw [PinUse.wordMark, if_neg Bool.false_ne_true, List.nil_append] at taken
            cases isStem with
            | counted notEmpty number =>
                rw [lowercase_append, lowercase_ofNat] at taken
                exact absurd taken (not_mem_append_ofNat _ _)
            | marked base => exact ⟨stem, Or.inr rfl, taken⟩
            | plain notMarked notCounted => exact ⟨reference, Or.inl rfl, taken⟩
  · rintro ⟨digital, word, spelled, taken⟩
    obtain ⟨c, member, letter⟩ := exists_letter_of_taken taken
    have inReference : c ∈ use.reference := by
      rcases spelled with same | same
      · rwa [same]
      · rw [same]
        exact List.mem_append_left _ member
    have isStem : IsStem use.reference word := by
      rcases spelled with same | same
      · rw [same]
        exact isStem_self (not_line_mem_of_taken taken)
      · rw [same]
        exact .marked word
    cases asks with
    | number number =>
        have digit := List.all_eq_true.mp (all_isDigit_of_pinNumber? number) c inReference
        rw [letter] at digit
        cases digit
    | word isWord other =>
        have named := (PinUse.name?_word isWord other).symm.trans (PinUse.name?_word isWord isStem)
        rw [Option.some.inj named, PinUse.wordMark, digital, if_neg Bool.false_ne_true, List.nil_append]
        exact taken

/-- The name of an object is a word in small letters. A script can use it unless the reference for digital use
spells a taken word or a constant of the script has the name that the use of the reference asks for. -/
theorem isNamedBySpelling_of_mem_harvest {source : Text} {binding : Binding}
    (member : binding ∈ (Context.harvest source).bindings) (notMark : binding.use ≠ ⟨false, "_PIN".toList⟩) :
    IsNamedBySpelling (Context.harvest source) binding := by
  have asks := name?_eq_some_iff.mp (Context.denotes_of_mem_harvest member).2
  have script := Context.hasScriptNames_harvest source binding member
  have spelled : isIdentifier binding.identifier = true := by
    rw [script.isIdentifier_iff, List.isEmpty_eq_false_iff.mpr (asks.ne_nil notMark)]
    rfl
  refine ⟨spelled, script.not_isUpper, ?_⟩
  have taken := asks.taken_iff
  rw [List.mem_append] at taken
  constructor
  · intro usable
    refine ⟨fun spells => ?_, fun constant isConstant other => ?_⟩
    · rcases taken.mpr spells with reserved | relied
      · exact usable.notReserved reserved
      · exact usable.notRelied relied
    · have same := (name?_eq_some_iff.mpr other).symm.trans (name?_eq_some_iff.mpr asks)
      exact usable.notConstant constant isConstant (Option.some.inj same)
  · rintro ⟨notSpelled, notConstant⟩
    refine ⟨spelled, fun reserved => notSpelled (taken.mp (Or.inl reserved)),
      fun relied => notSpelled (taken.mp (Or.inr relied)), fun constant isConstant same => ?_⟩
    refine notConstant constant isConstant ?_
    rw [same]
    exact asks

theorem isNamedBySpelling_namedPin :
    ∃ binding ∈ (Context.harvest namedPin).bindings, binding.use ≠ ⟨false, "_PIN".toList⟩ ∧
      IsNamedBySpelling (Context.harvest namedPin) binding ∧
      (Context.harvest namedPin).IsUsable binding.identifier := by
  obtain ⟨thirteen, -, harvested⟩ := harvest_namedPin
  have member : (⟨"pin13".toList, 13, .output, "13".toList⟩ : Binding) ∈
      (Context.harvest namedPin).bindings := by
    rw [harvested]
    exact List.mem_cons_self
  have notMark : (⟨"pin13".toList, 13, .output, "13".toList⟩ : Binding).use ≠ ⟨false, "_PIN".toList⟩ :=
    fun same => absurd (congrArg PinUse.reference same) (by decide)
  refine ⟨_, member, notMark, isNamedBySpelling_of_mem_harvest member notMark, ?_⟩
  refine ⟨by decide, by decide +kernel, by decide +kernel, ?_⟩
  rw [harvested]
  intro constant isConstant
  cases isConstant

/-- A pin whose name is a word of the script's language. -/
def wordPin : Text :=
  "#define IN_PIN 5\nvoid setup() \x7b pinMode(IN_PIN, OUTPUT); \x7d\n".toList

def wordPinTokens : List Token :=
  [⟨.punct, "#".toList⟩, ⟨.ident, "define".toList⟩, ⟨.space, " ".toList⟩,
    ⟨.ident, "IN_PIN".toList⟩, ⟨.space, " ".toList⟩, ⟨.number, "5".toList⟩,
    ⟨.space, "\n".toList⟩, ⟨.ident, "void".toList⟩, ⟨.space, " ".toList⟩, ⟨.ident, "setup".toList⟩,
    ⟨.punct, "(".toList⟩, ⟨.punct, ")".toList⟩, ⟨.space, " ".toList⟩, ⟨.punct, "\x7b".toList⟩,
    ⟨.space, " ".toList⟩, ⟨.ident, "pinMode".toList⟩, ⟨.punct, "(".toList⟩,
    ⟨.ident, "IN_PIN".toList⟩, ⟨.punct, ",".toList⟩, ⟨.space, " ".toList⟩,
    ⟨.ident, "OUTPUT".toList⟩, ⟨.punct, ")".toList⟩, ⟨.punct, ";".toList⟩, ⟨.space, " ".toList⟩,
    ⟨.punct, "\x7d".toList⟩, ⟨.space, "\n".toList⟩]

theorem bindings_wordPin :
    (Context.harvest wordPin).bindings = [⟨"in".toList, 5, .output, "IN_PIN".toList⟩] := by
  have tokens : tokenize wordPin = wordPinTokens := by
    cbv
  -- The number is kept as a variable, for its units are too many to be computed.
  obtain ⟨five, number, pin⟩ :
      ∃ five, numericLiteral? "5".toList = some five ∧ five.pinNumber? = some 5 :=
    ⟨_, @numericLiteral?_ofNat 5 (by decide), @Binary64.pinNumber?_ofNat 5 (by decide)⟩
  have found : definitions wordPinTokens =
      ((numericLiteral? "5".toList).map (Constant.mk "IN_PIN".toList)).toList := rfl
  have constants : constantTable wordPinTokens = [⟨"IN_PIN".toList, five⟩] := by
    rw [constantTable, found, number]
    rfl
  have calls : callsOf "pinMode" false wordPinTokens = [["IN_PIN".toList, "OUTPUT".toList]] := rfl
  have noAnalog : callsOf "analogRead" false wordPinTokens = [] := rfl
  have output : Context.digitalBinding? [⟨"IN_PIN".toList, five⟩] ["IN_PIN".toList, "OUTPUT".toList] =
      some ⟨"in".toList, 5, .output, "IN_PIN".toList⟩ := by
    show (five.pinNumber?.bind fun pin =>
      some (⟨"in".toList, pin, .output, "IN_PIN".toList⟩ : Binding)) = _
    rw [pin, Option.bind_some]
  rw [Context.harvest, tokens, Context.harvestTokens, constants, calls, noAnalog]
  simp only [List.filterMap_cons, List.filterMap_nil, output]
  rfl

/-- Its object would be called `in`. -/
theorem wordPin_not_usable :
    ∃ binding ∈ (Context.harvest wordPin).bindings, binding.identifier = "in".toList ∧
      binding.identifier ∈ languageWords ∧ ¬ (Context.harvest wordPin).IsUsable binding.identifier := by
  have reserved : "in".toList ∈ languageWords := by decide +kernel
  refine ⟨⟨"in".toList, 5, .output, "IN_PIN".toList⟩, ?_, rfl, reserved, fun usable =>
    usable.notReserved reserved⟩
  rw [bindings_wordPin]
  exact List.mem_cons_self

end Breadboard.Script
