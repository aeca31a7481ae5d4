import Breadboard.Proofs.Binary64.Whole
import Breadboard.Proofs.Script.CallText
import Breadboard.Proofs.Sketch.TemplateTokens
import Breadboard.Proofs.Text.Trim
import Breadboard.Script.Call

set_option autoImplicit false

namespace Breadboard.Script

open Circuit (Wiring)
open Sketch hiding stripComments

/-- The token starts nothing that the converter harvests. -/
def isPassed (token : Token) : Bool :=
  !token.isPunct "#" && !token.isIdent "const" && !token.isIdent "pinMode" &&
    !token.isIdent "analogRead"

theorem isIdent_name (label : PinLabel) {word : String} (plain : '_' ∉ word.toList) :
    (wordToken label.name).isIdent word = false := by
  have line : '_' ∈ label.name := by simp [PinLabel.name, pinSuffix]
  simp only [Token.isIdent, wordToken, beq_self_eq_true, Bool.true_and, beq_eq_false_iff_ne]
  intro same
  exact plain (same ▸ line)

theorem isIdent_state (label : PinLabel) {word : String} (plain : 'S' ∉ word.toList) :
    (wordToken label.state).isIdent word = false := by
  have capital : 'S' ∈ label.state := by simp [PinLabel.state]
  simp only [Token.isIdent, wordToken, beq_self_eq_true, Bool.true_and, beq_eq_false_iff_ne]
  intro same
  exact plain (same ▸ capital)

theorem isPassed_name (label : PinLabel) : isPassed (wordToken label.name) = true := by
  rw [isPassed, isIdent_name label (by decide), isIdent_name label (by decide),
    isIdent_name label (by decide)]
  rfl

theorem isPassed_state (label : PinLabel) : isPassed (wordToken label.state) = true := by
  rw [isPassed, isIdent_state label (by decide), isIdent_state label (by decide),
    isIdent_state label (by decide)]
  rfl

/-- What the code of a row is to the converter. -/
inductive RowCode : List Token → Prop where
  | constant (labelled : LabelledPin) : RowCode (defineCode labelled)
  | mode {mode : String} (known : mode = "OUTPUT" ∨ mode = "INPUT_PULLUP") (labelled : LabelledPin) :
      RowCode (modeCode mode labelled)
  | passed {code : List Token} (all : code.all isPassed = true)
      (noDot : code.foldl isDotNext false = false) : RowCode code

theorem rowCode_of_isTemplateRow {place : Place} {row : Row} (isRow : IsTemplateRow place row) :
    RowCode row.code := by
  cases isRow with
  | empty => exact .passed rfl rfl
  | remark => exact .passed rfl rfl
  | switch known =>
      simp only [actuatorRemarks, List.mem_cons, List.not_mem_nil, or_false] at known
      rcases known with rfl | rfl <;> exact .passed rfl rfl
  | define labelled => exact .constant labelled
  | setup => exact .passed rfl rfl
  | closing => exact .passed rfl rfl
  | serial => exact .passed rfl rfl
  | mode known labelled => exact .mode known labelled
  | actuatorMode labelled => exact .mode (.inl rfl) labelled
  | write known labelled =>
      refine .passed ?_ rfl
      rcases known with rfl | rfl <;>
        simp only [codeRow, writeCode, callCode, twoWords, List.cons_append, List.nil_append,
          List.all_cons, isPassed_name] <;> rfl
  | delay => exact .passed rfl rfl
  | read labelled =>
      refine .passed ?_ rfl
      simp only [codeRow, readCode, callCode, List.cons_append, List.nil_append, List.all_cons,
        isPassed_name, isPassed_state]
      rfl
  | pressed labelled =>
      refine .passed ?_ rfl
      simp only [codeRow, pressedCode, pressedCondition, List.cons_append, List.nil_append,
        List.all_cons, isPassed_state]
      rfl
  | message => exact .passed rfl rfl

section

variable {code : List Token} (rest : List Token)

theorem definitions_blank (blank : Text) : definitions (blankTokens blank ++ rest) = definitions rest := by
  rw [blankTokens]
  split <;> rfl

theorem definitions_passed (all : code.all isPassed = true) :
    definitions (code ++ rest) = definitions rest := by
  induction code with
  | nil => rfl
  | cons token more ih =>
      rw [List.all_cons, Bool.and_eq_true] at all
      have passed := all.1
      simp only [isPassed, Bool.and_eq_true, Bool.not_eq_eq_eq_not, Bool.not_true] at passed
      rw [List.cons_append, definitions, passed.1.1.1, passed.1.1.2, ih all.2]
      rfl

/-- The constant that is read from the definition of a pin. -/
def constantOf (labelled : LabelledPin) : Constant :=
  ⟨labelled.label.name, Binary64.ofNat labelled.pin⟩

theorem passed_tail_defineCode (labelled : LabelledPin) :
    (defineCode labelled).tail.all isPassed = true := by
  simp only [defineCode, List.tail_cons, List.all_cons, isPassed_name]
  rfl

theorem passed_tail_modeCode {mode : String} (known : mode = "OUTPUT" ∨ mode = "INPUT_PULLUP")
    (labelled : LabelledPin) : (modeCode mode labelled).tail.all isPassed = true := by
  have modePassed : isPassed (wordToken mode.toList) = true := by rcases known with rfl | rfl <;> rfl
  simp only [modeCode, callCode, twoWords, List.cons_append, List.nil_append, List.tail_cons,
    List.all_cons, isPassed_name, modePassed]
  rfl

theorem macroConstant?_defineCode {labelled : LabelledPin} (small : labelled.pin < 2 ^ 53) :
    macroConstant? (defineCode labelled).tail = some (constantOf labelled) := by
  have number : signedNumber? [oneBlank, numberToken labelled.pin] =
      some (Binary64.ofNat labelled.pin) := numericLiteral?_ofNat small
  exact congrArg (Option.map (Constant.mk labelled.label.name)) number

theorem definitions_defineCode (labelled : LabelledPin) :
    definitions (defineCode labelled ++ rest) =
      (macroConstant? (defineCode labelled).tail).toList ++ definitions rest := by
  have unfolded : definitions (defineCode labelled ++ rest) =
      (macroConstant? (defineCode labelled).tail).toList ++
        definitions ((defineCode labelled).tail ++ rest) := rfl
  rw [unfolded, definitions_passed rest (passed_tail_defineCode labelled)]

theorem definitions_modeCode {mode : String} (known : mode = "OUTPUT" ∨ mode = "INPUT_PULLUP")
    (labelled : LabelledPin) : definitions (modeCode mode labelled ++ rest) = definitions rest := by
  have unfolded : definitions (modeCode mode labelled ++ rest) =
      definitions ((modeCode mode labelled).tail ++ rest) := rfl
  rw [unfolded, definitions_passed rest (passed_tail_modeCode known labelled)]

theorem callsOf_blank (name : String) (afterDot : Bool) (blank : Text) :
    callsOf name afterDot (blankTokens blank ++ rest) = callsOf name afterDot rest := by
  rw [blankTokens]
  split <;> rfl

theorem callsOf_passed {name : String} (known : name = "pinMode" ∨ name = "analogRead")
    (all : code.all isPassed = true) (afterDot : Bool) :
    callsOf name afterDot (code ++ rest) = callsOf name (code.foldl isDotNext afterDot) rest := by
  induction code generalizing afterDot with
  | nil => rfl
  | cons token more ih =>
      rw [List.all_cons, Bool.and_eq_true] at all
      have passed := all.1
      simp only [isPassed, Bool.and_eq_true, Bool.not_eq_eq_eq_not, Bool.not_true] at passed
      have other : token.isIdent name = false := by
        rcases known with rfl | rfl
        · exact passed.1.2
        · exact passed.2
      rw [List.cons_append, callsOf, other, Bool.false_and]
      exact ih all.2 _

theorem callsOf_modeCode {mode : String} (known : mode = "OUTPUT" ∨ mode = "INPUT_PULLUP")
    (labelled : LabelledPin) :
    callsOf "pinMode" false (modeCode mode labelled ++ rest) =
      [labelled.label.name, mode.toList] :: callsOf "pinMode" false rest := by
  have read : Sketch.arguments (twoWords labelled.label.name mode) =
      [labelled.label.name, mode.toList] := by
    have pieced : Sketch.arguments (twoWords labelled.label.name mode) =
        [Text.trim (labelled.label.name ++ []), Text.trim ([' '] ++ (mode.toList ++ []))] := rfl
    have modeWord : isIdentifier mode.toList = true := by rcases known with rfl | rfl <;> rfl
    rw [pieced, List.append_nil, List.append_nil, Text.trim_blank_append rfl, trim_identifier modeWord,
      trim_identifier labelled.label.isIdentifier_name]
  have unfolded : callsOf "pinMode" false (modeCode mode labelled ++ rest) =
      Sketch.arguments (twoWords labelled.label.name mode) ::
        callsOf "pinMode" false ((modeCode mode labelled).tail ++ rest) := rfl
  rw [unfolded, read, callsOf_passed rest (.inl rfl) (passed_tail_modeCode known labelled)]
  rfl

theorem RowCode.definitions_append (isCode : RowCode code) :
    definitions (code ++ rest) = definitions code ++ definitions rest := by
  have empty : definitions [] = [] := rfl
  cases isCode with
  | constant labelled =>
      have alone := definitions_defineCode [] labelled
      rw [List.append_nil, empty, List.append_nil] at alone
      rw [definitions_defineCode, alone]
  | mode known labelled =>
      have alone := definitions_modeCode [] known labelled
      rw [List.append_nil, empty] at alone
      rw [definitions_modeCode rest known, alone, List.nil_append]
  | passed all =>
      have alone := definitions_passed [] all
      rw [List.append_nil, empty] at alone
      rw [definitions_passed rest all, alone, List.nil_append]

theorem RowCode.callsOf_append (isCode : RowCode code) :
    callsOf "pinMode" false (code ++ rest) =
      callsOf "pinMode" false code ++ callsOf "pinMode" false rest := by
  have empty : ∀ afterDot, callsOf "pinMode" afterDot [] = [] := fun _ => rfl
  cases isCode with
  | constant labelled =>
      have tail := passed_tail_defineCode labelled
      have unfolded : ∀ more, callsOf "pinMode" false (defineCode labelled ++ more) =
          callsOf "pinMode" false ((defineCode labelled).tail ++ more) := fun _ => rfl
      have alone := unfolded []
      rw [callsOf_passed [] (.inl rfl) tail, List.append_nil, empty] at alone
      rw [unfolded, callsOf_passed rest (.inl rfl) tail, alone, List.nil_append]
      rfl
  | mode known labelled =>
      have alone := callsOf_modeCode [] known labelled
      rw [List.append_nil, empty] at alone
      rw [callsOf_modeCode rest known, alone]
      rfl
  | passed all noDot =>
      have alone := callsOf_passed [] (.inl rfl) all false
      rw [List.append_nil, empty] at alone
      rw [callsOf_passed rest (.inl rfl) all, noDot, alone, List.nil_append]

end

theorem passed_of_loop {row : Row} (isRow : IsTemplateRow .loop row) :
    row.code.all isPassed = true := by
  cases isRow with
  | empty => rfl
  | remark => rfl
  | closing => rfl
  | write known labelled =>
      rcases known with rfl | rfl <;>
        simp only [codeRow, writeCode, callCode, twoWords, List.cons_append, List.nil_append,
          List.all_cons, isPassed_name] <;> rfl
  | delay => rfl
  | read labelled =>
      simp only [codeRow, readCode, callCode, List.cons_append, List.nil_append, List.all_cons,
        isPassed_name, isPassed_state]
      rfl
  | pressed labelled =>
      simp only [codeRow, pressedCode, pressedCondition, List.cons_append, List.nil_append,
        List.all_cons, isPassed_state]
      rfl
  | message => rfl
  | switch known =>
      simp only [actuatorRemarks, List.mem_cons, List.not_mem_nil, or_false] at known
      rcases known with rfl | rfl <;> rfl

section

variable {wiring : Wiring} {settings : FirmwareSettings} {β : Type} {f : List Token → List β}

theorem flatMap_partRows (none : f [] = []) (lead : String) (remark : Text) (rows : List Row) :
    ((partRows (remarkRow lead remark) rows).flatMap fun row => f row.code) =
      rows.flatMap fun row => f row.code := by
  rw [partRows]
  split
  · rename_i empty
    rw [List.isEmpty_iff.mp empty]
  · simp [none]

/-- What is found row by row, if only definitions and pin modes hold something of it. -/
theorem flatMap_templateRows
    (passed : ∀ code : List Token, code.all isPassed = true → f code = []) :
    ((templateRows wiring settings).flatMap fun row => f row.code) =
      ((labelledPins wiring).flatMap fun labelled => f (defineCode labelled)) ++
        (((ledPins wiring).flatMap fun led => f (modeCode "OUTPUT" led)) ++
          ((buttonPins wiring).flatMap fun button => f (modeCode "INPUT_PULLUP" button)) ++
          (actuatorPins wiring).flatMap fun actuator => f (modeCode "OUTPUT" actuator)) := by
  have loop : ((loopRows wiring settings).flatMap fun row => f row.code) = [] :=
    List.flatMap_eq_nil_iff.mpr fun row member =>
      passed row.code (passed_of_loop (isTemplateRow_loopRows row member))
  have nothing := passed [] rfl
  have setup : f (functionCode "setup") = [] := passed _ rfl
  have opening : f (functionCode "loop") = [] := passed _ rfl
  have serial : f (beginCode settings.serialBaud) = [] := passed _ rfl
  have closing : f closingCode = [] := passed _ rfl
  unfold templateRows headRows setupRows
  simp only [List.flatMap_append, List.flatMap_cons, List.flatMap_nil, List.flatMap_map, loop,
    flatMap_partRows nothing, codeRow_code, remarkRow_code, emptyRow_code, actuatorModeRow_code,
    nothing, setup, opening, serial, closing, List.nil_append, List.append_nil, List.append_assoc]

end

theorem rowCode_templateRows (wiring : Wiring) (settings : FirmwareSettings) :
    ∀ row ∈ templateRows wiring settings, RowCode row.code :=
  forall_templateRows (.passed rfl rfl) fun _ _ isRow => rowCode_of_isTemplateRow isRow

/-- The pins are numbers that the board can have. -/
def Fits (pins : List LabelledPin) : Prop :=
  ∀ labelled ∈ pins, labelled.pin < Text.pinBound ∧
    ∀ n ∈ labelled.label.ordinal, n < Text.pinBound

theorem definitions_template {wiring : Wiring} (settings : FirmwareSettings)
    (fits : Fits (labelledPins wiring)) :
    definitions (Row.tokens [] (templateRows wiring settings) []) =
      (labelledPins wiring).map constantOf := by
  have folded := Row.fold_tokens (fun text rest => definitions_blank rest text)
    (fun row member rest => (rowCode_templateRows wiring settings row member).definitions_append rest)
    [] []
  have passed : ∀ code : List Token, code.all isPassed = true → definitions code = [] := by
    intro code all
    have alone := definitions_passed [] all
    rwa [List.append_nil] at alone
  have modes : ∀ mode : String, mode = "OUTPUT" ∨ mode = "INPUT_PULLUP" →
      ∀ pins : List LabelledPin, (pins.flatMap fun pin => definitions (modeCode mode pin)) = [] := by
    intro mode known pins
    refine List.flatMap_eq_nil_iff.mpr fun pin _ => ?_
    have alone := definitions_modeCode [] known pin
    rwa [List.append_nil] at alone
  have constants : ((labelledPins wiring).flatMap fun labelled => definitions (defineCode labelled)) =
      (labelledPins wiring).map constantOf := by
    rw [List.map_eq_flatMap]
    refine List.flatMap_congr fun labelled member => ?_
    have small := Nat.lt_trans (fits labelled member).1 Binary64.pinBound_lt
    have alone := definitions_defineCode [] labelled
    rw [List.append_nil, macroConstant?_defineCode small] at alone
    exact alone
  rw [folded, flatMap_templateRows passed, constants, modes _ (.inl rfl), modes _ (.inr rfl),
    modes _ (.inl rfl)]
  simp [definitions]

theorem calls_template (wiring : Wiring) (settings : FirmwareSettings) :
    callsOf "pinMode" false (Row.tokens [] (templateRows wiring settings) []) =
      ((ledPins wiring).map fun led => [led.label.name, "OUTPUT".toList]) ++
        ((buttonPins wiring).map fun button => [button.label.name, "INPUT_PULLUP".toList]) ++
        (actuatorPins wiring).map fun actuator => [actuator.label.name, "OUTPUT".toList] := by
  have folded := Row.fold_tokens (fun text rest => callsOf_blank rest "pinMode" false text)
    (fun row member rest => (rowCode_templateRows wiring settings row member).callsOf_append rest)
    [] []
  have empty : ∀ afterDot, callsOf "pinMode" afterDot [] = [] := fun _ => rfl
  have passed : ∀ code : List Token, code.all isPassed = true → callsOf "pinMode" false code = [] := by
    intro code all
    have alone := callsOf_passed [] (.inl rfl) all false
    rwa [List.append_nil, empty] at alone
  have constants : ((labelledPins wiring).flatMap fun labelled =>
      callsOf "pinMode" false (defineCode labelled)) = [] := by
    refine List.flatMap_eq_nil_iff.mpr fun labelled _ => ?_
    have unfolded : callsOf "pinMode" false (defineCode labelled) =
        callsOf "pinMode" false (defineCode labelled).tail := rfl
    rw [unfolded, passed _ (passed_tail_defineCode labelled)]
  have modes : ∀ mode : String, mode = "OUTPUT" ∨ mode = "INPUT_PULLUP" →
      ∀ pins : List LabelledPin, (pins.flatMap fun pin => callsOf "pinMode" false (modeCode mode pin)) =
        pins.map fun pin => [pin.label.name, mode.toList] := by
    intro mode known pins
    rw [List.map_eq_flatMap]
    refine List.flatMap_congr fun pin _ => ?_
    have alone := callsOf_modeCode [] known pin
    rwa [List.append_nil] at alone
  rw [folded, flatMap_templateRows passed, constants, modes _ (.inl rfl), modes _ (.inr rfl),
    modes _ (.inl rfl), empty, List.append_nil, List.nil_append]

theorem noAnalog_of_passed {tokens : List Token} (all : tokens.all isPassed = true) :
    ∀ token ∈ tokens, token.isIdent "analogRead" = false := by
  intro token member
  have passed := List.all_eq_true.mp all token member
  simp only [isPassed, Bool.and_eq_true, Bool.not_eq_eq_eq_not, Bool.not_true] at passed
  exact passed.2

theorem RowCode.noAnalog {code : List Token} (isCode : RowCode code) :
    ∀ token ∈ code, token.isIdent "analogRead" = false := by
  cases isCode with
  | constant labelled =>
      exact List.forall_mem_cons.mpr ⟨rfl, noAnalog_of_passed (passed_tail_defineCode labelled)⟩
  | mode known labelled =>
      exact List.forall_mem_cons.mpr ⟨rfl, noAnalog_of_passed (passed_tail_modeCode known labelled)⟩
  | passed all => exact noAnalog_of_passed all

/-- A generated sketch reads nothing as analog. -/
theorem noAnalog_template (wiring : Wiring) (settings : FirmwareSettings) :
    ∀ token ∈ Row.tokens [] (templateRows wiring settings) [],
      token.isIdent "analogRead" = false := by
  intro token member
  rcases Row.mem_tokens member with space | ⟨row, inRows, inCode⟩ | inRest
  · simp [Token.isIdent, space]
  · exact (rowCode_templateRows wiring settings row inRows).noAnalog token inCode
  · cases inRest

theorem foldl_define {table constants : List Constant}
    (nodup : ((table ++ constants).map Constant.name).Nodup) :
    constants.foldl define table = table ++ constants := by
  induction constants generalizing table with
  | nil => rw [List.foldl_nil, List.append_nil]
  | cons constant rest ih =>
      have new : (table.any fun entry => entry.name == constant.name) = false := by
        rw [List.any_eq_false]
        intro entry member same
        rw [List.map_append, List.map_cons, List.nodup_append] at nodup
        exact nodup.2.2 entry.name (List.mem_map_of_mem member) constant.name List.mem_cons_self
          (beq_iff_eq.mp same)
      have grown : define table constant = table ++ [constant] := by
        rw [define, new]
        rfl
      rw [List.foldl_cons, grown, ih (by simpa using nodup)]
      simp

theorem constantTable_of_nodup {tokens : List Token} {constants : List Constant}
    (found : definitions tokens = constants) (nodup : (constants.map Constant.name).Nodup) :
    constantTable tokens = constants := by
  rw [constantTable, found]
  exact foldl_define nodup

theorem valueIn_of_nodup {constants : List Constant} (nodup : (constants.map Constant.name).Nodup)
    {constant : Constant} (member : constant ∈ constants) :
    Context.valueIn constants constant.name = some constant.value := by
  induction constants with
  | nil => cases member
  | cons first rest ih =>
      rw [List.map_cons, List.nodup_cons] at nodup
      rw [Context.valueIn, List.find?_cons]
      rcases List.mem_cons.mp member with rfl | inRest
      · simp
      · have other : (first.name == constant.name) = false := by
          rw [beq_eq_false_iff_ne]
          intro same
          exact nodup.1 (same ▸ List.mem_map_of_mem inRest)
        rw [other]
        exact ih nodup.2 inRest

end Breadboard.Script
