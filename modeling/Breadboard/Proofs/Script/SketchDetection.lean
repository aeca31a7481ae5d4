import Breadboard.Proofs.Sketch.TemplateTokens
import Breadboard.Proofs.Text.Pair
import Breadboard.Script.Conversion

set_option autoImplicit false

namespace Breadboard.Script

open Circuit (Wiring)
open Sketch hiding stripComments

section

variable {place : Place} {row : Row}

theorem avoidsPair_number (label : PinLabel) : Text.avoidsPair 'i' 'm' label.number = true :=
  Text.avoidsPair_of_not_mem fun member => by
    have digit := PinLabel.isDigit_of_mem_number member
    cases digit

theorem avoidsPair_name (label : PinLabel) : Text.avoidsPair 'i' 'm' label.name = true := by
  have word : Text.avoidsPair 'i' 'm' label.role.word = true := by
    rcases label.role with _ | _ | kind
    · rfl
    · rfl
    · cases kind <;> rfl
  refine Text.avoidsPair_append (Text.avoidsPair_append word rfl) ?_
  cases label.ordinal with
  | none => rfl
  | some n =>
      refine Text.avoidsPair_of_not_mem fun member => ?_
      rcases List.mem_cons.mp member with line | inNumber
      · cases line
      · cases Text.isDigit_of_mem_ofNat inNumber

theorem avoidsPair_state (label : PinLabel) : Text.avoidsPair 'i' 'm' label.state = true := by
  have tag : Text.avoidsPair 'i' 'm' label.role.tag = true := by
    rcases label.role with _ | _ | kind
    · rfl
    · rfl
    · cases kind <;> rfl
  exact Text.avoidsPair_append (Text.avoidsPair_append tag (avoidsPair_number label)) rfl

theorem avoidsPair_ofNat (n : Nat) : Text.avoidsPair 'i' 'm' (Text.ofNat n) = true :=
  Text.avoidsPair_of_not_mem (Text.not_mem_ofNat rfl n)

theorem avoidsPair_prose (role : Role) : Text.avoidsPair 'i' 'm' role.prose = true := by
  rcases role with _ | _ | kind
  · rfl
  · rfl
  · cases kind <;> rfl

theorem avoidsPair_message (labelled : LabelledPin) :
    Text.avoidsPair 'i' 'm' (pressedMessage labelled) = true :=
  Text.avoidsPair_append (Text.avoidsPair_append rfl (avoidsPair_number _)) rfl

theorem avoidsPair_text {code : List Token}
    (each : ∀ token ∈ code, Text.avoidsPair 'i' 'm' token.text = true) {lead gap : Text}
    (leadAvoids : Text.avoidsPair 'i' 'm' lead = true)
    (gapAvoids : Text.avoidsPair 'i' 'm' gap = true) {remark : Option Text}
    (remarkAvoids : ∀ text ∈ remark, Text.avoidsPair 'i' 'm' text = true) :
    Text.avoidsPair 'i' 'm' (Row.text ⟨lead, code, gap, remark⟩) = true := by
  refine Text.avoidsPair_append (Text.avoidsPair_append (Text.avoidsPair_append
    (Text.avoidsPair_append leadAvoids (Text.avoidsPair_flatMap each)) gapAvoids) ?_) rfl
  cases remark with
  | none => rfl
  | some text =>
      exact Text.avoidsPair_append (show Text.avoidsPair 'i' 'm' ['/', '/'] = true from rfl)
        (remarkAvoids text rfl)

theorem avoidsPair_codeRow {lead : String} (leadAvoids : Text.avoidsPair 'i' 'm' lead.toList = true)
    {code : List Token} (each : ∀ token ∈ code, Text.avoidsPair 'i' 'm' token.text = true) :
    Text.avoidsPair 'i' 'm' (codeRow lead code).text = true :=
  avoidsPair_text each leadAvoids rfl fun _ isRemark => by cases isRemark

theorem avoidsPair_remarkRow {lead : String} (leadAvoids : Text.avoidsPair 'i' 'm' lead.toList = true)
    {remark : Text} (remarkAvoids : Text.avoidsPair 'i' 'm' remark = true) :
    Text.avoidsPair 'i' 'm' (remarkRow lead remark).text = true := by
  refine avoidsPair_text (by simp) leadAvoids rfl fun text isRemark => ?_
  cases isRemark
  exact remarkAvoids

theorem avoidsPair_templateRemark {lead remark : String} (known : (lead, remark) ∈ templateRemarks) :
    Text.avoidsPair 'i' 'm' (remarkRow lead remark.toList).text = true := by
  have plain : ∀ pair ∈ templateRemarks, Text.avoidsPair 'i' 'm' pair.1.toList = true ∧
      Text.avoidsPair 'i' 'm' pair.2.toList = true := by decide
  exact avoidsPair_remarkRow (plain _ known).1 (plain _ known).2

theorem avoidsPair_actuatorRemark {actuator : LabelledPin}
    (known : row ∈ actuatorRemarks actuator.label.role.prose actuator.definition) :
    Text.avoidsPair 'i' 'm' row.text = true := by
  have written {before after : Text} (beforeAvoids : Text.avoidsPair 'i' 'm' before = true)
      (afterAvoids : Text.avoidsPair 'i' 'm' after = true) :
      Text.avoidsPair 'i' 'm' (before ++ actuator.definition.name ++ after ++
        actuator.label.role.prose) = true :=
    Text.avoidsPair_append (Text.avoidsPair_append (Text.avoidsPair_append beforeAvoids
      (avoidsPair_name _)) afterAvoids) (avoidsPair_prose _)
  simp only [actuatorRemarks, List.mem_cons, List.not_mem_nil, or_false] at known
  rcases known with rfl | rfl <;> exact avoidsPair_remarkRow rfl (written rfl rfl)

/-- No row holds the letters that `import` starts with. -/
theorem avoidsPair_of_isTemplateRow (isRow : IsTemplateRow place row) :
    Text.avoidsPair 'i' 'm' row.text = true := by
  cases isRow with
  | empty => rfl
  | remark known => exact avoidsPair_templateRemark known
  | switch known => exact avoidsPair_actuatorRemark known
  | define labelled =>
      refine avoidsPair_codeRow rfl ?_
      simp only [defineCode, List.forall_mem_cons]
      exact ⟨rfl, rfl, rfl, avoidsPair_name _, rfl, avoidsPair_ofNat _, by simp⟩
  | setup => rfl
  | closing known => rcases known with rfl | rfl <;> rfl
  | serial baud =>
      refine avoidsPair_codeRow rfl ?_
      simp only [beginCode, callCode, serialMethod, List.cons_append, List.nil_append,
        List.forall_mem_cons]
      exact ⟨rfl, rfl, rfl, rfl, avoidsPair_ofNat _, rfl, rfl, by simp⟩
  | mode known labelled =>
      refine avoidsPair_codeRow rfl ?_
      simp only [modeCode, callCode, twoWords, List.cons_append, List.nil_append,
        List.forall_mem_cons]
      rcases known with rfl | rfl <;>
        exact ⟨rfl, rfl, avoidsPair_name _, rfl, rfl, rfl, rfl, rfl, by simp⟩
  | actuatorMode labelled =>
      refine avoidsPair_text ?_ rfl rfl fun text isRemark => ?_
      · simp only [modeCode, callCode, twoWords, List.cons_append, List.nil_append,
          List.forall_mem_cons]
        exact ⟨rfl, rfl, avoidsPair_name _, rfl, rfl, rfl, rfl, rfl, by simp⟩
      · cases isRemark
        exact Text.avoidsPair_append (show Text.avoidsPair 'i' 'm' [' '] = true from rfl)
          (avoidsPair_prose _)
  | write known labelled =>
      refine avoidsPair_codeRow rfl ?_
      simp only [writeCode, callCode, twoWords, List.cons_append, List.nil_append,
        List.forall_mem_cons]
      rcases known with rfl | rfl <;>
        exact ⟨rfl, rfl, avoidsPair_name _, rfl, rfl, rfl, rfl, rfl, by simp⟩
  | delay count =>
      refine avoidsPair_codeRow rfl ?_
      simp only [delayCode, callCode, List.cons_append, List.nil_append, List.forall_mem_cons]
      exact ⟨rfl, rfl, avoidsPair_ofNat _, rfl, rfl, by simp⟩
  | read labelled =>
      refine avoidsPair_codeRow rfl ?_
      simp only [readCode, callCode, List.cons_append, List.nil_append, List.forall_mem_cons]
      exact ⟨rfl, rfl, avoidsPair_state _, rfl, rfl, rfl, rfl, rfl, avoidsPair_name _, rfl, rfl,
        by simp⟩
  | pressed labelled =>
      refine avoidsPair_codeRow rfl ?_
      simp only [pressedCode, pressedCondition, List.cons_append, List.nil_append,
        List.forall_mem_cons]
      exact ⟨rfl, rfl, rfl, avoidsPair_state _, rfl, rfl, rfl, rfl, rfl, rfl, rfl, by simp⟩
  | message labelled =>
      refine avoidsPair_codeRow rfl ?_
      simp only [messageCode, callCode, serialMethod, List.cons_append, List.nil_append,
        List.forall_mem_cons]
      exact ⟨rfl, rfl, rfl, rfl, avoidsPair_message _, rfl, rfl, by simp⟩

end

/-- A generated sketch is not taken for a script. -/
theorem isScript_template (wiring : Wiring) (settings : FirmwareSettings) :
    isScript (ofWiring wiring settings) = false := by
  have avoids : Text.avoidsPair 'i' 'm' (ofWiring wiring settings) = true := by
    rw [ofWiring_eq]
    exact Text.avoidsPair_flatMap
      (forall_templateRows rfl fun _ _ isRow => avoidsPair_of_isTemplateRow isRow)
  have whole := @Text.occursIn_eq_false 'i' 'm' "from machine import".toList "from machine ".toList
    "port".toList _ rfl avoids
  have part := @Text.occursIn_eq_false 'i' 'm' "import machine".toList [] "port machine".toList _
    rfl avoids
  rw [isScript, whole, part, Bool.or_false]

end Breadboard.Script
