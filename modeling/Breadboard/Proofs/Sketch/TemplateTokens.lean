import Breadboard.Proofs.Sketch.TemplateRows

set_option autoImplicit false

namespace Breadboard.Sketch

open Circuit (Wiring)

theorem isLexeme_wordToken {text : Text} (identifier : Script.isIdentifier text = true) :
    IsLexeme (wordToken text) := by
  cases text with
  | nil => cases identifier
  | cons c rest =>
      rw [Script.isIdentifier, Bool.and_eq_true] at identifier
      exact .word identifier.1 identifier.2

theorem PinLabel.isIdentifier_name (label : PinLabel) : Script.isIdentifier label.name = true := by
  rcases label with ⟨role, ordinal⟩
  cases ordinal with
  | none =>
      rw [PinLabel.name, Option.map_none, Option.getD_none, List.append_nil]
      exact Script.isIdentifier_pinSuffix role.isIdentifier_word
  | some n => exact Script.isIdentifier_counted role.isIdentifier_word n

theorem Role.isIdentifier_tag (role : Role) : Script.isIdentifier role.tag = true := by
  rcases role with _ | _ | kind
  · rfl
  · rfl
  · cases kind <;> decide

theorem PinLabel.isIdentifier_identifier (label : PinLabel) :
    Script.isIdentifier label.identifier = true := by
  refine Script.isIdentifier_append label.role.isIdentifier_tag ?_
  rw [PinLabel.number]
  cases label.ordinal with
  | none => rfl
  | some n => exact List.all_eq_true.mpr fun c member =>
      Script.isWordChar_of_isDigit (Text.isDigit_of_mem_ofNat member)

theorem PinLabel.isIdentifier_state (label : PinLabel) :
    Script.isIdentifier label.state = true :=
  Script.isIdentifier_append label.isIdentifier_identifier rfl

theorem like_word {first second : Text} (identifier : Script.isIdentifier second = true) :
    Token.Like (wordToken first) (wordToken second) :=
  .word rfl rfl (isLexeme_wordToken identifier)

theorem like_number (n : Nat) : Token.Like (numberToken 1) (numberToken n) := by
  cases digits : Text.ofNat n with
  | nil => exact absurd digits (Text.ofNat_ne_nil n)
  | cons d rest =>
      have all := Text.all_isDigit_ofNat n
      rw [numberToken, numberToken, digits]
      rw [digits] at all
      exact @Token.Like.number _ '1' d [] rest (by decide) rfl all

/-- Characters that are no quote, backslash or line break stay inside a literal. -/
theorem closesLiteral_append {quote : Char} {run : Text}
    (plain : run.all (fun c => c != '\\' && c != quote && c != '\n') = true) (rest : Text) :
    closesLiteral quote (run ++ rest) = closesLiteral quote rest := by
  induction run with
  | nil => rfl
  | cons c more ih =>
      simp only [List.all_cons, Bool.and_eq_true, bne_iff_ne, ne_eq] at plain
      obtain ⟨⟨⟨noEscape, noQuote⟩, noBreak⟩, others⟩ := plain
      rw [List.cons_append, closesLiteral]
      · rw [ih (by simpa only [List.all_eq_true] using others)]
        simp [noQuote, noBreak]
      · intro d tail same
        exact absurd same noEscape

theorem PinLabel.isDigit_of_mem_number {label : PinLabel} {c : Char} (member : c ∈ label.number) :
    c.isDigit = true := by
  rw [PinLabel.number] at member
  cases ordinal : label.ordinal with
  | none => simp [ordinal] at member
  | some n =>
      rw [ordinal] at member
      exact Text.isDigit_of_mem_ofNat member

def sampleLed : LabelledPin := ⟨⟨.led, some 1⟩, 1⟩

theorem like_message (labelled : LabelledPin) :
    Token.Like ⟨.literal, ['\x22', '\x22']⟩ ⟨.literal, pressedMessage labelled⟩ := by
  have closed : closesLiteral '\x22'
      ("Button ".toList ++ (labelled.label.number ++ (" pressed!".toList ++ ['\x22']))) = true := by
    rw [closesLiteral_append rfl, closesLiteral_append ?_, closesLiteral_append rfl]
    · rfl
    · refine List.all_eq_true.mpr fun c member => ?_
      have digit := PinLabel.isDigit_of_mem_number member
      simp only [Bool.and_eq_true, bne_iff_ne, ne_eq]
      exact ⟨⟨ne_of_holds digit rfl, ne_of_holds digit rfl⟩, ne_of_holds digit rfl⟩
  exact @Token.Like.literal '\x22' _ _ rfl closed

theorem isCut_defineCode (labelled : LabelledPin) : IsCut (defineCode labelled) := by
  have sample : IsCut (defineCode sampleLed) :=
    @isCut_of_tokenize_eq (render (defineCode sampleLed)) _ (by cbv) (by decide)
  exact sample.like (.cons (.same _) <| .cons (.same _) <| .cons (.same _) <|
    .cons (like_word labelled.label.isIdentifier_name) <| .cons (.same _) <|
    .cons (like_number labelled.pin) .nil)

theorem isCut_modeCode (mode : String) (labelled : LabelledPin)
    (identifier : Script.isIdentifier mode.toList = true) : IsCut (modeCode mode labelled) := by
  have sample : IsCut (modeCode "OUTPUT" sampleLed) :=
    @isCut_of_tokenize_eq (render (modeCode "OUTPUT" sampleLed)) _ (by cbv) (by decide)
  exact sample.like (.cons (.same _) <| .cons (.same _) <|
    .cons (like_word labelled.label.isIdentifier_name) <| .cons (.same _) <| .cons (.same _) <|
    .cons (like_word identifier) <| .cons (.same _) <| .cons (.same _) .nil)

theorem isCut_writeCode (level : String) (labelled : LabelledPin)
    (identifier : Script.isIdentifier level.toList = true) : IsCut (writeCode level labelled) := by
  have sample : IsCut (writeCode "HIGH" sampleLed) :=
    @isCut_of_tokenize_eq (render (writeCode "HIGH" sampleLed)) _ (by cbv) (by decide)
  exact sample.like (.cons (.same _) <| .cons (.same _) <|
    .cons (like_word labelled.label.isIdentifier_name) <| .cons (.same _) <| .cons (.same _) <|
    .cons (like_word identifier) <| .cons (.same _) <| .cons (.same _) .nil)

theorem isCut_beginCode (baud : Nat) : IsCut (beginCode baud) := by
  have sample : IsCut (beginCode 1) :=
    @isCut_of_tokenize_eq (render (beginCode 1)) _ (by cbv) (by decide)
  exact sample.like (.cons (.same _) <| .cons (.same _) <| .cons (.same _) <| .cons (.same _) <|
    .cons (like_number baud) <| .cons (.same _) <| .cons (.same _) .nil)

theorem isCut_delayCode (count : Nat) : IsCut (delayCode count) := by
  have sample : IsCut (delayCode 1) :=
    @isCut_of_tokenize_eq (render (delayCode 1)) _ (by cbv) (by decide)
  exact sample.like (.cons (.same _) <| .cons (.same _) <| .cons (like_number count) <|
    .cons (.same _) <| .cons (.same _) .nil)

theorem isCut_readCode (labelled : LabelledPin) : IsCut (readCode labelled) := by
  have sample : IsCut (readCode sampleLed) :=
    @isCut_of_tokenize_eq (render (readCode sampleLed)) _ (by cbv) (by decide)
  exact sample.like (.cons (.same _) <| .cons (.same _) <|
    .cons (like_word labelled.label.isIdentifier_state) <| .cons (.same _) <| .cons (.same _) <|
    .cons (.same _) <| .cons (.same _) <| .cons (.same _) <|
    .cons (like_word labelled.label.isIdentifier_name) <| .cons (.same _) <| .cons (.same _) .nil)

theorem isCut_pressedCode (labelled : LabelledPin) : IsCut (pressedCode labelled) := by
  have sample : IsCut (pressedCode sampleLed) :=
    @isCut_of_tokenize_eq (render (pressedCode sampleLed)) _ (by cbv) (by decide)
  exact sample.like (.cons (.same _) <| .cons (.same _) <| .cons (.same _) <|
    .cons (like_word labelled.label.isIdentifier_state) <| .cons (.same _) <| .cons (.same _) <|
    .cons (.same _) <| .cons (.same _) <| .cons (.same _) <| .cons (.same _) <|
    .cons (.same _) .nil)

theorem isCut_messageCode (labelled : LabelledPin) : IsCut (messageCode labelled) := by
  have sample : IsCut (callCode (serialMethod "println") [⟨.literal, ['\x22', '\x22']⟩]) :=
    @isCut_of_tokenize_eq "Serial.println(\"\");".toList _ (by cbv) (by decide)
  exact sample.like (.cons (.same _) <| .cons (.same _) <| .cons (.same _) <| .cons (.same _) <|
    .cons (like_message labelled) <| .cons (.same _) <| .cons (.same _) .nil)

theorem isCut_functionCode (name : String) (identifier : Script.isIdentifier name.toList = true) :
    IsCut (functionCode name) := by
  have sample : IsCut (functionCode "loop") :=
    @isCut_of_tokenize_eq (render (functionCode "loop")) _ (by cbv) (by decide)
  exact sample.like (.cons (.same _) <| .cons (.same _) <| .cons (like_word identifier) <|
    .cons (.same _) <| .cons (.same _) <| .cons (.same _) <| .cons (.same _) .nil)

theorem isCut_closingCode : IsCut closingCode :=
  @isCut_of_tokenize_eq (render closingCode) _ (by cbv) (by decide)

theorem isWritten_codeRow {lead : String} (blank : lead.toList.all isSpaceChar = true)
    {code : List Token} (cut : IsCut code) (starts : code.head?.any (·.kind != .space) = true)
    (ends : code.getLast?.any (·.kind != .space) = true) : (codeRow lead code).IsWritten where
  lead := blank
  gap := rfl
  cut := cut
  starts := fun token first => by
    simpa [show code.head? = some token from first] using starts
  ends := fun token last => by
    simpa [show code.getLast? = some token from last] using ends
  remark := fun _ isRemark => by cases isRemark
  apart := .inl rfl

theorem isWritten_remarkRow {lead : String} (blank : lead.toList.all isSpaceChar = true)
    {remark : Text} (oneLine : '\n' ∉ remark) : (remarkRow lead remark).IsWritten where
  lead := blank
  gap := rfl
  cut := ⟨by simp [remarkRow], .nil⟩
  starts := fun _ first => by cases first
  ends := fun _ last => by cases last
  remark := fun _ isRemark => by cases isRemark; exact oneLine
  apart := .inr (.inr rfl)

theorem isWritten_emptyRow : emptyRow.IsWritten where
  lead := rfl
  gap := rfl
  cut := ⟨by simp [emptyRow], .nil⟩
  starts := fun _ first => by cases first
  ends := fun _ last => by cases last
  remark := fun _ isRemark => by cases isRemark
  apart := .inl rfl

theorem Role.not_mem_prose (role : Role) : '\n' ∉ role.prose := by
  rcases role with _ | _ | kind
  · decide
  · decide
  · cases kind <;> decide

theorem isWritten_actuatorModeRow (labelled : LabelledPin) : (actuatorModeRow labelled).IsWritten where
  lead := rfl
  gap := rfl
  cut := isCut_modeCode "OUTPUT" labelled rfl
  starts := fun _ first => by cases first; decide
  ends := fun _ last => by
    obtain rfl := Option.some.inj last
    exact fun space => by cases space
  remark := fun _ isRemark => by
    cases isRemark
    simp [labelled.label.role.not_mem_prose]
  apart := .inr (.inl (by simp [actuatorModeRow]))

theorem PinLabel.not_mem_name (label : PinLabel) : '\n' ∉ label.name := by
  have identifier := label.isIdentifier_name
  cases name : label.name with
  | nil => simp
  | cons c rest =>
      rw [name, Script.isIdentifier, Bool.and_eq_true, List.all_eq_true] at identifier
      intro member
      rcases List.mem_cons.mp member with rfl | inRest
      · cases identifier.1
      · cases identifier.2 _ inRest

/-- The remarks with the blanks before them. -/
def templateRemarks : List (String × String) :=
  [("", " Auto-generated code based on circuit design"),
    ("", " Modify as needed for your specific application"),
    ("", " Pin definitions"),
    ("  ", " Initialize serial communication"),
    ("  ", " Setup LED pins as outputs"),
    ("  ", " Setup button pins as inputs with pullup"),
    ("  ", " Setup actuator pins as outputs"),
    ("  ", " Blink LED example"),
    ("  ", " Read button states"),
    ("  ", " Control actuators example (uncomment to use)")]

/-- Where a row stands: in the body of the loop or before it. -/
inductive Place where
  | head
  | loop
  deriving DecidableEq, Repr

/-- The kinds of rows in a generated sketch, without the row that opens the loop. -/
inductive IsTemplateRow : Place → Row → Prop where
  | empty {place : Place} : IsTemplateRow place emptyRow
  | remark {place : Place} {lead remark : String} (known : (lead, remark) ∈ templateRemarks) :
      IsTemplateRow place (remarkRow lead remark.toList)
  | closing {place : Place} {lead : String} (known : lead = "" ∨ lead = "  ") :
      IsTemplateRow place (codeRow lead closingCode)
  | define (labelled : LabelledPin) : IsTemplateRow .head (codeRow "" (defineCode labelled))
  | setup : IsTemplateRow .head (codeRow "" (functionCode "setup"))
  | serial (baud : Nat) : IsTemplateRow .head (codeRow "  " (beginCode baud))
  | mode {mode : String} (known : mode = "OUTPUT" ∨ mode = "INPUT_PULLUP") (labelled : LabelledPin) :
      IsTemplateRow .head (codeRow "  " (modeCode mode labelled))
  | actuatorMode (labelled : LabelledPin) : IsTemplateRow .head (actuatorModeRow labelled)
  | write {level : String} (known : level = "HIGH" ∨ level = "LOW") (labelled : LabelledPin) :
      IsTemplateRow .loop (codeRow "  " (writeCode level labelled))
  | delay (count : Nat) : IsTemplateRow .loop (codeRow "  " (delayCode count))
  | read (labelled : LabelledPin) : IsTemplateRow .loop (codeRow "  " (readCode labelled))
  | pressed (labelled : LabelledPin) : IsTemplateRow .loop (codeRow "  " (pressedCode labelled))
  | message (labelled : LabelledPin) : IsTemplateRow .loop (codeRow "    " (messageCode labelled))
  | switch {actuator : LabelledPin} {row : Row}
      (known : row ∈ actuatorRemarks actuator.label.role.prose actuator.definition) :
      IsTemplateRow .loop row

section

variable {wiring : Wiring} {settings : FirmwareSettings}

theorem isTemplateRow_partRows {place : Place} {lead remark : String}
    (known : (lead, remark) ∈ templateRemarks) {rows : List Row}
    (all : ∀ row ∈ rows, IsTemplateRow place row) :
    ∀ row ∈ partRows (remarkRow lead remark.toList) rows, IsTemplateRow place row := by
  intro row member
  rw [partRows] at member
  split at member
  · cases member
  · rw [List.mem_append, List.mem_cons, List.mem_singleton] at member
    rcases member with (rfl | inRows) | rfl
    · exact .remark known
    · exact all row inRows
    · exact .empty

theorem isTemplateRow_setupRows : ∀ row ∈ setupRows wiring settings, IsTemplateRow .head row := by
  unfold setupRows
  simp only [List.forall_mem_append, List.forall_mem_cons]
  exact ⟨⟨⟨⟨.remark (by decide), .serial _, .empty, by simp⟩,
    isTemplateRow_partRows (by decide) (List.forall_mem_map.mpr fun led _ => .mode (.inl rfl) led)⟩,
    isTemplateRow_partRows (by decide)
      (List.forall_mem_map.mpr fun button _ => .mode (.inr rfl) button)⟩,
    isTemplateRow_partRows (by decide)
      (List.forall_mem_map.mpr fun actuator _ => .actuatorMode actuator)⟩

theorem isTemplateRow_blinkRows (leds : List LabelledPin) :
    ∀ row ∈ blinkRows leds settings, IsTemplateRow .loop row := by
  rw [blinkRows]
  split
  · simp
  · simp only [List.forall_mem_append, List.forall_mem_singleton, List.forall_mem_map]
    exact ⟨⟨⟨fun led _ => .write (.inl rfl) led, .delay _⟩, fun led _ => .write (.inr rfl) led⟩,
      .delay _⟩

theorem isTemplateRow_loopRows : ∀ row ∈ loopRows wiring settings, IsTemplateRow .loop row := by
  have button : ∀ button ∈ buttonPins wiring, ∀ row ∈ buttonRows button,
      IsTemplateRow .loop row := by
    intro button _
    simp only [buttonRows, List.forall_mem_cons]
    exact ⟨.read button, .pressed button, .message button, .closing (.inr rfl), by simp⟩
  unfold loopRows
  simp only [List.forall_mem_append]
  exact ⟨⟨isTemplateRow_partRows (by decide) (isTemplateRow_blinkRows _),
    isTemplateRow_partRows (by decide) (List.forall_mem_flatMap.mpr button)⟩,
    isTemplateRow_partRows (by decide)
      (List.forall_mem_flatMap.mpr fun actuator _ row member => .switch member)⟩

theorem isTemplateRow_headRows : ∀ row ∈ headRows wiring settings, IsTemplateRow .head row := by
  unfold headRows
  simp only [List.forall_mem_append, List.forall_mem_cons]
  exact ⟨⟨⟨⟨⟨.remark (by decide), .remark (by decide), .empty, by simp⟩,
    isTemplateRow_partRows (by decide)
      (List.forall_mem_map.mpr fun labelled _ => .define labelled)⟩,
    .setup, by simp⟩, isTemplateRow_setupRows⟩, .closing (.inl rfl), .empty, by simp⟩

theorem forall_templateRows {P : Row → Prop} (loop : P (codeRow "" (functionCode "loop")))
    (others : ∀ place row, IsTemplateRow place row → P row) :
    ∀ row ∈ templateRows wiring settings, P row := by
  unfold templateRows
  simp only [List.forall_mem_append, List.forall_mem_singleton]
  exact ⟨⟨⟨fun row member => others .head row (isTemplateRow_headRows row member), loop⟩,
    fun row member => others .loop row (isTemplateRow_loopRows row member)⟩,
    others .loop _ (.closing (.inl rfl))⟩

end

theorem isWritten_actuatorRemarks (actuator : LabelledPin) :
    ∀ row ∈ actuatorRemarks actuator.label.role.prose actuator.definition, row.IsWritten := by
  have name := actuator.label.not_mem_name
  have prose := actuator.label.role.not_mem_prose
  have text : ∀ before after : String, '\n' ∉ before.toList → '\n' ∉ after.toList →
      '\n' ∉ before.toList ++ actuator.definition.name ++ after.toList ++
        actuator.label.role.prose := by
    intro before after inBefore inAfter member
    simp only [List.mem_append] at member
    rcases member with ((member | member) | member) | member
    · exact inBefore member
    · exact name member
    · exact inAfter member
    · exact prose member
  simp only [actuatorRemarks, List.forall_mem_cons]
  exact ⟨isWritten_remarkRow rfl (text _ _ (by decide) (by decide)),
    isWritten_remarkRow rfl (text _ _ (by decide) (by decide)), by simp⟩

theorem IsTemplateRow.isWritten {place : Place} {row : Row} (isRow : IsTemplateRow place row) :
    row.IsWritten := by
  cases isRow with
  | empty => exact isWritten_emptyRow
  | @remark _ lead remark known =>
      have plain : ∀ pair ∈ templateRemarks, pair.1.toList.all isSpaceChar = true ∧
          '\n' ∉ pair.2.toList := by decide
      exact isWritten_remarkRow (plain _ known).1 (plain _ known).2
  | switch known => exact isWritten_actuatorRemarks _ _ known
  | define labelled => exact isWritten_codeRow rfl (isCut_defineCode labelled) rfl rfl
  | setup => exact isWritten_codeRow rfl (isCut_functionCode "setup" rfl) rfl rfl
  | closing known =>
      rcases known with rfl | rfl <;> exact isWritten_codeRow rfl isCut_closingCode rfl rfl
  | serial baud => exact isWritten_codeRow rfl (isCut_beginCode baud) rfl rfl
  | mode known labelled =>
      rcases known with rfl | rfl <;>
        exact isWritten_codeRow rfl (isCut_modeCode _ labelled rfl) rfl rfl
  | actuatorMode labelled => exact isWritten_actuatorModeRow labelled
  | write known labelled =>
      rcases known with rfl | rfl <;>
        exact isWritten_codeRow rfl (isCut_writeCode _ labelled rfl) rfl rfl
  | delay count => exact isWritten_codeRow rfl (isCut_delayCode count) rfl rfl
  | read labelled => exact isWritten_codeRow rfl (isCut_readCode labelled) rfl rfl
  | pressed labelled => exact isWritten_codeRow rfl (isCut_pressedCode labelled) rfl rfl
  | message labelled => exact isWritten_codeRow rfl (isCut_messageCode labelled) rfl rfl

/-- What the sketch without its remarks is cut into. -/
theorem tokenize_template (wiring : Wiring) (settings : FirmwareSettings) :
    tokenize (stripComments (ofWiring wiring settings)) =
      Row.tokens [] (templateRows wiring settings) [] := by
  rw [ofWiring_eq]
  exact Row.tokenize_rows (forall_templateRows
    (isWritten_codeRow rfl (isCut_functionCode "loop" rfl) rfl rfl) fun _ _ isRow => isRow.isWritten)

end Breadboard.Sketch
