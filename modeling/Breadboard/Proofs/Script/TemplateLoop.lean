import Breadboard.Proofs.Script.LoopStatements
import Breadboard.Proofs.Script.TemplateLine

set_option autoImplicit false

namespace Breadboard.Script

open Circuit (Wiring)
open Sketch hiding stripComments

/-- The tokens of the rows behind the gap are a block whose statements are cut into these pieces. -/
def HasUnits (context : Context) (gap : Gap) (rows : List Row) (units : List Text) : Prop :=
  ∃ block : Block context, block.tokens = Row.tokens gap.text rows [] ∧
    (∀ statement ∈ block.statements, statement.StartsFresh) ∧
    block.statements.map Statement.unit = units

/-- The rows add their pieces to those of the rows behind them. -/
def Yields (context : Context) (rows : List Row) (units : List Text) : Prop :=
  ∀ (others : List Row) (more : List Text), (∀ gap, HasUnits context gap others more) →
    ∀ gap, HasUnits context gap (rows ++ others) (units ++ more)

section

variable {context : Context}

theorem hasUnits_nil (gap : Gap) : HasUnits context gap [] [] :=
  ⟨.done gap, (List.append_nil _).symm, by simp [Block.statements], rfl⟩

theorem Yields.nil : Yields context [] [] := fun _ _ behind gap => behind gap

theorem Yields.append {rows others : List Row} {units more : List Text}
    (first : Yields context rows units) (second : Yields context others more) :
    Yields context (rows ++ others) (units ++ more) := by
  intro last pieces behind gap
  rw [List.append_assoc, List.append_assoc]
  exact first _ _ (second _ _ behind) gap

theorem Yields.flatMap {α : Type} {items : List α} {rows : α → List Row} {units : α → List Text}
    (each : ∀ item ∈ items, Yields context (rows item) (units item)) :
    Yields context (items.flatMap rows) (items.flatMap units) := by
  induction items with
  | nil => exact .nil
  | cons item rest ih =>
      rw [List.flatMap_cons, List.flatMap_cons]
      exact (each item List.mem_cons_self).append
        (ih fun other member => each other (List.mem_cons_of_mem _ member))

/-- A row without code lengthens the gap. -/
theorem Yields.silent {row : Row} (written : row.IsWritten) (noCode : row.code = []) :
    Yields context [row] [] := by
  intro others more behind gap
  obtain ⟨block, tokens, found⟩ := behind ⟨_, written.all_cleaned noCode gap.blank⟩
  refine ⟨block, ?_, found⟩
  rw [tokens, List.singleton_append, Row.tokens, noCode]
  rfl

/-- Code behind a gap and in front of a line break. -/
theorem tokens_codeRow (pending : Text) (lead : String) {code : List Token} (hasCode : code ≠ [])
    (others : List Row) :
    Row.tokens pending (codeRow lead code :: others) [] =
      blankTokens (pending ++ lead.toList) ++ (code ++ Row.tokens ['\n'] others []) := by
  have notEmpty : code.isEmpty = false := List.isEmpty_eq_false_iff.mpr hasCode
  rw [Row.tokens, codeRow_code, notEmpty, if_neg Bool.false_ne_true]
  rfl

/-- A statement behind more blanks. -/
def Gap.extend (gap : Gap) {lead : Text} (blank : lead.all isSpaceChar = true) : Gap :=
  ⟨gap.text ++ lead, by rw [List.all_append, gap.blank, blank]; rfl⟩

theorem dedented_outermost (text : Text) : ScriptLine.dedented ⟨0, text⟩ = text := rfl

theorem unit_simple (code : Simple context) :
    (Statement.simple code).unit = convertLine context code.source :=
  List.append_nil _

theorem isContinuation_eq_false {text : Text} (first : text.head? ≠ some 'e') :
    isContinuation text = false := by
  cases text with
  | nil => rfl
  | cons c rest =>
      have other : ('e' == c) = false := by
        rw [beq_eq_false_iff_ne]
        rintro rfl
        exact first rfl
      have apart (word : Text) : (('e' :: word).isPrefixOf (c :: rest)) = false := by
        rw [List.isPrefixOf, other, Bool.false_and]
      show (('e' :: "lif ".toList).isPrefixOf _ || ('e' :: "lif:".toList).isPrefixOf _ ||
        ('e' :: "lse:".toList).isPrefixOf _) = false
      rw [apart, apart, apart]
      rfl

/-- A row with a statement yields its line. -/
theorem Yields.simple {lead : String} (blank : lead.toList.all isSpaceChar = true)
    {code : List Token} (isCode : IsStatementCode code) {text : Text}
    (line : convertLine context (render code) = text) (notEmpty : text ≠ [])
    (first : text.head? ≠ some 'e') : Yields context [codeRow lead code] [text] := by
  intro others more behind gap
  obtain ⟨block, tokens, fresh, units⟩ := behind .lineBreak
  have converts : convertLine context (render code) ≠ [] := line ▸ notEmpty
  have hasCode : code ≠ [] := by
    rw [← isCode.ends]
    exact List.append_ne_nil_of_right_ne_nil _ (List.cons_ne_nil _ _)
  refine ⟨.cons (gap.extend blank) (.simple (.ofCode isCode converts)) block, ?_, ?_, ?_⟩
  · rw [Block.tokens, Statement.tokens, Simple.tokens_ofCode, tokens, List.singleton_append,
      tokens_codeRow _ _ hasCode]
    rfl
  · refine List.forall_mem_cons.mpr ⟨?_, fresh⟩
    rw [Statement.StartsFresh, Simple.source_ofCode, line]
    exact isContinuation_eq_false first
  · rw [Block.statements, List.map_cons, units, unit_simple, Simple.source_ofCode, line]
    rfl

theorem Yields.partRows {heading : Row} (written : heading.IsWritten) (noCode : heading.code = [])
    {rows : List Row} {units : List Text} (body : Yields context rows units) :
    Yields context (partRows heading rows) units := by
  unfold Sketch.partRows
  split
  · rename_i empty
    rwa [List.isEmpty_iff.mp empty] at body
  · have whole := ((silent written noCode).append body).append
      (silent isWritten_emptyRow rfl)
    simpa using whole

end

theorem inLine_of_isIdentifier {text : Text} (identifier : isIdentifier text = true) :
    text.all isLineChar = true :=
  List.all_eq_true.mpr fun c member => isLineChar_of_isWordChar
    (List.all_eq_true.mp (all_isWordChar_of_isIdentifier identifier) c member)

theorem inLine_of_isDigit {text : Text} (digits : ∀ c ∈ text, c.isDigit = true) :
    text.all isLineChar = true :=
  List.all_eq_true.mpr fun c member => isLineChar_of_isWordChar
    (isWordChar_of_isDigit (digits c member))

theorem unmarked_of_all {tokens : List Token}
    (all : (tokens.all fun token => !token.isBlockMark) = true) :
    ∀ token ∈ tokens, token.isBlockMark = false := fun token member => by
  simpa using List.all_eq_true.mp all token member

theorem isStatementCode_writeCode {level : String} (known : level = "HIGH" ∨ level = "LOW")
    (labelled : LabelledPin) : IsStatementCode (writeCode level labelled) where
  ends := rfl
  cut := isCut_writeCode level labelled (by rcases known with rfl | rfl <;> rfl)
  inLine := by
    have levelInLine : level.toList.all isLineChar = true := by
      rcases known with rfl | rfl <;> decide
    refine List.forall_mem_cons.mpr ⟨by decide, List.forall_mem_cons.mpr ⟨by decide,
      List.forall_mem_cons.mpr ⟨inLine_of_isIdentifier labelled.label.isIdentifier_name, ?_⟩⟩⟩
    refine List.forall_mem_cons.mpr ⟨by decide, List.forall_mem_cons.mpr ⟨by decide,
      List.forall_mem_cons.mpr ⟨levelInLine, by decide⟩⟩⟩
  unmarked := unmarked_of_all rfl
  balanced := rfl
  start := rfl
  finish := rfl
  noHeader := rfl

theorem isStatementCode_delayCode (count : Nat) : IsStatementCode (delayCode count) where
  ends := rfl
  cut := isCut_delayCode count
  inLine := List.forall_mem_cons.mpr ⟨by decide, List.forall_mem_cons.mpr ⟨by decide,
    List.forall_mem_cons.mpr
      ⟨inLine_of_isDigit fun _ member => Text.isDigit_of_mem_ofNat member, by decide⟩⟩⟩
  unmarked := unmarked_of_all rfl
  balanced := rfl
  start := rfl
  finish := rfl
  noHeader := rfl

theorem isStatementCode_readCode (labelled : LabelledPin) : IsStatementCode (readCode labelled) where
  ends := rfl
  cut := isCut_readCode labelled
  inLine := by
    have state := inLine_of_isIdentifier labelled.label.isIdentifier_state
    have name := inLine_of_isIdentifier labelled.label.isIdentifier_name
    intro token member
    simp only [readCode, callCode, List.cons_append, List.nil_append, List.dropLast_cons_cons,
      List.dropLast_singleton, List.mem_cons, List.not_mem_nil, or_false] at member
    rcases member with rfl | rfl | rfl | rfl | rfl | rfl | rfl | rfl | rfl | rfl
    case inr.inr.inl => exact state
    case inr.inr.inr.inr.inr.inr.inr.inr.inl => exact name
    all_goals decide
  unmarked := unmarked_of_all rfl
  balanced := rfl
  start := rfl
  finish := rfl
  noHeader := rfl

theorem inLine_pressedMessage (labelled : LabelledPin) :
    (pressedMessage labelled).all isLineChar = true := by
  have number : labelled.label.number.all isLineChar = true :=
    inLine_of_isDigit fun _ member => PinLabel.isDigit_of_mem_number member
  unfold pressedMessage
  generalize labelled.label.number = digits at number ⊢
  rw [List.all_append, List.all_append, number]
  decide

theorem isStatementCode_messageCode (labelled : LabelledPin) :
    IsStatementCode (messageCode labelled) where
  ends := rfl
  cut := isCut_messageCode labelled
  inLine := List.forall_mem_cons.mpr ⟨by decide, List.forall_mem_cons.mpr ⟨by decide,
    List.forall_mem_cons.mpr ⟨by decide, List.forall_mem_cons.mpr ⟨by decide,
      List.forall_mem_cons.mpr ⟨inLine_pressedMessage labelled, by decide⟩⟩⟩⟩⟩
  unmarked := unmarked_of_all rfl
  balanced := rfl
  start := rfl
  finish := rfl
  noHeader := rfl

theorem head?_identifier_append (label : PinLabel) (rest : Text) :
    (label.identifier ++ rest).head? ≠ some 'e' := by
  have tags : ∀ tag ∈ roleTags, tag ≠ [] ∧ tag.head? ≠ some 'e' := by decide
  obtain ⟨notEmpty, first⟩ := tags _ (tag_mem_roleTags label.role)
  rw [PinLabel.identifier, List.append_assoc, List.head?_append_of_ne_nil _ notEmpty]
  exact first

/-- The piece that reports a button if it is pressed. -/
def pressedUnit (labelled : LabelledPin) : Text :=
  "if ".toList ++ pressedText labelled.label ++ ":\n    ".toList ++ messageText labelled

section

variable {context : Context}

/-- The condition of a button in its parentheses. -/
def pressedGuard (labelled : LabelledPin) : Guard where
  before := .one
  inside := .none
  condition := .ofTokens (pressedCondition labelled) (isFragment_pressedCondition labelled) rfl rfl rfl
  behind := .none
  after := Spacing.one.toGap

def Gap.indented : Gap := ⟨"\n    ".toList, rfl⟩

def Gap.closing : Gap := ⟨"\n  ".toList, rfl⟩

theorem tokens_pressedRows (pending : Text) (labelled : LabelledPin) (others : List Row) :
    Row.tokens pending (codeRow "  " (pressedCode labelled) ::
        codeRow "    " (messageCode labelled) :: codeRow "  " closingCode :: others) [] =
      blankTokens (pending ++ "  ".toList) ++ (pressedCode labelled ++ (Gap.indented.tokens ++
        (messageCode labelled ++ (Gap.closing.tokens ++
          (closingCode ++ Row.tokens ['\n'] others []))))) := by
  have pressed : pressedCode labelled ≠ [] := List.cons_ne_nil _ _
  have message : messageCode labelled ≠ [] := List.cons_ne_nil _ _
  have closing : closingCode ≠ [] := List.cons_ne_nil _ _
  rw [tokens_codeRow _ _ pressed, tokens_codeRow _ _ message, tokens_codeRow _ _ closing]
  rfl

theorem Yields.pressed (labelled : LabelledPin) :
    Yields context [codeRow "  " (pressedCode labelled), codeRow "    " (messageCode labelled),
      codeRow "  " closingCode] [pressedUnit labelled] := by
  intro others more behind gap
  obtain ⟨block, tokens, fresh, units⟩ := behind .lineBreak
  have line := convertLine_messageCode context labelled
  have converts : convertLine context (render (messageCode labelled)) ≠ [] := by
    rw [line]
    exact List.cons_ne_nil _ _
  have blank : "  ".toList.all isSpaceChar = true := rfl
  let message : Statement context := .simple (.ofCode (isStatementCode_messageCode labelled) converts)
  refine ⟨.cons (gap.extend blank) (.branch (pressedGuard labelled)
    (.cons .indented message (.done .closing)) .none) block, ?_, ?_, ?_⟩
  · have condition : tokenize (pressedGuard labelled).condition.text = pressedCondition labelled :=
      (isFragment_pressedCondition labelled).cut.tokenize_render
    rw [Block.tokens, Statement.tokens, Guard.tokens, condition, Block.tokens, Block.tokens,
      Statement.tokens, Simple.tokens_ofCode, tokens]
    refine Eq.trans ?_ (tokens_pressedRows gap.text labelled others).symm
    simp only [List.append_assoc, List.cons_append]
    rfl
  · exact List.forall_mem_cons.mpr ⟨trivial, fresh⟩
  · have condition : conditionText context (pressedGuard labelled).condition.text =
        pressedText labelled.label := conditionText_pressedCondition context labelled
    rw [Block.statements, List.map_cons, units, Statement.unit, Statement.lines, Guard.line, condition,
      Block.lines, Block.lines, Statement.lines, Simple.source_ofCode, line]
    unfold pressedUnit
    generalize pressedText labelled.label = test
    generalize messageText labelled = report
    show Text.unlines [ScriptLine.dedented ⟨0, "if".toList ++ ' ' :: test ++ [':']⟩,
      ScriptLine.dedented ⟨1, report⟩] :: more = _
    rw [Text.unlines_cons, List.flatMap_singleton, dedented_outermost]
    refine congrArg (· :: more) ?_
    simp only [List.append_assoc]
    rfl

/-- The pieces of the blinking: all LEDs on, a wait, all LEDs off, a wait. -/
def blinkUnits (leds : List LabelledPin) (delay : Nat) : List Text :=
  if leds.isEmpty then []
  else
    leds.map (fun led => writeText '1' led.label) ++ [sleepText delay] ++
      leds.map (fun led => writeText '0' led.label) ++ [sleepText delay]

/-- The pieces of a button: reading it and reporting it. -/
def buttonUnits (button : LabelledPin) : List Text :=
  [readText button.label, pressedUnit button]

def loopUnits (wiring : Wiring) (settings : FirmwareSettings) : List Text :=
  blinkUnits (ledPins wiring) settings.blinkDelay ++ (buttonPins wiring).flatMap buttonUnits

theorem Yields.writes (names : context.HasScriptNames) {pins : List LabelledPin} (fits : Fits pins)
    {level : String} {digit : Char}
    (known : level = "HIGH" ∧ digit = '1' ∨ level = "LOW" ∧ digit = '0') :
    Yields context (pins.map fun pin => codeRow "  " (writeCode level pin))
      (pins.map fun pin => writeText digit pin.label) := by
  rw [List.map_eq_flatMap, List.map_eq_flatMap]
  refine .flatMap fun pin member => .simple rfl
    (isStatementCode_writeCode (known.imp And.left And.left) pin)
    (convertLine_writeCode names (fits pin member).2 known) ?_ ?_
  · rw [writeText]
    exact List.append_ne_nil_of_right_ne_nil _ (List.cons_ne_nil _ _)
  · rw [writeText, List.append_assoc, List.append_assoc]
    exact head?_identifier_append _ _

theorem Yields.delay (count : Nat) :
    Yields context [codeRow "  " (delayCode count)] [sleepText count] := by
  have first : (sleepText count).head? = some 't' := rfl
  exact .simple rfl (isStatementCode_delayCode count) (convertLine_delayCode context count)
    (List.cons_ne_nil _ _) (by rw [first]; decide)

theorem Yields.blink (names : context.HasScriptNames) {leds : List LabelledPin} (fits : Fits leds)
    (settings : FirmwareSettings) :
    Yields context (blinkRows leds settings) (blinkUnits leds settings.blinkDelay) := by
  unfold blinkRows blinkUnits
  split
  · exact .nil
  · have on := writes names fits (.inl ⟨rfl, rfl⟩)
    have off := writes names fits (.inr ⟨rfl, rfl⟩)
    exact ((on.append (delay _)).append off).append (delay _)

theorem Yields.button (names : context.HasScriptNames) {button : LabelledPin}
    (below : ∀ n ∈ button.label.ordinal, n < Text.pinBound) :
    Yields context (buttonRows button) (buttonUnits button) := by
  have read : Yields context [codeRow "  " (readCode button)] [readText button.label] := by
    refine .simple rfl (isStatementCode_readCode button) (convertLine_readCode names below) ?_ ?_
    · rw [readText]
      exact List.append_ne_nil_of_right_ne_nil _ (List.cons_ne_nil _ _)
    · rw [readText, PinLabel.state, List.append_assoc, List.append_assoc, List.append_assoc]
      exact head?_identifier_append _ _
  exact read.append (pressed button)

/-- Remarks yield nothing. -/
theorem Yields.remarks (actuator : LabelledPin) :
    Yields context (actuatorRemarks actuator.label.role.prose actuator.definition) [] := by
  have written := isWritten_actuatorRemarks actuator
  have first : Yields context _ [] := silent (written _ List.mem_cons_self) rfl
  exact first.append (silent (written _ (List.mem_cons_of_mem _ List.mem_cons_self)) rfl)

/-- The rows of the loop yield the script's statements. -/
theorem Yields.loop (names : context.HasScriptNames) {wiring : Wiring}
    (fits : Fits (labelledPins wiring)) (settings : FirmwareSettings) :
    Yields context (loopRows wiring settings) (loopUnits wiring settings) := by
  have leds : Fits (ledPins wiring) := fun led member => fits led (by simp [labelledPins, member])
  have buttons : Yields context ((buttonPins wiring).flatMap buttonRows)
      ((buttonPins wiring).flatMap buttonUnits) :=
    .flatMap fun button member => .button names (fits button (by simp [labelledPins, member])).2
  have actuators : Yields context ((actuatorPins wiring).flatMap fun actuator =>
      actuatorRemarks actuator.label.role.prose actuator.definition)
      ((actuatorPins wiring).flatMap fun _ => []) :=
    .flatMap fun actuator _ => remarks actuator
  have nothing : ((actuatorPins wiring).flatMap fun _ => ([] : List Text)) = [] :=
    List.flatMap_eq_nil_iff.mpr fun _ _ => rfl
  have heading (remark : String) (known : ("  ", remark) ∈ templateRemarks) :
      (remarkRow "  " remark.toList).IsWritten :=
    (@IsTemplateRow.remark .loop _ _ known).isWritten
  rw [nothing] at actuators
  have whole := ((partRows (heading " Blink LED example" (by decide)) rfl
    (blink names leds settings)).append
    (partRows (heading " Read button states" (by decide)) rfl buttons)).append
    (partRows (heading " Control actuators example (uncomment to use)" (by decide)) rfl actuators)
  rw [List.append_nil] at whole
  exact whole

end

end Breadboard.Script
