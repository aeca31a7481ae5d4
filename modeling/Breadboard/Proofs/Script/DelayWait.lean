import Breadboard.Proofs.Binary64.Whole
import Breadboard.Proofs.Script.DelayLine
import Breadboard.Proofs.Script.LoopLines

set_option autoImplicit false

namespace Breadboard.Script

open Sketch hiding stripComments

/-- The durations that a sketch can write, and their values: a literal that has a value, or a name where
the sketch has the given constants. -/
inductive HasDuration (constants : List Constant) : Text → Binary64 → Prop where
  | literal {text : Text} {value : Binary64} (read : numericLiteral? text = some value) :
      HasDuration constants text value
  | constant {name : Text} {value : Binary64} (named : Context.valueIn constants name = some value) :
      HasDuration constants name value

theorem isIdentifier_of_valueIn {source name : Text} {value : Binary64}
    (named : Context.valueIn (Context.harvest source).constants name = some value) :
    isIdentifier name = true := by
  obtain ⟨constant, found, -⟩ := Option.map_eq_some_iff.mp named
  obtain rfl : constant.name = name := by simpa using List.find?_some found
  exact isIdentifier_constantName (List.mem_of_find?_eq_some found)

theorem HasDuration.exists_isDuration {source text : Text} {value : Binary64}
    (duration : HasDuration (Context.harvest source).constants text value) :
    ∃ inner, IsDuration inner ∧ render inner = text := by
  cases duration with
  | literal read =>
      obtain ⟨tokens, number, rendered⟩ := exists_isNumberTokens read
      exact ⟨tokens, .number number, rendered⟩
  | constant named =>
      exact ⟨[⟨.ident, text⟩], .name (isIdentifier_of_valueIn named), by simp⟩

theorem IsDuration.braceCounts_eq {inner : List Token} (duration : IsDuration inner) :
    braceCounts (delayText (render inner)) = (0, 0) := by
  refine braceCounts_of_unmarked fun token member => ?_
  rw [← render_delay, duration.isCut_call.tokenize_render] at member
  rcases List.mem_cons.mp member with rfl | member
  · exact Or.inl rfl
  rcases List.mem_cons.mp member with rfl | member
  · exact Or.inl rfl
  rcases List.mem_append.mp member with inside | behind
  · exact Or.inl (duration.isFragment.unmarked token inside)
  rcases List.mem_cons.mp behind with rfl | last
  · exact Or.inl rfl
  · exact Or.inr (List.mem_singleton.mp last)

/-- A decimal numeral stands for its value. -/
theorem HasDuration.eq_ofNat {source text : Text} {value : Binary64} {n : Nat}
    (duration : HasDuration (Context.harvest source).constants text value)
    (numeral : Text.numeral? text = some n) (below : n < waitBound) : value = .ofNat n := by
  cases duration with
  | literal read => exact Option.some.inj (read.symm.trans (numericLiteral?_of_numeral? numeral below))
  | constant named =>
      -- No name is a numeral.
      have none := numeralBelow?_of_isIdentifier (isIdentifier_of_valueIn named)
      rw [Text.numeralBelow?, numeral, Option.filter_some, if_pos (decide_eq_true below)] at none
      cases none

/-- A delay outside all blocks becomes a wait for the scheduler exactly if its duration is one that the
scheduler counts and no line behind it is added to it. A numeral makes it wait for its value. -/
theorem sleepDuration?_of_delay {source text : Text} (noImport : isScript source = false)
    (defined : functionBody? "loop" (tokenize (Sketch.stripComments source)) = some text)
    (unbroken : ∀ line ∈ logicalLines text, '\n' ∉ line) {before after : List Text} {duration : Text}
    (placed : logicalLines text = before ++ delayText duration :: after)
    (outermost : blockDepth before = 0) {value : Binary64}
    (hasDuration : HasDuration (Context.harvest (Sketch.stripComments source)).constants duration value) :
    ∃ split unit rest, split? (ofSketch source) = some split ∧
      statements split.body = statementsFrom 4 []
        ((convertedLines (Context.harvest (Sketch.stripComments source)) [] before).1.map
          ScriptLine.indented) ++ unit :: rest ∧
      convertLine (Context.harvest (Sketch.stripComments source)) (delayText duration) <+: unit ∧
      (∀ wait, sleepDuration? unit = some wait ↔
        (∀ next ∈ (convertLines (Context.harvest (Sketch.stripComments source)) [] after).head?,
          next.StartsStatement) ∧ Counts duration wait) ∧
      ∀ n, Text.numeral? duration = some n → n < waitBound → value = .ofNat n := by
  have names := Context.hasScriptNames_harvest (Sketch.stripComments source)
  obtain ⟨inner, isDuration, rfl⟩ := hasDuration.exists_isDuration
  have line : convertLine (Context.harvest (Sketch.stripComments source)) (delayText (render inner)) =
      waitText (render (inner.map respell)) :=
    isDuration.convertLine_eq _
  have filled := line ▸ (isTight_waitText (render (inner.map respell))).notEmpty
  obtain ⟨written, unit, rest, cut, shape⟩ := exists_unit_of_line placed outermost
    isDuration.braceCounts_eq filled names unbroken (by rw [line]; rfl)
  refine ⟨_, unit, rest, split?_of_loop noImport defined written (convert?_of_loop noImport defined),
    cut, ?_, fun wait => ?_, fun n => hasDuration.eq_ofNat⟩
  · rcases shape with ⟨-, rfl⟩ | ⟨-, onward, -, rfl⟩
    · exact List.prefix_refl _
    · exact List.prefix_append _ _
  · rcases shape with ⟨starts, rfl⟩ | ⟨joined, onward, visible, rfl⟩
    · rw [line, sleepDuration?_waitText, isDuration.counts_iff, and_iff_right starts]
    · rw [line, sleepDuration?_onward _ visible]
      constructor
      · intro waits
        cases waits
      · rintro ⟨starts, -⟩
        exact absurd starts joined

/-- One wait in two spellings. -/
def twoDelays : Text :=
  "void loop() \x7bdelay(1000);delay(1000UL);\x7d".toList

theorem functionBody?_twoDelays :
    functionBody? "loop" (tokenize (Sketch.stripComments twoDelays)) =
      some "delay(1000);delay(1000UL);".toList := by
  cbv

theorem logicalLines_twoDelays :
    logicalLines "delay(1000);delay(1000UL);".toList =
      [delayText "1000".toList, delayText "1000UL".toList] := by
  have lines : logicalLines "delay(1000);delay(1000UL);".toList =
      ["delay(1000);".toList, "delay(1000UL);".toList] := by
    cbv
  exact lines

theorem numericLiteral?_marked : numericLiteral? "1000UL".toList = some (.ofNat 1000) :=
  @Binary64.ofText?_of_numeral? "1000".toList 1000 rfl (by decide)

theorem isDuration_plain : IsDuration [⟨.number, "1000".toList⟩] :=
  .number (.one (.number (Or.inl rfl) rfl))

theorem isDuration_marked : IsDuration [⟨.number, "1000UL".toList⟩] :=
  .number (.one (.number (Or.inl rfl) rfl))

theorem convertLines_marked (context : Context) :
    convertLines context [] [delayText "1000UL".toList] = [⟨0, waitText "1000UL".toList⟩] := by
  have line : convertLine context (delayText "1000UL".toList) = waitText "1000UL".toList :=
    isDuration_marked.convertLine_eq context
  have noBraces : braceCounts (delayText "1000UL".toList) = (0, 0) := isDuration_marked.braceCounts_eq
  rw [convertLines_cons_filled noBraces rfl (line ▸ List.cons_ne_nil _ _), line]
  rfl

theorem sleepDuration?_of_delay_twoDelays :
    ∃ split unit rest, split? (ofSketch twoDelays) = some split ∧
      statements split.body = unit :: rest ∧ sleepDuration? unit = some 1000 := by
  have noImport : isScript twoDelays = false := by decide
  have unbroken : ∀ line ∈ logicalLines "delay(1000);delay(1000UL);".toList, '\n' ∉ line := by
    rw [logicalLines_twoDelays]
    decide
  obtain ⟨split, unit, rest, found, cut, -, waits, -⟩ := @sleepDuration?_of_delay _ _ noImport
    functionBody?_twoDelays unbroken [] _ _ logicalLines_twoDelays rfl _
    (.literal (numericLiteral?_of_numeral? rfl (by decide)))
  refine ⟨split, unit, rest, found, cut, (waits 1000).mpr ⟨?_, .digits (by decide) (by decide)⟩⟩
  rw [convertLines_marked]
  rintro next ⟨⟩
  exact ⟨rfl, rfl⟩

theorem convertBlock_twoDelays (context : Context) :
    convertBlock context "delay(1000);delay(1000UL);".toList =
      [⟨0, waitText "1000".toList⟩, ⟨0, waitText "1000UL".toList⟩] := by
  have line : convertLine context (delayText "1000".toList) = waitText "1000".toList :=
    isDuration_plain.convertLine_eq context
  have noBraces : braceCounts (delayText "1000".toList) = (0, 0) := isDuration_plain.braceCounts_eq
  have lines := @convertBlock_of_line context _ _ [] _ logicalLines_twoDelays rfl noBraces
    (line ▸ List.cons_ne_nil _ _)
  rw [convertLines_marked, line] at lines
  exact lines

theorem statements_twoDelays :
    statements (Text.unlines ([⟨0, waitText "1000".toList⟩, ⟨0, waitText "1000UL".toList⟩].map
      ScriptLine.indented)) = ["time.sleep_ms(1000)".toList, "time.sleep_ms(1000UL)".toList] := by
  decide

/-- The same number with the marks of an unsigned long integer is no wait for the scheduler. -/
theorem markedDelay_is_no_wait :
    isScript twoDelays = false ∧
    functionBody? "loop" (tokenize (Sketch.stripComments twoDelays)) =
      some "delay(1000);delay(1000UL);".toList ∧
    logicalLines "delay(1000);delay(1000UL);".toList =
      [delayText "1000".toList, delayText "1000UL".toList] ∧
    numericLiteral? "1000UL".toList = some (.ofNat 1000) ∧
    (∃ split, split? (ofSketch twoDelays) = some split ∧
      statements split.body = ["time.sleep_ms(1000)".toList, "time.sleep_ms(1000UL)".toList]) ∧
    sleepDuration? "time.sleep_ms(1000UL)".toList = none := by
  have noImport : isScript twoDelays = false := by decide
  have block := convertBlock_twoDelays (Context.harvest (Sketch.stripComments twoDelays))
  have written : AreWritten (convertBlock (Context.harvest (Sketch.stripComments twoDelays))
      "delay(1000);delay(1000UL);".toList) := by
    rw [block]
    exact List.forall_mem_cons.mpr ⟨⟨isTight_waitText _, by decide⟩,
      List.forall_mem_singleton.mpr ⟨isTight_waitText _, by decide⟩⟩
  have split := split?_of_loop noImport functionBody?_twoDelays written
    (convert?_of_loop noImport functionBody?_twoDelays)
  rw [block] at split
  exact ⟨noImport, functionBody?_twoDelays, logicalLines_twoDelays, numericLiteral?_marked,
    ⟨_, split, statements_twoDelays⟩, by decide⟩

end Breadboard.Script
