import Breadboard.Proofs.Script.Definition
import Breadboard.Proofs.Script.LoopSplit

set_option autoImplicit false

/- Which texts are converted, and what a converted script shows of its sketch. A script has an import and is
never converted again. -/
namespace Breadboard

theorem Text.occursIn_iff_infix {word text : Text} :
    Text.occursIn word text = true ↔ word <:+: text := by
  induction text with
  | nil => rw [Text.occursIn, List.isEmpty_iff, List.infix_nil]
  | cons c rest ih =>
      rw [Text.occursIn, Bool.or_eq_true, List.isPrefixOf_iff_prefix, ih, List.infix_cons_iff]

namespace Script

open Sketch hiding stripComments

/-- What a text imports by, if it is a script. -/
def importMarkers : List Text :=
  ["from machine import".toList, "import machine".toList]

theorem isScript_iff {source : Text} :
    isScript source = true ↔ ∃ marker ∈ importMarkers, marker <:+: source := by
  rw [isScript, Bool.or_eq_true, Text.occursIn_iff_infix, Text.occursIn_iff_infix]
  simp [importMarkers]

/-- Somewhere in the tokens a definition `void name (…) { … }` starts. -/
def Defines (name : String) (tokens : List Token) : Prop :=
  ∃ before rest body, tokens = before ++ rest ∧ StartsDefinition name body rest

section

variable {name : String} {tokens : List Token}

/-- Of several definitions one is the first. -/
theorem Defines.exists_first (defined : Defines name tokens) :
    ∃ body, IsFirstDefinition name body tokens := by
  obtain ⟨before, rest, body, split, starts⟩ := defined
  induction size : before.length using Nat.strongRecOn generalizing before rest body with
  | ind count ih =>
      by_cases earlierStart : ∃ earlier later other, before = earlier ++ later ∧ later ≠ [] ∧
          StartsDefinition name other (later ++ rest)
      -- A definition that starts earlier has less before it.
      · obtain ⟨earlier, later, other, rfl, notEmpty, startsEarlier⟩ := earlierStart
        have shorter : earlier.length < count := by
          have := List.length_pos_iff.mpr notEmpty
          rw [← size, List.length_append]
          omega
        exact ih earlier.length shorter earlier (later ++ rest) other (by simp [split])
          startsEarlier rfl
      · refine ⟨body, before, rest, split, starts, ?_⟩
        intro earlier later other parts notEmpty startsEarlier
        exact earlierStart ⟨earlier, later, other, parts, notEmpty, startsEarlier⟩

/-- A body is found if and only if the function is defined. -/
theorem isSome_functionBody? (notVoid : name ≠ "void") :
    (functionBody? name tokens).isSome = true ↔ Defines name tokens := by
  constructor
  · intro found
    by_contra undefined
    obtain ⟨behind, passed⟩ := @bodyWithin?_append name [] tokens [] (by
      intro earlier later other split notEmpty starts
      rw [List.append_nil] at starts
      exact undefined ⟨earlier, later, other, split, starts⟩) false (by simp)
    rw [List.append_nil] at passed
    rw [functionBody?, passed] at found
    cases found
  · intro defined
    obtain ⟨body, first⟩ := defined.exists_first
    rw [functionBody?_of_isFirstDefinition notVoid first, Option.isSome_some]

end

theorem convert?_eq_none {source : Text} :
    convert? source = none ↔ (∃ marker ∈ importMarkers, marker <:+: source) ∨
      ¬Defines "setup" (tokenize (Sketch.stripComments source)) ∧
        ¬Defines "loop" (tokenize (Sketch.stripComments source)) := by
  rw [← isScript_iff, ← isSome_functionBody? (by decide), ← isSome_functionBody? (by decide),
    convert?]
  by_cases script : isScript source = true
  · simp [script]
  · simp [script]

theorem lines_unbroken_append {line : Text} (unbroken : '\n' ∉ line) (rest : Text) :
    Text.lines (line ++ '\n' :: rest) = Text.withoutBreak (line ++ ['\n']) :: Text.lines rest := by
  rw [Text.lines, Text.brokenLines_append_break unbroken, List.map_cons, Text.lines]

section

variable {text : Text} (preamble : IsPreamble text)

include preamble

theorem IsPreamble.lines_append (rest : Text) :
    Text.lines (text ++ rest) = Text.lines text ++ Text.lines rest := by
  induction preamble with
  | nil => rfl
  | line unbroken _ _ ih =>
      rw [List.append_assoc, List.cons_append, lines_unbroken_append unbroken, ih,
        lines_unbroken_append unbroken, List.cons_append]

theorem IsPreamble.header_not_mem_lines : "while True:".toList ∉ Text.lines text := by
  induction preamble with
  | nil => exact List.not_mem_nil
  | @line line _ unbroken noHeader _ ih =>
      rw [lines_unbroken_append unbroken, List.mem_cons, not_or]
      refine ⟨fun same => ?_, ih⟩
      -- A carriage return before the break goes with it.
      rcases Text.withoutBreak_cases line with whole | returned
      · rw [← whole, ← same] at noHeader
        exact absurd noHeader (by decide)
      · rw [returned, ← same] at noHeader
        exact absurd noHeader (by decide)

end

namespace Conversion

/-- The header of the loop is a line of the script if and only if the sketch has a loop. -/
theorem header_mem_lines_render {source : Text} {conversion : Conversion}
    (harvested : conversion.context = Context.harvest source) :
    "while True:".toList ∈ Text.lines conversion.render ↔ conversion.body.isSome = true := by
  have preamble := isPreamble_preamble harvested
  rw [render, preamble.lines_append, List.mem_append]
  cases conversion.body with
  | none => simpa [Text.lines, Text.brokenLines] using preamble.header_not_mem_lines
  | some lines =>
      have header : Text.lines ("while True:\n".toList ++ lines.flatMap ScriptLine.render) =
          "while True:".toList :: Text.lines (lines.flatMap ScriptLine.render) :=
        @Text.lines_append_break "while True:".toList (by decide) (by decide) _
      exact iff_of_true (.inr (header ▸ List.mem_cons_self)) rfl

variable (conversion : Conversion)

/-- The line that a script starts with. -/
def importLine : Text :=
  if conversion.usesAnalog then "from machine import Pin, ADC".toList
  else "from machine import Pin".toList

theorem exists_render_eq : ∃ rest, conversion.render = conversion.importLine ++ '\n' :: rest := by
  have imports : conversion.imports = conversion.importLine ++ '\n' :: "import time\n\n".toList := by
    rw [Conversion.imports, importLine]
    split <;> rfl
  rw [render, preamble, imports]
  simp only [List.append_assoc, List.cons_append]
  exact ⟨_, rfl⟩

theorem head?_lines_render : (Text.lines conversion.render).head? = some conversion.importLine := by
  obtain ⟨rest, split⟩ := conversion.exists_render_eq
  have isLine : '\n' ∉ conversion.importLine ∧ conversion.importLine.getLast? ≠ some '\r' := by
    unfold importLine
    split <;> decide
  rw [split, Text.lines_append_break isLine.1 isLine.2, List.head?_cons]

/-- A script imports the module `machine`. -/
theorem isScript_render : isScript conversion.render = true := by
  obtain ⟨rest, split⟩ := conversion.exists_render_eq
  have marked : "from machine import".toList <+: conversion.importLine := by
    unfold importLine
    split <;> decide
  rw [isScript_iff, split]
  exact ⟨_, List.mem_cons_self, (marked.trans (List.prefix_append _ _)).isInfix⟩

end Conversion

/-- An analog binding comes from a call of `analogRead`. -/
theorem exists_analogRead {source : Text} {binding : Binding}
    (member : binding ∈ (Context.harvest source).bindings) (analog : binding.kind = .analog) :
    ∃ token ∈ tokenize source, token.isIdent "analogRead" = true := by
  by_contra absent
  have noCalls : callsOf "analogRead" false (tokenize source) = [] :=
    callsOf_of_absent (by simpa using absent) false
  rcases List.mem_append.mp member with digital | inAnalog
  · rcases List.mem_append.mp digital with output | input
    · have isOutput := (List.mem_filter.mp output).2
      simp [Binding.isOutput, analog] at isOutput
    · have isInput := (List.mem_filter.mp input).2
      simp [Binding.isInput, analog] at isInput
  · obtain ⟨args, called, -⟩ := List.mem_filterMap.mp (Context.mem_of_mem_distinctSources inAnalog)
    rw [noCalls] at called
    cases called

theorem convert?_eq_some {source : Text} {conversion : Conversion}
    (converted : convert? source = some conversion) :
    conversion.usesAnalog =
        (tokenize (Sketch.stripComments source)).any (·.isIdent "analogRead") ∧
      conversion.context = Context.harvest (Sketch.stripComments source) ∧
      (conversion.body.isSome = true ↔ Defines "loop" (tokenize (Sketch.stripComments source))) := by
  unfold convert? at converted
  split at converted
  · cases converted
  · obtain ⟨-, same⟩ := Option.ite_none_left_eq_some.mp converted
    cases Option.some.inj same
    refine ⟨rfl, rfl, ?_⟩
    rw [← isSome_functionBody? (by decide), Option.isSome_map]

/-- Converting a script again changes nothing. A text with an import marker, or without a definition of
`setup` or `loop`, is passed through, and a converted one imports and loops as its sketch needs. -/
theorem outcome_of_text (source : Text) :
    ofSketch (ofSketch source) = ofSketch source ∧
      (outcome source).script = ofSketch source ∧
      ((outcome source).isConverted = false ↔
        (∃ marker ∈ importMarkers, marker <:+: source) ∨
          ¬Defines "setup" (tokenize (Sketch.stripComments source)) ∧
            ¬Defines "loop" (tokenize (Sketch.stripComments source))) ∧
      ((outcome source).isConverted = false →
        (outcome source).script = source ∧ (outcome source).context = .empty) ∧
      ((outcome source).isConverted = true →
        ((∃ binding ∈ (outcome source).context.bindings, binding.kind = .analog) →
          (Text.lines (outcome source).script).head? = some "from machine import Pin, ADC".toList) ∧
        ("while True:".toList ∈ Text.lines (outcome source).script ↔
          Defines "loop" (tokenize (Sketch.stripComments source)))) := by
  rw [← convert?_eq_none]
  cases converted : convert? source with
  | none =>
      have script : ofSketch source = source := by rw [ofSketch, converted]
      have passed : outcome source = ⟨source, false, .empty⟩ := by rw [outcome, converted]
      rw [passed, script, script]
      simp
  | some conversion =>
      have script : ofSketch source = conversion.render := by rw [ofSketch, converted]
      have made : outcome source = ⟨conversion.render, true, conversion.context⟩ := by
        rw [outcome, converted]
      have again : convert? conversion.render = none :=
        convert?_eq_none.mpr (.inl (isScript_iff.mp conversion.isScript_render))
      have fixed : ofSketch conversion.render = conversion.render := by rw [ofSketch, again]
      obtain ⟨usesAnalog, harvested, hasLoop⟩ := convert?_eq_some converted
      rw [made, script, fixed]
      refine ⟨rfl, rfl, by simp, by simp, fun _ => ⟨?_, ?_⟩⟩
      · rintro ⟨binding, member, analog⟩
        have reads := exists_analogRead (harvested ▸ member) analog
        rw [conversion.head?_lines_render, Conversion.importLine, usesAnalog,
          List.any_eq_true.mpr reads, if_pos rfl]
      · rw [Conversion.header_mem_lines_render harvested, hasLoop]

/-- A marker counts in a comment, a definition does not. -/
example : (outcome "void loop() \x7b\x7d // import machine".toList).isConverted = false ∧
    (outcome "// void loop() \x7b\x7d".toList).isConverted = false := by
  decide +kernel

end Script

end Breadboard
