import Breadboard.Proofs.Script.LineBreak
import Breadboard.Proofs.Text.LineCut
import Breadboard.Proofs.Text.Numeral
import Breadboard.Proofs.Text.Trim
import Breadboard.Script.Conversion
import Breadboard.Script.Loop

set_option autoImplicit false

namespace Breadboard.Script

open Sketch hiding stripComments

/-- A line with a character that the header has not is no header. -/
theorem isLoopHeader_eq_false {line : Text} {c : Char} (member : c ∈ line)
    (visible : Text.isBlank c = false) (outside : c ∉ "while True:".toList) :
    isLoopHeader line = false := by
  rw [isLoopHeader, beq_eq_false_iff_ne]
  intro same
  exact outside (same ▸ Text.mem_trimEnd member visible)

/-- Whole lines, none of which is the header of a loop. -/
inductive IsPreamble : Text → Prop where
  | nil : IsPreamble []
  | line {line rest : Text} (unbroken : '\n' ∉ line)
      (noHeader : isLoopHeader (line ++ ['\n']) = false) (more : IsPreamble rest) :
      IsPreamble (line ++ '\n' :: rest)

theorem IsPreamble.append {first second : Text} (firstIs : IsPreamble first)
    (secondIs : IsPreamble second) : IsPreamble (first ++ second) := by
  induction firstIs with
  | nil => exact secondIs
  | line unbroken noHeader _ ih =>
      rw [List.append_assoc, List.cons_append]
      exact .line unbroken noHeader ih

theorem IsPreamble.flatMap {α : Type} {items : List α} {write : α → Text}
    (all : ∀ item ∈ items, IsPreamble (write item)) : IsPreamble (items.flatMap write) := by
  induction items with
  | nil => exact .nil
  | cons item rest ih =>
      rw [List.flatMap_cons]
      exact (all item List.mem_cons_self).append
        (ih fun other member => all other (List.mem_cons_of_mem _ member))

/-- The header is looked for behind the lines of a preamble. -/
theorem IsPreamble.splitAtHeader?_append {text : Text} (preamble : IsPreamble text) (rest : Text) :
    ∃ lines : List Text, lines.flatten = text ∧
      splitAtHeader? (Text.brokenLines (text ++ rest)) =
        (splitAtHeader? (Text.brokenLines rest)).map fun (before, after) => (lines ++ before, after) := by
  induction preamble with
  | nil => exact ⟨[], rfl, by simp⟩
  | @line line more unbroken noHeader _ ih =>
      obtain ⟨lines, whole, split⟩ := ih
      refine ⟨(line ++ ['\n']) :: lines, by simp [whole], ?_⟩
      rw [List.append_assoc, List.cons_append, Text.brokenLines_append_break unbroken, splitAtHeader?,
        noHeader, if_neg Bool.false_ne_true, split, Option.map_map]
      rfl

/-- A line of the loop behind its indentation. -/
def ScriptLine.indented (line : ScriptLine) : Text :=
  List.replicate (4 * (line.depth + 1)) ' ' ++ line.text

/-- The lines that a loop can be made of: each has an unbroken text with no blank at its ends. -/
def AreWritten (lines : List ScriptLine) : Prop :=
  ∀ line ∈ lines, Text.IsTight line.text ∧ '\n' ∉ line.text

/-- Blanks in front do not make a line unreadable. -/
theorem isLine_blank_append {text : Text} (tight : Text.IsTight text) (unbroken : '\n' ∉ text)
    (count : Nat) : Text.IsLine (List.replicate count ' ' ++ text) := by
  refine ⟨by simp [tight.notEmpty], by simp [unbroken], fun last => ?_⟩
  rw [List.getLast?_append_of_ne_nil _ tight.notEmpty] at last
  cases tight.last _ last

theorem isLine_indented {line : ScriptLine} (tight : Text.IsTight line.text)
    (unbroken : '\n' ∉ line.text) : Text.IsLine line.indented :=
  isLine_blank_append tight unbroken _

theorem brokenLines_flatMap_render {lines : List ScriptLine} (written : AreWritten lines) :
    (Text.brokenLines (lines.flatMap ScriptLine.render)).map Text.withoutBreak =
      lines.map ScriptLine.indented := by
  induction lines with
  | nil => rfl
  | cons line rest ih =>
      obtain ⟨tight, unbroken⟩ := written line List.mem_cons_self
      have isLine := isLine_indented tight unbroken
      have split : (line :: rest).flatMap ScriptLine.render =
          line.indented ++ '\n' :: rest.flatMap ScriptLine.render := by
        simp [ScriptLine.render, ScriptLine.indented]
      rw [split, Text.brokenLines_append_break isLine.unbroken, List.map_cons,
        Text.withoutBreak_append_break isLine.noReturn,
        ih fun other member => written other (List.mem_cons_of_mem _ member), List.map_cons]

/-- A script is split into its preamble and the lines of its loop. -/
theorem split?_loop {preamble : Text} (isPreamble : IsPreamble preamble) {lines : List ScriptLine}
    (written : AreWritten lines) :
    split? (preamble ++ ("while True:\n".toList ++ lines.flatMap ScriptLine.render)) =
      some ⟨preamble, Text.unlines (lines.map ScriptLine.indented)⟩ := by
  obtain ⟨before, whole, split⟩ := isPreamble.splitAtHeader?_append
    ("while True:\n".toList ++ lines.flatMap ScriptLine.render)
  have header : Text.brokenLines ("while True:\n".toList ++ lines.flatMap ScriptLine.render) =
      "while True:\n".toList :: Text.brokenLines (lines.flatMap ScriptLine.render) :=
    @Text.brokenLines_append_break "while True:".toList (by decide) _
  have isHeader : isLoopHeader "while True:\n".toList = true := by decide
  have inside : (lines.map ScriptLine.indented).takeWhile isInsideLoop =
      lines.map ScriptLine.indented := by
    rw [List.takeWhile_eq_self_iff]
    intro text member
    obtain ⟨line, -, rfl⟩ := List.mem_map.mp member
    rw [isInsideLoop, ScriptLine.indented, Nat.mul_succ, List.replicate_succ, List.cons_append,
      List.head?_cons, Option.any_some]
    exact Bool.or_true _
  rw [split?, split, header, splitAtHeader?, isHeader, if_pos rfl, Option.map_some, Option.map_some]
  simp only [List.append_nil, whole, brokenLines_flatMap_render written, inside]

theorem isIdentifier_of_mem_tokenize {text : Text} {token : Token} (member : token ∈ tokenize text)
    (ident : token.kind = .ident) : isIdentifier token.text = true := by
  obtain ⟨c, rest, rfl⟩ := exists_scan_of_mem_tokenize member
  rcases scan_cases c rest with ⟨-, eq⟩ | ⟨-, eq⟩ | ⟨start, eq⟩ | ⟨-, eq⟩ | ⟨-, eq, -⟩ |
    ⟨_, _, _, _, eq⟩ | ⟨-, -, eq⟩
  case inr.inr.inl =>
    rw [eq, isIdentifier, start, all_take_runLength]
    rfl
  all_goals
    rw [eq] at ident
    cases ident

theorem mem_of_dropTrivia_eq {tokens rest : List Token} {token : Token}
    (dropped : dropTrivia tokens = token :: rest) : token ∈ tokens ∧ rest ⊆ tokens := by
  have subset := dropTrivia_subset tokens
  rw [dropped] at subset
  exact ⟨subset List.mem_cons_self, fun other member => subset (List.mem_cons_of_mem _ member)⟩

theorem name_of_macroConstant? {tokens : List Token} {constant : Constant}
    (found : macroConstant? tokens = some constant) :
    ∃ token ∈ tokens, token.kind = .ident ∧ token.text = constant.name := by
  unfold macroConstant? at found
  split at found
  · cases found
  · rename_i keyword rest dropped
    split at found
    · split at found
      · cases found
      · rename_i name value after
        split at found
        · rename_i ident
          obtain ⟨number, -, rfl⟩ := Option.map_eq_some_iff.mp found
          exact ⟨name, (mem_of_dropTrivia_eq dropped).2 (mem_of_dropTrivia_eq after).1, ident, rfl⟩
        · cases found
    · cases found

theorem name_of_declaredConstant? {tokens : List Token} {constant : Constant}
    (found : declaredConstant? tokens = some constant) :
    ∃ token ∈ tokens, token.kind = .ident ∧ token.text = constant.name := by
  unfold declaredConstant? at found
  split at found
  · split at found
    · cases found
    · rename_i name rest dropped
      have member : name ∈ tokens :=
        (List.dropWhile_suffix _).mem (by
          rw [show List.dropWhile _ tokens = _ from dropped]
          exact List.mem_cons_self)
      split at found
      · rename_i ident
        split at found
        · cases found
        · split at found
          · obtain ⟨number, -, rfl⟩ := Option.map_eq_some_iff.mp found
            exact ⟨name, member, ident, rfl⟩
          · cases found
      · cases found
  · cases found

theorem name_of_mem_definitions {tokens : List Token} {constant : Constant}
    (member : constant ∈ definitions tokens) :
    ∃ token ∈ tokens, token.kind = .ident ∧ token.text = constant.name := by
  induction tokens with
  | nil => cases member
  | cons token rest ih =>
      have later : (∃ other ∈ rest, other.kind = .ident ∧ other.text = constant.name) →
          ∃ other ∈ token :: rest, other.kind = .ident ∧ other.text = constant.name := by
        rintro ⟨other, inRest, named⟩
        exact ⟨other, List.mem_cons_of_mem _ inRest, named⟩
      rw [definitions, List.mem_append, Option.mem_toList] at member
      rcases member with here | inRest
      · refine later ?_
        split at here
        · exact name_of_macroConstant? here
        · split at here
          · exact name_of_declaredConstant? here
          · cases here
      · exact later (ih inRest)

/-- A table has definitions only. -/
theorem mem_definitions_of_mem_foldl {more table : List Constant} {constant : Constant}
    (member : constant ∈ more.foldl define table) : constant ∈ table ∨ constant ∈ more := by
  induction more generalizing table with
  | nil => exact Or.inl member
  | cons next rest ih =>
      rcases ih member with inTable | inRest
      · have defined : constant ∈ table ∨ constant = next := by
          unfold define at inTable
          split at inTable
          · obtain ⟨entry, inOld, eq⟩ := List.mem_map.mp inTable
            split at eq
            · exact Or.inr eq.symm
            · exact Or.inl (eq ▸ inOld)
          · simpa using inTable
        rcases defined with old | rfl
        · exact Or.inl old
        · exact Or.inr List.mem_cons_self
      · exact Or.inr (List.mem_cons_of_mem _ inRest)

theorem isIdentifier_constantName {source : Text} {constant : Constant}
    (member : constant ∈ (Context.harvest source).constants) : isIdentifier constant.name = true := by
  rcases mem_definitions_of_mem_foldl member with inTable | defined
  · cases inTable
  · obtain ⟨token, inTokens, ident, nameEq⟩ := name_of_mem_definitions defined
    exact nameEq ▸ isIdentifier_of_mem_tokenize inTokens ident

theorem not_mem_constantName {source : Text} {constant : Constant}
    (member : constant ∈ (Context.harvest source).constants) : '\n' ∉ constant.name :=
  not_mem_of_words (all_isWordChar_of_isIdentifier (isIdentifier_constantName member))

theorem not_mem_positional (digits : Nat) (exponent : Int) :
    '\n' ∉ Binary64.positional digits exponent := by
  have number : '\n' ∉ Text.ofNat digits := Text.not_mem_ofNat rfl digits
  unfold Binary64.positional
  split
  · simp [number]
  · have padded : ∀ count, '\n' ∉ List.replicate count '0' ++ Text.ofNat digits := by
      simp [number]
    simp only [List.mem_append, List.mem_cons, not_or]
    exact ⟨fun member => padded _ (List.mem_of_mem_take member), by decide,
      fun member => padded _ (List.mem_of_mem_drop member)⟩

theorem not_mem_valueText (value : Binary64) : '\n' ∉ value.toText := by
  cases value with
  | finite negative units =>
      have sign : ∀ holds : Bool, '\n' ∉ (if holds then ['-'] else [] : Text) := by decide
      unfold Binary64.toText
      simp only
      split
      · rw [List.mem_append, not_or]
        exact ⟨sign _, Text.not_mem_ofNat rfl _⟩
      · rw [List.mem_append, not_or]
        exact ⟨sign _, not_mem_positional _ _⟩
  | infinite negative => cases negative <;> decide
  | nan => decide

/-- A whole line with a character that the header has not. -/
theorem isPreamble_line {line : Text} {c : Char} (unbroken : '\n' ∉ line) (member : c ∈ line)
    (visible : Text.isBlank c = false) (outside : c ∉ "while True:".toList) :
    IsPreamble (line ++ ['\n']) :=
  .line unbroken (isLoopHeader_eq_false (List.mem_append_left _ member) visible outside) .nil

theorem isPreamble_blank : IsPreamble ['\n'] :=
  @IsPreamble.line [] [] (by decide) (by decide) .nil

theorem isPreamble_assignment {name value : Text} (nameUnbroken : '\n' ∉ name)
    (valueUnbroken : '\n' ∉ value) : IsPreamble (name ++ " = ".toList ++ value ++ ['\n']) :=
  @isPreamble_line _ '=' (by simp [nameUnbroken, valueUnbroken]) (by simp) (by decide) (by decide)

theorem isPreamble_render {binding : Binding} (script : IsScriptName binding.identifier) :
    IsPreamble binding.render := by
  have name : '\n' ∉ binding.identifier := script.not_mem
  have construction (opening closing : Text) (openingUnbroken : '\n' ∉ opening)
      (closingUnbroken : '\n' ∉ closing) :
      IsPreamble (binding.identifier ++ " = ".toList ++
        (opening ++ Text.ofNat binding.pin ++ closing) ++ ['\n']) :=
    isPreamble_assignment name (by
      simp [Text.not_mem_ofNat, openingUnbroken, closingUnbroken])
  unfold Binding.render
  split
  · simpa using construction "Pin(".toList ", Pin.OUT)".toList (by decide) (by decide)
  · simpa using construction "Pin(".toList ", Pin.IN, Pin.PULL_UP)".toList (by decide) (by decide)
  · simpa using construction "Pin(".toList ", Pin.IN)".toList (by decide) (by decide)
  · have scale : IsPreamble (binding.identifier ++
        ".atten(ADC.ATTN_11DB)  # Full range 0-3.3V".toList ++ ['\n']) :=
      @isPreamble_line _ '(' (by simp [name]) (by simp) (by decide) (by decide)
    have object := construction "ADC(Pin(".toList "))".toList (by decide) (by decide)
    simpa using object.append scale

/-- No line in front of a converted loop is taken for its header. -/
theorem Conversion.isPreamble_preamble {source : Text} {conversion : Conversion}
    (harvested : conversion.context = Context.harvest source) : IsPreamble conversion.preamble := by
  have blankUnless (empty : Bool) : IsPreamble (if empty then [] else ['\n']) := by
    cases empty
    · exact isPreamble_blank
    · exact .nil
  have imports : IsPreamble conversion.imports := by
    have time : IsPreamble "import time\n\n".toList :=
      (@isPreamble_line "import time".toList 'p' (by decide) (by decide) (by decide)
        (by decide)).append isPreamble_blank
    unfold Conversion.imports
    split
    · exact (@isPreamble_line "from machine import Pin, ADC".toList 'p' (by decide) (by decide)
        (by decide) (by decide)).append time
    · exact (@isPreamble_line "from machine import Pin".toList 'p' (by decide) (by decide)
        (by decide) (by decide)).append time
  have assignments : IsPreamble conversion.assignments := by
    refine IsPreamble.append (.flatMap fun constant member => ?_) (blankUnless _)
    refine isPreamble_assignment (@not_mem_constantName source _ ?_) (not_mem_valueText _)
    rw [← harvested]
    exact List.mem_of_mem_filter member
  have constructions : IsPreamble conversion.constructions := by
    refine IsPreamble.append (.flatMap fun binding member => ?_) (blankUnless _)
    refine isPreamble_render (Context.hasScriptNames_harvest source binding ?_)
    rw [← harvested]
    exact member
  exact (imports.append assignments).append constructions

section

variable {source text : Text} (noImport : isScript source = false)
  (defined : functionBody? "loop" (tokenize (Sketch.stripComments source)) = some text)

include noImport defined

/-- The conversion of a sketch that has a loop. -/
theorem convert?_of_loop :
    convert? source = some
      { usesAnalog := (tokenize (Sketch.stripComments source)).any (·.isIdent "analogRead")
        context := Context.harvest (Sketch.stripComments source)
        body := some (convertBlock (Context.harvest (Sketch.stripComments source)) text) } := by
  rw [convert?, noImport, if_neg Bool.false_ne_true]
  simp only [defined, Option.isNone_some, Bool.and_false, Bool.false_eq_true, if_false, Option.map_some]

theorem split?_of_loop
    (written : AreWritten (convertBlock (Context.harvest (Sketch.stripComments source)) text))
    {conversion : Conversion} (converted : convert? source = some conversion) :
    split? (ofSketch source) = some ⟨conversion.preamble, Text.unlines
      ((convertBlock (Context.harvest (Sketch.stripComments source)) text).map ScriptLine.indented)⟩ := by
  obtain rfl := Option.some.inj ((convert?_of_loop noImport defined).symm.trans converted)
  rw [ofSketch, converted]
  exact split?_loop (Conversion.isPreamble_preamble rfl) written

end

end Breadboard.Script
