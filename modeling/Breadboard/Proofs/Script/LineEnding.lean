import Breadboard.Proofs.Script.BodyLines
import Breadboard.Proofs.Script.LogicalLines
import Breadboard.Proofs.Script.LoopSplit
import Breadboard.Proofs.Script.PinBindings
import Breadboard.Proofs.Script.TrimmedTokens

set_option autoImplicit false

namespace Breadboard.Script

open Sketch hiding stripComments

section

variable (tokens : List Token)

theorem dropTrivia_map :
    dropTrivia (tokens.map Token.withBareBreak) = (dropTrivia tokens).map Token.withBareBreak := by
  have same : Token.isTrivia ∘ Token.withBareBreak = Token.isTrivia := funext Token.isTrivia_withBareBreak
  rw [dropTrivia, List.dropWhile_map, same]
  rfl

/-- What a search cuts out of the tokens and what it leaves, with bare line breaks. -/
def bareParts : List Token × List Token → List Token × List Token :=
  Prod.map (List.map Token.withBareBreak) (List.map Token.withBareBreak)

theorem splitGroup_map (opening closing : String) (depth : Nat) :
    splitGroup opening closing depth (tokens.map Token.withBareBreak) =
      (splitGroup opening closing depth tokens).map bareParts := by
  induction tokens generalizing depth with
  | nil => rfl
  | cons token rest ih =>
      have longer (found : Option (List Token × List Token)) :
          (found.map bareParts).map (Prod.map (token.withBareBreak :: ·) id) =
            (found.map (Prod.map (token :: ·) id)).map bareParts := by
        rw [Option.map_map, Option.map_map]
        rfl
      rw [List.map_cons, splitGroup_cons, splitGroup_cons, Token.isPunct_withBareBreak,
        Token.isPunct_withBareBreak]
      split
      · rw [ih]
        exact longer _
      · split
        · cases depth with
          | zero => rfl
          | succ outer =>
              show (splitGroup opening closing outer (rest.map Token.withBareBreak)).map _ = _
              rw [ih]
              exact longer _
        · rw [ih]
          exact longer _

theorem parenthesized?_map :
    parenthesized? (tokens.map Token.withBareBreak) = (parenthesized? tokens).map bareParts := by
  rw [parenthesized?, parenthesized?, dropTrivia_map]
  cases dropTrivia tokens with
  | nil => rfl
  | cons token rest =>
      simp only [List.map_cons, Token.isPunct_withBareBreak]
      split
      · exact splitGroup_map rest "(" ")" 0
      · rfl

theorem braced?_map : braced? (tokens.map Token.withBareBreak) = (braced? tokens).map bareParts := by
  rw [braced?, braced?, dropTrivia_map]
  cases dropTrivia tokens with
  | nil => rfl
  | cons token rest =>
      simp only [List.map_cons, Token.isPunct_withBareBreak]
      split
      · exact splitGroup_map rest "\x7b" "\x7d" 0
      · rfl

theorem bodyAfterName?_map :
    bodyAfterName? (tokens.map Token.withBareBreak) =
      (bodyAfterName? tokens).map (List.map Token.withBareBreak) := by
  rw [bodyAfterName?, bodyAfterName?, parenthesized?_map]
  cases parenthesized? tokens with
  | none => rfl
  | some parts =>
      simp only [Option.map_some, Option.bind_eq_bind, Option.bind_some, bareParts, Prod.map_snd, braced?_map]
      cases braced? parts.2 with
      | none => rfl
      | some inside => rfl

theorem bodyWithin?_map (name : String) (afterVoid : Bool) :
    bodyWithin? name afterVoid (tokens.map Token.withBareBreak) =
      (bodyWithin? name afterVoid tokens).map (List.map Token.withBareBreak) := by
  induction tokens generalizing afterVoid with
  | nil => rfl
  | cons token rest ih =>
      rw [List.map_cons, bodyWithin?, bodyWithin?]
      simp only [Token.isIdent_withBareBreak, Token.isTrivia_withBareBreak, bodyAfterName?_map, ih]
      by_cases named : (token.isIdent name && afterVoid) = true
      · simp only [named, if_true]
        cases bodyAfterName? rest with
        | none => rfl
        | some body => rfl
      · simp only [named, Bool.false_eq_true, if_false]

theorem leadingNumber?_map : leadingNumber? (tokens.map Token.withBareBreak) = leadingNumber? tokens := by
  cases tokens with
  | nil => rfl
  | cons token rest =>
      simp only [List.map_cons, leadingNumber?, Token.kind_withBareBreak]
      split
      · rename_i number
        rw [Token.withBareBreak_of_kind_ne (by simp [number])]
      · rfl

theorem signedNumber?_map : signedNumber? (tokens.map Token.withBareBreak) = signedNumber? tokens := by
  rw [signedNumber?, signedNumber?, dropTrivia_map]
  cases dropTrivia tokens with
  | nil => rfl
  | cons token rest =>
      have unsigned : leadingNumber? (token.withBareBreak :: rest.map Token.withBareBreak) =
          leadingNumber? (token :: rest) := leadingNumber?_map (token :: rest)
      simp only [List.map_cons, Token.isPunct_withBareBreak, dropTrivia_map, leadingNumber?_map, unsigned]

theorem macroConstant?_map : macroConstant? (tokens.map Token.withBareBreak) = macroConstant? tokens := by
  rw [macroConstant?, macroConstant?, dropTrivia_map]
  cases dropTrivia tokens with
  | nil => rfl
  | cons keyword rest =>
      simp only [List.map_cons, Token.isIdent_withBareBreak, dropTrivia_map]
      split
      · cases dropTrivia rest with
        | nil => rfl
        | cons name value =>
            simp only [List.map_cons, Token.kind_withBareBreak, signedNumber?_map]
            split
            · rename_i ident
              rw [Token.withBareBreak_of_kind_ne (by simp [ident])]
            · rfl
      · rfl

theorem isNumericType_withBareBreak (token : Token) :
    isNumericType token.withBareBreak = isNumericType token := by
  by_cases space : token.kind = .space
  · rw [isNumericType, isNumericType, Token.kind_withBareBreak, space]
    rfl
  · rw [Token.withBareBreak_of_kind_ne space]

theorem declaredConstant?_map :
    declaredConstant? (tokens.map Token.withBareBreak) = declaredConstant? tokens := by
  have types : dropNumericTypes (tokens.map Token.withBareBreak) =
      (dropNumericTypes tokens).map Token.withBareBreak := by
    rw [dropNumericTypes, List.dropWhile_map]
    simp [dropNumericTypes, Function.comp_def, isNumericType_withBareBreak]
  have typed : (dropTrivia (tokens.map Token.withBareBreak)).head?.any isNumericType =
      (dropTrivia tokens).head?.any isNumericType := by
    rw [dropTrivia_map, List.head?_map, Option.any_map]
    simp only [isNumericType_withBareBreak]
  rw [declaredConstant?, declaredConstant?, typed, types]
  split
  · cases dropNumericTypes tokens with
    | nil => rfl
    | cons name rest =>
        simp only [List.map_cons, Token.kind_withBareBreak, dropTrivia_map]
        split
        · rename_i ident
          rw [Token.withBareBreak_of_kind_ne (by simp [ident])]
          cases dropTrivia rest with
          | nil => rfl
          | cons equals value =>
              simp only [List.map_cons, Token.isPunct_withBareBreak, signedNumber?_map]
        · rfl
  · rfl

theorem definitions_map : definitions (tokens.map Token.withBareBreak) = definitions tokens := by
  induction tokens with
  | nil => rfl
  | cons token rest ih =>
      simp only [List.map_cons, definitions, Token.isPunct_withBareBreak, Token.isIdent_withBareBreak,
        macroConstant?_map, declaredConstant?_map, ih]

/-- A blank with a line break ends a line however the break is spelled, and no other token changes. -/
theorem linesFrom_map (depth : Nat) (collected : Text) :
    linesFrom depth collected (tokens.map Token.withBareBreak) = linesFrom depth collected tokens := by
  induction tokens generalizing depth collected with
  | nil => rfl
  | cons token rest ih =>
      by_cases breaks : token.isBreak = true
      · have isBreak : (token.kind == .space && token.text.contains '\n') = true := breaks
        rw [List.map_cons, Token.withBareBreak_of_isBreak breaks, linesFrom, linesFrom, if_pos isBreak,
          if_pos (by decide), ih]
      · have before : (dropTrivia (rest.map Token.withBareBreak)).head?.any (·.isIdent "else") =
            (dropTrivia rest).head?.any (·.isIdent "else") := by
          rw [dropTrivia_map, List.head?_map, Option.any_map]
          simp only [Token.isIdent_withBareBreak]
        rw [List.map_cons, Token.withBareBreak_of_not_isBreak breaks, linesFrom, linesFrom]
        simp only [ih, before]

theorem pieces_map (depth : Nat) :
    pieces depth (tokens.map Token.withBareBreak) =
      (pieces depth tokens).map (List.map Token.withBareBreak) := by
  induction tokens generalizing depth with
  | nil => simp [pieces]
  | cons token rest ih =>
      have opening : token.withBareBreak.isOpening = token.isOpening := by
        simp only [Token.isOpening, Token.isPunct_withBareBreak]
      have closing : token.withBareBreak.isClosing = token.isClosing := by
        simp only [Token.isClosing, Token.isPunct_withBareBreak]
      rw [List.map_cons, pieces, pieces]
      simp only [Token.isPunct_withBareBreak, opening, closing, ih]
      split
      · rfl
      · generalize pieces _ rest = found
        cases found with
        | nil => rfl
        | cons piece more => rfl

end

theorem allBlank_render_eq_false {tokens : List Token} {token : Token} (member : token ∈ tokens)
    (visible : Text.allBlank token.text = false) : Text.allBlank (render tokens) = false := by
  by_contra all
  rw [Bool.not_eq_false] at all
  have blank : Text.allBlank token.text = true := List.all_eq_true.mpr fun c inToken =>
    List.all_eq_true.mp all c (List.mem_flatMap.mpr ⟨token, member, inToken⟩)
  rw [blank] at visible
  cases visible

/-- The blanks among the tokens are blank texts. -/
def AreSpaced (tokens : List Token) : Prop :=
  ∀ token ∈ tokens, token.kind = .space → Text.allBlank token.text = true

theorem areSpaced_tokenize (text : Text) : AreSpaced (tokenize text) :=
  fun _ member => allBlank_of_mem_tokenize member

section

variable {tokens : List Token} (spaced : AreSpaced tokens)

include spaced

theorem AreSpaced.subset {part : List Token} (inside : part ⊆ tokens) : AreSpaced part :=
  fun token member => spaced token (inside member)

theorem AreSpaced.allBlank_of_isBreak {token : Token} (member : token ∈ tokens)
    (breaks : token.isBreak = true) : Text.allBlank token.text = true ∧ '\n' ∈ token.text := by
  rw [Token.isBreak, Bool.and_eq_true, beq_iff_eq] at breaks
  exact ⟨spaced token member breaks.1, by simpa using breaks.2⟩

theorem AreSpaced.allBlank_render_map :
    Text.allBlank (render (tokens.map Token.withBareBreak)) = Text.allBlank (render tokens) := by
  induction tokens with
  | nil => rfl
  | cons token rest ih =>
      have here : token.withBareBreak.text.all Text.isBlank = token.text.all Text.isBlank := by
        by_cases breaks : token.isBreak = true
        · rw [Token.withBareBreak_of_isBreak breaks]
          exact (spaced.allBlank_of_isBreak List.mem_cons_self breaks).1.symm
        · rw [Token.withBareBreak_of_not_isBreak breaks]
      have later := ih (spaced.subset (List.subset_cons_self token rest))
      rw [Text.allBlank, Text.allBlank] at later
      rw [Text.allBlank, Text.allBlank, List.map_cons, render_cons, render_cons, List.all_append,
        List.all_append, here, later]

/-- A line break between what is not blank is not trimmed off. -/
theorem AreSpaced.mem_trim_map {front back : List Token} {token : Token}
    (split : tokens = front ++ token :: back) (breaks : token.isBreak = true)
    (frontVisible : Text.allBlank (render front) = false) (backVisible : Text.allBlank (render back) = false) :
    '\n' ∈ Text.trim (render (tokens.map Token.withBareBreak)) ∧ '\n' ∈ Text.trim (render tokens) := by
  subst split
  have inText := (spaced.allBlank_of_isBreak (by simp) breaks).2
  have frontSpaced : AreSpaced front := spaced.subset (by simp)
  have backSpaced : AreSpaced back := spaced.subset (by simp)
  rw [List.map_append, List.map_cons, Token.withBareBreak_of_isBreak breaks, render_append, render_append,
    render_cons, render_cons]
  exact ⟨Text.mem_trim_between (frontSpaced.allBlank_render_map.trans frontVisible)
      (backSpaced.allBlank_render_map.trans backVisible) List.mem_cons_self,
    Text.mem_trim_between frontVisible backVisible inText⟩

/-- Trimmed texts of the tokens are the same, or both are broken. -/
theorem AreSpaced.trim_render_map :
    Text.trim (render (tokens.map Token.withBareBreak)) = Text.trim (render tokens) ∨
      '\n' ∈ Text.trim (render (tokens.map Token.withBareBreak)) ∧ '\n' ∈ Text.trim (render tokens) := by
  obtain ⟨lead, part, trail, rfl, leadBlank, trailBlank, first, last⟩ :=
    exists_dropped (fun token => Text.allBlank token.text) tokens
  have leadSpaced : AreSpaced lead := spaced.subset (by simp)
  have partSpaced : AreSpaced part := spaced.subset (by simp)
  have trailSpaced : AreSpaced trail := spaced.subset (by simp)
  simp only [List.map_append, render_append]
  rw [Text.trim_blank_append (leadSpaced.allBlank_render_map.trans (allBlank_render leadBlank)),
    Text.trim_blank_append (allBlank_render leadBlank),
    Text.trim_append_blank (trailSpaced.allBlank_render_map.trans (allBlank_render trailBlank)),
    Text.trim_append_blank (allBlank_render trailBlank)]
  by_cases broken : ∃ token ∈ part, token.isBreak = true
  · obtain ⟨token, member, breaks⟩ := broken
    obtain ⟨front, back, rfl⟩ := List.append_of_mem member
    have blank := (partSpaced.allBlank_of_isBreak member breaks).1
    refine Or.inr (partSpaced.mem_trim_map rfl breaks ?_ ?_)
    · cases front with
      | nil => exact absurd blank (Bool.eq_false_iff.mp (first token rfl))
      | cons start more => exact allBlank_render_eq_false List.mem_cons_self (first start rfl)
    · rcases List.eq_nil_or_concat' back with rfl | ⟨others, final, rfl⟩
      · exact absurd blank (Bool.eq_false_iff.mp (last token (by simp)))
      · have isLast : (front ++ token :: (others ++ [final])).getLast? = some final := by
          rw [← List.cons_append, ← List.append_assoc, List.getLast?_concat]
        exact allBlank_render_eq_false (by simp) (last final isLast)
  · have same : part.map Token.withBareBreak = part :=
      (List.map_congr_left fun token member =>
        Token.withBareBreak_of_not_isBreak fun breaks => broken ⟨token, member, breaks⟩).trans (List.map_id part)
    rw [same]
    exact Or.inl rfl

end

/-- Arguments of a call that are the same, or neither of which is a word. -/
def SameArgument (argument other : Text) : Prop :=
  argument = other ∨ '\n' ∈ argument ∧ '\n' ∈ other

theorem AreSpaced.sameArguments {inner : List Token} (spaced : AreSpaced inner) :
    List.Forall₂ SameArgument (Sketch.arguments (inner.map Token.withBareBreak)) (Sketch.arguments inner) := by
  have trivia : (inner.map Token.withBareBreak).all Token.isTrivia = inner.all Token.isTrivia := by
    rw [List.all_map]
    simp only [Function.comp_def, Token.isTrivia_withBareBreak]
  rw [Sketch.arguments, Sketch.arguments, trivia, pieces_map, List.map_map]
  split
  · exact .nil
  · rw [List.forall₂_map_left_iff, List.forall₂_map_right_iff, List.forall₂_same]
    exact fun piece member => (spaced.subset (subset_of_mem_pieces member)).trim_render_map

section

variable {constants : List Constant} {reference mode : Text}

theorem bindingFor?_of_broken (broken : '\n' ∈ reference) (kind : BindingKind) :
    bindingFor? constants reference kind = none := by
  cases found : PinRef.ofText? reference with
  | none => rw [bindingFor?, found, Option.bind_none]
  | some ref => exact absurd broken (not_mem_of_words (PinRef.ofText?_eq_some found).1)

theorem digitalBinding?_of_broken (broken : '\n' ∈ reference ∨ '\n' ∈ mode) :
    Context.digitalBinding? constants [reference, mode] = none := by
  rw [digitalBinding?_pair]
  rcases broken with broken | broken
  · simp only [bindingFor?_of_broken broken, ite_self]
  · have differs {word : String} (plain : '\n' ∉ word.toList) : mode ≠ word.toList := by
      rintro rfl
      exact plain broken
    rw [if_neg (differs (by decide)), if_neg (differs (by decide)), if_neg (differs (by decide))]

theorem digitalBinding?_congr {args others : List Text} (same : List.Forall₂ SameArgument args others) :
    Context.digitalBinding? constants args = Context.digitalBinding? constants others := by
  match args, others, same with
  | [], [], _ => rfl
  | [_], [_], _ => rfl
  | [reference, mode], [other, way], .cons sameReference (.cons sameMode .nil) =>
      rcases sameReference with rfl | ⟨broken, alsoBroken⟩
      · rcases sameMode with rfl | ⟨broken, alsoBroken⟩
        · rfl
        · rw [digitalBinding?_of_broken (.inr broken), digitalBinding?_of_broken (.inr alsoBroken)]
      · rw [digitalBinding?_of_broken (.inl broken), digitalBinding?_of_broken (.inl alsoBroken)]
  | _ :: _ :: _ :: _, _ :: _ :: _ :: _, _ => rfl

theorem analogBinding?_of_broken (broken : '\n' ∈ reference) :
    Context.analogBinding? constants [reference] = none := by
  cases found : PinRef.ofText? reference with
  | none => simp [Context.analogBinding?, found]
  | some ref => exact absurd broken (not_mem_of_words (PinRef.ofText?_eq_some found).1)

theorem analogBinding?_congr {args others : List Text} (same : List.Forall₂ SameArgument args others) :
    Context.analogBinding? constants args = Context.analogBinding? constants others := by
  match args, others, same with
  | [], [], _ => rfl
  | [reference], [other], .cons sameReference .nil =>
      rcases sameReference with rfl | ⟨broken, alsoBroken⟩
      · rfl
      · rw [analogBinding?_of_broken broken, analogBinding?_of_broken alsoBroken]
  | _ :: _ :: _, _ :: _ :: _, _ => rfl

end

section

variable {tokens : List Token} (spaced : AreSpaced tokens)

include spaced

/-- What the calls of a function ask for is the same if it is so for arguments that are the same or broken. -/
theorem AreSpaced.filterMap_callsOf {β : Type} {f : List Text → Option β}
    (congr : ∀ args others, List.Forall₂ SameArgument args others → f args = f others) (name : String)
    (afterDot : Bool) :
    (callsOf name afterDot (tokens.map Token.withBareBreak)).filterMap f =
      (callsOf name afterDot tokens).filterMap f := by
  induction tokens generalizing afterDot with
  | nil => rfl
  | cons token rest ih =>
      have later := ih (spaced.subset (List.subset_cons_self token rest))
      rw [List.map_cons, callsOf, callsOf]
      simp only [Token.isIdent_withBareBreak, Token.isTrivia_withBareBreak, Token.isPunct_withBareBreak,
        List.filterMap_append, later, parenthesized?_map]
      congr 1
      split
      · cases group : parenthesized? rest with
        | none => rfl
        | some parts =>
            have inside := (subset_of_parenthesized? group).1
            have innerSpaced : AreSpaced parts.1 :=
              spaced.subset (List.Subset.trans inside (List.subset_cons_self token rest))
            have same := congr _ _ innerSpaced.sameArguments
            simp only [Option.map_some, Option.toList_some, List.filterMap_cons, List.filterMap_nil, bareParts,
              Prod.map_fst, same]
      · rfl

theorem AreSpaced.harvestTokens_map :
    Context.harvestTokens (tokens.map Token.withBareBreak) = Context.harvestTokens tokens := by
  rw [Context.harvestTokens, Context.harvestTokens, constantTable, constantTable, definitions_map]
  simp only [spaced.filterMap_callsOf fun _ _ => digitalBinding?_congr,
    spaced.filterMap_callsOf fun _ _ => analogBinding?_congr]

end

section

variable {text other : Text}
  (same : (tokenize other).map Token.withBareBreak = (tokenize text).map Token.withBareBreak)

include same

theorem harvest_eq_of_bareBreaks : Context.harvest other = Context.harvest text := by
  rw [Context.harvest, Context.harvest, ← (areSpaced_tokenize other).harvestTokens_map, same,
    (areSpaced_tokenize text).harvestTokens_map]

theorem any_isIdent_eq_of_bareBreaks (name : String) :
    (tokenize other).any (·.isIdent name) = (tokenize text).any (·.isIdent name) := by
  have bare (tokens : List Token) :
      (tokens.map Token.withBareBreak).any (·.isIdent name) = tokens.any (·.isIdent name) := by
    rw [List.any_map]
    simp only [Function.comp_def, Token.isIdent_withBareBreak]
  rw [← bare (tokenize other), same, bare]

theorem bodyWithin?_eq_of_bareBreaks (name : String) :
    (bodyWithin? name false (tokenize other)).map (List.map Token.withBareBreak) =
      (bodyWithin? name false (tokenize text)).map (List.map Token.withBareBreak) := by
  rw [← bodyWithin?_map, ← bodyWithin?_map, same]

theorem isNone_functionBody?_eq_of_bareBreaks (name : String) :
    (functionBody? name (tokenize other)).isNone = (functionBody? name (tokenize text)).isNone := by
  have bodies := congrArg Option.isNone (bodyWithin?_eq_of_bareBreaks same name)
  rw [Option.isNone_map, Option.isNone_map] at bodies
  rw [functionBody?, functionBody?, Option.isNone_map, Option.isNone_map, bodies]

/-- The bodies are cut into the same logical lines. -/
theorem map_convertBlock_eq_of_bareBreaks (context : Context) (name : String) :
    (functionBody? name (tokenize other)).map (convertBlock context) =
      (functionBody? name (tokenize text)).map (convertBlock context) := by
  have bodies := bodyWithin?_eq_of_bareBreaks same name
  rw [functionBody?, functionBody?]
  cases otherFound : bodyWithin? name false (tokenize other) with
  | none =>
      rw [otherFound] at bodies
      rw [Option.map_eq_none_iff.mp bodies.symm]
  | some otherBody =>
      rw [otherFound] at bodies
      obtain ⟨body, found, bare⟩ := Option.map_eq_some_iff.mp bodies.symm
      have lines : logicalLines (render otherBody) = logicalLines (render body) := by
        rw [logicalLines, logicalLines, tokenize_render_infix (bodyWithin?_isInfix otherFound),
          tokenize_render_infix (bodyWithin?_isInfix found), ← linesFrom_map otherBody, ← linesFrom_map body, bare]
      simp only [found, Option.map_some, convertBlock, lines]

end

/-- What becomes of a sketch depends on its tokens without comments, and not on the spelling of the line breaks
in its blanks. -/
theorem convert?_eq_of_bareBreaks {source other : Text} (script : isScript other = isScript source)
    (same : (tokenize (Sketch.stripComments other)).map Token.withBareBreak =
      (tokenize (Sketch.stripComments source)).map Token.withBareBreak) :
    convert? other = convert? source := by
  rw [convert?, convert?, script]
  simp only [isNone_functionBody?_eq_of_bareBreaks same, harvest_eq_of_bareBreaks same,
    any_isIdent_eq_of_bareBreaks same, map_convertBlock_eq_of_bareBreaks same]

theorem isScript_eq_of_rebroken {source other : Text} (rebroken : Text.Rebroken source other) :
    isScript other = isScript source := by
  rw [isScript, isScript, rebroken.occursIn_eq (by decide) (by decide),
    rebroken.occursIn_eq (by decide) (by decide)]

/-- A sketch with other line endings is converted into the same script. -/
theorem outcome_replace_lineEnding {source : Text} (converted : (outcome source).isConverted = true)
    (unbroken : ∀ token ∈ literals (tokenize source), '\n' ∉ token.text) :
    (outcome (Text.replace "\n".toList "\r\n".toList source)).isConverted = true ∧
      (outcome (Text.replace "\n".toList "\r\n".toList source)).script = (outcome source).script := by
  have rebroken := Text.rebroken_replace source
  have same : convert? (Text.replace "\n".toList "\r\n".toList source) = convert? source :=
    convert?_eq_of_bareBreaks (isScript_eq_of_rebroken rebroken)
      (map_withBareBreak_stripComments rebroken unbroken)
  cases conversion : convert? source with
  | none =>
      rw [outcome, conversion] at converted
      cases converted
  | some found =>
      rw [outcome, outcome, same, conversion]
      exact ⟨rfl, rfl⟩

/-- A loop of one line, with comments and a string. -/
def shortLoop : Text :=
  "// Report.\nvoid loop() \x7b /* once\n */\n  print(\"on\");\n\x7d\n".toList

theorem shortLoop_replace_lineEnding :
    (outcome shortLoop).isConverted = true ∧
      (∀ token ∈ literals (tokenize shortLoop), '\n' ∉ token.text) ∧
      (outcome (Text.replace "\n".toList "\r\n".toList shortLoop)).isConverted = true ∧
      (outcome (Text.replace "\n".toList "\r\n".toList shortLoop)).script = (outcome shortLoop).script := by
  have noImport : isScript shortLoop = false := by decide
  have defined : functionBody? "loop" (tokenize (Sketch.stripComments shortLoop)) =
      some " \n\n  print(\"on\");\n".toList := by
    cbv
  have converted : (outcome shortLoop).isConverted = true := by
    rw [outcome, convert?_of_loop noImport defined]
  have strings : literals (tokenize shortLoop) = [⟨.literal, "\"on\"".toList⟩] := by cbv
  have unbroken : ∀ token ∈ literals (tokenize shortLoop), '\n' ∉ token.text := by
    rw [strings]
    decide
  exact ⟨converted, unbroken, outcome_replace_lineEnding converted unbroken⟩

end Breadboard.Script
