import Breadboard.Proofs.Binary64.Whole
import Breadboard.Proofs.Script.LoopSplit
import Breadboard.Proofs.Script.PinSpelling

set_option autoImplicit false

namespace Breadboard.Script

open Sketch (Token isWordChar tokenize)

/-- An object of the script's library of pins. -/
inductive PinObject where
  | digital (pin : Nat)
  | analog (pin : Nat)
  deriving DecidableEq, Repr

namespace PinObject

def pin : PinObject → Nat
  | digital pin => pin
  | analog pin => pin

/-- What can follow the number where a digital object is made. -/
def modes : List Text :=
  [", Pin.OUT)", ", Pin.IN)", ", Pin.IN, Pin.PULL_UP)"].map String.toList

/-- The object that a call such as `Pin(13, Pin.OUT)` or `ADC(Pin(4))` makes. -/
def ofCall? (call : Text) : Option PinObject :=
  match "ADC(Pin(".toList.isPrefixOf? call with
  | some rest =>
    if rest.dropWhile Char.isDigit = "))".toList then
      (Text.numeral? (rest.takeWhile Char.isDigit)).map analog
    else none
  | none =>
    match "Pin(".toList.isPrefixOf? call with
    | some rest =>
      if rest.dropWhile Char.isDigit ∈ modes then
        (Text.numeral? (rest.takeWhile Char.isDigit)).map digital
      else none
    | none => none

def isAnalog : PinObject → Bool
  | digital _ => false
  | analog _ => true

end PinObject

/-- The objects that the names of a script stand for. -/
abbrev PinObjects := Text → Option PinObject

/-- What is called on an analog input to measure its full range. -/
def attenuation : Text :=
  ".atten(ADC.ATTN_11DB)  # Full range 0-3.3V".toList

/-- The objects after one more line. A line that assigns to a word of the language is no line of a
script; `reserved` tells these words. -/
def executeLine? (reserved : Text → Bool) (objects : PinObjects) (line : Text) : Option PinObjects :=
  let name := line.takeWhile isWordChar
  let rest := line.dropWhile isWordChar
  if line.isEmpty then some objects
  else if isIdentifier name && !reserved name then
    match " = ".toList.isPrefixOf? rest with
    | some call =>
      (PinObject.ofCall? call).map fun object => Function.update objects name (some object)
    | none =>
      if rest = attenuation ∧ (objects name).any PinObject.isAnalog then some objects else none
  else none

/-- The objects that the lines of a text leave behind. -/
def execute? (reserved : Text → Bool) (text : Text) : Option PinObjects :=
  (Text.lines text).foldlM (executeLine? reserved) fun _ => none

namespace Binding

/-- The object that a binding asks for. -/
def object (binding : Binding) : PinObject :=
  if binding.isAnalog then .analog binding.pin else .digital binding.pin

/-- The call that makes the object. -/
def call (binding : Binding) : Text :=
  match binding.kind with
  | .output => "Pin(".toList ++ Text.ofNat binding.pin ++ ", Pin.OUT)".toList
  | .input true => "Pin(".toList ++ Text.ofNat binding.pin ++ ", Pin.IN, Pin.PULL_UP)".toList
  | .input false => "Pin(".toList ++ Text.ofNat binding.pin ++ ", Pin.IN)".toList
  | .analog => "ADC(Pin(".toList ++ Text.ofNat binding.pin ++ "))".toList

@[simp] theorem pin_object (binding : Binding) : binding.object.pin = binding.pin := by
  rw [object]
  split <;> rfl

end Binding

/-- A run of characters ends where the next one is of another kind. -/
theorem Text.run_append {kind : Char → Bool} {run more : Text} (inside : ∀ c ∈ run, kind c = true)
    (stop : more.head?.all (!kind ·) = true) :
    (run ++ more).takeWhile kind = run ∧ (run ++ more).dropWhile kind = more := by
  rw [List.takeWhile_append_of_pos inside, List.dropWhile_append_of_pos inside]
  cases more with
  | nil => simp
  | cons c rest =>
      have outside : kind c = false := by simpa using stop
      simp [outside]

namespace PinObject

theorem ofCall?_digital {mode : Text} (isMode : mode ∈ modes) (pin : Nat) :
    ofCall? ("Pin(".toList ++ (Text.ofNat pin ++ mode)) = some (digital pin) := by
  have stop : ∀ mode ∈ modes, mode.head?.all (!·.isDigit) = true := by decide
  obtain ⟨front, back⟩ := Text.run_append (fun _ => @Text.isDigit_of_mem_ofNat pin _)
    (stop mode isMode)
  have notAnalog : "ADC(Pin(".toList.isPrefixOf? ("Pin(".toList ++ (Text.ofNat pin ++ mode)) = none :=
    rfl
  have rest : "Pin(".toList.isPrefixOf? ("Pin(".toList ++ (Text.ofNat pin ++ mode)) =
      some (Text.ofNat pin ++ mode) := rfl
  simp only [ofCall?, notAnalog, rest, front, back, if_pos isMode, Text.numeral?_ofNat, Option.map_some]

theorem ofCall?_analog (pin : Nat) :
    ofCall? ("ADC(Pin(".toList ++ (Text.ofNat pin ++ "))".toList)) = some (analog pin) := by
  obtain ⟨front, back⟩ := @Text.run_append Char.isDigit (Text.ofNat pin) "))".toList
    (fun _ => Text.isDigit_of_mem_ofNat) rfl
  have rest : "ADC(Pin(".toList.isPrefixOf? ("ADC(Pin(".toList ++ (Text.ofNat pin ++ "))".toList)) =
      some (Text.ofNat pin ++ "))".toList) := rfl
  simp only [ofCall?, rest, front, back, if_true, Text.numeral?_ofNat, Option.map_some]

end PinObject

namespace Binding

theorem ofCall?_call (binding : Binding) : PinObject.ofCall? binding.call = some binding.object := by
  cases kind : binding.kind with
  | output =>
      have isMode : ", Pin.OUT)".toList ∈ PinObject.modes := by decide
      simpa [call, object, isAnalog, kind] using PinObject.ofCall?_digital isMode binding.pin
  | input pullUp =>
      cases pullUp with
      | true =>
          have isMode : ", Pin.IN, Pin.PULL_UP)".toList ∈ PinObject.modes := by decide
          simpa [call, object, isAnalog, kind] using PinObject.ofCall?_digital isMode binding.pin
      | false =>
          have isMode : ", Pin.IN)".toList ∈ PinObject.modes := by decide
          simpa [call, object, isAnalog, kind] using PinObject.ofCall?_digital isMode binding.pin
  | analog => simpa [call, object, isAnalog, kind] using PinObject.ofCall?_analog binding.pin

/-- The lines that construct the object of a binding. -/
def constructionLines (binding : Binding) : List Text :=
  (binding.identifier ++ " = ".toList ++ binding.call) ::
    if binding.isAnalog then [binding.identifier ++ attenuation] else []

theorem render_eq (binding : Binding) :
    binding.render = (binding.constructionLines.map (· ++ ['\n'])).flatten := by
  cases kind : binding.kind with
  | output => simp [render, constructionLines, call, isAnalog, kind]
  | input pullUp => cases pullUp <;> simp [render, constructionLines, call, isAnalog, kind]
  | analog =>
      have front : " = ADC(Pin(".toList = " = ".toList ++ "ADC(Pin(".toList := rfl
      have made : "))\n".toList = "))".toList ++ ['\n'] := rfl
      have set : ".atten(ADC.ATTN_11DB)  # Full range 0-3.3V\n".toList = attenuation ++ ['\n'] := rfl
      have isAnalog : binding.isAnalog = true := by rw [Binding.isAnalog, kind, beq_self_eq_true]
      simp only [render, constructionLines, call, kind, isAnalog, if_true, front, made, set,
        List.map_cons, List.map_nil, List.flatten_cons, List.flatten_nil, List.append_assoc,
        List.append_nil]

/-- A character that breaks no line. -/
def isInLine (c : Char) : Bool :=
  c != '\n' && c != '\r'

theorem isInLine_of_isWordChar {c : Char} (word : isWordChar c = true) : isInLine c = true := by
  by_cases feed : c = '\n'
  · subst feed
    cases word
  · by_cases back : c = '\r'
    · subst back
      cases word
    · simp [isInLine, feed, back]

theorem all_isInLine_call (binding : Binding) : binding.call.all isInLine = true := by
  have number : (Text.ofNat binding.pin).all isInLine = true :=
    List.all_eq_true.mpr fun c member =>
      isInLine_of_isWordChar (isWordChar_of_isDigit (Text.isDigit_of_mem_ofNat member))
  unfold call
  split <;> rw [List.all_append, List.all_append, number] <;> rfl

theorem isLine_of_mem_constructionLines {binding : Binding} (script : IsScriptName binding.identifier)
    {line : Text} (member : line ∈ binding.constructionLines) : Text.IsLine line := by
  have name : binding.identifier.all isInLine = true :=
    List.all_eq_true.mpr fun c inName => isInLine_of_isWordChar (script.isWordChar_of_mem c inName)
  have whole : line ≠ [] ∧ line.all isInLine = true := by
    rcases List.mem_cons.mp member with rfl | isSet
    · refine ⟨by simp, ?_⟩
      rw [List.all_append, List.all_append, name, all_isInLine_call]
      rfl
    · split at isSet
      · obtain rfl := List.mem_singleton.mp isSet
        refine ⟨List.append_ne_nil_of_right_ne_nil _ (List.cons_ne_nil _ _), ?_⟩
        rw [List.all_append, name]
        rfl
      · cases isSet
  have inLine := List.all_eq_true.mp whole.2
  refine ⟨whole.1, fun feed => ?_, fun last => ?_⟩
  · cases inLine _ feed
  · cases inLine _ (List.mem_of_getLast? last)

end Binding

/-- Whether a name can be assigned to. -/
def isAssignable (reserved : Text → Bool) (name : Text) : Bool :=
  !name.isEmpty && !reserved name

section

variable {reserved : Text → Bool} {objects : PinObjects}

theorem executeLine?_name {name rest : Text} (script : IsScriptName name)
    (stop : rest.head?.all (!isWordChar ·) = true) (notEmpty : rest ≠ []) :
    executeLine? reserved objects (name ++ rest) =
      if isAssignable reserved name then
        match " = ".toList.isPrefixOf? rest with
        | some call =>
          (PinObject.ofCall? call).map fun object => Function.update objects name (some object)
        | none =>
          if rest = attenuation ∧ (objects name).any PinObject.isAnalog then some objects else none
      else none := by
  obtain ⟨front, back⟩ := Text.run_append script.isWordChar_of_mem stop
  have isEmpty : (name ++ rest).isEmpty = false := by simp [notEmpty]
  have assignable : (isIdentifier name && !reserved name) = isAssignable reserved name := by
    rw [isAssignable, script.isIdentifier_iff]
  simp only [executeLine?, front, back, isEmpty, Bool.false_eq_true, if_false, assignable]

/-- A binding leaves its object under its name. -/
theorem execute_binding {binding : Binding} (script : IsScriptName binding.identifier) :
    binding.constructionLines.foldlM (executeLine? reserved) objects =
      if isAssignable reserved binding.identifier then
        some (Function.update objects binding.identifier (some binding.object))
      else none := by
  have construct : executeLine? reserved objects (binding.identifier ++ " = ".toList ++ binding.call) =
      if isAssignable reserved binding.identifier then
        some (Function.update objects binding.identifier (some binding.object))
      else none := by
    have cut : " = ".toList.isPrefixOf? (" = ".toList ++ binding.call) = some binding.call := rfl
    rw [List.append_assoc, executeLine?_name script rfl (by simp)]
    simp only [cut, binding.ofCall?_call, Option.map_some]
  rw [Binding.constructionLines, List.foldlM_cons, construct]
  by_cases assignable : isAssignable reserved binding.identifier = true
  · rw [if_pos assignable]
    by_cases analog : binding.isAnalog = true
    · have measured : executeLine? reserved
          (Function.update objects binding.identifier (some binding.object))
          (binding.identifier ++ attenuation) =
            some (Function.update objects binding.identifier (some binding.object)) := by
        have noCall : " = ".toList.isPrefixOf? attenuation = none := rfl
        have isAnalog : binding.object.isAnalog = true := by
          rw [Binding.object, if_pos analog]
          rfl
        rw [executeLine?_name script rfl (by decide), if_pos assignable]
        simp only [noCall, Function.update_self, Option.any_some, isAnalog, and_self, if_true]
      rw [if_pos analog]
      simp [measured]
    · simp [analog]
  · simp [assignable]

/-- The objects that bindings leave behind, each under its name. -/
def constructed (objects : PinObjects) (bindings : List Binding) : PinObjects :=
  bindings.foldl (fun objects b => Function.update objects b.identifier (some b.object)) objects

theorem lines_flatten {written : List Text} (all : ∀ line ∈ written, Text.IsLine line) (rest : Text) :
    Text.lines ((written.map (· ++ ['\n'])).flatten ++ rest) = written ++ Text.lines rest := by
  induction written with
  | nil => rfl
  | cons line more ih =>
      have isLine := all line List.mem_cons_self
      have onward := ih fun other member => all other (List.mem_cons_of_mem _ member)
      rw [List.map_cons, List.flatten_cons, List.append_assoc, List.append_assoc,
        List.singleton_append, Text.lines_append_break isLine.unbroken isLine.noReturn, onward,
        List.cons_append]

theorem execute_bindings {bindings : List Binding}
    (scripts : ∀ binding ∈ bindings, IsScriptName binding.identifier) (rest : Text) :
    (Text.lines (bindings.flatMap Binding.render ++ rest)).foldlM (executeLine? reserved) objects =
      if bindings.all fun b => isAssignable reserved b.identifier then
        (Text.lines rest).foldlM (executeLine? reserved) (constructed objects bindings)
      else none := by
  induction bindings generalizing objects with
  | nil => simp [constructed]
  | cons binding more ih =>
      have script := scripts binding List.mem_cons_self
      have others := fun other member => scripts other (List.mem_cons_of_mem binding member)
      have written := lines_flatten (fun line => Binding.isLine_of_mem_constructionLines script)
        (more.flatMap Binding.render ++ rest)
      rw [List.flatMap_cons, List.append_assoc, binding.render_eq, written, List.foldlM_append,
        execute_binding script, List.all_cons]
      by_cases assignable : isAssignable reserved binding.identifier = true
      · simp only [assignable, if_true, Bool.true_and]
        exact ih others
      · simp [assignable]

/-- Each name stands for the object that was constructed last under it. -/
theorem constructed_apply (bindings : List Binding) (name : Text) :
    constructed (fun _ => none) bindings name =
      ((bindings.filter (·.identifier == name)).getLast?).map Binding.object := by
  induction bindings using List.reverseRecOn with
  | nil => rfl
  | append_singleton front binding ih =>
      rw [constructed] at ih ⊢
      rw [List.foldl_append, List.foldl_cons, List.foldl_nil, List.filter_append]
      by_cases here : binding.identifier = name
      · subst here
        simp
      · rw [Function.update_of_ne (Ne.symm here), ih]
        simp [here]

/-- The constructions of a script run if each name can be assigned to, and leave the objects of the
bindings behind. -/
theorem execute?_constructions {conversion : Conversion}
    (scripts : conversion.context.HasScriptNames) :
    execute? reserved conversion.constructions =
      if conversion.context.bindings.all fun b => isAssignable reserved b.identifier then
        some (constructed (fun _ => none) conversion.context.bindings)
      else none := by
  rw [execute?, Conversion.constructions, execute_bindings scripts]
  split
  · split
    · rfl
    · rfl
  · rfl

end

/-- A reference denotes one pin. -/
theorem Denotes.unique {constants : List Constant} {source : Text} {pin other : Nat}
    (denotes : Denotes constants source pin) (denotesOther : Denotes constants source other) :
    pin = other := by
  obtain ⟨ref, isRef, atPin⟩ := denotes_iff.mp denotes
  obtain ⟨otherRef, isOther, atOther⟩ := denotes_iff.mp denotesOther
  obtain rfl : ref = otherRef := Option.some.inj (isRef.symm.trans isOther)
  exact Option.some.inj (atPin.symm.trans atOther)

section

variable {source : Text} {first second : Binding}

/-- Bindings of different pins share a name exactly if their references are spelled alike. -/
theorem identifier_eq_iff (firstMember : first ∈ (Context.harvest source).bindings)
    (secondMember : second ∈ (Context.harvest source).bindings) (apart : first.pin ≠ second.pin) :
    first.identifier = second.identifier ↔
      IsAlike first.use second.use ∨ IsAlike second.use first.use := by
  obtain ⟨denotes, named⟩ := Context.denotes_of_mem_harvest firstMember
  obtain ⟨otherDenotes, otherNamed⟩ := Context.denotes_of_mem_harvest secondMember
  rw [PinUse.name_eq_iff named otherNamed, or_iff_right]
  rintro ⟨-, pin, number, otherNumber⟩
  apply apart
  exact (denotes.unique (.literal number)).trans (otherDenotes.unique (.literal otherNumber)).symm

theorem exists_last {bindings : List Binding} {binding : Binding} (member : binding ∈ bindings) :
    ∃ last ∈ bindings, last.identifier = binding.identifier ∧
      constructed (fun _ => none) bindings binding.identifier = some last.object := by
  have here : binding ∈ bindings.filter (·.identifier == binding.identifier) :=
    List.mem_filter.mpr ⟨member, beq_self_eq_true _⟩
  have isLast := List.getLast?_eq_some_getLast (List.ne_nil_of_mem here)
  obtain ⟨inBindings, named⟩ := List.mem_filter.mp (List.mem_of_getLast? isLast)
  exact ⟨_, inBindings, beq_iff_eq.mp named, by rw [constructed_apply, isLast, Option.map_some]⟩

/-- The objects lead to the pins of their references exactly if no two pins are spelled alike. -/
theorem denoted_iff_not_isAlike :
    (∀ binding ∈ (Context.harvest source).bindings, ∃ object,
        constructed (fun _ => none) (Context.harvest source).bindings binding.identifier =
          some object ∧
        Denotes (Context.harvest source).constants binding.source object.pin) ↔
      ∀ first ∈ (Context.harvest source).bindings, ∀ second ∈ (Context.harvest source).bindings,
        first.pin ≠ second.pin → ¬ IsAlike first.use second.use := by
  constructor
  · intro kept first firstMember second secondMember apart alike
    have same := (identifier_eq_iff firstMember secondMember apart).mpr (Or.inl alike)
    obtain ⟨object, left, denotes⟩ := kept first firstMember
    obtain ⟨other, otherLeft, otherDenotes⟩ := kept second secondMember
    rw [← same, left] at otherLeft
    obtain rfl := Option.some.inj otherLeft
    apply apart
    calc
      first.pin = object.pin := (Context.denotes_of_mem_harvest firstMember).1.unique denotes
      _ = second.pin := ((Context.denotes_of_mem_harvest secondMember).1.unique otherDenotes).symm
  · intro distinct binding member
    obtain ⟨last, lastMember, same, left⟩ := exists_last member
    refine ⟨last.object, left, ?_⟩
    have samePin : last.pin = binding.pin := by
      by_contra apart
      rcases (identifier_eq_iff lastMember member apart).mp same with alike | alike
      · exact distinct last lastMember binding member apart alike
      · exact distinct binding member last lastMember (Ne.symm apart) alike
    rw [Binding.pin_object, samePin]
    exact (Context.denotes_of_mem_harvest member).1

end

/-- What becomes of the pins of a sketch when the script constructs their objects. -/
structure ConstructsPins (context : Context) : Prop where
  /-- A binding has the pin that its reference denotes. -/
  denoted : ∀ binding ∈ context.bindings, Denotes context.constants binding.source binding.pin
  /-- Two pins share a name exactly if references to them are spelled alike. -/
  alike : ∀ first ∈ context.bindings, ∀ second ∈ context.bindings, first.pin ≠ second.pin →
    (first.identifier = second.identifier ↔
      IsAlike first.use second.use ∨ IsAlike second.use first.use)
  /-- The constructions run exactly if each name is one that can be assigned to. -/
  runs : ∀ (reserved : Text → Bool) (conversion : Conversion), conversion.context = context →
    ((execute? reserved conversion.constructions).isSome = true ↔
      ∀ binding ∈ context.bindings, binding.identifier ≠ [] ∧ reserved binding.identifier = false)
  /-- They leave each name with the object of its last binding. -/
  last : ∀ (reserved : Text → Bool) (conversion : Conversion) (objects : PinObjects),
    conversion.context = context → execute? reserved conversion.constructions = some objects →
    ∀ name, objects name =
      ((context.bindings.filter (·.identifier == name)).getLast?).map Binding.object
  /-- So all references lead to the pins that they denote exactly if no two pins are spelled alike. -/
  kept : ∀ (reserved : Text → Bool) (conversion : Conversion) (objects : PinObjects),
    conversion.context = context → execute? reserved conversion.constructions = some objects →
    ((∀ binding ∈ context.bindings, ∃ object, objects binding.identifier = some object ∧
        Denotes context.constants binding.source object.pin) ↔
      ∀ first ∈ context.bindings, ∀ second ∈ context.bindings, first.pin ≠ second.pin →
        ¬ IsAlike first.use second.use)

/-- Whatever a sketch declares, its constructions leave the objects of `ConstructsPins` behind. -/
theorem constructsPins_harvest (source : Text) : ConstructsPins (Context.harvest source) := by
  have scripts := Context.hasScriptNames_harvest source
  have run : ∀ (reserved : Text → Bool) (conversion : Conversion),
      conversion.context = Context.harvest source → execute? reserved conversion.constructions =
        if (Context.harvest source).bindings.all fun b => isAssignable reserved b.identifier then
          some (constructed (fun _ => none) (Context.harvest source).bindings)
        else none := by
    intro reserved conversion same
    rw [← same] at scripts ⊢
    exact execute?_constructions scripts
  have left : ∀ (reserved : Text → Bool) (conversion : Conversion) (objects : PinObjects),
      conversion.context = Context.harvest source →
      execute? reserved conversion.constructions = some objects →
      constructed (fun _ => none) (Context.harvest source).bindings = objects := by
    intro reserved conversion objects same executed
    rw [run reserved conversion same] at executed
    split at executed
    · exact Option.some.inj executed
    · cases executed
  refine ⟨fun binding member => (Context.denotes_of_mem_harvest member).1,
    fun first firstMember second secondMember => identifier_eq_iff firstMember secondMember, ?_, ?_, ?_⟩
  · intro reserved conversion same
    rw [run reserved conversion same]
    simp [isAssignable]
  · intro reserved conversion objects same executed name
    rw [← left reserved conversion objects same executed, constructed_apply]
  · intro reserved conversion objects same executed
    rw [← left reserved conversion objects same executed]
    exact denoted_iff_not_isAlike

/-- Two pins whose names differ in their capitals only. -/
def twoLeds : Text :=
  "#define LED 5\n#define led 6\nvoid setup() \x7b pinMode(LED, OUTPUT); pinMode(led, OUTPUT); \x7d\n".toList

def twoLedsTokens : List Token :=
  [⟨.punct, "#".toList⟩, ⟨.ident, "define".toList⟩, ⟨.space, " ".toList⟩, ⟨.ident, "LED".toList⟩,
    ⟨.space, " ".toList⟩, ⟨.number, "5".toList⟩, ⟨.space, "\n".toList⟩, ⟨.punct, "#".toList⟩,
    ⟨.ident, "define".toList⟩, ⟨.space, " ".toList⟩, ⟨.ident, "led".toList⟩, ⟨.space, " ".toList⟩,
    ⟨.number, "6".toList⟩, ⟨.space, "\n".toList⟩, ⟨.ident, "void".toList⟩, ⟨.space, " ".toList⟩,
    ⟨.ident, "setup".toList⟩, ⟨.punct, "(".toList⟩, ⟨.punct, ")".toList⟩, ⟨.space, " ".toList⟩,
    ⟨.punct, "\x7b".toList⟩, ⟨.space, " ".toList⟩, ⟨.ident, "pinMode".toList⟩,
    ⟨.punct, "(".toList⟩, ⟨.ident, "LED".toList⟩, ⟨.punct, ",".toList⟩, ⟨.space, " ".toList⟩,
    ⟨.ident, "OUTPUT".toList⟩, ⟨.punct, ")".toList⟩, ⟨.punct, ";".toList⟩, ⟨.space, " ".toList⟩,
    ⟨.ident, "pinMode".toList⟩, ⟨.punct, "(".toList⟩, ⟨.ident, "led".toList⟩,
    ⟨.punct, ",".toList⟩, ⟨.space, " ".toList⟩, ⟨.ident, "OUTPUT".toList⟩, ⟨.punct, ")".toList⟩,
    ⟨.punct, ";".toList⟩, ⟨.space, " ".toList⟩, ⟨.punct, "\x7d".toList⟩, ⟨.space, "\n".toList⟩]

def twoLedsBindings : List Binding :=
  [⟨"led".toList, 5, .output, "LED".toList⟩, ⟨"led".toList, 6, .output, "led".toList⟩]

theorem bindings_twoLeds : (Context.harvest twoLeds).bindings = twoLedsBindings := by
  have tokens : tokenize twoLeds = twoLedsTokens := by cbv
  -- The numbers are kept as variables, for their units are too many to be computed.
  obtain ⟨five, number, pin⟩ :
      ∃ five, numericLiteral? "5".toList = some five ∧ five.pinNumber? = some 5 :=
    ⟨_, @numericLiteral?_ofNat 5 (by decide), @Binary64.pinNumber?_ofNat 5 (by decide)⟩
  obtain ⟨six, otherNumber, otherPin⟩ :
      ∃ six, numericLiteral? "6".toList = some six ∧ six.pinNumber? = some 6 :=
    ⟨_, @numericLiteral?_ofNat 6 (by decide), @Binary64.pinNumber?_ofNat 6 (by decide)⟩
  have found : definitions twoLedsTokens =
      ((numericLiteral? "5".toList).map (Constant.mk "LED".toList)).toList ++
        ((numericLiteral? "6".toList).map (Constant.mk "led".toList)).toList := rfl
  have constants : constantTable twoLedsTokens = [⟨"LED".toList, five⟩, ⟨"led".toList, six⟩] := by
    rw [constantTable, found, number, otherNumber]
    rfl
  have calls : callsOf "pinMode" false twoLedsTokens =
      [["LED".toList, "OUTPUT".toList], ["led".toList, "OUTPUT".toList]] := rfl
  have noAnalog : callsOf "analogRead" false twoLedsTokens = [] := rfl
  have upper : Context.digitalBinding? [⟨"LED".toList, five⟩, ⟨"led".toList, six⟩]
      ["LED".toList, "OUTPUT".toList] = some ⟨"led".toList, 5, .output, "LED".toList⟩ := by
    show (five.pinNumber?.bind fun pin =>
      some (⟨"led".toList, pin, .output, "LED".toList⟩ : Binding)) = _
    rw [pin, Option.bind_some]
  have lower : Context.digitalBinding? [⟨"LED".toList, five⟩, ⟨"led".toList, six⟩]
      ["led".toList, "OUTPUT".toList] = some ⟨"led".toList, 6, .output, "led".toList⟩ := by
    show (six.pinNumber?.bind fun pin =>
      some (⟨"led".toList, pin, .output, "led".toList⟩ : Binding)) = _
    rw [otherPin, Option.bind_some]
  rw [Context.harvest, tokens, Context.harvestTokens, constants, calls, noAnalog]
  simp only [List.filterMap_cons, List.filterMap_nil, upper, lower]
  rfl

/-- The second pin takes the name of the first one, and the object of the first one is lost. -/
theorem twoLeds_share_object :
    ∃ first ∈ (Context.harvest twoLeds).bindings, ∃ second ∈ (Context.harvest twoLeds).bindings,
      first.pin ≠ second.pin ∧ first.identifier = second.identifier ∧
      ∀ conversion : Conversion, conversion.context = Context.harvest twoLeds →
        ∃ objects, execute? (fun _ => false) conversion.constructions = some objects ∧
          objects first.identifier = some (.digital second.pin) := by
  have bindings := bindings_twoLeds
  refine ⟨⟨"led".toList, 5, .output, "LED".toList⟩, by simp [bindings, twoLedsBindings],
    ⟨"led".toList, 6, .output, "led".toList⟩, by simp [bindings, twoLedsBindings], by decide, rfl, ?_⟩
  intro conversion same
  have scripts : conversion.context.HasScriptNames := by
    rw [same]
    exact Context.hasScriptNames_harvest twoLeds
  refine ⟨_, by rw [execute?_constructions scripts, same, bindings]; rfl, ?_⟩
  rw [constructed_apply]
  rfl

end Breadboard.Script
