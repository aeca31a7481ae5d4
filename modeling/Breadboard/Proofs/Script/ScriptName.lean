import Breadboard.Proofs.Sketch.Fragment
import Breadboard.Script.Context

set_option autoImplicit false

namespace Breadboard.Script

open Sketch

/-- A character of a word that is no capital letter. -/
def isSmallChar (c : Char) : Bool :=
  isWordChar c && !c.isUpper

/-- A name in small letters. It can be empty: the constant `_PIN` has an empty name before its suffix. -/
structure IsScriptName (name : Text) : Prop where
  small : name.all isSmallChar = true
  start : ∀ c ∈ name.head?, isWordStart c = true

theorem isScriptName_of_all {name : Text}
    (checked : (name.all isSmallChar && name.head?.all isWordStart) = true) : IsScriptName name := by
  rw [Bool.and_eq_true] at checked
  refine ⟨checked.1, fun c first => ?_⟩
  simpa [Option.mem_def.mp first] using checked.2

def Context.HasScriptNames (context : Context) : Prop :=
  ∀ binding ∈ context.bindings, IsScriptName binding.identifier

theorem isUpper_iff (c : Char) : c.isUpper = true ↔ 65 ≤ c.toNat ∧ c.toNat ≤ 90 := by
  simp [Char.isUpper, UInt32.le_iff_toNat_le]

theorem isLower_iff (c : Char) : c.isLower = true ↔ 97 ≤ c.toNat ∧ c.toNat ≤ 122 := by
  simp [Char.isLower, UInt32.le_iff_toNat_le]

theorem isDigit_iff (c : Char) : c.isDigit = true ↔ 48 ≤ c.toNat ∧ c.toNat ≤ 57 := by
  simp [Char.isDigit, UInt32.le_iff_toNat_le]

theorem toNat_toLower (c : Char) :
    c.toLower.toNat = if c.isUpper then c.toNat + 32 else c.toNat := by
  unfold Char.toLower
  by_cases upper : c.isUpper = true
  · have range := (isUpper_iff c).mp upper
    rw [dif_pos (by simpa [UInt32.le_iff_toNat_le] using range), if_pos upper]
    have small : c.val.toNat ≤ 90 := range.2
    show (c.val + ('a'.val - 'A'.val)).toNat = c.val.toNat + 32
    rw [UInt32.toNat_add]
    exact Nat.mod_eq_of_lt (by simp; omega)
  · rw [if_neg upper, dif_neg]
    rw [isUpper_iff] at upper
    simpa [UInt32.le_iff_toNat_le] using upper

theorem isUpper_toLower (c : Char) : c.toLower.isUpper = false := by
  by_contra upper
  rw [Bool.not_eq_false, isUpper_iff, toNat_toLower] at upper
  by_cases before : c.isUpper = true
  · rw [if_pos before] at upper
    rw [isUpper_iff] at before
    omega
  · rw [if_neg before] at upper
    exact before ((isUpper_iff c).mpr upper)

theorem isAlpha_toLower {c : Char} (alpha : c.isAlpha = true) : c.toLower.isAlpha = true := by
  rw [Char.isAlpha, Bool.or_eq_true, isUpper_iff, isLower_iff] at alpha ⊢
  rw [toNat_toLower]
  by_cases upper : c.isUpper = true
  · rw [if_pos upper]
    rw [isUpper_iff] at upper
    omega
  · rw [if_neg upper]
    exact alpha

theorem toLower_of_not_isUpper {c : Char} (small : c.isUpper = false) : c.toLower = c := by
  apply Char.toNat_inj.mp
  rw [toNat_toLower, small, if_neg Bool.false_ne_true]

theorem isWordStart_toLower {c : Char} (start : isWordStart c = true) :
    isWordStart c.toLower = true := by
  rw [isWordStart, Bool.or_eq_true] at start ⊢
  rcases start with alpha | line
  · exact Or.inl (isAlpha_toLower alpha)
  · rw [beq_iff_eq] at line
    subst line
    exact Or.inr rfl

theorem isSmallChar_toLower {c : Char} (word : isWordChar c = true) :
    isSmallChar c.toLower = true := by
  rw [isSmallChar, isUpper_toLower, Bool.not_false, Bool.and_true]
  simp only [isWordChar, Char.isAlphanum, Bool.or_eq_true, beq_iff_eq] at word ⊢
  rcases word with (alpha | digit) | rfl
  · exact Or.inl (Or.inl (isAlpha_toLower alpha))
  · have small : c.isUpper = false := by
      by_contra upper
      rw [Bool.not_eq_false, isUpper_iff] at upper
      rw [isDigit_iff] at digit
      omega
    rw [toLower_of_not_isUpper small]
    exact Or.inl (Or.inr digit)
  · exact Or.inr rfl

theorem isSmallChar_of_isDigit {c : Char} (digit : c.isDigit = true) : isSmallChar c = true := by
  have small : c.isUpper = false := by
    by_contra upper
    rw [Bool.not_eq_false, isUpper_iff] at upper
    rw [isDigit_iff] at digit
    omega
  simp [isSmallChar, isWordChar, Char.isAlphanum, digit, small]

theorem isWordChar_of_isWordStart {c : Char} (start : isWordStart c = true) :
    isWordChar c = true := by
  simp only [isWordStart, isWordChar, Char.isAlphanum, Bool.or_eq_true] at start ⊢
  rcases start with alpha | line
  · exact Or.inl (Or.inl alpha)
  · exact Or.inr line

theorem all_isSmallChar_ofNat (n : Nat) : (Text.ofNat n).all isSmallChar = true := by
  rw [List.all_eq_true]
  intro c member
  exact isSmallChar_of_isDigit (Nat.isDigit_of_mem_toDigits (by decide) (by decide) member)

theorem IsScriptName.isWordChar_of_mem {name : Text} (script : IsScriptName name) :
    ∀ c ∈ name, isWordChar c = true := fun c member =>
  (Bool.and_eq_true_iff.mp (List.all_eq_true.mp script.small c member)).1

theorem IsScriptName.isIdentifier_iff {name : Text} (script : IsScriptName name) :
    isIdentifier name = !name.isEmpty := by
  cases name with
  | nil => rfl
  | cons c rest =>
      have words : rest.all isWordChar = true := List.all_eq_true.mpr fun d member =>
        script.isWordChar_of_mem d (List.mem_cons_of_mem c member)
      rw [isIdentifier, script.start c rfl, words]
      rfl

theorem IsScriptName.lowercase {name : Text} (identifier : isIdentifier name = true) :
    IsScriptName (lowercase name) := by
  cases name with
  | nil => cases identifier
  | cons c rest =>
      rw [isIdentifier, Bool.and_eq_true, List.all_eq_true] at identifier
      obtain ⟨start, run⟩ := identifier
      refine ⟨?_, fun d first => ?_⟩
      · rw [List.all_eq_true]
        intro d member
        obtain ⟨before, inName, rfl⟩ := List.mem_map.mp member
        rcases List.mem_cons.mp inName with rfl | inRest
        · exact isSmallChar_toLower (isWordChar_of_isWordStart start)
        · exact isSmallChar_toLower (run before inRest)
      · obtain rfl : c.toLower = d := by simpa [Script.lowercase] using first
        exact isWordStart_toLower start

theorem IsScriptName.append {name more : Text} (script : IsScriptName name) (notEmpty : name ≠ [])
    (small : more.all isSmallChar = true) : IsScriptName (name ++ more) := by
  refine ⟨by rw [List.all_append, script.small, small, Bool.and_self], fun c first => ?_⟩
  rw [List.head?_append_of_ne_nil _ notEmpty] at first
  exact script.start c first

theorem isIdentifier_of_append {base more : Text} (notEmpty : base ≠ [])
    (identifier : isIdentifier (base ++ more) = true) : isIdentifier base = true := by
  cases base with
  | nil => exact absurd rfl notEmpty
  | cons c rest =>
      rw [List.cons_append, isIdentifier, Bool.and_eq_true, List.all_append, Bool.and_eq_true]
        at identifier
      rw [isIdentifier, identifier.1, identifier.2.1]
      rfl

theorem splitLastUnderscore?_eq_some {name before after : Text}
    (split : splitLastUnderscore? name = some (before, after)) :
    name = before ++ '_' :: after := by
  unfold splitLastUnderscore? at split
  rw [List.span_eq_takeWhile_dropWhile] at split
  simp only at split
  cases rest : name.reverse.dropWhile (· != '_') with
  | nil => simp [rest] at split
  | cons c more =>
      have isLine : c = '_' := by
        have := List.head?_dropWhile_not (· != '_') name.reverse
        rw [rest] at this
        simpa using this
      subst isLine
      simp only [rest, Option.some_inj, Prod.mk.injEq] at split
      have whole := List.takeWhile_append_dropWhile (p := (· != '_')) (l := name.reverse)
      rw [rest] at whole
      have := congrArg List.reverse whole
      rw [List.reverse_reverse, List.reverse_append, List.reverse_cons] at this
      rw [← this, split.1, split.2, List.append_assoc, List.singleton_append]

theorem splitIndexed?_eq_some {name base : Text} {index : Nat}
    (split : splitIndexed? name = some (base, index)) : base ≠ [] ∧ ∃ more, name = base ++ more := by
  unfold splitIndexed? at split
  simp only [Option.bind_eq_bind, Option.bind_eq_some_iff] at split
  obtain ⟨⟨before, after⟩, parts, _, _, found, suffix, rest⟩ := split
  by_cases empty : found.isEmpty = true
  · rw [if_pos empty] at rest
    cases rest
  · rw [if_neg empty] at rest
    obtain ⟨rfl, rfl⟩ := Prod.mk.inj (Option.some.inj rest)
    refine ⟨by simpa using empty, pinSuffix ++ '_' :: after, ?_⟩
    have beforeEq : found ++ pinSuffix = before := List.append_eq_of_isSuffixOf?_eq_some suffix
    rw [splitLastUnderscore?_eq_some parts, ← beforeEq, List.append_assoc]

theorem all_isDigit_of_pinNumber? {text : Text} {pin : Nat} (number : Text.pinNumber? text = some pin) :
    text.all Char.isDigit = true := by
  unfold Text.pinNumber? Text.numeralBelow? Text.numeral? at number
  by_cases digits : (!text.isEmpty && text.all Char.isDigit) = true
  · exact (Bool.and_eq_true_iff.mp digits).2
  · rw [if_neg digits] at number
    cases number

/-- A reference is one word, and the script's name for it is a name in small letters. -/
theorem PinRef.ofText?_eq_some {text : Text} {ref : PinRef} (found : PinRef.ofText? text = some ref) :
    text.all isWordChar = true ∧ IsScriptName ref.identifier := by
  unfold PinRef.ofText? at found
  cases number : Text.pinNumber? text with
  | some pin =>
      simp only [number, Option.some_inj] at found
      subst found
      have digits := all_isDigit_of_pinNumber? number
      rw [List.all_eq_true] at digits
      refine ⟨?_, ?_⟩
      · rw [List.all_eq_true]
        intro c member
        simp [isWordChar, Char.isAlphanum, digits c member]
      · exact IsScriptName.append (isScriptName_of_all rfl) (by decide) (all_isSmallChar_ofNat pin)
  | none =>
      rw [number] at found
      by_cases identifier : isIdentifier text = true
      · simp only [identifier, ↓reduceIte] at found
        refine ⟨?_, ?_⟩
        · cases text with
          | nil => rfl
          | cons c rest =>
              rw [isIdentifier, Bool.and_eq_true] at identifier
              rw [List.all_cons, isWordChar_of_isWordStart identifier.1, identifier.2]
              rfl
        · cases split : splitIndexed? text with
          | some parts =>
              obtain ⟨base, index⟩ := parts
              simp only [split, Option.some_inj] at found
              subst found
              obtain ⟨notEmpty, more, rfl⟩ := splitIndexed?_eq_some split
              exact (IsScriptName.lowercase (isIdentifier_of_append notEmpty identifier)).append
                (by simpa [Script.lowercase] using notEmpty) (all_isSmallChar_ofNat index)
          | none =>
              simp only [split, Option.some_inj] at found
              subst found
              rw [PinRef.identifier]
              cases base? : pinSuffix.isSuffixOf? text with
              | none => exact IsScriptName.lowercase identifier
              | some base =>
                  rw [Option.getD_some]
                  by_cases empty : base = []
                  · subst empty
                    exact isScriptName_of_all rfl
                  · rw [← List.append_eq_of_isSuffixOf?_eq_some base?] at identifier
                    exact IsScriptName.lowercase (isIdentifier_of_append empty identifier)
      · simp [identifier] at found

theorem callsOf_of_absent {name : String} {tokens : List Token}
    (absent : ∀ token ∈ tokens, token.isIdent name = false) (afterDot : Bool) :
    callsOf name afterDot tokens = [] := by
  induction tokens generalizing afterDot with
  | nil => rfl
  | cons token rest ih =>
      rw [callsOf, absent token List.mem_cons_self, Bool.false_and,
        ih fun other member => absent other (List.mem_cons_of_mem _ member)]
      rfl

namespace Context

theorem digitalBinding?_eq_some {constants : List Constant} {args : List Text} {binding : Binding}
    (found : digitalBinding? constants args = some binding) :
    ∃ ref, PinRef.ofText? binding.source = some ref ∧
      pinOf constants binding.source ref = some binding.pin ∧
      binding.identifier = ref.identifier ∧ binding.kind ≠ .analog := by
  unfold digitalBinding? at found
  split at found
  · rename_i source mode
    have made : ∃ kind : BindingKind, kind ≠ .analog ∧ ((PinRef.ofText? source).bind fun ref =>
        (pinOf constants source ref).bind fun pin =>
          some (⟨ref.identifier, pin, kind, source⟩ : Binding)) = some binding := by
      simp only [Option.bind_eq_bind, Option.pure_def] at found
      split at found
      · exact ⟨.output, by decide, found⟩
      · split at found
        · exact ⟨.input true, by decide, found⟩
        · split at found
          · exact ⟨.input false, by decide, found⟩
          · cases found
    obtain ⟨kind, digital, bound⟩ := made
    simp only [Option.bind_eq_some_iff, Option.some_inj] at bound
    obtain ⟨ref, isRef, pin, atPin, rfl⟩ := bound
    exact ⟨ref, isRef, atPin, rfl, digital⟩
  · cases found

theorem analogBinding?_eq_some {constants : List Constant} {args : List Text} {binding : Binding}
    (found : analogBinding? constants args = some binding) :
    ∃ ref, PinRef.ofText? binding.source = some ref ∧
      pinOf constants binding.source ref = some binding.pin ∧
      binding.identifier = analogIdentifier ref ∧ binding.kind = .analog := by
  unfold analogBinding? at found
  split at found
  · simp only [Option.bind_eq_bind, Option.bind_eq_some_iff, Option.pure_def, Option.some_inj]
      at found
    obtain ⟨ref, isRef, pin, atPin, rfl⟩ := found
    exact ⟨ref, isRef, atPin, rfl, rfl⟩
  · cases found

theorem isScriptName_analogIdentifier {source : Text} {ref : PinRef}
    (isRef : PinRef.ofText? source = some ref) : IsScriptName (analogIdentifier ref) := by
  have small := (PinRef.ofText?_eq_some isRef).2.small
  cases ref with
  | number pin =>
      exact IsScriptName.append (isScriptName_of_all rfl) (by decide) (all_isSmallChar_ofNat pin)
  | indexed base index => exact IsScriptName.append (isScriptName_of_all rfl) (by decide) small
  | named name => exact IsScriptName.append (isScriptName_of_all rfl) (by decide) small

theorem mem_of_mem_distinctSources {bindings : List Binding} {binding : Binding}
    (member : binding ∈ distinctSources bindings) : binding ∈ bindings := by
  have fold : ∀ (more kept : List Binding),
      binding ∈ more.foldl (fun kept binding =>
        if kept.any (·.source == binding.source) then kept else kept ++ [binding]) kept →
      binding ∈ kept ∨ binding ∈ more := by
    intro more
    induction more with
    | nil => exact fun _ inKept => Or.inl inKept
    | cons next rest ih =>
        intro kept inFold
        rw [List.foldl_cons] at inFold
        rcases ih _ inFold with inKept | inRest
        · split at inKept
          · exact Or.inl inKept
          · rcases List.mem_append.mp inKept with before | isNext
            · exact Or.inl before
            · rw [List.mem_singleton.mp isNext]
              exact Or.inr List.mem_cons_self
        · exact Or.inr (List.mem_cons_of_mem _ inRest)
  rcases fold bindings [] member with inKept | inAll
  · cases inKept
  · exact inAll

/-- A binding of a sketch is the one that a call of `pinMode` or of `analogRead` asks for. -/
theorem mem_bindings_harvest {source : Text} {binding : Binding}
    (member : binding ∈ (harvest source).bindings) :
    (∃ args, digitalBinding? (harvest source).constants args = some binding) ∨
      ∃ args, analogBinding? (harvest source).constants args = some binding := by
  rcases List.mem_append.mp member with digital | analog
  · have inDigital : binding ∈ (callsOf "pinMode" false (tokenize source)).filterMap
        (digitalBinding? (constantTable (tokenize source))) := by
      rcases List.mem_append.mp digital with output | input
      · exact (List.mem_filter.mp output).1
      · exact (List.mem_filter.mp input).1
    obtain ⟨args, -, found⟩ := List.mem_filterMap.mp inDigital
    exact Or.inl ⟨args, found⟩
  · obtain ⟨args, -, found⟩ := List.mem_filterMap.mp (mem_of_mem_distinctSources analog)
    exact Or.inr ⟨args, found⟩

/-- Whatever a sketch declares, its pins have names in small letters. -/
theorem hasScriptNames_harvest (source : Text) : (harvest source).HasScriptNames := by
  intro binding member
  rcases mem_bindings_harvest member with ⟨args, found⟩ | ⟨args, found⟩
  · obtain ⟨ref, isRef, -, nameEq, -⟩ := digitalBinding?_eq_some found
    rw [nameEq]
    exact (PinRef.ofText?_eq_some isRef).2
  · obtain ⟨ref, isRef, -, nameEq, -⟩ := analogBinding?_eq_some found
    rw [nameEq]
    exact isScriptName_analogIdentifier isRef

/-- The bindings of a role and a pin, in the order of the script. -/
def bindingsAt (role : Binding → Bool) (context : Context) (pin : Nat) : List Binding :=
  (context.bindings.filter role).filter (·.pin == pin)

/-- A table of names by pin has the name of the last binding of each pin, and no other. -/
theorem getElem?_namesByPin (role : Binding → Bool) (context : Context) (pin : Nat) :
    (context.namesByPin role)[pin]? =
      (context.bindingsAt role pin).getLast?.map Binding.identifier := by
  unfold namesByPin bindingsAt
  induction context.bindings.filter role using List.reverseRecOn with
  | nil => simp
  | append_singleton bindings binding ih =>
      rw [List.foldl_append, List.foldl_cons, List.foldl_nil, Std.TreeMap.getElem?_insert, ih,
        List.filter_append]
      by_cases here : binding.pin = pin
      · simp [here]
      · simp [here]

theorem mem_of_getLast?_bindingsAt {role : Binding → Bool} {context : Context} {pin : Nat}
    {binding : Binding} (last : (context.bindingsAt role pin).getLast? = some binding) :
    binding ∈ context.bindings ∧ role binding = true ∧ binding.pin = pin := by
  obtain ⟨inRole, atPin⟩ := List.mem_filter.mp (List.mem_of_getLast? last)
  obtain ⟨member, isRole⟩ := List.mem_filter.mp inRole
  exact ⟨member, isRole, by simpa using atPin⟩

/-- A table of names by pin holds names of bindings of its role and of the pin only. -/
theorem binding_of_namesByPin {role : Binding → Bool} {context : Context} {pin : Nat} {name : Text}
    (found : (context.namesByPin role)[pin]? = some name) :
    ∃ binding ∈ context.bindings, role binding = true ∧ binding.pin = pin ∧
      binding.identifier = name := by
  rw [getElem?_namesByPin, Option.map_eq_some_iff] at found
  obtain ⟨binding, last, nameEq⟩ := found
  obtain ⟨member, isRole, atPin⟩ := mem_of_getLast?_bindingsAt last
  exact ⟨binding, member, isRole, atPin, nameEq⟩

/-- Each binding's pin has a name in the table of its role. -/
theorem isSome_namesByPin {role : Binding → Bool} {context : Context} {binding : Binding}
    (member : binding ∈ context.bindings) (isRole : role binding = true) :
    ((context.namesByPin role)[binding.pin]?).isSome = true := by
  have here : binding ∈ context.bindingsAt role binding.pin :=
    List.mem_filter.mpr ⟨List.mem_filter.mpr ⟨member, isRole⟩, beq_self_eq_true _⟩
  rw [getElem?_namesByPin, Option.isSome_map, List.getLast?_eq_some_getLast (List.ne_nil_of_mem here)]
  rfl

theorem HasScriptNames.namesByPin {context : Context} (names : context.HasScriptNames)
    {role : Binding → Bool} {pin : Nat} {name : Text}
    (found : (context.namesByPin role)[pin]? = some name) : IsScriptName name := by
  obtain ⟨binding, member, -, -, rfl⟩ := binding_of_namesByPin found
  exact names binding member

end Context

end Breadboard.Script
