import Breadboard.Proofs.DistinctList
import Breadboard.Proofs.Script.PinSpelling

set_option autoImplicit false

namespace Breadboard.Script

namespace Context

/-- The distinct references of a pin's bindings, in the order of the bindings. -/
def sourcesAt (context : Context) (pin : Nat) : List Text :=
  ((context.bindings.filter (·.pin == pin)).map Binding.source).eraseDups

/-- The pins that are reported. -/
def reportedPins (context : Context) : List Nat :=
  context.collisions.map Prod.fst

section

variable {context : Context} {pin : Nat}

/-- The table of references has those of each pin that is bound, and no other pin. -/
theorem getElem?_sourcesByPin (context : Context) (pin : Nat) :
    context.sourcesByPin[pin]? =
      if context.sourcesAt pin = [] then none else some (context.sourcesAt pin) := by
  obtain ⟨constants, bindings⟩ := context
  unfold sourcesByPin sourcesAt
  induction bindings using List.reverseRecOn with
  | nil => simp
  | append_singleton bindings binding ih =>
      simp only [List.foldl_append, List.foldl_cons, List.foldl_nil, List.filter_append,
        List.filter_cons, List.filter_nil]
      by_cases here : binding.pin = pin
      · subst here
        rw [if_pos (beq_self_eq_true _), List.map_append, List.map_singleton, eraseDups_concat,
          Std.TreeMap.getD_eq_getD_getElem?, ih]
        generalize (bindings.filter (·.pin == binding.pin)).map Binding.source = sources at ih ⊢
        have held : (if sources.eraseDups = [] then none else some sources.eraseDups).getD [] =
            sources.eraseDups := by
          split
          · rename_i nothing
            rw [nothing, Option.getD_none]
          · rfl
        have present : sources.eraseDups.contains binding.source = sources.contains binding.source := by
          simp
        rw [held, present]
        split
        · exact ih
        · rw [Std.TreeMap.getElem?_insert_self, if_neg (by simp)]
      · have other : ¬(binding.pin == pin) = true := by simpa using here
        rw [if_neg other, List.append_nil]
        split
        · exact ih
        · rw [Std.TreeMap.getElem?_insert, if_neg (by simpa using here), ih]

theorem mem_collisions {sources : List Text} :
    (pin, sources) ∈ context.collisions ↔
      sources = context.sourcesAt pin ∧ 1 < (context.sourcesAt pin).length := by
  rw [collisions, List.mem_filter, Std.TreeMap.mem_toList_iff_getElem?_eq_some, getElem?_sourcesByPin]
  constructor
  · rintro ⟨found, several⟩
    obtain ⟨-, same⟩ := Option.ite_none_left_eq_some.mp found
    obtain rfl := Option.some.inj same
    exact ⟨rfl, by simpa using several⟩
  · rintro ⟨rfl, several⟩
    refine ⟨if_neg fun nothing => ?_, by simpa using several⟩
    rw [nothing] at several
    cases several

/-- A pin is reported if and only if two of its bindings have different references. -/
theorem mem_reportedPins :
    pin ∈ context.reportedPins ↔ ∃ first ∈ context.bindings, ∃ second ∈ context.bindings,
      first.pin = pin ∧ second.pin = pin ∧ first.source ≠ second.source := by
  have reported : pin ∈ context.reportedPins ↔ 1 < (context.sourcesAt pin).length := by
    simp [reportedPins, mem_collisions]
  rw [reported, sourcesAt, one_lt_length_eraseDups]
  constructor
  · rintro ⟨_, ofFirst, _, ofSecond, differ⟩
    obtain ⟨first, isFirst, rfl⟩ := List.mem_map.mp ofFirst
    obtain ⟨second, isSecond, rfl⟩ := List.mem_map.mp ofSecond
    obtain ⟨isFirst, atPin⟩ := List.mem_filter.mp isFirst
    obtain ⟨isSecond, alsoAtPin⟩ := List.mem_filter.mp isSecond
    exact ⟨first, isFirst, second, isSecond, eq_of_beq atPin, eq_of_beq alsoAtPin, differ⟩
  · rintro ⟨first, isFirst, second, isSecond, atPin, alsoAtPin, differ⟩
    have member {binding : Binding} (isBinding : binding ∈ context.bindings) (here : binding.pin = pin) :
        binding.source ∈ (context.bindings.filter (·.pin == pin)).map Binding.source :=
      List.mem_map_of_mem (List.mem_filter.mpr ⟨isBinding, beq_iff_eq.mpr here⟩)
    exact ⟨_, member isFirst atPin, _, member isSecond alsoAtPin, differ⟩

theorem pairwise_reportedPins (context : Context) : context.reportedPins.Pairwise (· < ·) := by
  refine List.pairwise_map.mpr (List.Pairwise.filter _ ?_)
  exact Std.TreeMap.ordered_keys_toList.imp fun before => Nat.compare_eq_lt.mp before

/-- Where the bindings of a pin in one role share a name, the table of the role has this name. -/
theorem getElem?_namesByPin_of_same {role : Binding → Bool} {name : Text}
    (same : ∀ binding ∈ context.bindings, role binding = true → binding.pin = pin →
      binding.identifier = name) :
    (context.namesByPin role)[pin]? =
      if context.bindingsAt role pin = [] then none else some name := by
  rw [getElem?_namesByPin]
  cases last : (context.bindingsAt role pin).getLast? with
  | none => rw [if_pos (List.getLast?_eq_none_iff.mp last), Option.map_none]
  | some binding =>
      have member := List.mem_of_getLast? last
      obtain ⟨member, atPin⟩ := List.mem_filter.mp member
      obtain ⟨isBinding, inRole⟩ := List.mem_filter.mp member
      rw [Option.map_some, same binding isBinding inRole (eq_of_beq atPin), if_neg]
      intro nothing
      rw [nothing] at last
      cases last

/-- Then it has this name in any order of the bindings. -/
theorem getElem?_namesByPin_of_perm {role : Binding → Bool} (name : Text) {order : List Binding}
    (reordered : order.Perm context.bindings)
    (same : ∀ binding ∈ context.bindings, role binding = true → binding.pin = pin →
      binding.identifier = name) :
    (namesByPin role ⟨context.constants, order⟩)[pin]? = (context.namesByPin role)[pin]? := by
  have samePins : (bindingsAt role ⟨context.constants, order⟩ pin).Perm (context.bindingsAt role pin) :=
    (reordered.filter _).filter _
  rw [getElem?_namesByPin_of_same same,
    getElem?_namesByPin_of_same fun binding member => same binding (reordered.mem_iff.mp member)]
  by_cases nothing : context.bindingsAt role pin = []
  · rw [nothing] at samePins
    rw [if_pos nothing, if_pos samePins.eq_nil]
  · rw [if_neg nothing, if_neg fun empty => nothing (by rw [empty] at samePins; exact samePins.symm.eq_nil)]

end

/-- A pin has one name for digital and one for analog use, and the tables say the same of it in any order of
the bindings. -/
structure IsUnambiguous (context : Context) (pin : Nat) : Prop where
  oneName : ∃ digital analog, ∀ binding ∈ context.bindings, binding.pin = pin →
    binding.identifier = if binding.isAnalog then analog else digital
  anyOrder : ∀ order : List Binding, order.Perm context.bindings →
    (outputNames ⟨context.constants, order⟩)[pin]? = context.outputNames[pin]? ∧
    (inputNames ⟨context.constants, order⟩)[pin]? = context.inputNames[pin]? ∧
    (analogNames ⟨context.constants, order⟩)[pin]? = context.analogNames[pin]?

/-- The pins that several references lead to are reported in ascending order, each with its distinct
references in the order of the bindings, and all other pins are unambiguous. -/
structure ReportsCollisions (context : Context) : Prop where
  reported : ∀ pin, pin ∈ context.reportedPins ↔ ∃ first ∈ context.bindings, ∃ second ∈ context.bindings,
    first.pin = pin ∧ second.pin = pin ∧ first.source ≠ second.source
  sources : ∀ pin sources, (pin, sources) ∈ context.collisions →
    sources = ((context.bindings.filter (·.pin == pin)).map Binding.source).eraseDups
  ascending : context.reportedPins.Pairwise (· < ·)
  unambiguous : ∀ pin, pin ∉ context.reportedPins → context.IsUnambiguous pin

theorem not_isAnalog_of_isOutput {binding : Binding} (isOutput : binding.isOutput = true) :
    ¬ binding.isAnalog = true := by
  have kind : binding.kind = .output := eq_of_beq isOutput
  rw [Binding.isAnalog, kind]
  exact Bool.false_ne_true

theorem not_isAnalog_of_isInput {binding : Binding} (isInput : binding.isInput = true) :
    ¬ binding.isAnalog = true := by
  intro isAnalog
  rw [Binding.isInput, eq_of_beq isAnalog] at isInput
  cases isInput

/-- One name for each way of use is enough: outputs and inputs are digital, and no binding has two ways. -/
theorem isUnambiguous_of_oneName {context : Context} {pin : Nat}
    (oneName : ∃ digital analog, ∀ binding ∈ context.bindings, binding.pin = pin →
      binding.identifier = if binding.isAnalog then analog else digital) :
    context.IsUnambiguous pin := by
  obtain ⟨digital, analog, named⟩ := oneName
  refine ⟨⟨digital, analog, named⟩, fun order reordered => ⟨?outputs, ?inputs, ?analogs⟩⟩
  case outputs =>
    refine getElem?_namesByPin_of_perm digital reordered fun binding member isOutput atPin => ?_
    rw [named binding member atPin, if_neg (not_isAnalog_of_isOutput isOutput)]
  case inputs =>
    refine getElem?_namesByPin_of_perm digital reordered fun binding member isInput atPin => ?_
    rw [named binding member atPin, if_neg (not_isAnalog_of_isInput isInput)]
  case analogs =>
    refine getElem?_namesByPin_of_perm analog reordered fun binding member isAnalog atPin => ?_
    rw [named binding member atPin, if_pos isAnalog]

/-- All bindings of a pin that is not reported have one reference, and a reference asks for one name in each
way of use. -/
theorem oneName_of_not_mem_reportedPins {source : Text} {pin : Nat}
    (silent : pin ∉ (harvest source).reportedPins) :
    ∃ digital analog, ∀ binding ∈ (harvest source).bindings, binding.pin = pin →
      binding.identifier = if binding.isAnalog then analog else digital := by
  have oneSource : ∃ reference, ∀ binding ∈ (harvest source).bindings, binding.pin = pin →
      binding.source = reference := by
    by_cases bound : ∃ binding ∈ (harvest source).bindings, binding.pin = pin
    · obtain ⟨first, isFirst, atPin⟩ := bound
      refine ⟨first.source, fun second isSecond alsoAtPin => by_contra fun differ => ?_⟩
      exact silent (mem_reportedPins.mpr ⟨second, isSecond, first, isFirst, alsoAtPin, atPin, differ⟩)
    · exact ⟨[], fun binding member atPin => absurd ⟨binding, member, atPin⟩ bound⟩
  obtain ⟨reference, only⟩ := oneSource
  refine ⟨(PinUse.name? ⟨false, reference⟩).getD [], (PinUse.name? ⟨true, reference⟩).getD [], ?_⟩
  intro binding member atPin
  obtain ⟨-, named⟩ := denotes_of_mem_harvest member
  rw [Binding.use, only binding member atPin] at named
  cases isAnalog : binding.isAnalog with
  | false =>
      rw [isAnalog] at named
      rw [named, if_neg Bool.false_ne_true, Option.getD_some]
  | true =>
      rw [isAnalog] at named
      rw [named, if_pos rfl, Option.getD_some]

theorem reportsCollisions_harvest (source : Text) : (harvest source).ReportsCollisions where
  reported _ := mem_reportedPins
  sources _ _ member := (mem_collisions.mp member).1
  ascending := pairwise_reportedPins _
  unambiguous _ silent := isUnambiguous_of_oneName (oneName_of_not_mem_reportedPins silent)

end Context

end Breadboard.Script
