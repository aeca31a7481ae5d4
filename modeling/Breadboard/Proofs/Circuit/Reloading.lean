import Breadboard.Circuit.Notation

set_option autoImplicit false

/- Diagrams read from their own notation. A record is read as it was written, since its keys differ, and a
kind that was read from a text is the one that its tag stands for. Only an empty list of pins does not
come back as it was. -/
namespace Breadboard

namespace Json

variable {members : List (String × Json)}

theorem filter_key_eq_nil {key : String} (absent : key ∉ members.map Prod.fst) :
    (members.map fun (key, value) => (some key.toList, value)).filter
      (·.1 == some key.toList) = [] := by
  rw [List.filter_eq_nil_iff]
  intro member listed same
  obtain ⟨⟨name, value⟩, isMember, rfl⟩ := List.mem_map.mp listed
  have sameKey : name = key := by simpa [String.toList_inj] using same
  exact absent (List.mem_map.mpr ⟨(name, value), isMember, sameKey⟩)

theorem member?_ofMembers (distinct : (members.map Prod.fst).Nodup) (key : String) :
    member? (members.map fun (key, value) => (some key.toList, value)) key =
      some (members.lookup key) := by
  induction members with
  | nil => rfl
  | cons member rest ih =>
      obtain ⟨name, value⟩ := member
      obtain ⟨fresh, distinct⟩ := List.nodup_cons.mp distinct
      by_cases same : key = name
      · subst same
        rw [member?, List.map_cons, List.filter_cons_of_pos (by simp), filter_key_eq_nil fresh,
          List.lookup_cons_self]
      · have other : ¬(some name.toList == some key.toList) = true := by
          simpa [String.toList_inj] using Ne.symm same
        have skipped : (key == name) = false := beq_eq_false_iff_ne.mpr same
        simp only [member?, List.map_cons, List.filter_cons, if_neg other, List.lookup_cons, skipped]
        exact ih distinct

/-- An object with distinct keys has the fields that it was written from. -/
theorem fields?_ofMembers (distinct : (members.map Prod.fst).Nodup) (keys : List String) :
    (ofMembers members).fields? keys = some (keys.map fun key => members.lookup key) := by
  have allText : (members.map fun (key, value) => (some key.toList, value)).all
      (·.1.isSome) = true := by
    simp
  rw [ofMembers, fields?, if_pos allText]
  induction keys with
  | nil => rfl
  | cons key rest ih => simp [List.mapM_cons, member?_ofMembers distinct, ih]

@[simp] theorem text?_ofText (text : Text) : (ofText text).text? = some text := rfl

end Json

namespace Circuit

theorem Kind.ofTag_tag_of_mem_names :
    ∀ entry ∈ Kind.names, Kind.ofTag entry.2.2.tag = entry.2.2 := by
  decide +kernel

theorem Kind.ofTag_cases (text : Text) :
    (∃ entry ∈ names, ofTag text = entry.2.2) ∨ ofTag text = other text := by
  unfold ofTag
  generalize found : names.find? _ = entry?
  cases entry? with
  | none => exact .inr rfl
  | some entry => exact .inl ⟨entry, List.mem_of_find?_eq_some found, rfl⟩

/-- Reading the tag of a kind that was read from a text gives the kind again. -/
theorem Kind.ofTag_tag_ofTag (text : Text) : ofTag (ofTag text).tag = ofTag text := by
  rcases ofTag_cases text with ⟨entry, listed, known⟩ | unknown
  · rw [known]
    exact ofTag_tag_of_mem_names entry listed
  · have same : (ofTag text).tag = text := congrArg tag unknown
    rw [same]

section

variable {α : Type} {decode : Json → Option α}

/-- A list field that was written item by item. -/
theorem list?_array {encode : α → Json} {items : List α}
    (read : ∀ item ∈ items, decode (encode item) = some item) :
    list? decode (some (.array (items.map encode))) = some items := by
  show (items.map encode).mapM decode = some items
  induction items with
  | nil => rfl
  | cons item rest ih =>
      obtain ⟨first, others⟩ := List.forall_mem_cons.mp read
      simp [List.mapM_cons, first, ih others]

theorem exists_of_mem_mapM {values : List Json} {items : List α} {item : α}
    (found : values.mapM decode = some items) (listed : item ∈ items) :
    ∃ value, decode value = some item := by
  induction values generalizing items with
  | nil =>
      cases Option.some.inj found
      cases listed
  | cons value rest ih =>
      rw [List.mapM_cons] at found
      obtain ⟨first, isFirst, found⟩ := Option.bind_eq_some_iff.mp found
      obtain ⟨others, areOthers, same⟩ := Option.bind_eq_some_iff.mp found
      cases Option.some.inj same
      rcases List.mem_cons.mp listed with rfl | later
      · exact ⟨value, isFirst⟩
      · exact ih areOthers later

theorem exists_of_mem_list? {field : Option Json} {items : List α} {item : α}
    (found : list? decode field = some items) (listed : item ∈ items) :
    ∃ value, decode value = some item := by
  cases field with
  | none =>
      cases Option.some.inj found
      cases listed
  | some value =>
      obtain ⟨values, -, decoded⟩ := Option.bind_eq_some_iff.mp found
      exact exists_of_mem_mapM decoded listed

end

namespace Pin

theorem roleField?_name (role : Role) :
    roleField? (some (.ofText role.name)) = some (some role) := by
  show (Role.ofName? role.name).map some = some (some role)
  rw [Role.ofName?_name, Option.map_some]

theorem ofJson?_toJson (pin : Pin) : ofJson? pin.toJson = some pin := by
  obtain ⟨name, role⟩ := pin
  cases role with
  | none =>
      rw [ofJson?, toJson, Json.fields?_ofMembers (by simp)]
      rfl
  | some role =>
      rw [ofJson?, toJson, Json.fields?_ofMembers (by simp)]
      simp [List.lookup_cons, required?, roleField?_name]

end Pin

theorem Terminal.ofJson?_toJson (terminal : Terminal) :
    ofJson? terminal.toJson = some terminal := by
  rw [ofJson?, toJson, Json.fields?_ofMembers (by simp)]
  rfl

theorem Connection.ofJson?_toJson (connection : Connection) :
    ofJson? connection.toJson = some connection := by
  rw [ofJson?, toJson, Json.fields?_ofMembers (by simp)]
  simp [List.lookup_cons, required?, Terminal.ofJson?_toJson]

theorem Component.ofJson?_toJson {component : Component}
    (canonical : Kind.ofTag component.kind.tag = component.kind) :
    ofJson? component.toJson = some component := by
  rw [ofJson?, toJson, Json.fields?_ofMembers (by simp)]
  have pins : list? Pin.ofJson? (some (.array (component.pins.map Pin.toJson))) =
      some component.pins :=
    list?_array fun pin _ => pin.ofJson?_toJson
  simp [List.lookup_cons, required?, pins, canonical]

namespace Component

theorem kind_of_ofJson? {value : Json} {component : Component}
    (read : ofJson? value = some component) : ∃ text, component.kind = Kind.ofTag text := by
  unfold ofJson? at read
  obtain ⟨fields, -, read⟩ := Option.bind_eq_some_iff.mp read
  split at read
  case h_1 =>
      obtain ⟨id, -, read⟩ := Option.bind_eq_some_iff.mp read
      obtain ⟨tag, -, read⟩ := Option.bind_eq_some_iff.mp read
      obtain ⟨pins, -, same⟩ := Option.bind_eq_some_iff.mp read
      cases Option.some.inj same
      exact ⟨tag, rfl⟩
  case h_2 => cases read

@[simp] theorem kind_withPins (component : Component) :
    component.withPins.kind = component.kind := by
  unfold withPins
  split <;> rfl

@[simp] theorem withPins_withPins (component : Component) :
    component.withPins.withPins = component.withPins := by
  by_cases noPins : component.pins.isEmpty
  · by_cases noStandard : component.kind.standardPins.isEmpty <;>
      simp [withPins, noPins, noStandard]
  · simp [withPins, noPins]

theorem withPins_eq (component : Component) :
    component.withPins =
      if component.pins = [] then .standard component.id component.kind else component := by
  simp only [withPins, List.isEmpty_iff]
  rfl

end Component

namespace Diagram

/-- The diagram that its own notation describes. -/
def reload? (diagram : Diagram) : Option Diagram :=
  ofJson? diagram.toJson

/-- The diagrams that are read from a text or reloaded, or built up part by part and wire by wire from
such a one or from the empty one. The kind of a new part is read from a tag. -/
inductive IsBuilt : Diagram → Prop where
  | empty : IsBuilt empty
  | read {text : Text} {diagram : Diagram} : ofText? text = some diagram → IsBuilt diagram
  | reload {diagram reloaded : Diagram} :
      IsBuilt diagram → diagram.reload? = some reloaded → IsBuilt reloaded
  | add {diagram : Diagram} (id tag : Text) (pins : List Pin) :
      IsBuilt diagram → IsBuilt (diagram.add ⟨id, Kind.ofTag tag, pins⟩)
  | connect {diagram : Diagram} (connection : Connection) :
      IsBuilt diagram → IsBuilt (diagram.connect connection)

/-- The kind of every part is one that some tag stands for. -/
def IsTagged (diagram : Diagram) : Prop :=
  ∀ part ∈ diagram.components, ∃ tag, part.kind = Kind.ofTag tag

theorem withPins_withPins (diagram : Diagram) : diagram.withPins.withPins = diagram.withPins := by
  simp [withPins]

theorem IsTagged.withPins {diagram : Diagram} (tagged : diagram.IsTagged) :
    diagram.withPins.IsTagged := by
  intro part listed
  obtain ⟨original, isOriginal, rfl⟩ := List.mem_map.mp listed
  rw [Component.kind_withPins]
  exact tagged original isOriginal

theorem exists_of_ofJson? {value : Json} {diagram : Diagram}
    (read : ofJson? value = some diagram) :
    ∃ before : Diagram, before.IsTagged ∧ diagram = before.withPins := by
  unfold ofJson? at read
  obtain ⟨fields, -, read⟩ := Option.bind_eq_some_iff.mp read
  split at read
  case h_1 =>
      obtain ⟨components, areComponents, read⟩ := Option.bind_eq_some_iff.mp read
      obtain ⟨connections, -, same⟩ := Option.bind_eq_some_iff.mp read
      refine ⟨⟨components, connections⟩, ?_, (Option.some.inj same).symm⟩
      intro part listed
      obtain ⟨value, isPart⟩ := exists_of_mem_list? areComponents listed
      exact Component.kind_of_ofJson? isPart
  case h_2 => cases read

theorem exists_of_ofText? {text : Text} {diagram : Diagram} (read : ofText? text = some diagram) :
    ∃ before : Diagram, before.IsTagged ∧ diagram = before.withPins := by
  obtain ⟨value, -, read⟩ := Option.bind_eq_some_iff.mp read
  exact exists_of_ofJson? read

theorem IsBuilt.isTagged {diagram : Diagram} (built : diagram.IsBuilt) : diagram.IsTagged := by
  induction built with
  | empty => simp [IsTagged, Diagram.empty]
  | read isText =>
      obtain ⟨before, tagged, rfl⟩ := exists_of_ofText? isText
      exact tagged.withPins
  | reload built isReloaded ih =>
      obtain ⟨before, tagged, rfl⟩ := exists_of_ofJson? isReloaded
      exact tagged.withPins
  | add id tag pins built ih =>
      intro part listed
      rcases List.mem_append.mp listed with earlier | new
      · exact ih part earlier
      · cases List.mem_singleton.mp new
        exact ⟨tag, rfl⟩
  | connect connection built ih => exact ih

theorem IsTagged.reload?_eq {diagram : Diagram} (tagged : diagram.IsTagged) :
    diagram.reload? = some diagram.withPins := by
  have parts : ∀ part ∈ diagram.components, Component.ofJson? part.toJson = some part := by
    intro part listed
    obtain ⟨tag, isKind⟩ := tagged part listed
    exact Component.ofJson?_toJson (by rw [isKind, Kind.ofTag_tag_ofTag])
  have components := list?_array parts
  have connections : list? Connection.ofJson?
      (some (.array (diagram.connections.map Connection.toJson))) = some diagram.connections :=
    list?_array fun connection _ => connection.ofJson?_toJson
  rw [reload?, ofJson?, toJson, Json.fields?_ofMembers (by simp)]
  simp [List.lookup_cons, components, connections]

/-- A diagram comes back from its notation with the catalogue's pins in place of empty lists. Reloading
it once more changes nothing, and neither does reloading a diagram that was read from a text. -/
theorem reload?_of_isBuilt {diagram : Diagram} (built : diagram.IsBuilt) :
    diagram.reload? = some ⟨diagram.components.map fun part =>
        if part.pins = [] then .standard part.id part.kind else part, diagram.connections⟩ ∧
      (∀ text, Json.ofJsonText? text = some diagram.toJson → ofText? text = diagram.reload?) ∧
      (∀ reloaded, diagram.reload? = some reloaded → reloaded.reload? = some reloaded) ∧
      ((∃ text, ofText? text = some diagram) → diagram.reload? = some diagram) ∧
      ∀ text, Kind.ofTag (Kind.ofTag text).tag = Kind.ofTag text := by
  have reloads := built.isTagged.reload?_eq
  refine ⟨?_, ?_, ?_, ?_, Kind.ofTag_tag_ofTag⟩
  · rw [reloads, withPins, funext Component.withPins_eq]
  · intro text written
    rw [ofText?, written]
    rfl
  · intro reloaded isReloaded
    cases Option.some.inj (reloads.symm.trans isReloaded)
    rw [built.isTagged.withPins.reload?_eq, withPins_withPins]
  · rintro ⟨text, isText⟩
    obtain ⟨before, -, rfl⟩ := exists_of_ofText? isText
    rw [reloads, withPins_withPins]

/-- A lamp by the name of its element, read from a text, a sensor of no known kind and a fan without
pins. -/
def fanBench : Diagram :=
  ((Diagram.add ⟨[.standard "lamp".toList .led], []⟩
    ⟨"probe".toList, Kind.ofTag "PhSensorElement".toList, [⟨"OUT".toList, some .pwm⟩]⟩).add
    ⟨"cooler".toList, Kind.ofTag "FanElement".toList, []⟩).connect
    ⟨⟨"lamp".toList, "A".toList⟩, ⟨"cooler".toList, "SIG".toList⟩⟩

theorem reload?_fanBench : fanBench.IsBuilt ∧
    fanBench.reload? = some ⟨[.standard "lamp".toList .led,
      ⟨"probe".toList, .other "PhSensorElement".toList, [⟨"OUT".toList, some .pwm⟩]⟩,
      .standard "cooler".toList (.actuator .fan)],
      [⟨⟨"lamp".toList, "A".toList⟩, ⟨"cooler".toList, "SIG".toList⟩⟩]⟩ := by
  have read : ofText? "\x7b\"components\":[\x7b\"id\":\"lamp\",\"type\":\"LEDElement\"\x7d]\x7d".toList =
      some ⟨[.standard "lamp".toList .led], []⟩ := by
    decide +kernel
  have built : fanBench.IsBuilt := .connect _ (.add _ _ _ (.add _ _ _ (.read read)))
  refine ⟨built, (reload?_of_isBuilt built).1.trans ?_⟩
  decide +kernel

end Diagram

end Circuit

end Breadboard
