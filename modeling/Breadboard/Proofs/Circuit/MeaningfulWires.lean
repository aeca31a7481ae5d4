import Mathlib.Data.List.Find
import Mathlib.Data.List.Nodup
import Mathlib.Logic.Relation
import Breadboard.Proofs.Circuit.LedRetention
import Breadboard.Script.Conversion
import Breadboard.Sketch.Template

set_option autoImplicit false

namespace Breadboard.Circuit

/-- The terminal is at a pin of the part, or at any port of a part that lists no pins. -/
def Diagram.Resolves (diagram : Diagram) (terminal : Terminal) (part : Component) : Prop :=
  diagram.component? terminal.component = some part ∧
    (part.pins = [] ∨ ∃ pin ∈ part.pins, pin.name = terminal.pin)

/-- The connection joins two parts of which exactly one is a board. -/
def Diagram.IsMeaningful (diagram : Diagram) (connection : Connection) : Prop :=
  ∃ first second, diagram.Resolves connection.source first ∧
    diagram.Resolves connection.target second ∧ first.id ≠ second.id ∧
    first.kind.isBoard ≠ second.kind.isBoard

def Connection.flip (connection : Connection) : Connection :=
  ⟨connection.target, connection.source⟩

def Component.rename (name : Text → Text) (component : Component) : Component :=
  { component with id := name component.id }

def Terminal.rename (name : Text → Text) (terminal : Terminal) : Terminal :=
  { terminal with component := name terminal.component }

def Connection.rename (name : Text → Text) (connection : Connection) : Connection :=
  ⟨connection.source.rename name, connection.target.rename name⟩

def Diagram.rename (name : Text → Text) (diagram : Diagram) : Diagram :=
  ⟨diagram.components.map (·.rename name), diagram.connections.map (·.rename name)⟩

/-- The ids in a diagram, those of its parts and those at the ends of its connections. -/
def Diagram.ids (diagram : Diagram) : List Text :=
  diagram.components.map (·.id) ++
    diagram.connections.flatMap fun connection =>
      [connection.source.component, connection.target.component]

/-- One change of a diagram that no meaningful connection takes part in, or that only spells it
differently. -/
inductive Rewired : Diagram → Diagram → Prop where
  | insert {components : List Component} {before after : List Connection} {connection : Connection}
      (meaningless : ¬ Diagram.IsMeaningful ⟨components, before ++ after⟩ connection) :
      Rewired ⟨components, before ++ after⟩ ⟨components, before ++ connection :: after⟩
  | flip {components : List Component} {before after : List Connection} {connection : Connection} :
      Rewired ⟨components, before ++ connection :: after⟩
        ⟨components, before ++ connection.flip :: after⟩
  | rename {diagram : Diagram} {name : Text → Text}
      (injective : ∀ first ∈ diagram.ids, ∀ second ∈ diagram.ids,
        name first = name second → first = second) :
      Rewired diagram (diagram.rename name)
  | permute {components others : List Component} {connections : List Connection}
      (order : components.Perm others) (distinct : (components.map (·.id)).Nodup) :
      Rewired ⟨components, connections⟩ ⟨others, connections⟩

theorem partAt?_eq_some {diagram : Diagram} {terminal : Terminal} {part : Component} :
    diagram.partAt? terminal = some part ↔ diagram.Resolves terminal part := by
  have accepts : part.accepts terminal.pin = true ↔
      part.pins = [] ∨ ∃ pin ∈ part.pins, pin.name = terminal.pin := by
    simp [Component.accepts, Component.pin?]
  rw [Diagram.partAt?, Option.filter_eq_some_iff, accepts]
  rfl

theorem isSome_link? {wire : Wire} :
    wire.link?.isSome = true ↔ wire.first.kind.isBoard ≠ wire.second.kind.isBoard := by
  unfold Wire.link? Kind.isBoard
  cases wire.first.kind.family? <;> cases wire.second.kind.family? <;> simp

/-- The meaningful connections are those that make links. -/
theorem isMeaningful_iff {diagram : Diagram} {connection : Connection} :
    diagram.IsMeaningful connection ↔ (diagram.link? connection).isSome = true := by
  constructor
  · rintro ⟨first, second, source, target, apart, oneBoard⟩
    have wire : diagram.wire? connection =
        some ⟨first, connection.source.pin, second, connection.target.pin⟩ := by
      simp [Diagram.wire?, partAt?_eq_some.mpr source, partAt?_eq_some.mpr target, apart]
    rw [Diagram.link?, wire, Option.bind_some, isSome_link?]
    exact oneBoard
  · intro linked
    obtain ⟨link, made⟩ := Option.isSome_iff_exists.mp linked
    obtain ⟨wire, joined, oriented⟩ := Option.bind_eq_some_iff.mp made
    have oneBoard := isSome_link?.mp (Option.isSome_iff_exists.mpr ⟨link, oriented⟩)
    simp only [Diagram.wire?, Option.bind_eq_bind, Option.bind_eq_some_iff] at joined
    obtain ⟨first, source, second, target, rest⟩ := joined
    split at rest
    · cases rest
    · rename_i apart
      cases rest
      exact ⟨first, second, partAt?_eq_some.mp source, partAt?_eq_some.mp target, apart, oneBoard⟩

theorem link?_eq_none {diagram : Diagram} {connection : Connection}
    (meaningless : ¬ diagram.IsMeaningful connection) : diagram.link? connection = none := by
  rw [isMeaningful_iff] at meaningless
  exact Option.not_isSome_iff_eq_none.mp meaningless

/-- The direction of a connection has no meaning. -/
theorem link?_flip (diagram : Diagram) (connection : Connection) :
    diagram.link? connection.flip = diagram.link? connection := by
  unfold Diagram.link? Diagram.wire? Connection.flip
  cases diagram.partAt? connection.source with
  | none => cases diagram.partAt? connection.target <;> rfl
  | some first =>
      cases diagram.partAt? connection.target with
      | none => rfl
      | some second =>
          by_cases same : first.id = second.id
          · simp [same]
          · have other := Ne.symm same
            simp only [Option.bind_eq_bind, Option.bind_some, if_neg same, if_neg other]
            unfold Wire.link?
            cases first.kind.family? <;> cases second.kind.family? <;> rfl

def Link.rename (name : Text → Text) (link : Link) : Link :=
  { link with board := link.board.rename name, peripheral := link.peripheral.rename name }

section

variable {diagram : Diagram} {name : Text → Text}

theorem component?_rename {id : Text}
    (injective : ∀ part ∈ diagram.components, name part.id = name id → part.id = id) :
    (diagram.rename name).component? (name id) =
      (diagram.component? id).map (·.rename name) := by
  unfold Diagram.component? Diagram.rename
  rw [List.find?_map]
  refine congrArg _ (List.find?_congr fun part member => ?_)
  rw [Function.comp_apply, Bool.eq_iff_iff, beq_iff_eq, beq_iff_eq]
  exact ⟨injective part member, fun same => congrArg name same⟩

theorem partAt?_rename {terminal : Terminal}
    (injective : ∀ part ∈ diagram.components,
      name part.id = name terminal.component → part.id = terminal.component) :
    (diagram.rename name).partAt? (terminal.rename name) =
      (diagram.partAt? terminal).map (·.rename name) := by
  unfold Diagram.partAt?
  rw [show (terminal.rename name).component = name terminal.component from rfl,
    component?_rename injective, Option.filter_map]
  rfl

theorem wire?_rename {connection : Connection}
    (source : ∀ part ∈ diagram.components,
      name part.id = name connection.source.component → part.id = connection.source.component)
    (target : ∀ part ∈ diagram.components,
      name part.id = name connection.target.component → part.id = connection.target.component)
    (parts : ∀ first ∈ diagram.components, ∀ second ∈ diagram.components,
      name first.id = name second.id → first.id = second.id) :
    (diagram.rename name).wire? (connection.rename name) =
      (diagram.wire? connection).map fun wire =>
        ⟨wire.first.rename name, wire.firstPort, wire.second.rename name, wire.secondPort⟩ := by
  have isPart : ∀ {terminal : Terminal} {part : Component},
      diagram.partAt? terminal = some part → part ∈ diagram.components := by
    intro terminal part at'
    exact List.mem_of_find?_eq_some (partAt?_eq_some.mp at').1
  have sourcePart : (diagram.rename name).partAt? (connection.rename name).source =
      (diagram.partAt? connection.source).map (·.rename name) := partAt?_rename source
  have targetPart : (diagram.rename name).partAt? (connection.rename name).target =
      (diagram.partAt? connection.target).map (·.rename name) := partAt?_rename target
  unfold Diagram.wire?
  rw [sourcePart, targetPart]
  cases first : diagram.partAt? connection.source with
  | none => rfl
  | some first' =>
      cases second : diagram.partAt? connection.target with
      | none => rfl
      | some second' =>
          have same : (first'.rename name).id = (second'.rename name).id ↔
              first'.id = second'.id :=
            ⟨parts first' (isPart first) second' (isPart second), fun same => congrArg name same⟩
          simp only [Option.map_some, Option.bind_eq_bind, Option.bind_some, same]
          split <;> rfl

theorem link?_rename_wire (wire : Wire) :
    Wire.link? ⟨wire.first.rename name, wire.firstPort, wire.second.rename name,
      wire.secondPort⟩ = wire.link?.map (·.rename name) := by
  rcases wire with ⟨first, firstPort, second, secondPort⟩
  unfold Wire.link? Component.rename
  cases first.kind.family? <;> cases second.kind.family? <;> rfl

/-- New names for the ids give the links new names and change nothing else. -/
theorem links_rename
    (injective : ∀ first ∈ diagram.ids, ∀ second ∈ diagram.ids,
      name first = name second → first = second) :
    (diagram.rename name).links = diagram.links.map (·.rename name) := by
  have partId : ∀ part ∈ diagram.components, part.id ∈ diagram.ids := fun part member =>
    List.mem_append_left _ (List.mem_map_of_mem member)
  have endIds : ∀ connection ∈ diagram.connections,
      connection.source.component ∈ diagram.ids ∧ connection.target.component ∈ diagram.ids := by
    intro connection member
    constructor
    · exact List.mem_append_right _ (List.mem_flatMap.mpr ⟨connection, member, by simp⟩)
    · exact List.mem_append_right _ (List.mem_flatMap.mpr ⟨connection, member, by simp⟩)
  rw [links_eq_filterMap, links_eq_filterMap, List.map_filterMap,
    show (diagram.rename name).connections = diagram.connections.map (·.rename name) from rfl,
    List.filterMap_map]
  refine List.filterMap_congr fun connection member => ?_
  obtain ⟨source, target⟩ := endIds connection member
  rw [Function.comp_apply, Diagram.link?, Diagram.link?, wire?_rename
    (fun part inParts => injective _ (partId part inParts) _ source)
    (fun part inParts => injective _ (partId part inParts) _ target)
    (fun first inParts second alsoIn =>
      injective _ (partId first inParts) _ (partId second alsoIn))]
  cases diagram.wire? connection with
  | none => rfl
  | some wire => exact link?_rename_wire wire

end

/-- A link counts for what it joins and not for what the parts are called. -/
theorem add_rename (name : Text → Text) (soFar : PartialWiring) (link : Link) :
    soFar.add (link.rename name) = soFar.add link := rfl

theorem ofLinks_rename (name : Text → Text) (links : List Link) :
    Wiring.ofLinks (links.map (·.rename name)) = Wiring.ofLinks links := by
  unfold Wiring.ofLinks
  rw [List.foldl_map]
  simp only [add_rename]

/-- The order of the parts has no meaning where their ids are distinct. -/
theorem component?_perm {components others : List Component} (order : components.Perm others)
    (distinct : (components.map (·.id)).Nodup) (connections : List Connection) (id : Text) :
    Diagram.component? ⟨others, connections⟩ id = Diagram.component? ⟨components, connections⟩ id := by
  refine (List.find?_eq_find?_of_perm order ?_).symm
  rintro first ⟨inFirst, firstIs⟩ second ⟨inSecond, secondIs⟩
  have sameId : first.id = second.id := (eq_of_beq firstIs).trans (eq_of_beq secondIs).symm
  exact List.inj_on_of_nodup_map distinct inFirst inSecond sameId

theorem links_perm_components {components others : List Component}
    (order : components.Perm others) (distinct : (components.map (·.id)).Nodup)
    (connections : List Connection) :
    Diagram.links ⟨others, connections⟩ = Diagram.links ⟨components, connections⟩ := by
  have sameParts : Diagram.partAt? ⟨others, connections⟩ =
      Diagram.partAt? ⟨components, connections⟩ := by
    funext terminal
    rw [Diagram.partAt?, Diagram.partAt?, component?_perm order distinct]
  have sameWires : Diagram.wire? ⟨others, connections⟩ =
      Diagram.wire? ⟨components, connections⟩ := by
    funext connection
    rw [Diagram.wire?, Diagram.wire?, sameParts]
  rw [Diagram.links, Diagram.links, Diagram.wires, Diagram.wires, sameWires]

theorem Rewired.wiring_eq {first second : Diagram} (rewired : Rewired first second) :
    first.wiring = second.wiring := by
  unfold Diagram.wiring
  cases rewired with
  | @insert components before after connection meaningless =>
      have sameLink : Diagram.link? ⟨components, before ++ connection :: after⟩ =
          Diagram.link? ⟨components, before ++ after⟩ := rfl
      rw [links_eq_filterMap, links_eq_filterMap, sameLink, List.filterMap_append,
        List.filterMap_append, List.filterMap_cons_none (link?_eq_none meaningless)]
  | @flip components before after connection =>
      have sameLink : Diagram.link? ⟨components, before ++ connection.flip :: after⟩ =
          Diagram.link? ⟨components, before ++ connection :: after⟩ := rfl
      rw [links_eq_filterMap, links_eq_filterMap, sameLink, List.filterMap_append,
        List.filterMap_append, List.filterMap_cons, List.filterMap_cons, link?_flip]
  | rename injective => rw [links_rename injective, ofLinks_rename]
  | permute order distinct => rw [links_perm_components order distinct]

theorem wiring_eq_of_eqvGen {first second : Diagram}
    (rewired : Relation.EqvGen Rewired first second) : first.wiring = second.wiring := by
  induction rewired with
  | rel first second rewired => exact rewired.wiring_eq
  | refl diagram => rfl
  | symm first second _ ih => exact ih.symm
  | trans first second third _ _ here there => exact here.trans there

/-- A diagram without meaningful connections makes no links. -/
theorem wiring_eq_empty {diagram : Diagram}
    (meaningless : ∀ connection ∈ diagram.connections, ¬ diagram.IsMeaningful connection) :
    diagram.wiring = Wiring.empty := by
  have noLinks : diagram.links = [] := by
    rw [links_eq_filterMap, List.filterMap_eq_nil_iff]
    exact fun connection member => link?_eq_none (meaningless connection member)
  rw [Diagram.wiring, noLinks]
  rfl

/-- The sketch of a board with nothing wired to it. -/
def boilerplate (settings : FirmwareSettings) : Text :=
  "// Auto-generated code based on circuit design\n".toList ++
    "// Modify as needed for your specific application\n\n".toList ++
    "void setup() \x7b\n".toList ++
    ("  // Initialize serial communication\n".toList ++ "  Serial.begin(".toList ++
      Text.ofNat settings.serialBaud ++ ");\n\n".toList) ++
    "\x7d\n\n".toList ++ "void loop() \x7b\n".toList ++ "\x7d\n".toList

theorem part_nil (heading : String) : Sketch.part heading [] = [] := rfl

theorem ofWiring_empty (settings : FirmwareSettings) :
    Sketch.ofWiring Wiring.empty settings = boilerplate settings := by
  have leds : Sketch.ledDefinitions Wiring.empty = [] := rfl
  have buttons : Sketch.buttonDefinitions Wiring.empty = [] := rfl
  have actuators : Sketch.actuatorDefinitions Wiring.empty = [] := rfl
  have definitions : Sketch.pinDefinitions Wiring.empty = [] := rfl
  have loop : Sketch.loopBody Wiring.empty settings = [] := by
    simp only [Sketch.loopBody, leds, buttons, actuators, Sketch.blinkLines, List.isEmpty_nil,
      if_true, List.mapIdx_nil, List.map_nil, part_nil, List.append_nil]
  -- Stated for any texts, so that no literal has to be unfolded.
  have withoutParts : ∀ head note setup serial close loop finish : Text,
      head ++ note ++ [] ++ setup ++ (serial ++ [] ++ [] ++ []) ++ close ++ loop ++ [] ++ finish =
        head ++ note ++ setup ++ serial ++ close ++ loop ++ finish := by
    intro head note setup serial close loop finish
    simp only [List.append_nil]
  unfold Sketch.ofWiring Sketch.setupBody
  rw [loop, definitions, List.map_nil, part_nil, leds, List.map_nil, part_nil, buttons,
    List.map_nil, part_nil, actuators, List.map_nil, part_nil]
  exact withoutParts _ _ _ _ _ _ _

/-- Diagrams that differ in meaningless connections, in the directions of connections, in the names of
ids or in the order of distinctly named parts have one wiring, one sketch and one script. Without any
meaningful connection the wiring is empty and the sketch is boilerplate. -/
theorem wiring_eq_of_rewired {first second : Diagram}
    (rewired : Relation.EqvGen Rewired first second) (settings : FirmwareSettings) :
    first.wiring = second.wiring ∧
      Sketch.ofWiring first.wiring settings = Sketch.ofWiring second.wiring settings ∧
      Script.ofSketch (Sketch.ofWiring first.wiring settings) =
        Script.ofSketch (Sketch.ofWiring second.wiring settings) ∧
      ((∀ connection ∈ first.connections, ¬ first.IsMeaningful connection) →
        first.wiring = Wiring.empty ∧
          Sketch.ofWiring first.wiring settings = boilerplate settings) := by
  have same := wiring_eq_of_eqvGen rewired
  refine ⟨same, by rw [same], by rw [same], fun meaningless => ?_⟩
  have empty := wiring_eq_empty meaningless
  exact ⟨empty, by rw [empty, ofWiring_empty]⟩

/-- A board with an LED, of which a wire to an unknown part means nothing. -/
def looseEnd : Diagram :=
  { components :=
      [.standard "uno".toList (.board .arduinoUno), .standard "led".toList .led]
    connections :=
      [⟨⟨"led".toList, "A".toList⟩, ⟨"uno".toList, "13".toList⟩⟩,
        ⟨⟨"fan".toList, "SIG".toList⟩, ⟨"uno".toList, "12".toList⟩⟩] }

/-- The same board with its parts in the other order, without the loose wire, with the other wire turned
round, and with longer names. -/
def looseEndRemoved : Diagram :=
  { components :=
      [.standard "my_led".toList .led, .standard "my_uno".toList (.board .arduinoUno)]
    connections := [⟨⟨"my_uno".toList, "13".toList⟩, ⟨"my_led".toList, "A".toList⟩⟩] }

theorem wiring_eq_of_rewired_looseEnd :
    Relation.EqvGen Rewired looseEnd looseEndRemoved ∧ looseEnd.wiring = looseEndRemoved.wiring := by
  let parts := [Component.standard "uno".toList (.board .arduinoUno), .standard "led".toList .led]
  let turned := [Component.standard "led".toList .led, .standard "uno".toList (.board .arduinoUno)]
  let wire : Connection := ⟨⟨"led".toList, "A".toList⟩, ⟨"uno".toList, "13".toList⟩⟩
  have removed : Rewired ⟨parts, [wire]⟩ looseEnd :=
    @Rewired.insert parts [wire] [] _ (by rw [isMeaningful_iff]; decide)
  have flipped : Rewired ⟨parts, [wire]⟩ ⟨parts, [wire.flip]⟩ := @Rewired.flip parts [] [] wire
  have swapped : Rewired ⟨parts, [wire.flip]⟩ ⟨turned, [wire.flip]⟩ :=
    .permute (List.Perm.swap _ _ _) (by decide)
  have renamed : Rewired ⟨turned, [wire.flip]⟩ looseEndRemoved :=
    @Rewired.rename ⟨turned, [wire.flip]⟩ ("my_".toList ++ ·) fun first _ second _ same =>
      List.append_cancel_left same
  have rewired : Relation.EqvGen Rewired looseEnd looseEndRemoved :=
    ((Relation.EqvGen.rel _ _ removed).symm.trans _ _ _ (.rel _ _ flipped)).trans _ _ _
      ((Relation.EqvGen.rel _ _ swapped).trans _ _ _ (.rel _ _ renamed))
  exact ⟨rewired, (wiring_eq_of_rewired rewired {}).1⟩

end Breadboard.Circuit
