import Breadboard.Script.Constant
import Breadboard.Script.PinName
import Std.Data.TreeMap

set_option autoImplicit false

/- What a sketch declares: its numeric constants, and the pins that it configures or reads. The
script constructs one pin object for each of these bindings before its loop. -/
namespace Breadboard.Script

open Sketch (Token dropTrivia)

inductive BindingKind where
  | output
  | input (pullUp : Bool)
  | analog
  deriving DecidableEq, Repr

/-- A pin object of the script. `source` is the reference as the sketch writes it. -/
structure Binding where
  identifier : Text
  pin : Nat
  kind : BindingKind
  source : Text
  deriving DecidableEq, Repr

namespace Binding

/-- The statements that construct the pin object. -/
def render (binding : Binding) : Text :=
  let id := binding.identifier
  let pin := Text.ofNat binding.pin
  match binding.kind with
  | .output => id ++ " = Pin(".toList ++ pin ++ ", Pin.OUT)\n".toList
  | .input true => id ++ " = Pin(".toList ++ pin ++ ", Pin.IN, Pin.PULL_UP)\n".toList
  | .input false => id ++ " = Pin(".toList ++ pin ++ ", Pin.IN)\n".toList
  | .analog =>
    id ++ " = ADC(Pin(".toList ++ pin ++ "))\n".toList ++
      id ++ ".atten(ADC.ATTN_11DB)  # Full range 0-3.3V\n".toList

def isOutput (binding : Binding) : Bool :=
  binding.kind == .output

def isInput (binding : Binding) : Bool :=
  match binding.kind with
  | .input _ => true
  | _ => false

def isAnalog (binding : Binding) : Bool :=
  binding.kind == .analog

end Binding

/-- The arguments of each call of the function `name`, in source order. A name after a dot is a
method and calls no function. -/
def callsOf (name : String) : Bool → List Token → List (List Text)
  | _, [] => []
  | afterDot, token :: rest =>
    let call :=
      if token.isIdent name && !afterDot then (Sketch.parenthesized? rest).map Prod.fst else none
    let follows := if token.isTrivia then afterDot else token.isPunct "."
    (call.map Sketch.arguments).toList ++ callsOf name follows rest

structure Context where
  /-- Constants in the order of their first definitions. -/
  constants : List Constant
  /-- Outputs, then inputs, then analog inputs. -/
  bindings : List Binding
  deriving DecidableEq, Repr

namespace Context

def empty : Context := ⟨[], []⟩

/-- The value of a name in a table of constants. -/
def valueIn (constants : List Constant) (name : Text) : Option Binary64 :=
  (constants.find? (·.name == name)).map Constant.value

def constant? (context : Context) (name : Text) : Option Binary64 :=
  valueIn context.constants name

/-- The number of the pin that a reference denotes. -/
def pinOf (constants : List Constant) (source : Text) (ref : PinRef) : Option Nat :=
  match ref with
  | .number pin => some pin
  | _ => (valueIn constants source).bind Binary64.pinNumber?

/-- The binding that a call `pinMode(reference, mode)` asks for. -/
def digitalBinding? (constants : List Constant) (args : List Text) : Option Binding :=
  match args with
  | [source, mode] => do
    let kind ←
      if mode = "OUTPUT".toList then some .output
      else if mode = "INPUT_PULLUP".toList then some (.input true)
      else if mode = "INPUT".toList then some (.input false)
      else none
    let ref ← PinRef.ofText? source
    let pin ← pinOf constants source ref
    return ⟨ref.identifier, pin, kind, source⟩
  | _ => none

/-- The script's name of the object that a reference is read through as an analog input. -/
def analogIdentifier : PinRef → Text
  | .number pin => "adc".toList ++ Text.ofNat pin
  | ref => "adc_".toList ++ ref.identifier

/-- The binding that a call `analogRead(reference)` asks for. -/
def analogBinding? (constants : List Constant) (args : List Text) : Option Binding :=
  match args with
  | [source] => do
    let ref ← PinRef.ofText? source
    let pin ← pinOf constants source ref
    return ⟨analogIdentifier ref, pin, .analog, source⟩
  | _ => none

/-- The bindings without those whose reference text an earlier one has. -/
def distinctSources (bindings : List Binding) : List Binding :=
  bindings.foldl
    (fun kept binding => if kept.any (·.source == binding.source) then kept else kept ++ [binding]) []

def harvestTokens (tokens : List Token) : Context :=
  let constants := constantTable tokens
  let digital := (callsOf "pinMode" false tokens).filterMap (digitalBinding? constants)
  let analog := (callsOf "analogRead" false tokens).filterMap (analogBinding? constants)
  { constants
    bindings := digital.filter Binding.isOutput ++ digital.filter Binding.isInput ++
      distinctSources analog }

/-- What the sketch `source` declares. -/
def harvest (source : Text) : Context :=
  harvestTokens (Sketch.tokenize source)

/-- Script names by pin, of the bindings of one role. A later binding of a pin replaces an
earlier one. -/
def namesByPin (role : Binding → Bool) (context : Context) : Std.TreeMap Nat Text :=
  (context.bindings.filter role).foldl (fun names b => names.insert b.pin b.identifier) ∅

def outputNames (context : Context) : Std.TreeMap Nat Text :=
  context.namesByPin Binding.isOutput

def inputNames (context : Context) : Std.TreeMap Nat Text :=
  context.namesByPin Binding.isInput

def analogNames (context : Context) : Std.TreeMap Nat Text :=
  context.namesByPin Binding.isAnalog

/-- The constants that the script assigns: those not named as pins. -/
def scriptConstants (context : Context) : List Constant :=
  context.constants.filter fun constant => !isPinConstant constant.name

/-- The constants named as pins whose value is a pin number. -/
def pinConstants (context : Context) : List (Text × Nat) :=
  (context.constants.filter fun constant => isPinConstant constant.name).filterMap fun constant =>
    constant.value.pinNumber?.map fun pin => (constant.name, pin)

/-- The distinct reference texts of the bindings of each pin. -/
def sourcesByPin (context : Context) : Std.TreeMap Nat (List Text) :=
  context.bindings.foldl
    (fun table b =>
      let sources := table.getD b.pin []
      if sources.contains b.source then table else table.insert b.pin (sources ++ [b.source]))
    ∅

/-- The pins that several reference texts lead to, in ascending order. -/
def collisions (context : Context) : List (Nat × List Text) :=
  context.sourcesByPin.toList.filter fun (_, sources) => sources.length > 1

end Context

end Breadboard.Script
