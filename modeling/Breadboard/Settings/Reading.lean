import Breadboard.Settings.Basic
import Breadboard.Toml.Reading

set_option autoImplicit false

namespace Breadboard

open Toml (Item Value Table)

/-- An integer below a bound. -/
def naturalBelow? (bound : Nat) : Value → Option Nat
  | .integer n => if 0 ≤ n ∧ n < bound then some n.toNat else none
  | _ => none

/-- The value of a setting, or its default if it is missing. -/
def setting? (bound fallback : Nat) (field : Option Value) : Option Nat :=
  match field with
  | none => some fallback
  | some value => naturalBelow? bound value

/-- The fields of a section by key. A missing field is none; a field that is a table has no value
and makes the section invalid. -/
def tableFields? (keys : List String) (table : Table) : Option (List (Option Value)) :=
  keys.mapM fun key =>
    match table.lookup key.toList with
    | none => some none
    | some item => item.value?.map some

/-- The fields of a section in their order. A section is a table, or an array of its fields that may
leave out the last ones. A date has no fields. -/
def sectionFields? (keys : List String) : Item → Option (List (Option Value))
  | .table _ entries => tableFields? keys entries
  | .tables _ => none
  | .value (.inlineTable _ entries) => some (keys.map fun key => entries.lookup key.toList)
  | .value (.array items) => some ((List.range keys.length).map fun index => items[index]?)
  | .value .datetime => some (keys.map fun _ => none)
  | .value _ => none

namespace Settings

/-- The first rate that is out of range, 2^32. -/
def baudBound : Nat := 0x100000000

/-- The first delay that is out of range, 2^64. -/
def delayBound : Nat := 0x10000000000000000

def firmwareOf? (item : Item) : Option FirmwareSettings := do
  match ← sectionFields? ["serial_baud", "blink_delay_ms"] item with
  | [baud, delay] =>
    return { serialBaud := ← setting? baudBound 9600 baud
             blinkDelay := ← setting? delayBound 1000 delay }
  | _ => none

def loopOf? (item : Item) : Option LoopSettings := do
  match ← sectionFields? ["statement_delay_ms", "error_backoff_ms"] item with
  | [delay, backoff] =>
    return { statementDelay := ← setting? delayBound 10 delay
             errorBackoff := ← setting? delayBound 100 backoff }
  | _ => none

/-- A section, or its defaults if it is missing. -/
def section? {α : Type} (fallback : α) (decode : Item → Option α) (item : Option Item) : Option α :=
  match item with
  | none => some fallback
  | some item => decode item

def ofTable? (table : Table) : Option Settings := do
  let firmware ← section? {} firmwareOf? (table.lookup "generator".toList)
  let loop ← section? {} loopOf? (table.lookup "scheduler".toList)
  return { firmware, loop }

/-- The settings that a TOML text describes. -/
def ofText? (text : Text) : Option Settings := do
  ofTable? (← Toml.ofText? text)

/-- Why the settings of a file cannot be had. -/
inductive LoadError where
  /-- There is no file, or it is not text in UTF-8. -/
  | unreadable
  /-- The text describes no settings. -/
  | invalid
  deriving DecidableEq, Repr

/-- The settings of a file with the given content, none if there is no file. -/
def load (content : Option ByteArray) : Except LoadError Settings :=
  match content.bind String.fromUTF8? with
  | none => .error .unreadable
  | some text =>
    match ofText? text.toList with
    | none => .error .invalid
    | some settings => .ok settings

end Settings

end Breadboard
