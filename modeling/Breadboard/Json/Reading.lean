import Breadboard.Json.Token

set_option autoImplicit false

namespace Breadboard.Json

/-- An open container with what it holds so far, the last first. -/
inductive Frame where
  | array (items : List Json)
  /-- `key` is the key of the value that is read. -/
  | object (members : List (Option Text × Json)) (key : Option Text)

/-- What the reader expects. -/
inductive Expected where
  | value
  /-- A value or the end of an empty array. -/
  | firstItem
  /-- A key or the end of an empty object. -/
  | firstKey
  | key
  | colon
  /-- A comma or the end of the container, after the value. -/
  | more (value : Json)

/-- Reads tokens up to the end of the outermost value, which must be the last token. -/
def readTokens : List Frame → Expected → List Token → Option Json
  | [], .more value, [] => some value
  | _, _, [] => none
  | frames, .value, token :: rest =>
    match token with
    | .arrayOpen => readTokens (.array [] :: frames) .firstItem rest
    | .objectOpen => readTokens (.object [] none :: frames) .firstKey rest
    | .string content => readTokens frames (.more (string content)) rest
    | .scalar value => readTokens frames (.more value) rest
    | _ => none
  | frames, .firstItem, token :: rest =>
    match token, frames with
    | .arrayClose, _ :: outer => readTokens outer (.more (array [])) rest
    | .arrayOpen, _ => readTokens (.array [] :: frames) .firstItem rest
    | .objectOpen, _ => readTokens (.object [] none :: frames) .firstKey rest
    | .string content, _ => readTokens frames (.more (string content)) rest
    | .scalar value, _ => readTokens frames (.more value) rest
    | _, _ => none
  | frames, .firstKey, token :: rest =>
    match token, frames with
    | .objectClose, _ :: outer => readTokens outer (.more (object [])) rest
    | .string key, .object members _ :: outer =>
      readTokens (.object members key :: outer) .colon rest
    | _, _ => none
  | frames, .key, token :: rest =>
    match token, frames with
    | .string key, .object members _ :: outer =>
      readTokens (.object members key :: outer) .colon rest
    | _, _ => none
  | frames, .colon, token :: rest =>
    match token with
    | .colon => readTokens frames .value rest
    | _ => none
  | frames, .more value, token :: rest =>
    match frames, token with
    | .array items :: outer, .comma => readTokens (.array (value :: items) :: outer) .value rest
    | .array items :: outer, .arrayClose =>
      readTokens outer (.more (array (value :: items).reverse)) rest
    | .object members key :: outer, .comma =>
      readTokens (.object ((key, value) :: members) none :: outer) .key rest
    | .object members key :: outer, .objectClose =>
      readTokens outer (.more (object ((key, value) :: members).reverse)) rest
    | _, _ => none

/-- The value that a text writes. -/
def ofJsonText? (text : Text) : Option Json := do
  readTokens [] .value (← tokens? text)

end Breadboard.Json
