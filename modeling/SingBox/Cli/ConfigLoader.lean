import Mathlib.Data.String.Basic
import SingBox.Core.Json
import SingBox.Library.SortedMap

namespace SingBox.Cli

open Library Core

-- The values of `serde_json`. A `Map` is a `BTreeMap` there.
inductive Value (Number : Type)
  | null
  | bool (value : Bool)
  | number (number : Number)
  | string (value : String)
  | array (elements : List (Value Number))
  | object (fields : List (String × Value Number))

variable {Number Config : Type}

namespace Value

-- The objects of the value are maps.
inductive Valid : Value Number → Prop
  | null : Valid null
  | bool (value : Bool) : Valid (bool value)
  | number (value : Number) : Valid (number value)
  | string (value : String) : Valid (string value)
  | array {elements : List (Value Number)} : (∀ element ∈ elements, Valid element) →
      Valid (array elements)
  | object {fields : List (String × Value Number)} : SortedMap.Sorted fields →
      (∀ field ∈ fields, Valid field.2) → Valid (object fields)

end Value

-- What `serde_json` can make of a text.
abbrev Json (Number : Type) := { value : Value Number // value.Valid }

mutual

def mergeValue (source destination : Value Number) : Result (Value Number) :=
  match source, destination with
  | .null, destination => .ok destination
  | source, .null => .ok source
  | .array source, .array destination => .ok (.array (destination ++ source))
  | source, .array destination => .ok (.array (destination ++ [source]))
  | .object source, .object destination => do return .object (← mergeFields source destination)
  | _, .object _ => Result.bail "cannot merge a non-object value into an object"
  | _, destination => .ok destination
termination_by structural source

-- The loop over the fields of the source.
def mergeFields (source destination : List (String × Value Number)) :
    Result (List (String × Value Number)) :=
  match source with
  | [] => .ok destination
  | (key, sourceValue) :: source => do
      let value ← match SortedMap.get key destination with
        | some destinationValue =>
            Result.withContext s!"merge object field {key}"
              (mergeValue sourceValue destinationValue)
        | none => .ok sourceValue
      mergeFields source (SortedMap.insert key value (SortedMap.remove key destination))
termination_by structural source

end

section Load

-- `tokio::fs::read_to_string` and `serde_json::from_str`
variable (readToString : String → Result String) (fromStr : String → Result (Json Number))

def readSource (path : String) : Result (Json Number) := do
  let content ← Result.withContext s!"read config {path}" (readToString path)
  Result.withContext s!"decode config {path}" (parseExtendedJson fromStr content)

-- The loop of `load`.
def loadFrom (merged : Option (Value Number)) : List String → Result (Option (Value Number))
  | [] => .ok merged
  | path :: paths => do
      let source ← readSource readToString fromStr path
      let merged ← match merged with
        | some destination =>
            Result.withContext s!"merge config {path}" (mergeValue source.val destination)
        | none => .ok source.val
      loadFrom (some merged) paths

-- `load` after `collect_paths`. `fromValue` is that of `serde_json`, and the last error is
-- a panic.
def load (fromValue : Value Number → Result Config) (paths : List String) :
    Result (Config × List String) := do
  Result.ensure (!paths.isEmpty) "no JSON configuration files found"
  match ← loadFrom readToString fromStr none paths with
  | some merged =>
      return (← Result.withContext "decode merged configuration" (fromValue merged), paths)
  | none => Result.bail "configuration paths checked"

end Load

example : mergeValue (.object [("a", .number 1)])
    (.object [("a", .array []), ("b", .null)] : Value Nat) =
      .ok (.object [("a", .array [.number 1]), ("b", .null)]) := rfl

end SingBox.Cli
