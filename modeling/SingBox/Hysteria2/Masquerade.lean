import SingBox.Core.Ip
import SingBox.Core.Rule
import SingBox.Library.Utf8

namespace SingBox.Hysteria2

open Library
open Core (toAsciiLowercase)
open Utf8 (decode encode)

def MAX_MASQUERADE_RESPONSE_SIZE : Nat := 16 * 1024 * 1024

-- What the crate `http` makes of names, values and numbers. A name comes in lower case.
structure HttpCrate where
  -- `HeaderName::from_bytes`
  headerName : Bytes → Option String
  -- `HeaderValue::from_str`
  admitsValue : String → Bool
  -- `HeaderValue::to_str`
  visible : String → Bool
  -- `StatusCode::from_u16`
  admitsStatus : Nat → Bool

-- The entries of a `HeaderMap`, in the order in which they were appended.
abbrev HeaderMap := List (String × String)

structure Request where
  method : String
  path : String
  query : Option String

structure Response where
  status : Nat
  headers : HeaderMap := []
  body : Bytes
deriving DecidableEq

def plainResponse (status : Nat) (body : Bytes) : Response := { status, body }

-- `HeaderMap::insert`
def insertHeader (headers : HeaderMap) (name value : String) : HeaderMap :=
  headers.filter (·.1 ≠ name) ++ [(name, value)]

-- A header that the crate does not admit is left out.
def responseWithHeader (http : HttpCrate) (status : Nat) (name value : String) (body : Bytes) :
    Response :=
  let response := plainResponse status body
  match http.headerName (encode name) with
  | none => response
  | some name =>
      if http.admitsValue value then
        { response with headers := insertHeader response.headers name value }
      else response

def hexValue (value : UInt8) : Option UInt8 :=
  if 48 ≤ value ∧ value ≤ 57 then some (value - 48)
  else if 97 ≤ value ∧ value ≤ 102 then some (value - 97 + 10)
  else if 65 ≤ value ∧ value ≤ 70 then some (value - 65 + 10)
  else none

def decodePercent : Bytes → Option Bytes
  | [] => some []
  | byte :: rest =>
      if byte = 37 then
        match rest with
        | high :: low :: rest => do
            let high ← hexValue high
            let low ← hexValue low
            return (high <<< 4 ||| low) :: (← decodePercent rest)
        | _ => none
      else (decodePercent rest).map (byte :: ·)

def percentDecode (value : String) : Option String := (decodePercent (encode value)).bind decode

-- The characters of a text, one of them replaced.
def replaceChar (char : Char) (by_ : String) (text : List Char) : List Char :=
  text.flatMap fun other => if other = char then by_.toList else [other]

def htmlEscape (value : String) : String :=
  String.ofList <|
    replaceChar '"' "&quot;" <| replaceChar '>' "&gt;" <| replaceChar '<' "&lt;" <|
      replaceChar '&' "&amp;" value.toList

def asciiAlphanumeric (byte : UInt8) : Bool :=
  48 ≤ byte && byte ≤ 57 || 65 ≤ byte && byte ≤ 90 || 97 ≤ byte && byte ≤ 122

def percentEncodeSegment (value : String) : String :=
  String.ofList <| (encode value).flatMap fun byte =>
    if asciiAlphanumeric byte || [45, 95, 46, 126].contains byte then [Char.ofNat byte.toNat]
    else '%' :: [byte.toNat / 16, byte.toNat % 16].map fun digit => (Nat.digitChar digit).toUpper

example : percentDecode "/%2e%2E/a" = some "/../a" := by decide
example : percentEncodeSegment "a b/é" = "a%20b%2F%C3%A9" := by decide

end SingBox.Hysteria2
