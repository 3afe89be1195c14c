import SingBox.AnyTls.Frame
import SingBox.AnyTls.Md5
import SingBox.Core.Ip
import SingBox.Library.Decoder
import SingBox.Library.Loop
import SingBox.Library.Text
import SingBox.Library.Utf8

namespace SingBox.AnyTls

open Library
open Core (parseUnsigned splitOnce)
open Utf8 (encode)

inductive PaddingInstruction where
  | range (min max : Nat)
  | check
deriving DecidableEq, Repr

-- `rules` is the source's hash map from packet indices.
structure PaddingScheme where
  stop : Nat
  rules : Nat → Option (List PaddingInstruction)
  source : String

-- `random` is what the system's generator fills the eight bytes with, `none`
-- when it fails.
def randomRange (random : Option UInt64) (min max : Nat) : Nat :=
  if min ≥ max then min
  else
    match random with
    | none => min
    | some value => min + value.toNat % (max - min)

def wasteFrame (length : Nat) : Frame :=
  { command := CMD_WASTE, streamId := 0, data := List.replicate length 0 }

def appendWastePass (target : Nat) (record : Bytes) : Pass Bytes (IoResult Bytes) :=
  if record.length + 7 ≤ target then
    let length := min (target - record.length - 7) MAX_FRAME_SIZE
    match encodeFrame record (wasteFrame length) with
    | .ok record => .again record
    | .error error => .done (.error error)
  else
    .done (.ok record)

@[simp] theorem wasteFrame_data_length (length : Nat) :
    (wasteFrame length).data.length = length := by simp [wasteFrame]

theorem appendWastePass_eq (target : Nat) (record : Bytes) :
    appendWastePass target record =
      if record.length + 7 ≤ target then
        .again (record ++
          (wasteFrame (min (target - record.length - 7) MAX_FRAME_SIZE)).wire)
      else .done (.ok record) := by
  have hw : (wasteFrame (min (target - record.length - 7) MAX_FRAME_SIZE)).data.length ≤
      MAX_FRAME_SIZE := by simp
  simp only [appendWastePass, encodeFrame_ok _ _ hw]

theorem appendWastePass_decreases (target : Nat) :
    Loop.Decreases (appendWastePass target) (fun record => target - record.length) := by
  intro record next hp
  rw [appendWastePass_eq] at hp
  split at hp
  · obtain rfl := Pass.again.inj hp
    simp only [List.length_append, wire_length]
    omega
  · cases hp

def appendWaste (record : Bytes) (target : Nat) : IoResult Bytes :=
  Loop.run (appendWastePass target) _ (appendWastePass_decreases target) record

-- The loop over a rule's instructions, from `offset` on: the arguments of the
-- `write_all` calls in order. `random n` answers the n-th instruction's draw.
def writeInstructions (packet : Bytes) :
    (random : Nat → Option UInt64) → List PaddingInstruction → (offset : Nat) →
      IoResult (List Bytes)
  | _, [], offset =>
      if offset < packet.length then .ok [packet.drop offset] else .ok []
  | random, .check :: rest, offset =>
      if offset = packet.length then .ok []
      else writeInstructions packet (fun n => random (n + 1)) rest offset
  | random, .range low high :: rest, offset => do
      let target := randomRange (random 0) low high
      let remaining := packet.length - offset
      let take := min remaining target
      let record ← appendWaste ((packet.drop offset).take take) target
      let records ← writeInstructions packet (fun n => random (n + 1)) rest (offset + take)
      return record :: records

-- The records written for one frame and the packet index after it. The index
-- is a `usize`, advanced once the frame has been encoded.
def writePaddedFrame (frame : Frame) (scheme : PaddingScheme) (random : Nat → Option UInt64)
    (packetIndex : Nat) : IoResult (List Bytes × Nat) := do
  let packet ← encodeFrame [] frame
  let nextIndex := (packetIndex + 1) % 2 ^ 64
  match (if packetIndex < scheme.stop then scheme.rules packetIndex else none) with
  | none => return ([packet], nextIndex)
  | some instructions =>
      let records ← writeInstructions packet random instructions 0
      return (records, nextIndex)

-- A frame handed to the writer task, with the scheme it finds under the lock
-- and the answers of the generator.
structure PaddedWrite where
  frame : Frame
  scheme : PaddingScheme
  random : Nat → Option UInt64

-- The writer task: frames one after another with one packet index.
def writePaddedFrames : List PaddedWrite → Nat → IoResult (List Bytes × Nat)
  | [], packetIndex => .ok ([], packetIndex)
  | write :: rest, packetIndex => do
      let (records, packetIndex) ←
        writePaddedFrame write.frame write.scheme write.random packetIndex
      let (more, packetIndex) ← writePaddedFrames rest packetIndex
      return (records ++ more, packetIndex)

def AUTH_PADDING : Nat := 30
def MAX_PADDING_SIZE : Nat := 1024 * 1024

def DEFAULT_PADDING_SCHEME : String :=
  "stop=8\n0=30-30\n1=100-400\n2=400-500,c,500-1000,c,500-1000,c,500-1000,c,500-1000\n" ++
    "3=9-9,500-1000\n4=500-1000\n5=500-1000\n6=500-1000\n7=500-1000"

-- The numbers of a scheme are `usize`s.
def parseUsize (text : List Char) : Result Nat := parseUnsigned (2 ^ 64) text

namespace PaddingScheme

def parseInstruction (part : List Char) : Result PaddingInstruction := do
  if part = ['c'] then return .check
  let (min, max) ←
    Result.ofOption s!"invalid AnyTLS padding range: {String.ofList part}" (splitOnce '-' part)
  let min ← parseUsize min
  let max ← parseUsize max
  Result.ensure (min ≤ max) "AnyTLS padding range is reversed"
  Result.ensure (max ≤ MAX_PADDING_SIZE) "AnyTLS padding range is too large"
  return .range min max

def parseItem (scheme : PaddingScheme) (item : List Char) : Result PaddingScheme := do
  let (key, value) ←
    Result.ofOption s!"invalid AnyTLS padding item: {String.ofList item}" (splitOnce '=' item)
  if key = "stop".toList then
    let stop ← parseUsize value
    return { scheme with stop }
  let index ← parseUsize key
  let rules ← (value.splitOn ',').mapM parseInstruction
  Result.ensure (!rules.isEmpty) "AnyTLS padding rule is empty"
  return { scheme with rules := Function.update scheme.rules index (some rules) }

def parse (source : String) : Result PaddingScheme := do
  let source := if (Text.trim source.toList).isEmpty then DEFAULT_PADDING_SCHEME else source
  let scheme ← (Text.splitWhitespace source.toList).foldlM parseItem
    { stop := 8, rules := fun _ => none, source }
  Result.ensure (0 < scheme.stop) "AnyTLS padding stop must be positive"
  return scheme

-- The first range among the instructions for the preamble.
def authRange (this : PaddingScheme) : Option (Nat × Nat) :=
  (this.rules 0).bind fun rules => rules.findSome? fun
    | .range min max => some (min, max)
    | .check => none

def authPaddingLen (this : PaddingScheme) (random : Option UInt64) : Nat :=
  match this.authRange with
  | some (min, max) => randomRange random min max
  | none => 0

def md5Hex (this : PaddingScheme) : String := AnyTls.md5Hex (encode this.source)

end PaddingScheme

-- `Sha256` gives the digest of a password.
abbrev Sha256 := Bytes → { digest : Bytes // digest.length = 32 }

def passwordDigest (sha256 : Sha256) (password : String) : Bytes := (sha256 (encode password)).1

-- What `connect_stream` writes first.
def connectPreamble (sha256 : Sha256) (password : String) (padding : PaddingScheme)
    (random : Option UInt64) : Result Bytes := do
  let authPadding := padding.authPaddingLen random
  let authPadding := if authPadding = 0 then AUTH_PADDING else authPadding
  Result.ensure (authPadding ≤ 65535) "AnyTLS authentication padding is too large"
  return passwordDigest sha256 password ++ toBe 2 authPadding ++ List.replicate authPadding 0

def EARLY_EOF : List String := ["early eof"]

-- What `handle_inbound_connection` reads first: the user of the connection.
def readPreamble (users : Bytes → Option String) : Decoder String := do
  let passwordHash ← Decoder.exact EARLY_EOF 32
  let user ← Decoder.ofResult (Result.ofOption "AnyTLS authentication failed" (users passwordHash))
  let paddingLen ← Decoder.exact EARLY_EOF 2
  let _ ← Decoder.exact EARLY_EOF (ofBe paddingLen)
  return user

end SingBox.AnyTls
