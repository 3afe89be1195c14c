import SingBox.Vless.Base64

namespace SingBox.Vless

open Library
open Utf8 (encode)

-- `sha1`.
namespace Sha1

-- `u32::rotate_left` for less than a word.
def rotateLeft (word count : UInt32) : UInt32 := (word <<< count) ||| (word >>> (32 - count))

structure State where
  a : UInt32
  b : UInt32
  c : UInt32
  d : UInt32
  e : UInt32

def initial : State := ⟨0x67452301, 0xefcdab89, 0x98badcfe, 0x10325476, 0xc3d2e1f0⟩

-- Zeros up to 56 bytes in the last chunk, and the number of bits.
def pad (message : Bytes) : Bytes :=
  let data := message ++ [0x80]
  let zeros := (120 - data.length % 64) % 64
  data ++ List.replicate zeros 0 ++ toBe 8 (message.length * 8 % 2 ^ 64)

def nextWord (words : List UInt32) (index : Nat) : List UInt32 :=
  words ++ [rotateLeft (words.getD (index - 3) 0 ^^^ words.getD (index - 8) 0 ^^^
    words.getD (index - 14) 0 ^^^ words.getD (index - 16) 0) 1]

-- The sixteen words of a chunk, and the others up to eighty.
def words (chunk : Bytes) : List UInt32 :=
  let first := (List.range 16).map fun index =>
    UInt32.ofNat (ofBe ((chunk.drop (index * 4)).take 4))
  (List.range' 16 64).foldl nextWord first

def round (state : State) (entry : UInt32 × Nat) : State :=
  let (word, index) := entry
  let (function, constant) :=
    if index < 20 then ((state.b &&& state.c) ||| (~~~state.b &&& state.d), 0x5a827999)
    else if index < 40 then (state.b ^^^ state.c ^^^ state.d, 0x6ed9eba1)
    else if index < 60 then
      ((state.b &&& state.c) ||| (state.b &&& state.d) ||| (state.c &&& state.d), 0x8f1bbcdc)
    else (state.b ^^^ state.c ^^^ state.d, 0xca62c1d6)
  let temp := rotateLeft state.a 5 + function + state.e + constant + word
  { e := state.d, d := state.c, c := rotateLeft state.b 30, b := state.a, a := temp }

def compress (state : State) (chunk : Bytes) : State :=
  let last := (words chunk).zipIdx.foldl round state
  ⟨state.a + last.a, state.b + last.b, state.c + last.c, state.d + last.d, state.e + last.e⟩

-- The chunks of 64 bytes.
def digest (message : Bytes) : Bytes :=
  let data := pad message
  let chunks := (List.range (data.length / 64)).map fun index => (data.drop (index * 64)).take 64
  let state := chunks.foldl compress initial
  [state.a, state.b, state.c, state.d, state.e].flatMap fun word => toBe 4 word.toNat

end Sha1

def WS_GUID : Bytes := encode "258EAFA5-E914-47DA-95CA-C5AB0DC85B11"

def websocketAccept (key : String) : String := encodeBase64 (Sha1.digest (encode key ++ WS_GUID))

example : websocketAccept "dGhlIHNhbXBsZSBub25jZQ==" = "s3pPLMBiTxaQ9kYGzzhZRbK+xOo=" := by
  decide +kernel

end SingBox.Vless
