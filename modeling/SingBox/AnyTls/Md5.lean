import SingBox.Library.Reader

namespace SingBox.AnyTls

open Library

-- `md5_hex`.
namespace Md5

def SHIFT : List UInt32 :=
  [7, 12, 17, 22, 7, 12, 17, 22, 7, 12, 17, 22, 7, 12, 17, 22,
    5, 9, 14, 20, 5, 9, 14, 20, 5, 9, 14, 20, 5, 9, 14, 20,
    4, 11, 16, 23, 4, 11, 16, 23, 4, 11, 16, 23, 4, 11, 16, 23,
    6, 10, 15, 21, 6, 10, 15, 21, 6, 10, 15, 21, 6, 10, 15, 21]

def CONSTANTS : List UInt32 :=
  [0xd76aa478, 0xe8c7b756, 0x242070db, 0xc1bdceee, 0xf57c0faf, 0x4787c62a, 0xa8304613, 0xfd469501,
    0x698098d8, 0x8b44f7af, 0xffff5bb1, 0x895cd7be, 0x6b901122, 0xfd987193, 0xa679438e, 0x49b40821,
    0xf61e2562, 0xc040b340, 0x265e5a51, 0xe9b6c7aa, 0xd62f105d, 0x02441453, 0xd8a1e681, 0xe7d3fbc8,
    0x21e1cde6, 0xc33707d6, 0xf4d50d87, 0x455a14ed, 0xa9e3e905, 0xfcefa3f8, 0x676f02d9, 0x8d2a4c8a,
    0xfffa3942, 0x8771f681, 0x6d9d6122, 0xfde5380c, 0xa4beea44, 0x4bdecfa9, 0xf6bb4b60, 0xbebfbc70,
    0x289b7ec6, 0xeaa127fa, 0xd4ef3085, 0x04881d05, 0xd9d4d039, 0xe6db99e5, 0x1fa27cf8, 0xc4ac5665,
    0xf4292244, 0x432aff97, 0xab9423a7, 0xfc93a039, 0x655b59c3, 0x8f0ccc92, 0xffeff47d, 0x85845dd1,
    0x6fa87e4f, 0xfe2ce6e0, 0xa3014314, 0x4e0811a1, 0xf7537e82, 0xbd3af235, 0x2ad7d2bb, 0xeb86d391]

-- `u32::rotate_left` for less than a word.
def rotateLeft (word count : UInt32) : UInt32 := (word <<< count) ||| (word >>> (32 - count))

structure State where
  a : UInt32
  b : UInt32
  c : UInt32
  d : UInt32

def initial : State := ⟨0x67452301, 0xefcdab89, 0x98badcfe, 0x10325476⟩

-- The low bytes of `n`, the least significant first.
def toLe (width n : Nat) : Bytes := (toBe width n).reverse

-- Zeros up to 56 bytes in the last chunk, and the number of bits.
def pad (input : Bytes) : Bytes :=
  let message := input ++ [0x80]
  let zeros := (120 - message.length % 64) % 64
  message ++ List.replicate zeros 0 ++ toLe 8 (input.length * 8 % 2 ^ 64)

def word (chunk : Bytes) (index : Nat) : UInt32 :=
  UInt32.ofNat (ofBe ((chunk.drop (index * 4)).take 4).reverse)

def round (chunk : Bytes) (state : State) (index : Nat) : State :=
  let (function, wordIndex) :=
    if index < 16 then ((state.b &&& state.c) ||| (~~~state.b &&& state.d), index)
    else if index < 32 then
      ((state.d &&& state.b) ||| (~~~state.d &&& state.c), (5 * index + 1) % 16)
    else if index < 48 then (state.b ^^^ state.c ^^^ state.d, (3 * index + 5) % 16)
    else (state.c ^^^ (state.b ||| ~~~state.d), 7 * index % 16)
  let next := rotateLeft (state.a + function + CONSTANTS.getD index 0 + word chunk wordIndex)
    (SHIFT.getD index 0)
  { a := state.d, d := state.c, c := state.b, b := state.b + next }

def compress (state : State) (chunk : Bytes) : State :=
  let last := (List.range 64).foldl (round chunk) state
  ⟨state.a + last.a, state.b + last.b, state.c + last.c, state.d + last.d⟩

-- The chunks of 64 bytes.
def digest (input : Bytes) : Bytes :=
  let message := pad input
  let chunks := (List.range (message.length / 64)).map fun index =>
    (message.drop (index * 64)).take 64
  let state := chunks.foldl compress initial
  [state.a, state.b, state.c, state.d].flatMap fun word => toLe 4 word.toNat

-- `{byte:02x}`
def hexByte (byte : UInt8) : List Char :=
  [Nat.digitChar (byte.toNat / 16), Nat.digitChar (byte.toNat % 16)]

end Md5

def md5Hex (input : Bytes) : String := String.ofList ((Md5.digest input).flatMap Md5.hexByte)

example : md5Hex [97, 98, 99] = "900150983cd24fb0d6963f7d28e17f72" := by decide +kernel

namespace Md5

theorem digest_length (input : Bytes) : (digest input).length = 16 := by
  simp [digest, toLe]

theorem hexByte_mem {byte : UInt8} {char : Char} (h : char ∈ hexByte byte) :
    char ∈ "0123456789abcdef".toList := by
  have hdigit : ∀ digit < 16, Nat.digitChar digit ∈ "0123456789abcdef".toList := by decide
  have hbyte := byte.toNat_lt
  simp only [hexByte, List.mem_cons, List.not_mem_nil, or_false] at h
  obtain rfl | rfl := h
  · exact hdigit _ (by omega)
  · exact hdigit _ (by omega)

theorem md5Hex_mem {input : Bytes} {char : Char} (h : char ∈ (md5Hex input).toList) :
    char ∈ "0123456789abcdef".toList := by
  rw [md5Hex, String.toList_ofList, List.mem_flatMap] at h
  obtain ⟨byte, _, hchar⟩ := h
  exact hexByte_mem hchar

theorem md5Hex_length (input : Bytes) : (md5Hex input).toList.length = 32 := by
  have hsum : ∀ bytes : Bytes, (bytes.flatMap hexByte).length = bytes.length * 2 := by
    intro bytes
    induction bytes with
    | nil => rfl
    | cons byte rest ih =>
        rw [List.flatMap_cons, List.length_append, ih, List.length_cons, hexByte]
        simp only [List.length_cons, List.length_nil]
        omega
  rw [md5Hex, String.toList_ofList, hsum, digest_length]

end Md5

end SingBox.AnyTls
