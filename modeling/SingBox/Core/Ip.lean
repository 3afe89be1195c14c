import Mathlib.Algebra.Order.Group.Nat
import SingBox.Library.Result

namespace SingBox.Core

open Library

inductive IpAddr where
  | v4 (address : BitVec 32)
  | v6 (address : BitVec 128)
deriving DecidableEq

-- The flow label and the scope of an IPv6 socket address are left out.
structure SocketAddr where
  ip : IpAddr
  port : UInt16
deriving DecidableEq

namespace IpAddr

def bits : IpAddr → Nat
  | .v4 _ => 32
  | .v6 _ => 128

-- `Ipv4Addr::to_ipv6_mapped`
def toIpv6Mapped (address : BitVec 32) : BitVec 128 := 0xffff#96 ++ address

-- `Ipv6Addr::to_ipv4_mapped`
def toIpv4Mapped (address : BitVec 128) : Option (BitVec 32) :=
  if address.extractLsb' 32 96 = 0xffff#96 then some (address.extractLsb' 0 32) else none

theorem toIpv4Mapped_toIpv6Mapped (address : BitVec 32) :
    toIpv4Mapped (toIpv6Mapped address) = some address := by
  have hhigh : (toIpv6Mapped address).extractLsb' 32 96 = 0xffff#96 :=
    BitVec.extractLsb'_append_eq_left
  have hlow : (toIpv6Mapped address).extractLsb' 0 32 = address :=
    BitVec.extractLsb'_append_eq_right
  simp [toIpv4Mapped, hhigh, hlow]

end IpAddr

def normalizeSocketAddr (address : SocketAddr) : SocketAddr :=
  match address.ip with
  | .v6 ip =>
      match IpAddr.toIpv4Mapped ip with
      | some ip => { ip := .v4 ip, port := address.port }
      | none => address
  | .v4 _ => address

theorem normalizeSocketAddr_idem (address : SocketAddr) :
    normalizeSocketAddr (normalizeSocketAddr address) = normalizeSocketAddr address := by
  obtain ⟨ip | ip, port⟩ := address
  · rfl
  · cases h : IpAddr.toIpv4Mapped ip <;> simp [normalizeSocketAddr, h]

-- `char::to_digit`
def toDigit (radix : Nat) (char : Char) : Option Nat :=
  let digit :=
    if '0' ≤ char ∧ char ≤ '9' then char.toNat - '0'.toNat
    else if 'a' ≤ char ∧ char ≤ 'z' then char.toNat - 'a'.toNat + 10
    else if 'A' ≤ char ∧ char ≤ 'Z' then char.toNat - 'A'.toNat + 10
    else radix
  if digit < radix then some digit else none

-- `u8::from_str` and `u16::from_str`: every number below `bound`, with or
-- without a plus sign.
def parseUnsigned (bound : Nat) (text : List Char) : Result Nat :=
  match text with
  | [] => Result.bail "cannot parse integer from empty string"
  | ['+'] => Result.bail "invalid digit found in string"
  | '+' :: digits => go digits 0
  | digits => go digits 0
where
  go : List Char → Nat → Result Nat
    | [], result => .ok result
    | char :: rest, result =>
        match toDigit 10 char with
        | none => Result.bail "invalid digit found in string"
        | some digit =>
            if result * 10 + digit < bound then go rest (result * 10 + digit)
            else Result.bail "number too large to fit in target type"

-- The parser of `core::net`: a parser that fails has read nothing.
abbrev Parser := StateT (List Char) Option

namespace Parser

variable {α : Type}

def readGivenChar (given : Char) : Parser Unit
  | char :: rest => if char = given then some ((), rest) else none
  | [] => none

def readSeparator (separator : Char) (index : Nat) (inner : Parser α) : Parser α := do
  if 0 < index then readGivenChar separator
  inner

def readDigits (radix maxDigits : Nat) :
    List Char → Nat → Nat → Option ((Nat × Nat) × List Char)
  | [], result, digitCount => some ((result, digitCount), [])
  | char :: rest, result, digitCount =>
      match toDigit radix char with
      | none => some ((result, digitCount), char :: rest)
      | some digit =>
          if maxDigits < digitCount + 1 then none
          else readDigits radix maxDigits rest (result * radix + digit) (digitCount + 1)

def readNumber (bound radix maxDigits : Nat) (allowZeroPrefix : Bool) : Parser Nat :=
  fun input => do
    let hasLeadingZero := input.head? == some '0'
    let ((result, digitCount), rest) ← readDigits radix maxDigits input 0 0
    if digitCount = 0 then none
    else if !allowZeroPrefix && hasLeadingZero && 1 < digitCount then none
    else if result < bound then some (result, rest)
    else none

-- The leading zeros of an octal number are refused.
def readOctet (index : Nat) : Parser Nat :=
  readSeparator '.' index (readNumber 256 10 3 false)

def readIpv4Addr : Parser (BitVec 32) := do
  let one ← readOctet 0
  let two ← readOctet 1
  let three ← readOctet 2
  let four ← readOctet 3
  return BitVec.ofNat 32 (((one * 256 + two) * 256 + three) * 256 + four)

-- The groups read into `slots` free places out of `limit`, and whether the last
-- two of them were written as an embedded IPv4 address, which takes two places.
def readGroups (limit : Nat) : Nat → List Char → (List (BitVec 16) × Bool) × List Char
  | 0, input => (([], false), input)
  | slots + 1, input =>
      let index := limit - (slots + 1)
      let embedded :=
        if index < limit - 1 then readSeparator ':' index readIpv4Addr input else none
      match embedded with
      | some (address, rest) =>
          (([address.extractLsb' 16 16, address.extractLsb' 0 16], true), rest)
      | none =>
          match readSeparator ':' index (readNumber 65536 16 4 true) input with
          | none => (([], false), input)
          | some (group, rest) =>
              let ((groups, embedded), rest) := readGroups limit slots rest
              ((BitVec.ofNat 16 group :: groups, embedded), rest)

def ofGroups (groups : List (BitVec 16)) : BitVec 128 :=
  BitVec.ofNat 128 (groups.foldl (fun n group => n * 65536 + group.toNat) 0)

def readIpv6Addr : Parser (BitVec 128) := fun input => do
  let ((head, headIpv4), rest) := readGroups 8 8 input
  if head.length = 8 then return (ofGroups head, rest)
  -- an embedded IPv4 address is not allowed before `::`
  if headIpv4 then none
  let ((), rest) ← readGivenChar ':' rest
  let ((), rest) ← readGivenChar ':' rest
  let limit := 8 - (head.length + 1)
  let ((tail, _), rest) := readGroups limit limit rest
  let zeros := List.replicate (8 - head.length - tail.length) 0
  return (ofGroups (head ++ zeros ++ tail), rest)

def readIpAddr : Parser IpAddr := fun input =>
  match readIpv4Addr input with
  | some (address, rest) => some (.v4 address, rest)
  | none => (readIpv6Addr input).map fun (address, rest) => (.v6 address, rest)

end Parser

-- `IpAddr::from_str`: the whole text is the address.
def IpAddr.fromStr (text : List Char) : Option IpAddr :=
  match Parser.readIpAddr text with
  | some (address, []) => some address
  | _ => none

-- All of one address, and the ends of a block, in both notations.
example : IpAddr.fromStr "::ffff:10.0.0.1".toList =
    some (.v6 (IpAddr.toIpv6Mapped 0x0a000001#32)) := by decide
example : IpAddr.fromStr "10.00.0.1".toList = none := by decide
example : IpAddr.fromStr "1::2:3:4:5:6:7:8".toList = none := by decide

-- `str::split_once`
def splitOnce (separator : Char) : List Char → Option (List Char × List Char)
  | [] => none
  | char :: rest =>
      if char = separator then some ([], rest)
      else (splitOnce separator rest).map fun (before, after) => (char :: before, after)

theorem splitOnce_none {separator : Char} {text : List Char} (h : separator ∉ text) :
    splitOnce separator text = none := by
  induction text with
  | nil => rfl
  | cons char rest ih =>
      obtain ⟨hne, hrest⟩ := not_or.mp (mt List.mem_cons.mpr h)
      simp [splitOnce, Ne.symm hne, ih hrest]

theorem splitOnce_append {separator : Char} {before after : List Char} (h : separator ∉ before) :
    splitOnce separator (before ++ separator :: after) = some (before, after) := by
  induction before with
  | nil => simp [splitOnce]
  | cons char rest ih =>
      obtain ⟨hne, hrest⟩ := not_or.mp (mt List.mem_cons.mpr h)
      simp [splitOnce, Ne.symm hne, ih hrest]

-- The `Display` of an address.
namespace IpAddr

def octet (address : BitVec 32) (index : Nat) : Nat :=
  address.toNat / 256 ^ (3 - index) % 256

def ipv4Text (address : BitVec 32) : List Char :=
  Nat.toDigits 10 (octet address 0) ++ '.' :: Nat.toDigits 10 (octet address 1) ++
    '.' :: Nat.toDigits 10 (octet address 2) ++ '.' :: Nat.toDigits 10 (octet address 3)

def segments (address : BitVec 128) : List Nat :=
  (List.range 8).map fun index => address.toNat / 65536 ^ (7 - index) % 65536

structure Span where
  start : Nat
  len : Nat

-- The longest run of zero segments, the first one of that length.
def longestZeros (segments : List Nat) : Span :=
  let scanned := segments.zipIdx.foldl (fun (longest, current) (segment, index) =>
    if segment = 0 then
      let current : Span :=
        { start := if current.len = 0 then index else current.start, len := current.len + 1 }
      (if longest.len < current.len then current else longest, current)
    else (longest, ⟨0, 0⟩)) ((⟨0, 0⟩ : Span), (⟨0, 0⟩ : Span))
  scanned.1

def segmentsText : List Nat → List Char
  | [] => []
  | [segment] => Nat.toDigits 16 segment
  | segment :: rest => Nat.toDigits 16 segment ++ ':' :: segmentsText rest

def ipv6Text (address : BitVec 128) : List Char :=
  match toIpv4Mapped address with
  | some address => "::ffff:".toList ++ ipv4Text address
  | none =>
      let segments := segments address
      let zeros := longestZeros segments
      if 1 < zeros.len then
        segmentsText (segments.take zeros.start) ++ "::".toList ++
          segmentsText (segments.drop (zeros.start + zeros.len))
      else segmentsText segments

example : ipv6Text 0x20010db8000000000000000000000001#128 = "2001:db8::1".toList := by decide

end IpAddr

structure IpCidr where
  network : IpAddr
  prefixLen : Nat
  prefixLen_le : prefixLen ≤ network.bits
deriving DecidableEq

namespace IpCidr

def fromStr (value : String) : Result IpCidr := do
  let (address, prefixLen) ←
    match splitOnce '/' value.toList with
    | some (address, prefixLen) => do
        let prefixLen ← parseUnsigned 256 prefixLen
        pure (address, some prefixLen)
    | none => pure (value.toList, none)
  let network ← Result.ofOption "invalid IP address syntax" (IpAddr.fromStr address)
  let prefixLen := prefixLen.getD network.bits
  if h : prefixLen ≤ network.bits then .ok ⟨network, prefixLen, h⟩
  else Result.bail s!"invalid CIDR prefix: {value}"

def mask (width prefixLen : Nat) : BitVec width :=
  if prefixLen = 0 then 0 else BitVec.allOnes width <<< (width - prefixLen)

def contains (this : IpCidr) (address : IpAddr) : Bool :=
  match this.network, address with
  | .v4 network, .v4 address =>
      network &&& mask 32 this.prefixLen == address &&& mask 32 this.prefixLen
  | .v6 network, .v6 address =>
      network &&& mask 128 this.prefixLen == address &&& mask 128 this.prefixLen
  | _, _ => false

end IpCidr

namespace IpAddr

-- `is_private`, with the standard library's own tests of an IPv4 address.
def isPrivate : IpAddr → Bool
  | .v4 address =>
      let one := octet address 0
      let two := octet address 1
      let rfc1918 := one == 10 || one == 172 && 16 ≤ two && two ≤ 31 || one == 192 && two == 168
      let loopback := one == 127
      let linkLocal := one == 169 && two == 254
      let broadcast := address == BitVec.allOnes 32
      let unspecified := address == 0
      rfc1918 || loopback || linkLocal || broadcast || unspecified
  | .v6 address =>
      let loopback := address == 1
      let unspecified := address == 0
      let mask (shift : Nat) := BitVec.allOnes 128 <<< shift
      let uniqueLocal := address &&& mask 121 == (0xfc00#16 ++ 0#112) &&& mask 121
      let linkLocal := address &&& mask 118 == (0xfe80#16 ++ 0#112) &&& mask 118
      loopback || unspecified || uniqueLocal || linkLocal

end IpAddr

end SingBox.Core
