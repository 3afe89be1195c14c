import SingBox.Core.Ip.Printed
import SingBox.Core.PacketRelay
import SingBox.Library.Steps
import SingBox.Library.Relay

namespace SingBox.AnyTls

open Library
open Core (Address IpAddr Packet UOT_MAGIC)
open Utf8 (encode)

def UOT_MAX_PACKET : Nat := 65535

-- The types of addresses, and what the reader says to a text and to a type that it cannot read.
structure AddressTypes where
  ipv4 : UInt8
  ipv6 : UInt8
  domain : UInt8
  notUtf8 : String
  unsupported : UInt8 → String

def socksTypes : AddressTypes where
  ipv4 := 1
  ipv6 := 4
  domain := 3
  notUtf8 := "AnyTLS domain is not UTF-8"
  unsupported kind := s!"unsupported AnyTLS address type {kind}"

def uotTypes : AddressTypes where
  ipv4 := 0
  ipv6 := 1
  domain := 2
  notUtf8 := "AnyTLS UDP domain is not UTF-8"
  unsupported kind := s!"unsupported AnyTLS UDP address type {kind}"

section

variable {σ : Type} [AsyncRead σ]

open Async (readExact)

def readU8 (polls : Nat) : Async σ UInt8 := do
  let bytes ← readExact 1 polls
  return bytes.getD 0 0

def readU16 (polls : Nat) : Async σ UInt16 := do
  let bytes ← readExact 2 polls
  return UInt16.ofNat (ofBe bytes)

def readHost (types : AddressTypes) (kind : UInt8) (polls : Nat) : Async σ String :=
  if kind = types.ipv4 then do
    let bytes ← readExact 4 polls
    return String.ofList (IpAddr.ipv4Text (BitVec.ofNat 32 (ofBe bytes)))
  else if kind = types.ipv6 then do
    let bytes ← readExact 16 polls
    return String.ofList (IpAddr.ipv6Text (BitVec.ofNat 128 (ofBe bytes)))
  else if kind = types.domain then do
    let length ← readU8 polls
    let bytes ← readExact length.toNat polls
    Async.ofResult (Result.ofOption types.notUtf8 (Utf8.decode bytes))
  else Async.ofResult (Result.bail (types.unsupported kind))

def readAddress (types : AddressTypes) (polls : Nat) : Async σ Address := do
  let kind ← readU8 polls
  let host ← readHost types kind polls
  let port ← readU16 polls
  Async.ofResult (Address.new host port)

def readSocksAddress (polls : Nat) : Async σ Address := readAddress socksTypes polls

def readUotAddress (polls : Nat) : Async σ Address := readAddress uotTypes polls

def readUotRequest (polls : Nat) : Async σ Unit := do
  let isConnect ← readU8 polls
  Async.ensure (isConnect = 0) "AnyTLS UDP connect streams are not supported"
  let _ ← readUotAddress polls

-- `UotPacketConnection::recv`
def recv (polls : Nat) : Async σ Packet := do
  let destination ← readUotAddress polls
  let length ← readU16 polls
  Async.ensure (length.toNat ≤ UOT_MAX_PACKET) "AnyTLS UDP packet is too large"
  let data ← readExact length.toNat polls
  return { data, destination }

end

-- The host in the output of `encode_socks_address`.
def encodeSocksHost (host : String) : Appends Unit :=
  match IpAddr.fromStr host.toList with
  | some (.v4 ip) => do
      Appends.push 1
      Appends.extend (toBe 4 ip.toNat)
  | some (.v6 ip) => do
      Appends.push 4
      Appends.extend (toBe 16 ip.toNat)
  | none => do
      Steps.ensure ((encode host).length ≤ 255) "AnyTLS domain is too long"
      Appends.push 3
      Appends.push (UInt8.ofNat (encode host).length)
      Appends.extend (encode host)

def encodeSocksAddress (address : Address) : Result Bytes :=
  let (encoded, output) := (do
    encodeSocksHost address.host
    Appends.extend (toBe 2 address.port.toNat)).run []
  encoded.map fun _ => output

section

variable {σ : Type} [AsyncWrite σ]

open Async (writeAll)

def writeUotHost (host : String) (polls : Nat) : Async σ Unit :=
  match IpAddr.fromStr host.toList with
  | some (.v4 ip) => do
      writeAll [0] polls
      writeAll (toBe 4 ip.toNat) polls
  | some (.v6 ip) => do
      writeAll [1] polls
      writeAll (toBe 16 ip.toNat) polls
  | none => do
      Async.ensure ((encode host).length ≤ 255) "AnyTLS UDP domain is too long"
      writeAll [2] polls
      writeAll [UInt8.ofNat (encode host).length] polls
      writeAll (encode host) polls

def writeUotAddress (address : Address) (polls : Nat) : Async σ Unit := do
  writeUotHost address.host polls
  writeAll (toBe 2 address.port.toNat) polls

def writeUotRequest (polls : Nat) : Async σ Unit := do
  writeAll [0] polls
  let address ← Async.ofResult (Address.new UOT_MAGIC 0)
  writeUotAddress address polls
  Async.flush polls

-- `UotPacketConnection::send`
def send (packet : Packet) (polls : Nat) : Async σ Unit := do
  Async.ensure (packet.data.length ≤ UOT_MAX_PACKET) "AnyTLS UDP packet is too large"
  writeUotAddress packet.destination polls
  writeAll (toBe 2 packet.data.length) polls
  writeAll packet.data polls
  Async.flush polls

end

end SingBox.AnyTls
