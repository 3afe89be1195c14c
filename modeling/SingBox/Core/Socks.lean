import SingBox.Core.PacketRelay
import SingBox.Core.Srs
import SingBox.Library.Steps
import SingBox.Library.Utf8

namespace SingBox.Core

open Library

def UDP_BUFFER_SIZE : Nat := 65535

namespace Socks

-- No datagram is longer than the buffer it is received in.
structure Datagram where
  source : SocketAddr
  bytes : Bytes
  bytes_le : bytes.length ≤ UDP_BUFFER_SIZE

-- The host in the output of `encode_address`.
def encodeHost (host : String) : Appends Unit :=
  match IpAddr.fromStr host.toList with
  | some (.v4 ip) => do
      Appends.push 1
      Appends.extend (toBe 4 ip.toNat)
  | some (.v6 ip) => do
      Appends.push 4
      Appends.extend (toBe 16 ip.toNat)
  | none => do
      Steps.ensure ((Utf8.encode host).length ≤ 255) "SOCKS host is too long"
      Appends.push 3
      Appends.push (UInt8.ofNat (Utf8.encode host).length)
      Appends.extend (Utf8.encode host)

def encodeAddress (address : Address) : Appends Unit := do
  encodeHost address.host
  Appends.extend (toBe 2 address.port.toNat)

-- The `&input[..]` of the source are within the lengths it has checked.
def decodeAddress (input : Bytes) : Result (Address × Nat) := do
  Result.ensure (!input.isEmpty) "missing SOCKS UDP address"
  let kind := input.getD 0 0
  let (host, addressLen) ←
    if kind = 1 then do
      Result.ensure (7 ≤ input.length) "truncated SOCKS IPv4 address"
      let address := BitVec.ofNat 32 (ofBe ((input.drop 1).take 4))
      pure (String.ofList (IpAddr.ipv4Text address), 5)
    else if kind = 4 then do
      Result.ensure (19 ≤ input.length) "truncated SOCKS IPv6 address"
      let address := BitVec.ofNat 128 (ofBe ((input.drop 1).take 16))
      pure (String.ofList (IpAddr.ipv6Text address), 17)
    else if kind = 3 then do
      Result.ensure (2 ≤ input.length) "truncated SOCKS domain length"
      let length := (input.getD 1 0).toNat
      Result.ensure (2 + length + 2 ≤ input.length) "truncated SOCKS domain"
      let host ← Srs.fromUtf8 "SOCKS domain is not UTF-8" ((input.drop 2).take length)
      pure (host, 2 + length)
    else Result.bail s!"unsupported SOCKS address type {kind}"
  Result.ensure (addressLen + 2 ≤ input.length) "missing SOCKS port"
  let port := UInt16.ofNat (ofBe ((input.drop addressLen).take 2))
  return (← Address.new host port, addressLen + 2)

-- What `recv` makes of the bytes of a datagram.
def decodePacket (bytes : Bytes) : Result Packet := do
  Result.ensure (4 ≤ bytes.length) "truncated SOCKS UDP datagram"
  Result.ensure (bytes.take 2 == [0, 0]) "invalid SOCKS UDP reserved bytes"
  Result.ensure (bytes.getD 2 0 == 0) "fragmented SOCKS UDP is not supported"
  let (destination, consumed) ← decodeAddress (bytes.drop 3)
  return { data := bytes.drop (3 + consumed), destination }

example : decodePacket ([0, 0, 0, 3, 5] ++ "a.com".toUTF8.data.toList ++ [0, 53, 7, 7]) =
    .ok { data := [7, 7], destination := ⟨"a.com", 53⟩ } := by decide

end Socks

structure SocksPacketConnection where
  controlSourceIp : IpAddr
  peer : Option SocketAddr := none
deriving DecidableEq

-- `send`, up to the datagram that is handed to `send_to` and where it goes.
def SocksPacketConnection.send (this : SocksPacketConnection) (packet : Packet) :
    Result (Bytes × SocketAddr) := do
  let peer ← Result.ofOption "SOCKS UDP client address is not known" this.peer
  let (encoded, output) := (Socks.encodeAddress packet.destination).run [0, 0, 0]
  encoded
  return (output ++ packet.data, peer)

-- A pass of the loop in `recv`. There is no result where it goes on to the next datagram.
def SocksPacketConnection.receive (this : SocksPacketConnection) (datagram : Socks.Datagram) :
    Option (Result Packet) × SocksPacketConnection :=
  if datagram.source.ip ≠ this.controlSourceIp then (none, this)
  else if this.peer.any (· ≠ datagram.source) then (none, this)
  else
    match Socks.decodePacket datagram.bytes with
    | .error chain => (some (.error chain), this)
    | .ok packet => (some (.ok packet), { this with peer := some datagram.source })

-- `DirectPacketConnection::send`, with what its resolver and its sockets do. There may be
-- no socket for IPv6.
def directSend (resolved : Result (List SocketAddr)) (hasIpv6 : Bool)
    (sendTo : SocketAddr → Result Unit) (destination : Address) : Result Unit := do
  attempt none (← resolved)
where
  attempt (lastError : Option (List String)) : List SocketAddr → Result Unit
    | [] =>
        match lastError with
        | some chain => .error chain
        | none => Result.bail s!"destination did not resolve: {text}"
    | address :: rest =>
        if address.ip.bits = 128 ∧ hasIpv6 = false then attempt lastError rest
        else
          match sendTo address with
          | .ok () => .ok ()
          | .error chain => attempt (some chain) rest
  -- the `Display` of an address
  text : String :=
    if destination.host.toList.contains ':' then s!"[{destination.host}]:{destination.port}"
    else s!"{destination.host}:{destination.port}"

-- `relay_packet` between a SOCKS client and an outbound.
structure SocksRelay where
  connection : SocksPacketConnection
  relay : PacketRelay := {}
deriving DecidableEq

namespace SocksRelay

-- A datagram arrives, and `delivered` is what the outbound's `send` says to its packet if it
-- comes to that. Or a packet has come from the outbound and has been sent to the client.
inductive Event where
  | datagram (datagram : Socks.Datagram) (delivered : Result Unit)
  | reply (packet : Packet)

def step (this : SocksRelay) : Event → SocksRelay
  | .datagram datagram delivered =>
      if this.relay.ended.isSome then this
      else
        match this.connection.receive datagram with
        | (none, connection) => { this with connection }
        | (some received, connection) =>
            { connection, relay := this.relay.step (.upload received delivered) }
  | .reply packet => { this with relay := this.relay.step (.download (.ok packet) (.ok ())) }

def run (events : List Event) (this : SocksRelay) : SocksRelay := events.foldl step this

end SocksRelay

end SingBox.Core
