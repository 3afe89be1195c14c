import SingBox.Core.Socks
import SingBox.Library.Run
import SingBox.Library.Slots

namespace SingBox.Core

open Library

def MAX_RETAINED_BUFFERS : Nat := 256

-- A `Vec<u8>`.
structure Buffer where
  capacity : Nat
  bytes : Bytes

namespace Buffer

def clear (this : Buffer) : Buffer := { this with bytes := [] }

def truncate (this : Buffer) (length : Nat) : Buffer := { this with bytes := this.bytes.take length }

-- The buffer is allocated again where it has not the capacity.
def resize (this : Buffer) (length : Nat) (value : UInt8) : Buffer where
  capacity := max this.capacity length
  bytes := this.bytes.take length ++ List.replicate (length - this.bytes.length) value

def overwrite (this : Buffer) (front : Bytes) : Buffer :=
  { this with bytes := front ++ this.bytes.drop front.length }

-- `copy_within(start..stop, 0)`
def copyWithin (this : Buffer) (start stop : Nat) : Buffer :=
  this.overwrite ((this.bytes.drop start).take (stop - start))

-- `UdpSocket::recv_from`: what there is no room for is lost.
def recvFrom (this : Buffer) (datagram : Bytes) : Nat × Buffer :=
  let length := min datagram.length this.bytes.length
  (length, this.overwrite (datagram.take length))

end Buffer

-- The last buffer comes first.
structure PacketBufferPool where
  buffers : List Buffer := []

namespace PacketBufferPool

def acquire (this : PacketBufferPool) : Buffer × PacketBufferPool :=
  match this.buffers with
  | [] =>
      let buffer : Buffer := ⟨UDP_BUFFER_SIZE, List.replicate UDP_BUFFER_SIZE 0⟩
      (buffer.resize UDP_BUFFER_SIZE 0, this)
  | buffer :: buffers => (buffer.resize UDP_BUFFER_SIZE 0, { buffers })

def recycle (this : PacketBufferPool) (buffer : Buffer) : PacketBufferPool :=
  if buffer.capacity < UDP_BUFFER_SIZE then this
  else if this.buffers.length < MAX_RETAINED_BUFFERS then { buffers := buffer.clear :: this.buffers }
  else this

-- Leases that are dropped, the last one first.
def release (this : PacketBufferPool) (leases : List Buffer) : PacketBufferPool :=
  leases.foldr (fun buffer pool => pool.recycle buffer) this

end PacketBufferPool

-- A `Packet` with its own vector, and whether there is a pool for it to go back to.
structure PooledPacket where
  data : Buffer
  destination : Address
  recyclePool : Bool

namespace PooledPacket

-- All that anyone can tell of a packet.
def plain (this : PooledPacket) : Packet := { data := this.data.bytes, destination := this.destination }

def fromPool (data : Buffer) (length : Nat) (destination : Address) : PooledPacket where
  data := data.truncate length
  destination := destination
  recyclePool := true

-- What is left of a packet when its data have been taken.
def takeData (this : PooledPacket) : PooledPacket := { this with data := ⟨0, []⟩, recyclePool := false }

def clone (this : PooledPacket) : PooledPacket where
  data := ⟨this.data.bytes.length, this.data.bytes⟩
  destination := this.destination
  recyclePool := false

def drop (this : PooledPacket) (pool : PacketBufferPool) : PacketBufferPool :=
  if this.recyclePool then pool.recycle this.data else pool

end PooledPacket

-- A datagram has come into the buffer of a `recv`, which goes on with the buffer or is done
-- with it.
inductive RecvPass where
  | again (buffer : Buffer)
  | failed (buffer : Buffer) (chain : List String)
  | received (packet : PooledPacket)

-- The `Display` of the address that an IPv4-mapped one stands for.
def directHost (ip : IpAddr) : String :=
  let text : IpAddr → List Char
    | .v4 ip => IpAddr.ipv4Text ip
    | .v6 ip => IpAddr.ipv6Text ip
  match ip with
  | .v6 ip => String.ofList (text (((IpAddr.toIpv4Mapped ip).map .v4).getD (.v6 ip)))
  | ip => String.ofList (text ip)

-- `DirectPacketConnection::recv` once a socket has received.
def directPass (buffer : Buffer) (datagram : Socks.Datagram) : RecvPass :=
  let (length, buffer) := buffer.recvFrom datagram.bytes
  match Address.new (directHost datagram.source.ip) datagram.source.port with
  | .error chain => .failed buffer chain
  | .ok destination => .received (.fromPool buffer length destination)

-- The address in the buffer, and where the data start.
def SocksPacketConnection.parse (slice : Bytes) (length : Nat) : Result (Address × Nat) := do
  Result.ensure (4 ≤ length) "truncated SOCKS UDP datagram"
  Result.ensure (slice.take 2 == [0, 0]) "invalid SOCKS UDP reserved bytes"
  Result.ensure (slice.getD 2 0 == 0) "fragmented SOCKS UDP is not supported"
  let (destination, consumed) ← Socks.decodeAddress ((slice.take length).drop 3)
  return (destination, 3 + consumed)

-- A pass of the loop in `SocksPacketConnection::recv`, in the buffer that it has used for the
-- passes before.
def SocksPacketConnection.pass (this : SocksPacketConnection) (buffer : Buffer)
    (datagram : Socks.Datagram) : RecvPass × SocksPacketConnection :=
  let (length, buffer) := buffer.recvFrom datagram.bytes
  if datagram.source.ip ≠ this.controlSourceIp then (.again buffer, this)
  else if this.peer.any (· ≠ datagram.source) then (.again buffer, this)
  else
    match parse buffer.bytes length with
    | .error chain => (.failed buffer chain, this)
    | .ok (destination, payloadStart) =>
        let payloadLength := length - payloadStart
        (.received (.fromPool (buffer.copyWithin payloadStart length) payloadLength destination),
          { this with peer := some datagram.source })

-- Who has called `recv`: a direct connection, with a socket for IPv6 or without one, or the
-- SOCKS association with this number.
inductive Receiver where
  | direct (hasIpv6 : Bool)
  | socks (connection : Nat)
deriving DecidableEq

def Receiver.sockets : Receiver → Nat
  | .direct true => 2
  | .direct false | .socks _ => 1

-- A call of `recv` that has not returned, with its leases in the order they were acquired.
structure Receiving where
  receiver : Receiver
  leases : List Buffer

-- What is done with packets and buffers. `receive` is a socket of a call that receives, and
-- `abort` a call whose socket fails or that is dropped. `data` is a public field, and
-- `assign` puts another vector there.
inductive PacketAction where
  | associate (controlSourceIp : IpAddr)
  | recv (receiver : Receiver)
  | receive (call socket : Nat) (datagram : Socks.Datagram)
  | abort (call : Nat)
  | take (packet : Nat)
  | clone (packet : Nat)
  | assign (packet : Nat) (data : Buffer)
  | drop (packet : Nat)

-- The packets of a process and the calls that wait for some, over one pool. `returned` says
-- which call has come to which packet.
structure PacketBuffers where
  pool : PacketBufferPool := {}
  connections : List SocksPacketConnection := []
  calls : List (Option Receiving) := []
  packets : List (Option PooledPacket) := []
  returned : List (Nat × Result Nat) := []

namespace PacketBuffers

def acquire : Nat → PacketBufferPool → List Buffer × PacketBufferPool
  | 0, pool => ([], pool)
  | count + 1, pool =>
      let (buffer, pool) := pool.acquire
      let (buffers, pool) := acquire count pool
      (buffer :: buffers, pool)

def begin (this : PacketBuffers) (receiver : Receiver) : PacketBuffers :=
  let (leases, pool) := acquire receiver.sockets this.pool
  { this with pool, calls := this.calls ++ [some { receiver, leases }] }

-- The buffers of the sockets that have not received are dropped first.
def settle (this : PacketBuffers) (index socket : Nat) (call : Receiving) : RecvPass → PacketBuffers
  | .again buffer =>
      let leases := call.leases.set socket buffer
      { this with calls := this.calls.set index (some { call with leases }) }
  | .failed buffer chain =>
      { this with
        pool := (this.pool.release (call.leases.eraseIdx socket)).recycle buffer
        calls := this.calls.set index none
        returned := this.returned ++ [(index, .error chain)] }
  | .received packet =>
      { this with
        pool := this.pool.release (call.leases.eraseIdx socket)
        calls := this.calls.set index none
        packets := this.packets ++ [some packet]
        returned := this.returned ++ [(index, .ok this.packets.length)] }

def receive (this : PacketBuffers) (index socket : Nat) (datagram : Socks.Datagram)
    (call : Receiving) : Option PacketBuffers := do
  let buffer ← call.leases[socket]?
  match call.receiver with
  | .direct _ => return this.settle index socket call (directPass buffer datagram)
  | .socks number =>
      let connection ← this.connections[number]?
      let (pass, connection) := connection.pass buffer datagram
      let this := { this with connections := this.connections.set number connection }
      return this.settle index socket call pass

def step (this : PacketBuffers) : PacketAction → Option PacketBuffers
  | .associate controlSourceIp =>
      some { this with connections := this.connections ++ [{ controlSourceIp }] }
  | .recv receiver => some (this.begin receiver)
  | .receive index socket datagram =>
      match this.calls[index]? with
      | some (some call) => this.receive index socket datagram call
      | _ => none
  | .abort index =>
      match this.calls[index]? with
      | some (some call) =>
          some { this with
            pool := this.pool.release call.leases
            calls := this.calls.set index none }
      | _ => none
  | .take index =>
      match this.packets[index]? with
      | some (some packet) => some { this with packets := this.packets.set index (some packet.takeData) }
      | _ => none
  | .clone index =>
      match this.packets[index]? with
      | some (some packet) => some { this with packets := this.packets ++ [some packet.clone] }
      | _ => none
  | .assign index data =>
      match this.packets[index]? with
      | some (some packet) =>
          some { this with packets := this.packets.set index (some { packet with data }) }
      | _ => none
  | .drop index =>
      match this.packets[index]? with
      | some (some packet) =>
          some { this with pool := packet.drop this.pool, packets := this.packets.set index none }
      | _ => none

end PacketBuffers

end SingBox.Core
