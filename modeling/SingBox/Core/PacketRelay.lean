import SingBox.Core.Router
import SingBox.Library.Reader

namespace SingBox.Core

open Library

structure Packet where
  data : Bytes
  destination : Address
deriving DecidableEq

-- What the two loops of `relay_packet` have handed over, and the error that has ended both.
structure PacketRelay where
  handed : List Packet := []
  returned : List Packet := []
  ended : Option (List String) := none
deriving DecidableEq

namespace PacketRelay

-- A pass of the upload loop or of the download loop: what `recv` gives, and what the other
-- side's `send` does where it is called.
inductive Event where
  | upload (received : Result Packet) (sent : Result Unit)
  | download (received : Result Packet) (sent : Result Unit)

-- The error of a result, if it has one.
def errorOf {α : Type} : Result α → Option (List String)
  | .ok _ => none
  | .error chain => some chain

def step (this : PacketRelay) (event : Event) : PacketRelay :=
  if this.ended.isSome then this
  else
    match event with
    | .upload (.ok packet) sent =>
        { this with handed := this.handed ++ [packet], ended := errorOf sent }
    | .download (.ok packet) sent =>
        { this with returned := this.returned ++ [packet], ended := errorOf sent }
    | .upload (.error chain) _ | .download (.error chain) _ => { this with ended := some chain }

def run (events : List Event) (this : PacketRelay) : PacketRelay := events.foldl step this

end PacketRelay

section

-- `Connection` is what an outbound's `connect_packet` makes.
variable {Connection : Type}

structure Outbound (Connection : Type) where
  connectPacket : Session → Result Connection

-- `Router::connect_packet`, with the session as it leaves it.
def Router.connectPacket (this : Router) (outbounds : String → Option (Outbound Connection))
    (session : Session) : Result Connection × Session :=
  let (tag, session) : Result String × Session :=
    match session.outbound with
    | some tag => (.ok tag, session)
    | none => this.select session
  match tag with
  | .error chain => (.error chain, session)
  | .ok tag =>
      match outbounds tag with
      | none => (Result.bail s!"route outbound not found: {tag}", session)
      | some outbound =>
          let session := { session with outbound := some tag }
          (outbound.connectPacket session, session)

def UOT_MAGIC : String := "sp.v2.udp-over-tcp.arpa"

-- A UDP association, as an inbound is asked for it: the address in the SOCKS request, the
-- name of the user of an AnyTLS stream, the user and the address that Hysteria2 reports.
inductive Association where
  | socks (source : SocketAddr) (tag : String) (destination : Address)
  | anyTls (source : SocketAddr) (tag user : String)
  | hysteria2 (source : SocketAddr) (tag user host : String) (port : UInt16)

namespace Association

-- The session that `handle_udp_associate`, `handle_server_udp_stream` and the loop of the
-- Hysteria2 inbound make of it.
def session : Association → Result Session
  | .socks source tag destination => .ok (Session.ofInbound .udp source destination tag none)
  | .anyTls source tag user => do
      return Session.ofInbound .udp source (← Address.new UOT_MAGIC 0) tag (some user)
  | .hysteria2 source tag user host port => do
      return Session.ofInbound .udp source (← Address.new host port) tag (some user)

-- The connection to the outbound, and the session that `relay_packet` is given with it.
def opens (this : Association) (router : Router)
    (outbounds : String → Option (Outbound Connection)) : Result (Connection × Session) := do
  let session ← this.session
  let (connection, session) := router.connectPacket outbounds session
  return (← connection, session)

end Association

end

end SingBox.Core
