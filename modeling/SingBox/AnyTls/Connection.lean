import SingBox.AnyTls.Padding.Theorems
import SingBox.AnyTls.Server

namespace SingBox.AnyTls

open Library

-- One direction of a connection: what the task that writes frames counts, and what it has
-- written and the peer has not read.
structure Link where
  packetIndex : Nat
  bytes : Bytes

namespace Link

def new : Link := { packetIndex := 1, bytes := [] }

-- The writer's next frame, with the scheme it finds and the draws of the generator. An error
-- is the end of the writer.
def write (link : Link) (write : PaddedWrite) : Option Link :=
  match writePaddedFrame write.frame write.scheme write.random link.packetIndex with
  | .ok (records, packetIndex) => some { packetIndex, bytes := link.bytes ++ records.flatten }
  | .error _ => none

-- `read_frame` waits until the frame is there.
def read (link : Link) : Option (Frame × Link) :=
  (readFrame link.bytes).map fun (frame, bytes) => (frame, { link with bytes })

-- The frames on their way.
def frames (link : Link) : List Frame := (Reader.many readFrame link.bytes).1

-- What is on its way are whole frames.
def Whole (link : Link) : Prop :=
  link.bytes = wire link.frames ∧
    ∀ frame ∈ link.frames, frame.data.length ≤ MAX_FRAME_SIZE

theorem frames_of_bytes (link : Link) {frames : List Frame} (h : link.bytes = wire frames)
    (hlen : ∀ frame ∈ frames, frame.data.length ≤ MAX_FRAME_SIZE) :
    link.Whole ∧ link.frames = frames := by
  have hframes : link.frames = frames := by rw [Link.frames, h, readFrames_wire frames hlen]
  rw [Whole, hframes]
  exact ⟨⟨h, hlen⟩, rfl⟩

theorem new_whole : new.Whole ∧ new.frames = [] := frames_of_bytes new rfl (by simp)

-- A frame is written with waste behind it.
theorem Whole.write {link : Link} (hw : link.Whole) (write : PaddedWrite)
    (hlen : write.frame.data.length ≤ MAX_FRAME_SIZE) :
    ∃ next wastes, link.write write = some next ∧ next.Whole ∧ Waste wastes ∧
      next.frames = link.frames ++ write.frame :: wastes := by
  obtain ⟨records, wastes, hwaste, hwrite, hflat⟩ :=
    writePaddedFrame_spec write.frame write.scheme write.random link.packetIndex hlen
  have hbytes : link.bytes ++ records.flatten = wire (link.frames ++ write.frame :: wastes) := by
    rw [hflat, wire_append, ← hw.1]
  have hfits : ∀ frame ∈ link.frames ++ write.frame :: wastes,
      frame.data.length ≤ MAX_FRAME_SIZE := by
    intro frame hframe
    obtain hold | hnew := List.mem_append.mp hframe
    · exact hw.2 frame hold
    · obtain rfl | hnew := List.mem_cons.mp hnew
      · exact hlen
      · exact hwaste.data_length frame hnew
  obtain ⟨hwhole, hframes⟩ := frames_of_bytes
    { packetIndex := (link.packetIndex + 1) % 2 ^ 64, bytes := link.bytes ++ records.flatten }
    hbytes hfits
  exact ⟨_, wastes, by rw [Link.write, hwrite], hwhole, hwaste, hframes⟩

theorem write_large {link : Link} {write : PaddedWrite}
    (hlen : MAX_FRAME_SIZE < write.frame.data.length) : link.write write = none := by
  have hwrite : writePaddedFrame write.frame write.scheme write.random link.packetIndex =
      .error ⟨.invalidInput, "AnyTLS frame is too large"⟩ := by
    rw [writePaddedFrame, encodeFrame_error [] write.frame hlen]
    rfl
  rw [Link.write, hwrite]

theorem Whole.read {link next : Link} {frame : Frame} (hw : link.Whole)
    (h : link.read = some (frame, next)) : next.Whole ∧ link.frames = frame :: next.frames := by
  obtain ⟨⟨other, bytes⟩, hread, heq⟩ := Option.map_eq_some_iff.mp h
  obtain ⟨rfl, rfl⟩ := Prod.mk.inj heq
  rw [hw.1] at hread
  cases hframes : link.frames with
  | nil =>
      rw [hframes, wire_nil, readFrame_nil] at hread
      cases hread
  | cons first rest =>
      have hlen := hw.2
      rw [hframes] at hread hlen
      obtain ⟨hfirst, hrest⟩ := List.forall_mem_cons.mp hlen
      rw [wire_cons, readFrame_wire first hfirst] at hread
      obtain ⟨rfl, rfl⟩ := Prod.mk.inj (Option.some.inj hread)
      obtain ⟨hwhole, hnext⟩ := frames_of_bytes { link with bytes := wire rest } rfl hrest
      exact ⟨hwhole, by rw [hnext]⟩

end Link

-- A session of a client, the server's connection for it, and what lies between them.
structure Connection where
  client : ClientSession
  server : ServerConnection
  uplink : Link
  downlink : Link

namespace Connection

def new (clientPadding serverPadding : PaddingScheme) : Connection :=
  { client := .new clientPadding, server := .new serverPadding, uplink := .new, downlink := .new }

-- `client` and `server` are the steps that neither send nor receive bytes.
inductive Action where
  | client (action : ClientSession.Action)
  | server (action : ServerConnection.Action)
  | clientWrites (random : Nat → Option UInt64)
  | serverWrites (random : Nat → Option UInt64)
  | clientReceives
  | serverReceives

-- The writer's scheme is the one it finds under the lock.
def step (connection : Connection) : Action → Option Connection
  | .client (.receive _) | .client .written => none
  | .client action =>
      (connection.client.step action).map fun client => { connection with client }
  | .server (.receive _) | .server .written => none
  | .server action =>
      (connection.server.step action).map fun server => { connection with server }
  | .clientWrites random =>
      connection.client.tx.head?.bind fun frame =>
        (connection.client.step .written).map fun client =>
          match connection.uplink.write ⟨frame, connection.client.padding, random⟩ with
          | some uplink => { connection with client, uplink }
          | none => { connection with client := { client with txClosed := true } }
  | .serverWrites random =>
      connection.server.tx.head?.bind fun frame =>
        (connection.server.step .written).map fun server =>
          match connection.downlink.write ⟨frame, connection.server.padding, random⟩ with
          | some downlink => { connection with server, downlink }
          | none => { connection with server := { server with txClosed := true } }
  | .clientReceives =>
      connection.downlink.read.bind fun (frame, downlink) =>
        (connection.client.step (.receive frame)).map fun client =>
          { connection with client, downlink }
  | .serverReceives =>
      connection.uplink.read.bind fun (frame, uplink) =>
        (connection.server.step (.receive frame)).map fun server =>
          { connection with server, uplink }

-- What the client has sent and the server has not handled, and the other way.
def upward (connection : Connection) : List Frame :=
  connection.uplink.frames ++ connection.client.tx

def downward (connection : Connection) : List Frame :=
  connection.downlink.frames ++ connection.server.tx

end Connection

-- The sessions of an outbound, which share one padding scheme under a lock, and the scheme
-- of the inbound they connect to.
structure AnyTlsOutbound where
  padding : PaddingScheme
  server : PaddingScheme
  connections : List Connection

namespace AnyTlsOutbound

def new (padding server : PaddingScheme) : AnyTlsOutbound :=
  { padding, server, connections := [] }

inductive Action where
  | connect
  | session (index : Nat) (action : Connection.Action)

-- The session with what is under the lock.
def shared (outbound : AnyTlsOutbound) (connection : Connection) : Connection :=
  { connection with client := { connection.client with padding := outbound.padding } }

def step (outbound : AnyTlsOutbound) : Action → Option AnyTlsOutbound
  | .connect => some { outbound with
      connections := outbound.connections ++ [Connection.new outbound.padding outbound.server] }
  -- only a session's own frames change the scheme
  | .session _ (.client (.repadded _)) => none
  | .session index action =>
      outbound.connections[index]?.bind fun connection =>
        ((outbound.shared connection).step action).map fun next =>
          { outbound with
            padding := next.client.padding
            connections := outbound.connections.set index next }

end AnyTlsOutbound

-- The client has received the server's CMD_SERVER_SETTINGS, which is the first part of its
-- answer, and the second part, if there is one, is not on its way any more.
def Connection.Exchanged (connection : Connection) : Prop :=
  connection.client.supportsV2 = true ∧
    ∀ frame ∈ connection.downward, frame.command ≠ CMD_UPDATE_PADDING

end SingBox.AnyTls
