import SingBox.AnyTls.Frame
import SingBox.Library.Run

namespace SingBox.AnyTls

open Library

def DUPLEX_CAPACITY : Nat := 1024 * 1024

-- The capacity both sides give the channel of a stream.
def INCOMING_CAPACITY : Nat := 32

-- `ClientSession` with `client_reader`, or `handle_inbound_connection`.
inductive Side where
  | client
  | server
deriving DecidableEq, Repr

-- The task that writes what a stream receives into its duplex. `writing` is
-- inside `write_all`, with what is left of the chunk. `finished` has shut the
-- duplex down, `cancelled` has been dropped by the `select!`.
inductive WriterTask where
  | receiving
  | writing (rest : Bytes)
  | finished
  | cancelled
deriving DecidableEq, Repr

-- The task that reads the other direction of the duplex. Behind its loop it
-- takes the stream out of the map and then drops its half of the duplex.
inductive PumpTask where
  | reading
  | leaving
  | departing
  | ended
deriving DecidableEq, Repr

-- Whoever holds the local end of the duplex. `ended` has read the end of the stream.
inductive Consumer where
  | reading
  | ended
  | dropped
deriving DecidableEq, Repr

-- Why a stream is no longer in the map: a FIN was received, a task of this side
-- took it out, the session ended, or `insert` found its id in the map.
inductive Removal where
  | fin
  | here
  | session
  | replaced
deriving DecidableEq, Repr

-- `ClientStream` or `ServerStream` with the tasks that were spawned for it. It is
-- in the `streams` map under `id` while `removed` is `none`. `received` is not in
-- the source: the payloads of the CMD_PSH frames received for it.
structure Stream where
  id : UInt32
  removed : Option Removal
  cancelled : Bool
  incoming : List Bytes
  writer : WriterTask
  downlink : Bytes
  delivered : Bytes
  consumer : Consumer
  uplinkClosed : Bool
  pump : PumpTask
  received : Bytes
deriving DecidableEq, Repr

namespace Stream

def new (id : UInt32) : Stream :=
  { id, removed := none, cancelled := false, incoming := [], writer := .receiving, downlink := [],
    delivered := [], consumer := .reading, uplinkClosed := false, pump := .reading, received := [] }

-- The consumer reads an end once the writer has shut the duplex down, or once
-- both halves of the other end have been dropped.
def downlinkClosed (stream : Stream) : Bool :=
  stream.writer = .finished || (stream.writer = .cancelled && stream.pump = .ended)

-- The steps the tasks of one stream take on their own.
inductive Step where
  | take
  | write (count : Nat)
  | fail
  | finish
  | cancelled
  | read (count : Nat)
  | readEnd
  | shutdown
  | drop
  | leave
  | depart
deriving DecidableEq, Repr

-- `outgoingClosed` tells whether frames of this side can no longer be sent.
def step (outgoingClosed : Bool) (stream : Stream) : Step → Option Stream
  | .take =>
      match stream.writer, stream.incoming with
      | .receiving, data :: rest => some { stream with writer := .writing data, incoming := rest }
      | _, _ => none
  | .write count =>
      match stream.writer with
      | .writing rest =>
          if (stream.consumer ≠ .dropped ∨ rest = []) ∧ count ≤ rest.length ∧
              stream.downlink.length + count ≤ DUPLEX_CAPACITY ∧ (0 < count ∨ rest = []) then
            some { stream with
              downlink := stream.downlink ++ rest.take count
              writer := if rest.drop count = [] then .receiving else .writing (rest.drop count) }
          else none
      | _ => none
  -- `write_all` fails when the other end of the duplex is gone
  | .fail =>
      match stream.writer with
      | .writing rest =>
          if stream.consumer = .dropped ∧ rest ≠ [] then
            some { stream with writer := .finished }
          else none
      | _ => none
  -- `recv` yields `None` when the queue is empty and its sender has been dropped
  | .finish =>
      if stream.writer = .receiving ∧ stream.incoming = [] ∧ stream.removed ≠ none then
        some { stream with writer := .finished }
      else none
  | .cancelled =>
      match stream.writer with
      | .receiving | .writing _ =>
          if stream.cancelled then some { stream with writer := .cancelled } else none
      | _ => none
  | .read count =>
      if stream.consumer = .reading ∧ 0 < count ∧ count ≤ stream.downlink.length then
        some { stream with
          delivered := stream.delivered ++ stream.downlink.take count
          downlink := stream.downlink.drop count }
      else none
  | .readEnd =>
      if stream.consumer = .reading ∧ stream.downlink = [] ∧ stream.downlinkClosed then
        some { stream with consumer := .ended }
      else none
  | .shutdown =>
      if stream.consumer ≠ .dropped then some { stream with uplinkClosed := true } else none
  | .drop =>
      if stream.consumer ≠ .dropped then
        some { stream with consumer := .dropped, uplinkClosed := true }
      else none
  | .leave =>
      if stream.pump = .reading ∧ (stream.cancelled || stream.uplinkClosed || outgoingClosed) then
        some { stream with pump := .leaving }
      else none
  | .depart => if stream.pump = .departing then some { stream with pump := .ended } else none

end Stream

-- The task that handles received frames. While it waits for room in the channel
-- of a stream it holds the lock of the map: the guard in the scrutinee of the
-- `if let` lives to the end of its body.
inductive ReaderTask where
  | idle
  | delivering (stream : Nat) (data : Bytes)
  | ended
deriving DecidableEq, Repr

-- The frames this side sends are left out, but for whether they can be sent.
structure Session where
  side : Side
  settingsReceived : Bool
  nextStreamId : UInt32
  streams : List Stream
  reader : ReaderTask
  outgoingClosed : Bool
deriving DecidableEq, Repr

namespace Session

def new (side : Side) : Session :=
  { side, settingsReceived := false, nextStreamId := 1, streams := [], reader := .idle,
    outgoingClosed := false }

-- `streams.get(&id)`.
def lookup (session : Session) (id : UInt32) : Option Nat :=
  session.streams.findIdx? fun stream => stream.id = id && stream.removed.isNone

-- `streams.remove(&id)` and, where it was there, `cancel` on its token.
def remove (session : Session) (id : UInt32) (removal : Removal) : Session :=
  match session.lookup id with
  | some index => { session with
      streams := session.streams.modify index fun stream =>
        { stream with removed := some removal, cancelled := true } }
  | none => session

-- `streams.insert(id, ..)`: an entry under the same id is dropped.
def register (session : Session) (id : UInt32) : Session :=
  let streams :=
    match session.lookup id with
    | some index => session.streams.modify index fun stream =>
        { stream with removed := some .replaced }
    | none => session.streams
  { session with streams := streams ++ [Stream.new id] }

-- The end of the frame loop. On a server it cancels the tokens of all streams, on
-- a client the streams are cleared by a step of its own.
def finish (session : Session) : Session :=
  match session.side with
  | .client => { session with reader := .ended }
  | .server => { session with
      reader := .ended
      streams := session.streams.map fun stream => { stream with cancelled := true } }

-- `clear_streams`.
def clearStreams (session : Session) : Session :=
  { session with
    streams := session.streams.map fun stream =>
      if stream.removed.isNone then { stream with removed := some .session, cancelled := true }
      else stream }

-- CMD_PSH: the payload goes to the channel of its stream, if there is one.
def receivePush (session : Session) (frame : Frame) : Session :=
  match session.lookup frame.streamId with
  | some index => { session with
      reader := .delivering index frame.data
      streams := session.streams.modify index fun stream =>
        { stream with received := stream.received ++ frame.data } }
  | none => session

-- `client_reader`. `acceptsPadding` tells whether a scheme can be parsed.
def receiveClient (acceptsPadding : Bytes → Bool) (session : Session) (frame : Frame) : Session :=
  if frame.command = CMD_PSH then session.receivePush frame
  else if frame.command = CMD_SYNACK then session
  else if frame.command = CMD_FIN then session.remove frame.streamId .fin
  else if frame.command = CMD_HEARTBEAT_REQUEST then session
  else if frame.command = CMD_SETTINGS ∨ frame.command = CMD_WASTE ∨
      frame.command = CMD_HEARTBEAT_RESPONSE then session
  else if frame.command = CMD_UPDATE_PADDING then
    if acceptsPadding frame.data then session else session.finish
  else if frame.command = CMD_SERVER_SETTINGS then session
  else session.finish

-- The loop of `handle_inbound_connection`.
def receiveServer (session : Session) (frame : Frame) : Session :=
  if frame.command = CMD_SETTINGS then { session with settingsReceived := true }
  else if frame.command = CMD_SYN then
    if session.settingsReceived = true ∧ frame.streamId ≠ 0 ∧
        session.lookup frame.streamId = none then
      session.register frame.streamId
    else session.finish
  else if frame.command = CMD_PSH then session.receivePush frame
  else if frame.command = CMD_FIN then session.remove frame.streamId .fin
  else if frame.command = CMD_HEARTBEAT_REQUEST then session
  else if frame.command = CMD_WASTE ∨ frame.command = CMD_UPDATE_PADDING ∨
      frame.command = CMD_SERVER_SETTINGS then session
  else session.finish

def receive (acceptsPadding : Bytes → Bool) (session : Session) (frame : Frame) : Session :=
  match session.side with
  | .client => session.receiveClient acceptsPadding frame
  | .server => session.receiveServer frame

-- `send` on the channel of a stream: it fails where the receiving task is gone.
def enqueue (session : Session) (index : Nat) (data : Bytes) (stream : Stream) : Option Session :=
  if stream.writer = .finished ∨ stream.writer = .cancelled then
    some { session with reader := .idle }
  else if stream.incoming.length < INCOMING_CAPACITY then
    some { session with
      reader := .idle
      streams := session.streams.modify index fun stream =>
        { stream with incoming := stream.incoming ++ [data] } }
  else none

inductive Action where
  | receive (frame : Frame)
  | enqueue
  -- the transport ends or the session is cancelled
  | close
  | clear
  | closeOutgoing
  | openStream
  | task (stream : Nat) (step : Stream.Step)
  -- the pump behind its loop
  | pumpRemove (stream : Nat)
  -- `open_stream` gives up, or the task of a server's stream is done
  | abandon (stream : Nat)
deriving DecidableEq, Repr

def isLocked (session : Session) : Bool :=
  match session.reader with
  | .delivering _ _ => true
  | _ => false

def step (acceptsPadding : Bytes → Bool) (session : Session) : Action → Option Session
  | .receive frame =>
      if session.reader = .idle then some (session.receive acceptsPadding frame) else none
  | .enqueue =>
      match session.reader with
      | .delivering index data => session.streams[index]?.bind (session.enqueue index data)
      | _ => none
  -- the client's reader looks at its token between frames only
  | .close =>
      if session.reader = .idle ∨ (session.side = .server ∧ session.reader ≠ .ended) then
        some session.finish
      else none
  -- behind the reader's loop, or for `AnyTlsOutbound::close` and its idle sessions
  | .clear =>
      if session.side = .client ∧ session.isLocked = false then some session.clearStreams else none
  | .closeOutgoing => some { session with outgoingClosed := true }
  -- whether the session is closed is looked at before the lock is waited for
  | .openStream =>
      if session.side = .client ∧ session.isLocked = false then
        some { session.register session.nextStreamId with
          nextStreamId := session.nextStreamId + 1 }
      else none
  | .task index action =>
      session.streams[index]?.bind fun stream =>
        (stream.step session.outgoingClosed action).map fun next =>
          { session with streams := session.streams.set index next }
  | .pumpRemove index =>
      session.streams[index]?.bind fun stream =>
        if stream.pump = .leaving ∧ session.isLocked = false then
          let session := { session with
            streams := session.streams.set index { stream with pump := .departing } }
          some (session.remove stream.id .here)
        else none
  | .abandon index =>
      session.streams[index]?.bind fun stream =>
        if session.isLocked = false ∧ (session.side = .client ∨ stream.consumer = .dropped) then
          some (session.remove stream.id .here)
        else none

end Session

end SingBox.AnyTls
