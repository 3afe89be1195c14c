import SingBox.AnyTls.Padding
import SingBox.Library.Run

namespace SingBox.AnyTls

open Library
open Utf8 (encode)

-- Where a caller of `acquire_session` and `open_stream` is. `trying` has found the session
-- not closed inside `try_reserve`, and does not get it if it ends as `busy`. The error of a
-- `refused` call is "AnyTLS session is closed", that of a `panicked` one the `expect`. A
-- `failed` call has returned an error, and `registered` tells what it left in the map.
inductive OpenStage where
  | trying
  | busy
  | reserved
  | refused
  | checked
  | numbered (id : UInt32)
  | inserted (id : UInt32)
  | panicked (id : UInt32)
  | sending (id : UInt32)
  | connecting (id : UInt32)
  | opened (id : UInt32)
  | failed (id : UInt32) (registered : Bool)
deriving DecidableEq, Repr

-- What has come through the one-shot channel of a stream.
inductive SynAck where
  | waiting
  | accepted
  | rejected (message : Bytes)
deriving DecidableEq, Repr

structure OpenCall where
  stage : OpenStage
  synack : SynAck
deriving DecidableEq, Repr

-- An entry of the `streams` map: `synack` tells whether the sender is still there, `caller`
-- which call is at the other end.
structure ClientStream where
  id : UInt32
  caller : Nat
  synack : Bool
deriving DecidableEq, Repr

-- The task that sends what the local end writes. `leaving` has sent its CMD_FIN.
inductive PumpStage where
  | reading
  | leaving
  | ended
deriving DecidableEq, Repr

structure ClientPump where
  id : UInt32
  stage : PumpStage
deriving DecidableEq, Repr

-- Whoever calls `close` and then `clear_streams`: the reader's task, the idle reaper or
-- `AnyTlsOutbound::close`. `storing` has drained the map.
inductive Teardown where
  | closing
  | draining
  | storing
  | done
deriving DecidableEq, Repr

-- How a loop over received frames has ended: it was cancelled, `read_frame` failed, a scheme
-- could not be parsed, or a frame was not one for the loop.
inductive LoopEnd where
  | cancelled
  | transport
  | scheme (chain : List String)
  | bail (message : String)
deriving DecidableEq, Repr

-- `fresh` holds until `acquire_session` has pushed its new session to the list, `listed`
-- while the session is there. `announced` tells whether `connect_stream` is done. `tx` is
-- the channel to the writer's task, closed when that is at its end, and `padding` what is
-- under the outbound's lock.
structure ClientSession where
  fresh : Bool
  listed : Bool
  announced : Bool
  streams : List ClientStream
  nextStreamId : UInt32
  active : UInt64
  closed : Bool
  supportsV2 : Bool
  padding : PaddingScheme
  calls : List OpenCall
  pumps : List ClientPump
  teardowns : List Teardown
  reader : Option LoopEnd
  tx : List Frame
  txClosed : Bool

-- The data of the CMD_SETTINGS frame.
def settingsData (padding : PaddingScheme) : Bytes :=
  encode ("v=2\nclient=sing-box-rs\npadding-md5=" ++ padding.md5Hex ++ "\n")

def settingsFrame (padding : PaddingScheme) : Frame :=
  { command := CMD_SETTINGS, streamId := 0, data := settingsData padding }

namespace ClientSession

def new (padding : PaddingScheme) : ClientSession :=
  { fresh := true, listed := false, announced := false, streams := [], nextStreamId := 1,
    active := 0, closed := false, supportsV2 := false, padding, calls := [], pumps := [],
    teardowns := [], reader := none, tx := [], txClosed := false }

def isRegistered (session : ClientSession) (id : UInt32) : Bool :=
  session.streams.any (·.id = id)

def stage (session : ClientSession) (call : Nat) : Option OpenStage :=
  session.calls[call]?.map OpenCall.stage

def setStage (session : ClientSession) (call : Nat) (stage : OpenStage) : ClientSession :=
  { session with calls := session.calls.modify call fun call => { call with stage } }

-- Nothing comes of a frame for a channel that is closed.
def send (session : ClientSession) (frame : Frame) : ClientSession :=
  if session.txClosed then session else { session with tx := session.tx ++ [frame] }

-- The map's lock is held until the counter has been decremented.
def removeStream (session : ClientSession) (id : UInt32) : ClientSession :=
  if session.isRegistered id then
    { session with
      streams := session.streams.filter (·.id ≠ id)
      active := session.active - 1 }
  else session

-- `HashMap::insert`
def insertStream (session : ClientSession) (id : UInt32) (caller : Nat) : ClientSession :=
  { session with
    streams := session.streams.filter (·.id ≠ id) ++ [{ id, caller, synack := true }] }

-- CMD_SYNACK
def acknowledge (session : ClientSession) (frame : Frame) : ClientSession :=
  match session.streams.find? (·.id = frame.streamId) with
  | some stream =>
      if stream.synack then
        let synack := if frame.data.isEmpty then .accepted else .rejected frame.data
        { session with
          streams := session.streams.map fun other =>
            if other.id = frame.streamId then { other with synack := false } else other
          calls := session.calls.modify stream.caller fun call => { call with synack } }
      else session
  | none => session

-- Behind the loop of `client_reader` its task goes on to close the session.
def endReader (session : ClientSession) (reason : LoopEnd) : ClientSession :=
  { session with reader := some reason, teardowns := session.teardowns ++ [.closing] }

-- The standard library's own message about the bytes is left out.
def parseUpdate (data : Bytes) : Result PaddingScheme := do
  let source ← Result.ofOption "invalid utf-8" (Utf8.decode data)
  PaddingScheme.parse source

-- A turn of `client_reader`. The payload of a CMD_PSH goes to the channel of its stream.
def receive (session : ClientSession) (frame : Frame) : ClientSession :=
  if frame.command = CMD_PSH then session
  else if frame.command = CMD_SYNACK then session.acknowledge frame
  else if frame.command = CMD_FIN then session.removeStream frame.streamId
  else if frame.command = CMD_HEARTBEAT_REQUEST then
    session.send ⟨CMD_HEARTBEAT_RESPONSE, 0, frame.data⟩
  else if frame.command = CMD_SETTINGS ∨ frame.command = CMD_WASTE ∨
      frame.command = CMD_HEARTBEAT_RESPONSE then session
  else if frame.command = CMD_UPDATE_PADDING then
    match parseUpdate frame.data with
    | .ok padding => { session with padding }
    | .error chain => session.endReader (.scheme chain)
  else if frame.command = CMD_SERVER_SETTINGS then { session with supportsV2 := true }
  else if frame.command = CMD_ALERT then session.endReader (.bail "AnyTLS server sent an alert")
  else session.endReader (.bail s!"unsupported AnyTLS command {frame.command}")

inductive Action where
  | announce
  -- `acquire_session`
  | acquire
  | reserve (call : Nat)
  | push
  | forget
  -- `open_stream`
  | check (call : Nat)
  | number (call : Nat)
  | insert (call : Nat)
  | lookup (call : Nat)
  | sendSyn (call : Nat)
  | succeed (call : Nat)
  | fail (call : Nat)
  -- the other tasks
  | receive (frame : Frame)
  | cancelReader
  | breakReader
  | retire
  | close
  | teardown (index : Nat)
  | pumpSend (pump : Nat) (data : Bytes)
  | pumpFinish (pump : Nat)
  | pumpRemove (pump : Nat)
  -- the writer's task takes a frame, or is at its end
  | written
  | closeTx
  -- another session of the outbound has received a scheme
  | repadded (padding : PaddingScheme)

-- While a call is trying, it holds the lock of the list, or the session is not in it yet.
def isTrying (session : ClientSession) : Bool := session.calls.any (·.stage = .trying)

-- What the counter is compared with, and what is found under the id.
def reserve (session : ClientSession) (call : Nat) : ClientSession :=
  if session.active = 0 then { session.setStage call .reserved with active := 1 }
  else session.setStage call .busy

def lookup (session : ClientSession) (call : Nat) (id : UInt32) : ClientSession :=
  if session.isRegistered id then
    { session.setStage call (.sending id) with
      pumps := session.pumps ++ [{ id, stage := .reading }] }
  else session.setStage call (.panicked id)

-- `remove_stream`, and the error is returned.
def fail (session : ClientSession) (call : Nat) (id : UInt32) : ClientSession :=
  let session := session.removeStream id
  session.setStage call (.failed id (session.isRegistered id))

def runTeardown (session : ClientSession) (index : Nat) : Teardown → Option ClientSession
  | .closing => some { session with
      closed := true, teardowns := session.teardowns.set index .draining }
  | .draining => some { session with
      streams := [], teardowns := session.teardowns.set index .storing }
  | .storing => some { session with
      active := 0, teardowns := session.teardowns.set index .done }
  | .done => none

def setPump (session : ClientSession) (index : Nat) (pump : ClientPump) : ClientSession :=
  { session with pumps := session.pumps.set index pump }

def step (session : ClientSession) : Action → Option ClientSession
  | .announce =>
      if session.announced ∨ session.txClosed then none
      else some { session.send (settingsFrame session.padding) with announced := true }
  | .acquire =>
      if session.announced ∧ session.closed = false ∧ session.isTrying = false ∧
          (session.listed ∨ (session.fresh ∧ session.calls = [])) then
        some { session with
          calls := session.calls ++ [{ stage := .trying, synack := .waiting }] }
      else none
  | .reserve call =>
      match session.stage call with
      | some .trying => some (session.reserve call)
      | _ => none
  | .push =>
      if session.fresh ∧ session.stage 0 = some .reserved then
        some { session with fresh := false, listed := true }
      else none
  | .forget =>
      if session.listed ∧ session.closed ∧ session.isTrying = false then
        some { session with listed := false }
      else none
  | .check call =>
      match session.stage call with
      | some .reserved =>
          if session.fresh then none
          else some (session.setStage call (if session.closed then .refused else .checked))
      | _ => none
  | .number call =>
      match session.stage call with
      | some .checked => some { session.setStage call (.numbered session.nextStreamId) with
          nextStreamId := session.nextStreamId + 1 }
      | _ => none
  | .insert call =>
      match session.stage call with
      | some (.numbered id) => some ((session.insertStream id call).setStage call (.inserted id))
      | _ => none
  | .lookup call =>
      match session.stage call with
      | some (.inserted id) => some (session.lookup call id)
      | _ => none
  | .sendSyn call =>
      match session.stage call with
      | some (.sending id) =>
          if session.txClosed then none
          else some ((session.send ⟨CMD_SYN, id, []⟩).setStage call (.connecting id))
      | _ => none
  -- without the second version of the protocol there is no answer to wait for
  | .succeed call =>
      match session.calls[call]? with
      | some ⟨.connecting id, synack⟩ =>
          if session.supportsV2 = false ∨ synack = .accepted then
            some (session.setStage call (.opened id))
          else none
      | _ => none
  | .fail call =>
      match session.stage call with
      | some (.sending id) => if session.txClosed then some (session.fail call id) else none
      | some (.connecting id) => some (session.fail call id)
      | _ => none
  | .receive frame => if session.reader.isNone then some (session.receive frame) else none
  | .cancelReader =>
      if session.reader.isNone then some (session.endReader .cancelled) else none
  | .breakReader =>
      if session.reader.isNone then some (session.endReader .transport) else none
  | .retire =>
      if session.listed ∧ session.closed = false ∧ session.active = 0 ∧
          session.isTrying = false then
        some { session with listed := false, teardowns := session.teardowns ++ [.closing] }
      else none
  | .close =>
      if session.listed ∧ session.isTrying = false then
        some { session with listed := false, teardowns := session.teardowns ++ [.closing] }
      else none
  | .teardown index => session.teardowns[index]?.bind (session.runTeardown index)
  | .pumpSend index data =>
      match session.pumps[index]? with
      | some ⟨id, .reading⟩ =>
          if data ≠ [] ∧ data.length ≤ MAX_FRAME_SIZE then
            some (session.send ⟨CMD_PSH, id, data⟩)
          else none
      | _ => none
  | .pumpFinish index =>
      match session.pumps[index]? with
      | some ⟨id, .reading⟩ => some ((session.send ⟨CMD_FIN, id, []⟩).setPump index ⟨id, .leaving⟩)
      | _ => none
  | .pumpRemove index =>
      match session.pumps[index]? with
      | some ⟨id, .leaving⟩ => some ((session.removeStream id).setPump index ⟨id, .ended⟩)
      | _ => none
  | .written =>
      match session.txClosed, session.tx with
      | false, _ :: rest => some { session with tx := rest }
      | _, _ => none
  | .closeTx => some { session with txClosed := true }
  | .repadded padding => some { session with padding }

end ClientSession

end SingBox.AnyTls
