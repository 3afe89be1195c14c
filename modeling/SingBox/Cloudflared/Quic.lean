import SingBox.Cloudflared.Datagram
import SingBox.Library.Run
import Mathlib.Logic.Function.Basic

namespace SingBox.Cloudflared

open Library SingBox.Core

-- The capacity of a flow's queue, and of the queue of what the flows send.
def QUEUE_CAPACITY : Nat := 256

-- A call that comes back or unwinds.
inductive Outcome (α : Type) where
  | returns (value : α)
  | panics
deriving DecidableEq

-- Whether the calling thread is driving asynchronous tasks.
inductive Thread where
  | drivesTasks
  | blocking
deriving DecidableEq

-- What other crates decide: whether a QUIC connection takes a datagram, and whether
-- `blocking_lock` and `spawn_local` come back on a thread.
structure Environment where
  sendDatagram : Bytes → Result Unit
  blockingLock : Thread → Outcome Unit
  spawnLocal : Thread → Outcome Unit

-- What a `DatagramSession` shares with the `QuicPacketConnection` it was made with,
-- and the task that has the handler serve that connection. The receiver of the queue
-- goes with the task.
structure Flow where
  requestId : RequestId
  destination : Address
  incoming : List Bytes
  lastActivity : Nat
  running : Bool
deriving DecidableEq

-- `flow` stands for the sender of the queue and the time of the last activity.
structure DatagramSession where
  flow : Nat
  idleTimeout : Nat
deriving DecidableEq

-- `run_local` between two events, or inside the `send` that ends the handling of a
-- datagram.
inductive Loop where
  | ready
  | sending (requestId : RequestId) (flow : Nat) (payload : Bytes)
  | returned (result : Result Unit)

-- The state of `run_local` with the tasks of its `LocalSet`. `sessions` is its own map
-- or that of the `V2State`, as the version has it; with any other version than these
-- two it handles no datagrams. `handler` tells whether a `DatagramHandler` is installed.
structure QuicConnection where
  version : DatagramVersion
  handler : Bool
  now : Nat
  sessions : RequestId → Option DatagramSession
  flows : List Flow
  loop : Loop
  outbound : List (RequestId × Bytes)
  sent : List Datagram

-- The parameters of the two calls of the session manager. Reading any of them from the
-- message can fail.
structure RegisterUdpSession where
  sessionId : Result Bytes
  dstIp : Result Bytes
  dstPort : UInt16
  closeAfterIdleHint : Int

inductive RpcCall where
  | register (params : Result RegisterUdpSession)
  | unregister (sessionId : Result Bytes)

namespace QuicConnection

def new (version : DatagramVersion) (handler : Bool) : QuicConnection :=
  { version, handler, now := 0, sessions := fun _ => none, flows := [], loop := .ready,
    outbound := [], sent := [] }

def modifyFlow (this : QuicConnection) (flow : Nat) (change : Flow → Flow) : QuicConnection :=
  { this with flows := this.flows.modify flow change }

def markActivity (this : QuicConnection) (flow : Nat) : QuicConnection :=
  this.modifyFlow flow fun flow => { flow with lastActivity := this.now }

-- A new queue, its packet connection, the handler's task and the entry of the map.
def openFlow (this : QuicConnection) (requestId : RequestId) (destination : Address)
    (idleTimeout : Nat) : QuicConnection :=
  { this with
    flows := this.flows ++
      [{ requestId, destination, incoming := [], lastActivity := this.now, running := true }]
    sessions := Function.update this.sessions requestId
      (some { flow := this.flows.length, idleTimeout }) }

-- The entry of a registration, made where it is vacant.
def entry (this : QuicConnection) (registration : Registration) : QuicConnection :=
  if (this.sessions registration.requestId).isNone then
    this.openFlow registration.requestId registration.destination registration.idleTimeout
  else this

-- The payload of a datagram goes to its session, if there is one.
def forward (this : QuicConnection) (requestId : RequestId) (payload : Bytes) : QuicConnection :=
  match this.sessions requestId with
  | some session =>
      { this.markActivity session.flow with loop := .sending requestId session.flow payload }
  | none => this

def isExpired (this : QuicConnection) (session : DatagramSession) : Bool :=
  match this.flows[session.flow]? with
  | some flow => session.idleTimeout ≤ this.now - flow.lastActivity
  | none => true

-- `cleanup_sessions`, and `V2State::cleanup`.
def cleanupSessions (this : QuicConnection) : QuicConnection :=
  { this with
    sessions := fun requestId =>
      (this.sessions requestId).filter fun session => !this.isExpired session }

section

variable (env : Environment)

def send (this : QuicConnection) (context : String) (datagram : Datagram) : Result QuicConnection := do
  (env.sendDatagram (datagram.encode this.version)).withContext context
  return { this with sent := this.sent ++ [datagram] }

def sendRegistrationResponse (this : QuicConnection) (requestId : RequestId) (response : UInt8) :
    Result QuicConnection :=
  this.send env "send Cloudflare UDP registration response" (.registrationResponse requestId response)

def handleRegistration (this : QuicConnection) (registration : Registration) :
    Result QuicConnection := do
  if this.handler = false then
    this.sendRegistrationResponse env registration.requestId 2
  else
    let answered ←
      (this.entry registration).sendRegistrationResponse env registration.requestId 0
    if registration.payload = [] then return answered
    else return answered.forward registration.requestId registration.payload

-- `handle_datagram`, up to the `send` into a flow's queue.
def handleDatagram (this : QuicConnection) (data : Bytes) : Result QuicConnection :=
  match data with
  | [] => .ok this
  | kind :: body =>
      if kind = DATAGRAM_V3_REGISTRATION then
        parseRegistration body >>= this.handleRegistration env
      else if kind = DATAGRAM_V3_PAYLOAD then
        if data.length < 1 + DATAGRAM_V3_REQUEST_ID_LENGTH ∨
            1 + DATAGRAM_V3_REQUEST_ID_LENGTH + DATAGRAM_V3_MAX_PAYLOAD < data.length then .ok this
        else
          .ok (this.forward (RequestId.fromSlice (body.take DATAGRAM_V3_REQUEST_ID_LENGTH))
            (body.drop DATAGRAM_V3_REQUEST_ID_LENGTH))
      else .ok this

end

-- `handle_v2_datagram` with `V2State::deliver`, up to the `send` into a flow's queue.
def handleV2Datagram (this : QuicConnection) (data : Bytes) : Result QuicConnection := do
  Result.ensure (data != []) "Cloudflare v2 datagram is empty"
  if DATAGRAM_V3_MAX_PAYLOAD + DATAGRAM_V3_REQUEST_ID_LENGTH + 1 < data.length then return this
  else if data.getLast? ≠ some 0 ∨ data.length < 17 then return this
  else
    let idStart := data.length - 17
    return this.forward (RequestId.fromSlice ((data.drop idStart).take 16)) (data.take idStart)

section

variable (env : Environment)

-- `V2State::register`.
def register (thread : Thread) (this : QuicConnection) (requestId : RequestId)
    (destination : Address) (idleTimeout : Nat) : Outcome (Result Unit) × QuicConnection :=
  match env.blockingLock thread with
  | .panics => (.panics, this)
  | .returns () =>
      if (this.sessions requestId).isSome then (.returns (.ok ()), this)
      else if this.handler = false then
        (.returns (Result.bail "cloudflared UDP handler is not installed"), this)
      else
        match env.spawnLocal thread with
        | .panics => (.panics, this)
        | .returns () => (.returns (.ok ()), this.openFlow requestId destination idleTimeout)

-- `V2State::unregister_sync`.
def unregisterSync (thread : Thread) (this : QuicConnection) (requestId : RequestId) :
    Outcome Unit × QuicConnection :=
  match env.blockingLock thread with
  | .panics => (.panics, this)
  | .returns () =>
      (.returns (), { this with sessions := Function.update this.sessions requestId none })

-- `register_udp_session`: the text of the error it answers with, or its own failure.
-- There is a `V2State` with version 2 only.
def registerUdpSession (thread : Thread) (this : QuicConnection)
    (params : Result RegisterUdpSession) : Outcome (Result String) × QuicConnection :=
  match this.version, params with
  | .v2, .ok params =>
      match params.sessionId with
      | .error _ => (.returns (Result.bail "invalid UDP session ID"), this)
      | .ok id =>
          if id.length ≠ 16 then (.returns (Result.bail "invalid UDP session ID"), this)
          else
            match params.dstIp with
            | .error _ => (.returns (Result.bail "invalid UDP destination IP"), this)
            | .ok ip =>
                if ip.length = 4 then
                  registerAt params (RequestId.fromSlice id)
                    (IpAddr.ipv4Text (BitVec.ofNat 32 (ofBe ip)))
                else if ip.length = 16 then
                  registerAt params (RequestId.fromSlice id)
                    (IpAddr.ipv6Text (BitVec.ofNat 128 (ofBe ip)))
                else (.returns (Result.bail "invalid UDP destination IP"), this)
  | .v3, _ => (.returns (.ok "datagram v2 state is not installed"), this)
  | .v2, .error chain => (.returns (.error chain), this)
where
  registerAt (params : RegisterUdpSession) (requestId : RequestId) (ip : List Char) :
      Outcome (Result String) × QuicConnection :=
    match Address.new (String.ofList ip) params.dstPort with
    | .error _ => (.panics, this)
    | .ok destination =>
        let idleTimeout :=
          if 0 < params.closeAfterIdleHint then params.closeAfterIdleHint.toNat
          else DEFAULT_DATAGRAM_IDLE
        match this.register env thread requestId destination idleTimeout with
        | (.panics, next) => (.panics, next)
        | (.returns (.ok ()), next) => (.returns (.ok ""), next)
        | (.returns (.error chain), next) => (.returns (.ok (chain.headD "")), next)

def unregisterUdpSession (thread : Thread) (this : QuicConnection) (sessionId : Result Bytes) :
    Outcome (Result String) × QuicConnection :=
  match this.version, sessionId with
  | .v2, .ok id =>
      if id.length = 16 then
        match this.unregisterSync env thread (RequestId.fromSlice id) with
        | (.panics, next) => (.panics, next)
        | (.returns (), next) => (.returns (.ok ""), next)
      else (.returns (.ok ""), this)
  | _, _ => (.returns (.ok ""), this)

def rpc (thread : Thread) (this : QuicConnection) :
    RpcCall → Outcome (Result String) × QuicConnection
  | .register params => this.registerUdpSession env thread params
  | .unregister sessionId => this.unregisterUdpSession env thread sessionId

end

-- What run_local selects on, the rest of a datagram's handling, the tasks of the flows
-- and the calls a data stream can carry.
inductive Action where
  | datagram (data : Bytes)
  | deliver
  | cleanup
  | outbound
  | lost (error : List String)
  | shutdown
  | elapse (time : Nat)
  | recv (flow : Nat)
  | markSend (flow : Nat)
  | send (flow : Nat) (data : Bytes)
  | finish (flow : Nat)
  | rpc (call : RpcCall)

def ended (this : QuicConnection) : Bool :=
  match this.loop with
  | .returned _ => true
  | _ => false

def isReady (this : QuicConnection) : Bool :=
  match this.loop with
  | .ready => true
  | _ => false

-- `?` in the loop of `run_local`.
def proceed (this : QuicConnection) : Result QuicConnection → QuicConnection
  | .ok next => next
  | .error chain => { this with loop := .returned (.error chain) }

-- The two branches of the loop that read datagrams.
def handle (env : Environment) (this : QuicConnection) (data : Bytes) : Result QuicConnection :=
  match this.version with
  | .v3 => this.handleDatagram env data
  | .v2 => this.handleV2Datagram data

-- The end of the handling of a datagram: the queue takes the payload, or its receiver
-- is gone; with the queue full it waits.
def deliver (this : QuicConnection) (index : Nat) (payload : Bytes) : Option QuicConnection :=
  match this.flows[index]? with
  | some flow =>
      if flow.running = false then some { this with loop := .ready }
      else if flow.incoming.length < QUEUE_CAPACITY then
        some { this.modifyFlow index fun flow =>
            { flow with incoming := flow.incoming ++ [payload] } with loop := .ready }
      else none
  | none => none

-- `outbound_rx.recv`.
def sendOutbound (env : Environment) (this : QuicConnection) : Option QuicConnection :=
  match this.outbound with
  | [] => none
  | (requestId, payload) :: rest =>
      let taken := { this with outbound := rest }
      if DATAGRAM_V3_MAX_PAYLOAD < payload.length then some taken
      else
        let context :=
          match this.version with
          | .v3 => "send Cloudflare QUIC datagram"
          | .v2 => "send Cloudflare QUIC v2 datagram"
        some (taken.proceed (taken.send env context (.payload requestId payload)))

def step (env : Environment) (this : QuicConnection) (action : Action) : Option QuicConnection :=
  if this.ended then none
  else
    match action with
    | .datagram data =>
        if this.isReady then some (this.proceed (this.handle env data)) else none
    | .deliver =>
        match this.loop with
        | .sending _ flow payload => this.deliver flow payload
        | _ => none
    | .cleanup => if this.isReady then some this.cleanupSessions else none
    | .outbound => if this.isReady then this.sendOutbound env else none
    | .lost error =>
        if this.isReady then some { this with loop := .returned (.error error) } else none
    | .shutdown => if this.isReady then some { this with loop := .returned (.ok ()) } else none
    | .elapse time => some { this with now := this.now + time }
    | .recv index =>
        this.flows[index]?.bind fun flow =>
          match flow.running, flow.incoming with
          | true, _ :: rest =>
              some ((this.modifyFlow index fun flow => { flow with incoming := rest }).markActivity
                index)
          | _, _ => none
    | .markSend index =>
        this.flows[index]?.bind fun flow =>
          if flow.running then some (this.markActivity index) else none
    | .send index data =>
        this.flows[index]?.bind fun flow =>
          if flow.running ∧ this.outbound.length < QUEUE_CAPACITY then
            some { this with outbound := this.outbound ++ [(flow.requestId, data)] }
          else none
    | .finish index =>
        this.flows[index]?.bind fun flow =>
          if flow.running then
            some (this.modifyFlow index fun flow => { flow with incoming := [], running := false })
          else none
    -- the calls are served by a task of the `LocalSet`; one that panics is dropped alone
    | .rpc call => some (this.rpc env .drivesTasks call).2

end QuicConnection

end SingBox.Cloudflared
