import SingBox.Cloudflared.Registration
import SingBox.Library.Run

namespace SingBox.Cloudflared

open Library SingBox.Core

structure ConnectionOptions where
  features : List String :=
    ["serialized_headers", "support_datagram_v2", "support_quic_eof", "allow_remote_config"]
  numPreviousAttempts : UInt8 := 0
deriving DecidableEq

structure Credentials where
  accountTag : String
  tunnelSecret : Bytes
  tunnelId : Bytes
  endpoint : String
deriving DecidableEq

structure EdgeAddr where
  address : SocketAddr
  ipVersion : UInt8
deriving DecidableEq

structure CloudflaredInboundOptions where
  token : String
  protocol : String := "http2"
  edgeIpVersion : UInt8 := 0
  region : String := ""
  haConnections : Nat := 4
  postQuantum : Bool := false
  datagramVersion : String := "v2"
  gracePeriod : String := "30s"
deriving DecidableEq

-- `str::strip_suffix`
def stripSuffix (suffix value : String) : Option (List Char) :=
  if suffix.toList.isSuffixOf value.toList then
    some (value.toList.take (value.length - suffix.length))
  else none

def ofMillis (millis : Nat) : Nat := millis * 1000000

def parseGracePeriod (value : String) : Result Nat := do
  let (number, multiplier) ←
    match stripSuffix "ms" value, stripSuffix "s" value, stripSuffix "m" value,
        stripSuffix "h" value with
    | some value, _, _, _ => .ok (value, 1)
    | none, some value, _, _ => .ok (value, 1000)
    | none, none, some value, _ => .ok (value, 60000)
    | none, none, none, some value => .ok (value, 3600000)
    | none, none, none, none => Result.bail "cloudflared grace_period must use ms, s, m, or h"
  let number ← Result.withContext "parse cloudflared grace_period" (parseUnsigned (2 ^ 64) number)
  -- `saturating_mul`
  return ofMillis (min (number * multiplier) (2 ^ 64 - 1))

example : parseGracePeriod "1500ms" = .ok (ofMillis 1500) := by decide

-- What `supervise_connection` is called with, but for the handlers.
structure Connection where
  configuredProtocol : String
  datagramVersion : String
  postQuantum : Bool
  gracePeriod : Nat
  credentials : Credentials
  baseRegistration : ConnectionOptions
  edges : List EdgeAddr
  connectionIndex : UInt8
deriving DecidableEq

-- Reading a token, and looking the edges up.
structure Startup where
  parseToken : String → Result Credentials
  discoverEdges : Credentials → String → UInt8 → Result (List EdgeAddr)

-- `start` at the stage `Start` of an inbound that does not run: the connections it
-- begins to supervise.
def CloudflaredInboundOptions.start (env : Startup) (this : CloudflaredInboundOptions) :
    Result (List Connection) := do
  Result.ensure (["http2", "h2", "auto", "quic"].contains this.protocol)
    "cloudflared protocol must be http2, h2, auto, or quic"
  Result.ensure (["", "v2", "v3"].contains this.datagramVersion)
    "cloudflared datagram_version must be v2 or v3"
  Result.ensure (!(this.postQuantum && ["http2", "h2"].contains this.protocol))
    "cloudflared post_quantum requires quic or auto protocol"
  let credentials ← Result.withContext "parse cloudflared token" (env.parseToken this.token)
  let gracePeriod ← parseGracePeriod this.gracePeriod
  Result.ensure (this.region == "" || credentials.endpoint == "")
    "cloudflared region cannot be used with a token endpoint"
  let edges ← env.discoverEdges credentials this.region this.edgeIpVersion
  let registration : ConnectionOptions := {}
  let registration :=
    if this.datagramVersion = "v3" then
      { registration with features := registration.features ++ ["support_datagram_v3_2"] }
    else registration
  return (List.range (max this.haConnections 1)).map fun connectionIndex =>
    { configuredProtocol := this.protocol
      datagramVersion := this.datagramVersion
      postQuantum := this.postQuantum
      gracePeriod
      credentials
      baseRegistration := registration
      edges
      connectionIndex := UInt8.ofNat connectionIndex }

inductive Transport where
  | http2
  | quic
deriving DecidableEq, Repr

-- The variables of `supervise_connection`.
structure Supervisor where
  edgeIndex : Nat
  protocol : Transport
  retries : UInt8
deriving DecidableEq, Repr

-- What an attempt is made with. Indexing beyond the edges panics.
structure AttemptOptions where
  transport : Transport
  edge : Option EdgeAddr
  registration : ConnectionOptions
  postQuantum : Bool
  datagrams : Bool
deriving DecidableEq

-- How one pass through the loop goes: what the attempt comes to and how long it lasts,
-- and whether the inbound is closed before it ends or while the supervisor waits.
structure Round where
  result : Except Error RegistrationResult
  elapsed : Nat
  cancelled : Bool := false
  cancelledWaiting : Bool := false
deriving DecidableEq

inductive Decision where
  | stop
  | wait (backoff : Nat) (next : Supervisor)
deriving DecidableEq, Repr

-- `u8::saturating_add(1)`
def saturatingSucc (value : UInt8) : UInt8 := if value = 255 then 255 else value + 1

namespace Supervisor

def new (connection : Connection) : Supervisor :=
  { edgeIndex := connection.connectionIndex.toNat % connection.edges.length
    protocol := if ["http2", "h2"].contains connection.configuredProtocol then .http2 else .quic
    retries := 0 }

def attempt (connection : Connection) (this : Supervisor) : AttemptOptions :=
  { transport := this.protocol
    edge := connection.edges[this.edgeIndex]?
    registration := { connection.baseRegistration with numPreviousAttempts := this.retries }
    postQuantum := this.protocol = .quic && connection.postQuantum
    datagrams := this.protocol = .quic && ["v2", "v3"].contains connection.datagramVersion }

-- The error an ended attempt is handled as.
def errorOf : Except Error RegistrationResult → Error
  | .ok result =>
      Error.msg s!"edge connection {uuidText result.connectionId} at {result.location} closed"
  | .error error => error

-- The variables behind an attempt that lasted `elapsed`.
def advance (connection : Connection) (this : Supervisor) (elapsed : Nat) : Supervisor :=
  let retries := saturatingSucc (if ofSeconds 30 ≤ elapsed then 0 else this.retries)
  let edgeIndex := (this.edgeIndex + 1) % connection.edges.length
  if connection.configuredProtocol = "auto" ∧ connection.postQuantum = false ∧
      this.protocol = .quic ∧ 3 ≤ retries then
    { edgeIndex, protocol := .http2, retries := 0 }
  else { edgeIndex, protocol := this.protocol, retries }

-- `Duration::from_secs(1u64 << retries.min(7))`
def backoff (this : Supervisor) : Nat := ofSeconds (1 <<< (min this.retries 7).toNat)

-- The delay the edge has asked for, if it is one.
def serverDelay (error : Error) : Option Nat :=
  (error.downcastRetryable.map RetryableRegistrationError.delay).filter (· ≠ 0)

def decide (connection : Connection) (this : Supervisor) (round : Round) : Decision :=
  if round.cancelled then .stop
  else
    let error := errorOf round.result
    if error.downcastPermanent.isSome then .stop
    else
      let next := this.advance connection round.elapsed
      .wait ((serverDelay error).getD next.backoff) next

-- From one attempt to the next.
def step (connection : Connection) (this : Supervisor) (round : Round) : Option Supervisor :=
  match this.decide connection round with
  | .stop => none
  | .wait _ next => if round.cancelledWaiting then none else some next

theorem decide_eq_wait {connection : Connection} {this next : Supervisor} {round : Round}
    {wait : Nat} (h : this.decide connection round = .wait wait next) :
    next = this.advance connection round.elapsed ∧
      wait = (serverDelay (errorOf round.result)).getD next.backoff := by
  unfold decide at h
  split at h
  · cases h
  · dsimp only at h
    split at h
    · cases h
    · obtain ⟨rfl, rfl⟩ := Decision.wait.inj h
      exact ⟨rfl, rfl⟩

theorem step_eq_some {connection : Connection} {this next : Supervisor} {round : Round}
    (h : this.step connection round = some next) :
    next = this.advance connection round.elapsed := by
  unfold step at h
  split at h
  · cases h
  · rename_i hdecide
    split at h
    · cases h
    · obtain rfl := Option.some.inj h
      exact (decide_eq_wait hdecide).1

end Supervisor

end SingBox.Cloudflared
