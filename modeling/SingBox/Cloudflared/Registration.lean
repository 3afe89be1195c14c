import SingBox.Cloudflared.Datagram

namespace SingBox.Cloudflared

open Library

structure RetryableRegistrationError where
  cause : String
  delay : Nat
deriving DecidableEq

structure PermanentRegistrationError where
  cause : String
deriving DecidableEq

-- What an `anyhow::Error` has been made from.
inductive Cause where
  | retryable (error : RetryableRegistrationError)
  | permanent (error : PermanentRegistrationError)
  | message (text : String)
deriving DecidableEq

-- An `anyhow::Error` with the contexts it has been given, the outermost first.
structure Error where
  contexts : List String := []
  cause : Cause
deriving DecidableEq

namespace Error

def msg (text : String) : Error := { cause := .message text }

def context (text : String) (this : Error) : Error :=
  { this with contexts := text :: this.contexts }

-- `downcast_ref` looks below the contexts.
def downcastRetryable (this : Error) : Option RetryableRegistrationError :=
  match this.cause with
  | .retryable error => some error
  | _ => none

def downcastPermanent (this : Error) : Option PermanentRegistrationError :=
  match this.cause with
  | .permanent error => some error
  | _ => none

@[simp] theorem downcastRetryable_context (text : String) (this : Error) :
    (this.context text).downcastRetryable = this.downcastRetryable := rfl

@[simp] theorem downcastPermanent_context (text : String) (this : Error) :
    (this.context text).downcastPermanent = this.downcastPermanent := rfl

end Error

-- The `Display` of a `Uuid`.
def uuidText (uuid : Bytes) : String :=
  let hex (bytes : Bytes) : List Char := bytes.flatMap fun byte =>
    [Nat.digitChar (byte.toNat / 16), Nat.digitChar (byte.toNat % 16)]
  String.ofList (hex (uuid.take 4) ++ '-' :: hex ((uuid.drop 4).take 2) ++
    '-' :: hex ((uuid.drop 6).take 2) ++ '-' :: hex ((uuid.drop 8).take 2) ++
    '-' :: hex (uuid.drop 10))

structure RegistrationResult where
  connectionId : Bytes
  location : String
  tunnelIsRemotelyManaged : Bool
deriving DecidableEq

-- A `connection_response` that can be read. `retryAfter` is in nanoseconds.
inductive ConnectionResponse where
  | error (cause : String) (shouldRetry : Bool) (retryAfter : Int)
  | connectionDetails (uuid : Bytes) (locationName : String) (tunnelIsRemotelyManaged : Bool)
deriving DecidableEq

def readRegistrationResult : ConnectionResponse → Except Error RegistrationResult
  | .error cause shouldRetry retryAfter =>
      if shouldRetry then
        .error { cause := .retryable { cause, delay := (max retryAfter 0).toNat } }
      else .error { cause := .permanent { cause } }
  | .connectionDetails uuid locationName tunnelIsRemotelyManaged =>
      if uuid.length = 16 then
        .ok { connectionId := uuid, location := locationName, tunnelIsRemotelyManaged }
      else .error ((Error.msg "invalid length: expected 16 bytes").context
        "parse Cloudflare connection UUID")

-- The registration call of either transport, up to the result it goes on with. What the
-- transports themselves fail with is no registration error and is told by its text.
def registered (context : String) (response : Except String ConnectionResponse) :
    Except Error RegistrationResult := do
  let response ← response.mapError fun text => (Error.msg text).context context
  let result ← readRegistrationResult response
  if result.tunnelIsRemotelyManaged then return result
  else .error (Error.msg "Cloudflared only supports remotely managed tunnels")

-- How `run_local` of a QUIC connection goes: there is no control stream, or the
-- registration is answered and, where it holds, the event loop ends, with an error or
-- at the shutdown.
inductive QuicAttempt where
  | unconnected (text : String)
  | answered (response : Except String ConnectionResponse) (ending : Except String Unit)
deriving DecidableEq

namespace QuicAttempt

def runLocal : QuicAttempt → Except Error RegistrationResult
  | .unconnected text => .error (Error.msg text)
  | .answered response ending => do
      let result ← registered "Cloudflare QUIC registration RPC" response
      ending.mapError Error.msg
      return result

def runWithShutdown (this : QuicAttempt) : Except Error RegistrationResult :=
  this.runLocal.mapError (Error.context "run Cloudflare QUIC connection")

end QuicAttempt

-- What the tasks of an HTTP/2 connection meet: the answer to the registration of a
-- control stream, or any other request.
inductive Http2Event where
  | controlStream (response : Except String ConnectionResponse)
  | request
deriving DecidableEq

inductive Http2Ending where
  | acceptFailed (text : String)
  | closed
  | shutdown
deriving DecidableEq

inductive Http2Attempt where
  | unconnected (text : String)
  | served (events : List Http2Event) (ending : Http2Ending)
deriving DecidableEq

namespace Http2Attempt

-- `handle_control_stream`, up to the end of its registration.
def handleControlStream (response : Except String ConnectionResponse)
    (shared : Option RegistrationResult) : Except Error Unit × Option RegistrationResult :=
  match registered "Cloudflare registration RPC" response with
  | .ok result => (.ok (), some result)
  | .error error => (.error error, shared)

-- The task of a request. What it fails with is logged and goes no further.
def serve (shared : Option RegistrationResult) : Http2Event → Option RegistrationResult
  | .controlStream response => (handleControlStream response shared).2
  | .request => shared

def finish (shared : Option RegistrationResult) : Http2Ending → Except Error RegistrationResult
  | .acceptFailed text => .error ((Error.msg text).context "accept Cloudflare HTTP/2 stream")
  | .closed | .shutdown =>
      match shared with
      | some result => .ok result
      | none => .error (Error.msg "Cloudflare edge closed before registration")

def runLocal : Http2Attempt → Except Error RegistrationResult
  | .unconnected text => .error (Error.msg text)
  | .served events ending => finish (events.foldl serve none) ending

def runWithShutdown (this : Http2Attempt) : Except Error RegistrationResult :=
  this.runLocal.mapError (Error.context "run Cloudflare HTTP/2 connection")

end Http2Attempt

-- `CloudflaredTransport`, with what becomes of its connection.
inductive Attempt where
  | http2 (attempt : Http2Attempt)
  | quic (attempt : QuicAttempt)
deriving DecidableEq

namespace Attempt

def runWithShutdown : Attempt → Except Error RegistrationResult
  | .http2 attempt => attempt.runWithShutdown
  | .quic attempt => attempt.runWithShutdown

-- The answers the edge gives to the registrations of an attempt.
def responses : Attempt → List ConnectionResponse
  | .http2 (.served events _) => events.filterMap fun
      | .controlStream (.ok response) => some response
      | _ => none
  | .quic (.answered (.ok response) _) => [response]
  | _ => []

end Attempt

end SingBox.Cloudflared
