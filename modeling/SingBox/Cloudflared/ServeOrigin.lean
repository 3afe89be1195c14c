import SingBox.Cloudflared.RemoteConfig
import SingBox.Cloudflared.ResponseBody
import SingBox.Library.Exchange
import SingBox.Vless.Base64

namespace SingBox.Cloudflared

open Library SingBox.Core
open Async (Focus)

structure ConnectResponse where
  error : String
  metadata : List Metadata := []
deriving DecidableEq, Repr

def isHopByHopHeader (name : String) : Bool :=
  eqIgnoreAsciiCase name "connection" || eqIgnoreAsciiCase name "keep-alive" ||
    eqIgnoreAsciiCase name "proxy-connection" || eqIgnoreAsciiCase name "transfer-encoding"

def isWebsocketResponseHeader (name : String) : Bool :=
  eqIgnoreAsciiCase name "connection" || eqIgnoreAsciiCase name "upgrade" ||
    eqIgnoreAsciiCase name "sec-websocket-accept"

-- What is written of a chunk with so many bytes. The table is that of the VLESS crate.
def base64Chunk (length : Nat) (first second third : UInt8) : List Char :=
  [Vless.base64Char (first >>> 2), Vless.base64Char ((first &&& 3) <<< 4 ||| second >>> 4),
    if 1 < length then Vless.base64Char ((second &&& 15) <<< 2 ||| third >>> 6) else '=',
    if 2 < length then Vless.base64Char (third &&& 63) else '=']

-- The chunks of three bytes.
def base64Chunks : Bytes → List Char
  | [] => []
  | [first] => base64Chunk 1 first 0 0
  | [first, second] => base64Chunk 2 first second 0
  | first :: second :: third :: rest => base64Chunk 3 first second third ++ base64Chunks rest

def base64Encode (value : Bytes) : String := String.ofList (base64Chunks value)

def serializeHeaders (headers : ResponseHeaders) : String :=
  ";".intercalate (headers.map fun (name, value) =>
    base64Encode (Utf8.encode name) ++ ":" ++ base64Encode (Utf8.encode value))

def userHeaders (headers : ResponseHeaders) : ResponseHeaders :=
  headers.filter fun (name, _) => !isHopByHopHeader name || isWebsocketResponseHeader name

-- The headers of a response over HTTP/2, and the entries of one over QUIC.
def http2Headers (responseHeaders : ResponseHeaders) : ResponseHeaders :=
  let user := userHeaders responseHeaders
  let serialized :=
    if user = [] then [] else [("cf-cloudflared-response-headers", serializeHeaders user)]
  let framing := user.filter fun (name, _) => !isHopByHopHeader name &&
    (eqIgnoreAsciiCase name "content-length" || eqIgnoreAsciiCase name "content-type")
  ("cf-cloudflared-response-meta", "\x7b\"src\":\"origin\"\x7d") :: (serialized ++ framing)

def responseMetadata (status : Nat) (responseHeaders : ResponseHeaders) : List Metadata :=
  ⟨"HttpStatus", toString status⟩ :: (userHeaders responseHeaders).map fun (name, value) =>
    ⟨HTTP_HEADER ++ name, value⟩

def acceptedResponse (status : Nat) (responseHeaders : ResponseHeaders) : ConnectResponse where
  error := ""
  metadata := responseMetadata status responseHeaders

-- A request that is served: what comes from it goes up to the origin, what comes from the origin
-- goes down to it.
abbrev Exchange (ι ο ρ ω : Type) := Relay ι ο × Relay ρ ω

namespace Exchange

variable {ι ο ρ ω α : Type}

def onDown : Focus (Exchange ι ο ρ ω) (Relay ρ ω) where
  part := Prod.snd
  put exchange down := (exchange.1, down)
  part_put _ _ := rfl
  put_put _ _ _ := rfl

def onOrigin : Focus (Exchange ι ο ρ ω) ρ where
  part exchange := exchange.2.reader
  put exchange reader := (exchange.1, { exchange.2 with reader })
  part_put _ _ := rfl
  put_put _ _ _ := rfl

def onResponse : Focus (Exchange ι ο ρ ω) ω where
  part exchange := exchange.2.writer
  put exchange writer := (exchange.1, { exchange.2 with writer })
  part_put _ _ := rfl
  put_put _ _ _ := rfl

end Exchange

-- The stream of a request over QUIC.
structure QuicRequestStream (ω : Type) where
  stream : ω
  responseSent : Bool := false

namespace QuicRequestStream

variable {ω : Type}

def onStream : Focus (QuicRequestStream ω) ω where
  part := stream
  put this stream := { this with stream }
  part_put _ _ := rfl
  put_put _ _ _ := rfl

variable [AsyncWrite ω]

instance : AsyncWrite (QuicRequestStream ω) where
  pollWrite this data := onStream.poll (AsyncWrite.pollWrite · data) this
  pollFlush this := onStream.poll AsyncWrite.pollFlush this

instance [AsyncShutdown ω] : AsyncShutdown (QuicRequestStream ω) where
  pollShutdown this := onStream.poll AsyncShutdown.pollShutdown this

-- `encode` is `protocol::encode_connect_response`.
def sendResponse (encode : ConnectResponse → Result Bytes) (response : ConnectResponse) (polls : Nat) :
    Async (QuicRequestStream ω) Unit := do
  let this ← get
  Async.ensure (!this.responseSent) "Cloudflare QUIC response already sent"
  let encoded ← Async.ofResult (encode response)
  Async.writeAll encoded polls
  Async.modify fun this => { this with responseSent := true }

end QuicRequestStream

section

variable {ι ο ρ ω : Type} [AsyncRead ι] [AsyncWrite ο] [AsyncRead ρ] [AsyncWrite ω]

def copyWebsocketResponse (alreadyRead : Bytes) (polls : Nat) : Async (Relay ρ ω) Nat := do
  Async.writeAll alreadyRead polls
  Relay.copy none polls

-- Both directions of an upgraded connection.
def joinWebsocket (alreadyRead : Bytes) (polls : Nat) : Async (Exchange ι ο ρ ω) Unit := do
  let _ ← Async.tryJoin (Relay.copy none polls) (copyWebsocketResponse alreadyRead polls)
  return ()

def upgrades (request : ConnectRequest) (status : Nat) : Bool :=
  request.connectionType == .websocket && status == 101

-- `Uri::from_str`, and what `prepare_origin_request` does before it reads the response: it connects
-- to the origin and sends the request there.
variable (parseUri : String → Result Uri)

section

variable (requestOrigin : ConnectRequest → Nat → Async (Exchange ι ο ρ ω) Unit)

-- `prepare_origin_request`
def originResponse (request : ConnectRequest) (polls : Nat) :
    Async (Exchange ι ο ρ ω) (Nat × ResponseHeaders × Bytes) := do
  requestOrigin request polls
  Exchange.onOrigin.lift (readHttpResponseHead polls)

variable [AsyncShutdown ω]

-- `Http2RequestStream::send_response`, and the writer that it gives.
variable (sendResponse : Nat → ResponseHeaders → Nat → Async ω Unit)

-- What `serve_http_origin` does with a response of the origin.
def forwardHttp2 (request : ConnectRequest) (status : Nat) (responseHeaders : ResponseHeaders)
    (responseBody : Bytes) (polls : Nat) : Async (Exchange ι ο ρ ω) Unit := do
  let responseStatus := if upgrades request status then 200 else status
  Exchange.onResponse.lift (sendResponse responseStatus (http2Headers responseHeaders) polls)
  if upgrades request status then
    joinWebsocket responseBody polls
    Exchange.onResponse.lift (Async.shutdown polls)
  else
    Exchange.onDown.lift (copyResponseBody responseBody responseHeaders polls)
    Exchange.onResponse.lift (Async.shutdown polls)

def serveHttpOrigin (remoteConfig : RemoteConfigState) (request : ConnectRequest) (polls : Nat) :
    Async (Exchange ι ο ρ ω) Unit := do
  let (request, statusOverride) ← Async.ofResult (resolveRemoteRequest parseUri remoteConfig request)
  match statusOverride with
  | some status => do
      Exchange.onResponse.lift (sendResponse status.toNat [] polls)
      Exchange.onResponse.lift (Async.shutdown polls)
  | none => do
      let (status, responseHeaders, responseBody) ← originResponse requestOrigin request polls
      forwardHttp2 sendResponse request status responseHeaders responseBody polls

end

section

variable (requestOrigin : ConnectRequest → Nat → Async (Exchange ι ο ρ (QuicRequestStream ω)) Unit)
  (encode : ConnectResponse → Result Bytes) [AsyncShutdown ω]

def forwardQuic (request : ConnectRequest) (status : Nat) (responseHeaders : ResponseHeaders)
    (responseBody : Bytes) (polls : Nat) : Async (Exchange ι ο ρ (QuicRequestStream ω)) Unit := do
  Exchange.onResponse.lift
    (QuicRequestStream.sendResponse encode (acceptedResponse status responseHeaders) polls)
  if upgrades request status then joinWebsocket responseBody polls
  else
    Exchange.onDown.lift (copyResponseBody responseBody responseHeaders polls)
    Exchange.onResponse.lift (Async.shutdown polls)

-- Where the origin gives no response: what this fails with itself is left aside.
def refuseQuic (chain : List String) (polls : Nat) : Async (QuicRequestStream ω) Unit := do
  try QuicRequestStream.sendResponse encode { error := errorText chain } polls
  catch _ => pure ()
  try Async.shutdown polls
  catch _ => pure ()

def serveQuicHttpOrigin (remoteConfig : RemoteConfigState) (request : ConnectRequest) (polls : Nat) :
    Async (Exchange ι ο ρ (QuicRequestStream ω)) Unit := do
  let (request, statusOverride) ← Async.ofResult (resolveRemoteRequest parseUri remoteConfig request)
  match statusOverride with
  | some status => do
      Exchange.onResponse.lift (QuicRequestStream.sendResponse encode
        { error := "", metadata := [⟨"HttpStatus", toString status.toNat⟩] } polls)
      Exchange.onResponse.lift (Async.shutdown polls)
  | none => do
      let (status, responseHeaders, responseBody) ←
        try originResponse requestOrigin request polls
        catch chain => do
          Exchange.onResponse.lift (refuseQuic encode chain polls)
          throw chain
      forwardQuic encode request status responseHeaders responseBody polls

end

end

end SingBox.Cloudflared
