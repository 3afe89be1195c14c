import SingBox.Vless.Inbound

namespace SingBox.Vless

open Library
open Core (Address Network toAsciiLowercase)
open Utf8 (encode)

-- `headers` is the hash map in the order in which it is gone through, `serverName` the one of
-- the TLS options.
structure VlessOutbound where
  server : String
  serverPort : UInt16
  uuid : Uuid
  path : String
  headers : List (String × String)
  maxEarlyData : Nat
  earlyDataHeaderName : String
  serverName : String

namespace VlessOutbound

def earlyData (this : VlessOutbound) (request : Bytes) : Bool :=
  0 < this.maxEarlyData && this.earlyDataHeaderName != "" && request.length ≤ this.maxEarlyData

def host (this : VlessOutbound) : String :=
  if this.serverName = "" then this.server else this.serverName

-- The headers that `connect` writes itself.
def RESERVED : List String :=
  ["host", "upgrade", "connection", "sec-websocket-version", "sec-websocket-key"]

def configured (this : VlessOutbound) : List (String × String) :=
  this.headers.filter fun (name, _) => toAsciiLowercase name ∉ RESERVED

def headerLine (header : String × String) : String := header.1 ++ ": " ++ header.2 ++ "\r\n"

def http (this : VlessOutbound) (key : String) (request : Bytes) : String :=
  s!"GET {rootedPath this.path} HTTP/1.1\r\n" ++ s!"Host: {this.host}\r\n" ++
    "Upgrade: websocket\r\n" ++ "Connection: Upgrade\r\n" ++
    "Sec-WebSocket-Version: 13\r\n" ++ s!"Sec-WebSocket-Key: {key}\r\n" ++
    String.join (this.configured.map headerLine) ++
    (if this.earlyData request then
      headerLine (this.earlyDataHeaderName, encodeBase64Url request) else "") ++ "\r\n"

-- `connect` up to its stream of frames: what has been read after the head of the response.
def upgrade {σ : Type} [AsyncRead σ] [AsyncWrite σ] (this : VlessOutbound) (key : String)
    (request : Bytes) (polls : Nat) : Async σ Bytes := do
  Async.writeAll (encode (this.http key request)) polls
  Async.flush polls
  let response ← readHttpResponse polls
  Async.ensure (response.status = 101)
    s!"VLESS WebSocket server returned HTTP status {response.status}"
  Async.ensure (response.headers.lookup "sec-websocket-accept" = some (websocketAccept key))
    "invalid VLESS WebSocket accept header"
  return response.tail

-- The rest of it, on that stream.
def sendRequest (this : VlessOutbound) (request : Bytes) (polls : Nat) :
    Async WebSocketStream Unit := do
  if this.earlyData request then pure ()
  else
    Async.writeAll request polls
    Async.flush polls
  let response ← Async.readExact 2 polls
  Async.ensure (response = [VLESS_VERSION, 0]) "invalid VLESS response"

-- What `connect` needs before it writes: the request, and the key of the handshake. `filled` is
-- what the system's generator makes of the bytes of the key.
def prepare (this : VlessOutbound) (network : Network) (destination : Address)
    (filled : Option { key : Bytes // key.length = 16 }) : Result (Bytes × String) := do
  Result.ensure (network = .tcp) "VLESS outbound only supports TCP"
  let _ ← Address.new this.server this.serverPort
  let request ← encodeVlessRequest this.uuid destination
  let key ← Result.ofOption "generate WebSocket key" filled
  return (request, encodeBase64 key.val)

-- `stream` is the connection to the server, with TLS on it where that is enabled.
def connect (this : VlessOutbound) (network : Network) (destination : Address)
    (filled : Option { key : Bytes // key.length = 16 }) (polls : Nat) (stream : Environment) :
    Option (Result WebSocketStream) :=
  match this.prepare network destination filled with
  | .error chain => some (.error chain)
  | .ok (request, key) =>
      match this.upgrade key request polls stream with
      | none => none
      | some (.error chain, _) => some (.error chain)
      | some (.ok tail, inner) =>
          match this.sendRequest request polls (.new inner tail [] true) with
          | none => none
          | some (.error chain, _) => some (.error chain)
          | some (.ok (), tunnel) => some (.ok tunnel)

end VlessOutbound

end SingBox.Vless
