import SingBox.Vless.Base64
import SingBox.Vless.Http
import SingBox.Vless.Request
import SingBox.Vless.Sha1
import SingBox.Vless.WebSocket.Send

namespace SingBox.Vless

open Library
open Core (Session SocketAddr)
open Utf8 (encode)

-- A configured path as it stands in requests.
def rootedPath (path : String) : String :=
  if path.toList.head? = some '/' then path else "/" ++ path

structure VlessInbound where
  tag : String
  path : String
  earlyDataHeaderName : String
  users : Users

-- What becomes of a connection: it is answered with an error, or what `route` is given.
inductive Handled where
  | refused (inner : Environment)
  | routed (session : Session) (application : WebSocketStream)

def switchingProtocols (key : String) : String :=
  "HTTP/1.1 101 Switching Protocols\r\n" ++ "Upgrade: websocket\r\n" ++
    "Connection: Upgrade\r\n" ++ s!"Sec-WebSocket-Accept: {websocketAccept key}\r\n" ++ "\r\n"

namespace VlessInbound

def earlyData (this : VlessInbound) (request : HttpRequest) : Result Bytes :=
  if this.earlyDataHeaderName = "" then .ok []
  else
    let value := (request.header this.earlyDataHeaderName).getD ""
    Result.withContext "decode VLESS WebSocket early data" (decodeBase64Url value)

-- `handle_connection_inner` up to its stream of frames: what has been read after the head,
-- and the early data. Without them it has refused the request.
def upgrade {σ : Type} [AsyncRead σ] [AsyncWrite σ] (this : VlessInbound) (polls : Nat) :
    Async σ (Option (Bytes × Bytes)) := do
  let request ← readHttpRequest polls
  if request.method ≠ "GET" then
    writeHttpError 405 "Method Not Allowed" polls
    return none
  else if request.path ≠ this.path then
    writeHttpError 404 "Not Found" polls
    return none
  else
    Async.ofResult (ensureWebsocketRequest request)
    let earlyData ← Async.ofResult (this.earlyData request)
    Async.ensure (earlyData.length ≤ MAX_WS_FRAME_SIZE) "VLESS early data is too large"
    let key := (request.header "sec-websocket-key").getD ""
    Async.writeAll (encode (switchingProtocols key)) polls
    Async.flush polls
    return some (request.tail, earlyData)

-- The rest of it, on that stream.
def serve (this : VlessInbound) (source : SocketAddr) (polls : Nat) :
    Async WebSocketStream Session := do
  let (destination, user) ← readVlessRequest this.users polls
  Async.writeAll [VLESS_VERSION, 0] polls
  return Session.ofInbound .tcp source destination this.tag (some user)

def handleConnectionInner (this : VlessInbound) (source : SocketAddr) (polls : Nat)
    (stream : Environment) : Option (Result Handled) :=
  match this.upgrade polls stream with
  | none => none
  | some (.error chain, _) => some (.error chain)
  | some (.ok none, inner) => some (.ok (.refused inner))
  | some (.ok (some (tail, earlyData)), inner) =>
      match this.serve source polls (.new inner tail earlyData false) with
      | none => none
      | some (.error chain, _) => some (.error chain)
      | some (.ok session, application) => some (.ok (.routed session application))

end VlessInbound

end SingBox.Vless
