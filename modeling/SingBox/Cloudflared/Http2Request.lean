import SingBox.Cloudflared.RemoteConfig

namespace SingBox.Cloudflared

open Library SingBox.Core

def H2_CONTROL_HEADER : String := "Cf-Cloudflared-Proxy-Connection-Upgrade"
def H2_TCP_SOURCE_HEADER : String := "Cf-Cloudflared-Proxy-Src"
def H2_WEBSOCKET_STREAM : String := "websocket"

-- The `Display` of a URI.
def Uri.text (this : Uri) : String :=
  (this.scheme.map fun scheme => scheme ++ "://").getD "" ++
    (this.authority.map Authority.text).getD "" ++ this.pathAndQuery.getD ""

structure Header where
  name : String
  value : Bytes
deriving DecidableEq, Repr

def visibleAscii (byte : UInt8) : Bool := 32 ≤ byte && byte < 127 || byte == 9

def asciiText (bytes : Bytes) : String := String.ofList (bytes.map fun byte => Char.ofNat byte.toNat)

-- `HeaderValue::to_str`
def toStr (value : Bytes) : Option String :=
  if value.all visibleAscii then some (asciiText value) else none

-- A request as h2 delivers it. The headers are in the order in which their map yields them,
-- their names in lower case.
structure Http2Request where
  method : String
  uri : Uri
  headers : List Header
deriving DecidableEq, Repr

namespace Http2Request

-- `headers().get(name)`: the first value of that name, in any case.
def header (this : Http2Request) (name : String) : Option Bytes :=
  (this.headers.find? fun header => header.name = toAsciiLowercase name).map Header.value

def headerText (this : Http2Request) (name : String) : Option String :=
  (this.header name).bind toStr

end Http2Request

def buildConnectRequest (request : Http2Request) : Result ConnectRequest := do
  let websocket := request.headerText H2_CONTROL_HEADER = some H2_WEBSOCKET_STREAM
  let tcp := (request.header H2_TCP_SOURCE_HEADER).isSome
  let connectionType : ConnectionType :=
    if websocket then .websocket else if tcp then .tcp else .http
  let destination ←
    if connectionType = .tcp then
      Result.ofOption "Cloudflare TCP stream has no destination"
        (request.uri.authority.map Authority.text <|> request.headerText "host")
    else if request.uri.scheme.isSome ∧ request.uri.authority.isSome then .ok request.uri.text
    else do
      let host ← Result.ofOption "Cloudflare HTTP stream has no host" (request.headerText "host")
      let path := (request.uri.pathAndQuery.filter (· ≠ "")).getD "/"
      .ok ("http://" ++ host ++ path)
  let host := (request.headerText "host").map fun value => ⟨"HttpHost", value⟩
  let headers := request.headers.filterMap fun header =>
    (toStr header.value).map fun value => ⟨HTTP_HEADER ++ header.name, value⟩
  return { destination, connectionType,
           metadata := ⟨"HttpMethod", request.method⟩ :: (host.toList ++ headers) }

end SingBox.Cloudflared
