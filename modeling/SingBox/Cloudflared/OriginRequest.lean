import SingBox.Cloudflared.Request
import SingBox.Library.Utf8

namespace SingBox.Cloudflared

open Library SingBox.Core
open Utf8 (encode)

-- `str::trim_start_matches`: the pattern is taken off as often as it is there.
def trimStartMatches (pattern text : List Char) : List Char := go text.length text
where
  go : Nat → List Char → List Char
    | 0, text => text
    | left + 1, text =>
        if pattern.isPrefixOf text then go left (text.drop pattern.length) else text

-- `str::eq_ignore_ascii_case`
def eqIgnoreAsciiCase (left right : String) : Bool := toAsciiLowercase left == toAsciiLowercase right

def ensureHttpToken (value : String) : Result Unit :=
  let bytes := encode value
  Result.ensure (!bytes.isEmpty && !bytes.any fun byte => byte ≤ 0x20 || 0x7f ≤ byte || byte == 58)
    "invalid HTTP token"

def ensureHttpValue (value : String) : Result Unit :=
  Result.ensure (!value.toList.contains '\r' && !value.toList.contains '\n')
    "invalid HTTP header value"

-- The headers that `build_origin_request` does not pass on.
def skipsHeader (websocket : Bool) (name : String) : Bool :=
  (eqIgnoreAsciiCase name "host" || eqIgnoreAsciiCase name "content-length" ||
    eqIgnoreAsciiCase name "connection" || eqIgnoreAsciiCase name "transfer-encoding" ||
    eqIgnoreAsciiCase name "cf-cloudflared-proxy-connection-upgrade" ||
    (websocket &&
      (eqIgnoreAsciiCase name "upgrade" || eqIgnoreAsciiCase name "sec-websocket-version"))) ||
  (eqIgnoreAsciiCase name "upgrade" && !websocket)

-- The name in the key of a header's entry.
def headerName (entry : Metadata) : String :=
  String.ofList (trimStartMatches HTTP_HEADER.toList entry.key.toList)

example : headerName ⟨"HttpHeader:HttpHeader:Host", "a.com"⟩ = "Host" := by decide

def isHeader (entry : Metadata) : Bool := HTTP_HEADER.toList.isPrefixOf entry.key.toList

-- The loop over the entries of headers.
def appendHeaders (websocket : Bool) : List Metadata → Bytes → Result Bytes
  | [], output => .ok output
  | entry :: rest, output => do
      let name := headerName entry
      if skipsHeader websocket name then appendHeaders websocket rest output
      else
        ensureHttpToken name
        ensureHttpValue entry.value
        appendHeaders websocket rest
          (output ++ encode name ++ encode ": " ++ encode entry.value ++ encode "\r\n")

def requestMethod (request : ConnectRequest) : String :=
  (request.metadataValue "HttpMethod").getD "GET"

def requestPath (uri : Uri) : String := (uri.pathAndQuery.filter (· ≠ "")).getD "/"

def buildOriginRequest (request : ConnectRequest) (uri : Uri) (host : String) (bodyLength : Nat)
    (websocket : Bool) : Result Bytes := do
  let method := requestMethod request
  let path := requestPath uri
  ensureHttpToken method
  ensureHttpValue host
  ensureHttpValue path
  let output := encode (method ++ " " ++ path ++ " HTTP/1.1\r\nHost: " ++ host ++ "\r\n")
  let output ← appendHeaders websocket (request.metadata.filter isHeader) output
  let output := output ++ encode ("Content-Length: " ++ toString bodyLength ++ "\r\n")
  let output :=
    if websocket then
      output ++ encode "Upgrade: websocket\r\n" ++ encode "Sec-WebSocket-Version: 13\r\n" ++
        encode "Connection: Upgrade\r\n"
    else output ++ encode "Connection: close\r\n"
  return output ++ encode "\r\n"

end SingBox.Cloudflared
