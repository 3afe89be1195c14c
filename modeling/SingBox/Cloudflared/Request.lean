import SingBox.Core.Rule
import SingBox.Library.Text

namespace SingBox.Cloudflared

open Library SingBox.Core

inductive ConnectionType where
  | http
  | websocket
  | tcp
deriving DecidableEq, Repr

structure Metadata where
  key : String
  value : String
deriving DecidableEq, Repr

structure ConnectRequest where
  destination : String
  connectionType : ConnectionType
  metadata : List Metadata
deriving DecidableEq, Repr

-- What the `http` crate finds in a URI: `host()` keeps the brackets of an IPv6 address,
-- `port_u16()` is the port where it is a number.
structure Authority where
  text : String
  host : String
  port : Option UInt16
deriving DecidableEq, Repr

structure Uri where
  scheme : Option String
  authority : Option Authority
  pathAndQuery : Option String
  path : String
deriving DecidableEq, Repr

export Text (isWhitespace trim)

-- `str::rsplit_once`
def rsplitOnce (separator : Char) (text : List Char) : Option (List Char × List Char) :=
  (splitOnce separator text.reverse).map fun (after, before) => (before.reverse, after.reverse)

def ConnectRequest.metadataValue (this : ConnectRequest) (key : String) : Option String :=
  (this.metadata.find? fun entry => entry.key = key).map Metadata.value

def HTTP_HEADER : String := "HttpHeader:"

def SOURCE_HEADERS : List String := ["Cf-Connecting-IP", "X-Real-IP", "X-Forwarded-For"]

namespace ConnectRequest

-- A header by its own key or as an HTTP header.
def sourceValue (this : ConnectRequest) (key : String) : Option String :=
  this.metadataValue key <|> this.metadataValue (HTTP_HEADER ++ key)

-- The address in front of the first comma.
def firstAddress (value : String) : Option IpAddr :=
  IpAddr.fromStr (trim (value.toList.takeWhile (· ≠ ',')))

def UNSPECIFIED : IpAddr := .v4 0

def sourceForRequest (this : ConnectRequest) : SocketAddr :=
  let found := SOURCE_HEADERS.findSome? fun key => (this.sourceValue key).bind firstAddress
  { ip := found.getD UNSPECIFIED, port := 0 }

example : sourceForRequest
    { destination := "", connectionType := .http,
      metadata := [⟨"HttpHeader:X-Forwarded-For", " 10.0.0.1 , 10.0.0.2"⟩] } =
    ⟨.v4 0x0a000001#32, 0⟩ := by decide

end ConnectRequest

def splitHostPort (value : List Char) : Result (List Char × UInt16) := do
  match value with
  | '[' :: value => do
      let (host, port) ←
        Result.ofOption "invalid bracketed cloudflared destination" (splitOnce ']' value)
      let port ←
        match port with
        | ':' :: port => .ok port
        | _ => Result.bail "cloudflared destination is missing port"
      let port ← Result.withContext "parse cloudflared destination port" (parseUnsigned 65536 port)
      return (host, UInt16.ofNat port)
  | _ => do
      let (host, port) ←
        Result.ofOption "cloudflared destination is missing port" (rsplitOnce ':' value)
      let port ← Result.withContext "parse cloudflared destination port" (parseUnsigned 65536 port)
      return (host, UInt16.ofNat port)

section

-- `Uri::from_str`
variable (parseUri : String → Result Uri)

def destinationForRequest (destination : String) (kind : ConnectionType) :
    Result (Network × Address) := do
  if kind = .http ∨ kind = .websocket then
    let uri ← Result.withContext "parse cloudflared HTTP URI" (parseUri destination)
    let authority ← Result.ofOption "cloudflared HTTP request has no authority" uri.authority
    let port := authority.port.getD
      (if uri.scheme = some "https" ∨ uri.scheme = some "wss" then 443 else 80)
    return (.tcp, ← Address.new authority.host port)
  else
    let (host, port) ← splitHostPort destination.toList
    return (.tcp, ← Address.new (String.ofList host) port)

-- `router_handler`, up to the session it hands to the router.
def routerHandler (tag : String) (request : ConnectRequest) : Result Session := do
  let (network, destination) ←
    destinationForRequest parseUri request.destination request.connectionType
  let session := Session.ofInbound network request.sourceForRequest destination tag none
  match network with
  | .tcp => return session
  | .udp => Result.bail "cloudflared HTTP/2 does not carry UDP streams"

-- What `prepare_origin_request` has found before it connects: `tlsHost` is there where the
-- origin is spoken to over TLS.
structure Origin where
  session : Session
  uri : Uri
  host : String
  tlsHost : Option String
deriving DecidableEq

-- `prepare_origin_request`, up to the session it hands to the router.
def prepareOriginRequest (tag : String) (request : ConnectRequest) : Result Origin := do
  let (network, destination) ←
    destinationForRequest parseUri request.destination request.connectionType
  let uri ← Result.withContext "parse Cloudflare origin URI" (parseUri request.destination)
  let scheme := uri.scheme.getD "http"
  let host ← Result.ofOption "Cloudflare HTTP request has no host"
    (request.metadataValue "HttpHost" <|> uri.authority.map Authority.host)
  let tlsHost := (uri.authority.map Authority.host).getD host
  let session := Session.ofInbound network request.sourceForRequest destination tag none
  return {
    session
    uri
    host
    tlsHost := if ["https", "wss"].contains (toAsciiLowercase scheme) then some tlsHost else none
  }

end

end SingBox.Cloudflared
