import SingBox.Cloudflared.Request
import SingBox.Library.Reader

namespace SingBox.Cloudflared

open Library SingBox.Core

structure RemoteIngressRule where
  hostname : String := ""
  path : String := ""
  service : String
deriving DecidableEq, Repr

structure RemoteConfigState where
  version : Int
  raw : Bytes := []
  ingress : List RemoteIngressRule := []
deriving DecidableEq, Repr

structure RemoteConfigBody where
  ingress : List RemoteIngressRule := []
deriving DecidableEq, Repr

-- What `configuration_store` begins with.
def RemoteConfigState.initial : RemoteConfigState := { version := -1 }

-- What `serde_json` makes of texts: a configuration, the body of an update over HTTP/2 with
-- its version and its configuration, and that configuration as text.
structure Json (Value : Type) where
  configBody : Bytes → Result RemoteConfigBody
  updateBody : Bytes → Result (Int × Value)
  toVec : Value → Result Bytes

-- The handler of `configuration_store`. It parses before it takes the lock, and no holder
-- of the lock panics.
def configurationHandler (parse : Bytes → Result RemoteConfigBody) (state : RemoteConfigState)
    (version : Int) (config : Bytes) : Result Int × RemoteConfigState :=
  match Result.withContext "parse Cloudflared remote ingress configuration" (parse config) with
  | .error chain => (.error chain, state)
  | .ok parsed =>
      let next : RemoteConfigState :=
        if state.version < version then { version, raw := config, ingress := parsed.ingress }
        else state
      (.ok next.version, next)

structure ConfigurationUpdateResponse where
  lastAppliedVersion : Int
  err : Option String
deriving DecidableEq, Repr

-- `Error::to_string`
def errorText (chain : List String) : String := chain.headD ""

section

variable {Value : Type} (json : Json Value)

-- `handle_configuration_update` over HTTP/2. A body that is no update is not answered.
def handleConfigurationUpdate (installed : Bool) (state : RemoteConfigState) (body : Bytes) :
    Result ConfigurationUpdateResponse × RemoteConfigState :=
  match Result.withContext "decode Cloudflare configuration update" (json.updateBody body) with
  | .error chain => (.error chain, state)
  | .ok (version, config) =>
      if installed = false then
        (.ok ⟨version, some "configuration handler is not installed"⟩, state)
      else
        match json.toVec config with
        | .error chain => (.error chain, state)
        | .ok config =>
            match configurationHandler json.configBody state version config with
            | (.ok applied, next) => (.ok ⟨applied, none⟩, next)
            | (.error chain, next) => (.ok ⟨version, some (errorText chain)⟩, next)

structure UpdateConfigurationResult where
  latestAppliedVersion : Int
  err : String
deriving DecidableEq, Repr

-- `update_configuration` over QUIC. Reading the parameters can fail.
def updateConfiguration (installed : Bool) (state : RemoteConfigState)
    (params : Result (Int × Bytes)) : Result UpdateConfigurationResult × RemoteConfigState :=
  match params with
  | .error chain => (.error chain, state)
  | .ok (version, config) =>
      if installed = false then
        (.ok ⟨version, "configuration handler is not installed"⟩, state)
      else
        match configurationHandler json.configBody state version config with
        | (.ok applied, next) => (.ok ⟨applied, ""⟩, next)
        | (.error chain, next) => (.ok ⟨version, errorText chain⟩, next)

end

def normalizeHost (value : String) : String :=
  match value.toList with
  | '[' :: inner => toAsciiLowercase (String.ofList (inner.takeWhile (· ≠ ']')))
  | _ =>
      match rsplitOnce ':' value.toList with
      | some (host, port) =>
          match parseUnsigned 65536 port with
          | .ok _ => toAsciiLowercase (String.ofList host)
          | .error _ => toAsciiLowercase value
      | none => toAsciiLowercase value

example : normalizeHost "WWW.example.com:8443" = "www.example.com" := by decide
example : normalizeHost "[2001:DB8::1]:443" = "2001:db8::1" := by decide

namespace RemoteIngressRule

-- The pattern is a name, `*`, or `*.` before the end of the name.
def hostMatches (this : RemoteIngressRule) (host : String) : Bool :=
  let hostname := toAsciiLowercase this.hostname
  hostname == "" || hostname == "*" || hostname == host ||
    ("*.".toList.isPrefixOf hostname.toList && (hostname.toList.drop 1).isSuffixOf host.toList)

def pathMatches (this : RemoteIngressRule) (path : String) : Bool :=
  let pattern := (this.path.toList.dropWhile (· = '^')).rdropWhile (· = '$')
  pattern.isEmpty || pattern.isPrefixOf path.toList

end RemoteIngressRule

section

variable (parseUri : String → Result Uri)

-- The host and the path by which `resolve_remote_request` looks for a rule.
def requestHost (request : ConnectRequest) (uri : Uri) : String :=
  ((request.metadataValue "HttpHost" <|> uri.authority.map Authority.host).map normalizeHost).getD ""

def ingressRule (state : RemoteConfigState) (request : ConnectRequest) (uri : Uri) :
    Option RemoteIngressRule :=
  let host := requestHost request uri
  state.ingress.find? fun rule => rule.hostMatches host && rule.pathMatches uri.path

-- The request as the service of the rule gets it.
def originDestination (service uri : Uri) : String :=
  let servicePath := String.ofList (service.path.toList.rdropWhile (· = '/'))
  let requestPath := uri.pathAndQuery.getD "/"
  let joinedPath :=
    if servicePath = "" ∨ servicePath = "/" then requestPath
    else if requestPath = "/" then servicePath
    else servicePath ++ requestPath
  service.scheme.getD "http" ++ "://" ++ (service.authority.map Authority.text).getD "" ++ joinedPath

def applyRule (rule : RemoteIngressRule) (request : ConnectRequest) (uri : Uri) :
    Result (ConnectRequest × Option UInt16) := do
  if "http_status:".toList.isPrefixOf rule.service.toList then
    let status ← Result.withContext "parse Cloudflared status service"
      (parseUnsigned 65536 (rule.service.toList.drop "http_status:".length))
    return (request, some (UInt16.ofNat status))
  else
    let service ← Result.withContext "parse Cloudflared ingress service URL" (parseUri rule.service)
    Result.ensure (service.scheme.any ["http", "https", "ws", "wss"].contains &&
      service.authority.isSome) "unsupported Cloudflared ingress service"
    return ({ request with destination := originDestination service uri }, none)

def resolveRemoteRequest (state : RemoteConfigState) (request : ConnectRequest) :
    Result (ConnectRequest × Option UInt16) := do
  if state.ingress.isEmpty then return (request, none)
  else
    let uri ← Result.withContext "parse Cloudflared request URI" (parseUri request.destination)
    let rule ← Result.ofOption "no Cloudflared ingress rule matched request"
      (ingressRule state request uri)
    applyRule parseUri rule request uri

end

end SingBox.Cloudflared
