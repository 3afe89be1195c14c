import SingBox.Cloudflared.Request
import SingBox.Core.Radix
import SingBox.Hysteria2.Masquerade
import SingBox.Library.Chunked
import SingBox.Library.Text

namespace SingBox.Hysteria2

open Library
open Chunked (Take)
open Cloudflared (Authority Uri)
open Core (Address fromStrRadix parseUnsigned splitOnce toAsciiLowercase)
open HttpHead (crlf)
open Text (splitCrlf trim)
open Utf8 (decode encode)

def findBytes (haystack needle : Bytes) : Option Nat := position needle haystack

-- The two parts of a pass through the loop of `decode_chunked`.
def readSize (line : Bytes) : Result Nat := do
  let line ← Result.ofOption "invalid utf-8" (decode line)
  let size ← Result.ofOption "chunk size is missing" (line.toList.splitOn ';').head?
  Result.withContext "invalid chunk size" (fromStrRadix 16 (2 ^ 64) (trim size))

def takeChunk : Take := fun size bytes decoded => do
  if size = 0 then return .done decoded
  else
    let last ← Checked.add size 2
    Checked.ensure (last ≤ bytes.length) "truncated chunked response"
    let data ← Checked.slice bytes 0 size
    let ending ← Checked.slice bytes size last
    Checked.ensure (ending == crlf) "invalid chunk ending"
    let bytes ← Checked.slice bytes last bytes.length
    return .again (bytes, decoded ++ data)

theorem takeChunk_takes : Chunked.Takes (fun _ => True) takeChunk := by
  refine ⟨fun rest output => rfl, fun {size} rest output hlarge => ?_,
    fun {data output} rest hdata hsmall _ => ?_, fun {size} remaining output hsize hsmall => ?_⟩
  · rw [takeChunk, if_neg (by omega), Checked.add_of_le hlarge]
    rfl
  · obtain ⟨hlength, hmid, hbehind⟩ := Chunked.slice_data data crlf rest rfl
    rw [takeChunk, if_neg (List.length_pos_iff.mpr hdata).ne', Checked.add_of_lt hsmall]
    simp only [pure_bind, decide_eq_true hlength, hmid, beq_self_eq_true, Checked.ensure_true,
      Checked.slice_front, hbehind]
  · rw [takeChunk, if_neg hsize, Checked.add_of_lt hsmall]
    by_cases hlength : size + 2 ≤ remaining.length
    · obtain ⟨data, mid, rest, rfl, rfl, hmid⟩ := Chunked.split_data hlength
      obtain ⟨-, hslice, -⟩ := Chunked.slice_data data mid rest hmid
      by_cases hend : mid = crlf
      · exact .inl ⟨data, rest, hend ▸ rfl, rfl, trivial⟩
      · refine .inr ⟨["invalid chunk ending"], ?_⟩
        simp only [pure_bind, decide_eq_true hlength, Checked.ensure_true, Checked.slice_front, hslice,
          beq_eq_false_iff_ne.mpr hend, Checked.ensure_false, Checked.error_bind]
    · refine .inr ⟨["truncated chunked response"], ?_⟩
      simp only [pure_bind, decide_eq_false hlength, Checked.ensure_false, Checked.error_bind]

theorem decoder : Chunked.Decoder (fun line => (readSize line).toOption) (fun _ => True)
    (Chunked.body "invalid chunked response" readSize takeChunk) :=
  takeChunk_takes.decoder _ _

def decodeChunked (bytes : Bytes) : Checked Bytes := decoder.run bytes []

section

variable (http : HttpCrate)

def appendHeader (headers : HeaderMap) (line : List Char) : Result HeaderMap := do
  let (name, value) ← Result.ofOption "malformed proxy response header" (splitOnce ':' line)
  let name ← Result.ofOption "invalid HTTP header name" (http.headerName (encode (String.ofList name)))
  let value := String.ofList (trim value)
  Result.ensure (http.admitsValue value) "failed to parse header value"
  return headers ++ [(name, value)]

-- The part of `parse_proxy_response` that looks at the head, and the part that looks at the
-- body.
def parseProxyHead (head : Bytes) : Result (Nat × HeaderMap) := do
  let head ← Result.ofOption "proxy headers are not UTF-8" (decode head)
  let lines := splitCrlf head.toList
  let statusLine ← Result.ofOption "proxy response status is missing" lines.head?
  -- only the first two parts are looked at, of which `splitn` does not make less
  let statusParts := statusLine.splitOn ' '
  let version := statusParts.headD []
  Result.ensure (version == "HTTP/1.0".toList || version == "HTTP/1.1".toList)
    "unsupported proxy HTTP version"
  let status ← Result.ofOption "proxy response status is missing" statusParts[1]?
  let status ← parseUnsigned (2 ^ 16) status
  Result.ensure (http.admitsStatus status) "invalid status code"
  let headers ← lines.tail.foldlM (appendHeader http) []
  return (status, headers)

-- `HeaderMap::get_all`, where `to_str` gives a text.
def visibleValues (headers : HeaderMap) (name : String) : List String :=
  (headers.filter fun header => header.1 = name && http.visible header.2).map Prod.snd

def transferChunked (headers : HeaderMap) : Bool :=
  (visibleValues http headers "transfer-encoding").any fun value =>
    (value.toList.splitOn ',').any fun encoding =>
      toAsciiLowercase (String.ofList (trim encoding)) == "chunked"

def parseProxyBody (status : Nat) (headers : HeaderMap) (isHead : Bool) (rawBody : Bytes) :
    Checked Bytes :=
  if isHead || status = 204 || status = 304 then pure []
  else if transferChunked http headers then decodeChunked rawBody
  else
    match (headers.lookup "content-length").filter http.visible with
    | some length => do
        let length ← Checked.ofResult (parseUnsigned (2 ^ 64) length.toList)
        Checked.ensure (length ≤ rawBody.length) "truncated proxy response body"
        Checked.slice rawBody 0 length
    | none => pure rawBody

def HOP_BY_HOP : List String :=
  ["connection", "proxy-authenticate", "proxy-authorization", "te", "trailer", "transfer-encoding",
   "upgrade", "keep-alive"]

def removeHopByHopHeaders (headers : HeaderMap) : HeaderMap :=
  let connectionHeaders := (visibleValues http headers "connection").flatMap fun value =>
    (value.toList.splitOn ',').filterMap fun name =>
      http.headerName (encode (String.ofList (trim name)))
  headers.filter fun header => !(connectionHeaders ++ HOP_BY_HOP).contains header.1

def parseProxyResponse (bytes : Bytes) (isHead : Bool) : Checked Response := do
  let headerEnd ←
    Checked.ofOption "invalid proxy HTTP response" (findBytes bytes (crlf ++ crlf))
  let (status, headers) ← Checked.ofResult (parseProxyHead http (bytes.take headerEnd))
  let body ← parseProxyBody http status headers isHead (bytes.drop (headerEnd + 4))
  let headers := removeHopByHopHeaders http headers
  let headers := if isHead then headers else headers.filter (·.1 ≠ "content-length")
  return { status, headers, body }

theorem parseProxyResponse_append {head body : Bytes} {isHead : Bool} {status : Nat} {headers : HeaderMap}
    (hend : position (crlf ++ crlf) (head ++ (crlf ++ (crlf ++ body))) = some head.length)
    (hhead : parseProxyHead http head = .ok (status, headers)) :
    parseProxyResponse http (head ++ (crlf ++ (crlf ++ body))) isHead =
      parseProxyBody http status headers isHead body >>= fun body =>
        let kept := removeHopByHopHeaders http headers
        pure { status, body, headers := if isHead then kept else kept.filter (·.1 ≠ "content-length") } := by
  have hbody : (head ++ (crlf ++ (crlf ++ body))).drop (head.length + 4) = body := by
    rw [List.drop_length_add_append]
    rfl
  rw [parseProxyResponse, findBytes, hend, Checked.ofOption_some, pure_bind, List.take_left, hhead,
    Checked.ofResult_ok, pure_bind, hbody]

end

structure ProxyTarget where
  https : Bool
  host : String
  port : UInt16
  authority : String
  basePath : String
  baseQuery : Option String
deriving DecidableEq

-- `Uri::query`
def query (uri : Uri) : Option String :=
  uri.pathAndQuery.bind fun text =>
    (splitOnce '?' text.toList).map fun (_, query) => String.ofList query

namespace ProxyTarget

-- `Uri::from_str`
variable (parseUri : String → Result Uri)

def parse (value : String) : Result ProxyTarget := do
  let uri ← Result.withContext "invalid masquerade proxy URL" (parseUri value)
  let scheme ← Result.ofOption "masquerade proxy URL is missing a scheme" uri.scheme
  let (https, defaultPort) ←
    if scheme = "http" then .ok (false, (80 : UInt16))
    else if scheme = "https" then .ok (true, 443)
    else Result.bail s!"unknown masquerade URL scheme: {scheme}"
  let authority ← Result.ofOption "masquerade proxy URL is missing a host" uri.authority
  Result.ensure (!authority.text.toList.contains '@') "masquerade proxy URL userinfo is not supported"
  let host ← Result.ofOption "masquerade proxy URL host is empty" (uri.authority.map Authority.host)
  let port := authority.port.getD defaultPort
  let basePath := if uri.path = "" then "/" else uri.path
  return { https, host, port, authority := authority.text, basePath, baseQuery := query uri }

-- Where `proxy_request` connects to.
def destination (this : ProxyTarget) : Result Address := Address.new this.host this.port

end ProxyTarget

end SingBox.Hysteria2
