import SingBox.Core.Radix
import SingBox.Core.RemoteRuleSet
import SingBox.Library.Chunked
import SingBox.Library.Text

namespace SingBox.Cli

open Library
open Chunked (Take)
open Core (RuleSetFetchResult fromStrRadix parseUnsigned splitOnce toAsciiLowercase)
open HttpHead (crlf)
open Text (splitCrlf splitWhitespace trim)
open Utf8 (decode encode)

def MAX_RESPONSE_SIZE : Nat := 128 * 1024 * 1024
def MAX_REDIRECTS : Nat := 5
def PKG_VERSION : String := "1.1.0"

-- The two parts of a pass through the loop of `decode_chunked`.
def readSize (line : Bytes) : Result Nat := do
  let line ← Result.ofOption "invalid utf-8" (decode line)
  fromStrRadix 16 (2 ^ 64) ((line.toList.splitOn ';').headD [])

def takeChunk : Take := fun size remaining output => do
  if size = 0 then return .done output
  else
    let last ← Checked.add size 2
    let complete ←
      if last ≤ remaining.length then (· == crlf) <$> Checked.slice remaining size last
      else pure false
    Checked.ensure complete "truncated chunked rule-set response"
    -- `saturating_add`
    Checked.ensure (min (output.length + size) (2 ^ 64 - 1) ≤ MAX_RESPONSE_SIZE)
      "rule-set HTTP response exceeds size limit"
    let data ← Checked.slice remaining 0 size
    let remaining ← Checked.slice remaining last remaining.length
    return .again (remaining, output ++ data)

def FitsResponse (size : Nat) : Prop := size ≤ MAX_RESPONSE_SIZE

theorem takeChunk_takes : Chunked.Takes FitsResponse takeChunk := by
  refine ⟨fun rest output => rfl, fun {size} rest output hlarge => ?_,
    fun {data output} rest hdata hsmall hfits => ?_, fun {size} remaining output hsize hsmall => ?_⟩
  · rw [takeChunk, if_neg (by omega), Checked.add_of_le hlarge]
    rfl
  · obtain ⟨hlength, hmid, hbehind⟩ := Chunked.slice_data data crlf rest rfl
    have hlimit : decide (min (output.length + data.length) (2 ^ 64 - 1) ≤ MAX_RESPONSE_SIZE) = true :=
      decide_eq_true ((Nat.min_le_left _ _).trans hfits)
    rw [takeChunk, if_neg (List.length_pos_iff.mpr hdata).ne', Checked.add_of_lt hsmall]
    simp only [pure_bind, if_pos hlength, hmid, map_pure, beq_self_eq_true, Checked.ensure_true, hlimit,
      Checked.slice_front, hbehind]
  · rw [takeChunk, if_neg hsize, Checked.add_of_lt hsmall]
    by_cases hlength : size + 2 ≤ remaining.length
    · obtain ⟨data, mid, rest, rfl, rfl, hmid⟩ := Chunked.split_data hlength
      obtain ⟨-, hslice, -⟩ := Chunked.slice_data data mid rest hmid
      simp only [pure_bind, if_pos hlength, hslice, map_pure]
      by_cases hend : mid = crlf
      · by_cases hfits : output.length + data.length ≤ MAX_RESPONSE_SIZE
        · exact .inl ⟨data, rest, hend ▸ rfl, rfl, hfits⟩
        · have hlimit : ¬min (output.length + data.length) (2 ^ 64 - 1) ≤ MAX_RESPONSE_SIZE := by
            rw [MAX_RESPONSE_SIZE] at hfits ⊢
            omega
          refine .inr ⟨["rule-set HTTP response exceeds size limit"], ?_⟩
          simp only [hend, beq_self_eq_true, Checked.ensure_true, pure_bind, decide_eq_false hlimit,
            Checked.ensure_false, Checked.error_bind]
      · refine .inr ⟨["truncated chunked rule-set response"], ?_⟩
        simp only [beq_eq_false_iff_ne.mpr hend, Checked.ensure_false, Checked.error_bind]
    · refine .inr ⟨["truncated chunked rule-set response"], ?_⟩
      simp only [pure_bind, if_neg hlength, Checked.ensure_false, Checked.error_bind]

theorem decoder : Chunked.Decoder (fun line => (readSize line).toOption) FitsResponse
    (Chunked.body "invalid chunked rule-set response" readSize takeChunk) :=
  takeChunk_takes.decoder _ _

def decodeChunked (input : Bytes) : Checked Bytes := decoder.run input []

-- A `HashMap<String, String>`, what was inserted last in front.
abbrev Headers := List (String × String)

structure HttpResponse where
  status : Nat
  headers : Headers
  body : Bytes
deriving DecidableEq

namespace HttpResponse

def header (this : HttpResponse) (name : String) : Option String :=
  this.headers.lookup (toAsciiLowercase name)

def insertHeader (headers : Headers) (line : List Char) : Result Headers := do
  let (name, value) ←
    Result.ofOption s!"invalid HTTP header: {String.ofList line}" (splitOnce ':' line)
  return (toAsciiLowercase (String.ofList (trim name)), String.ofList (trim value)) :: headers

-- The part of `parse` that looks at the head, and the part that looks at the body.
def parseHead (head : Bytes) : Result (Nat × Headers) := do
  let headerText ← Result.ofOption "invalid rule-set HTTP headers" (decode head)
  let lines := splitCrlf headerText.toList
  let statusLine ← Result.ofOption "missing HTTP status line" lines.head?
  let statusParts := splitWhitespace statusLine
  let version ← Result.ofOption "missing HTTP version" statusParts[0]?
  Result.ensure ("HTTP/1.".toList.isPrefixOf version) "unsupported HTTP response version"
  let status ← Result.ofOption "missing HTTP response status" statusParts[1]?
  let status ← parseUnsigned (2 ^ 16) status
  let headers ← lines.tail.foldlM insertHeader []
  return (status, headers)

def isChunked (headers : Headers) : Bool :=
  (headers.lookup "transfer-encoding").any fun value =>
    (value.toList.splitOn ',').any fun item => trim item == "chunked".toList

def parseBody (headers : Headers) (headRequest : Bool) (body : Bytes) : Checked Bytes :=
  if headRequest then pure []
  else if isChunked headers then decodeChunked body
  else
    match headers.lookup "content-length" with
    | some length => do
        let length ← Checked.ofResult (parseUnsigned (2 ^ 64) length.toList)
        Checked.ensure (length ≤ body.length) "truncated rule-set HTTP response body"
        Checked.slice body 0 length
    | none => pure body

def parse (bytes : Bytes) (headRequest : Bool) : Checked HttpResponse := do
  let headerEnd ← Checked.ofOption "invalid rule-set HTTP response" (position (crlf ++ crlf) bytes)
  Checked.ensure (headerEnd ≤ 64 * 1024) "rule-set HTTP headers are too large"
  let (status, headers) ← Checked.ofResult (parseHead (bytes.take headerEnd))
  let body ← parseBody headers headRequest (bytes.drop (headerEnd + 4))
  return { status, headers, body }

-- A response in its two parts.
theorem parse_append {head body : Bytes} {headRequest : Bool} {status : Nat} {headers : Headers}
    (hend : position (crlf ++ crlf) (head ++ (crlf ++ (crlf ++ body))) = some head.length)
    (hsize : head.length ≤ 64 * 1024) (hhead : parseHead head = .ok (status, headers)) :
    parse (head ++ (crlf ++ (crlf ++ body))) headRequest =
      parseBody headers headRequest body >>= fun body => pure { status, headers, body } := by
  have hbody : (head ++ (crlf ++ (crlf ++ body))).drop (head.length + 4) = body := by
    rw [List.drop_length_add_append]
    rfl
  rw [parse, hend, Checked.ofOption_some, pure_bind, decide_eq_true hsize, Checked.ensure_true, pure_bind,
    List.take_left, hhead, Checked.ofResult_ok, pure_bind, hbody]

end HttpResponse

structure ParsedUrl where
  https : Bool
  scheme : String
  authority : String
  host : String
  port : Nat
  hostHeader : String
  target : String

def parseAuthority (authority : List Char) (defaultPort : Nat) : Result (List Char × Nat) := do
  match authority with
  | '[' :: bracketed => do
      let (host, suffix) ←
        Result.ofOption "invalid bracketed IPv6 URL host" (splitOnce ']' bracketed)
      let port ←
        match suffix with
        | [] => .ok defaultPort
        | ':' :: port => parseUnsigned (2 ^ 16) port
        | _ => Result.bail "invalid bracketed IPv6 URL authority"
      Result.ensure (!host.isEmpty) "rule-set URL host is empty"
      return (host, port)
  | authority => do
      Result.ensure (authority.count ':' ≤ 1) "IPv6 rule-set URL hosts must use brackets"
      match splitOnce ':' authority with
      | some (host, port) => do
          Result.ensure (!host.isEmpty) "rule-set URL host is empty"
          return (host, ← parseUnsigned (2 ^ 16) port)
      | none => return (authority, defaultPort)

def authorityHost (host : List Char) : String :=
  if host.contains ':' then s!"[{String.ofList host}]" else String.ofList host

-- Whether a text has one of the characters.
def containsAny (chars text : List Char) : Bool := text.any fun char => chars.contains char

namespace ParsedUrl

def parseAs (https : Bool) (scheme : String) (defaultPort : Nat) (rest : List Char) :
    Result ParsedUrl := do
  let delimits (char : Char) : Bool := ['/', '?', '#'].contains char
  let authority := rest.takeWhile fun char => !delimits char
  Result.ensure (!authority.isEmpty) "rule-set URL host is empty"
  Result.ensure (!authority.contains '@') "rule-set URL userinfo is not supported"
  let (host, port) ← parseAuthority authority defaultPort
  let target := (rest.dropWhile fun char => !delimits char).takeWhile (· ≠ '#')
  let target := if target.isEmpty then ['/'] else if target.head? = some '?' then '/' :: target else target
  Result.ensure (!containsAny ['\r', '\n', ' '] target) "invalid character in rule-set URL"
  let hostHeader := if port = defaultPort then authorityHost host else s!"{authorityHost host}:{port}"
  return { https, scheme, authority := String.ofList authority, host := String.ofList host, port,
           hostHeader, target := String.ofList target }

def parse (value : String) : Result ParsedUrl :=
  let text := value.toList
  if "https://".toList.isPrefixOf text then parseAs true "https" 443 (text.drop 8)
  else if "http://".toList.isPrefixOf text then parseAs false "http" 80 (text.drop 7)
  else Result.bail "rule-set URL must use http:// or https://"

def resolve (this : ParsedUrl) (location : String) : Result String := do
  let text := location.toList
  Result.ensure (!containsAny ['\r', '\n'] text) "invalid rule-set redirect location"
  if "http://".toList.isPrefixOf text || "https://".toList.isPrefixOf text then return location
  else if "//".toList.isPrefixOf text then
    return s!"{this.scheme}://{String.ofList (text.drop 2)}"
  else if text.head? = some '/' then return s!"{this.scheme}://{this.authority}{location}"
  else
    let base := (this.target.toList.splitOn '?').headD []
    -- `rsplit_once`
    let directory :=
      match splitOnce '/' base.reverse with
      | some (_, directory) => if directory.isEmpty then ['/'] else directory.reverse
      | none => ['/']
    let directory := String.ofList (directory.rdropWhile (· = '/'))
    return s!"{this.scheme}://{this.authority}{directory}/{location}"

end ParsedUrl

section

-- What comes on a connection to the server of a URL, up to its end, once a request has been
-- written to it.
variable (exchange : ParsedUrl → Bytes → Result Bytes)

def asciiUppercase (byte : UInt8) : Bool := 65 ≤ byte && byte ≤ 90

def asciiAlphanumeric (byte : UInt8) : Bool :=
  48 ≤ byte && byte ≤ 57 || asciiUppercase byte || 97 ≤ byte && byte ≤ 122

def admitsHeader (header : String × String) : Bool :=
  header.1 != "" && (encode header.1).all (fun byte => asciiAlphanumeric byte || byte == 45) &&
    !containsAny ['\r', '\n'] header.2.toList

def hasHeader (headers : List (String × String)) (name : String) : Bool :=
  headers.any fun header => toAsciiLowercase header.1 == name

def requestHead (url : ParsedUrl) (method : String) (headers : List (String × String))
    (body : Bytes) : String :=
  let first := s!"{method} {url.target} HTTP/1.1\r\nHost: {url.hostHeader}\r\nConnection: close\r\n"
  let agent := if hasHeader headers "user-agent" then "" else s!"User-Agent: sing-box-rs/{PKG_VERSION}\r\n"
  let lines := String.join (headers.map fun header => s!"{header.1}: {header.2}\r\n")
  let length :=
    if (!body.isEmpty || ["POST", "PUT", "PATCH"].contains method) && !hasHeader headers "content-length" then
      s!"Content-Length: {body.length}\r\n"
    else ""
  first ++ agent ++ lines ++ length ++ "\r\n"

def HttpClient.request (url : ParsedUrl) (method : String) (headers : List (String × String))
    (body : Bytes) : Checked HttpResponse := do
  Checked.ensure (method != "" && (encode method).all fun byte => asciiUppercase byte || byte == 45)
    "invalid HTTP method"
  Checked.ensure (headers.all admitsHeader) "invalid HTTP header"
  let sent ← Checked.ofResult (exchange url (encode (requestHead url method headers body) ++ body))
  let bytes := sent.take (MAX_RESPONSE_SIZE + 1)
  Checked.ensure (bytes.length ≤ MAX_RESPONSE_SIZE) "rule-set HTTP response exceeds size limit"
  HttpResponse.parse bytes (method == "HEAD")

def conditionalHeaders (etag : Option String) : List (String × String) :=
  (etag.toList.map fun etag => ("If-None-Match", etag)) ++
    [("Accept", "application/octet-stream, application/json")]

-- The loop of `fetch_inner`, with the redirects that are left.
def fetchFrom (etag : Option String) : Nat → String → Checked RuleSetFetchResult
  | left, currentUrl => do
      let parsed ← Checked.ofResult (ParsedUrl.parse currentUrl)
      Checked.ensure (etag.all fun etag => !containsAny ['\r', '\n'] etag.toList)
        "invalid ETag returned by rule-set server"
      let response ← HttpClient.request exchange parsed "GET" (conditionalHeaders etag) []
      if response.status = 200 then return .modified response.body (response.header "etag")
      else if response.status = 304 then return .notModified
      else if [301, 302, 303, 307, 308].contains response.status then
        match left with
        | 0 => Checked.ofResult (Result.bail "too many rule-set redirects")
        | left + 1 => do
            let location ←
              Checked.ofOption "rule-set redirect is missing Location" (response.header "location")
            let currentUrl ← Checked.ofResult (parsed.resolve location)
            fetchFrom etag left currentUrl
      else Checked.ofResult (Result.bail s!"rule-set server returned HTTP {response.status}")

def fetchInner (url : String) (etag : Option String) : Checked RuleSetFetchResult :=
  fetchFrom exchange etag MAX_REDIRECTS url

end

end SingBox.Cli
