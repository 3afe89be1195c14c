import SingBox.Core.Rule
import SingBox.Library.Async
import SingBox.Library.HttpHead
import SingBox.Library.Text

namespace SingBox.Vless

open Library
open Core (parseUnsigned splitOnce toAsciiLowercase)
open HttpHead (headEnd)
open Text (splitCrlf splitWhitespace trim)
open Utf8 (encode)

def MAX_HTTP_HEADER_SIZE : Nat := 16 * 1024

-- A `HashMap<String, String>`, what was inserted last in front.
abbrev Headers := List (String × String)

structure HttpRequest where
  method : String
  path : String
  headers : Headers
  tail : Bytes

def HttpRequest.header (this : HttpRequest) (name : String) : Option String :=
  this.headers.lookup (toAsciiLowercase name)

structure HttpResponse where
  status : Nat
  headers : Headers
  tail : Bytes

-- The lines after the first one.
def readHeaders (invalid : String) (lines : List (List Char)) : Result Headers :=
  lines.foldlM (fun headers line => do
    let (name, value) ← Result.ofOption invalid (splitOnce ':' line)
    return (toAsciiLowercase (String.ofList (trim name)), String.ofList (trim value)) :: headers) []

def parseHttpRequest (data : Bytes) (position : Nat) : Result HttpRequest := do
  let headerText ← Result.ofOption "invalid utf-8" (Utf8.decode (data.take (position - 4)))
  let lines := splitCrlf headerText.toList
  let requestLine ← Result.ofOption "missing WebSocket request line" lines.head?
  let requestParts := splitWhitespace requestLine
  let target := requestParts.getD 1 []
  let headers ← readHeaders "invalid WebSocket HTTP header" lines.tail
  return {
    method := String.ofList (requestParts.getD 0 [])
    path := String.ofList ((target.splitOn '?').headD [])
    headers
    tail := data.drop position }

def parseHttpResponse (data : Bytes) (position : Nat) : Result HttpResponse := do
  let headerText ← Result.ofOption "invalid utf-8" (Utf8.decode (data.take (position - 4)))
  let lines := splitCrlf headerText.toList
  let status ← Result.ofOption "VLESS WebSocket response has no status code"
    (lines.head?.bind fun line => (splitWhitespace line)[1]?)
  let status ← Result.withContext "parse VLESS WebSocket response status"
    (parseUnsigned (2 ^ 16) status)
  let headers ← readHeaders "invalid VLESS WebSocket response header" lines.tail
  return { status, headers, tail := data.drop position }

section

variable {σ : Type} [AsyncRead σ]

-- The loop of `read_http_request` and `read_http_response`: what has been read, and where
-- the head ends in it. Every round takes a byte at least, so the size bounds their number.
def readHeadFrom (tooLarge closed : String) (polls : Nat) : Nat → Bytes → Async σ (Bytes × Nat)
  | 0, _ => Async.pending
  | rounds + 1, data =>
      if data.length > MAX_HTTP_HEADER_SIZE then throw [tooLarge]
      else do
        let chunk ← Async.read 1024 polls
        if chunk = [] then throw [closed]
        else
          match headEnd (data ++ chunk) with
          | some position => return (data ++ chunk, position)
          | none => readHeadFrom tooLarge closed polls rounds (data ++ chunk)

def readHead (tooLarge closed : String) (polls : Nat) : Async σ (Bytes × Nat) :=
  readHeadFrom tooLarge closed polls (MAX_HTTP_HEADER_SIZE + 2) []

def readHttpRequest (polls : Nat) : Async σ HttpRequest := do
  let (data, position) ← readHead "VLESS WebSocket HTTP headers are too large"
    "VLESS WebSocket connection closed before HTTP headers" polls
  Async.ofResult (parseHttpRequest data position)

def readHttpResponse (polls : Nat) : Async σ HttpResponse := do
  let (data, position) ← readHead "VLESS WebSocket response headers are too large"
    "VLESS WebSocket server closed before response headers" polls
  Async.ofResult (parseHttpResponse data position)

end

-- `str::eq_ignore_ascii_case`
def eqIgnoreAsciiCase (left right : String) : Bool := toAsciiLowercase left == toAsciiLowercase right

def ensureWebsocketRequest (request : HttpRequest) : Result Unit := do
  Result.ensure ((request.header "upgrade").any (eqIgnoreAsciiCase · "websocket"))
    "missing WebSocket upgrade header"
  Result.ensure ((request.header "connection").any fun value =>
    (value.toList.splitOn ',').any fun token =>
      eqIgnoreAsciiCase (String.ofList (trim token)) "upgrade")
    "missing WebSocket connection header"
  Result.ensure ((request.header "sec-websocket-key").getD "" != "")
    "missing Sec-WebSocket-Key header"

def writeHttpError {σ : Type} [AsyncWrite σ] (status : Nat) (reason : String) (polls : Nat) :
    Async σ Unit :=
  Async.writeAll (encode
    s!"HTTP/1.1 {status} {reason}\r\nContent-Length: 0\r\nConnection: close\r\n\r\n") polls

end SingBox.Vless
