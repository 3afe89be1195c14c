import SingBox.Cloudflared.OriginRequest
import SingBox.Cloudflared.Supervisor
import SingBox.Core.Radix
import SingBox.Library.BufReader

namespace SingBox.Cloudflared

open Library SingBox.Core
open Async (LoopYields Yields)
open HttpHead (crlf)
open Text (splitCrlf splitWhitespace)
open Utf8 (decode)

def MAX_HTTP_RESPONSE_HEADERS : Nat := 64 * 1024

abbrev ResponseHeaders := List (String × String)

section

variable {ρ : Type} [AsyncRead ρ]

-- A round of the loop of `read_http_response_head`, with what has been read before.
def readHeadRound (data : Bytes) (polls : Nat) : Async ρ (Pass Bytes (Bytes × Nat)) := do
  let buffer ← Async.read 4096 polls
  if buffer = [] then throw ["origin closed before HTTP response headers"]
  else if MAX_HTTP_RESPONSE_HEADERS < (data ++ buffer).length then
    throw [s!"origin response headers exceed {MAX_HTTP_RESPONSE_HEADERS} bytes"]
  else
    match position (crlf ++ crlf) (data ++ buffer) with
    | some last => return .done (data ++ buffer, last)
    | none => return .again (data ++ buffer)

def parseResponseHeader (line : List Char) : Result (String × String) := do
  let (name, value) ← Result.ofOption "origin response header is malformed" (splitOnce ':' line)
  return (String.ofList (trim name), String.ofList (trim value))

def parseResponseHead (head : Bytes) : Result (Nat × ResponseHeaders) := do
  let head ← Result.ofOption "origin response headers are not UTF-8" (decode head)
  let lines := splitCrlf head.toList
  let statusLine ← Result.ofOption "origin response has no status line" lines.head?
  let status ←
    Result.ofOption "origin response has no status code" (splitWhitespace statusLine)[1]?
  let status ← Result.withContext "parse origin response status" (parseUnsigned (2 ^ 16) status)
  let headers ← (lines.tail.filter (· ≠ [])).mapM parseResponseHeader
  return (status, headers)

def readHttpResponseHead (polls : Nat) : Async ρ (Nat × ResponseHeaders × Bytes) := do
  let (data, last) ← Async.loop readHeadRound [] polls
  let (status, headers) ← Async.ofResult (parseResponseHead (data.take last))
  return (status, headers, data.drop (last + 4))

end

def isChunked (headers : ResponseHeaders) : Bool :=
  headers.any fun (name, value) =>
    eqIgnoreAsciiCase name "transfer-encoding" &&
      (value.toList.splitOn ',').any fun encoding =>
        eqIgnoreAsciiCase (String.ofList (trim encoding)) "chunked"

def contentLength (headers : ResponseHeaders) : Option Nat :=
  (headers.find? fun (name, _) => eqIgnoreAsciiCase name "content-length").bind fun (_, value) =>
    (parseUnsigned (2 ^ 64) value.toList).toOption

def readSize (sizeLine : String) : Result Nat := do
  let size ← Result.ofOption "origin chunk size is missing CRLF" (stripSuffix "\r\n" sizeLine)
  Result.withContext "parse origin chunk size"
    (fromStrRadix 16 (2 ^ 64) (trim ((size.splitOn ';').headD [])))

section

variable {ρ ω : Type} [AsyncRead ρ] [AsyncWrite ω]

-- The loop over the trailers, up to the empty line.
def trailerRound (_ : Unit) (polls : Nat) : Async (Relay (BufReader ρ) ω) (Pass Unit Unit) := do
  let trailer ← BufReader.readLine polls
  Async.ensure (trailer != "") "origin closed before chunk trailers"
  if trailer = "\r\n" then return .done () else return .again ()

def chunkRound (_ : Unit) (polls : Nat) : Async (Relay (BufReader ρ) ω) (Pass Unit Unit) := do
  let sizeLine ← BufReader.readLine polls
  Async.ensure (sizeLine != "") "origin closed before chunk size"
  let size ← Async.ofResult (readSize sizeLine)
  if size = 0 then
    Async.loop trailerRound () polls
    return .done ()
  else
    let copied ← Relay.copy (some size) polls
    Async.ensure (copied = size) "origin closed within chunk body"
    let terminator ← Async.readExact 2 polls
    Async.ensure (terminator == crlf) "origin chunk is missing CRLF"
    return .again ()

-- What the reader has read ahead is dropped with it.
def copyChunkedResponseBody (alreadyRead : Bytes) (polls : Nat) : Async (Relay ρ ω) Unit :=
  fun relay =>
    let reader : BufReader (Chain ρ) := { inner := { first := alreadyRead, second := relay.reader } }
    (Async.loop chunkRound () polls { reader, writer := relay.writer }).map fun (result, next) =>
      (result, { reader := next.reader.inner.second, writer := next.writer })

def copyResponseBody (alreadyRead : Bytes) (headers : ResponseHeaders) (polls : Nat) :
    Async (Relay ρ ω) Unit :=
  if isChunked headers then copyChunkedResponseBody alreadyRead polls
  else do
    Async.writeAll alreadyRead polls
    -- `saturating_sub`
    let remaining := (contentLength headers).map fun length => length - alreadyRead.length
    let _ ← Relay.copy remaining polls
    return ()

end

section

variable {ρ : Type} [AsyncRead ρ] {source : Source ρ} {data chunk : Bytes} {state mid : ρ}

-- A round that finds the end of the head, and one that does not.
theorem readHeadRound_found {last : Nat} (hread : Yields (Async.read 4096) state chunk mid)
    (hchunk : chunk ≠ []) (hsize : (data ++ chunk).length ≤ MAX_HTTP_RESPONSE_HEADERS)
    (hend : position (crlf ++ crlf) (data ++ chunk) = some last) :
    Yields (readHeadRound data) state (.done (data ++ chunk, last)) mid := by
  refine hread.bind ?_
  simp only [if_neg hchunk, if_neg (Nat.not_lt.mpr hsize), hend]
  exact .pure mid _

theorem readHeadRound_again (hread : Yields (Async.read 4096) state chunk mid) (hchunk : chunk ≠ [])
    (hsize : (data ++ chunk).length ≤ MAX_HTTP_RESPONSE_HEADERS)
    (hend : position (crlf ++ crlf) (data ++ chunk) = none) :
    Yields (readHeadRound data) state (.again (data ++ chunk)) mid := by
  refine hread.bind ?_
  simp only [if_neg hchunk, if_neg (Nat.not_lt.mpr hsize), hend]
  exact .pure mid _

-- The invariant of the loop: what has been read is a part of the head and its end, and what is
-- left of them comes next.
theorem readHead_loop {head body : Bytes}
    (hend : position (crlf ++ crlf) (head ++ ((crlf ++ crlf) ++ body)) = some head.length)
    (hsize : head.length + 3 + 4096 ≤ MAX_HTTP_RESPONSE_HEADERS) {left : Bytes}
    (hsplit : data ++ left = head ++ (crlf ++ crlf)) (hleft : left ≠ []) (hgood : source.good state)
    (hrest : source.rest state = left ++ body) :
    ∃ already next, LoopYields readHeadRound data state
        (head ++ ((crlf ++ crlf) ++ already), head.length) next ∧
      source.good next ∧ already ++ source.rest next = body := by
  induction hless : left.length using Nat.strongRecOn generalizing data left state with
  | _ length ih =>
      have hpos := List.length_pos_iff.mpr hleft
      have hlength := congrArg List.length hsplit
      have hend4 : (crlf ++ crlf).length = 4 := rfl
      rw [List.length_append, List.length_append, hend4] at hlength
      obtain ⟨chunk, mid, hread, hmid, hchunk, hroom, hnext⟩ := source.read state 4096 hgood (by omega)
        (by rw [hrest]; exact List.append_ne_nil_of_left_ne_nil hleft body)
      have hfits : (data ++ chunk).length ≤ MAX_HTTP_RESPONSE_HEADERS := by
        rw [List.length_append]
        omega
      rw [hrest] at hnext
      by_cases hreached : left.length ≤ chunk.length
      · obtain ⟨already, rfl⟩ : left <+: chunk :=
          List.prefix_of_prefix_length_le ⟨body, rfl⟩ ⟨source.rest mid, hnext.symm⟩ hreached
        have hfound : data ++ (left ++ already) = head ++ ((crlf ++ crlf) ++ already) := by
          rw [← List.append_assoc, hsplit, List.append_assoc]
        rw [List.append_assoc] at hnext
        have hposition : position (crlf ++ crlf) (data ++ (left ++ already)) = some head.length := by
          rw [hfound]
          exact position_again (by decide) hend already
        have hdone := readHeadRound_found hread hchunk hfits hposition
        exact ⟨already, mid, .done (hfound ▸ hdone), hmid, (List.append_cancel_left hnext).symm⟩
      · obtain ⟨others, rfl⟩ : chunk <+: left :=
          List.prefix_of_prefix_length_le ⟨source.rest mid, hnext.symm⟩ ⟨body, rfl⟩ (by omega)
        have hothers : others ≠ [] := by
          rintro rfl
          exact hreached (by rw [List.append_nil])
        rw [← List.append_assoc] at hsplit
        rw [List.append_assoc] at hnext
        have hagain := readHeadRound_again hread hchunk hfits
          (position_part (by decide) hend hsplit hothers)
        have hchunkPos := List.length_pos_iff.mpr hchunk
        obtain ⟨already, next, hloop, hafter, hbody⟩ := ih others.length
          (by rw [← hless, List.length_append]; omega) hsplit hothers hmid
          (List.append_cancel_left hnext).symm rfl
        exact ⟨already, next, .again hagain hloop, hafter, hbody⟩

-- What has been read behind the head and what is left are the body, however the response comes.
theorem readHttpResponseHead_yields {head body : Bytes} {status : Nat} {headers : ResponseHeaders}
    (hend : position (crlf ++ crlf) (head ++ ((crlf ++ crlf) ++ body)) = some head.length)
    (hsize : head.length + 3 + 4096 ≤ MAX_HTTP_RESPONSE_HEADERS)
    (hhead : parseResponseHead head = .ok (status, headers)) (hgood : source.good state)
    (hrest : source.rest state = head ++ ((crlf ++ crlf) ++ body)) :
    ∃ already next, Yields readHttpResponseHead state (status, headers, already) next ∧
      source.good next ∧ already ++ source.rest next = body := by
  have hne : head ++ (crlf ++ crlf) ≠ [] := List.append_ne_nil_of_right_ne_nil head (by decide)
  rw [← List.append_assoc] at hrest
  obtain ⟨already, next, hloop, hnext, hbody⟩ := readHead_loop hend hsize (List.nil_append _) hne hgood hrest
  refine ⟨already, next, ?_, hnext, hbody⟩
  refine hloop.yields.bind ?_
  have hdrop : (head ++ ((crlf ++ crlf) ++ already)).drop (head.length + 4) = already := by
    rw [List.drop_length_add_append]
    rfl
  simp only [List.take_left, hdrop]
  exact (Yields.ofResult next hhead).bind (.pure next _)

end

end SingBox.Cloudflared
