import SingBox.Core.Radix
import SingBox.Library.HeadLines
import SingBox.Vless.Http.RoundTrip

namespace SingBox.Vless

open Library
open Async (Yields)
open Core (parseUnsigned parseUnsigned_toDigits splitOnce_append toAsciiLowercase)
open HeadLines (Field RequestHead ResponseHead encodeText fieldLine)
open HttpHead (crlf writeLines)
open Text (splitCrlf splitWhitespace trim)

-- What stands in the hash map after the fields.
def headersOf (fields : List Field) : Headers :=
  (fields.map fun field =>
    (toAsciiLowercase (String.ofList field.1), String.ofList (trim field.2))).reverse

theorem readHeaders_lines (invalid : String) {fields : List Field}
    (h : ∀ field ∈ fields, field.WellFormed) :
    readHeaders invalid (fields.map fieldLine) = .ok (headersOf fields) := by
  rw [readHeaders, foldlM_fields fun headers field hfield => ?_, List.append_nil, headersOf]
  have hname := (h field hfield).name
  rw [fieldLine, splitOnce_append hname.colon]
  show Except.ok ((toAsciiLowercase (String.ofList (trim field.1)), _) :: headers) = _
  rw [Text.trim_eq_self hname.word]

-- What a head is read as, with `tail` what has been read after it.
def requestRead (head : RequestHead) (tail : Bytes) : HttpRequest where
  method := String.ofList head.method
  path := String.ofList (head.target.takeWhile (· ≠ '?'))
  headers := headersOf head.fields
  tail := tail

def responseRead (head : ResponseHead) (tail : Bytes) : HttpResponse where
  status := head.status
  headers := headersOf head.fields
  tail := tail

theorem splitOn_headD (separator : Char) (text : List Char) :
    (text.splitOn separator).headD [] = text.takeWhile (· ≠ separator) := by
  have hfront : separator ∉ text.takeWhile (· ≠ separator) := fun hmem => by
    simpa using List.mem_takeWhile_imp hmem
  have hback : text.dropWhile (· ≠ separator) = [] ∨
      (text.dropWhile (· ≠ separator)).head? = some separator := by
    cases hdrop : text.dropWhile (· ≠ separator) with
    | nil => exact .inl rfl
    | cons char rest =>
        have hstop := List.head?_dropWhile_not (· ≠ separator) text
        rw [hdrop] at hstop
        exact .inr (congrArg some (by simpa using hstop))
  obtain ⟨others, hothers⟩ := Text.splitOn_front hfront hback
  rw [List.takeWhile_append_dropWhile] at hothers
  rw [hothers]
  rfl

theorem drop_head (bytes extra : Bytes) :
    (bytes ++ ((crlf ++ crlf) ++ extra)).drop (bytes.length + 4) = extra := by
  rw [← List.append_assoc]
  exact List.drop_left' (by rw [List.length_append]; rfl)

theorem parseHttpRequest_bytes (head : RequestHead) (extra : Bytes) :
    parseHttpRequest (head.bytes ++ ((crlf ++ crlf) ++ extra)) (head.bytes.length + 4) =
      .ok (requestRead head extra) := by
  obtain ⟨others, hwords⟩ := head.requestLine_words
  have htarget : (splitWhitespace head.requestLine).getD 1 [] = head.target := by rw [hwords]; rfl
  have hpath := splitOn_headD '?' head.target
  have hheaders := readHeaders_lines "invalid WebSocket HTTP header" head.fields_clean
  rw [parseHttpRequest, Nat.add_sub_cancel, List.take_left, drop_head, RequestHead.bytes,
    HeadLines.decode_bytes]
  show (Result.ofOption _ (splitCrlf (String.ofList _).toList).head? >>= fun _ => _) = _
  rw [String.toList_ofList, HeadLines.splitCrlf_text head.all_lines]
  show (readHeaders _ (head.fields.map fieldLine) >>= fun _ => _) = _
  rw [hheaders]
  show Except.ok (HttpRequest.mk (String.ofList ((splitWhitespace head.requestLine).getD 0 []))
    (String.ofList ((((splitWhitespace head.requestLine).getD 1 []).splitOn '?').headD [])) _ _) = _
  rw [htarget, hpath, hwords]
  rfl

theorem parseHttpResponse_bytes (head : ResponseHead) (extra : Bytes) :
    parseHttpResponse (head.bytes ++ ((crlf ++ crlf) ++ extra)) (head.bytes.length + 4) =
      .ok (responseRead head extra) := by
  have hstatus : parseUnsigned (2 ^ 16) head.code = .ok head.status :=
    parseUnsigned_toDigits (by have := head.status_digits; omega)
  have hheaders := readHeaders_lines "invalid VLESS WebSocket response header" head.fields_clean
  rw [parseHttpResponse, Nat.add_sub_cancel, List.take_left, drop_head, ResponseHead.bytes,
    HeadLines.decode_bytes]
  show (Result.ofOption _ ((splitCrlf (String.ofList _).toList).head?.bind _) >>= fun _ => _) = _
  rw [String.toList_ofList, HeadLines.splitCrlf_text head.all_lines]
  show (Result.ofOption _ (splitWhitespace head.statusLine)[1]? >>= fun _ => _) = _
  rw [head.statusLine_words]
  show (Result.withContext _ (parseUnsigned _ head.code) >>= fun _ => _) = _
  rw [hstatus]
  show (readHeaders _ (head.fields.map fieldLine) >>= fun _ => _) = _
  rw [hheaders]
  rfl

section

variable {σ : Type} [AsyncRead σ]

-- A function reads a head of this source: it comes to `value` of what it has read of what
-- follows, and the rest of that is still to be read.
def ReadsHead {α : Type} (run : Nat → Async σ α) (value : Bytes → α) (source : Source σ) (state : σ)
    (after : Bytes) : Prop :=
  ∃ tail next, Yields run state (value tail) next ∧ source.good next ∧ tail ++ source.rest next = after

variable {source : Source σ} {state : σ} {after : Bytes}

theorem readHead_bytes (tooLarge closed : String) {first : List Char} {others : List (List Char)}
    (hlines : ∀ line ∈ first :: others, HeadLines.Line line)
    (hsize : (HeadLines.bytes first others).length + 4 ≤ MAX_HTTP_HEADER_SIZE)
    (hgood : source.good state)
    (hrest : source.rest state = HeadLines.bytes first others ++ ((crlf ++ crlf) ++ after)) :
    ReadsHead (readHead tooLarge closed) (fun tail =>
      (HeadLines.bytes first others ++ ((crlf ++ crlf) ++ tail),
        (HeadLines.bytes first others).length + 4)) source state after := by
  have hencoded : ∀ line ∈ (first :: others).map encodeText, line ≠ [] ∧ HttpHead.CR ∉ line :=
    List.forall_mem_map.mpr fun line hline => (hlines line hline).encoded
  have hend := HeadLines.bytes_end first others
  have hlength : (writeLines ((first :: others).map encodeText)).length =
      (HeadLines.bytes first others).length + 4 := by
    rw [← hend, List.length_append]
    rfl
  rw [← List.append_assoc, hend] at hrest
  obtain ⟨tail, next, hread, hnext, hafter⟩ := readHead_yields tooLarge closed hencoded
    (List.cons_ne_nil _ _) (by omega) hgood hrest
  rw [hlength, ← hend, List.append_assoc] at hread
  exact ⟨tail, next, hread, hnext, hafter⟩

theorem readHttpRequest_bytes {head : RequestHead} (hsize : head.bytes.length + 4 ≤ MAX_HTTP_HEADER_SIZE)
    (hgood : source.good state) (hrest : source.rest state = head.bytes ++ ((crlf ++ crlf) ++ after)) :
    ReadsHead readHttpRequest (requestRead head) source state after := by
  obtain ⟨tail, next, hread, hnext, hafter⟩ := readHead_bytes
    "VLESS WebSocket HTTP headers are too large"
    "VLESS WebSocket connection closed before HTTP headers" head.all_lines hsize hgood hrest
  exact ⟨tail, next, hread.bind (.ofResult next (parseHttpRequest_bytes head tail)), hnext, hafter⟩

theorem readHttpResponse_bytes {head : ResponseHead} (hsize : head.bytes.length + 4 ≤ MAX_HTTP_HEADER_SIZE)
    (hgood : source.good state) (hrest : source.rest state = head.bytes ++ ((crlf ++ crlf) ++ after)) :
    ReadsHead readHttpResponse (responseRead head) source state after := by
  obtain ⟨tail, next, hread, hnext, hafter⟩ := readHead_bytes
    "VLESS WebSocket response headers are too large"
    "VLESS WebSocket server closed before response headers" head.all_lines hsize hgood hrest
  exact ⟨tail, next, hread.bind (.ofResult next (parseHttpResponse_bytes head tail)), hnext, hafter⟩

end

end SingBox.Vless
