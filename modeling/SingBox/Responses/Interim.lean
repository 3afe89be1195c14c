import SingBox.Cloudflared.ServeOrigin.Bodyless
import SingBox.Hysteria2.Masquerade.Proxy

namespace SingBox.Responses

open Library SingBox.Core
open Async (Yields)
open Cloudflared (ConnectRequest Exchange FitsLimit NO_CONTENT headersOf originResponse
  readHttpResponseHead readHttpResponseHead_segments)
open HeadLines (Field ResponseHead encodeText fieldLine)
open HttpHead (crlf)
open Hysteria2 (HeaderMap HttpCrate parseProxyBody parseProxyHead parseProxyResponse removeHopByHopHeaders)
open Text (trim)

-- Heads one behind another, and a body.
def responses (heads : List ResponseHead) (body : Bytes) : Bytes :=
  heads.flatMap (fun head => head.bytes ++ (crlf ++ crlf)) ++ body

theorem responses_cons (head : ResponseHead) (heads : List ResponseHead) (body : Bytes) :
    responses (head :: heads) body = head.bytes ++ ((crlf ++ crlf) ++ responses heads body) := by
  rw [responses, List.flatMap_cons, List.append_assoc, List.append_assoc, responses]

section

variable (http : HttpCrate)

-- What the crate admits of a head.
structure Admits (head : ResponseHead) : Prop where
  status : http.admitsStatus head.status = true
  names : ∀ field ∈ head.fields, (http.headerName (encodeText field.1)).isSome
  values : ∀ field ∈ head.fields, http.admitsValue (String.ofList (trim field.2)) = true

-- What `parse_proxy_response` returns.
def proxyResponse (status : Nat) (headers : HeaderMap) (isHead : Bool) (body : Bytes) :
    Hysteria2.Response :=
  let kept := removeHopByHopHeaders http headers
  { status, body, headers := if isHead then kept else kept.filter (·.1 ≠ "content-length") }

def proxyHeaders (fields : List Field) : HeaderMap :=
  fields.map fun field =>
    ((http.headerName (encodeText field.1)).getD "", String.ofList (trim field.2))

end

section

variable {http : HttpCrate}

theorem foldlM_appendHeader {fields : List Field} (hfields : ∀ field ∈ fields, field.WellFormed)
    (hnames : ∀ field ∈ fields, (http.headerName (encodeText field.1)).isSome)
    (hvalues : ∀ field ∈ fields, http.admitsValue (String.ofList (trim field.2)) = true)
    (headers : HeaderMap) :
    (fields.map fieldLine).foldlM (Hysteria2.appendHeader http) headers =
      .ok (headers ++ proxyHeaders http fields) := by
  induction fields generalizing headers with
  | nil => exact congrArg Except.ok (List.append_nil headers).symm
  | cons field fields ih =>
      obtain ⟨hfield, hfields⟩ := List.forall_mem_cons.mp hfields
      obtain ⟨hname, hnames⟩ := List.forall_mem_cons.mp hnames
      obtain ⟨hvalue, hvalues⟩ := List.forall_mem_cons.mp hvalues
      obtain ⟨lower, hlower⟩ := Option.isSome_iff_exists.mp hname
      have hfirst : Hysteria2.appendHeader http headers (fieldLine field) =
          .ok (headers ++ [(lower, String.ofList (trim field.2))]) := by
        rw [Hysteria2.appendHeader, fieldLine, splitOnce_append hfield.name.colon]
        show (Result.ofOption "invalid HTTP header name" (http.headerName (encodeText field.1)) >>= _) = _
        rw [hlower]
        show (Result.ensure (http.admitsValue (String.ofList (trim field.2))) _ >>= _) = _
        rw [hvalue]
        rfl
      rw [List.map_cons, List.foldlM_cons, hfirst]
      show (fields.map fieldLine).foldlM (Hysteria2.appendHeader http) _ = _
      rw [ih hfields hnames hvalues, proxyHeaders, proxyHeaders, List.map_cons, hlower, List.append_assoc]
      rfl

theorem parseProxyHead_bytes {head : ResponseHead} (hadmits : Admits http head) :
    parseProxyHead http head.bytes = .ok (head.status, proxyHeaders http head.fields) := by
  have hclean {text : List Char} (h : ∀ char ∈ text, Text.isWhitespace char = false) : ' ' ∉ text :=
    fun hmem => Bool.noConfusion ((h ' ' hmem).symm.trans (by rfl : Text.isWhitespace ' ' = true))
  have hversion : ' ' ∉ head.version := hclean head.version_word.2.2
  have hcode : ' ' ∉ head.code := hclean fun char hchar => (head.code_word char hchar).1
  obtain ⟨others, hothers⟩ := Text.splitOn_front hcode head.phrase_clean.1
  have hparts : head.statusLine.splitOn ' ' = head.version :: head.code :: others := by
    rw [ResponseHead.statusLine, Text.splitOn_cons hversion, hothers]
  have hknown : (head.version == "HTTP/1.0".toList || head.version == "HTTP/1.1".toList) = true := by
    obtain h | h := head.version_known <;> rw [h] <;> decide
  have hstatus : parseUnsigned (2 ^ 16) head.code = .ok head.status :=
    parseUnsigned_toDigits (by have := head.status_digits; omega)
  have hheaders := foldlM_appendHeader head.fields_clean hadmits.names hadmits.values []
  rw [parseProxyHead, ResponseHead.bytes, HeadLines.decode_bytes]
  show (Result.ofOption "proxy response status is missing"
    (Text.splitCrlf (String.ofList _).toList).head? >>= _) = _
  rw [String.toList_ofList, HeadLines.splitCrlf_text head.all_lines]
  show (Result.ensure (((head.statusLine.splitOn ' ').headD [] == _) || _) _ >>= fun _ =>
    Result.ofOption "proxy response status is missing" (head.statusLine.splitOn ' ')[1]? >>= _) = _
  rw [hparts]
  show (Result.ensure (head.version == _ || head.version == _) _ >>= _) = _
  rw [hknown]
  show (parseUnsigned (2 ^ 16) head.code >>= _) = _
  rw [hstatus]
  show (Result.ensure (http.admitsStatus head.status) _ >>= _) = _
  rw [hadmits.status]
  show (head.lines.foldlM (Hysteria2.appendHeader http) [] >>= _) = _
  rw [ResponseHead.lines, hheaders]
  rfl

end

-- The first head is taken for the response and everything behind it for its body, whatever its
-- status is.
theorem first_head_decides {ι ο ρ ω : Type} [AsyncRead ρ] {request : ConnectRequest}
    {interims others : List ResponseHead} {first final : ResponseHead}
    (hheads : interims ++ [final] = first :: others) (body : Bytes) :
    (∀ (requestOrigin : ConnectRequest → Nat → Async (Exchange ι ο ρ ω) Unit)
        (state sent : Exchange ι ο ρ ω) (reads : List Bytes) (last : ρ),
        Yields (requestOrigin request) state () sent → Segments 4096 sent.2.reader reads last →
        reads.flatten = responses (interims ++ [final]) body →
        ((∃ already unread next, Yields (originResponse requestOrigin request) state
            (first.status, headersOf first.fields, already) (sent.1, ⟨next, sent.2.writer⟩) ∧
          Segments 4096 next unread last ∧ already ++ unread.flatten = responses others body) ↔
          FitsLimit (first.bytes.length + 4) reads)) ∧
    ∀ (http : HttpCrate) (isHead : Bool), Admits http first →
      parseProxyResponse http (responses (interims ++ [final]) body) isHead =
        parseProxyBody http first.status (proxyHeaders http first.fields) isHead
            (responses others body) >>= fun taken =>
          pure (proxyResponse http first.status (proxyHeaders http first.fields) isHead taken) := by
  rw [hheads, responses_cons]
  constructor
  · intro requestOrigin state sent reads last hsent hreads hbytes
    obtain ⟨⟨already, unread, next, hread, hnext, hbody⟩, hfits⟩ | ⟨hnot, next, hfails⟩ :=
      readHttpResponseHead_segments (HeadLines.position_bytes first.all_lines _)
        (Cloudflared.parseResponseHead_bytes first) hreads hbytes
    · have hlift : Yields (fun polls => Exchange.onOrigin.lift (readHttpResponseHead polls)) sent
          (first.status, headersOf first.fields, already) (sent.1, ⟨next, sent.2.writer⟩) :=
        hread.lift Exchange.onOrigin
      exact iff_of_true ⟨already, unread, next, hsent.bind hlift, hnext, hbody⟩ hfits
    · refine iff_of_false ?_ hnot
      rintro ⟨already, unread, other, hyields, -⟩
      exact (hsent.bind_fails (hfails.lift Exchange.onOrigin)).not_yields _ _ hyields
  · intro http isHead hadmits
    have hend := HeadLines.position_bytes first.all_lines (responses others body)
    rw [List.append_assoc] at hend ⊢
    exact Hysteria2.parseProxyResponse_append http hend (parseProxyHead_bytes hadmits)

-- One interim head in front of a final one, in one read.
def EARLY_HINTS : ResponseHead where
  status := 103
  status_digits := by decide
  phrase_clean := HeadLines.phrase_none
  fields_clean := HeadLines.fields_none

def arrived (reads : List Bytes) : Exchange Pieces Collected Pieces Collected :=
  (⟨⟨[]⟩, ⟨[]⟩⟩, ⟨⟨reads⟩, ⟨[]⟩⟩)

def HINTED : List Bytes := [responses [EARLY_HINTS, NO_CONTENT] []]

theorem hinted_segments : Segments 4096 (⟨HINTED⟩ : Pieces) HINTED ⟨[]⟩ := .of_pieces (by decide)

theorem hinted_flatten : HINTED.flatten =
    EARLY_HINTS.bytes ++ ((crlf ++ crlf) ++ responses [NO_CONTENT] []) := by
  rw [HINTED, List.flatten_singleton, responses_cons]

theorem hinted_fits : FitsLimit (EARLY_HINTS.bytes.length + 4) HINTED :=
  ⟨HINTED, [], rfl, by decide, by decide⟩

theorem first_head_decides_early_hints :
    ∃ (already : Bytes) (unread : List Bytes) (next : Exchange Pieces Collected Pieces Collected),
      Yields (originResponse Cloudflared.sentBefore Cloudflared.HEAD_REQUEST) (arrived HINTED)
        (103, [], already) next ∧
      already ++ unread.flatten = responses [NO_CONTENT] [] := by
  have hsent := Cloudflared.sentBefore_yields (arrived HINTED)
  have hdecides := (first_head_decides (by rfl : [EARLY_HINTS] ++ [NO_CONTENT] = _ :: _) []).1
    Cloudflared.sentBefore _ _ _ _ hsent hinted_segments (List.append_nil _)
  obtain ⟨already, unread, next, hread, -, hbody⟩ := hdecides.mpr hinted_fits
  exact ⟨already, unread, _, hread, hbody⟩

-- A head of the kind that comes in front of the response.
def Interim (head : ResponseHead) : Prop := head.status < 200 ∧ head.status ≠ 101

theorem not_skips_interims : ¬∀ (interims : List ResponseHead) (final : ResponseHead) (body : Bytes),
    (∀ head ∈ interims, Interim head) → ∃ already next,
      Yields readHttpResponseHead (⟨[responses (interims ++ [final]) body]⟩ : Pieces)
        (final.status, headersOf final.fields, already) next ∧
      already ++ next.pieces.flatten = body := by
  intro hall
  have hinterim : ∀ head ∈ [EARLY_HINTS], Interim head := by
    intro head hhead
    obtain rfl := List.mem_singleton.mp hhead
    exact ⟨by decide, by decide⟩
  obtain ⟨already, next, hskipped, -⟩ := hall [EARLY_HINTS] NO_CONTENT [] hinterim
  obtain ⟨⟨taken, unread, other, hread, -⟩, -⟩ | ⟨hnot, -⟩ := readHttpResponseHead_segments
    (HeadLines.position_bytes EARLY_HINTS.all_lines _) (Cloudflared.parseResponseHead_bytes EARLY_HINTS)
    hinted_segments hinted_flatten
  · have hstatus : 103 = 204 := congrArg Prod.fst (hread.unique hskipped).1
    cases hstatus
  · exact hnot hinted_fits

end SingBox.Responses
