import SingBox.Cloudflared.ResponseBody
import SingBox.Library.HeadLines
import SingBox.Library.Relay
import SingBox.Library.Segments

namespace SingBox.Cloudflared

open Library SingBox.Core
open Async (Fails LoopFails LoopYields Yields)
open HeadLines (Field ResponseHead fieldLine)
open HttpHead (crlf)
open Relay (upTo)
open Text (trim)

-- The front of the body is behind a prefix of it, unless the prefix is too long.
theorem append_upTo_iff (limit : Option Nat) (front back : Bytes) :
    front ++ upTo (limit.map (· - front.length)) back = upTo limit (front ++ back) ↔
      ∀ most, limit = some most → front.length ≤ most := by
  cases limit with
  | none => simp [upTo]
  | some most =>
      simp only [upTo, Option.map_some, Option.some.injEq, forall_eq', List.take_append]
      constructor
      · intro heq
        have hlength := congrArg List.length heq
        simp only [List.length_append, List.length_take] at hlength
        omega
      · intro hle
        rw [List.take_of_length_le hle]

section

variable {ρ ω : Type} [AsyncRead ρ] [AsyncWrite ω] (source : Source ρ) (sink : Sink ω)
  (headers : ResponseHeaders) (alreadyRead : Bytes) (relay : Relay ρ ω)

theorem copyResponseBody_writes (hends : source.Ends) (hchunked : isChunked headers = false)
    (hreader : source.good relay.reader) (hwriter : sink.good relay.writer) :
    ∃ next, Yields (copyResponseBody alreadyRead headers) relay () next ∧
      Relay.Good source sink (sink.taken relay.writer ++ (alreadyRead ++
        upTo ((contentLength headers).map (· - alreadyRead.length)) (source.rest relay.reader)))
        next := by
  have hgood : Relay.Good source sink (sink.taken relay.writer) relay := ⟨hreader, hwriter, rfl⟩
  obtain ⟨mid, hwrite, hmid, hsame⟩ := hgood.writeAll alreadyRead
  obtain ⟨copied, next, hcopy, hnext⟩ :=
    hmid.copy_upTo hends ((contentLength headers).map (· - alreadyRead.length))
  have hrest : Yields (fun polls => Relay.copy
      ((contentLength headers).map (· - alreadyRead.length)) polls >>= fun _ => pure ()) mid () next :=
    hcopy.bind (Yields.pure next ())
  obtain ⟨enough, hyields⟩ : Yields (fun polls => Async.writeAll alreadyRead polls >>= fun _ =>
      Relay.copy ((contentLength headers).map (· - alreadyRead.length)) polls >>= fun _ => pure ())
      relay () next := hwrite.bind hrest
  rw [hsame, List.append_assoc] at hnext
  refine ⟨next, ⟨enough, fun polls hpolls => ?_⟩, hnext⟩
  rw [copyResponseBody, hchunked]
  exact hyields polls hpolls

-- What is written is the body, of all that comes behind the head, however much of that was
-- read together with the head.
theorem forwards_body_iff (hends : source.Ends) (hchunked : isChunked headers = false)
    (hreader : source.good relay.reader) (hwriter : sink.good relay.writer) :
    (∃ next, Yields (copyResponseBody alreadyRead headers) relay () next ∧
      sink.taken next.writer = sink.taken relay.writer ++
        upTo (contentLength headers) (alreadyRead ++ source.rest relay.reader)) ↔
    ∀ length, contentLength headers = some length → alreadyRead.length ≤ length := by
  rw [← append_upTo_iff]
  obtain ⟨next, hyields, hgood⟩ :=
    copyResponseBody_writes source sink headers alreadyRead relay hends hchunked hreader hwriter
  have htaken := hgood.taken
  constructor
  · rintro ⟨other, hother, hbody⟩
    obtain ⟨-, rfl⟩ := hyields.unique hother
    exact List.append_cancel_left (htaken.symm.trans hbody)
  · intro hbody
    exact ⟨next, hyields, by rw [htaken, hbody]⟩

end

def LENGTH_THREE : ResponseHeaders := [("content-length", "3")]

-- A byte that was read with the head, and three more that come in two pieces.
def PIECES : Relay Pieces Collected := ⟨⟨[[0x62], [0x63, 0x64]]⟩, ⟨[]⟩⟩

theorem forwards_body_iff_pieces :
    ∃ next, Yields (copyResponseBody [0x61] LENGTH_THREE) PIECES () next ∧
      next.writer.bytes = [0x61, 0x62, 0x63] := by
  have hlength : contentLength LENGTH_THREE = some 3 := by decide
  have hpieces : ∀ piece ∈ PIECES.reader.pieces, piece ≠ [] := by decide
  obtain ⟨next, hyields, htaken⟩ := (forwards_body_iff Pieces.source Collected.sink LENGTH_THREE [0x61]
    PIECES Pieces.ends (by decide) hpieces trivial).mpr fun length h => by
      obtain rfl := Option.some.inj (hlength.symm.trans h)
      decide
  refine ⟨next, hyields, ?_⟩
  rw [hlength] at htaken
  exact htaken

-- The two bytes that came with the head are more than the length says.
theorem forwards_too_much :
    ¬∃ next, Yields (copyResponseBody [0x61, 0x62] [("content-length", "1")])
      (⟨⟨[]⟩, ⟨[]⟩⟩ : Relay Pieces Collected) () next ∧ next.writer.bytes = [0x61] := by
  rintro ⟨next, hyields, hbytes⟩
  obtain ⟨other, hother, hgood⟩ := copyResponseBody_writes Pieces.source Collected.sink
    [("content-length", "1")] [0x61, 0x62] ⟨⟨[]⟩, ⟨[]⟩⟩ Pieces.ends (by decide)
    (fun piece hpiece => absurd hpiece List.not_mem_nil) trivial
  obtain ⟨-, rfl⟩ := hyields.unique hother
  have hlength : contentLength [("content-length", "1")] = some 1 := by decide
  have htaken := hgood.taken
  rw [hlength] at htaken
  cases hbytes.symm.trans htaken

def headersOf (fields : List Field) : ResponseHeaders :=
  fields.map fun field => (String.ofList field.1, String.ofList (trim field.2))

theorem parseResponseHeader_line {field : Field} (h : field.WellFormed) :
    parseResponseHeader (fieldLine field) = .ok (String.ofList field.1, String.ofList (trim field.2)) := by
  rw [parseResponseHeader, fieldLine, splitOnce_append h.name.colon]
  show Except.ok (String.ofList (trim field.1), String.ofList (trim field.2)) = _
  rw [Text.trim_eq_self h.name.word]

theorem mapM_parseResponseHeader {fields : List Field} (h : ∀ field ∈ fields, field.WellFormed) :
    (fields.map fieldLine).mapM parseResponseHeader = .ok (headersOf fields) := by
  induction fields with
  | nil => rfl
  | cons field fields ih =>
      obtain ⟨hfield, hfields⟩ := List.forall_mem_cons.mp h
      rw [List.map_cons, List.mapM_cons, parseResponseHeader_line hfield, ih hfields]
      rfl

-- A well-formed head is taken for what it says.
theorem parseResponseHead_bytes (head : ResponseHead) :
    parseResponseHead head.bytes = .ok (head.status, headersOf head.fields) := by
  have hlines : head.lines.filter (· ≠ []) = head.lines := by
    refine List.filter_eq_self.mpr fun line hline => ?_
    exact decide_eq_true (head.all_lines line (List.mem_cons_of_mem _ hline)).some
  have hstatus : parseUnsigned (2 ^ 16) head.code = .ok head.status :=
    parseUnsigned_toDigits (by have := head.status_digits; omega)
  rw [parseResponseHead, ResponseHead.bytes, HeadLines.decode_bytes]
  show (Result.ofOption "origin response has no status line"
    (Text.splitCrlf (String.ofList _).toList).head? >>= _) = _
  rw [String.toList_ofList, HeadLines.splitCrlf_text head.all_lines]
  show (Result.ofOption "origin response has no status code"
    (Text.splitWhitespace head.statusLine)[1]? >>= _) = _
  rw [head.statusLine_words]
  show (Result.withContext "parse origin response status" (parseUnsigned (2 ^ 16) head.code) >>= _) = _
  rw [hstatus]
  show ((head.lines.filter (· ≠ [])).mapM parseResponseHeader >>= _) = _
  rw [hlines, ResponseHead.lines, mapM_parseResponseHeader head.fields_clean]
  rfl

-- Some of the reads bring so many bytes, and no more than the limit.
def FitsLimit (size : Nat) (reads : List Bytes) : Prop :=
  ∃ front back, reads = front ++ back ∧ size ≤ front.flatten.length ∧
    front.flatten.length ≤ MAX_HTTP_RESPONSE_HEADERS

-- With what has been read before.
def FitsFrom (already size : Nat) (reads : List Bytes) : Prop :=
  ∃ front back, reads = front ++ back ∧ size ≤ already + front.flatten.length ∧
    already + front.flatten.length ≤ MAX_HTTP_RESPONSE_HEADERS

theorem fitsFrom_zero {size : Nat} {reads : List Bytes} : FitsFrom 0 size reads ↔ FitsLimit size reads := by
  simp only [FitsFrom, FitsLimit, Nat.zero_add]

theorem fitsFrom_cons {already size : Nat} (h : already < size) (chunk : Bytes) (chunks : List Bytes) :
    FitsFrom already size (chunk :: chunks) ↔
      already + chunk.length ≤ MAX_HTTP_RESPONSE_HEADERS ∧
        (size ≤ already + chunk.length ∨ FitsFrom (already + chunk.length) size chunks) := by
  constructor
  · rintro ⟨front, back, hsplit, hwhole, hfits⟩
    cases front with
    | nil =>
        rw [List.flatten_nil, List.length_nil] at hwhole
        omega
    | cons first front =>
        obtain ⟨rfl, rfl⟩ := List.cons.inj hsplit
        rw [List.flatten_cons, List.length_append, ← Nat.add_assoc] at hwhole hfits
        exact ⟨by omega, .inr ⟨front, back, rfl, hwhole, hfits⟩⟩
  · rintro ⟨hfits, hwhole | ⟨front, back, rfl, hwhole, hlimit⟩⟩
    · refine ⟨[chunk], chunks, rfl, ?_, ?_⟩
      · rwa [List.flatten_singleton]
      · rwa [List.flatten_singleton]
    · refine ⟨chunk :: front, back, rfl, ?_, ?_⟩
      · rwa [List.flatten_cons, List.length_append, ← Nat.add_assoc]
      · rwa [List.flatten_cons, List.length_append, ← Nat.add_assoc]

section

variable {ρ : Type} [AsyncRead ρ] {head body data chunk : Bytes} {state mid last : ρ}
  {reads : List Bytes}

def TOO_LARGE : List String := [s!"origin response headers exceed {MAX_HTTP_RESPONSE_HEADERS} bytes"]

theorem readHeadRound_large (hread : Yields (Async.read 4096) state chunk mid) (hchunk : chunk ≠ [])
    (hsize : MAX_HTTP_RESPONSE_HEADERS < (data ++ chunk).length) :
    Fails (readHeadRound data) state TOO_LARGE mid := by
  refine hread.bind_fails ?_
  simp only [if_neg hchunk, if_pos hsize]
  exact .ofResult mid rfl

-- The loop over the reads that are left. The limit is looked at before the end of the head is,
-- so that what comes with it counts.
theorem readHead_segments
    (hend : position (crlf ++ crlf) (head ++ ((crlf ++ crlf) ++ body)) = some head.length)
    (hreads : Segments 4096 state reads last)
    (hbytes : data ++ reads.flatten = head ++ ((crlf ++ crlf) ++ body))
    (hdata : data.length < head.length + 4) :
    (∃ already unread next, LoopYields readHeadRound data state
        (head ++ ((crlf ++ crlf) ++ already), head.length) next ∧
      Segments 4096 next unread last ∧ already ++ unread.flatten = body ∧
      FitsFrom data.length (head.length + 4) reads) ∨
    (¬FitsFrom data.length (head.length + 4) reads ∧
      ∃ next, LoopFails readHeadRound data state TOO_LARGE next) := by
  induction hreads generalizing data with
  | nil =>
      have htotal := congrArg List.length hbytes
      simp only [List.flatten_nil, List.append_nil, List.length_append, crlf, List.length_cons,
        List.length_nil] at htotal
      omega
  | @cons state mid last chunk chunks hread hchunk hrest ih =>
      rw [fitsFrom_cons hdata, ← List.length_append]
      rw [List.flatten_cons, ← List.append_assoc] at hbytes
      have hhead : head ++ (crlf ++ crlf) <+: head ++ ((crlf ++ crlf) ++ body) :=
        ⟨body, List.append_assoc _ _ _⟩
      have hsofar : data ++ chunk <+: head ++ ((crlf ++ crlf) ++ body) := ⟨chunks.flatten, hbytes⟩
      have hlength : (head ++ (crlf ++ crlf)).length = head.length + 4 := List.length_append
      by_cases hsize : (data ++ chunk).length ≤ MAX_HTTP_RESPONSE_HEADERS
      · by_cases hwhole : head.length + 4 ≤ (data ++ chunk).length
        · -- the head is there, with the front of the body
          obtain ⟨already, halready⟩ : head ++ (crlf ++ crlf) <+: data ++ chunk :=
            List.prefix_of_prefix_length_le hhead hsofar (by rw [hlength]; exact hwhole)
          rw [List.append_assoc] at halready
          have hfound : position (crlf ++ crlf) (data ++ chunk) = some head.length := by
            rw [← halready]
            exact position_again (by decide) hend already
          have hbody : already ++ chunks.flatten = body := by
            rw [← halready] at hbytes
            simpa using hbytes
          have hround := readHeadRound_found hread hchunk hsize hfound
          rw [← halready] at hround
          exact .inl ⟨already, chunks, mid, .done hround, hrest, hbody, hsize, .inl hwhole⟩
        · have hnone : position (crlf ++ crlf) (data ++ chunk) = none := by
            obtain ⟨left, hleft⟩ : data ++ chunk <+: head ++ (crlf ++ crlf) :=
              List.prefix_of_prefix_length_le hsofar hhead (by rw [hlength]; omega)
            refine position_part (by decide) hend hleft ?_
            rintro rfl
            have htotal := congrArg List.length hleft
            rw [List.append_nil, hlength] at htotal
            exact hwhole (Nat.le_of_eq htotal.symm)
          have hround := readHeadRound_again hread hchunk hsize hnone
          obtain ⟨already, unread, next, hloop, hnext, hbody, hfits⟩ | ⟨hnot, next, hloop⟩ :=
            ih hbytes (by omega)
          · exact .inl ⟨already, unread, next, .again hround hloop, hnext, hbody, hsize, .inr hfits⟩
          · refine .inr ⟨fun h => ?_, next, .again hround hloop⟩
            exact h.2.elim hwhole hnot
      · refine .inr ⟨fun h => hsize h.1, mid, .here ?_⟩
        exact readHeadRound_large hread hchunk (Nat.not_le.mp hsize)

theorem readHttpResponseHead_segments {status : Nat} {headers : ResponseHeaders}
    (hend : position (crlf ++ crlf) (head ++ ((crlf ++ crlf) ++ body)) = some head.length)
    (hhead : parseResponseHead head = .ok (status, headers)) (hreads : Segments 4096 state reads last)
    (hbytes : reads.flatten = head ++ ((crlf ++ crlf) ++ body)) :
    ((∃ already unread next, Yields readHttpResponseHead state (status, headers, already) next ∧
        Segments 4096 next unread last ∧ already ++ unread.flatten = body) ∧
      FitsLimit (head.length + 4) reads) ∨
    (¬FitsLimit (head.length + 4) reads ∧ ∃ next, Fails readHttpResponseHead state TOO_LARGE next) := by
  have hnone : ([] : Bytes).length < head.length + 4 := Nat.succ_pos _
  rw [← fitsFrom_zero]
  obtain ⟨already, unread, next, hloop, hnext, hbody, hfits⟩ | ⟨hnot, next, hloop⟩ :=
    readHead_segments hend hreads hbytes hnone
  · refine .inl ⟨⟨already, unread, next, hloop.yields.bind ?_, hnext, hbody⟩, hfits⟩
    have hdrop : (head ++ ((crlf ++ crlf) ++ already)).drop (head.length + 4) = already := by
      rw [List.drop_length_add_append]
      rfl
    simp only [List.take_left, hdrop]
    exact (Yields.ofResult next hhead).bind (.pure next _)
  · exact .inr ⟨hnot, next, hloop.fails.bind _⟩

end

-- A head is read, whatever comes behind it, where the read that ends it stays below the limit.
theorem reads_head_iff {ρ : Type} [AsyncRead ρ] {state last : ρ} {reads : List Bytes}
    (head : ResponseHead) (body : Bytes) (hreads : Segments 4096 state reads last)
    (hbytes : reads.flatten = head.bytes ++ ((crlf ++ crlf) ++ body)) :
    (∃ already unread next,
        Yields readHttpResponseHead state (head.status, headersOf head.fields, already) next ∧
        Segments 4096 next unread last ∧ already ++ unread.flatten = body) ↔
      FitsLimit (head.bytes.length + 4) reads := by
  obtain ⟨hread, hfits⟩ | ⟨hnot, next, hfails⟩ := readHttpResponseHead_segments
    (HeadLines.position_bytes head.all_lines body) (parseResponseHead_bytes head) hreads hbytes
  · exact iff_of_true hread hfits
  · refine iff_of_false ?_ hnot
    rintro ⟨already, unread, other, hyields, -⟩
    exact hfails.not_yields _ _ hyields

-- A head without fields, in two reads that part its end.
def NO_CONTENT : ResponseHead where
  status := 204
  status_digits := by decide
  phrase_clean := HeadLines.phrase_none
  fields_clean := HeadLines.fields_none

def PARTED : List Bytes :=
  [Utf8.encode "HTTP/1.1 204\r", Utf8.encode "\n\r\nbo", Utf8.encode "dy"]

theorem reads_head_parted : ∃ already unread next,
    Yields readHttpResponseHead (⟨PARTED⟩ : Pieces) (204, [], already) next ∧
      Segments 4096 next unread ⟨[]⟩ ∧ already ++ unread.flatten = Utf8.encode "body" := by
  have hreads : Segments 4096 (⟨PARTED⟩ : Pieces) PARTED ⟨[]⟩ := .of_pieces (by decide)
  have hfits : FitsLimit (NO_CONTENT.bytes.length + 4) PARTED :=
    ⟨PARTED.take 2, PARTED.drop 2, rfl, by decide, by decide⟩
  exact (reads_head_iff NO_CONTENT (Utf8.encode "body") hreads (by decide)).mpr hfits

def FRONT : Bytes := Utf8.encode "HTTP/1.1 200 OK\r\nA:"

def longHead (count : Nat) : ResponseHead where
  status := 200
  phrase := " OK".toList
  fields := [(['A'], List.replicate count 'a')]
  status_digits := by decide
  phrase_clean := by decide
  fields_clean field hfield := by
    obtain rfl := List.mem_singleton.mp hfield
    have hname : HeadLines.Name ['A'] :=
      ⟨List.cons_ne_nil _ _, List.all_iff_forall_prop.mp (by decide), by decide⟩
    exact ⟨hname, fun hmem => absurd (List.eq_of_mem_replicate hmem) (by decide)⟩

theorem longHead_bytes (count : Nat) : (longHead count).bytes = FRONT ++ List.replicate count 97 := by
  have hvalue : HeadLines.encodeText (List.replicate count 'a') = List.replicate count 97 := by
    rw [HeadLines.encodeText_eq, List.flatMap_replicate]
    exact List.flatten_replicate_singleton
  have hline : (longHead count).lines = [['A', ':'] ++ List.replicate count 'a'] := rfl
  have hfront : HeadLines.encodeText (longHead count).statusLine ++
      (crlf ++ HeadLines.encodeText ['A', ':']) = FRONT := by
    show HeadLines.encodeText (longHead 0).statusLine ++ _ = _
    decide
  rw [ResponseHead.bytes, HeadLines.bytes_eq, hline, ← hfront, List.map_singleton,
    HeadLines.encodeText_append, hvalue]
  simp only [List.flatMap_cons, List.flatMap_nil, List.append_nil, List.append_assoc]

-- Reads that are as large as they can be, behind a short one.
def shifted (rounds room rest : Nat) : List Bytes :=
  FRONT :: (List.replicate rounds (List.replicate room 97) ++
    [(crlf ++ crlf) ++ List.replicate rest 98])

theorem shifted_flatten (rounds room rest : Nat) : (shifted rounds room rest).flatten =
    (longHead (rounds * room)).bytes ++ ((crlf ++ crlf) ++ List.replicate rest 98) := by
  rw [longHead_bytes, shifted, List.flatten_cons, List.flatten_append,
    List.flatten_replicate_replicate, List.flatten_singleton]
  simp only [List.append_assoc]

-- Without the last of them the head is not there, and with it the limit is passed.
theorem not_fitsLimit_shifted {rounds room rest : Nat}
    (hlarge : MAX_HTTP_RESPONSE_HEADERS < FRONT.length + rounds * room + 4 + rest) :
    ¬FitsLimit ((longHead (rounds * room)).bytes.length + 4) (shifted rounds room rest) := by
  rintro ⟨front, back, hsplit, hwhole, hfits⟩
  have htotal := congrArg (fun reads => reads.flatten.length) hsplit
  simp only [shifted_flatten, longHead_bytes, List.flatten_append, List.length_append,
    List.length_replicate, crlf, List.length_cons, List.length_nil] at htotal hwhole
  cases back using List.reverseRecOn with
  | nil =>
      rw [List.flatten_nil, List.length_nil] at htotal
      omega
  | append_singleton others last =>
      have hlast : last = (crlf ++ crlf) ++ List.replicate rest 98 := by
        rw [shifted, ← List.cons_append, ← List.append_assoc] at hsplit
        exact (List.cons.inj (List.append_inj' hsplit rfl).2).1.symm
      have hlength : last.length = 4 + rest := by
        rw [hlast, List.length_append, List.length_replicate]
        rfl
      rw [List.flatten_append, List.flatten_singleton, List.length_append] at htotal
      omega

theorem shifted_pieces {rounds room rest : Nat} (hroom : 0 < room) (hlast : 4 + rest ≤ room) :
    ∀ piece ∈ shifted rounds room rest, piece ≠ [] ∧ piece.length ≤ max FRONT.length room := by
  intro piece hpiece
  rw [shifted, List.mem_cons, List.mem_append, List.mem_singleton] at hpiece
  obtain rfl | hpiece | rfl := hpiece
  · exact ⟨by decide, Nat.le_max_left _ _⟩
  · obtain rfl := List.eq_of_mem_replicate hpiece
    refine ⟨fun hnil => ?_, ?_⟩
    · have hlength := congrArg List.length hnil
      rw [List.length_replicate, List.length_nil] at hlength
      omega
    · rw [List.length_replicate]
      exact Nat.le_max_right _ _
  · refine ⟨List.append_ne_nil_of_left_ne_nil (by decide) _, ?_⟩
    rw [List.length_append, List.length_replicate]
    exact Nat.le_trans hlast (Nat.le_max_right _ _)

theorem not_reads_head : ¬∀ (head : ResponseHead) (body : Bytes) (reads : List Bytes),
    head.bytes.length + 4 ≤ MAX_HTTP_RESPONSE_HEADERS →
    (∀ piece ∈ reads, piece ≠ [] ∧ piece.length ≤ 4096) →
    reads.flatten = head.bytes ++ ((crlf ++ crlf) ++ body) →
    ∃ already next,
      Yields readHttpResponseHead (⟨reads⟩ : Pieces) (head.status, headersOf head.fields, already) next ∧
        already ++ next.pieces.flatten = body := by
  intro hall
  have hfront : FRONT.length = 19 := by decide
  have hsize : (longHead (15 * 4096)).bytes.length = FRONT.length + 15 * 4096 := by
    rw [longHead_bytes, List.length_append, List.length_replicate]
  have hpieces : ∀ piece ∈ shifted 15 4096 4092, piece ≠ [] ∧ piece.length ≤ 4096 := by
    intro piece hpiece
    have hlength := shifted_pieces (by decide) (by decide) piece hpiece
    rwa [hfront] at hlength
  obtain ⟨-, hfits⟩ | ⟨-, other, hfails⟩ := readHttpResponseHead_segments
    (HeadLines.position_bytes (longHead (15 * 4096)).all_lines _)
    (parseResponseHead_bytes (longHead (15 * 4096))) (.of_pieces hpieces) (shifted_flatten 15 4096 4092)
  · exact not_fitsLimit_shifted (by rw [hfront]; decide) hfits
  · obtain ⟨already, next, hyields, -⟩ := hall (longHead (15 * 4096)) _ (shifted 15 4096 4092)
      (by rw [hsize, hfront]; decide) hpieces (shifted_flatten 15 4096 4092)
    exact hfails.not_yields _ _ hyields

end SingBox.Cloudflared
