import SingBox.Vless.Http
import SingBox.Vless.Transport

namespace SingBox.Vless

open Library
open Async (Yields)
open Core (parseUnsigned splitOnce splitOnce_append toAsciiLowercase)
open HttpHead (CR headEnd writeLines)
open Text (crlf splitCrlf splitWhitespace trim)
open Utf8 (encode)
open WebSocketStream (trickle)

def encodeLine (line : List Char) : Bytes := encode (String.ofList line)

-- The text of a head.
def headText (first : List Char) (others : List (List Char)) : List Char :=
  first ++ others.flatMap (crlf ++ ·) ++ (crlf ++ crlf)

theorem encodeLine_eq (line : List Char) : encodeLine line = line.flatMap String.utf8EncodeChar := by
  rw [encodeLine, Utf8.encode_eq_flatMap, String.toList_ofList]

theorem encodeLine_append (front back : List Char) :
    encodeLine (front ++ back) = encodeLine front ++ encodeLine back := by
  simp only [encodeLine_eq, List.flatMap_append]

theorem encodeLine_crlf : encodeLine crlf = HttpHead.crlf := by
  rw [encodeLine_eq]
  rfl

theorem encodeLine_headText (first : List Char) (others : List (List Char)) :
    encodeLine (headText first others) = writeLines ((first :: others).map encodeLine) := by
  have hothers : encodeLine (others.flatMap (crlf ++ ·)) =
      (others.map encodeLine).flatMap (HttpHead.crlf ++ ·) := by
    induction others with
    | nil => rfl
    | cons line others ih =>
        rw [List.flatMap_cons, encodeLine_append, encodeLine_append, encodeLine_crlf, ih]
        rfl
  rw [headText, encodeLine_append, encodeLine_append, encodeLine_append, hothers, encodeLine_crlf,
    writeLines, List.map_cons, HttpHead.flatMap_ends, ← List.append_assoc]

-- A line that can stand in a head.
def Line (line : List Char) : Prop := line ≠ [] ∧ '\r' ∉ line

theorem Line.encodeLine {line : List Char} (h : Line line) :
    encodeLine line ≠ [] ∧ CR ∉ encodeLine line := HttpHead.encode_line h.1 h.2

section

variable {σ : Type} [AsyncRead σ] {source : Source σ}

-- A round that finds the end of the head, and one that does not.
theorem readHeadFrom_found {tooLarge closed : String} {rounds position : Nat} {data chunk : Bytes}
    {state mid : σ} (hsmall : data.length ≤ MAX_HTTP_HEADER_SIZE)
    (hread : Yields (Async.read 1024) state chunk mid) (hchunk : chunk ≠ [])
    (hend : headEnd (data ++ chunk) = some position) :
    Yields (fun polls => readHeadFrom tooLarge closed polls (rounds + 1) data) state
      (data ++ chunk, position) mid := by
  simp only [readHeadFrom, if_neg (Nat.not_lt.mpr hsmall)]
  refine hread.bind ?_
  simp only [if_neg hchunk, hend]
  exact .pure mid _

theorem readHeadFrom_again {tooLarge closed : String} {rounds : Nat} {data chunk : Bytes}
    {state mid next : σ} {value : Bytes × Nat} (hsmall : data.length ≤ MAX_HTTP_HEADER_SIZE)
    (hread : Yields (Async.read 1024) state chunk mid) (hchunk : chunk ≠ [])
    (hend : headEnd (data ++ chunk) = none)
    (hafter : Yields (fun polls => readHeadFrom tooLarge closed polls rounds (data ++ chunk)) mid
      value next) :
    Yields (fun polls => readHeadFrom tooLarge closed polls (rounds + 1) data) state value next := by
  simp only [readHeadFrom, if_neg (Nat.not_lt.mpr hsmall)]
  refine hread.bind ?_
  simp only [if_neg hchunk, hend]
  exact hafter

-- The invariant of the loop: what has been read is a part of the head, and what is left of the
-- head comes next.
theorem readHeadFrom_yields (tooLarge closed : String) {lines : List Bytes}
    (hlines : ∀ line ∈ lines, line ≠ [] ∧ CR ∉ line) (hne : lines ≠ [])
    (hsize : (writeLines lines).length ≤ MAX_HTTP_HEADER_SIZE + 1) (tail : Bytes) (rounds : Nat)
    {data left : Bytes} (hdata : writeLines lines = data ++ left) (hleft : left ≠ [])
    (hrounds : left.length ≤ rounds) {state : σ} (hgood : source.good state)
    (hrest : source.rest state = left ++ tail) :
    ∃ extra next, Yields (fun polls => readHeadFrom tooLarge closed polls rounds data) state
        (writeLines lines ++ extra, (writeLines lines).length) next ∧
      source.good next ∧ extra ++ source.rest next = tail := by
  induction rounds generalizing data left state with
  | zero => exact absurd (List.eq_nil_of_length_eq_zero (Nat.le_zero.mp hrounds)) hleft
  | succ rounds ih =>
      have hpos := List.length_pos_iff.mpr hleft
      have hlength := congrArg List.length hdata
      rw [List.length_append] at hlength
      have hsmall : data.length ≤ MAX_HTTP_HEADER_SIZE := by omega
      obtain ⟨chunk, mid, hread, hmid, hchunk, -, hnext⟩ := source.read state 1024 hgood
        (by omega) (by rw [hrest]; exact List.append_ne_nil_of_left_ne_nil hleft tail)
      rw [hrest] at hnext
      by_cases hreached : left.length ≤ chunk.length
      · -- the chunk goes up to the end of the head, or past it
        obtain ⟨extra, rfl⟩ : left <+: chunk :=
          List.prefix_of_prefix_length_le ⟨tail, rfl⟩ ⟨source.rest mid, hnext.symm⟩ hreached
        have hend := HttpHead.headEnd_write hlines hne extra
        have hfound : writeLines lines ++ extra = data ++ (left ++ extra) := by
          rw [hdata, List.append_assoc]
        rw [hfound] at hend
        rw [List.append_assoc] at hnext
        exact ⟨extra, mid, hfound ▸ readHeadFrom_found hsmall hread hchunk hend, hmid,
          (List.append_cancel_left hnext).symm⟩
      · obtain ⟨others, rfl⟩ : chunk <+: left :=
          List.prefix_of_prefix_length_le ⟨source.rest mid, hnext.symm⟩ ⟨tail, rfl⟩ (by omega)
        have hothers : others ≠ [] := by
          rintro rfl
          exact hreached (by rw [List.append_nil])
        have hless := List.length_pos_iff.mpr hchunk
        rw [List.length_append] at hrounds
        rw [← List.append_assoc] at hdata
        rw [List.append_assoc] at hnext
        have hend := HttpHead.headEnd_part hlines hdata hothers
        obtain ⟨extra, next, hafter, hafterGood, htail⟩ := ih hdata hothers (by omega) hmid
          (List.append_cancel_left hnext).symm
        exact ⟨extra, next, readHeadFrom_again hsmall hread hchunk hend hafter, hafterGood, htail⟩

-- However the bytes arrive, a head of this size is read, with some of what follows it.
theorem readHead_yields (tooLarge closed : String) {lines : List Bytes}
    (hlines : ∀ line ∈ lines, line ≠ [] ∧ CR ∉ line) (hne : lines ≠ [])
    (hsize : (writeLines lines).length ≤ MAX_HTTP_HEADER_SIZE + 1) {tail : Bytes} {state : σ}
    (hgood : source.good state) (hrest : source.rest state = writeLines lines ++ tail) :
    ∃ extra next, Yields (readHead tooLarge closed) state
        (writeLines lines ++ extra, (writeLines lines).length) next ∧
      source.good next ∧ extra ++ source.rest next = tail := by
  have hstart : writeLines lines = [] ++ writeLines lines := rfl
  have hhead : writeLines lines ≠ [] := by simp [writeLines, HttpHead.crlf]
  exact readHeadFrom_yields tooLarge closed hlines hne hsize tail (MAX_HTTP_HEADER_SIZE + 2) hstart
    hhead (by omega) hgood hrest

end

-- A header as it is sent, its name and its value.
def fieldText (field : List Char × List Char) : List Char := field.1 ++ ':' :: ' ' :: field.2

def entryOf (field : List Char × List Char) : String × String :=
  (toAsciiLowercase (String.ofList (trim field.1)), String.ofList (trim field.2))

theorem foldlM_fields {fields : List (List Char × List Char)}
    {step : Headers → List Char → Result Headers} {line : List Char × List Char → List Char}
    {entry : List Char × List Char → String × String}
    (hstep : ∀ headers, ∀ field ∈ fields, step headers (line field) = .ok (entry field :: headers))
    (headers : Headers) :
    (fields.map line).foldlM step headers = .ok ((fields.map entry).reverse ++ headers) := by
  induction fields generalizing headers with
  | nil => rfl
  | cons field fields ih =>
      rw [List.map_cons, List.foldlM_cons, hstep headers field List.mem_cons_self]
      show (fields.map line).foldlM step (entry field :: headers) = _
      rw [ih fun headers other hother => hstep headers other (List.mem_cons_of_mem field hother)]
      simp

theorem readHeaders_fields (invalid : String) {fields : List (List Char × List Char)}
    (h : ∀ field ∈ fields, ':' ∉ field.1) :
    readHeaders invalid (fields.map fieldText) = .ok (fields.map entryOf).reverse := by
  rw [readHeaders, foldlM_fields fun headers field hfield => ?_, List.append_nil]
  rw [fieldText, splitOnce_append (h field hfield)]
  rfl

-- A head whose first line is not taken apart yet.
structure Readable (first : List Char) (fields : List (List Char × List Char)) : Prop where
  first : Line first
  names : ∀ field ∈ fields, ':' ∉ field.1
  fields : ∀ field ∈ fields, '\r' ∉ field.1 ∧ '\r' ∉ field.2

theorem Readable.lines {first : List Char} {fields : List (List Char × List Char)}
    (h : Readable first fields) : ∀ line ∈ first :: fields.map fieldText, Line line := by
  refine List.forall_mem_cons.mpr ⟨h.first, fun line hline => ?_⟩
  obtain ⟨field, hfield, rfl⟩ := List.mem_map.mp hline
  obtain ⟨hname, hvalue⟩ := h.fields field hfield
  refine ⟨by simp [fieldText], ?_⟩
  simp only [fieldText, List.mem_append, List.mem_cons, not_or]
  exact ⟨hname, by decide, by decide, hvalue⟩

theorem Readable.encoded {first : List Char} {fields : List (List Char × List Char)}
    (h : Readable first fields) :
    ∀ line ∈ (first :: fields.map fieldText).map encodeLine, line ≠ [] ∧ CR ∉ line :=
  List.forall_mem_map.mpr fun text htext => (h.lines text htext).encodeLine

def headBytes (first : List Char) (fields : List (List Char × List Char)) : Bytes :=
  encodeLine (headText first (fields.map fieldText))

theorem headBytes_eq (first : List Char) (fields : List (List Char × List Char)) :
    headBytes first fields = writeLines ((first :: fields.map fieldText).map encodeLine) :=
  encodeLine_headText first (fields.map fieldText)

-- What the front of the text of the head is taken for.
theorem decode_head {first : List Char} {fields : List (List Char × List Char)} (extra : Bytes) :
    Utf8.decode ((headBytes first fields ++ extra).take ((headBytes first fields).length - 4)) =
      some (String.ofList (first ++ (fields.map fieldText).flatMap (crlf ++ ·))) := by
  have hbytes : headBytes first fields =
      encodeLine (first ++ (fields.map fieldText).flatMap (crlf ++ ·)) ++
        (HttpHead.crlf ++ HttpHead.crlf) := by
    rw [headBytes, headText, encodeLine_append, encodeLine_append crlf, encodeLine_crlf]
  have hlength : (headBytes first fields).length - 4 =
      (encodeLine (first ++ (fields.map fieldText).flatMap (crlf ++ ·))).length := by
    rw [hbytes, List.length_append]
    rfl
  rw [hlength, hbytes, List.append_assoc, List.take_left]
  exact Utf8.decode_encode _

theorem splitCrlf_head {first : List Char} {fields : List (List Char × List Char)}
    (h : Readable first fields) :
    splitCrlf (String.ofList (first ++ (fields.map fieldText).flatMap (crlf ++ ·))).toList =
      first :: fields.map fieldText := by
  rw [String.toList_ofList]
  exact Text.splitCrlf_join fun line hline => (h.lines line hline).2

-- What a head is read as, with `tail` what has been read after it.
def requestOf (first : List Char) (fields : List (List Char × List Char)) (tail : Bytes) :
    HttpRequest where
  method := String.ofList ((splitWhitespace first).getD 0 [])
  path := String.ofList ((((splitWhitespace first).getD 1 []).splitOn '?').headD [])
  headers := (fields.map entryOf).reverse
  tail := tail

theorem parseHttpRequest_head {first : List Char} {fields : List (List Char × List Char)}
    (h : Readable first fields) (extra : Bytes) :
    parseHttpRequest (headBytes first fields ++ extra) (headBytes first fields).length =
      .ok (requestOf first fields extra) := by
  rw [parseHttpRequest, decode_head]
  show (Result.ofOption _ (splitCrlf _).head? >>= fun _ => _) = _
  rw [splitCrlf_head h]
  show (readHeaders _ (fields.map fieldText) >>= fun _ => _) = _
  rw [readHeaders_fields _ h.names, List.drop_left]
  rfl

theorem parseHttpResponse_head {first code : List Char} {status : Nat}
    {fields : List (List Char × List Char)} (h : Readable first fields)
    (hcode : (splitWhitespace first)[1]? = some code)
    (hstatus : parseUnsigned (2 ^ 16) code = .ok status) (extra : Bytes) :
    parseHttpResponse (headBytes first fields ++ extra) (headBytes first fields).length =
      .ok { status, headers := (fields.map entryOf).reverse, tail := extra } := by
  rw [parseHttpResponse, decode_head]
  show (Result.ofOption _ ((splitCrlf _).head?.bind _) >>= fun _ => _) = _
  rw [splitCrlf_head h]
  show (Result.ofOption _ (splitWhitespace first)[1]? >>= fun _ => _) = _
  rw [hcode]
  show (Result.withContext _ (parseUnsigned _ code) >>= fun _ => _) = _
  rw [hstatus]
  show (readHeaders _ (fields.map fieldText) >>= fun _ => _) = _
  rw [readHeaders_fields _ h.names, List.drop_left]
  rfl

section

variable {σ : Type} [AsyncRead σ] {source : Source σ} {first : List Char}
  {fields : List (List Char × List Char)} {tail : Bytes} {state : σ}

theorem readHead_head (tooLarge closed : String) (h : Readable first fields)
    (hsize : (headBytes first fields).length ≤ MAX_HTTP_HEADER_SIZE + 1)
    (hgood : source.good state) (hrest : source.rest state = headBytes first fields ++ tail) :
    ∃ extra next, Yields (readHead tooLarge closed) state
        (headBytes first fields ++ extra, (headBytes first fields).length) next ∧
      source.good next ∧ extra ++ source.rest next = tail := by
  rw [headBytes_eq] at hsize hrest ⊢
  exact readHead_yields tooLarge closed h.encoded (List.cons_ne_nil _ _) hsize hgood hrest

theorem readHttpRequest_yields (h : Readable first fields)
    (hsize : (headBytes first fields).length ≤ MAX_HTTP_HEADER_SIZE + 1)
    (hgood : source.good state) (hrest : source.rest state = headBytes first fields ++ tail) :
    ∃ extra next, Yields readHttpRequest state (requestOf first fields extra) next ∧
      source.good next ∧ extra ++ source.rest next = tail := by
  obtain ⟨extra, next, hread, hnext⟩ := readHead_head _ _ h hsize hgood hrest
  exact ⟨extra, next, hread.bind (.ofResult next (parseHttpRequest_head h extra)), hnext⟩

theorem readHttpResponse_yields {code : List Char} {status : Nat} (h : Readable first fields)
    (hcode : (splitWhitespace first)[1]? = some code)
    (hstatus : parseUnsigned (2 ^ 16) code = .ok status)
    (hsize : (headBytes first fields).length ≤ MAX_HTTP_HEADER_SIZE + 1)
    (hgood : source.good state) (hrest : source.rest state = headBytes first fields ++ tail) :
    ∃ extra next, Yields readHttpResponse state
        { status, headers := (fields.map entryOf).reverse, tail := extra } next ∧
      source.good next ∧ extra ++ source.rest next = tail := by
  obtain ⟨extra, next, hread, hnext⟩ := readHead_head _ _ h hsize hgood hrest
  exact ⟨extra, next,
    hread.bind (.ofResult next (parseHttpResponse_head h hcode hstatus extra)), hnext⟩

end

-- The header of a name that comes last.
theorem lookup_last (front : List (List Char × List Char)) (field : List Char × List Char)
    {back : List (List Char × List Char)} (h : ∀ other ∈ back, (entryOf other).1 ≠ (entryOf field).1) :
    ((front ++ field :: back).map entryOf).reverse.lookup (entryOf field).1 =
      some (entryOf field).2 := by
  rw [List.lookup_eq_some_iff]
  refine ⟨(back.map entryOf).reverse, (front.map entryOf).reverse, by simp, ?_⟩
  intro entry hentry
  obtain ⟨other, hother, rfl⟩ := List.mem_map.mp (List.mem_reverse.mp hentry)
  simpa using Ne.symm (h other hother)

theorem lookup_none {fields : List (List Char × List Char)} {name : String}
    (h : ∀ field ∈ fields, (entryOf field).1 ≠ name) :
    (fields.map entryOf).reverse.lookup name = none := by
  rw [List.lookup_eq_none_iff]
  intro entry hentry
  obtain ⟨field, hfield, rfl⟩ := List.mem_map.mp (List.mem_reverse.mp hentry)
  simpa using Ne.symm (h field hfield)

theorem trickle_ready (incoming : Bytes) : (trickle incoming).Ready [] where
  reliable := ⟨fun _ => .inr ⟨0, rfl⟩, by simp [trickle], by simp [trickle]⟩
  fair := ⟨fun n => ⟨n, Nat.le_refl n, by simp [trickle]⟩, fun n => ⟨n, Nat.le_refl n, by simp [trickle]⟩⟩
  sent := rfl

theorem read_trickle (polls : Nat) (byte : UInt8) (rest : Bytes) :
    Async.read 1024 (polls + 1) (trickle (byte :: rest)) = some (.ok [byte], trickle rest) := rfl

-- The invariant of the loop where bytes come one at a time: the end has not been seen when the
-- size is looked at.
theorem readHeadFrom_tooLarge (tooLarge closed : String) {lines : List Bytes}
    (hlines : ∀ line ∈ lines, line ≠ [] ∧ CR ∉ line)
    (hlong : MAX_HTTP_HEADER_SIZE + 1 < (writeLines lines).length) (tail : Bytes) (polls : Nat)
    (rounds : Nat) {data left : Bytes} (hdata : writeLines lines = data ++ left)
    (hsmall : data.length ≤ MAX_HTTP_HEADER_SIZE + 1)
    (hrounds : MAX_HTTP_HEADER_SIZE + 2 ≤ data.length + rounds) :
    readHeadFrom tooLarge closed (polls + 1) rounds data (trickle (left ++ tail)) =
      some (.error [tooLarge], trickle ((writeLines lines ++ tail).drop
        (MAX_HTTP_HEADER_SIZE + 1))) := by
  induction rounds generalizing data left with
  | zero => omega
  | succ rounds ih =>
      by_cases hlarge : data.length > MAX_HTTP_HEADER_SIZE
      · have hexact : data.length = MAX_HTTP_HEADER_SIZE + 1 := by omega
        rw [hdata, List.append_assoc, ← hexact, List.drop_left]
        simp only [readHeadFrom, if_pos hlarge]
        rfl
      · have hlength := congrArg List.length hdata
        rw [List.length_append] at hlength
        cases left with
        | nil =>
            simp only [List.length_nil] at hlength
            omega
        | cons byte left =>
            have hleft : left ≠ [] := by
              rintro rfl
              simp only [List.length_cons, List.length_nil] at hlength
              omega
            have hnext : writeLines lines = (data ++ [byte]) ++ left := by
              rw [hdata, List.append_assoc, List.singleton_append]
            have hend := HttpHead.headEnd_part hlines hnext hleft
            have hmore : (data ++ [byte]).length = data.length + 1 := List.length_append
            have hrest := ih hnext (by omega) (by omega)
            simp only [readHeadFrom, if_neg hlarge, List.cons_append]
            rw [Async.bind_ok (read_trickle polls byte (left ++ tail)), if_neg (List.cons_ne_nil _ _)]
            simp only [hend]
            exact hrest

-- One byte at a time, a larger head is not read.
theorem readHttpRequest_tooLarge {first : List Char} {fields : List (List Char × List Char)}
    (h : Readable first fields)
    (hlong : MAX_HTTP_HEADER_SIZE + 1 < (headBytes first fields).length) (tail : Bytes) (polls : Nat) :
    readHttpRequest (polls + 1) (trickle (headBytes first fields ++ tail)) =
      some (.error ["VLESS WebSocket HTTP headers are too large"],
        trickle ((headBytes first fields ++ tail).drop (MAX_HTTP_HEADER_SIZE + 1))) := by
  rw [headBytes_eq] at hlong ⊢
  exact Async.bind_error (readHeadFrom_tooLarge _ _ h.encoded hlong tail polls
    (MAX_HTTP_HEADER_SIZE + 2) rfl (Nat.zero_le _) (by simp))

end SingBox.Vless
