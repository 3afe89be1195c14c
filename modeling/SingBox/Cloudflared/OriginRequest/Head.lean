import SingBox.Cloudflared.OriginRequest
import SingBox.Library.HttpHead
import Mathlib.Data.Bool.AllAny

namespace SingBox.Cloudflared

open Library SingBox.Core
open Utf8 (encode)
open HttpHead

-- The bytes are this head and no more, whatever comes after them: a recipient reads the head,
-- or refuses it as a whole. One that refuses no more than it must reads it.
structure OneHead (bytes : Bytes) (head : RequestHead) : Prop where
  read : ∀ recipient rest, readHead recipient (bytes ++ rest) =
    if recipient.Admits head then some (head, rest) else none
  admitted : Bytewise.lenient.Admits head
  ends : ∀ front back, bytes = front ++ (crlf ++ (crlf ++ back)) → back = []

-- The header of the request as the origin reads it, if it is passed on.
def passedOn (websocket : Bool) (entry : Metadata) : Option Field :=
  if isHeader entry && !skipsHeader websocket (headerName entry) then
    some ⟨encode (headerName entry), trimBlanks (encode entry.value)⟩
  else none

def hostField (host : String) : Field := ⟨encode "Host", trimBlanks (encode host)⟩

-- What comes behind the headers of the request.
def ownFields (bodyLength : Nat) (websocket : Bool) : List Field :=
  ⟨encode "Content-Length", encode (toString bodyLength)⟩ ::
    if websocket then
      [⟨encode "Upgrade", encode "websocket"⟩, ⟨encode "Sec-WebSocket-Version", encode "13"⟩,
        ⟨encode "Connection", encode "Upgrade"⟩]
    else [⟨encode "Connection", encode "close"⟩]

-- The head says what the request says, and it says nothing twice that tells where it ends.
structure OriginHead (request : ConnectRequest) (uri : Uri) (host : String) (bodyLength : Nat)
    (websocket : Bool) (head : RequestHead) : Prop where
  method : head.method = encode (requestMethod request)
  target : head.target = encode (requestPath uri)
  version : head.version = encode "HTTP/1.1"
  oneHost : head.named (encode "host") = [hostField host]
  oneContentLength : head.named (encode "content-length") =
    [⟨encode "Content-Length", encode (toString bodyLength)⟩]
  noTransferEncoding : head.named (encode "transfer-encoding") = []
  oneConnection : head.named (encode "connection") =
    [⟨encode "Connection", encode (if websocket then "Upgrade" else "close")⟩]
  upgrade : head.named (encode "upgrade") =
    if websocket then [⟨encode "Upgrade", encode "websocket"⟩] else []
  webSocketVersion : websocket = true → head.named (encode "sec-websocket-version") =
    [⟨encode "Sec-WebSocket-Version", encode "13"⟩]
  fields : head.fields = hostField host :: request.metadata.filterMap (passedOn websocket) ++
    ownFields bodyLength websocket
  passed : ∀ entry field, passedOn websocket entry = some field →
    ∃ count name, entry.key = String.ofList (List.replicate (count + 1) HTTP_HEADER.toList).flatten ++ name ∧
      field = ⟨encode name, trimBlanks (encode entry.value)⟩ ∧ skipsHeader websocket name = false

-- The pattern is gone from the front of what is left.
theorem trimStartMatches_spec {pattern : List Char} (hpattern : pattern ≠ []) (text : List Char) :
    ∃ count, text = (List.replicate count pattern).flatten ++ trimStartMatches pattern text ∧
      ¬pattern <+: trimStartMatches pattern text := by
  suffices h : ∀ left text, text.length ≤ left →
      ∃ count, text = (List.replicate count pattern).flatten ++ trimStartMatches.go pattern left text ∧
        ¬pattern <+: trimStartMatches.go pattern left text from h _ _ (le_refl _)
  intro left
  induction left with
  | zero =>
      intro text hlength
      obtain rfl := List.length_eq_zero_iff.mp (Nat.le_zero.mp hlength)
      exact ⟨0, rfl, fun h => hpattern (List.prefix_nil.mp h)⟩
  | succ left ih =>
      intro text hlength
      by_cases hprefix : pattern.isPrefixOf text
      · obtain ⟨rest, rfl⟩ := List.isPrefixOf_iff_prefix.mp hprefix
        have hpos := List.length_pos_iff.mpr hpattern
        rw [List.length_append] at hlength
        obtain ⟨count, htext, hnone⟩ := ih rest (by omega)
        rw [trimStartMatches.go, if_pos hprefix, List.drop_left]
        refine ⟨count + 1, ?_, hnone⟩
        rw [List.replicate_succ, List.flatten_cons, List.append_assoc, ← htext]
      · rw [trimStartMatches.go, if_neg hprefix]
        exact ⟨0, rfl, mt List.isPrefixOf_iff_prefix.mpr hprefix⟩

theorem passedOn_entry {websocket : Bool} {entry : Metadata} {field : Field}
    (h : passedOn websocket entry = some field) :
    ∃ count name, entry.key = String.ofList (List.replicate (count + 1) HTTP_HEADER.toList).flatten ++ name ∧
      field = ⟨encode name, trimBlanks (encode entry.value)⟩ ∧ skipsHeader websocket name = false := by
  unfold passedOn at h
  split at h
  · rename_i hpass
    obtain ⟨hheader, hskip⟩ := (Bool.and_eq_true _ _).mp hpass
    obtain rfl := Option.some.inj h
    obtain ⟨count, hkey, hnone⟩ := trimStartMatches_spec (by decide : HTTP_HEADER.toList ≠ [])
      entry.key.toList
    cases count with
    | zero =>
        have hprefix := List.isPrefixOf_iff_prefix.mp hheader
        rw [hkey] at hprefix
        exact absurd hprefix hnone
    | succ count =>
        refine ⟨count, headerName entry, ?_, rfl, by simpa using hskip⟩
        apply String.toList_inj.mp
        simpa [headerName] using hkey
  · cases h

theorem ensureHttpToken_eq_ok {value : String} :
    ensureHttpToken value = .ok () ↔ Bytewise.lenient.Token (encode value) := by
  rw [ensureHttpToken, Result.ensure_eq_ok]
  have hbyte (byte : UInt8) : (!(byte ≤ 0x20 || 0x7f ≤ byte || byte == 58)) =
      Bytewise.lenient.token byte := by
    rw [Bool.eq_iff_iff]
    simp [Bytewise.lenient, COLON]
  cases encode value with
  | nil => simp [Bytewise.Token]
  | cons byte rest => simp [Bytewise.Token, ← hbyte]

theorem ensureHttpValue_eq_ok {value : String} (h : ensureHttpValue value = .ok ()) :
    (encode value).all Bytewise.lenient.text := by
  rw [ensureHttpValue, Result.ensure_eq_ok] at h
  have hchars : '\r' ∉ value.toList ∧ '\n' ∉ value.toList := by simpa using h
  refine List.all_eq_true.mpr fun byte hbyte => ?_
  have hne {code : UInt8} (hcode : code.toNat < 128) {char : Char} (hchar : char ∉ value.toList)
      (hsame : char.toNat = code.toNat) : byte ≠ code := by
    rintro rfl
    obtain ⟨other, hmem, hother⟩ := Utf8.mem_encode hcode hbyte
    have heq : other = char := by
      apply Char.ext
      apply UInt32.toNat_inj.mp
      exact hother.symm.trans hsame.symm
    exact hchar (heq ▸ hmem)
  have hcr : byte ≠ CR := hne (by decide) hchars.1 (by decide)
  have hlf : byte ≠ LF := hne (by decide) hchars.2 (by decide)
  simp [Bytewise.lenient, hcr, hlf]

theorem token_free {bytes : Bytes} (h : Bytewise.lenient.Token bytes) :
    SP ∉ bytes ∧ CR ∉ bytes ∧ COLON ∉ bytes := by
  have hbytes := List.all_eq_true.mp h.2
  refine ⟨fun hmem => ?_, fun hmem => ?_, fun hmem => ?_⟩ <;>
    exact absurd (hbytes _ hmem) (by decide)

theorem text_free {bytes : Bytes} (h : bytes.all Bytewise.lenient.text) : CR ∉ bytes := fun hmem =>
  absurd (List.all_eq_true.mp h _ hmem) (by decide)

theorem all_trimBlanks {test : UInt8 → Bool} {bytes : Bytes} (h : bytes.all test) :
    (trimBlanks bytes).all test := by
  refine List.all_eq_true.mpr fun byte hbyte => List.all_eq_true.mp h byte ?_
  exact (List.dropWhile_sublist _).mem ((List.rdropWhile_prefix _ _).mem hbyte)

-- The header as it is sent.
def sentOn (websocket : Bool) (entry : Metadata) : Option Field :=
  if isHeader entry && !skipsHeader websocket (headerName entry) then
    some ⟨encode (headerName entry), encode entry.value⟩
  else none

def trimField (field : Field) : Field := { field with value := trimBlanks field.value }

theorem passedOn_eq (websocket : Bool) (entry : Metadata) :
    passedOn websocket entry = (sentOn websocket entry).map trimField := by
  unfold passedOn sentOn
  split <;> rfl

theorem filterMap_isHeader (websocket : Bool) (entries : List Metadata) :
    (entries.filter isHeader).filterMap (sentOn websocket) = entries.filterMap (sentOn websocket) := by
  rw [List.filterMap_filter]
  refine List.filterMap_congr fun entry _ => ?_
  by_cases hheader : isHeader entry
  · rw [if_pos hheader]
  · rw [if_neg hheader]
    simp [sentOn, hheader]

-- What the loop appends, and that it has looked at each header it appends.
theorem appendHeaders_eq {websocket : Bool} {entries : List Metadata} {output result : Bytes}
    (hentries : ∀ entry ∈ entries, isHeader entry = true)
    (h : appendHeaders websocket entries output = .ok result) :
    result = output ++ (entries.filterMap (sentOn websocket)).flatMap (fieldLine · ++ crlf) ∧
      ∀ field ∈ entries.filterMap (sentOn websocket), Bytewise.lenient.AdmitsField field := by
  induction entries generalizing output with
  | nil =>
      obtain rfl := Except.ok.inj h
      simp
  | cons entry entries ih =>
      obtain ⟨hheader, hentries⟩ := List.forall_mem_cons.mp hentries
      unfold appendHeaders at h
      by_cases hskip : skipsHeader websocket (headerName entry)
      · have hnone : sentOn websocket entry = none := by simp [sentOn, hskip]
        rw [if_pos hskip] at h
        rw [List.filterMap_cons_none hnone]
        exact ih hentries h
      · have hsome : sentOn websocket entry =
            some ⟨encode (headerName entry), encode entry.value⟩ := by
          simp [sentOn, hskip, hheader]
        rw [if_neg hskip] at h
        obtain ⟨_, htoken, h⟩ := Result.bind_eq_ok.mp h
        obtain ⟨_, hvalue, h⟩ := Result.bind_eq_ok.mp h
        obtain ⟨hresult, hfields⟩ := ih hentries h
        have hcolon : encode ": " = [COLON, SP] := by decide
        have hend : encode "\r\n" = crlf := by decide
        rw [List.filterMap_cons_some hsome, List.flatMap_cons, List.forall_mem_cons]
        refine ⟨?_, ⟨ensureHttpToken_eq_ok.mp htoken, ensureHttpValue_eq_ok hvalue⟩, hfields⟩
        rw [hresult, hcolon, hend]
        simp [fieldLine]

theorem encode_decimal (n : Nat) : ∀ byte ∈ encode (toString n), 48 ≤ byte.toNat ∧ byte.toNat ≤ 57 := by
  intro byte hbyte
  rw [Utf8.encode_eq_flatMap, List.mem_flatMap] at hbyte
  obtain ⟨char, hchar, hbyte⟩ := hbyte
  have hdigit : char.isDigit = true := by
    rw [Nat.toString_eq_ofList_toDigits, String.toList_ofList] at hchar
    exact Nat.isDigit_of_mem_toDigits (by decide) (by decide) hchar
  have hrange : 48 ≤ char.toNat ∧ char.toNat ≤ 57 := by
    obtain ⟨hlow, hhigh⟩ := (Bool.and_eq_true _ _).mp hdigit
    exact ⟨of_decide_eq_true hlow, of_decide_eq_true hhigh⟩
  rw [Utf8.encodeChar_small (by omega), List.mem_singleton] at hbyte
  rw [hbyte, UInt8.toNat_ofNat', Nat.mod_eq_of_lt (by omega)]
  exact hrange

theorem map_trimField_ownFields (bodyLength : Nat) (websocket : Bool) :
    (ownFields bodyLength websocket).map trimField = ownFields bodyLength websocket := by
  have hlength : trimBlanks (encode (toString bodyLength)) = encode (toString bodyLength) := by
    refine trimBlanks_eq_self fun byte hbyte => ?_
    have hrange := encode_decimal bodyLength byte hbyte
    constructor <;> rintro rfl <;> revert hrange <;> decide
  have hrest : ∀ fields : List Field, (∀ field ∈ fields, trimBlanks field.value = field.value) →
      fields.map trimField = fields := fun fields hfields =>
    (List.map_congr_left fun field hfield => by rw [trimField, hfields field hfield]).trans
      fields.map_id'
  apply hrest
  cases websocket with
  | false =>
      refine List.forall_mem_cons.mpr ⟨hlength, ?_⟩
      decide
  | true =>
      refine List.forall_mem_cons.mpr ⟨hlength, ?_⟩
      decide

def sentFields (request : ConnectRequest) (host : String) (bodyLength : Nat) (websocket : Bool) :
    List Field :=
  ⟨encode "Host", encode host⟩ :: request.metadata.filterMap (sentOn websocket) ++
    ownFields bodyLength websocket

-- The output line by line.
theorem buildOriginRequest_eq {request : ConnectRequest} {uri : Uri} {host : String}
    {bodyLength : Nat} {websocket : Bool} {output : Bytes}
    (h : buildOriginRequest request uri host bodyLength websocket = .ok output) :
    output = writeLines (requestLine (encode (requestMethod request)) (encode (requestPath uri)) ::
      (sentFields request host bodyLength websocket).map fieldLine) := by
  obtain ⟨_, _, h⟩ := Result.bind_eq_ok.mp h
  obtain ⟨_, _, h⟩ := Result.bind_eq_ok.mp h
  obtain ⟨_, _, h⟩ := Result.bind_eq_ok.mp h
  obtain ⟨headers, hheaders, h⟩ := Result.bind_eq_ok.mp h
  obtain rfl := Except.ok.inj h
  obtain ⟨rfl, _⟩ := appendHeaders_eq (fun entry hentry => (List.mem_filter.mp hentry).2) hheaders
  have hfirst : encode " HTTP/1.1\r\nHost: " =
      SP :: (encode "HTTP/1.1" ++ crlf ++ encode "Host" ++ [COLON, SP]) := by decide
  have hlength : encode "Content-Length: " = encode "Content-Length" ++ [COLON, SP] := by decide
  have hupgrade : encode "Upgrade: websocket\r\n" =
      fieldLine ⟨encode "Upgrade", encode "websocket"⟩ ++ crlf := by decide
  have hversion : encode "Sec-WebSocket-Version: 13\r\n" =
      fieldLine ⟨encode "Sec-WebSocket-Version", encode "13"⟩ ++ crlf := by decide
  have hkeep : encode "Connection: Upgrade\r\n" =
      fieldLine ⟨encode "Connection", encode "Upgrade"⟩ ++ crlf := by decide
  have hclose : encode "Connection: close\r\n" =
      fieldLine ⟨encode "Connection", encode "close"⟩ ++ crlf := by decide
  have hblank : encode " " = [SP] := by decide
  have hend : encode "\r\n" = crlf := by decide
  rw [filterMap_isHeader]
  simp only [Utf8.encode_append, hfirst, hlength, hupgrade, hversion, hkeep, hclose, hblank, hend]
  cases websocket with
  | false => simp [writeLines, requestLine, sentFields, ownFields, fieldLine, List.flatMap_map]
  | true => simp [writeLines, requestLine, sentFields, ownFields, fieldLine, List.flatMap_map]

-- Nothing is sent that a recipient must refuse.
theorem sentFields_admitted {request : ConnectRequest} {uri : Uri} {host : String}
    {bodyLength : Nat} {websocket : Bool} {output : Bytes}
    (h : buildOriginRequest request uri host bodyLength websocket = .ok output) :
    Bytewise.lenient.Token (encode (requestMethod request)) ∧
      (encode (requestPath uri)).all Bytewise.lenient.text ∧
      ∀ field ∈ sentFields request host bodyLength websocket, Bytewise.lenient.AdmitsField field := by
  obtain ⟨_, hmethod, h⟩ := Result.bind_eq_ok.mp h
  obtain ⟨_, hhost, h⟩ := Result.bind_eq_ok.mp h
  obtain ⟨_, hpath, h⟩ := Result.bind_eq_ok.mp h
  obtain ⟨headers, hheaders, _⟩ := Result.bind_eq_ok.mp h
  obtain ⟨_, hpassed⟩ := appendHeaders_eq (fun entry hentry => (List.mem_filter.mp hentry).2) hheaders
  have hown : ∀ field ∈ ownFields bodyLength websocket, Bytewise.lenient.AdmitsField field := by
    have hlength : Bytewise.lenient.AdmitsField
        ⟨encode "Content-Length", encode (toString bodyLength)⟩ := by
      have hname : Bytewise.lenient.Token (encode "Content-Length") := by decide
      refine ⟨hname, List.all_eq_true.mpr fun byte hbyte => ?_⟩
      have hrange := encode_decimal bodyLength byte hbyte
      have hne : byte ≠ CR ∧ byte ≠ LF := by
        constructor <;> rintro rfl <;> revert hrange <;> decide
      simp [Bytewise.lenient, hne]
    cases websocket with
    | false => exact List.forall_mem_cons.mpr ⟨hlength, by decide⟩
    | true => exact List.forall_mem_cons.mpr ⟨hlength, by decide⟩
  refine ⟨ensureHttpToken_eq_ok.mp hmethod, ensureHttpValue_eq_ok hpath, fun field hfield => ?_⟩
  obtain hfield | hfield := List.mem_append.mp hfield
  · obtain rfl | hfield := List.mem_cons.mp hfield
    · have hname : Bytewise.lenient.Token (encode "Host") := by decide
      exact ⟨hname, ensureHttpValue_eq_ok hhost⟩
    · refine hpassed field ?_
      rwa [filterMap_isHeader]
  · exact hown field hfield

-- The head as the origin reads it.
def originHead (request : ConnectRequest) (uri : Uri) (host : String) (bodyLength : Nat)
    (websocket : Bool) : RequestHead where
  method := encode (requestMethod request)
  target := encode (requestPath uri)
  version := encode "HTTP/1.1"
  fields := (sentFields request host bodyLength websocket).map trimField

theorem requestPath_ne_empty (uri : Uri) : requestPath uri ≠ "" := by
  unfold requestPath
  cases hpath : uri.pathAndQuery.filter (· ≠ "") with
  | none => decide
  | some path => simpa using (Option.filter_eq_some_iff.mp hpath).2

theorem originHead_oneHead {request : ConnectRequest} {uri : Uri} {host : String}
    {bodyLength : Nat} {websocket : Bool} {output : Bytes}
    (hpath : ∀ char ∈ (requestPath uri).toList, isWhitespace char = false)
    (h : buildOriginRequest request uri host bodyLength websocket = .ok output) :
    OneHead output (originHead request uri host bodyLength websocket) := by
  obtain ⟨hmethod, htext, hfields⟩ := sentFields_admitted h
  obtain rfl := buildOriginRequest_eq h
  obtain ⟨hsp, hcr, _⟩ := token_free hmethod
  have hblank : SP ∉ encode (requestPath uri) := by
    intro hmem
    obtain ⟨char, hchar, hcode⟩ := Utf8.mem_encode (by decide) hmem
    have hwhite := hpath char hchar
    simp only [isWhitespace, ← hcode] at hwhite
    revert hwhite
    decide
  have hnonempty : encode (requestPath uri) ≠ [] := fun hnil =>
    requestPath_ne_empty uri (Utf8.encode_inj.mp hnil)
  have hlines : ∀ field ∈ sentFields request host bodyLength websocket,
      COLON ∉ field.name ∧ CR ∉ field.name ∧ CR ∉ field.value := by
    intro field hfield
    obtain ⟨htoken, hvalue⟩ := hfields field hfield
    exact ⟨(token_free htoken).2.2, (token_free htoken).2.1, text_free hvalue⟩
  refine ⟨fun recipient rest => ?_, ⟨hmethod, hnonempty, htext, ?_⟩, fun front back => ?_⟩
  · exact readHead_write recipient ⟨hsp, hcr⟩ ⟨hblank, text_free htext⟩ hlines rest
  · intro field hfield
    obtain ⟨sent, hsent, rfl⟩ := List.mem_map.mp hfield
    exact ⟨(hfields sent hsent).1, all_trimBlanks (hfields sent hsent).2⟩
  · exact writeLines_ends (lines_clean ⟨hsp, hcr⟩ ⟨hblank, text_free htext⟩ hlines)

theorem sameName_iff {name key : String} :
    (encode name).map Utf8.lowerByte = (encode key).map Utf8.lowerByte ↔
      eqIgnoreAsciiCase name key = true := by
  rw [Utf8.map_lowerByte_encode, Utf8.map_lowerByte_encode, Utf8.encode_inj, eqIgnoreAsciiCase,
    beq_iff_eq]
  rfl

-- No header is passed on under a name that is left out.
theorem passed_named {websocket : Bool} {key : String} {entries : List Metadata}
    (hkey : ∀ name, eqIgnoreAsciiCase name key = true → skipsHeader websocket name = true) :
    (entries.filterMap (passedOn websocket)).filter (fun field =>
      field.name.map Utf8.lowerByte = (encode key).map Utf8.lowerByte) = [] := by
  refine List.filter_eq_nil_iff.mpr fun field hfield => ?_
  obtain ⟨entry, _, hentry⟩ := List.mem_filterMap.mp hfield
  obtain ⟨_, name, _, rfl, hskip⟩ := passedOn_entry hentry
  have hne : ¬eqIgnoreAsciiCase name key = true := fun hsame => by
    rw [hkey name hsame] at hskip
    cases hskip
  simpa [sameName_iff] using hne

theorem originHead_fields (request : ConnectRequest) (uri : Uri) (host : String) (bodyLength : Nat)
    (websocket : Bool) :
    (originHead request uri host bodyLength websocket).fields =
      hostField host :: request.metadata.filterMap (passedOn websocket) ++
        ownFields bodyLength websocket := by
  show (sentFields request host bodyLength websocket).map trimField = _
  have hpassed : request.metadata.filterMap (passedOn websocket) =
      (request.metadata.filterMap (sentOn websocket)).map trimField := by
    rw [List.map_filterMap]
    exact List.filterMap_congr fun entry _ => passedOn_eq websocket entry
  rw [sentFields, List.map_append, map_trimField_ownFields, List.map_cons, hpassed]
  rfl

-- The fields of a name that no header is passed on under are those that are written here.
theorem named_originHead {request : ConnectRequest} {uri : Uri} {host : String} {bodyLength : Nat}
    {websocket : Bool} {key : String}
    (hkey : ∀ name, eqIgnoreAsciiCase name key = true → skipsHeader websocket name = true) :
    (originHead request uri host bodyLength websocket).named (encode key) =
      (hostField host :: ownFields bodyLength websocket).filter fun field =>
        field.name.map Utf8.lowerByte = (encode key).map Utf8.lowerByte := by
  rw [RequestHead.named, originHead_fields, List.filter_append, List.filter_cons, List.filter_cons]
  split
  · rw [passed_named hkey]
    rfl
  · rw [passed_named hkey]
    rfl

-- For every request the origin reads one head, and in it the request and nothing else.
theorem buildOriginRequest_oneHead {request : ConnectRequest} {uri : Uri} {host : String}
    {bodyLength : Nat} {websocket : Bool} {output : Bytes}
    (hpath : ∀ char ∈ (requestPath uri).toList, isWhitespace char = false)
    (hbuild : buildOriginRequest request uri host bodyLength websocket = .ok output) :
    ∃ head, OneHead output head ∧ OriginHead request uri host bodyLength websocket head := by
  refine ⟨_, originHead_oneHead hpath hbuild, {
    method := rfl
    target := rfl
    version := rfl
    oneHost := ?_
    oneContentLength := ?_
    noTransferEncoding := ?_
    oneConnection := ?_
    upgrade := ?_
    webSocketVersion := ?_
    fields := originHead_fields request uri host bodyLength websocket
    passed := fun _ _ => passedOn_entry
  }⟩
  · rw [named_originHead fun name hname => by simp [skipsHeader, hname]]
    cases websocket <;> rfl
  · rw [named_originHead fun name hname => by simp [skipsHeader, hname]]
    cases websocket <;> rfl
  · rw [named_originHead fun name hname => by simp [skipsHeader, hname]]
    cases websocket <;> rfl
  · rw [named_originHead fun name hname => by simp [skipsHeader, hname]]
    cases websocket <;> rfl
  · -- left out of a WebSocket by one branch of the source, and else by the other
    rw [named_originHead fun name hname => by cases websocket <;> simp [skipsHeader, hname]]
    cases websocket <;> rfl
  · rintro rfl
    rw [named_originHead fun name hname => by simp [skipsHeader, hname]]
    rfl

-- A WebSocket's request with a header that is passed on and two that are not.
theorem buildOriginRequest_oneHead_webSocket :
    let request : ConnectRequest :=
      { destination := "https://a.com/chat", connectionType := .websocket,
        metadata := [⟨"HttpMethod", "GET"⟩, ⟨"HttpHeader:Upgrade", "h2c"⟩,
          ⟨"HttpHeader:Sec-WebSocket-Key", "x3JJ"⟩,
          ⟨"HttpHeader:HttpHeader:transfer-encoding", "chunked"⟩] }
    let uri : Uri :=
      { scheme := some "https", authority := some ⟨"a.com", "a.com", none⟩,
        pathAndQuery := some "/chat", path := "/chat" }
    ∃ output head, buildOriginRequest request uri "a.com" 0 true = .ok output ∧
      OneHead output head ∧ OriginHead request uri "a.com" 0 true head := by
  intro request uri
  have hpath : ∀ char ∈ (requestPath uri).toList, isWhitespace char = false :=
    List.all_iff_forall_prop.mp (by decide)
  have hbuild : buildOriginRequest request uri "a.com" 0 true = .ok (encode
      ("GET /chat HTTP/1.1\r\nHost: a.com\r\nSec-WebSocket-Key: x3JJ\r\nContent-Length: 0\r\n" ++
        "Upgrade: websocket\r\nSec-WebSocket-Version: 13\r\nConnection: Upgrade\r\n\r\n")) := by
    decide
  obtain ⟨head, hhead⟩ := buildOriginRequest_oneHead hpath hbuild
  exact ⟨_, head, hbuild, hhead⟩

end SingBox.Cloudflared
