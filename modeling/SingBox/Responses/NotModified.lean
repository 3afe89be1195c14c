import SingBox.Responses.Decoders
import SingBox.Responses.Parsers

namespace SingBox.Responses

open Library SingBox.Core
open Cli (HttpResponse ParsedUrl conditionalHeaders fetchFrom fetchInner requestHead)
open HttpHead (CR SP COLON Field crlf writeLines)
open Text (isWhitespace splitCrlf splitWhitespace trim)
open Utf8 (decode encode lowerByte)

-- A reply with status 304, which has no body. `phrase` is what comes behind the status in
-- its line.
structure Reply where
  version : Bytes
  phrase : Bytes
  fields : List Field

def lineOf (field : Field) : Bytes := field.name ++ COLON :: field.value

structure Token (name : Bytes) : Prop where
  visible : ∀ byte ∈ name, 33 ≤ byte.toNat ∧ byte.toNat < 127
  colon : COLON ∉ name

namespace Reply

variable (this : Reply)

def statusLine : Bytes := this.version ++ (encode " 304" ++ this.phrase)

def head : Bytes := this.statusLine ++ (this.fields.map lineOf).flatMap (crlf ++ ·)

def bytes : Bytes := this.head ++ (crlf ++ (crlf ++ []))

-- The value of the last field of a name, without blanks around it.
def last (name : String) : Option String :=
  (this.fields.reverse.find? fun field => field.name.map lowerByte = encode name).bind fun field =>
    (decode field.value).map fun value => String.ofList (trim value.toList)

structure WellFormed : Prop where
  version : this.version = encode "HTTP/1.0" ∨ this.version = encode "HTTP/1.1"
  phrase : (this.phrase = [] ∨ this.phrase.head? = some SP) ∧ CR ∉ this.phrase
  fields : ∀ field ∈ this.fields, Token field.name ∧ CR ∉ field.value

-- A head within the limit, of text, that frames no body.
structure Readable : Prop where
  size : this.head.length ≤ 64 * 1024
  text : IsText this.phrase ∧ ∀ field ∈ this.fields, IsText field.value
  coding : ∀ value, this.last "transfer-encoding" = some value → "chunked".toList ∉ codings value
  length : ∀ value, this.last "content-length" = some value →
    parseUnsigned (2 ^ 64) value.toList = .ok 0

end Reply

theorem isText_split {front back : Bytes} {byte : UInt8} (hbyte : byte.toNat < 128)
    (h : IsText (front ++ byte :: back)) : IsText front ∧ IsText back := by
  obtain ⟨text, htext⟩ := h
  obtain ⟨before, after, hfront, hback⟩ := Utf8.encode_split hbyte htext
  exact ⟨⟨before, hfront⟩, ⟨after, hback⟩⟩

-- A field as two texts, and the header that is made of it.
def fieldOf (text : String × String) : Field := ⟨encode text.1, encode text.2⟩

def headerOf (text : String × String) : String × String :=
  (toAsciiLowercase text.1, String.ofList (trim text.2.toList))

def lineText (text : String × String) : List Char := text.1.toList ++ ':' :: text.2.toList

theorem exists_texts {fields : List Field}
    (h : ∀ field ∈ fields, IsText field.name ∧ IsText field.value) :
    ∃ texts : List (String × String), fields = texts.map fieldOf := by
  induction fields with
  | nil => exact ⟨[], rfl⟩
  | cons field fields ih =>
      obtain ⟨⟨⟨name, hname⟩, ⟨value, hvalue⟩⟩, hothers⟩ := List.forall_mem_cons.mp h
      obtain ⟨texts, rfl⟩ := ih hothers
      refine ⟨(name, value) :: texts, ?_⟩
      rw [List.map_cons, fieldOf, ← hname, ← hvalue]

theorem lookup_find (texts : List (String × String)) (name : String) :
    (texts.map headerOf).lookup name =
      ((texts.map fieldOf).find? fun field => field.name.map lowerByte = encode name).bind fun field =>
        (decode field.value).map fun value => String.ofList (trim value.toList) := by
  induction texts with
  | nil => rfl
  | cons text texts ih =>
      have hlower : (fieldOf text).name.map lowerByte = encode (headerOf text).1 :=
        Utf8.map_lowerByte_encode text.1
      rw [List.map_cons, List.map_cons, List.find?_cons, hlower]
      by_cases hname : (headerOf text).1 = name
      · have hsame : decide (encode (headerOf text).1 = encode name) = true :=
          decide_eq_true (congrArg encode hname)
        rw [hsame, ← hname]
        simp [headerOf, fieldOf]
      · have hother : decide (encode (headerOf text).1 = encode name) = false :=
          decide_eq_false (mt Utf8.encode_inj.mp hname)
        have hne : (name == (headerOf text).1) = false := beq_eq_false_iff_ne.mpr (Ne.symm hname)
        rw [hother, ← ih]
        rw [List.lookup_cons, hne]

section

variable {this : Reply}

theorem Token.isText {name : Bytes} (h : Token name) : IsText name :=
  ⟨_, Utf8.encode_ascii fun byte hbyte => by
    have hvisible := h.visible byte hbyte
    omega⟩

theorem isText_head (htext : IsText this.head) :
    IsText this.phrase ∧ ∀ field ∈ this.fields, IsText field.value := by
  have hstatus (rest : Bytes) : this.version ++ (encode " 304" ++ rest) =
      (this.version ++ encode " 30") ++ 52 :: rest := by
    rw [List.append_assoc]
    rfl
  -- the fields from the first one on
  have hfields (front : Bytes) (fields : List Field)
      (h : IsText (front ++ (fields.map lineOf).flatMap (crlf ++ ·))) :
      IsText front ∧ ∀ field ∈ fields, IsText field.value := by
    induction fields generalizing front with
    | nil =>
        rw [List.map_nil, List.flatMap_nil, List.append_nil] at h
        exact ⟨h, fun _ hfield => absurd hfield List.not_mem_nil⟩
    | cons field fields ih =>
        have hline : front ++ ((field :: fields).map lineOf).flatMap (crlf ++ ·) =
            front ++ CR :: (10 :: field.name ++ COLON ::
              (field.value ++ (fields.map lineOf).flatMap (crlf ++ ·))) := by
          simp [lineOf, crlf, HttpHead.LF]
        rw [hline] at h
        obtain ⟨hfront, h⟩ := isText_split (by decide) h
        obtain ⟨-, h⟩ := isText_split (by decide) h
        obtain ⟨hvalue, hothers⟩ := ih field.value h
        exact ⟨hfront, List.forall_mem_cons.mpr ⟨hvalue, hothers⟩⟩
  rw [Reply.head, Reply.statusLine, hstatus, List.append_assoc, List.cons_append] at htext
  exact hfields _ _ (isText_split (by decide) htext).2

theorem not_mem_toList {text : String} {char : Char} (hsmall : char.toNat < 128)
    (h : UInt8.ofNat char.toNat ∉ encode text) : char ∉ text.toList := by
  intro hmem
  rw [Utf8.encode_eq_flatMap, List.mem_flatMap] at h
  exact h ⟨char, hmem, by rw [Utf8.encodeChar_small hsmall]; exact List.mem_singleton_self _⟩

theorem Token.trim_name {name : String} (h : Token (encode name)) : trim name.toList = name.toList := by
  refine Text.trim_eq_self fun char hchar => ?_
  have hvisible (byte : UInt8) (hbyte : byte ∈ String.utf8EncodeChar char) :
      33 ≤ byte.toNat ∧ byte.toNat < 127 :=
    h.visible byte (by rw [Utf8.encode_eq_flatMap]; exact List.mem_flatMap.mpr ⟨char, hchar, hbyte⟩)
  obtain ⟨first, others, hfirst⟩ := List.exists_cons_of_ne_nil (String.utf8EncodeChar_ne_nil (c := char))
  have hmem : first ∈ String.utf8EncodeChar char := hfirst ▸ List.mem_cons_self
  have hcode := Utf8.mem_encodeChar (by have := hvisible first hmem; omega) hmem
  have hrange := hvisible first hmem
  simp [isWhitespace]
  omega

theorem foldlM_texts {texts : List (String × String)} (h : ∀ text ∈ texts, Token (encode text.1))
    (headers : Cli.Headers) : (texts.map lineText).foldlM HttpResponse.insertHeader headers =
      .ok ((texts.map headerOf).reverse ++ headers) := by
  induction texts generalizing headers with
  | nil => rfl
  | cons text texts ih =>
      obtain ⟨htoken, hothers⟩ := List.forall_mem_cons.mp h
      have hinsert : HttpResponse.insertHeader headers (lineText text) = .ok (headerOf text :: headers) := by
        rw [HttpResponse.insertHeader, lineText,
          splitOnce_append (not_mem_toList (by decide) htoken.colon)]
        show Except.ok ((toAsciiLowercase (String.ofList (trim text.1.toList)), _) :: headers) = _
        rw [htoken.trim_name, String.ofList_toList]
        rfl
      rw [List.map_cons, List.foldlM_cons, hinsert]
      show (texts.map lineText).foldlM HttpResponse.insertHeader (headerOf text :: headers) = _
      rw [ih hothers, List.map_cons, List.reverse_cons, List.append_assoc]
      rfl

-- The head as a text.
def statusText (version : List Char) (phrase : String) : List Char :=
  version ++ ' ' :: ("304".toList ++ phrase.toList)

def headText (version : List Char) (phrase : String) (texts : List (String × String)) : List Char :=
  statusText version phrase ++ (texts.map lineText).flatMap (Text.crlf ++ ·)

theorem head_eq {version : List Char} {phrase : String} {texts : List (String × String)}
    (hversion : this.version = encode (String.ofList version)) (hphrase : this.phrase = encode phrase)
    (hfields : this.fields = texts.map fieldOf) :
    this.head = encode (String.ofList (headText version phrase texts)) := by
  have hothers : (this.fields.map lineOf).flatMap (crlf ++ ·) =
      ((texts.map lineText).flatMap (Text.crlf ++ ·)).flatMap String.utf8EncodeChar := by
    rw [hfields, List.flatMap_assoc, List.map_map, List.flatMap_map, List.flatMap_map]
    refine List.flatMap_congr fun text _ => ?_
    simp only [Function.comp_apply, lineOf, fieldOf, lineText, Utf8.encode_eq_flatMap, List.flatMap_append,
      List.flatMap_cons]
    rfl
  rw [Reply.head, Reply.statusLine, hversion, hphrase, hothers]
  simp only [headText, statusText, Utf8.encode_eq_flatMap, String.toList_ofList, List.flatMap_append,
    List.flatMap_cons, List.append_assoc]
  rfl

theorem splitCrlf_headText {version : List Char} {phrase : String} {texts : List (String × String)}
    (hversion : '\r' ∉ version) (hphrase : CR ∉ encode phrase)
    (htexts : ∀ text ∈ texts, Token (encode text.1) ∧ CR ∉ encode text.2) :
    splitCrlf (headText version phrase texts) = statusText version phrase :: texts.map lineText := by
  refine Text.splitCrlf_join (List.forall_mem_cons.mpr ⟨?_, fun line hline => ?_⟩)
  · have hcode : '\r' ∉ "304".toList := by decide
    simp only [statusText, List.mem_append, List.mem_cons, not_or]
    exact ⟨hversion, by decide, hcode, not_mem_toList (by decide) hphrase⟩
  · obtain ⟨text, htext, rfl⟩ := List.mem_map.mp hline
    obtain ⟨htoken, hvalue⟩ := htexts text htext
    have hname : CR ∉ encode text.1 := fun hmem => absurd (htoken.visible CR hmem).1 (by decide)
    simp only [lineText, List.mem_append, List.mem_cons, not_or]
    exact ⟨not_mem_toList (by decide) hname, by decide, not_mem_toList (by decide) hvalue⟩

theorem splitWhitespace_statusText {version : List Char} {phrase : String} (hversion : version ≠ [])
    (hclean : ∀ char ∈ version, isWhitespace char = false)
    (hphrase : encode phrase = [] ∨ (encode phrase).head? = some SP) :
    ∃ others, splitWhitespace (statusText version phrase) = version :: "304".toList :: others := by
  have hback : phrase.toList = [] ∨ phrase.toList.head? = some ' ' := by
    obtain hnone | hsome := hphrase
    · have hempty : encode phrase = encode "" := hnone
      rw [Utf8.encode_inj.mp hempty]
      exact .inl rfl
    · exact .inr (Utf8.head_encode (by decide) hsome)
  have hcode : "304".toList ≠ [] ∧ ∀ char ∈ "304".toList, isWhitespace char = false :=
    ⟨by decide, List.all_iff_forall_prop.mp (by decide)⟩
  obtain ⟨others, hothers⟩ := Text.splitWhitespace_front hcode.1 hcode.2 hback
  exact ⟨others, by rw [statusText, Text.splitWhitespace_cons hversion hclean, hothers]⟩

theorem parseHead_texts {phrase : String} {texts : List (String × String)} (h : this.WellFormed)
    (hphrase : this.phrase = encode phrase) (hfields : this.fields = texts.map fieldOf) :
    HttpResponse.parseHead this.head = .ok (304, (texts.map headerOf).reverse) := by
  obtain ⟨version, hversion, hknown, hne, hclean⟩ : ∃ version : List Char,
      this.version = encode (String.ofList version) ∧ "HTTP/1.".toList.isPrefixOf version = true ∧
        version ≠ [] ∧ ∀ char ∈ version, isWhitespace char = false := by
    obtain hversion | hversion := h.version
    · exact ⟨"HTTP/1.0".toList, hversion, by decide, by decide, List.all_iff_forall_prop.mp (by decide)⟩
    · exact ⟨"HTTP/1.1".toList, hversion, by decide, by decide, List.all_iff_forall_prop.mp (by decide)⟩
  have htexts : ∀ text ∈ texts, Token (encode text.1) ∧ CR ∉ encode text.2 := fun text htext =>
    h.fields (fieldOf text) (hfields ▸ List.mem_map_of_mem htext)
  have hline : '\r' ∉ version := fun hmem => absurd (hclean _ hmem) (by decide)
  obtain ⟨others, hwords⟩ := splitWhitespace_statusText hne hclean (hphrase ▸ h.phrase.1)
  have hheaders := foldlM_texts (fun text htext => (htexts text htext).1) []
  rw [List.append_nil] at hheaders
  rw [HttpResponse.parseHead, head_eq hversion hphrase hfields, Utf8.decode_encode]
  show (Result.ofOption "missing HTTP status line" (splitCrlf (String.ofList _).toList).head? >>= _) = _
  rw [String.toList_ofList, splitCrlf_headText hline (hphrase ▸ h.phrase.2) htexts]
  show (Result.ofOption "missing HTTP version" (splitWhitespace _)[0]? >>= _) = _
  rw [hwords]
  show (Result.ensure ("HTTP/1.".toList.isPrefixOf version) _ >>= _) = _
  rw [hknown]
  show (parseUnsigned (2 ^ 16) "304".toList >>= fun status =>
    (texts.map lineText).foldlM HttpResponse.insertHeader [] >>= fun headers => pure (status, headers)) = _
  rw [hheaders]
  rfl

theorem position_head (h : this.WellFormed) : position (crlf ++ crlf) this.bytes = some this.head.length := by
  have hstatus : this.statusLine ≠ [] ∧ CR ∉ this.statusLine := by
    have hversion : this.version ≠ [] ∧ CR ∉ this.version := by
      obtain hversion | hversion := h.version <;> rw [hversion] <;> decide
    have hcode : CR ∉ encode " 304" := by decide
    simp only [Reply.statusLine, List.mem_append, not_or]
    exact ⟨List.append_ne_nil_of_left_ne_nil hversion.1 _, hversion.2, hcode, h.phrase.2⟩
  have hlines : ∀ line ∈ this.statusLine :: this.fields.map lineOf, line ≠ [] ∧ CR ∉ line := by
    refine List.forall_mem_cons.mpr ⟨hstatus, fun line hline => ?_⟩
    obtain ⟨field, hfield, rfl⟩ := List.mem_map.mp hline
    obtain ⟨htoken, hvalue⟩ := h.fields field hfield
    have hname : CR ∉ field.name := fun hmem => absurd (htoken.visible CR hmem).1 (by decide)
    simp only [lineOf, List.mem_append, List.mem_cons, not_or]
    exact ⟨by simp, hname, by decide, hvalue⟩
  have hbytes : this.bytes = writeLines (this.statusLine :: this.fields.map lineOf) ++ [] := by
    rw [writeLines, HttpHead.flatMap_ends, Reply.bytes, Reply.head]
    simp only [List.append_assoc, List.append_nil]
  have hend := HttpHead.headEnd_write hlines (List.cons_ne_nil _ _) []
  rw [← hbytes, headEnd_eq] at hend
  obtain ⟨index, hindex, hlength⟩ := Option.map_eq_some_iff.mp hend
  have htotal := congrArg List.length hbytes
  simp only [Reply.bytes, crlf, List.append_nil, List.length_append, List.length_cons,
    List.length_nil] at htotal
  rw [hindex]
  exact congrArg some (by omega)

-- Where there is no body, only one of no bytes is framed.
theorem parseBody_nil_iff {headers : Cli.Headers} {out : Bytes} :
    HttpResponse.parseBody headers false [] = pure out ↔ out = [] ∧
      (∀ value, headers.lookup "transfer-encoding" = some value → "chunked".toList ∉ codings value) ∧
      ∀ value, headers.lookup "content-length" = some value →
        parseUnsigned (2 ^ 64) value.toList = .ok 0 := by
  rw [cli_parseBody]
  by_cases hchunked : HttpResponse.isChunked headers = true
  · have hdecoded : Cli.decodeChunked [] = Checked.ofResult (.error ["invalid chunked rule-set response"]) :=
      Cli.decoder.run_error (by rfl)
    rw [if_pos hchunked, hdecoded]
    obtain ⟨value, hvalue, hitem⟩ := isChunked_iff.mp hchunked
    constructor
    · intro h; cases h
    · exact fun h => absurd hitem (h.2.1 value hvalue)
  · have hplain : ∀ value, headers.lookup "transfer-encoding" = some value →
        "chunked".toList ∉ codings value := fun value hvalue hitem =>
      hchunked (isChunked_iff.mpr ⟨value, hvalue, hitem⟩)
    rw [if_neg hchunked, plainBody_ok_iff]
    cases hlength : headers.lookup "content-length" with
    | none =>
        constructor
        · rintro ⟨limit, rfl, -, rfl⟩
          exact ⟨rfl, hplain, fun _ hvalue => (nomatch hvalue)⟩
        · rintro ⟨rfl, -⟩
          exact ⟨none, rfl, fun _ hmost => (nomatch hmost), rfl⟩
    | some length =>
        constructor
        · rintro ⟨limit, ⟨most, hmost, rfl⟩, hfits, rfl⟩
          obtain rfl : most = 0 := Nat.le_zero.mp (hfits most rfl)
          refine ⟨rfl, hplain, fun value hvalue => ?_⟩
          rwa [← Option.some.inj hvalue]
        · rintro ⟨rfl, -, hzero⟩
          refine ⟨some 0, ⟨0, hzero length rfl, rfl⟩, fun most hmost => ?_, rfl⟩
          rw [← Option.some.inj hmost]
          exact Nat.le_refl 0

-- What is made of the head, where its parts are texts.
theorem parseHead_reply (h : this.WellFormed)
    (htext : IsText this.phrase ∧ ∀ field ∈ this.fields, IsText field.value) :
    ∃ headers, HttpResponse.parseHead this.head = .ok (304, headers) ∧
      ∀ name, headers.lookup name = this.last name := by
  obtain ⟨⟨phrase, hphrase⟩, hvalues⟩ := htext
  obtain ⟨texts, hfields⟩ := exists_texts fun field hfield =>
    ⟨(h.fields field hfield).1.isText, hvalues field hfield⟩
  refine ⟨_, parseHead_texts h hphrase hfields, fun name => ?_⟩
  rw [← List.map_reverse, lookup_find, Reply.last, hfields, ← List.map_reverse]

theorem parse_reply (h : this.WellFormed) (hreadable : this.Readable) :
    ∃ headers, HttpResponse.parse this.bytes false = pure ⟨304, headers, []⟩ := by
  obtain ⟨headers, hhead, hlookup⟩ := parseHead_reply h hreadable.text
  have hbody : HttpResponse.parseBody headers false [] = pure [] := by
    refine parseBody_nil_iff.mpr ⟨rfl, ?_, ?_⟩
    · simpa only [hlookup] using hreadable.coding
    · simpa only [hlookup] using hreadable.length
  refine ⟨headers, ?_⟩
  rw [Reply.bytes, HttpResponse.parse_append (position_head h) hreadable.size hhead, hbody, pure_bind]

theorem readable_of_parse (h : this.WellFormed) {response : HttpResponse}
    (hparse : HttpResponse.parse this.bytes false = pure response) : this.Readable := by
  rw [HttpResponse.parse, position_head h, Checked.ofOption_some, pure_bind] at hparse
  obtain ⟨⟨⟩, hsize, hparse⟩ := Checked.bind_eq_pure.mp hparse
  obtain ⟨⟨status, headers⟩, hhead, hparse⟩ := Checked.bind_eq_pure.mp hparse
  obtain ⟨out, hbody, -⟩ := Checked.bind_eq_pure.mp hparse
  have hcut : this.bytes.drop (this.head.length + 4) = [] := by
    rw [Reply.bytes, List.drop_length_add_append]
    rfl
  rw [hcut] at hbody
  rw [Reply.bytes, List.take_left] at hhead
  have hhead : HttpResponse.parseHead this.head = .ok (status, headers) := Except.ok.inj hhead
  obtain ⟨text, htext, -⟩ := Result.bind_eq_ok.mp hhead
  have hparts := isText_head ⟨text, Utf8.encode_of_decode (Result.ofOption_eq_ok.mp htext)⟩
  obtain ⟨same, hsame, hlookup⟩ := parseHead_reply h hparts
  obtain ⟨-, rfl⟩ := Prod.mk.inj (Except.ok.inj (hhead.symm.trans hsame))
  obtain ⟨-, hcoding, hlength⟩ := parseBody_nil_iff.mp hbody
  simp only [hlookup] at hcoding hlength
  exact ⟨by simpa using Result.ensure_eq_ok.mp (Except.ok.inj hsize), hparts, hcoding, hlength⟩

end

section

variable {exchange : ParsedUrl → Bytes → Result Bytes} {etag : Option String}

-- What `fetch_inner` sends to a server.
def conditionalRequest (etag : Option String) (url : ParsedUrl) : Bytes :=
  encode (requestHead url "GET" (conditionalHeaders etag) []) ++ []

def PlainEtag (etag : Option String) : Prop :=
  etag.all (fun etag => !Cli.containsAny ['\r', '\n'] etag.toList) = true

theorem admits_conditionalHeaders (h : PlainEtag etag) :
    (conditionalHeaders etag).all Cli.admitsHeader = true := by
  cases etag with
  | none => decide
  | some etag =>
      have hname : ("If-None-Match" != "" && (encode "If-None-Match").all
          fun byte => Cli.asciiAlphanumeric byte || byte == 45) = true := by decide
      have hfirst : Cli.admitsHeader ("If-None-Match", etag) = true := Bool.and_eq_true_iff.mpr ⟨hname, h⟩
      have hsecond : Cli.admitsHeader ("Accept", "application/octet-stream, application/json") = true := by
        decide
      simp [conditionalHeaders, hfirst, hsecond]

theorem request_ok_iff (hetag : PlainEtag etag) {url : ParsedUrl} {bytes : Bytes}
    (hreply : exchange url (conditionalRequest etag url) = .ok bytes) {response : HttpResponse} :
    Cli.HttpClient.request exchange url "GET" (conditionalHeaders etag) [] = pure response ↔
      bytes.length ≤ Cli.MAX_RESPONSE_SIZE ∧ HttpResponse.parse bytes false = pure response := by
  have hmethod : ("GET" != "" && (encode "GET").all fun byte => Cli.asciiUppercase byte || byte == 45) =
      true := by decide
  have hget : ("GET" == "HEAD") = false := by decide
  rw [Cli.HttpClient.request, hmethod, Checked.ensure_true, pure_bind, admits_conditionalHeaders hetag,
    Checked.ensure_true, pure_bind, ← conditionalRequest, hreply, Checked.ofResult_ok, pure_bind, hget]
  dsimp only
  by_cases hsize : bytes.length ≤ Cli.MAX_RESPONSE_SIZE
  · rw [List.take_of_length_le (by omega), decide_eq_true hsize, Checked.ensure_true, pure_bind]
    exact (and_iff_right hsize).symm
  · have hlong : ¬(bytes.take (Cli.MAX_RESPONSE_SIZE + 1)).length ≤ Cli.MAX_RESPONSE_SIZE := by
      rw [List.length_take]
      omega
    rw [decide_eq_false hlong, Checked.ensure_false, Checked.error_bind]
    constructor
    · intro h; cases h
    · exact fun h => absurd h.1 hsize

-- From one URL and what is left of the redirects to another, over replies that redirect.
inductive Redirected (exchange : ParsedUrl → Bytes → Result Bytes) (etag : Option String) :
    Nat → String → Nat → String → Prop where
  | here (left : Nat) (url : String) : Redirected exchange etag left url left url
  | again {left last : Nat} {url location next final : String} {parsed : ParsedUrl}
      {response : HttpResponse} (hurl : ParsedUrl.parse url = .ok parsed)
      (hresponse : Cli.HttpClient.request exchange parsed "GET" (conditionalHeaders etag) [] = pure response)
      (hstatus : response.status ∈ [301, 302, 303, 307, 308])
      (hlocation : response.header "location" = some location)
      (hnext : parsed.resolve location = .ok next)
      (hrest : Redirected exchange etag left next last final) :
      Redirected exchange etag (left + 1) url last final

theorem Redirected.fetchFrom_eq (hetag : PlainEtag etag) {left last : Nat} {url final : String}
    (h : Redirected exchange etag left url last final) :
    fetchFrom exchange etag left url = fetchFrom exchange etag last final := by
  induction h with
  | here => rfl
  | @again left last url location next final parsed response hurl hresponse hstatus hlocation hnext hrest ih =>
      have hother : response.status ≠ 200 ∧ response.status ≠ 304 := by
        constructor <;> intro heq <;> rw [heq] at hstatus <;> revert hstatus <;> decide
      have hredirects : [301, 302, 303, 307, 308].contains response.status = true :=
        List.contains_iff_mem.mpr hstatus
      rw [← ih, fetchFrom, hurl, Checked.ofResult_ok, pure_bind, hetag, Checked.ensure_true, pure_bind,
        hresponse, pure_bind, if_neg hother.1, if_neg hother.2, if_pos hredirects, hlocation]
      show (Checked.ofResult (parsed.resolve location) >>= fun url => fetchFrom exchange etag left url) = _
      rw [hnext]
      rfl

theorem fetchFrom_notModified_iff (hetag : PlainEtag etag) {left : Nat} {url : String} {parsed : ParsedUrl}
    {reply : Reply} (hurl : ParsedUrl.parse url = .ok parsed) (h : reply.WellFormed)
    (hreply : exchange parsed (conditionalRequest etag parsed) = .ok reply.bytes) :
    fetchFrom exchange etag left url = pure .notModified ↔ reply.Readable := by
  rw [fetchFrom, hurl, Checked.ofResult_ok, pure_bind, hetag, Checked.ensure_true, pure_bind]
  constructor
  · intro hresult
    obtain ⟨response, hresponse, -⟩ := Checked.bind_eq_pure.mp hresult
    exact readable_of_parse h ((request_ok_iff hetag hreply).mp hresponse).2
  · intro hreadable
    obtain ⟨headers, hparse⟩ := parse_reply h hreadable
    have hlength : reply.bytes.length ≤ Cli.MAX_RESPONSE_SIZE := by
      have hsize := hreadable.size
      simp only [Reply.bytes, crlf, List.length_append, List.length_cons, List.length_nil,
        Cli.MAX_RESPONSE_SIZE]
      omega
    rw [(request_ok_iff hetag hreply).mpr ⟨hlength, hparse⟩]
    rfl

end

-- The fields are looked at before the status is: a reply with status 304 is taken, and a fetch
-- that comes to it finds its rule set as it was, where the fields frame no body.
theorem not_modified_iff {reply : Reply} (h : reply.WellFormed) :
    ((∃ response, HttpResponse.parse reply.bytes false = pure response) ↔ reply.Readable) ∧
      ∀ (exchange : ParsedUrl → Bytes → Result Bytes) (etag : Option String) (url final : String)
        (last : Nat) (parsed : ParsedUrl), PlainEtag etag →
        Redirected exchange etag Cli.MAX_REDIRECTS url last final → ParsedUrl.parse final = .ok parsed →
        exchange parsed (conditionalRequest etag parsed) = .ok reply.bytes →
        (fetchInner exchange url etag = pure .notModified ↔ reply.Readable) := by
  refine ⟨⟨fun hparsed => ?_, fun hreadable => ?_⟩, fun exchange etag url final last parsed hetag hredirected
    hurl hreply => ?_⟩
  · obtain ⟨response, hresponse⟩ := hparsed
    exact readable_of_parse h hresponse
  · obtain ⟨headers, hresponse⟩ := parse_reply h hreadable
    exact ⟨_, hresponse⟩
  · rw [fetchInner, hredirected.fetchFrom_eq hetag]
    exact fetchFrom_notModified_iff hetag hurl h hreply

def lengthReply (length : String) : Reply where
  version := encode "HTTP/1.1"
  phrase := encode " Not Modified"
  fields := [⟨encode "Content-Length", encode (" " ++ length)⟩]

theorem lengthReply_wellFormed {length : String} (h : CR ∉ encode (" " ++ length)) :
    (lengthReply length).WellFormed where
  version := .inr rfl
  phrase := by
    show (encode " Not Modified" = [] ∨ (encode " Not Modified").head? = some SP) ∧
      CR ∉ encode " Not Modified"
    decide
  fields field hfield := by
    obtain rfl := List.mem_singleton.mp hfield
    have hvisible : ∀ byte ∈ encode "Content-Length", 33 ≤ byte.toNat ∧ byte.toNat < 127 :=
      List.all_iff_forall_prop.mp (by decide)
    have hcolon : COLON ∉ encode "Content-Length" := by decide
    exact ⟨⟨hvisible, hcolon⟩, h⟩

theorem not_modified_length : fetchInner (fun _ _ => .ok (lengthReply "0").bytes) "http://a/" none =
    pure .notModified := by
  have hreadable : (lengthReply "0").Readable := by
    refine ⟨by decide, ⟨⟨_, rfl⟩, fun field hfield => ?_⟩, fun value hvalue => ?_, fun value hvalue => ?_⟩
    · obtain rfl := List.mem_singleton.mp hfield
      exact ⟨_, rfl⟩
    · have hnone : (lengthReply "0").last "transfer-encoding" = none := by rfl
      cases hnone.symm.trans hvalue
    · have hzero : (lengthReply "0").last "content-length" = some "0" := by rfl
      rw [← Option.some.inj (hzero.symm.trans hvalue)]
      rfl
  have hfetch := (not_modified_iff (lengthReply_wellFormed (by decide))).2
    (fun _ _ => .ok (lengthReply "0").bytes) none "http://a/" "http://a/" Cli.MAX_REDIRECTS _ rfl
    (.here _ _) rfl rfl
  exact hfetch.mpr hreadable

-- The length of the representation, as it may come with the status.
theorem not_modified_refused : ¬∀ reply : Reply, reply.WellFormed →
    ∃ response, HttpResponse.parse reply.bytes false = pure response := by
  intro h
  obtain ⟨response, hresponse⟩ := h (lengthReply "5") (lengthReply_wellFormed (by decide))
  have hrefused : HttpResponse.parse (lengthReply "5").bytes false =
      Checked.ofResult (.error ["truncated rule-set HTTP response body"]) := by rfl
  cases hrefused.symm.trans hresponse

end SingBox.Responses
