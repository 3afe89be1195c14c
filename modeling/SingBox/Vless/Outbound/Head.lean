import SingBox.Vless.Http.RoundTrip
import SingBox.Vless.Outbound

namespace SingBox.Vless

open Library
open Core (toAsciiLowercase)
open Text (crlf isWhitespace)
open Utf8 (encode)

namespace VlessOutbound

def requestLine (this : VlessOutbound) : List Char :=
  "GET ".toList ++ (rootedPath this.path).toList ++ " HTTP/1.1".toList

-- The headers in the order in which they are sent.
def fixed (this : VlessOutbound) (key : String) : List (String × String) :=
  [("Host", this.host), ("Upgrade", "websocket"), ("Connection", "Upgrade"),
    ("Sec-WebSocket-Version", "13"), ("Sec-WebSocket-Key", key)]

def later (this : VlessOutbound) (request : Bytes) : List (String × String) :=
  this.configured ++
    if this.earlyData request then [(this.earlyDataHeaderName, encodeBase64Url request)] else []

def sent (this : VlessOutbound) (key : String) (request : Bytes) : List (String × String) :=
  this.fixed key ++ this.later request

def fieldOf (header : String × String) : List Char × List Char := (header.1.toList, header.2.toList)

theorem headerLine_toList (header : String × String) :
    (headerLine header).toList = fieldText (fieldOf header) ++ crlf := by
  rw [headerLine, String.toList_append, String.toList_append, String.toList_append, fieldText]
  simp only [List.append_assoc]
  rfl

theorem http_toList (this : VlessOutbound) (key : String) (request : Bytes) :
    (this.http key request).toList =
      headText this.requestLine ((this.sent key request).map fun header =>
        fieldText (fieldOf header)) := by
  have hlines : ∀ headers : List (String × String),
      (String.join (headers.map headerLine)).toList =
        (headers.map fun header => fieldText (fieldOf header)).flatMap (· ++ crlf) := by
    intro headers
    rw [String.toList_join, List.flatMap_map, List.flatMap_map]
    exact List.flatMap_congr fun header _ => headerLine_toList header
  have hearly : (if this.earlyData request then
        headerLine (this.earlyDataHeaderName, encodeBase64Url request) else "").toList =
      ((if this.earlyData request then
        [(this.earlyDataHeaderName, encodeBase64Url request)] else []).map fun header =>
          fieldText (fieldOf header)).flatMap (· ++ crlf) := by
    split
    · rw [headerLine_toList, List.map_singleton, List.flatMap_singleton]
    · rfl
  have hhead : headText this.requestLine ((this.sent key request).map fun header =>
        fieldText (fieldOf header)) =
      (this.requestLine :: (this.sent key request).map fun header =>
        fieldText (fieldOf header)).flatMap (· ++ crlf) ++ crlf := by
    rw [headText, HttpHead.flatMap_ends, ← List.append_assoc]
  rw [hhead, sent, later, List.map_append, List.map_append, List.flatMap_cons,
    List.flatMap_append, List.flatMap_append]
  unfold http
  have hstring (text : String) : toString text = text := rfl
  simp only [String.toList_append, hlines, hearly, hstring, List.append_assoc]
  -- what is left to compare are the first lines
  unfold requestLine
  simp [fixed, fieldText, fieldOf, crlf]

theorem http_bytes (this : VlessOutbound) (key : String) (request : Bytes) :
    encode (this.http key request) =
      headBytes this.requestLine ((this.sent key request).map fieldOf) := by
  have htext : this.http key request = String.ofList (this.http key request).toList :=
    String.ofList_toList.symm
  rw [htext, http_toList, headBytes, List.map_map]
  rfl

-- A name as HTTP has them, at least where blanks and colons are concerned.
def Token (name : String) : Prop := ∀ char ∈ name.toList, isWhitespace char = false ∧ char ≠ ':'

-- A configuration that a head can carry, and whose early data has a header to itself.
structure Plain (this : VlessOutbound) : Prop where
  path : ∀ char ∈ this.path.toList, isWhitespace char = false ∧ char ≠ '?'
  host : '\r' ∉ this.host.toList
  names : ∀ header ∈ this.configured, Token header.1
  values : ∀ header ∈ this.configured, '\r' ∉ header.2.toList
  earlyToken : Token this.earlyDataHeaderName
  earlyReserved : toAsciiLowercase this.earlyDataHeaderName ∉ RESERVED
  earlyConfigured : ∀ header ∈ this.configured,
    toAsciiLowercase header.1 ≠ toAsciiLowercase this.earlyDataHeaderName

theorem Token.cr {name : String} (h : Token name) : '\r' ∉ name.toList :=
  fun hmem => Bool.noConfusion (h '\r' hmem).1

theorem entryOf_fieldOf {header : String × String} (h : Token header.1) :
    entryOf (fieldOf header) =
      (toAsciiLowercase header.1, String.ofList (Text.trim header.2.toList)) := by
  have hname : Text.trim header.1.toList = header.1.toList :=
    Text.trim_eq_self fun char hchar => (h char hchar).1
  rw [entryOf, fieldOf, hname, String.ofList_toList]

theorem mem_sent {this : VlessOutbound} {key : String} {request : Bytes}
    {header : String × String} (h : header ∈ this.sent key request) :
    header ∈ this.fixed key ∨ header ∈ this.configured ∨
      header = (this.earlyDataHeaderName, encodeBase64Url request) := by
  rw [sent, later, List.mem_append, List.mem_append] at h
  refine h.imp id (Or.imp id fun hearly => ?_)
  split at hearly
  · exact List.mem_singleton.mp hearly
  · cases hearly

theorem Plain.tokens {this : VlessOutbound} (h : this.Plain) {key : String} {request : Bytes}
    {header : String × String} (hmem : header ∈ this.sent key request) : Token header.1 := by
  rcases mem_sent hmem with hfixed | hconfigured | rfl
  · have hall : ∀ name ∈ ["Host", "Upgrade", "Connection", "Sec-WebSocket-Version",
        "Sec-WebSocket-Key"], Token name := by
      simp [Token, isWhitespace]
    exact hall header.1 (List.mem_map_of_mem (f := Prod.fst) hfixed)
  · exact h.names header hconfigured
  · exact h.earlyToken

theorem notMem_of_plain {text : List Char} (h : ∀ char ∈ text, isWhitespace char = false) :
    '\r' ∉ text := fun hmem => Bool.noConfusion (h '\r' hmem)

theorem Plain.readable {this : VlessOutbound} (h : this.Plain) {key : String}
    (hkey : ∀ char ∈ key.toList, isWhitespace char = false) (request : Bytes) :
    Readable this.requestLine ((this.sent key request).map fieldOf) where
  first := by
    have hpath : '\r' ∉ this.path.toList := notMem_of_plain fun char hchar => (h.path char hchar).1
    have hrooted : '\r' ∉ (rootedPath this.path).toList := by
      unfold rootedPath
      split
      · exact hpath
      · simpa using hpath
    unfold requestLine
    refine ⟨by simp, ?_⟩
    simp [hrooted]
  names := by
    refine List.forall_mem_map.mpr fun header hheader hmem => ?_
    exact (h.tokens hheader ':' hmem).2 rfl
  fields := by
    refine List.forall_mem_map.mpr fun header hheader => ⟨(h.tokens hheader).cr, ?_⟩
    rcases mem_sent hheader with hfixed | hconfigured | rfl
    · have hall : ∀ value ∈ [this.host, "websocket", "Upgrade", "13", key],
          '\r' ∉ value.toList := by
        simp [h.host, notMem_of_plain hkey]
      exact hall header.2 (List.mem_map_of_mem (f := Prod.snd) hfixed)
    · exact h.values header hconfigured
    · have hearly := notMem_of_plain (encodeBase64Url_plain request)
      generalize encodeBase64Url request = value at hearly ⊢
      exact hearly

-- What the server finds under a name: the last header of it.
theorem Plain.header_last {this : VlessOutbound} (h : this.Plain) {key : String} {request : Bytes}
    {front back : List (String × String)} {name value : String}
    (hsent : this.sent key request = front ++ (name, value) :: back)
    (hback : ∀ other ∈ back, toAsciiLowercase other.1 ≠ toAsciiLowercase name) (tail : Bytes) :
    (requestOf this.requestLine ((this.sent key request).map fieldOf) tail).header name =
      some (String.ofList (Text.trim value.toList)) := by
  have htoken : ∀ other ∈ front ++ (name, value) :: back,
      entryOf (fieldOf other) =
        (toAsciiLowercase other.1, String.ofList (Text.trim other.2.toList)) :=
    fun other hother => entryOf_fieldOf (h.tokens (hsent ▸ hother))
  have hfield := htoken (name, value) (List.mem_append_right _ List.mem_cons_self)
  have hlast : ∀ other ∈ back.map fieldOf,
      (entryOf other).1 ≠ (entryOf (fieldOf (name, value))).1 := by
    refine List.forall_mem_map.mpr fun other hother => ?_
    rw [htoken other (List.mem_append_right _ (List.mem_cons_of_mem _ hother)), hfield]
    exact hback other hother
  have hlookup := lookup_last (front.map fieldOf) _ hlast
  rw [hfield] at hlookup
  rw [HttpRequest.header, requestOf, hsent, List.map_append, List.map_cons]
  exact hlookup

theorem Plain.header_none {this : VlessOutbound} (h : this.Plain) {key : String} {request : Bytes}
    {name : String} (hnone : ∀ other ∈ this.sent key request,
      toAsciiLowercase other.1 ≠ toAsciiLowercase name) (tail : Bytes) :
    (requestOf this.requestLine ((this.sent key request).map fieldOf) tail).header name = none := by
  refine lookup_none (List.forall_mem_map.mpr fun other hother => ?_)
  rw [entryOf_fieldOf (h.tokens hother)]
  exact hnone other hother

end VlessOutbound

end SingBox.Vless
