import SingBox.Cloudflared.Http2Request
import SingBox.Cloudflared.Request.Source
import Mathlib.Data.Bool.AllAny

namespace SingBox.Cloudflared

open Library SingBox.Core

-- A host as an authority has it: a name or an address in brackets, and perhaps a port.
structure HostPort where
  name : List Char
  bracketed : Bool
  port : Option (List Char)
  name_chars : ∀ char ∈ name, char ∉ ['/', '?', '#', '@', '[', ']'] ∧
    (char = ':' → bracketed = true)
  port_number : ∀ digits, port = some digits → ':' ∉ digits ∧ ∃ n, parseUnsigned 65536 digits = .ok n

namespace HostPort

-- `Authority::host`
def bare (this : HostPort) : List Char :=
  if this.bracketed then '[' :: this.name ++ [']'] else this.name

def text (this : HostPort) : List Char :=
  match this.port with
  | some digits => this.bare ++ ':' :: digits
  | none => this.bare

end HostPort

-- A request of a user of the tunnel. Where its host is a header as well, that is the same
-- host; the headers by which the edge tells the kind of a stream are its own.
structure LogicalRequest where
  method : String
  scheme : String
  host : HostPort
  path : String
  websocket : Bool
  headers : List Header
  path_head : path.toList.head? = some '/'
  names_lower : ∀ header ∈ headers, toAsciiLowercase header.name = header.name
  values_text : ∀ header ∈ headers, header.value.all visibleAscii = true
  host_header : ∀ header ∈ headers, header.name = "host" →
    asciiText header.value = String.ofList host.text
  control_header : ∀ header ∈ headers, header.name ≠ toAsciiLowercase H2_CONTROL_HEADER ∧
    header.name ≠ toAsciiLowercase H2_TCP_SOURCE_HEADER

namespace LogicalRequest

def uri (this : LogicalRequest) : Uri where
  scheme := some this.scheme
  authority := some
    { text := String.ofList this.host.text
      host := String.ofList this.host.bare
      port := this.host.port.bind fun digits =>
        (parseUnsigned 65536 digits).toOption.map UInt16.ofNat }
  pathAndQuery := some this.path
  path := String.ofList (this.path.toList.takeWhile (· ≠ '?'))

def connectionType (this : LogicalRequest) : ConnectionType :=
  if this.websocket then .websocket else .http

-- The header fields of its HTTP/2 form.
def fields (this : LogicalRequest) : List Header :=
  if this.websocket then
    ⟨toAsciiLowercase H2_CONTROL_HEADER, "websocket".toUTF8.data.toList⟩ :: this.headers
  else this.headers

-- `yielded` are the fields in the order of the header map.
def toHttp2 (this : LogicalRequest) (yielded : List Header) : Http2Request :=
  { method := this.method, uri := this.uri, headers := yielded }

-- `spell` gives the names of the headers their letter case.
def toQuic (this : LogicalRequest) (spell : String → String) : ConnectRequest :=
  { destination := this.uri.text
    connectionType := this.connectionType
    metadata := ⟨"HttpMethod", this.method⟩ :: ⟨"HttpHost", String.ofList this.host.text⟩ ::
      this.headers.map fun header =>
        ⟨HTTP_HEADER ++ spell header.name, asciiText header.value⟩ }

end LogicalRequest

-- `canonicalName`: the first letter of each part is a capital one.
def canonicalName (name : String) : String :=
  String.ofList (go true name.toList)
where
  go (first : Bool) : List Char → List Char
    | [] => []
    | char :: rest => (if first then char.toUpper else char) :: go (char = '-') rest

example : canonicalName "x-forwarded-for" = "X-Forwarded-For" := by decide

section

variable (parseUri : String → Result Uri) (state : RemoteConfigState) (tag : String)

-- The rule that `resolve_remote_request` finds.
def selectedRule (request : ConnectRequest) : Result (Option RemoteIngressRule) := do
  let uri ← parseUri request.destination
  return ingressRule state request uri

-- The session the router gets for the request, unless that is answered with a status.
def originSession (request : ConnectRequest) : Result (Option Session) := do
  let (request, status) ← resolveRemoteRequest parseUri state request
  if status.isSome then return none
  else
    let origin ← prepareOriginRequest parseUri tag request
    return some origin.session

-- Both requests are routed alike.
def Agree (left right : ConnectRequest) : Prop :=
  selectedRule parseUri state left = selectedRule parseUri state right ∧
    originSession parseUri state tag left = originSession parseUri state tag right

end

-- Two requests to an origin that can differ in their source only.
structure Alike (parseUri : String → Result Uri) (left right : ConnectRequest) : Prop where
  destination : left.destination = right.destination
  connectionType : left.connectionType = right.connectionType
  origin : right.connectionType ≠ .tcp
  host : ∀ uri, parseUri right.destination = .ok uri →
    requestHost left uri = requestHost right uri

theorem rsplitOnce_append {separator : Char} {before after : List Char} (h : separator ∉ after) :
    rsplitOnce separator (before ++ separator :: after) = some (before, after) := by
  have hafter : separator ∉ after.reverse := mt List.mem_reverse.mp h
  simp [rsplitOnce, splitOnce_append hafter]

theorem rsplitOnce_none {separator : Char} {text : List Char} (h : separator ∉ text) :
    rsplitOnce separator text = none := by
  simp [rsplitOnce, splitOnce_none (mt List.mem_reverse.mp h)]

theorem normalizeHost_plain {text : List Char} (h : text.head? ≠ some '[') :
    normalizeHost (String.ofList text) = toAsciiLowercase (String.ofList
      (match rsplitOnce ':' text with
      | some (host, port) => if (parseUnsigned 65536 port).isOk then host else text
      | none => text)) := by
  have hhead : ∀ inner, text ≠ '[' :: inner := by
    rintro inner rfl
    exact h rfl
  cases hsplit : rsplitOnce ':' text with
  | none => simp only [normalizeHost, String.toList_ofList, hsplit]
  | some parts =>
      obtain ⟨host, port⟩ := parts
      simp only [normalizeHost, String.toList_ofList, hsplit]
      cases parseUnsigned 65536 port <;> rfl

-- The port of a host is no part of what a rule is looked for by.
theorem normalizeHost_text (host : HostPort) :
    normalizeHost (String.ofList host.text) = normalizeHost (String.ofList host.bare) := by
  cases hport : host.port with
  | none => rw [HostPort.text, hport]
  | some digits =>
      obtain ⟨hcolon, n, hnumber⟩ := host.port_number digits hport
      have hname {char : Char} (hchar : char ∈ ['/', '?', '#', '@', '[', ']']) : char ∉ host.name :=
        fun hmem => (host.name_chars char hmem).1 hchar
      cases hbracketed : host.bracketed with
      | true =>
          have hclosing : ∀ char ∈ host.name, char ≠ ']' := fun char hmem hchar =>
            hname (by decide) (hchar ▸ hmem)
          simp only [normalizeHost, HostPort.text, HostPort.bare, hport, hbracketed, if_true,
            String.toList_ofList, List.cons_append, List.append_assoc]
          rw [List.takeWhile_append_of_pos (by simpa using hclosing),
            List.takeWhile_append_of_pos (by simpa using hclosing)]
          rfl
      | false =>
          have hplain : ':' ∉ host.name := fun hmem => by
            have hbracket := (host.name_chars ':' hmem).2 rfl
            rw [hbracketed] at hbracket
            cases hbracket
          have hbare : host.bare = host.name := by simp [HostPort.bare, hbracketed]
          have htext : host.text = host.name ++ ':' :: digits := by
            simp only [HostPort.text, hport, hbare]
          have hopening {rest : List Char} (hrest : rest.head? ≠ some '[') :
              (host.name ++ rest).head? ≠ some '[' := by
            cases hlist : host.name with
            | nil => exact hrest
            | cons char tail =>
                intro hchar
                obtain rfl : char = '[' := Option.some.inj hchar
                exact hname (by decide) (hlist ▸ List.mem_cons_self)
          rw [htext, hbare, normalizeHost_plain (hopening (by simp)), rsplitOnce_append hcolon,
            ← List.append_nil host.name, normalizeHost_plain (hopening (by decide)),
            List.append_nil, rsplitOnce_none hplain]
          simp [hnumber, Except.isOk, Except.toBool]

section

variable {parseUri : String → Result Uri} {state : RemoteConfigState} {tag : String}
variable {left right : ConnectRequest}

theorem Alike.ingressRule_eq (h : Alike parseUri left right) {uri : Uri}
    (hparse : parseUri right.destination = .ok uri) :
    ingressRule state left uri = ingressRule state right uri := by
  simp only [ingressRule, h.host uri hparse]

theorem Alike.selectedRule_eq (h : Alike parseUri left right) :
    selectedRule parseUri state left = selectedRule parseUri state right := by
  simp only [selectedRule, h.destination]
  cases hparse : parseUri right.destination with
  | error chain => simp only [Bind.bind, Except.bind]
  | ok uri => exact congrArg Except.ok (h.ingressRule_eq hparse)

-- What a rule makes of a request, it makes of one with other metadata.
theorem applyRule_metadata (rule : RemoteIngressRule) (request : ConnectRequest)
    (metadata : List Metadata) (uri : Uri) :
    applyRule parseUri rule { request with metadata } uri =
      (applyRule parseUri rule request uri).map fun resolved =>
        ({ resolved.1 with metadata }, resolved.2) := by
  unfold applyRule
  split
  · cases Result.withContext "parse Cloudflared status service"
      (parseUnsigned 65536 (rule.service.toList.drop "http_status:".length)) <;> rfl
  · cases Result.withContext "parse Cloudflared ingress service URL" (parseUri rule.service) with
    | error chain => rfl
    | ok service =>
        cases hsupported : (service.scheme.any ["http", "https", "ws", "wss"].contains &&
            service.authority.isSome) <;>
          simp [hsupported, Result.ensure, Result.bail, Bind.bind, Except.bind, Except.map,
            Pure.pure, Except.pure]

theorem Alike.resolveRemoteRequest_eq (h : Alike parseUri left right) :
    resolveRemoteRequest parseUri state left =
      (resolveRemoteRequest parseUri state right).map fun resolved =>
        ({ resolved.1 with metadata := left.metadata }, resolved.2) := by
  have hleft : left = { right with metadata := left.metadata } := by
    rw [← h.destination, ← h.connectionType]
  unfold resolveRemoteRequest
  by_cases hempty : state.ingress.isEmpty
  · rw [if_pos hempty, if_pos hempty, hleft]
    rfl
  · rw [if_neg hempty, if_neg hempty, h.destination]
    cases hparse : parseUri right.destination with
    | error chain => rfl
    | ok uri =>
        have hrule : ingressRule state left uri = ingressRule state right uri :=
          h.ingressRule_eq hparse
        cases hright : ingressRule state right uri with
        | none =>
            rw [hright] at hrule
            simp [hrule, hright, Result.withContext, Result.ofOption, Result.bail, Bind.bind,
              Except.bind, Except.map]
        | some rule =>
            rw [hright] at hrule
            have happly : applyRule parseUri rule { right with metadata := left.metadata } uri = _ :=
              applyRule_metadata rule right left.metadata uri
            rw [← hleft] at happly
            simpa [hrule, hright, Result.withContext, Result.ofOption, Bind.bind,
              Except.bind] using happly

theorem resolveRemoteRequest_type {request resolved : ConnectRequest} {status : Option UInt16}
    (h : resolveRemoteRequest parseUri state request = .ok (resolved, status)) :
    resolved.connectionType = request.connectionType ∧ resolved.metadata = request.metadata := by
  unfold resolveRemoteRequest at h
  split at h
  · obtain ⟨rfl, rfl⟩ := Prod.mk.inj (Except.ok.inj h)
    exact ⟨rfl, rfl⟩
  · obtain ⟨uri, _, h⟩ := Result.bind_eq_ok.mp h
    obtain ⟨rule, _, h⟩ := Result.bind_eq_ok.mp h
    unfold applyRule at h
    split at h
    · obtain ⟨code, _, h⟩ := Result.bind_eq_ok.mp h
      obtain ⟨rfl, rfl⟩ := Prod.mk.inj (Except.ok.inj h)
      exact ⟨rfl, rfl⟩
    · obtain ⟨service, _, h⟩ := Result.bind_eq_ok.mp h
      obtain ⟨_, _, h⟩ := Result.bind_eq_ok.mp h
      obtain ⟨rfl, rfl⟩ := Prod.mk.inj (Except.ok.inj h)
      exact ⟨rfl, rfl⟩

-- Where the destination is known there is a host as well.
theorem prepareOriginRequest_session {request : ConnectRequest}
    (horigin : request.connectionType ≠ .tcp) :
    (prepareOriginRequest parseUri tag request).map Origin.session =
      (destinationForRequest parseUri request.destination request.connectionType).map fun found =>
        Session.ofInbound found.1 request.sourceForRequest found.2 tag none := by
  have hkind : request.connectionType = .http ∨ request.connectionType = .websocket := by
    cases hkind : request.connectionType with
    | http => exact .inl rfl
    | websocket => exact .inr rfl
    | tcp => exact absurd hkind horigin
  unfold prepareOriginRequest
  cases hfound : destinationForRequest parseUri request.destination request.connectionType with
  | error chain => rfl
  | ok found =>
      rw [destinationForRequest, if_pos hkind] at hfound
      obtain ⟨uri, hparse, hfound⟩ := Result.bind_eq_ok.mp hfound
      obtain ⟨authority, hauthority, _⟩ := Result.bind_eq_ok.mp hfound
      rw [Result.withContext_eq_ok] at hparse
      cases huri : uri.authority with
      | none =>
          rw [huri] at hauthority
          cases hauthority
      | some _ =>
          cases request.metadataValue "HttpHost" <;>
            simp [hparse, huri, Result.withContext, Result.ofOption, Bind.bind, Except.bind,
              Except.map, Pure.pure, Except.pure]

-- The sessions of two such requests differ in their source at most.
theorem Alike.originSession_eq (h : Alike parseUri left right) :
    originSession parseUri state tag left =
      (originSession parseUri state tag right).map fun session =>
        session.map fun session => { session with source := some left.sourceForRequest } := by
  unfold originSession
  rw [h.resolveRemoteRequest_eq]
  cases hresolved : resolveRemoteRequest parseUri state right with
  | error chain => rfl
  | ok resolved =>
      obtain ⟨resolved, status⟩ := resolved
      obtain ⟨htype, hmetadata⟩ := resolveRemoteRequest_type hresolved
      have horigin : resolved.connectionType ≠ .tcp := htype ▸ h.origin
      cases status with
      | some code => rfl
      | none =>
          have hleft : (prepareOriginRequest parseUri tag
              { resolved with metadata := left.metadata }).map Origin.session = _ :=
            prepareOriginRequest_session horigin
          have hright : (prepareOriginRequest parseUri tag resolved).map Origin.session = _ :=
            prepareOriginRequest_session horigin
          have hsession (request : ConnectRequest) :
              (do
                let origin ← prepareOriginRequest parseUri tag request
                return some origin.session) =
              ((prepareOriginRequest parseUri tag request).map Origin.session).map some := by
            cases prepareOriginRequest parseUri tag request <;> rfl
          show (do
              let origin ← prepareOriginRequest parseUri tag
                { resolved with metadata := left.metadata }
              return some origin.session) =
            (do
              let origin ← prepareOriginRequest parseUri tag resolved
              return some origin.session).map _
          rw [hsession, hsession, hleft, hright]
          cases destinationForRequest parseUri resolved.destination resolved.connectionType <;> rfl

theorem originSession_source {request : ConnectRequest} {session : Session}
    (h : originSession parseUri state tag request = .ok (some session)) :
    session.source = some request.sourceForRequest := by
  obtain ⟨⟨resolved, status⟩, hresolved, h⟩ := Result.bind_eq_ok.mp h
  cases status with
  | some code => cases h
  | none =>
      obtain ⟨origin, horigin, h⟩ := Result.bind_eq_ok.mp h
      obtain rfl := Option.some.inj (Except.ok.inj h)
      rw [ConnectRequest.handsOver_source (.inr ⟨origin, horigin, rfl⟩)]
      simp only [ConnectRequest.sourceForRequest, ConnectRequest.sourceValue,
        ConnectRequest.metadataValue, (resolveRemoteRequest_type hresolved).2]

-- Such requests are routed alike if and only if their sources are the same, where there is a
-- session that has one.
theorem Alike.agree_iff_source (h : Alike parseUri left right) :
    Agree parseUri state tag left right ↔
      ((∃ session, originSession parseUri state tag right = .ok (some session)) →
        left.sourceForRequest = right.sourceForRequest) := by
  rw [Agree, and_iff_right h.selectedRule_eq, h.originSession_eq]
  cases hright : originSession parseUri state tag right with
  | error chain => exact iff_of_true rfl (by rintro ⟨_, h⟩; cases h)
  | ok session =>
      cases session with
      | none => exact iff_of_true rfl (by rintro ⟨_, h⟩; cases h)
      | some session =>
          have hsource := originSession_source hright
          constructor
          · intro hsame _
            have hsession := congrArg Session.source (Option.some.inj (Except.ok.inj hsame))
            exact Option.some.inj (hsession.trans hsource)
          · intro hsame
            rw [hsame ⟨session, rfl⟩, ← hsource]
            rfl

end

-- The part of a header map under one name is what `find?` looks at.
theorem find?_yielded {yielded fields : List Header} (name : String)
    (h : yielded.filter (·.name = name) = fields.filter (·.name = name)) :
    yielded.find? (·.name = name) = fields.find? (·.name = name) := by
  rw [← List.head?_filter, h, List.head?_filter]

-- A key that does not begin like the entry of a header is none.
theorem headerKey_ne {name key : String} (h : ¬HTTP_HEADER.toList <+: key.toList) :
    HTTP_HEADER ++ name ≠ key := by
  rintro rfl
  exact h ⟨name.toList, String.toList_append.symm⟩

namespace LogicalRequest

variable {request : LogicalRequest} {yielded : List Header}

theorem connectionType_ne_tcp (request : LogicalRequest) : request.connectionType ≠ .tcp := by
  unfold connectionType
  split <;> decide

theorem fields_lower {header : Header} (h : header ∈ request.fields) :
    toAsciiLowercase header.name = header.name := by
  unfold fields at h
  split at h
  · obtain rfl | h := List.mem_cons.mp h
    · decide
    · exact request.names_lower header h
  · exact request.names_lower header h

section

variable (hyielded : ∀ name, yielded.filter (·.name = name) = request.fields.filter (·.name = name))
include hyielded

theorem mem_fields {header : Header} (h : header ∈ yielded) : header ∈ request.fields := by
  have hmem : header ∈ yielded.filter (·.name = header.name) := List.mem_filter.mpr ⟨h, by simp⟩
  rw [hyielded] at hmem
  exact (List.mem_filter.mp hmem).1

theorem header_toHttp2 (name : String) :
    (request.toHttp2 yielded).header name =
      (request.fields.find? (·.name = toAsciiLowercase name)).map Header.value :=
  congrArg (Option.map Header.value) (find?_yielded _ (hyielded _))

theorem header_tcp : (request.toHttp2 yielded).header H2_TCP_SOURCE_HEADER = none := by
  rw [header_toHttp2 hyielded, Option.map_eq_none_iff, List.find?_eq_none]
  intro header h
  unfold fields at h
  split at h
  · obtain rfl | h := List.mem_cons.mp h
    · decide
    · simpa using (request.control_header header h).2
  · simpa using (request.control_header header h).2

theorem headerText_websocket :
    (request.toHttp2 yielded).headerText H2_CONTROL_HEADER = some H2_WEBSOCKET_STREAM ↔
      request.websocket = true := by
  rw [Http2Request.headerText, header_toHttp2 hyielded, fields]
  cases request.websocket with
  | true =>
      rw [if_pos rfl, List.find?_cons_of_pos (by simp)]
      exact iff_of_true (by decide) rfl
  | false =>
      have hnone : request.headers.find? (·.name = toAsciiLowercase H2_CONTROL_HEADER) = none :=
        List.find?_eq_none.mpr fun header h => by simpa using (request.control_header header h).1
      simp [hnone]

-- Whether the host is a header or not, it is the host of the request.
theorem headerText_host {host : String}
    (h : (request.toHttp2 yielded).headerText "host" = some host) :
    host = String.ofList request.host.text := by
  rw [Http2Request.headerText, header_toHttp2 hyielded] at h
  obtain ⟨value, hvalue, htext⟩ := Option.bind_eq_some_iff.mp h
  obtain ⟨header, hfound, rfl⟩ := Option.map_eq_some_iff.mp hvalue
  have hlower : toAsciiLowercase "host" = "host" := by decide
  have hname : header.name = "host" := by simpa [hlower] using List.find?_some hfound
  have hmem : header ∈ request.headers := by
    have hmem := List.mem_of_find?_eq_some hfound
    unfold fields at hmem
    split at hmem
    · obtain rfl | hmem := List.mem_cons.mp hmem
      · exact absurd hname (by decide)
      · exact hmem
    · exact hmem
  rw [toStr, if_pos (request.values_text header hmem)] at htext
  rw [← Option.some.inj htext, request.host_header header hmem hname]

theorem buildConnectRequest_toHttp2 :
    buildConnectRequest (request.toHttp2 yielded) = .ok
      { destination := request.uri.text
        connectionType := request.connectionType
        metadata := ⟨"HttpMethod", request.method⟩ ::
          (((request.toHttp2 yielded).headerText "host").map (⟨"HttpHost", ·⟩)).toList ++
          yielded.filterMap fun header =>
            (toStr header.value).map fun value => ⟨HTTP_HEADER ++ header.name, value⟩ } := by
  have hkind : (if (request.toHttp2 yielded).headerText H2_CONTROL_HEADER = some H2_WEBSOCKET_STREAM
      then ConnectionType.websocket
      else if ((request.toHttp2 yielded).header H2_TCP_SOURCE_HEADER).isSome then .tcp
      else .http) = request.connectionType := by
    simp only [headerText_websocket hyielded, header_tcp hyielded]
    rfl
  have habsolute : request.uri.scheme.isSome ∧ request.uri.authority.isSome := ⟨rfl, rfl⟩
  unfold buildConnectRequest
  simp only [hkind]
  rw [if_neg request.connectionType_ne_tcp, if_pos (by exact habsolute)]
  rfl

-- A key that is none of a header's is at most that of the method or the host.
theorem metadataValue_toHttp2 {http2 : ConnectRequest} {key : String}
    (hbuild : buildConnectRequest (request.toHttp2 yielded) = .ok http2)
    (hkey : ∀ header ∈ yielded, HTTP_HEADER ++ header.name ≠ key) (hmethod : key ≠ "HttpMethod") :
    http2.metadataValue key =
      ((request.toHttp2 yielded).headerText "host").filter fun _ => key = "HttpHost" := by
  rw [buildConnectRequest_toHttp2 hyielded] at hbuild
  obtain rfl := Except.ok.inj hbuild
  have hentries : (yielded.filterMap fun header => (toStr header.value).map fun value =>
      (⟨HTTP_HEADER ++ header.name, value⟩ : Metadata)).find? (·.key = key) = none := by
    refine List.find?_eq_none.mpr fun entry hentry => ?_
    obtain ⟨header, hheader, hentry⟩ := List.mem_filterMap.mp hentry
    obtain ⟨value, _, rfl⟩ := Option.map_eq_some_iff.mp hentry
    simpa using hkey header hheader
  unfold ConnectRequest.metadataValue
  rw [List.cons_append, List.find?_cons_of_neg (by simpa using hmethod.symm), List.find?_append,
    hentries, Option.or_none]
  cases (request.toHttp2 yielded).headerText "host" with
  | none => rfl
  | some host =>
      by_cases hhost : key = "HttpHost"
      · simp [hhost, Option.filter]
      · simp [hhost, Ne.symm hhost]

-- The source is looked for under names that are not in lower case.
theorem source_toHttp2 {http2 : ConnectRequest}
    (hbuild : buildConnectRequest (request.toHttp2 yielded) = .ok http2) :
    http2.sourceForRequest = ⟨ConnectRequest.UNSPECIFIED, 0⟩ := by
  have hnone : ∀ key ∈ SOURCE_HEADERS, http2.sourceValue key = none := by
    intro key hkey
    have hshape : toAsciiLowercase key ≠ key ∧ ¬HTTP_HEADER.toList <+: key.toList ∧
        key ≠ "HttpMethod" ∧ key ≠ "HttpHost" ∧ HTTP_HEADER ++ key ≠ "HttpMethod" ∧
        HTTP_HEADER ++ key ≠ "HttpHost" := by
      revert key
      decide
    obtain ⟨hlower, hprefix, hmethod, hhost, hmethod', hhost'⟩ := hshape
    have hplain := metadataValue_toHttp2 hyielded hbuild
      (fun header _ => headerKey_ne hprefix) hmethod
    have hkeys : ∀ header ∈ yielded, HTTP_HEADER ++ header.name ≠ HTTP_HEADER ++ key := by
      intro header hheader hsame
      have hname : header.name = key := (String.append_right_inj HTTP_HEADER).mp hsame
      exact hlower (hname ▸ fields_lower (mem_fields hyielded hheader))
    have hentry := metadataValue_toHttp2 hyielded hbuild hkeys hmethod'
    rw [ConnectRequest.sourceValue, hplain, hentry]
    simp [hhost, hhost']
  have hfound : SOURCE_HEADERS.findSome? (fun key =>
      (http2.sourceValue key).bind ConnectRequest.firstAddress) = none :=
    List.findSome?_eq_none_iff.mpr fun key hkey => by rw [hnone key hkey]; rfl
  rw [ConnectRequest.sourceForRequest, hfound]
  rfl

-- The rules see the same host in both forms.
theorem requestHost_toHttp2 {http2 : ConnectRequest} {spell : String → String} {uri : Uri}
    (hbuild : buildConnectRequest (request.toHttp2 yielded) = .ok http2)
    (huri : uri.authority.map Authority.host = some (String.ofList request.host.bare)) :
    requestHost http2 uri = requestHost (request.toQuic spell) uri := by
  have hprefix : ¬HTTP_HEADER.toList <+: "HttpHost".toList := by decide
  have hmetadata := metadataValue_toHttp2 hyielded hbuild (fun header _ => headerKey_ne hprefix)
    (by decide : "HttpHost" ≠ "HttpMethod")
  have hquic : requestHost (request.toQuic spell) uri =
      normalizeHost (String.ofList request.host.text) := rfl
  rw [hquic, requestHost, hmetadata, huri]
  cases hhost : (request.toHttp2 yielded).headerText "host" with
  | none => exact (normalizeHost_text request.host).symm
  | some host =>
      rw [headerText_host hyielded hhost]
      rfl

theorem alike_toQuic {parseUri : String → Result Uri} {http2 : ConnectRequest}
    {spell : String → String}
    (hbuild : buildConnectRequest (request.toHttp2 yielded) = .ok http2)
    (hparse : ∀ uri, parseUri request.uri.text = .ok uri →
      uri.authority.map Authority.host = some (String.ofList request.host.bare)) :
    Alike parseUri http2 (request.toQuic spell) := by
  have hhost (uri : Uri) (huri : parseUri request.uri.text = .ok uri) :
      requestHost http2 uri = requestHost (request.toQuic spell) uri :=
    requestHost_toHttp2 hyielded hbuild (hparse uri huri)
  rw [buildConnectRequest_toHttp2 hyielded] at hbuild
  obtain rfl := Except.ok.inj hbuild
  exact ⟨rfl, rfl, request.connectionType_ne_tcp, hhost⟩

end

-- Both forms of a request are routed alike if and only if the one over QUIC gives no address
-- of a client, or comes to no session at all.
theorem agree_iff {parseUri : String → Result Uri} {state : RemoteConfigState} {tag : String}
    {spell : String → String}
    (hyielded : ∀ name, yielded.filter (·.name = name) = request.fields.filter (·.name = name))
    (hparse : ∀ uri, parseUri request.uri.text = .ok uri →
      uri.authority.map Authority.host = some (String.ofList request.host.bare)) :
    ∃ http2, buildConnectRequest (request.toHttp2 yielded) = .ok http2 ∧
      (Agree parseUri state tag http2 (request.toQuic spell) ↔
        ((∃ session, originSession parseUri state tag (request.toQuic spell) = .ok (some session)) →
          ∀ ip, (request.toQuic spell).NamesClient ip → ip = ConnectRequest.UNSPECIFIED)) := by
  obtain ⟨http2, hbuild⟩ : ∃ http2, buildConnectRequest (request.toHttp2 yielded) = .ok http2 :=
    ⟨_, buildConnectRequest_toHttp2 hyielded⟩
  refine ⟨http2, hbuild, ?_⟩
  have hunnamed : http2.sourceForRequest = (request.toQuic spell).sourceForRequest ↔
      ∀ ip, (request.toQuic spell).NamesClient ip → ip = ConnectRequest.UNSPECIFIED := by
    rw [source_toHttp2 hyielded hbuild]
    simp only [ConnectRequest.namesClient_iff]
    unfold ConnectRequest.sourceForRequest
    cases SOURCE_HEADERS.findSome? fun key =>
        ((request.toQuic spell).sourceValue key).bind ConnectRequest.firstAddress with
    | none => simp
    | some ip => simp [eq_comm]
  rw [(alike_toQuic hyielded hbuild hparse).agree_iff_source, hunnamed]

-- A WebSocket whose headers come in another order, and a rule for its host.
theorem agree_iff_webSocket :
    let host : HostPort :=
      { name := "a.com".toList, bracketed := false, port := some "8443".toList,
        name_chars := List.all_iff_forall_prop.mp (by decide),
        port_number := by rintro digits ⟨⟩; exact ⟨by decide, 8443, by decide⟩ }
    let request : LogicalRequest :=
      { method := "GET", scheme := "https", host := host, path := "/chat?x=1", websocket := true,
        headers := [⟨"accept", "*/*".toUTF8.data.toList⟩], path_head := by decide,
        names_lower := by decide, values_text := by decide, host_header := by decide,
        control_header := by decide }
    let state : RemoteConfigState :=
      { version := 1, ingress := [⟨"*.com", "", "http://b.net"⟩, ⟨"", "", "http_status:404"⟩] }
    let service (path : String) : Uri :=
      { scheme := some "http", authority := some ⟨"b.net", "b.net", none⟩, pathAndQuery := some path,
        path := String.ofList (path.toList.takeWhile (· ≠ '?')) }
    let parseUri (text : String) : Result Uri :=
      if text = request.uri.text then .ok request.uri
      else if text = "http://b.net" then .ok (service "/")
      else .ok (service "/chat?x=1")
    ∃ http2, buildConnectRequest (request.toHttp2 request.fields.reverse) = .ok http2 ∧
      Agree parseUri state "in" http2 (request.toQuic canonicalName) := by
  intro host request state service parseUri
  have hyielded (name : String) : request.fields.reverse.filter (·.name = name) =
      request.fields.filter (·.name = name) := by
    by_cases haccept : "accept" = name
    · subst haccept
      decide
    · simp [request, fields, List.filter_cons, haccept]
  have hparse (uri : Uri) (huri : parseUri request.uri.text = .ok uri) :
      uri.authority.map Authority.host = some (String.ofList request.host.bare) := by
    have hsame : parseUri request.uri.text = .ok request.uri := if_pos rfl
    obtain rfl := Except.ok.inj (hsame.symm.trans huri)
    rfl
  obtain ⟨http2, hbuild, hagree⟩ :=
    @agree_iff request request.fields.reverse parseUri state "in" canonicalName hyielded hparse
  refine ⟨http2, hbuild, hagree.mpr fun _ ip hip => ?_⟩
  have hunnamed : SOURCE_HEADERS.findSome? (fun key =>
      ((request.toQuic canonicalName).sourceValue key).bind ConnectRequest.firstAddress) = none := by
    decide
  rw [ConnectRequest.namesClient_iff, hunnamed] at hip
  cases hip

-- A client's address in a header reaches the rules over QUIC only.
theorem not_agree : ¬∀ (parseUri : String → Result Uri) (state : RemoteConfigState) (tag : String)
    (request : LogicalRequest) (yielded : List Header) (http2 : ConnectRequest),
    (∀ name, yielded.filter (·.name = name) = request.fields.filter (·.name = name)) →
      (∀ uri, parseUri request.uri.text = .ok uri →
        uri.authority.map Authority.host = some (String.ofList request.host.bare)) →
      buildConnectRequest (request.toHttp2 yielded) = .ok http2 →
      Agree parseUri state tag http2 (request.toQuic canonicalName) := by
  intro h
  let host : HostPort :=
    { name := "a.com".toList, bracketed := false, port := none, name_chars := List.all_iff_forall_prop.mp (by decide),
      port_number := by simp }
  let headers : List Header := [⟨"x-forwarded-for", "1.2.3.4".toUTF8.data.toList⟩]
  let request : LogicalRequest :=
    { method := "GET", scheme := "https", host := host, path := "/", websocket := false,
      headers := headers, path_head := by decide, names_lower := by decide,
      values_text := by decide, host_header := by decide, control_header := by decide }
  have hyielded (name : String) : headers.filter (·.name = name) =
      request.fields.filter (·.name = name) := rfl
  have hagree := h (fun _ => .ok request.uri) RemoteConfigState.initial "in" request headers _
    hyielded (by rintro _ ⟨⟩; rfl) (buildConnectRequest_toHttp2 hyielded)
  have hsession := hagree.2
  revert hsession
  decide

end LogicalRequest

end SingBox.Cloudflared
