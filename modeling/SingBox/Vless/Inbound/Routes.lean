import SingBox.Vless.Handover
import SingBox.Vless.Outbound.Received
import SingBox.Vless.Request

namespace SingBox.Vless

open Library
open Async (Yields)
open Core (Address IpAddr Session SocketAddr)
open Text (isWhitespace)
open Utf8 (encode)
open WebSocketStream (deliver parse)

theorem encodeAddress_length {host : String} {address : Bytes}
    (h : encodeAddress host = .ok address) : address.length ≤ 257 := by
  unfold encodeAddress at h
  split at h
  · obtain rfl := Except.ok.inj h
    simp
  · obtain rfl := Except.ok.inj h
    simp
  · obtain ⟨⟨⟩, hlength, h⟩ := Result.bind_eq_ok.mp h
    obtain rfl := Except.ok.inj h
    have hle := of_decide_eq_true (Result.ensure_eq_ok.mp hlength)
    simp only [List.length_cons]
    omega

-- A request is far smaller than a frame may be.
theorem encodeVlessRequest_length {uuid : Uuid} {destination : Address} {request : Bytes}
    (h : encodeVlessRequest uuid destination = .ok request) :
    request ≠ [] ∧ request.length ≤ MAX_WS_FRAME_SIZE := by
  obtain ⟨address, haddress, h⟩ := Result.bind_eq_ok.mp h
  obtain rfl := Except.ok.inj h
  have hle := encodeAddress_length haddress
  have hlength : (VLESS_VERSION :: uuid.val ++ [0, VLESS_COMMAND_TCP] ++
      toBe 2 destination.port.toNat ++ address).length = 21 + address.length := by
    simp only [List.length_append, List.length_cons, List.length_nil, toBe_length, uuid.property]
  refine ⟨by simp, ?_⟩
  rw [hlength, MAX_WS_FRAME_SIZE]
  omega

-- Two ends that are configured alike.
structure Alike (outbound : VlessOutbound) (inbound : VlessInbound) : Prop where
  path : inbound.path = rootedPath outbound.path
  earlyDataHeaderName : inbound.earlyDataHeaderName = outbound.earlyDataHeaderName

namespace VlessInbound

variable {outbound : VlessOutbound} {inbound : VlessInbound} {key : String} {request tail : Bytes}

-- The server takes the head and answers it; what has come after it is left to the stream.
theorem upgrade_yields (halike : Alike outbound inbound) (hplain : outbound.Plain)
    (hkey : ∀ char ∈ key.toList, isWhitespace char = false) (hne : key ≠ "")
    (hrequest : request.length ≤ MAX_WS_FRAME_SIZE)
    (hsize : (encode (outbound.http key request)).length ≤ MAX_HTTP_HEADER_SIZE + 1)
    {stream : Environment} (hready : stream.Ready [])
    (hincoming : stream.incoming = encode (outbound.http key request) ++ tail) :
    ∃ extra next, Yields inbound.upgrade stream
        (some (extra, if outbound.earlyData request then request else [])) next ∧
      next.Ready (encode (switchingProtocols key)) ∧ extra ++ next.incoming = tail := by
  rw [VlessOutbound.http_bytes] at hsize hincoming
  have hgood : (Environment.source []).good stream := hready
  obtain ⟨extra, mid, hread, hmid, htail⟩ :=
    readHttpRequest_yields (hplain.readable hkey request) hsize hgood hincoming
  have hreceived : Yields readHttpRequest stream (outbound.received key request extra) mid := hread
  obtain ⟨hmethod, hpath⟩ : (outbound.received key request extra).method = "GET" ∧
      (outbound.received key request extra).path = inbound.path := by
    rw [halike.path]
    exact VlessOutbound.received_line hplain extra
  obtain ⟨hheader, hensure⟩ : (outbound.received key request extra).header "sec-websocket-key" =
      some key ∧ ensureWebsocketRequest (outbound.received key request extra) = .ok () :=
    hplain.ensured hkey hne extra
  have hearly : inbound.earlyData (outbound.received key request extra) =
      .ok (if outbound.earlyData request then request else []) :=
    hplain.early extra halike.earlyDataHeaderName
  have hlength : (if outbound.earlyData request then request else []).length ≤
      MAX_WS_FRAME_SIZE := by
    split
    · exact hrequest
    · exact Nat.zero_le _
  obtain ⟨written, hwrite, hwritten, hsame⟩ :=
    Environment.Ready.writeAll hmid (encode (switchingProtocols key))
  rw [List.nil_append] at hwritten
  obtain ⟨next, hflush, hnext, hincoming⟩ := hwritten.flush
  refine ⟨extra, next, ?_, hnext, by rw [hincoming, hsame]; exact htail⟩
  have hkeyed : Yields (Async.writeAll (encode (switchingProtocols
      (((outbound.received key request extra).header "sec-websocket-key").getD "")))) mid () written := by
    rw [hheader]
    exact hwrite
  exact Accepts.upgrade ⟨hmethod, hpath, hensure, hearly, hlength⟩ hreceived hkeyed hflush

end VlessInbound

-- The stream hands out these bytes and ends so, however it is read.
def WebSocketStream.HandsOut (this : WebSocketStream) (expected : Bytes × IoResult Unit) : Prop :=
  ∀ sizes output, ∃ rest,
    delivered (this.pollReads sizes).1 ++ rest = expected.1 ∧
      Answers output (this.pollReads sizes).2.inner rest expected.2
        ((this.pollReads sizes).2.pollRead output).1

theorem WebSocketStream.Open.handsOut {sent : Bytes} {outcome : IoResult Unit}
    {this : WebSocketStream} (h : this.Open sent outcome) : this.HandsOut this.remaining := by
  intro sizes output
  obtain ⟨hremaining, hsound, hreliable⟩ := pollReads_remaining this sizes h.sound h.reliable
  refine ⟨(this.pollReads sizes).2.remaining.1, ?_, ?_⟩
  · rw [hremaining]
  · have hanswers := pollRead_answers output (this.pollReads sizes).2 hsound hreliable
    rwa [hremaining]

-- What the frames in `bytes` carry to the server, and how they end.
def carried (bytes : Bytes) : Bytes × IoResult Unit :=
  deliver (parse false false bytes).1 (parse false false bytes).2

-- What the client sends before the application does.
def VlessOutbound.opening (this : VlessOutbound) (key : String) (mask : Mask) (request : Bytes) :
    Bytes :=
  encode (this.http key request) ++
    if this.earlyData request then [] else WebSocketStream.frameBytes true mask 0x2 request

theorem carried_frame (mask : Mask) {request : Bytes} (hlength : request.length ≤ MAX_WS_FRAME_SIZE)
    (more : Bytes) :
    carried (WebSocketStream.frameBytes true mask 0x2 request ++ more) =
      (request ++ (carried more).1, (carried more).2) := by
  have hparse := WebSocketStream.parse_frameBytes true mask (.inl ⟨rfl, hlength⟩) more
  rw [Bool.not_true] at hparse
  rw [carried, hparse]
  have hdata : WholeFrame.data ⟨0x2, request⟩ = request := if_neg (show ¬WebSocketStream.isControl 0x2 = true by decide)
  simp only [deliver, hdata]
  rfl

-- The stream starts with the request, wherever it has been sent.
theorem remaining_opening (outbound : VlessOutbound) {request : Bytes} (mask : Mask)
    (hlength : request.length ≤ MAX_WS_FRAME_SIZE) {inner : Environment} {extra more : Bytes}
    (htail : extra ++ inner.incoming = (if outbound.earlyData request then [] else
      WebSocketStream.frameBytes true mask 0x2 request) ++ more) :
    (WebSocketStream.new inner extra (if outbound.earlyData request then request else [])
      false).remaining = (request ++ (carried more).1, (carried more).2) := by
  rw [WebSocketStream.remaining_new, htail]
  by_cases hearly : outbound.earlyData request = true
  · rw [if_pos hearly, if_pos hearly]
    rfl
  · rw [if_neg hearly, if_neg hearly]
    exact carried_frame mask hlength more

theorem open_new {inner : Environment} {sent : Bytes} (h : inner.Ready sent)
    (input earlyData : Bytes) (clientSide : Bool) :
    (WebSocketStream.new inner input earlyData clientSide).Open sent
      (WebSocketStream.new inner input earlyData clientSide).remaining.2 where
  sound := WebSocketStream.sound_new inner input earlyData clientSide
  reliable := h.reliable
  fair := h.fair
  sent := by
    show sent <+: inner.sent ++ []
    rw [List.append_nil, h.sent]
  outcome := rfl
  pendingPayloadLen := rfl

namespace VlessInbound

def Routes (this : VlessInbound) (source : SocketAddr) (stream : Environment) (session : Session)
    (application : WebSocketStream) : Prop :=
  ∃ enough, ∀ polls, enough ≤ polls →
    this.handleConnectionInner source polls stream = some (.ok (.routed session application))

theorem serve_yields {inbound : VlessInbound} (source : SocketAddr) {uuid : Uuid} {user : String}
    {destination : Address} {request following : Bytes} (huser : inbound.users uuid = some user)
    (hhost : destination.host ≠ "") (hrequest : encodeVlessRequest uuid destination = .ok request)
    {sent : Bytes} {outcome : IoResult Unit} {stream : WebSocketStream}
    (hopen : stream.Open sent outcome) (hrest : stream.remaining.1 = request ++ following) :
    ∃ application, Yields (inbound.serve source) stream
        (Session.ofInbound .tcp source ⟨canonicalHost destination.host, destination.port⟩
          inbound.tag (some user)) application ∧
      application.Open sent outcome ∧ application.remaining.1 = following := by
  obtain ⟨mid, hread, hmid, hleft⟩ :=
    reads_request (WebSocketStream.source sent outcome) huser hhost hrequest stream following
      hopen hrest
  have hanswer : ([VLESS_VERSION, 0] : Bytes) ≠ [] := List.cons_ne_nil _ _
  obtain ⟨application, hwrite, happlication, hsends⟩ :=
    WebSocketStream.Open.writeAll hmid hanswer (by decide)
  exact ⟨application, hread.bind (hwrite.bind (.pure application _)), happlication,
    hsends.reader.remaining ▸ hleft⟩

-- The server gets the request and what follows it, from the head or from the first message.
theorem routes {outbound : VlessOutbound} {inbound : VlessInbound}
    (halike : Alike outbound inbound) (hplain : outbound.Plain) {key : String}
    (hkey : ∀ char ∈ key.toList, isWhitespace char = false) (hne : key ≠ "") {user : String}
    {destination : Address} {request : Bytes} (huser : inbound.users outbound.uuid = some user)
    (hhost : destination.host ≠ "")
    (hrequest : encodeVlessRequest outbound.uuid destination = .ok request)
    (hsize : (encode (outbound.http key request)).length ≤ MAX_HTTP_HEADER_SIZE + 1)
    (source : SocketAddr) (mask : Mask) {stream : Environment} (hready : stream.Ready [])
    {more : Bytes} (hincoming : stream.incoming = outbound.opening key mask request ++ more) :
    ∃ application, inbound.Routes source stream
        (Session.ofInbound .tcp source ⟨canonicalHost destination.host, destination.port⟩
          inbound.tag (some user)) application ∧
      application.HandsOut (carried more) := by
  obtain ⟨_, hlength⟩ := encodeVlessRequest_length hrequest
  rw [VlessOutbound.opening, List.append_assoc] at hincoming
  obtain ⟨extra, inner, hupgrade, hinner, htail⟩ :=
    upgrade_yields halike hplain hkey hne hlength hsize hready hincoming
  have hremaining := remaining_opening outbound mask hlength htail
  obtain ⟨application, hserve, happlication, hleft⟩ := serve_yields source huser hhost hrequest
    (open_new hinner extra (if outbound.earlyData request then request else []) false)
    (congrArg Prod.fst hremaining)
  obtain ⟨front, hfront⟩ := hupgrade
  obtain ⟨back, hback⟩ := hserve
  refine ⟨application, ⟨max front back, fun polls hpolls => ?_⟩, ?_⟩
  · simp only [handleConnectionInner, hfront polls (by omega), hback polls (by omega)]
  · have hend : application.remaining = carried more := by
      refine Prod.ext hleft ?_
      rw [happlication.outcome, hremaining]
    exact hend ▸ happlication.handsOut

end VlessInbound

end SingBox.Vless
