import SingBox.Library.Exchange
import SingBox.Vless.Http.Heads
import SingBox.Vless.Http.RoundTrip
import SingBox.Vless.Outbound

namespace SingBox.Vless

open Library
open Async (Yields)
open Core (Address Network Session SocketAddr)
open HeadLines (RequestHead ResponseHead)
open HttpHead (crlf)
open Utf8 (encode)
open WebSocketStream (trickle)

-- What becomes of a call of `serve`, and of one of `send_request`.
def routed : Option (Result Session × WebSocketStream) → Option (Result Handled)
  | none => none
  | some (.error chain, _) => some (.error chain)
  | some (.ok session, application) => some (.ok (.routed session application))

def tunnelled : Option (Result Unit × WebSocketStream) → Option (Result WebSocketStream)
  | none => none
  | some (.error chain, _) => some (.error chain)
  | some (.ok (), tunnel) => some (.ok tunnel)

namespace VlessInbound

-- A request that the connection is upgraded for.
structure Accepts (this : VlessInbound) (request : HttpRequest) (earlyData : Bytes) : Prop where
  method : request.method = "GET"
  path : request.path = this.path
  websocket : ensureWebsocketRequest request = .ok ()
  decoded : this.earlyData request = .ok earlyData
  size : earlyData.length ≤ MAX_WS_FRAME_SIZE

-- The stream of frames is made of these, once, and nothing else is done with them.
def HandsOver (this : VlessInbound) (source : SocketAddr) (stream inner : Environment)
    (tail earlyData : Bytes) : Prop :=
  ∃ enough, ∀ polls, enough ≤ polls → this.handleConnectionInner source polls stream =
    routed (this.serve source polls (.new inner tail earlyData false))

variable {this : VlessInbound} {request : HttpRequest} {earlyData tail : Bytes}

theorem Accepts.upgrade {σ : Type} [AsyncRead σ] [AsyncWrite σ] {state mid written next : σ}
    (h : this.Accepts request earlyData) (hread : Yields readHttpRequest state request mid)
    (hwrite : Yields (Async.writeAll
      (encode (switchingProtocols ((request.header "sec-websocket-key").getD "")))) mid () written)
    (hflush : Yields Async.flush written () next) :
    Yields this.upgrade state (some (request.tail, earlyData)) next := by
  refine hread.bind ?_
  simp only [h.method, h.path, ne_eq, not_true_eq_false, if_false]
  refine (Yields.ofResult mid h.websocket).bind ?_
  refine (Yields.ofResult mid h.decoded).bind ?_
  refine (Yields.ofResult mid (Result.ensure_eq_ok.mpr (decide_eq_true h.size))).bind ?_
  exact hwrite.bind (hflush.bind (.pure next _))

theorem handsOver {source : SocketAddr} {stream inner : Environment}
    (h : Yields this.upgrade stream (some (tail, earlyData)) inner) :
    this.HandsOver source stream inner tail earlyData := by
  obtain ⟨enough, hupgrade⟩ := h
  refine ⟨enough, fun polls hpolls => ?_⟩
  rw [handleConnectionInner, hupgrade polls hpolls]
  cases hserve : this.serve source polls (.new inner tail earlyData false) with
  | none => simp only [hserve, routed]
  | some result =>
      obtain ⟨chain | session, application⟩ := result
      · simp only [hserve, routed]
      · simp only [hserve, routed]

end VlessInbound

namespace VlessOutbound

-- A response that the client goes on with.
structure Accepts (key : String) (response : HttpResponse) : Prop where
  status : response.status = 101
  accept : response.headers.lookup "sec-websocket-accept" = some (websocketAccept key)

def HandsOver (this : VlessOutbound) (network : Network) (destination : Address)
    (filled : Option { key : Bytes // key.length = 16 }) (request : Bytes)
    (stream inner : Environment) (tail : Bytes) : Prop :=
  ∃ enough, ∀ polls, enough ≤ polls → this.connect network destination filled polls stream =
    tunnelled (this.sendRequest request polls (.new inner tail [] true))

variable {this : VlessOutbound} {key : String} {request tail : Bytes} {response : HttpResponse}

theorem Accepts.upgrade {σ : Type} [AsyncRead σ] [AsyncWrite σ] {state written flushed next : σ}
    (h : Accepts key response)
    (hwrite : Yields (Async.writeAll (encode (this.http key request))) state () written)
    (hflush : Yields Async.flush written () flushed)
    (hread : Yields readHttpResponse flushed response next) :
    Yields (this.upgrade key request) state response.tail next := by
  refine hwrite.bind (hflush.bind (hread.bind ?_))
  refine (Yields.ofResult next (Result.ensure_eq_ok.mpr (decide_eq_true h.status))).bind ?_
  refine (Yields.ofResult next (Result.ensure_eq_ok.mpr (decide_eq_true h.accept))).bind ?_
  exact .pure next response.tail

theorem handsOver {network : Network} {destination : Address}
    {filled : Option { key : Bytes // key.length = 16 }} {stream inner : Environment}
    (hprepare : this.prepare network destination filled = .ok (request, key))
    (h : Yields (this.upgrade key request) stream tail inner) :
    this.HandsOver network destination filled request stream inner tail := by
  obtain ⟨enough, hupgrade⟩ := h
  refine ⟨enough, fun polls hpolls => ?_⟩
  simp only [connect, hprepare, hupgrade polls hpolls]
  cases hsend : this.sendRequest request polls (.new inner tail [] true) with
  | none => simp only [tunnelled]
  | some result =>
      obtain ⟨chain | ⟨⟩, tunnel⟩ := result
      · simp only [tunnelled]
      · simp only [tunnelled]

end VlessOutbound

section

variable {source : Source Environment} {stream : Environment} {after : Bytes}

theorem request_handed_over (hduplex : Duplex source) (hincoming : source.rest = Environment.incoming)
    {head : RequestHead} (hread : ReadsHead readHttpRequest (requestRead head) source stream after)
    {inbound : VlessInbound} {earlyData : Bytes}
    (haccepts : inbound.Accepts (requestRead head []) earlyData) (address : SocketAddr) :
    ∃ tail inner, tail ++ inner.incoming = after ∧
      inbound.HandsOver address stream inner tail earlyData := by
  obtain ⟨tail, mid, hread, hmid, hafter⟩ := hread
  have htail : inbound.Accepts (requestRead head tail) earlyData :=
    ⟨haccepts.method, haccepts.path, haccepts.websocket, haccepts.decoded, haccepts.size⟩
  obtain ⟨written, hwrite, hwritten, hkept⟩ := hduplex.writeAll mid _ hmid
  obtain ⟨inner, hflush, -, hsame⟩ := hduplex.flush written hwritten
  rw [← hkept, ← hsame, hincoming] at hafter
  exact ⟨tail, inner, hafter, VlessInbound.handsOver (htail.upgrade hread hwrite hflush)⟩

theorem response_handed_over (hduplex : Duplex source) (hincoming : source.rest = Environment.incoming)
    (hgood : source.good stream) {head : ResponseHead}
    (hsize : head.bytes.length + 4 ≤ MAX_HTTP_HEADER_SIZE)
    (hrest : stream.incoming = head.bytes ++ ((crlf ++ crlf) ++ after)) {outbound : VlessOutbound}
    {network : Network} {destination : Address} {filled : Option { key : Bytes // key.length = 16 }}
    {request : Bytes} {key : String}
    (hprepare : outbound.prepare network destination filled = .ok (request, key))
    (haccepts : VlessOutbound.Accepts key (responseRead head [])) :
    ∃ tail inner, tail ++ inner.incoming = after ∧
      outbound.HandsOver network destination filled request stream inner tail := by
  obtain ⟨written, hwrite, hwritten, hkept⟩ := hduplex.writeAll stream (encode (outbound.http key request)) hgood
  obtain ⟨flushed, hflush, hflushed, hsame⟩ := hduplex.flush written hwritten
  have hleft : source.rest flushed = head.bytes ++ ((crlf ++ crlf) ++ after) := by
    rw [hsame, hkept, hincoming, hrest]
  obtain ⟨tail, inner, hread, -, hafter⟩ := readHttpResponse_bytes hsize hflushed hleft
  have htail : VlessOutbound.Accepts key (responseRead head tail) := ⟨haccepts.status, haccepts.accept⟩
  rw [hincoming] at hafter
  exact ⟨tail, inner, hafter, VlessOutbound.handsOver hprepare (htail.upgrade hwrite hflush hread)⟩

end

-- However a transport cuts its bytes, a head is read as what it says, and everything behind it
-- goes to the stream of frames.
theorem heads_lose_nothing {request : RequestHead} {response : ResponseHead}
    (hrequest : request.bytes.length + 4 ≤ MAX_HTTP_HEADER_SIZE)
    (hresponse : response.bytes.length + 4 ≤ MAX_HTTP_HEADER_SIZE) (after : Bytes) :
    (∀ {σ : Type} [AsyncRead σ] (source : Source σ) (state : σ), source.good state →
      (source.rest state = request.bytes ++ ((crlf ++ crlf) ++ after) →
        ReadsHead readHttpRequest (requestRead request) source state after) ∧
      (source.rest state = response.bytes ++ ((crlf ++ crlf) ++ after) →
        ReadsHead readHttpResponse (responseRead response) source state after)) ∧
    ∀ (source : Source Environment), Duplex source → source.rest = Environment.incoming →
      ∀ stream, source.good stream →
      (stream.incoming = request.bytes ++ ((crlf ++ crlf) ++ after) →
        ∀ (inbound : VlessInbound) (earlyData : Bytes) (address : SocketAddr),
          inbound.Accepts (requestRead request []) earlyData →
          ∃ tail inner, tail ++ inner.incoming = after ∧
            inbound.HandsOver address stream inner tail earlyData) ∧
      (stream.incoming = response.bytes ++ ((crlf ++ crlf) ++ after) →
        ∀ (outbound : VlessOutbound) (network : Network) (destination : Address)
          (filled : Option { key : Bytes // key.length = 16 }) (sent : Bytes) (key : String),
          outbound.prepare network destination filled = .ok (sent, key) →
          VlessOutbound.Accepts key (responseRead response []) →
          ∃ tail inner, tail ++ inner.incoming = after ∧
            outbound.HandsOver network destination filled sent stream inner tail) := by
  refine ⟨fun source state hgood => ⟨?_, ?_⟩, fun source hduplex hincoming stream hgood => ⟨?_, ?_⟩⟩
  · intro hrest
    exact readHttpRequest_bytes hrequest hgood hrest
  · intro hrest
    exact readHttpResponse_bytes hresponse hgood hrest
  · intro hrest inbound earlyData address haccepts
    rw [← hincoming] at hrest
    exact request_handed_over hduplex hincoming (readHttpRequest_bytes hrequest hgood hrest)
      haccepts address
  · intro hrest outbound network destination filled sent key hprepare haccepts
    exact response_handed_over hduplex hincoming hgood hresponse hrest hprepare haccepts

-- A transport that is slow at most, whatever it has taken.
def Environment.pipe : Source Environment where
  good inner := ∃ sent, inner.Ready sent
  rest := Environment.incoming
  read := by
    rintro inner room ⟨sent, hready⟩ hroom hrest
    obtain ⟨bytes, next, hyields, hnext, hread⟩ := (source sent).read inner room hready hroom hrest
    exact ⟨bytes, next, hyields, ⟨sent, hnext⟩, hread⟩

theorem Environment.pipe_duplex : Duplex pipe where
  writeAll := by
    rintro inner data ⟨sent, hready⟩
    obtain ⟨next, hwrite, hnext, hsame⟩ := hready.writeAll data
    exact ⟨next, hwrite, ⟨_, hnext⟩, hsame⟩
  flush := by
    rintro inner ⟨sent, hready⟩
    obtain ⟨next, hflush, hnext, hsame⟩ := hready.flush
    exact ⟨next, hflush, ⟨sent, hnext⟩, hsame⟩

def UPGRADE_HEAD : RequestHead where
  method := "GET".toList
  target := "/".toList
  fields := [("Upgrade".toList, " websocket".toList), ("Connection".toList, " Upgrade".toList),
    ("Sec-WebSocket-Key".toList, " a".toList)]
  method_word := ⟨by decide, List.all_iff_forall_prop.mp (by decide)⟩
  target_word := ⟨by decide, List.all_iff_forall_prop.mp (by decide)⟩
  version_word := ⟨by decide, List.all_iff_forall_prop.mp (by decide)⟩
  fields_clean := by
    simp only [List.forall_mem_cons]
    refine ⟨⟨⟨by decide, ?_, by decide⟩, by decide⟩, ⟨⟨by decide, ?_, by decide⟩, by decide⟩,
      ⟨⟨by decide, ?_, by decide⟩, by decide⟩, HeadLines.fields_none⟩
    · exact List.all_iff_forall_prop.mp (by decide)
    · exact List.all_iff_forall_prop.mp (by decide)
    · exact List.all_iff_forall_prop.mp (by decide)

def SWITCHING_HEAD : ResponseHead where
  status := 101
  status_digits := by decide
  phrase_clean := HeadLines.phrase_none
  fields_clean := HeadLines.fields_none

def ROOT_INBOUND : VlessInbound := ⟨"vless", "/", "", fun _ => none⟩

theorem root_accepts : ROOT_INBOUND.Accepts (requestRead UPGRADE_HEAD []) [] :=
  ⟨by decide, by decide, by rfl, rfl, Nat.zero_le _⟩

theorem heads_lose_nothing_upgrade :
    (∃ tail inner, tail ++ inner.incoming = [1, 2, 3] ∧
      ROOT_INBOUND.HandsOver ⟨.v4 0, 0⟩
        (trickle (UPGRADE_HEAD.bytes ++ ((crlf ++ crlf) ++ [1, 2, 3]))) inner tail []) ∧
    ReadsHead readHttpResponse (responseRead SWITCHING_HEAD) Environment.pipe
      (trickle (SWITCHING_HEAD.bytes ++ ((crlf ++ crlf) ++ [1, 2, 3]))) [1, 2, 3] := by
  have hrequest : UPGRADE_HEAD.bytes.length + 4 ≤ MAX_HTTP_HEADER_SIZE := by decide
  have hresponse : SWITCHING_HEAD.bytes.length + 4 ≤ MAX_HTTP_HEADER_SIZE := by decide
  obtain ⟨hreads, hhands⟩ := heads_lose_nothing hrequest hresponse [1, 2, 3]
  exact ⟨(hhands Environment.pipe Environment.pipe_duplex rfl _ ⟨[], trickle_ready _⟩).1 rfl
    ROOT_INBOUND [] _ root_accepts, (hreads Environment.pipe _ ⟨[], trickle_ready _⟩).2 rfl⟩

end SingBox.Vless
