import SingBox.Cloudflared.ResponseBody.Segmentation
import SingBox.Cloudflared.ServeOrigin

namespace SingBox.Cloudflared

open Library SingBox.Core
open Async (Fails LoopFails Yields)
open HeadLines (ResponseHead)
open HttpHead (crlf)

section

variable {ρ ω : Type} [AsyncRead ρ] [AsyncWrite ω] {source : Source ρ} {sink : Sink ω}

-- A head, and nothing behind it.
theorem readHttpResponseHead_closed {reader : ρ} (head : ResponseHead) (hgood : source.good reader)
    (hsize : head.bytes.length + 4 ≤ MAX_HTTP_RESPONSE_HEADERS)
    (hrest : source.rest reader = head.bytes ++ (crlf ++ crlf)) :
    ∃ next, Yields readHttpResponseHead reader (head.status, headersOf head.fields, []) next ∧
      source.good next ∧ source.rest next = [] := by
  obtain ⟨reads, last, hreads, hflat, hlast, hempty⟩ :=
    Segments.exists_of_source (by decide : 0 < 4096) hgood
  have hbytes : reads.flatten = head.bytes ++ ((crlf ++ crlf) ++ []) := by
    rw [hflat, hrest, List.append_nil]
  have hlength : reads.flatten.length = head.bytes.length + 4 := by
    rw [hflat, hrest, List.length_append]
    rfl
  obtain ⟨⟨already, unread, next, hread, hnext, hbody⟩, -⟩ | ⟨hnot, -⟩ := readHttpResponseHead_segments
    (HeadLines.position_bytes head.all_lines []) (parseResponseHead_bytes head) hreads hbytes
  · obtain ⟨rfl, hunread⟩ := List.append_eq_nil_iff.mp hbody
    obtain ⟨-, rfl⟩ := hnext.flatten_eq_nil hunread
    exact ⟨next, hread, hlast, hempty⟩
  · refine absurd ⟨reads, [], (List.append_nil reads).symm, ?_, ?_⟩ hnot
    · exact Nat.le_of_eq hlength.symm
    · rw [hlength]
      exact hsize

variable {relay : Relay ρ ω} {headers : ResponseHeaders}

theorem copyChunkedResponseBody_nothing (hends : source.Ends) (hgood : source.good relay.reader)
    (hrest : source.rest relay.reader = []) :
    ∃ next, Fails (copyChunkedResponseBody []) relay ["origin closed before chunk size"] next := by
  let start : Relay (BufReader (Chain ρ)) ω :=
    { reader := { inner := { first := [], second := relay.reader } }, writer := relay.writer }
  obtain ⟨next, hline⟩ : ∃ next, Yields BufReader.readLine start "" next :=
    BufReader.readLine_nothing hends hgood rfl rfl hrest
  have hround : Fails (chunkRound ()) start ["origin closed before chunk size"] next :=
    hline.bind_fails ((Fails.ofResult next rfl).bind _)
  obtain ⟨enough, hloop⟩ := (LoopFails.here hround).fails
  refine ⟨{ reader := next.reader.inner.second, writer := next.writer }, enough, fun polls hpolls => ?_⟩
  have hfails : Async.loop chunkRound () polls start =
      some (.error ["origin closed before chunk size"], next) := hloop polls hpolls
  rw [copyChunkedResponseBody, hfails]
  rfl

-- The copy of a body of which there is nothing.
theorem copyResponseBody_nothing {taken : Bytes} (hends : source.Ends)
    (hgood : Relay.Good source sink taken relay) (hrest : source.rest relay.reader = [])
    (hchunked : isChunked headers = false) :
    ∃ next, Yields (copyResponseBody [] headers) relay () next ∧ Relay.Good source sink taken next := by
  obtain ⟨next, hcopy, hnext⟩ := copyResponseBody_writes source sink headers [] relay hends hchunked
    hgood.reader hgood.writer
  have hnothing (limit : Option Nat) : Relay.upTo limit [] = [] := by
    cases limit with
    | none => rfl
    | some most => exact List.take_nil
  rw [hrest, hnothing, List.append_nil, List.append_nil, hgood.taken] at hnext
  exact ⟨next, hcopy, hnext⟩

theorem copyWebsocketResponse_nothing {taken : Bytes} (hends : source.Ends)
    (hgood : Relay.Good source sink taken relay) (hrest : source.rest relay.reader = []) :
    ∃ copied next, Yields (copyWebsocketResponse []) relay copied next ∧
      Relay.Good source sink taken next := by
  obtain ⟨mid, hwrite, hmid, hsame⟩ := hgood.writeAll []
  obtain ⟨copied, next, hcopy, hnext⟩ := hmid.copy_upTo hends none
  rw [hsame, hrest, Relay.upTo, List.append_nil, List.append_nil] at hnext
  exact ⟨copied, next, hwrite.bind hcopy, hnext⟩

end

namespace QuicRequestStream

variable {ω : Type} [AsyncWrite ω]

def sink (sink : Sink ω) : Sink (QuicRequestStream ω) where
  good this := sink.good this.stream
  taken this := sink.taken this.stream
  write this data hgood hdata := by
    obtain ⟨count, stream, hwrite, hnext, hcount, htaken⟩ := sink.write this.stream data hgood hdata
    exact ⟨count, { this with stream }, onStream.yields hwrite, hnext, hcount, htaken⟩
  flush this hgood := by
    obtain ⟨stream, hflush, hnext, htaken⟩ := sink.flush this.stream hgood
    exact ⟨{ this with stream }, onStream.yields hflush, hnext, htaken⟩

variable {sink : Sink ω}

theorem closes [AsyncShutdown ω] (hcloses : sink.Closes) : (QuicRequestStream.sink sink).Closes := by
  intro this hgood
  obtain ⟨stream, hclose, hnext, htaken⟩ := hcloses this.stream hgood
  exact ⟨{ this with stream }, onStream.yields hclose, hnext, htaken⟩

-- The response is sent once.
theorem sendResponse_sends {encode : ConnectResponse → Result Bytes} {response : ConnectResponse}
    {bytes : Bytes} {this : QuicRequestStream ω} (hgood : sink.good this.stream)
    (hfresh : this.responseSent = false) (hencode : encode response = .ok bytes) :
    (QuicRequestStream.sink sink).Sends (sendResponse encode response) bytes this := by
  obtain ⟨next, hwrite, hnext, htaken⟩ := (QuicRequestStream.sink sink).writeAll hgood bytes
  refine ⟨{ next with responseSent := true }, ?_, hnext, htaken⟩
  have hget : Yields (fun _ => (get : Async (QuicRequestStream ω) (QuicRequestStream ω))) this this this :=
    .of_eq fun _ => rfl
  have hensure : Yields (fun _ => Async.ensure (!this.responseSent)
      "Cloudflare QUIC response already sent") this () this := by
    rw [hfresh]
    exact .ofResult this rfl
  exact hget.bind (hensure.bind ((Yields.ofResult this hencode).bind
    (hwrite.bind (Yields.modify (fun this => { this with responseSent := true }) next))))

end QuicRequestStream

section

variable {ι ο ρ ω : Type} [AsyncRead ι] [AsyncWrite ο] [AsyncRead ρ] [AsyncWrite ω]
  {source : Source ρ} {sink : Sink ω} {taken : Bytes} {up : Relay ι ο} {down : Relay ρ ω}

-- What goes up to the origin on an upgraded connection.
def forwardUp (polls : Nat) : Async (Relay ι ο) Unit := do
  let _ ← Relay.copy none polls
  return ()

omit [AsyncRead ι] [AsyncWrite ο] in
theorem respond_yields (up : Relay ι ο) (hgood : Relay.Good source sink taken down)
    {send : Nat → Async ω Unit} {bytes : Bytes} (hsend : sink.Sends send bytes down.writer) :
    ∃ next, Yields (fun polls => Exchange.onResponse.lift (send polls)) (up, down) () (up, next) ∧
      Relay.Good source sink (taken ++ bytes) next ∧ next.reader = down.reader := by
  obtain ⟨writer, hyields, hwriter, htaken⟩ := hsend
  exact ⟨{ down with writer }, hyields.lift Exchange.onResponse,
    ⟨hgood.reader, hwriter, by rw [htaken, hgood.taken]⟩, rfl⟩

theorem joinWebsocket_eq {alreadyRead : Bytes} {polls copied : Nat} {last : Relay ι ο}
    {next : Relay ρ ω} (hup : forwardUp polls up = some (.ok (), last))
    (hdown : copyWebsocketResponse alreadyRead polls down = some (.ok copied, next)) :
    joinWebsocket alreadyRead polls (up, down) = some (.ok (), (last, next)) := by
  obtain ⟨sent, mid, hcopy, hmid⟩ := Async.of_bind hup
  cases hmid
  exact Async.bind_ok (Async.tryJoin_ok hcopy hdown)

theorem of_joinWebsocket {alreadyRead : Bytes} {polls : Nat} {last : Relay ι ο} {next : Relay ρ ω}
    (h : joinWebsocket alreadyRead polls (up, down) = some (.ok (), (last, next))) :
    forwardUp polls up = some (.ok (), last) := by
  obtain ⟨⟨sent, copied⟩, mid, hjoin, hmid⟩ := Async.of_bind h
  cases hmid
  exact Async.bind_ok (Async.of_tryJoin hjoin).1

theorem joinWebsocket_iff (hends : source.Ends) (hgood : Relay.Good source sink taken down)
    (hrest : source.rest down.reader = []) :
    (∃ next, Yields (joinWebsocket []) (up, down) () next ∧ sink.taken next.2.writer = taken) ↔
      ∃ last, Yields forwardUp up () last := by
  obtain ⟨copied, behind, ⟨back, hdown⟩, hbehind⟩ := copyWebsocketResponse_nothing hends hgood hrest
  constructor
  · rintro ⟨⟨last, next⟩, ⟨enough, hall⟩, -⟩
    exact ⟨last, enough, fun polls hpolls => of_joinWebsocket (hall polls hpolls)⟩
  · rintro ⟨last, front, hup⟩
    refine ⟨(last, behind), ⟨max front back, fun polls hpolls => ?_⟩, hbehind.taken⟩
    exact joinWebsocket_eq (hup polls (by omega)) (hdown polls (by omega))

-- What the exchange comes down to: the copy up on an upgraded connection, and no chunks elsewhere.
def Completes (up : Relay ι ο) (upgraded : Bool) (headers : ResponseHeaders) : Prop :=
  if upgraded then ∃ last, Yields forwardUp up () last else isChunked headers = false

variable {request : ConnectRequest} {status : Nat} {headers : ResponseHeaders} [AsyncShutdown ω]

section

variable (hends : source.Ends) (hgood : Relay.Good source sink taken down)
  (hrest : source.rest down.reader = []) (hcloses : sink.Closes)

include hends hgood hrest hcloses

omit [AsyncRead ι] [AsyncWrite ο] in
theorem copyAndClose_iff :
    (∃ next, Yields (fun polls => Exchange.onDown.lift (copyResponseBody [] headers polls) >>= fun _ =>
        Exchange.onResponse.lift (Async.shutdown polls)) (up, down) () next ∧
      sink.taken next.2.writer = taken) ↔ isChunked headers = false := by
  cases hchunked : isChunked headers with
  | true =>
      refine iff_of_false ?_ Bool.noConfusion
      rintro ⟨next, hyields, -⟩
      obtain ⟨mid, enough, hcopy⟩ := copyChunkedResponseBody_nothing hends hgood.reader hrest
      have hfails : Fails (copyResponseBody [] headers) down ["origin closed before chunk size"] mid := by
        refine ⟨enough, fun polls hpolls => ?_⟩
        rw [copyResponseBody, hchunked]
        exact hcopy polls hpolls
      have hall : Fails (fun polls => Exchange.onDown.lift (copyResponseBody [] headers polls))
          (up, down) ["origin closed before chunk size"] (up, mid) := hfails.lift Exchange.onDown
      exact (hall.bind _).not_yields _ _ hyields
  | false =>
      refine iff_of_true ?_ rfl
      obtain ⟨mid, hcopy, hmid⟩ := copyResponseBody_nothing hends hgood hrest hchunked
      obtain ⟨next, hclose, hnext, -⟩ := respond_yields up hmid (hcloses _ hmid.writer)
      have hlift : Yields (fun polls => Exchange.onDown.lift (copyResponseBody [] headers polls))
          (up, down) () (up, mid) := hcopy.lift Exchange.onDown
      rw [List.append_nil] at hnext
      exact ⟨(up, next), hlift.bind hclose, hnext.taken⟩

theorem forwardHttp2_iff {sendResponse : Nat → ResponseHeaders → Nat → Async ω Unit}
    (hsend : sink.Sends (sendResponse (if upgrades request status then 200 else status)
      (http2Headers headers)) [] down.writer) :
    (∃ next, Yields (forwardHttp2 sendResponse request status headers []) (up, down) () next ∧
        sink.taken next.2.writer = taken) ↔
      Completes up (upgrades request status) headers := by
  obtain ⟨mid, hhead, hmid, hreader⟩ := respond_yields up hgood hsend
  rw [List.append_nil] at hmid
  rw [← hreader] at hrest
  have hiff {next : Exchange ι ο ρ ω} : Yields (forwardHttp2 sendResponse request status headers [])
      (up, down) () next ↔ _ := hhead.bind_iff
  simp only [hiff]
  cases hupgrades : upgrades request status with
  | true =>
      simp only [Completes, if_true]
      obtain ⟨copied, behind, hcopy, hbehind⟩ := copyWebsocketResponse_nothing hends hmid hrest
      constructor
      · rintro ⟨next, ⟨enough, hall⟩, -⟩
        refine ⟨next.1, enough, fun polls hpolls => ?_⟩
        obtain ⟨⟨⟩, ⟨last, final⟩, hjoin, hlast⟩ := Async.of_bind (hall polls hpolls)
        obtain ⟨⟨result, writer⟩, -, hwriter⟩ := Option.map_eq_some_iff.mp hlast
        obtain ⟨-, rfl⟩ := Prod.mk.inj hwriter
        exact of_joinWebsocket hjoin
      · rintro ⟨last, front, hup⟩
        obtain ⟨back, hdown⟩ := hcopy
        obtain ⟨next, hclose, hnext, -⟩ := respond_yields last hbehind (hcloses _ hbehind.writer)
        have hjoin : Yields (joinWebsocket []) (up, mid) () (last, behind) :=
          ⟨max front back, fun polls hpolls =>
            joinWebsocket_eq (hup polls (by omega)) (hdown polls (by omega))⟩
        rw [List.append_nil] at hnext
        exact ⟨(last, next), hjoin.bind hclose, hnext.taken⟩
  | false => exact copyAndClose_iff hends hmid hrest hcloses

end

theorem forwardQuic_iff (hends : source.Ends) (hcloses : sink.Closes)
    {encode : ConnectResponse → Result Bytes} {down : Relay ρ (QuicRequestStream ω)} {bytes : Bytes}
    (hgood : Relay.Good source (QuicRequestStream.sink sink) taken down)
    (hrest : source.rest down.reader = []) (hfresh : down.writer.responseSent = false)
    (hencode : encode (acceptedResponse status headers) = .ok bytes) :
    (∃ next, Yields (forwardQuic encode request status headers []) (up, down) () next ∧
        sink.taken next.2.writer.stream = taken ++ bytes) ↔
      Completes up (upgrades request status) headers := by
  obtain ⟨mid, hhead, hmid, hreader⟩ := respond_yields up hgood
    (QuicRequestStream.sendResponse_sends hgood.writer hfresh hencode)
  rw [← hreader] at hrest
  have hquic : (QuicRequestStream.sink sink).Closes := QuicRequestStream.closes hcloses
  have hiff {next : Exchange ι ο ρ (QuicRequestStream ω)} :
      Yields (forwardQuic encode request status headers []) (up, down) () next ↔ _ := hhead.bind_iff
  simp only [hiff]
  cases hupgrades : upgrades request status with
  | true =>
      simp only [Completes, if_true]
      exact joinWebsocket_iff hends hmid hrest
  | false => exact copyAndClose_iff hends hmid hrest hquic

-- The origin has sent a head and closed.
structure Answered (source : Source ρ) (sink : Sink ω) (taken : Bytes) (head : ResponseHead)
    (down : Relay ρ ω) : Prop where
  good : Relay.Good source sink taken down
  rest : source.rest down.reader = head.bytes ++ (crlf ++ crlf)

omit [AsyncRead ι] [AsyncWrite ο] [AsyncShutdown ω] in
theorem originResponse_closed {requestOrigin : ConnectRequest → Nat → Async (Exchange ι ο ρ ω) Unit}
    {state sent : Exchange ι ο ρ ω} (hsent : Yields (requestOrigin request) state () sent)
    {head : ResponseHead} (hsize : head.bytes.length + 4 ≤ MAX_HTTP_RESPONSE_HEADERS)
    (hanswered : Answered source sink taken head sent.2) :
    ∃ down, Yields (originResponse requestOrigin request) state
        (head.status, headersOf head.fields, []) (sent.1, down) ∧
      Relay.Good source sink taken down ∧ source.rest down.reader = [] ∧
      down.writer = sent.2.writer := by
  obtain ⟨reader, hread, hgood, hrest⟩ :=
    readHttpResponseHead_closed head hanswered.good.reader hsize hanswered.rest
  have hlift : Yields (fun polls => Exchange.onOrigin.lift (readHttpResponseHead polls)) sent
      (head.status, headersOf head.fields, []) (sent.1, { sent.2 with reader }) :=
    hread.lift Exchange.onOrigin
  exact ⟨{ sent.2 with reader }, hsent.bind hlift,
    ⟨hgood, hanswered.good.writer, hanswered.good.taken⟩, hrest, rfl⟩

variable {parseUri : String → Result Uri} {config : RemoteConfigState} {resolved : ConnectRequest}
  {head : ResponseHead}

theorem serveHttpOrigin_iff (hends : source.Ends) (hcloses : sink.Closes)
    (hresolved : resolveRemoteRequest parseUri config request = .ok (resolved, none))
    (hsize : head.bytes.length + 4 ≤ MAX_HTTP_RESPONSE_HEADERS)
    {requestOrigin : ConnectRequest → Nat → Async (Exchange ι ο ρ ω) Unit}
    {sendResponse : Nat → ResponseHeaders → Nat → Async ω Unit} {state sent : Exchange ι ο ρ ω}
    (hsent : Yields (requestOrigin resolved) state () sent)
    (hanswered : Answered source sink taken head sent.2)
    (hsend : sink.Sends (sendResponse (if upgrades resolved head.status then 200 else head.status)
      (http2Headers (headersOf head.fields))) [] sent.2.writer) :
    (∃ next, Yields (serveHttpOrigin parseUri requestOrigin sendResponse config request) state () next ∧
        sink.taken next.2.writer = taken) ↔
      Completes sent.1 (upgrades resolved head.status) (headersOf head.fields) := by
  obtain ⟨down, horigin, hgood, hrest, hwriter⟩ := originResponse_closed hsent hsize hanswered
  have hserve {next : Exchange ι ο ρ ω} :
      Yields (serveHttpOrigin parseUri requestOrigin sendResponse config request) state () next ↔ _ :=
    (Yields.ofResult state hresolved).bind_iff
  simp only [hserve]
  rw [← hwriter] at hsend
  rw [← forwardHttp2_iff hends hgood hrest hcloses hsend]
  exact exists_congr fun next => and_congr_left fun _ => horigin.bind_iff

theorem serveQuicHttpOrigin_iff (hends : source.Ends) (hcloses : sink.Closes)
    (hresolved : resolveRemoteRequest parseUri config request = .ok (resolved, none))
    (hsize : head.bytes.length + 4 ≤ MAX_HTTP_RESPONSE_HEADERS)
    {requestOrigin : ConnectRequest → Nat → Async (Exchange ι ο ρ (QuicRequestStream ω)) Unit}
    {encode : ConnectResponse → Result Bytes} {state sent : Exchange ι ο ρ (QuicRequestStream ω)}
    {bytes : Bytes} (hsent : Yields (requestOrigin resolved) state () sent)
    (hanswered : Answered source (QuicRequestStream.sink sink) taken head sent.2)
    (hfresh : sent.2.writer.responseSent = false)
    (hencode : encode (acceptedResponse head.status (headersOf head.fields)) = .ok bytes) :
    (∃ next, Yields (serveQuicHttpOrigin parseUri requestOrigin encode config request) state () next ∧
        sink.taken next.2.writer.stream = taken ++ bytes) ↔
      Completes sent.1 (upgrades resolved head.status) (headersOf head.fields) := by
  obtain ⟨down, horigin, hgood, hrest, hwriter⟩ := originResponse_closed hsent hsize hanswered
  have hserve {next : Exchange ι ο ρ (QuicRequestStream ω)} :
      Yields (serveQuicHttpOrigin parseUri requestOrigin encode config request) state () next ↔ _ :=
    (Yields.ofResult state hresolved).bind_iff
  simp only [hserve]
  rw [← hwriter] at hfresh
  rw [← forwardQuic_iff hends hcloses hgood hrest hfresh hencode]
  exact exists_congr fun next => and_congr_left fun _ => (horigin.tryCatch fun chain polls =>
    Exchange.onResponse.lift (refuseQuic encode chain polls) >>= fun _ => throw chain).bind_iff

end

-- Whether a response can have a body plays no part. With the head sent and the origin closed, both
-- end well, with no body, where no chunks are announced.
theorem bodyless_completes_iff {ι ο ρ ω : Type} [AsyncRead ι] [AsyncWrite ο] [AsyncRead ρ]
    [AsyncWrite ω] [AsyncShutdown ω] {source : Source ρ} {sink : Sink ω} (hends : source.Ends)
    (hcloses : sink.Closes) {parseUri : String → Result Uri} {config : RemoteConfigState}
    {request resolved : ConnectRequest}
    (hresolved : resolveRemoteRequest parseUri config request = .ok (resolved, none))
    {head : ResponseHead} (hsize : head.bytes.length + 4 ≤ MAX_HTTP_RESPONSE_HEADERS) (taken : Bytes) :
    (∀ (requestOrigin : ConnectRequest → Nat → Async (Exchange ι ο ρ ω) Unit)
        (sendResponse : Nat → ResponseHeaders → Nat → Async ω Unit) (state sent : Exchange ι ο ρ ω),
        Yields (requestOrigin resolved) state () sent → Answered source sink taken head sent.2 →
        sink.Sends (sendResponse (if upgrades resolved head.status then 200 else head.status)
          (http2Headers (headersOf head.fields))) [] sent.2.writer →
        ((∃ next, Yields (serveHttpOrigin parseUri requestOrigin sendResponse config request) state ()
            next ∧ sink.taken next.2.writer = taken) ↔
          Completes sent.1 (upgrades resolved head.status) (headersOf head.fields))) ∧
    ∀ (requestOrigin : ConnectRequest → Nat → Async (Exchange ι ο ρ (QuicRequestStream ω)) Unit)
      (encode : ConnectResponse → Result Bytes) (state sent : Exchange ι ο ρ (QuicRequestStream ω))
      (bytes : Bytes),
      Yields (requestOrigin resolved) state () sent →
      Answered source (QuicRequestStream.sink sink) taken head sent.2 →
      sent.2.writer.responseSent = false →
      encode (acceptedResponse head.status (headersOf head.fields)) = .ok bytes →
      ((∃ next, Yields (serveQuicHttpOrigin parseUri requestOrigin encode config request) state () next ∧
          sink.taken next.2.writer.stream = taken ++ bytes) ↔
        Completes sent.1 (upgrades resolved head.status) (headersOf head.fields)) := by
  constructor
  · intro requestOrigin sendResponse state sent hsent hanswered hsend
    exact serveHttpOrigin_iff hends hcloses hresolved hsize hsent hanswered hsend
  · intro requestOrigin encode state sent bytes hsent hanswered hfresh hencode
    exact serveQuicHttpOrigin_iff hends hcloses hresolved hsize hsent hanswered hfresh hencode

-- A request that the tunnel forwards to an origin, and the origin's answer to it.
def HEAD_REQUEST : ConnectRequest where
  destination := "http://origin/"
  connectionType := .http
  metadata := [⟨"HttpMethod", "HEAD"⟩]

def answer {ω : Type} (head : ResponseHead) (writer : ω) : Exchange Pieces Collected Pieces ω :=
  (⟨⟨[]⟩, ⟨[]⟩⟩, ⟨⟨[head.bytes ++ (crlf ++ crlf)]⟩, writer⟩)

theorem answered {ω : Type} [AsyncWrite ω] (head : ResponseHead) (sink : Sink ω) (writer : ω)
    (hwriter : sink.good writer) :
    Answered Pieces.source sink (sink.taken writer) head (answer head writer).2 where
  good := by
    refine ⟨fun piece hpiece => ?_, hwriter, rfl⟩
    obtain rfl := List.mem_singleton.mp hpiece
    exact List.append_ne_nil_of_right_ne_nil _ (by decide)
  rest := List.append_nil _

-- No rules, so that no URI is looked at, and a request that has been sent before.
def anyUri : String → Result Uri := fun _ => .error ["invalid uri"]

def sentBefore {ω : Type} : ConnectRequest → Nat → Async (Exchange Pieces Collected Pieces ω) Unit :=
  fun _ _ => pure ()

def respond : Nat → ResponseHeaders → Nat → Async Collected Unit := fun _ _ _ => pure ()

def encodeError : ConnectResponse → Result Bytes := fun response => .ok (Utf8.encode response.error)

theorem sentBefore_yields {ω : Type} (exchange : Exchange Pieces Collected Pieces ω) :
    Yields (sentBefore HEAD_REQUEST) exchange () exchange := .pure exchange ()

theorem head_resolved : resolveRemoteRequest anyUri .initial HEAD_REQUEST = .ok (HEAD_REQUEST, none) :=
  rfl

theorem bodyless_completes_no_content :
    (∃ next, Yields (serveHttpOrigin anyUri sentBefore respond .initial HEAD_REQUEST)
        (answer NO_CONTENT (Collected.mk [])) () next ∧ next.2.writer.bytes = []) ∧
    ∃ next, Yields (serveQuicHttpOrigin anyUri sentBefore encodeError .initial HEAD_REQUEST)
        (answer NO_CONTENT (QuicRequestStream.mk (Collected.mk []) false)) () next ∧
      next.2.writer.stream.bytes = [] := by
  have hsize : NO_CONTENT.bytes.length + 4 ≤ MAX_HTTP_RESPONSE_HEADERS := by decide
  constructor
  · refine ((bodyless_completes_iff Pieces.ends Collected.closes head_resolved hsize []).1 sentBefore
      respond _ _ (sentBefore_yields _) (answered NO_CONTENT Collected.sink _ trivial) ?_).mpr rfl
    exact ⟨_, .pure _ (), trivial, rfl⟩
  · have hanswered : Answered Pieces.source (QuicRequestStream.sink Collected.sink) [] NO_CONTENT
        (answer NO_CONTENT (QuicRequestStream.mk (Collected.mk []) false)).2 :=
      answered NO_CONTENT (QuicRequestStream.sink Collected.sink) ⟨⟨[]⟩, false⟩ trivial
    exact ((bodyless_completes_iff Pieces.ends Collected.closes head_resolved hsize []).2 sentBefore
      encodeError _ _ [] (sentBefore_yields _) hanswered rfl rfl).mpr rfl

theorem chunked_status : 100 ≤ 200 ∧ 200 < 1000 := by decide

theorem chunked_fields : ∀ field ∈ [("Transfer-Encoding".toList, " chunked".toList)],
    HeadLines.Field.WellFormed field := by
  intro field hfield
  obtain rfl := List.mem_singleton.mp hfield
  exact ⟨⟨by decide, List.all_iff_forall_prop.mp (by decide), by decide⟩, by decide⟩

-- The coding of the body that a GET would get.
def CHUNKED_OK : ResponseHead where
  status := 200
  fields := [("Transfer-Encoding".toList, " chunked".toList)]
  status_digits := chunked_status
  phrase_clean := HeadLines.phrase_none
  fields_clean := chunked_fields

def Bodyless (request : ConnectRequest) (status : Nat) : Prop :=
  requestMethod request = "HEAD" ∨ status = 204 ∨ status = 304

theorem not_bodyless_completes : ¬∀ (request : ConnectRequest) (head : ResponseHead),
    Bodyless request head.status → ∃ next, Yields (serveHttpOrigin anyUri sentBefore respond .initial
      request) (answer head (Collected.mk [])) () next ∧ next.2.writer.bytes = [] := by
  intro hall
  have hsize : CHUNKED_OK.bytes.length + 4 ≤ MAX_HTTP_RESPONSE_HEADERS := by decide
  have hsend : Collected.sink.Sends (respond 200 (http2Headers (headersOf CHUNKED_OK.fields))) []
      (Collected.mk []) := ⟨_, .pure _ (), trivial, rfl⟩
  have hanswered : Answered Pieces.source Collected.sink [] CHUNKED_OK
      (answer CHUNKED_OK (Collected.mk [])).2 := answered CHUNKED_OK Collected.sink ⟨[]⟩ trivial
  have hiff := serveHttpOrigin_iff Pieces.ends Collected.closes head_resolved hsize
    (sentBefore_yields _) hanswered hsend
  have hchunked : isChunked (headersOf CHUNKED_OK.fields) = true := by decide
  cases hchunked.symm.trans (hiff.mp (hall HEAD_REQUEST CHUNKED_OK (.inl rfl)))

end SingBox.Cloudflared
