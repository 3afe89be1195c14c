import SingBox.Vless.Inbound.Routes

namespace SingBox.Vless

open Library
open Async (Yields)
open Core (Address Network parseUnsigned toAsciiLowercase)
open Text (isWhitespace)
open Utf8 (encode)
open WebSocketStream (deliver parse)

def STATUS_LINE : String := "HTTP/1.1 101 Switching Protocols"

def answerFields (accept : String) : List (List Char × List Char) :=
  [("Upgrade".toList, "websocket".toList), ("Connection".toList, "Upgrade".toList),
    ("Sec-WebSocket-Accept".toList, accept.toList)]

theorem switchingProtocols_bytes (key : String) :
    encode (switchingProtocols key) = headBytes STATUS_LINE.toList (answerFields (websocketAccept key)) := by
  unfold switchingProtocols
  generalize websocketAccept key = accept
  have hstring (text : String) : toString text = text := rfl
  rw [headBytes, encodeLine, Utf8.encode_inj, String.ext_iff, String.toList_ofList]
  simp [headText, answerFields, fieldText, STATUS_LINE, hstring, Text.crlf]

theorem encodeLine_length (line : List Char) : (encodeLine line).length ≤ 4 * line.length := by
  induction line with
  | nil => simp [encodeLine_eq]
  | cons char line ih =>
      have hchar := Char.utf8Size_le_four char
      rw [encodeLine_eq] at ih
      rw [encodeLine_eq, List.flatMap_cons, List.length_append, String.length_utf8EncodeChar]
      simp only [List.length_cons]
      omega

theorem digest_length (message : Bytes) : (Sha1.digest message).length = 20 := by
  simp [Sha1.digest]

theorem answer_size {accept : String} (h : accept.toList.length ≤ 80) :
    (headBytes STATUS_LINE.toList (answerFields accept)).length ≤ MAX_HTTP_HEADER_SIZE + 1 := by
  have hbytes := encodeLine_length (headText STATUS_LINE.toList ((answerFields accept).map fieldText))
  have htext : (headText STATUS_LINE.toList ((answerFields accept).map fieldText)).length =
      101 + accept.toList.length := by
    simp [headText, answerFields, fieldText, STATUS_LINE, Text.crlf]
    omega
  rw [headBytes, MAX_HTTP_HEADER_SIZE]
  omega

theorem websocketAccept_length (key : String) : (websocketAccept key).toList.length ≤ 80 := by
  have haccept := encodeBase64_length (Sha1.digest (encode key ++ WS_GUID))
  rwa [digest_length] at haccept

theorem answer_readable {accept : String}
    (h : ∀ char ∈ accept.toList, isWhitespace char = false) :
    Readable STATUS_LINE.toList (answerFields accept) where
  first := ⟨by decide, by decide⟩
  names := by simp [answerFields]
  fields := by simp [answerFields, VlessOutbound.notMem_of_plain h]

theorem answer_accept {accept : String} (h : ∀ char ∈ accept.toList, isWhitespace char = false) :
    ((answerFields accept).map entryOf).reverse.lookup "sec-websocket-accept" = some accept := by
  have hname : toAsciiLowercase (String.ofList (Text.trim "Sec-WebSocket-Accept".toList)) =
      "sec-websocket-accept" := by decide
  have hlast := lookup_last
    [("Upgrade".toList, "websocket".toList), ("Connection".toList, "Upgrade".toList)]
    ("Sec-WebSocket-Accept".toList, accept.toList) (fun _ hnone => absurd hnone List.not_mem_nil)
  simp only [entryOf, hname, Text.trim_eq_self h, String.ofList_toList] at hlast
  exact hlast

namespace VlessOutbound

variable {outbound : VlessOutbound} {key : String} {request : Bytes}

-- The client sends its head and takes that answer.
theorem upgrade_yields (outbound : VlessOutbound) (key : String) (request : Bytes)
    {stream : Environment} (hready : stream.Ready []) {back : Bytes}
    (hincoming : stream.incoming = encode (switchingProtocols key) ++ back) :
    ∃ extra next, Yields (outbound.upgrade key request) stream extra next ∧
      next.Ready (encode (outbound.http key request)) ∧ extra ++ next.incoming = back := by
  obtain ⟨written, hwrite, hwritten, hsame⟩ :=
    hready.writeAll (encode (outbound.http key request))
  rw [List.nil_append] at hwritten
  obtain ⟨flushed, hflush, hflushed, hkept⟩ := hwritten.flush
  have hgood : (Environment.source (encode (outbound.http key request))).good flushed := hflushed
  have hrest : flushed.incoming =
      headBytes STATUS_LINE.toList (answerFields (websocketAccept key)) ++ back := by
    rw [hkept, hsame, hincoming, switchingProtocols_bytes]
  have haccept : ∀ char ∈ (websocketAccept key).toList, isWhitespace char = false :=
    encodeBase64_plain (Sha1.digest (encode key ++ WS_GUID))
  have hcode : (Text.splitWhitespace STATUS_LINE.toList)[1]? = some "101".toList := by decide
  have hstatus : parseUnsigned (2 ^ 16) "101".toList = .ok 101 := by decide
  obtain ⟨extra, next, hread, hnext, htail⟩ := readHttpResponse_yields (answer_readable haccept)
    hcode hstatus (answer_size (websocketAccept_length key)) hgood hrest
  refine ⟨extra, next, ?_, hnext, htail⟩
  have hpair := answer_accept haccept
  generalize ((answerFields (websocketAccept key)).map entryOf).reverse = headers at hread hpair
  have haccepts : Accepts key { status := 101, headers, tail := extra } := ⟨rfl, hpair⟩
  exact haccepts.upgrade hwrite hflush hread

-- The client sends its request if it has not yet, and takes the answer to it.
theorem sendRequest_yields (outbound : VlessOutbound) {request : Bytes} (hne : request ≠ [])
    (hlength : request.length ≤ MAX_WS_FRAME_SIZE) {sent rest : Bytes} {outcome : IoResult Unit}
    {stream : WebSocketStream} (hopen : stream.Open sent outcome) (hclient : stream.clientSide = true)
    (hexact : stream.inner.sent ++ stream.unsent = sent)
    (hrest : stream.remaining.1 = [VLESS_VERSION, 0] ++ rest) :
    ∃ tunnel mask, Yields (outbound.sendRequest request) stream () tunnel ∧
      tunnel.Open (sent ++ if outbound.earlyData request then [] else
        WebSocketStream.frameBytes true mask 0x2 request) outcome ∧
      tunnel.remaining.1 = rest := by
  -- the answer is read the same way, whatever has been sent before
  have hanswer : ∀ sent (mid : WebSocketStream), mid.Open sent outcome →
      mid.remaining = stream.remaining →
      ∃ tunnel, Yields (fun polls => Async.readExact 2 polls >>= fun response =>
          Async.ensure (response = [VLESS_VERSION, 0]) "invalid VLESS response") mid () tunnel ∧
        tunnel.Open sent outcome ∧ tunnel.remaining.1 = rest := by
    intro sent mid hmid hsame
    have hreads : (WebSocketStream.source sent outcome).Reads (Async.readExact 2)
        [VLESS_VERSION, 0] [VLESS_VERSION, 0] := Source.Reads.exact_of_length rfl
    have hmidRest : mid.remaining.1 = [VLESS_VERSION, 0] ++ rest := by rw [hsame, hrest]
    obtain ⟨tunnel, hread, htunnel, hleft⟩ := hreads mid rest hmid hmidRest
    exact ⟨tunnel, hread.bind (.ofResult tunnel rfl), htunnel, hleft⟩
  by_cases hearly : outbound.earlyData request = true
  · obtain ⟨tunnel, hyields, htunnel, hleft⟩ := hanswer sent stream hopen rfl
    refine ⟨tunnel, fun _ => 0, ?_, ?_, hleft⟩
    · show Yields (fun polls => outbound.sendRequest request polls) _ _ _
      simp only [sendRequest, if_pos hearly]
      exact hyields
    · rwa [if_pos hearly, List.append_nil]
  · obtain ⟨written, hwrite, hwritten, hsends⟩ := hopen.writeAll hne hlength
    obtain ⟨mask, hconserved⟩ := hsends.conserved
    rw [hexact, hclient] at hconserved
    have hgone : written.Open (sent ++ WebSocketStream.frameBytes true mask 0x2 request) outcome :=
      { hwritten with sent := hconserved ▸ List.prefix_refl _ }
    obtain ⟨flushed, hflush, hflushed, hmoves, _⟩ := hgone.flush
    obtain ⟨tunnel, hyields, htunnel, hleft⟩ := hanswer _ flushed hflushed
      (hmoves.reader.remaining.trans hsends.reader.remaining)
    refine ⟨tunnel, mask, ?_, ?_, hleft⟩
    · show Yields (fun polls => outbound.sendRequest request polls) _ _ _
      simp only [sendRequest, if_neg hearly]
      exact hwrite.bind (hflush.bind hyields)
    · rwa [if_neg hearly]

def Connects (this : VlessOutbound) (destination : Address)
    (filled : { key : Bytes // key.length = 16 }) (stream : Environment)
    (tunnel : WebSocketStream) : Prop :=
  ∃ enough, ∀ polls, enough ≤ polls →
    this.connect .tcp destination (some filled) polls stream = some (.ok tunnel)

theorem encodeBase64_ne {value : Bytes} (h : value ≠ []) : encodeBase64 value ≠ "" := by
  intro hempty
  have hchars := congrArg String.toList hempty
  rw [encodeBase64, String.toList_ofList] at hchars
  cases value using encodeChunks.fun_cases with
  | case1 => exact h rfl
  | _ => simp [encodeChunks] at hchars

-- The client gets its stream from such an answer, and the opening has gone out by then.
theorem connects (outbound : VlessOutbound) {destination : Address} {request : Bytes}
    (hserver : outbound.server ≠ "")
    (hrequest : encodeVlessRequest outbound.uuid destination = .ok request)
    (filled : { key : Bytes // key.length = 16 }) {stream : Environment} (hready : stream.Ready [])
    {back rest : Bytes}
    (hincoming : stream.incoming = encode (switchingProtocols (encodeBase64 filled.val)) ++ back)
    (hanswer : (deliver (parse true false back).1 (parse true false back).2).1 =
      [VLESS_VERSION, 0] ++ rest) :
    ∃ tunnel mask, outbound.Connects destination filled stream tunnel ∧
      outbound.opening (encodeBase64 filled.val) mask request <+:
        tunnel.inner.sent ++ tunnel.unsent := by
  obtain ⟨hne, hlength⟩ := encodeVlessRequest_length hrequest
  obtain ⟨extra, inner, hupgrade, hinner, htail⟩ :=
    upgrade_yields outbound (encodeBase64 filled.val) request hready hincoming
  have hremaining : (WebSocketStream.new inner extra [] true).remaining.1 =
      [VLESS_VERSION, 0] ++ rest := by
    rw [WebSocketStream.remaining_new, htail]
    exact hanswer
  have hexact : (WebSocketStream.new inner extra [] true).inner.sent ++
      (WebSocketStream.new inner extra [] true).unsent =
        encode (outbound.http (encodeBase64 filled.val) request) :=
    (List.append_nil _).trans hinner.sent
  obtain ⟨tunnel, mask, hsend, htunnel, _⟩ := sendRequest_yields outbound hne hlength
    (open_new hinner extra [] true) rfl hexact hremaining
  obtain ⟨front, hfront⟩ := hupgrade
  obtain ⟨back, hback⟩ := hsend
  refine ⟨tunnel, mask, ⟨max front back, fun polls hpolls => ?_⟩, htunnel.sent⟩
  have hprepare : outbound.prepare .tcp destination (some filled) =
      .ok (request, encodeBase64 filled.val) := by
    have hserver : Address.new outbound.server outbound.serverPort =
        .ok ⟨outbound.server, outbound.serverPort⟩ := Address.new_ok outbound.serverPort hserver
    refine Result.bind_eq_ok.mpr ⟨(), rfl, Result.bind_eq_ok.mpr ⟨_, hserver, ?_⟩⟩
    exact Result.bind_eq_ok.mpr ⟨request, hrequest, rfl⟩
  simp only [connect, hprepare, hfront polls (by omega), hback polls (by omega)]

end VlessOutbound

end SingBox.Vless
