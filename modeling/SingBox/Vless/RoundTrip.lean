import SingBox.Vless.Http.RoundTrip
import SingBox.Vless.Outbound.Connects

namespace SingBox.Vless

open Library
open Async (Yields)
open Core (Address IpAddr Session SocketAddr)
open Utf8 (encode)
open WebSocketStream (deliver parse trickle)

theorem encodeVlessRequest_ok (uuid : Uuid) {destination : Address}
    (h : (IpAddr.fromStr destination.host.toList).isSome ∨ (encode destination.host).length ≤ 255) :
    ∃ request, encodeVlessRequest uuid destination = .ok request := by
  have haddress : ∃ address, encodeAddress destination.host = .ok address := by
    unfold encodeAddress
    split
    · exact ⟨_, rfl⟩
    · exact ⟨_, rfl⟩
    · next hnone =>
        have hlength : (encode destination.host).length ≤ 255 :=
          h.resolve_left (by rw [hnone]; exact Bool.false_ne_true)
        exact ⟨_, Result.bind_eq_ok.mpr
          ⟨(), Result.ensure_eq_ok.mpr (decide_eq_true hlength), rfl⟩⟩
  obtain ⟨address, haddress⟩ := haddress
  exact ⟨_, Result.bind_eq_ok.mpr ⟨address, haddress, rfl⟩⟩

-- The frames that one side sends carry its data up to its Close.
theorem carried_wire {frames : List WholeFrame} {bytes : Bytes}
    (h : WebSocketStream.Wire true frames bytes)
    (hs : ∀ frame ∈ frames, WebSocketStream.Sendable frame.opcode frame.payload.length) :
    carried bytes = (WebSocketStream.dataBeforeClose frames, .ok ()) := by
  have hparse : parse false false bytes = (frames, .clean) := (h.accepts hs).parse
  rw [carried, hparse]
  exact WebSocketStream.deliver_clean frames

-- A request is read back whole from any transport. Sent by a client it arrives at the server,
-- which hands on what the client's later frames carry: in the head of the handshake as well as
-- in the first message, however the bytes arrive.
theorem request_round_trip {users : Users} {uuid : Uuid} {user : String} {destination : Address}
    (huser : users uuid = some user) (hhost : destination.host ≠ "")
    (haddress : (IpAddr.fromStr destination.host.toList).isSome ∨
      (encode destination.host).length ≤ 255) :
    ∃ request, encodeVlessRequest uuid destination = .ok request ∧
      (∀ (inner : Environment) (following : Bytes), inner.Reliable → inner.Fair →
        inner.incoming = request ++ following →
        ∃ next, Yields (readVlessRequest users) inner
            (⟨canonicalHost destination.host, destination.port⟩, user) next ∧
          next.incoming = following) ∧
      ∀ (outbound : VlessOutbound) (inbound : VlessInbound)
        (filled : { key : Bytes // key.length = 16 }),
        outbound.uuid = uuid → inbound.users = users → Alike outbound inbound → outbound.Plain →
        (encode (outbound.http (encodeBase64 filled.val) request)).length ≤
          MAX_HTTP_HEADER_SIZE + 1 →
        (∀ (stream : Environment) (back rest : Bytes), outbound.server ≠ "" → stream.Ready [] →
          stream.incoming = encode (switchingProtocols (encodeBase64 filled.val)) ++ back →
          (deliver (parse true false back).1 (parse true false back).2).1 =
            [VLESS_VERSION, 0] ++ rest →
          ∃ tunnel mask, outbound.Connects destination filled stream tunnel ∧
            outbound.opening (encodeBase64 filled.val) mask request <+:
              tunnel.inner.sent ++ tunnel.unsent) ∧
        ∀ (source : SocketAddr) (mask : Mask) (stream : Environment) (more : Bytes),
          stream.Ready [] →
          stream.incoming = outbound.opening (encodeBase64 filled.val) mask request ++ more →
          ∃ application, inbound.Routes source stream
              (Session.ofInbound .tcp source ⟨canonicalHost destination.host, destination.port⟩
                inbound.tag (some user)) application ∧
            application.HandsOut (carried more) ∧
            ∀ frames, WebSocketStream.Wire true frames more →
              (∀ frame ∈ frames, WebSocketStream.Sendable frame.opcode frame.payload.length) →
              carried more = (WebSocketStream.dataBeforeClose frames, .ok ()) := by
  obtain ⟨request, hrequest⟩ := encodeVlessRequest_ok uuid haddress
  refine ⟨request, hrequest, fun inner following hreliable hfair hincoming => ?_, ?_⟩
  · have hgood : (Environment.source inner.sent).good inner := ⟨hreliable, hfair, rfl⟩
    obtain ⟨next, hread, _, hrest⟩ :=
      reads_request (Environment.source inner.sent) huser hhost hrequest inner following hgood
        hincoming
    exact ⟨next, hread, hrest⟩
  · rintro outbound inbound filled rfl rfl halike hplain hsize
    have hne : encodeBase64 filled.val ≠ "" := by
      refine VlessOutbound.encodeBase64_ne fun hempty => ?_
      have hlength := filled.property
      rw [hempty] at hlength
      cases hlength
    refine ⟨fun stream back rest hserver hready hincoming hanswer => ?_,
      fun source mask stream more hready hincoming => ?_⟩
    · exact outbound.connects hserver hrequest filled hready hincoming hanswer
    · obtain ⟨application, hroutes, hhands⟩ := VlessInbound.routes halike hplain
        (encodeBase64_plain _) hne huser hhost hrequest hsize source mask hready hincoming
      exact ⟨application, hroutes, hhands, fun frames => carried_wire⟩

-- A server whose path, or the limit on whose head, the client has not kept.
theorem VlessInbound.tooLarge {outbound : VlessOutbound} (inbound : VlessInbound)
    (hplain : outbound.Plain) {key : String}
    (hkey : ∀ char ∈ key.toList, Text.isWhitespace char = false) {request : Bytes}
    (hlong : MAX_HTTP_HEADER_SIZE + 1 < (encode (outbound.http key request)).length)
    (source : SocketAddr) (tail : Bytes) (polls : Nat) :
    inbound.handleConnectionInner source (polls + 1)
        (trickle (encode (outbound.http key request) ++ tail)) =
      some (.error ["VLESS WebSocket HTTP headers are too large"]) := by
  rw [VlessOutbound.http_bytes] at hlong ⊢
  have hread := readHttpRequest_tooLarge (hplain.readable hkey request) hlong tail polls
  have hupgrade : inbound.upgrade (polls + 1) (trickle (headBytes outbound.requestLine
      ((outbound.sent key request).map VlessOutbound.fieldOf) ++ tail)) =
      some (.error ["VLESS WebSocket HTTP headers are too large"], _) := Async.bind_error hread
  simp only [handleConnectionInner, hupgrade]

theorem VlessInbound.refuses (inbound : VlessInbound) {first : List Char}
    {fields : List (List Char × List Char)} (h : Readable first fields)
    (hsize : (headBytes first fields).length ≤ MAX_HTTP_HEADER_SIZE + 1)
    (hmethod : ∀ tail, (requestOf first fields tail).method = "GET")
    (hpath : ∀ tail, (requestOf first fields tail).path ≠ inbound.path) (source : SocketAddr)
    {stream : Environment} (hready : stream.Ready []) {tail : Bytes}
    (hincoming : stream.incoming = headBytes first fields ++ tail) :
    ∃ next enough, ∀ polls, enough ≤ polls →
      inbound.handleConnectionInner source polls stream = some (.ok (.refused next)) := by
  have hgood : (Environment.source []).good stream := hready
  obtain ⟨extra, mid, hread, hmid, _⟩ := readHttpRequest_yields h hsize hgood hincoming
  obtain ⟨next, hwrite, _⟩ := Environment.Ready.writeAll hmid
    (encode ("HTTP/1.1 " ++ toString 404 ++ " " ++ toString "Not Found" ++
      "\r\nContent-Length: 0\r\nConnection: close\r\n\r\n"))
  have hrefused : Yields (fun polls => writeHttpError 404 "Not Found" polls >>= fun _ =>
      Pure.pure none) mid (none : Option (Bytes × Bytes)) next := hwrite.bind (.pure next none)
  have hupgrade : Yields inbound.upgrade stream none next := by
    refine hread.bind ?_
    simp only [hmethod, hpath, ne_eq, not_true_eq_false, not_false_eq_true, if_false, if_true]
    exact hrefused
  obtain ⟨enough, hupgrade⟩ := hupgrade
  exact ⟨next, enough, fun polls hpolls => by
    simp only [handleConnectionInner, hupgrade polls hpolls]⟩

def exampleDestination : Address := ⟨"example.org", 80⟩

def exampleUuid : Uuid := ⟨List.replicate 16 0, rfl⟩

def exampleKey : { key : Bytes // key.length = 16 } := ⟨List.replicate 16 0, rfl⟩

-- A header so large that the head is at the limit without early data.
def exampleOutbound (filler maxEarlyData : Nat) : VlessOutbound where
  server := "h"
  serverPort := 443
  uuid := exampleUuid
  path := "/ws"
  headers := [("X-Filler", String.ofList (List.replicate filler 'a'))]
  maxEarlyData := maxEarlyData
  earlyDataHeaderName := "Early-Data"
  serverName := ""

def exampleInbound : VlessInbound where
  tag := "in"
  path := "/ws"
  earlyDataHeaderName := "Early-Data"
  users := fun _ => some "user"

theorem exampleOutbound_configured (filler maxEarlyData : Nat) :
    (exampleOutbound filler maxEarlyData).configured =
      [("X-Filler", String.ofList (List.replicate filler 'a'))] := by
  have hname : Core.toAsciiLowercase "X-Filler" ∉ VlessOutbound.RESERVED := by decide
  exact List.filter_cons_of_pos (decide_eq_true hname)

theorem exampleOutbound_plain (filler maxEarlyData : Nat) :
    (exampleOutbound filler maxEarlyData).Plain where
  path := by simp [exampleOutbound, Text.isWhitespace]
  host := by simp [exampleOutbound, VlessOutbound.host]
  names := by simp [exampleOutbound_configured, VlessOutbound.Token, Text.isWhitespace]
  values := by simp [exampleOutbound_configured, List.mem_replicate]
  earlyToken := by simp [exampleOutbound, VlessOutbound.Token, Text.isWhitespace]
  earlyReserved := show Core.toAsciiLowercase "Early-Data" ∉ VlessOutbound.RESERVED by decide
  earlyConfigured := by
    have hname : Core.toAsciiLowercase "X-Filler" ≠ Core.toAsciiLowercase "Early-Data" := by decide
    rw [exampleOutbound_configured]
    exact List.forall_mem_singleton.mpr hname

theorem exampleOutbound_alike (filler maxEarlyData : Nat) :
    Alike (exampleOutbound filler maxEarlyData) exampleInbound :=
  ⟨show "/ws" = rootedPath "/ws" by decide, rfl⟩

def exampleFront : String :=
  "GET /ws HTTP/1.1\r\n" ++ "Host: h\r\n" ++ "Upgrade: websocket\r\n" ++
    "Connection: Upgrade\r\n" ++ "Sec-WebSocket-Version: 13\r\n" ++
    "Sec-WebSocket-Key: AAAAAAAAAAAAAAAAAAAAAA==\r\n"

theorem exampleHttp_eq (filler maxEarlyData : Nat) (request : Bytes) :
    (exampleOutbound filler maxEarlyData).http (encodeBase64 exampleKey.val) request =
      exampleFront ++ ("X-Filler: " ++ String.ofList (List.replicate filler 'a') ++ "\r\n") ++
        (if (exampleOutbound filler maxEarlyData).earlyData request then
          VlessOutbound.headerLine ("Early-Data", encodeBase64Url request) else "") ++ "\r\n" := by
  have hkey : encodeBase64 exampleKey.val = "AAAAAAAAAAAAAAAAAAAAAA==" := by decide +kernel
  have hpath (path : String) (h : path = "/ws") :
      s!"GET {path} HTTP/1.1\r\n" = "GET /ws HTTP/1.1\r\n" := by rw [h]; decide +kernel
  have hhost (host : String) (h : host = "h") : s!"Host: {host}\r\n" = "Host: h\r\n" := by
    rw [h]; decide +kernel
  have hkeyed (key : String) (h : key = "AAAAAAAAAAAAAAAAAAAAAA==") :
      s!"Sec-WebSocket-Key: {key}\r\n" = "Sec-WebSocket-Key: AAAAAAAAAAAAAAAAAAAAAA==\r\n" := by
    rw [h]; decide +kernel
  have hrooted : rootedPath "/ws" = "/ws" := by decide
  have hjoin (header : String × String) :
      String.join [VlessOutbound.headerLine header] = VlessOutbound.headerLine header := by
    rw [String.join_cons, String.join_nil, String.append_empty]
  have hparts : (exampleOutbound filler maxEarlyData).path = "/ws" ∧
      (exampleOutbound filler maxEarlyData).host = "h" ∧
      (exampleOutbound filler maxEarlyData).earlyDataHeaderName = "Early-Data" := ⟨rfl, rfl, rfl⟩
  unfold VlessOutbound.http
  rw [exampleOutbound_configured, hkey, hparts.1, hparts.2.1, hparts.2.2, hpath _ hrooted, hhost _ rfl,
    hkeyed _ rfl, List.map_singleton, hjoin]
  rfl

theorem exampleHttp_length (filler maxEarlyData : Nat) (request : Bytes) :
    (encode ((exampleOutbound filler maxEarlyData).http (encodeBase64 exampleKey.val)
        request)).length = 154 + filler +
      (encode (if (exampleOutbound filler maxEarlyData).earlyData request then
        VlessOutbound.headerLine ("Early-Data", encodeBase64Url request) else "")).length := by
  have hfiller : (encode (String.ofList (List.replicate filler 'a'))).length = filler := by
    rw [Utf8.encode_length] <;> simp +contextual [List.mem_replicate]
  have hfront : (encode exampleFront).length = 140 := by decide +kernel
  have hname : (encode "X-Filler: ").length = 10 := by decide +kernel
  have hend : (encode "\r\n").length = 2 := by decide +kernel
  rw [exampleHttp_eq]
  simp only [Utf8.encode_append, List.length_append, hfiller, hfront, hname, hend]
  omega

def exampleRequest : Bytes :=
  0 :: List.replicate 16 0 ++ [0, 1, 0, 80, 2, 11] ++ encode "example.org"

theorem exampleRequest_eq : encodeVlessRequest exampleUuid exampleDestination = .ok exampleRequest := by
  decide +kernel

theorem exampleOutbound_early (filler maxEarlyData : Nat) :
    (exampleOutbound filler maxEarlyData).earlyData exampleRequest = true ↔ 34 ≤ maxEarlyData := by
  have hlength : exampleRequest.length = 34 := by decide +kernel
  have hname : ("Early-Data" != "") = true := by decide
  rw [VlessOutbound.earlyData, hlength]
  show (decide (0 < maxEarlyData) && ("Early-Data" != "") && decide (34 ≤ maxEarlyData)) = true ↔ _
  rw [hname]
  simp only [Bool.and_true, Bool.and_eq_true, decide_eq_true_eq]
  omega

-- With early data the head of a client can be too large for the server, where it is not without,
-- and a path with a blank in it is not the server's path to the server.
theorem not_request_round_trip :
    (∀ source mask polls, exampleInbound.handleConnectionInner source (polls + 1)
        (trickle ((exampleOutbound 16231 300).opening (encodeBase64 exampleKey.val) mask
          exampleRequest)) = some (.error ["VLESS WebSocket HTTP headers are too large"])) ∧
    (∀ source mask, ∃ application, exampleInbound.Routes source
      (trickle ((exampleOutbound 16231 0).opening (encodeBase64 exampleKey.val) mask exampleRequest))
      (Session.ofInbound .tcp source exampleDestination "in" (some "user")) application) ∧
    ∀ source mask, ∃ next enough, ∀ polls, enough ≤ polls →
      { exampleInbound with path := "/a b" }.handleConnectionInner source polls
        (trickle ({ exampleOutbound 0 0 with path := "/a b" }.opening
          (encodeBase64 exampleKey.val) mask exampleRequest)) = some (.ok (.refused next)) := by
  have hkey := encodeBase64_plain exampleKey.val
  have hearly (filler : Nat) := exampleOutbound_early filler 300
  have hlate (filler : Nat) := exampleOutbound_early filler 0
  refine ⟨fun source mask polls => ?_, fun source mask => ?_, fun source mask => ?_⟩
  · have hlong : MAX_HTTP_HEADER_SIZE + 1 < (encode ((exampleOutbound 16231 300).http
        (encodeBase64 exampleKey.val) exampleRequest)).length := by
      have hend : 0 < (encode "\r\n").length := by decide +kernel
      rw [exampleHttp_length, if_pos ((hearly _).mpr (by omega)), VlessOutbound.headerLine,
        Utf8.encode_append, List.length_append, MAX_HTTP_HEADER_SIZE]
      omega
    exact exampleInbound.tooLarge (exampleOutbound_plain 16231 300) hkey hlong source _ polls
  · have hsize : (encode ((exampleOutbound 16231 0).http (encodeBase64 exampleKey.val)
        exampleRequest)).length ≤ MAX_HTTP_HEADER_SIZE + 1 := by
      have hempty : (encode "").length = 0 := by decide +kernel
      rw [exampleHttp_length, if_neg (mt (hlate _).mp (by omega)), hempty, MAX_HTTP_HEADER_SIZE]
    have hcanonical : canonicalHost exampleDestination.host = exampleDestination.host := by
      decide +kernel
    obtain ⟨application, hroutes, _⟩ := VlessInbound.routes (exampleOutbound_alike 16231 0)
      (exampleOutbound_plain 16231 0) hkey (by decide +kernel) rfl (by decide) exampleRequest_eq
      hsize source mask (trickle_ready _) (List.append_nil _).symm
    rw [hcanonical] at hroutes
    exact ⟨application, hroutes⟩
  · have hplain := (exampleOutbound_plain 0 0).readable hkey exampleRequest
    have hreadable : Readable ({ exampleOutbound 0 0 with path := "/a b" } : VlessOutbound).requestLine
        (((exampleOutbound 0 0).sent (encodeBase64 exampleKey.val) exampleRequest).map
          VlessOutbound.fieldOf) :=
      ⟨⟨by decide +kernel, by decide +kernel⟩, hplain.names, hplain.fields⟩
    have hbytes := VlessOutbound.http_bytes { exampleOutbound 0 0 with path := "/a b" }
      (encodeBase64 exampleKey.val) exampleRequest
    have hsize : (encode ({ exampleOutbound 0 0 with path := "/a b" }.http
        (encodeBase64 exampleKey.val) exampleRequest)).length ≤ MAX_HTTP_HEADER_SIZE + 1 := by
      decide +kernel
    rw [hbytes] at hsize
    refine VlessInbound.refuses _ hreadable hsize (fun _ => ?_) (fun _ => ?_) source
      (trickle_ready _) (congrArg (· ++ _) hbytes)
    · show String.ofList _ = "GET"
      decide +kernel
    · show String.ofList _ ≠ "/a b"
      decide +kernel

-- The frame after the request of a client, with the request in either place.
theorem request_round_trip_example :
    encodeVlessRequest exampleUuid exampleDestination = .ok exampleRequest ∧
      ∀ maxEarlyData source mask, ∃ application, exampleInbound.Routes source
        (trickle ((exampleOutbound 0 maxEarlyData).opening (encodeBase64 exampleKey.val) mask
          exampleRequest ++ [0x82, 0x82, 0, 0, 0, 0, 1, 2]))
        (Session.ofInbound .tcp source exampleDestination "in" (some "user")) application ∧
      application.HandsOut (carried [0x82, 0x82, 0, 0, 0, 0, 1, 2]) := by
  obtain ⟨request, hrequest, _, hboth⟩ := @request_round_trip exampleInbound.users exampleUuid
    "user" exampleDestination rfl (by decide) (.inr (by decide +kernel))
  obtain rfl : exampleRequest = request := Except.ok.inj (exampleRequest_eq.symm.trans hrequest)
  refine ⟨exampleRequest_eq, fun maxEarlyData source mask => ?_⟩
  have hsize : (encode ((exampleOutbound 0 maxEarlyData).http (encodeBase64 exampleKey.val)
      exampleRequest)).length ≤ MAX_HTTP_HEADER_SIZE + 1 := by
    have hline : (encode (VlessOutbound.headerLine
        ("Early-Data", encodeBase64Url exampleRequest))).length = 60 := by decide +kernel
    have hempty : (encode "").length = 0 := by decide +kernel
    rw [exampleHttp_length, MAX_HTTP_HEADER_SIZE]
    split <;> omega
  obtain ⟨_, hserver⟩ := hboth (exampleOutbound 0 maxEarlyData) exampleInbound exampleKey rfl rfl
    (exampleOutbound_alike 0 maxEarlyData) (exampleOutbound_plain 0 maxEarlyData) hsize
  obtain ⟨application, hroutes, hhands, _⟩ := hserver source mask (trickle _) _ (trickle_ready _) rfl
  have hcanonical : canonicalHost exampleDestination.host = exampleDestination.host := by
    decide +kernel
  rw [hcanonical] at hroutes
  exact ⟨application, hroutes, hhands⟩

end SingBox.Vless
