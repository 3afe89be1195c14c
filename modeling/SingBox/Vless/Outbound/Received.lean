import SingBox.Vless.Outbound.Head

namespace SingBox.Vless

open Library
open Core (toAsciiLowercase)
open Text (isWhitespace)
open Utf8 (encode)

namespace VlessOutbound

variable {this : VlessOutbound} {key : String} {request : Bytes}

-- What the server reads of the head, with `tail` read after it.
def received (this : VlessOutbound) (key : String) (request tail : Bytes) : HttpRequest :=
  requestOf this.requestLine ((this.sent key request).map fieldOf) tail

theorem rootedPath_plain (h : this.Plain) :
    ∀ char ∈ (rootedPath this.path).toList, isWhitespace char = false ∧ char ≠ '?' := by
  unfold rootedPath
  split
  · exact h.path
  · rw [String.toList_append]
    exact List.forall_mem_cons.mpr ⟨⟨rfl, by decide⟩, h.path⟩

theorem rootedPath_ne (path : String) : (rootedPath path).toList ≠ [] := by
  unfold rootedPath
  split
  · next hroot =>
      intro hempty
      rw [hempty] at hroot
      cases hroot
  · simp

-- The request line comes apart into its three words.
theorem splitWhitespace_requestLine (h : this.Plain) :
    Text.splitWhitespace this.requestLine =
      ["GET".toList, (rootedPath this.path).toList, "HTTP/1.1".toList] := by
  have hline : this.requestLine =
      "GET".toList ++ ' ' :: ((rootedPath this.path).toList ++ ' ' :: "HTTP/1.1".toList) := by
    unfold requestLine
    simp
  rw [hline, Text.splitWhitespace_cons (by decide) (List.all_iff_forall_prop.mp (by decide)),
    Text.splitWhitespace_cons (rootedPath_ne this.path) fun char hchar =>
      (rootedPath_plain h char hchar).1]
  rfl

theorem received_line (h : this.Plain) (tail : Bytes) :
    (this.received key request tail).method = "GET" ∧
      (this.received key request tail).path = rootedPath this.path := by
  rw [received, requestOf, splitWhitespace_requestLine h]
  refine ⟨rfl, ?_⟩
  have hquery : (rootedPath this.path).toList.splitOn '?' = [(rootedPath this.path).toList] := by
    rw [List.splitOn_eq_splitOnP]
    exact List.splitOnP_eq_singleton fun char hchar => by simp [(rootedPath_plain h char hchar).2]
  show String.ofList (((rootedPath this.path).toList.splitOn '?').headD []) = _
  rw [hquery]
  exact String.ofList_toList

-- The headers after the fixed ones leave those alone.
theorem Plain.notReserved (h : this.Plain) {other : String × String}
    (hother : other ∈ this.later request) : toAsciiLowercase other.1 ∉ RESERVED := by
  rcases List.mem_append.mp hother with hconfigured | hearly
  · exact of_decide_eq_true (List.mem_filter.mp hconfigured).2
  · split at hearly
    · obtain rfl := List.mem_singleton.mp hearly
      exact h.earlyReserved
    · cases hearly

theorem Plain.header_fixed (h : this.Plain) (front back : List (String × String))
    {name value : String} (hfixed : this.fixed key = front ++ (name, value) :: back)
    (hname : toAsciiLowercase name ∈ RESERVED)
    (hback : ∀ other ∈ back, toAsciiLowercase other.1 ≠ toAsciiLowercase name) (tail : Bytes) :
    (this.received key request tail).header name =
      some (String.ofList (Text.trim value.toList)) := by
  have hsent : this.sent key request = front ++ (name, value) :: (back ++ this.later request) := by
    rw [sent, hfixed]
    simp only [List.append_assoc, List.cons_append]
  refine h.header_last hsent (fun other hother => ?_) tail
  rcases List.mem_append.mp hother with hfixed | hlater
  · exact hback other hfixed
  · intro heq
    exact h.notReserved hlater (heq ▸ hname)

theorem header_congr {received : HttpRequest} {name other : String}
    (h : toAsciiLowercase name = toAsciiLowercase other) :
    received.header name = received.header other := by rw [HttpRequest.header, HttpRequest.header, h]

-- The fixed headers are what `ensure_websocket_request` asks for.
theorem Plain.ensured (h : this.Plain) (hkey : ∀ char ∈ key.toList, isWhitespace char = false)
    (hne : key ≠ "") (tail : Bytes) :
    (this.received key request tail).header "sec-websocket-key" = some key ∧
      ensureWebsocketRequest (this.received key request tail) = .ok () := by
  have hupgrade : (this.received key request tail).header "upgrade" = some "websocket" := by
    rw [header_congr (show toAsciiLowercase "upgrade" = toAsciiLowercase "Upgrade" by decide),
      h.header_fixed [("Host", this.host)] [("Connection", "Upgrade"),
        ("Sec-WebSocket-Version", "13"), ("Sec-WebSocket-Key", key)] rfl (by decide) (by simp; decide)]
    rfl
  have hconnection : (this.received key request tail).header "connection" = some "Upgrade" := by
    rw [header_congr (show toAsciiLowercase "connection" = toAsciiLowercase "Connection" by decide),
      h.header_fixed [("Host", this.host), ("Upgrade", "websocket")]
        [("Sec-WebSocket-Version", "13"), ("Sec-WebSocket-Key", key)] rfl (by decide)
        (by simp; decide)]
    rfl
  have hreceived : (this.received key request tail).header "sec-websocket-key" = some key := by
    rw [header_congr (show toAsciiLowercase "sec-websocket-key" =
        toAsciiLowercase "Sec-WebSocket-Key" by decide),
      h.header_fixed [("Host", this.host), ("Upgrade", "websocket"), ("Connection", "Upgrade"),
        ("Sec-WebSocket-Version", "13")] [] rfl (by decide) (by simp), Text.trim_eq_self hkey,
      String.ofList_toList]
  refine ⟨hreceived, ?_⟩
  rw [ensureWebsocketRequest, hupgrade, hconnection, hreceived]
  have hkeyNe : ((some key).getD "" != "") = true := by simpa using hne
  rw [hkeyNe]
  rfl

-- The early data is the request if it has been sent so, and nothing if not.
theorem Plain.early (h : this.Plain) (tail : Bytes) {inbound : VlessInbound}
    (hname : inbound.earlyDataHeaderName = this.earlyDataHeaderName) :
    inbound.earlyData (this.received key request tail) =
      .ok (if this.earlyData request then request else []) := by
  by_cases hearly : this.earlyData request = true
  · have hne : this.earlyDataHeaderName ≠ "" := by
      intro hempty
      simp [earlyData, hempty] at hearly
    have hsent : this.sent key request = (this.fixed key ++ this.configured) ++
        (this.earlyDataHeaderName, encodeBase64Url request) :: [] := by
      rw [sent, later, if_pos hearly, List.append_assoc]
    rw [VlessInbound.earlyData, hname, if_neg hne, received,
      h.header_last hsent (fun _ hnone => absurd hnone List.not_mem_nil) tail,
      Text.trim_eq_self (encodeBase64Url_plain request), String.ofList_toList]
    show Result.withContext _ (decodeBase64Url (encodeBase64Url request)) = _
    rw [decodeBase64Url_encode, if_pos hearly]
    rfl
  · rw [if_neg hearly, VlessInbound.earlyData, hname]
    split
    · rfl
    · have hnone : ∀ other ∈ this.sent key request,
          toAsciiLowercase other.1 ≠ toAsciiLowercase this.earlyDataHeaderName := by
        intro other hother heq
        rw [sent, later, if_neg hearly, List.append_nil, List.mem_append] at hother
        rcases hother with hfixed | hconfigured
        · refine h.earlyReserved (heq ▸ ?_)
          have hall : ∀ name ∈ (this.fixed key).map Prod.fst, toAsciiLowercase name ∈ RESERVED := by
            show ∀ name ∈ ["Host", "Upgrade", "Connection", "Sec-WebSocket-Version",
              "Sec-WebSocket-Key"], toAsciiLowercase name ∈ RESERVED
            decide
          exact hall other.1 (List.mem_map_of_mem hfixed)
        · exact h.earlyConfigured other hconfigured heq
      rw [received, h.header_none hnone tail]
      rfl

end VlessOutbound

end SingBox.Vless
