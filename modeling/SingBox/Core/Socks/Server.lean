import SingBox.Core.Ip.RoundTrip
import SingBox.Core.Socks.Codec
import SingBox.Library.Follows
import SingBox.Library.Relay

namespace SingBox.Core

open Library
open Async (Fails Yields)
open Utf8 (encode)

namespace Socks

-- The `Display` of an address.
def ipText : IpAddr → String
  | .v4 ip => String.ofList (IpAddr.ipv4Text ip)
  | .v6 ip => String.ofList (IpAddr.ipv6Text ip)

def unspecifiedAddress (source : SocketAddr) : SocketAddr :=
  match source.ip with
  | .v4 _ => ⟨.v4 0, 0⟩
  | .v6 _ => ⟨.v6 0, 0⟩

section

variable {σ : Type}

-- The host of `read_address`.
def readHost [AsyncRead σ] (addressType : UInt8) (polls : Nat) : Async σ String :=
  if addressType = 1 then do
    let bytes ← Async.readExact 4 polls
    return ipText (.v4 (BitVec.ofNat 32 (ofBe bytes)))
  else if addressType = 3 then do
    let length ← Async.readExact 1 polls
    let bytes ← Async.readExact (length.getD 0 0).toNat polls
    Async.ofResult (Srs.fromUtf8 "SOCKS domain is not UTF-8" bytes)
  else if addressType = 4 then do
    let bytes ← Async.readExact 16 polls
    return ipText (.v6 (BitVec.ofNat 128 (ofBe bytes)))
  else Async.ofResult (Result.bail s!"unsupported SOCKS address type {addressType}")

def readAddress [AsyncRead σ] (addressType : UInt8) (polls : Nat) : Async σ Address := do
  let host ← readHost addressType polls
  let port ← Async.readExact 2 polls
  Async.ofResult (Address.new host (UInt16.ofNat (ofBe port)))

def writeReply [AsyncWrite σ] (status : UInt8) (bound : SocketAddr) (polls : Nat) : Async σ Unit := do
  let address ← Async.ofResult (Address.new (ipText bound.ip) bound.port)
  let (encoded, reply) := (encodeAddress address).run [5, status, 0]
  Async.ofResult encoded
  Async.writeAll reply polls

-- `let _ =`
def ignored (run : Async σ Unit) : Async σ Unit := fun state =>
  (run state).map fun (_, next) => (.ok (), next)

end

end Socks

-- What a `SocksInbound` has its connections handled with: the router's `connect`, `relay` and
-- `route_packet`, the last until the client closes its connection, and the address of the
-- socket that is bound beside the connection.
structure SocksServices (σ κ : Type) where
  connect : Session → Result κ × Session
  relay : Session → κ → Nat → Async σ Unit
  bindUdp : Result SocketAddr
  routePacket : Session → SocketAddr → Nat → Async σ Unit

namespace SocksServices

open Socks

variable {σ κ : Type} [AsyncRead σ] [AsyncWrite σ] (this : SocksServices σ κ) (source : SocketAddr)
  (tag : String)

def handleConnect (destination : Address) (polls : Nat) : Async σ Unit :=
  match this.connect (Session.ofInbound .tcp source destination tag none) with
  | (.ok outbound, session) => do
      writeReply 0 (unspecifiedAddress source) polls
      this.relay session outbound polls
  | (.error chain, _) => do
      ignored (Async.writeAll [5, 1, 0, 1, 0, 0, 0, 0, 0, 0] polls)
      Async.ofResult (.error chain)

def handleUdpAssociate (destination : Address) (polls : Nat) : Async σ Unit := do
  let bound ← Async.ofResult this.bindUdp
  writeReply 0 bound polls
  this.routePacket (Session.ofInbound .udp source destination tag none) bound polls

-- What is done for a request that has been read.
def handleCommand (command : UInt8) (destination : Address) (polls : Nat) : Async σ Unit :=
  if command = 1 then this.handleConnect source tag destination polls
  else if command = 3 then this.handleUdpAssociate source tag destination polls
  else do
    ignored (writeReply 7 (unspecifiedAddress source) polls)
    Async.ofResult (Result.bail s!"unsupported SOCKS5 command {command}")

def handleConnection (polls : Nat) : Async σ Unit := do
  let greeting ← Async.readExact 2 polls
  Async.ensure (greeting.getD 0 0 == 5) "unsupported SOCKS version"
  let methods ← Async.readExact (greeting.getD 1 0).toNat polls
  Async.ensure (methods.contains 0) "SOCKS client did not offer no-auth method"
  Async.writeAll [5, 0] polls
  let request ← Async.readExact 4 polls
  Async.ensure (request.getD 0 0 == 5 && request.getD 2 0 == 0) "invalid SOCKS5 request"
  let destination ← readAddress (request.getD 3 0) polls
  this.handleCommand source tag (request.getD 1 0) destination polls

end SocksServices

namespace Socks

-- What a client says before the first answer, and what it says after that.
def greetingDecoder : Decoder Unit := do
  let greeting ← Decoder.exact ["early eof"] 2
  Decoder.ensure (greeting.getD 0 0 == 5) "unsupported SOCKS version"
  let methods ← Decoder.exact ["early eof"] (greeting.getD 1 0).toNat
  Decoder.ensure (methods.contains 0) "SOCKS client did not offer no-auth method"

def hostDecoder (addressType : UInt8) : Decoder String :=
  if addressType = 1 then do
    let bytes ← Decoder.exact ["early eof"] 4
    return ipText (.v4 (BitVec.ofNat 32 (ofBe bytes)))
  else if addressType = 3 then do
    let length ← Decoder.exact ["early eof"] 1
    let bytes ← Decoder.exact ["early eof"] (length.getD 0 0).toNat
    Decoder.ofResult (Srs.fromUtf8 "SOCKS domain is not UTF-8" bytes)
  else if addressType = 4 then do
    let bytes ← Decoder.exact ["early eof"] 16
    return ipText (.v6 (BitVec.ofNat 128 (ofBe bytes)))
  else Decoder.ofResult (Result.bail s!"unsupported SOCKS address type {addressType}")

def addressDecoder (addressType : UInt8) : Decoder Address := do
  let host ← hostDecoder addressType
  let port ← Decoder.exact ["early eof"] 2
  Decoder.ofResult (Address.new host (UInt16.ofNat (ofBe port)))

def requestDecoder : Decoder (UInt8 × Address) := do
  let request ← Decoder.exact ["early eof"] 4
  Decoder.ensure (request.getD 0 0 == 5 && request.getD 2 0 == 0) "invalid SOCKS5 request"
  let destination ← addressDecoder (request.getD 3 0)
  return (request.getD 1 0, destination)

section

variable {σ : Type} [AsyncRead σ] {source : Source σ}

theorem follows_readHost (hends : source.Ends) (addressType : UInt8) (input : Bytes) :
    source.Follows (readHost addressType) (hostDecoder addressType) input := by
  unfold readHost hostDecoder
  by_cases hipv4 : addressType = 1
  · simp only [if_pos hipv4]
    exact (Source.Follows.exact hends 4 input).bind fun bytes left _ => .pure _ _
  by_cases hdomain : addressType = 3
  · simp only [if_neg hipv4, if_pos hdomain]
    refine (Source.Follows.exact hends 1 input).bind fun length left _ => ?_
    exact (Source.Follows.exact hends _ _).bind fun bytes left _ => .ofResult _ _
  by_cases hipv6 : addressType = 4
  · simp only [if_neg hipv4, if_neg hdomain, if_pos hipv6]
    exact (Source.Follows.exact hends 16 input).bind fun bytes left _ => .pure _ _
  · simp only [if_neg hipv4, if_neg hdomain, if_neg hipv6]
    exact .ofResult _ _

theorem follows_readAddress (hends : source.Ends) (addressType : UInt8) (input : Bytes) :
    source.Follows (readAddress addressType) (addressDecoder addressType) input := by
  refine (follows_readHost hends addressType input).bind fun host left _ => ?_
  exact (Source.Follows.exact hends 2 left).bind fun port left _ => .ofResult _ _

end

theorem toBe_bits {bytes : Bytes} {count width : Nat} (hlength : bytes.length = count)
    (hwidth : 256 ^ count = 2 ^ width) :
    toBe count (BitVec.ofNat width (ofBe bytes)).toNat = bytes := by
  have hlt := ofBe_lt bytes
  rw [hlength, hwidth] at hlt
  rw [BitVec.toNat_ofNat, Nat.mod_eq_of_lt hlt, ← hlength, toBe_ofBe]

-- The host in a request is the one in a datagram, where a port comes after it.
theorem decodeHost_of_hostDecoder {addressType : UInt8} {rest left : Bytes} {host : String}
    (h : hostDecoder addressType rest = .ok (host, left)) :
    ∃ front, addressType :: rest = front ++ left ∧
      (2 ≤ left.length → decodeHost (addressType :: rest) = .ok (host, front.length)) := by
  unfold hostDecoder at h
  by_cases hipv4 : addressType = 1
  · rw [if_pos hipv4] at h
    obtain ⟨bytes, mid, hbytes, hhost⟩ := Decoder.bind_eq_ok.mp h
    obtain ⟨hlength, rfl⟩ := Decoder.exact_eq_ok.mp hbytes
    obtain ⟨rfl, rfl⟩ := Prod.mk.inj (Except.ok.inj hhost)
    subst hipv4
    refine ⟨1 :: bytes, rfl, fun hport => ?_⟩
    have hhost := decodeHost_ipv4 (BitVec.ofNat 32 (ofBe bytes)) hport
    rw [toBe_bits hlength (by decide)] at hhost
    rw [List.length_cons, hlength]
    exact hhost
  by_cases hdomain : addressType = 3
  · rw [if_neg hipv4, if_pos hdomain] at h
    obtain ⟨length, mid, hfirst, hrest⟩ := Decoder.bind_eq_ok.mp h
    obtain ⟨hone, rfl⟩ := Decoder.exact_eq_ok.mp hfirst
    obtain ⟨bytes, last, hbytes, hhost⟩ := Decoder.bind_eq_ok.mp hrest
    obtain ⟨hlength, rfl⟩ := Decoder.exact_eq_ok.mp hbytes
    obtain ⟨htext, rfl⟩ := Decoder.ofResult_eq_ok.mp hhost
    obtain ⟨size, rfl⟩ := List.length_eq_one_iff.mp hone
    have hencoded := Utf8.encode_of_decode (Result.ofOption_eq_ok.mp htext)
    have hsize : UInt8.ofNat (encode host).length = size := by
      rw [← hencoded, hlength]
      exact UInt8.ofNat_toNat
    have hle : (encode host).length ≤ 255 := by
      rw [← hencoded, hlength]
      exact Nat.le_of_lt_succ size.toNat_lt
    subst hdomain
    refine ⟨3 :: size :: bytes, rfl, fun hport => ?_⟩
    have hfound := decodeHost_domain hle hport
    rw [hsize, ← hencoded] at hfound
    rw [List.length_cons, List.length_cons, Nat.add_assoc, Nat.add_comm bytes.length]
    exact hfound
  by_cases hipv6 : addressType = 4
  · rw [if_neg hipv4, if_neg hdomain, if_pos hipv6] at h
    obtain ⟨bytes, mid, hbytes, hhost⟩ := Decoder.bind_eq_ok.mp h
    obtain ⟨hlength, rfl⟩ := Decoder.exact_eq_ok.mp hbytes
    obtain ⟨rfl, rfl⟩ := Prod.mk.inj (Except.ok.inj hhost)
    subst hipv6
    refine ⟨4 :: bytes, rfl, fun hport => ?_⟩
    have hhost := decodeHost_ipv6 (BitVec.ofNat 128 (ofBe bytes)) hport
    rw [toBe_bits hlength (by decide)] at hhost
    rw [List.length_cons, hlength]
    exact hhost
  · rw [if_neg hipv4, if_neg hdomain, if_neg hipv6] at h
    cases (Decoder.ofResult_eq_ok.mp h).1

-- What is long enough for a datagram is long enough for a request.
theorem hostDecoder_of_decodeHost {addressType : UInt8} {rest : Bytes} {host : String} {count : Nat}
    (h : decodeHost (addressType :: rest) = .ok (host, count)) :
    ∃ found left, hostDecoder addressType rest = .ok (found, left) ∧ 2 ≤ left.length := by
  have hexact (count : Nat) (hcount : count ≤ rest.length) :
      Decoder.exact ["early eof"] count rest = .ok (rest.take count, rest.drop count) :=
    Decoder.exact_eq_ok.mpr ⟨List.length_take_of_le hcount, (List.take_append_drop count rest).symm⟩
  unfold decodeHost at h
  simp only [List.getD_cons_zero] at h
  unfold hostDecoder
  by_cases hipv4 : addressType = 1
  · rw [if_pos hipv4] at h
    obtain ⟨⟨⟩, hensure, -⟩ := Result.bind_eq_ok.mp h
    have hlength : 7 ≤ (addressType :: rest).length := of_decide_eq_true (Result.ensure_eq_ok.mp hensure)
    rw [List.length_cons] at hlength
    refine ⟨ipText (.v4 (BitVec.ofNat 32 (ofBe (rest.take 4)))), rest.drop 4, ?_, ?_⟩
    · rw [if_pos hipv4]
      exact Decoder.bind_eq_ok.mpr ⟨_, _, hexact 4 (by omega), rfl⟩
    · rw [List.length_drop]
      omega
  by_cases hipv6 : addressType = 4
  · rw [if_neg hipv4, if_pos hipv6] at h
    obtain ⟨⟨⟩, hensure, -⟩ := Result.bind_eq_ok.mp h
    have hlength : 19 ≤ (addressType :: rest).length := of_decide_eq_true (Result.ensure_eq_ok.mp hensure)
    have hdomain : ¬addressType = 3 := by
      rw [hipv6]
      decide
    rw [List.length_cons] at hlength
    refine ⟨ipText (.v6 (BitVec.ofNat 128 (ofBe (rest.take 16)))), rest.drop 16, ?_, ?_⟩
    · rw [if_neg hipv4, if_neg hdomain, if_pos hipv6]
      exact Decoder.bind_eq_ok.mpr ⟨_, _, hexact 16 (by omega), rfl⟩
    · rw [List.length_drop]
      omega
  by_cases hdomain : addressType = 3
  · rw [if_neg hipv4, if_neg hipv6, if_pos hdomain] at h
    obtain ⟨⟨⟩, hshort, h⟩ := Result.bind_eq_ok.mp h
    obtain ⟨⟨⟩, hensure, h⟩ := Result.bind_eq_ok.mp h
    obtain ⟨found, htext, -⟩ := Result.bind_eq_ok.mp h
    cases rest with
    | nil => cases hshort
    | cons size rest =>
        have hsize : (addressType :: size :: rest).getD 1 0 = size := rfl
        have hlength := of_decide_eq_true (Result.ensure_eq_ok.mp hensure)
        rw [hsize, List.length_cons, List.length_cons] at hlength
        rw [hsize] at htext
        refine ⟨found, rest.drop size.toNat, ?_, ?_⟩
        · rw [if_neg hipv4, if_pos hdomain]
          refine Decoder.bind_eq_ok.mpr ⟨[size], rest, Decoder.exact_eq_ok.mpr ⟨rfl, rfl⟩, ?_⟩
          refine Decoder.bind_eq_ok.mpr ⟨rest.take size.toNat, rest.drop size.toNat,
            Decoder.exact_eq_ok.mpr ⟨?_, (List.take_append_drop _ rest).symm⟩, ?_⟩
          · exact List.length_take_of_le (by omega)
          · exact Decoder.ofResult_eq_ok.mpr ⟨htext, rfl⟩
        · rw [List.length_drop]
          omega
  · rw [if_neg hipv4, if_neg hipv6, if_neg hdomain] at h
    cases h

theorem decodePort_append {front left : Bytes} {host : String} {address : Address} {consumed : Nat} :
    decodePort (front ++ left) host front.length = .ok (address, consumed) ↔
      2 ≤ left.length ∧ Address.new host (UInt16.ofNat (ofBe (left.take 2))) = .ok address ∧
        consumed = front.length + 2 := by
  have hdrop : (front ++ left).drop front.length = left := List.drop_left
  have hlength : front.length + 2 ≤ (front ++ left).length ↔ 2 ≤ left.length := by
    rw [List.length_append]
    omega
  rw [decodePort, hdrop, Result.ensure_bind_eq_ok, decide_eq_true_iff, hlength, Result.bind_eq_ok]
  constructor
  · rintro ⟨hport, found, hfound, hsame⟩
    obtain ⟨rfl, rfl⟩ := Prod.mk.inj (Except.ok.inj hsame)
    exact ⟨hport, hfound, rfl⟩
  · rintro ⟨hport, hfound, rfl⟩
    exact ⟨hport, address, hfound, rfl⟩

-- `read_address` and `decode_address` take the same addresses.
theorem addressDecoder_eq_ok {addressType : UInt8} {rest tail : Bytes} {address : Address} :
    addressDecoder addressType rest = .ok (address, tail) ↔
      ∃ consumed, decodeAddress (addressType :: rest) = .ok (address, consumed) ∧
        tail = (addressType :: rest).drop consumed := by
  rw [decodeAddress_eq (List.cons_ne_nil addressType rest), addressDecoder]
  constructor
  · intro h
    obtain ⟨host, left, hhost, hrest⟩ := Decoder.bind_eq_ok.mp h
    obtain ⟨port, last, hport, hlast⟩ := Decoder.bind_eq_ok.mp hrest
    obtain ⟨hlength, rfl⟩ := Decoder.exact_eq_ok.mp hport
    obtain ⟨hnew, rfl⟩ := Decoder.ofResult_eq_ok.mp hlast
    obtain ⟨front, hinput, hdecode⟩ := decodeHost_of_hostDecoder hhost
    have hlong : 2 ≤ (port ++ tail).length := by
      rw [List.length_append]
      omega
    refine ⟨front.length + 2, Result.bind_eq_ok.mpr ⟨_, hdecode hlong, ?_⟩, ?_⟩
    · rw [hinput]
      refine decodePort_append.mpr ⟨hlong, ?_, rfl⟩
      rw [List.take_left' hlength]
      exact hnew
    · rw [hinput, ← List.append_assoc]
      exact (List.drop_left' (by rw [List.length_append, hlength])).symm
  · rintro ⟨consumed, h, rfl⟩
    obtain ⟨⟨host, count⟩, hhost, hport⟩ := Result.bind_eq_ok.mp h
    obtain ⟨found, left, hfound, hlong⟩ := hostDecoder_of_decodeHost hhost
    obtain ⟨front, hinput, hdecode⟩ := decodeHost_of_hostDecoder hfound
    obtain ⟨rfl, rfl⟩ := Prod.mk.inj (Except.ok.inj ((hdecode hlong).symm.trans hhost))
    rw [hinput] at hport ⊢
    obtain ⟨-, hnew, rfl⟩ := decodePort_append.mp hport
    refine Decoder.bind_eq_ok.mpr ⟨found, left, hfound, ?_⟩
    refine Decoder.bind_eq_ok.mpr ⟨left.take 2, left.drop 2, Decoder.exact_eq_ok.mpr
      ⟨List.length_take_of_le hlong, (List.take_append_drop 2 left).symm⟩, ?_⟩
    refine Decoder.ofResult_eq_ok.mpr ⟨hnew, ?_⟩
    rw [← List.drop_drop, List.drop_left]

theorem greetingDecoder_eq_ok {input left : Bytes} :
    greetingDecoder input = .ok ((), left) ↔ ∃ methods : Bytes, methods.length ≤ 255 ∧ 0 ∈ methods ∧
      input = 5 :: UInt8.ofNat methods.length :: methods ++ left := by
  rw [greetingDecoder]
  constructor
  · intro h
    obtain ⟨greeting, mid, hgreeting, hrest⟩ := Decoder.bind_eq_ok.mp h
    obtain ⟨htwo, rfl⟩ := Decoder.exact_eq_ok.mp hgreeting
    obtain ⟨version, count, rfl⟩ := List.length_eq_two.mp htwo
    obtain ⟨⟨⟩, mid, hversion, hothers⟩ := Decoder.bind_eq_ok.mp hrest
    obtain ⟨hfive, rfl⟩ := Decoder.ensure_eq_ok.mp hversion
    obtain ⟨methods, last, hmethods, hoffered⟩ := Decoder.bind_eq_ok.mp hothers
    obtain ⟨hlength, rfl⟩ := Decoder.exact_eq_ok.mp hmethods
    obtain ⟨hzero, rfl⟩ := Decoder.ensure_eq_ok.mp hoffered
    obtain rfl : version = 5 := beq_iff_eq.mp hfive
    have hcount : methods.length = count.toNat := hlength
    refine ⟨methods, ?_, List.contains_iff_mem.mp hzero, ?_⟩
    · rw [hcount]
      exact Nat.le_of_lt_succ count.toNat_lt
    · rw [hcount, UInt8.ofNat_toNat]
      rfl
  · rintro ⟨methods, hlength, hzero, rfl⟩
    have hcount : (UInt8.ofNat methods.length).toNat = methods.length := by
      rw [UInt8.toNat_ofNat', Nat.mod_eq_of_lt (by omega)]
    refine Decoder.bind_eq_ok.mpr ⟨[5, UInt8.ofNat methods.length], methods ++ left,
      Decoder.exact_eq_ok.mpr ⟨rfl, rfl⟩, ?_⟩
    refine Decoder.bind_eq_ok.mpr ⟨(), methods ++ left, Decoder.ensure_eq_ok.mpr ⟨rfl, rfl⟩, ?_⟩
    refine Decoder.bind_eq_ok.mpr ⟨methods, left, Decoder.exact_eq_ok.mpr ⟨hcount.symm, rfl⟩, ?_⟩
    exact Decoder.ensure_eq_ok.mpr ⟨List.contains_iff_mem.mpr hzero, rfl⟩

theorem requestDecoder_eq_ok {input tail : Bytes} {command : UInt8} {destination : Address} :
    requestDecoder input = .ok ((command, destination), tail) ↔
      ∃ wire consumed, input = 5 :: command :: 0 :: wire ∧
        decodeAddress wire = .ok (destination, consumed) ∧ tail = wire.drop consumed := by
  rw [requestDecoder]
  constructor
  · intro h
    obtain ⟨request, mid, hrequest, hrest⟩ := Decoder.bind_eq_ok.mp h
    obtain ⟨hfour, rfl⟩ := Decoder.exact_eq_ok.mp hrequest
    obtain ⟨version, command, reserved, kind, rfl⟩ :
        ∃ version command reserved kind, request = [version, command, reserved, kind] := by
      match request, hfour with
      | [version, command, reserved, kind], _ => exact ⟨version, command, reserved, kind, rfl⟩
    obtain ⟨⟨⟩, mid, hvalid, hothers⟩ := Decoder.bind_eq_ok.mp hrest
    obtain ⟨hfive, rfl⟩ := Decoder.ensure_eq_ok.mp hvalid
    obtain ⟨found, last, haddress, hsame⟩ := Decoder.bind_eq_ok.mp hothers
    obtain ⟨hpair, rfl⟩ := Prod.mk.inj (Except.ok.inj hsame)
    obtain ⟨rfl, rfl⟩ := Prod.mk.inj hpair
    obtain ⟨hversion, hreserved⟩ := (Bool.and_eq_true ..).mp hfive
    obtain rfl : version = 5 := beq_iff_eq.mp hversion
    obtain rfl : reserved = 0 := beq_iff_eq.mp hreserved
    obtain ⟨consumed, hdecode, hleft⟩ := addressDecoder_eq_ok.mp haddress
    exact ⟨_, consumed, rfl, hdecode, hleft⟩
  · rintro ⟨wire, consumed, rfl, hdecode, htail⟩
    cases wire with
    | nil => cases hdecode
    | cons kind rest =>
        refine Decoder.bind_eq_ok.mpr ⟨[5, command, 0, kind], rest, Decoder.exact_eq_ok.mpr ⟨rfl, rfl⟩, ?_⟩
        refine Decoder.bind_eq_ok.mpr ⟨(), rest, Decoder.ensure_eq_ok.mpr ⟨rfl, rfl⟩, ?_⟩
        exact Decoder.bind_eq_ok.mpr
          ⟨destination, tail, addressDecoder_eq_ok.mpr ⟨consumed, hdecode, htail⟩, rfl⟩

-- What a client says that offers to go without authentication and then asks for something.
-- `tail` is what it has sent beyond its request.
def Request (input : Bytes) (command : UInt8) (destination : Address) (tail : Bytes) : Prop :=
  ∃ (methods wire : Bytes) (consumed : Nat), methods.length ≤ 255 ∧ 0 ∈ methods ∧
    input = 5 :: UInt8.ofNat methods.length :: methods ++ 5 :: command :: 0 :: wire ∧
    decodeAddress wire = .ok (destination, consumed) ∧ tail = wire.drop consumed

theorem request_iff {input tail : Bytes} {command : UInt8} {destination : Address} :
    Request input command destination tail ↔ ∃ left, greetingDecoder input = .ok ((), left) ∧
      requestDecoder left = .ok ((command, destination), tail) := by
  constructor
  · rintro ⟨methods, wire, consumed, hlength, hzero, hinput, hdecode, htail⟩
    exact ⟨_, greetingDecoder_eq_ok.mpr ⟨methods, hlength, hzero, hinput⟩,
      requestDecoder_eq_ok.mpr ⟨wire, consumed, rfl, hdecode, htail⟩⟩
  · rintro ⟨left, hgreeting, hrequest⟩
    obtain ⟨methods, hlength, hzero, rfl⟩ := greetingDecoder_eq_ok.mp hgreeting
    obtain ⟨wire, consumed, rfl, hdecode, htail⟩ := requestDecoder_eq_ok.mp hrequest
    exact ⟨methods, wire, consumed, hlength, hzero, rfl, hdecode, htail⟩

-- An IP address on the wire, behind its type.
def ipBytes : IpAddr → Bytes
  | .v4 ip => 1 :: toBe 4 ip.toNat
  | .v6 ip => 4 :: toBe 16 ip.toNat

def replyBytes (status : UInt8) (bound : SocketAddr) : Bytes :=
  [5, status, 0] ++ (ipBytes bound.ip ++ toBe 2 bound.port.toNat)

theorem fromStr_ipText (ip : IpAddr) : IpAddr.fromStr (ipText ip).toList = some ip := by
  cases ip with
  | v4 ip => rw [ipText, String.toList_ofList, IpAddr.fromStr_ipv4Text]
  | v6 ip => rw [ipText, String.toList_ofList, IpAddr.fromStr_ipv6Text]

theorem ipText_ne (ip : IpAddr) : ipText ip ≠ "" := by
  intro hempty
  have hread := fromStr_ipText ip
  rw [hempty] at hread
  cases hread

theorem adds_ipText (ip : IpAddr) : (encodeHost (ipText ip)).Adds () (ipBytes ip) := by
  rw [encodeHost, fromStr_ipText]
  cases ip with
  | v4 ip =>
      rw [ipBytes, ← List.singleton_append]
      exact (Appends.Adds.push 1).bind (.extend _)
  | v6 ip =>
      rw [ipBytes, ← List.singleton_append]
      exact (Appends.Adds.push 4).bind (.extend _)

theorem adds_bound (bound : SocketAddr) :
    (encodeAddress ⟨ipText bound.ip, bound.port⟩).Adds ()
      (ipBytes bound.ip ++ toBe 2 bound.port.toNat) := (adds_ipText bound.ip).bind (.extend _)

section

variable {σ : Type} {state next : σ}

theorem yields_ignored {run : Nat → Async σ Unit} (h : Yields run state () next) :
    Yields (fun polls => ignored (run polls)) state () next := by
  obtain ⟨enough, hrun⟩ := h
  refine ⟨enough, fun polls hpolls => ?_⟩
  show (run polls state).map _ = _
  rw [hrun polls hpolls]
  rfl

theorem fails_ofResult (state : σ) (chain : List String) :
    Fails (fun _ => (Async.ofResult (.error chain) : Async σ Unit)) state chain state :=
  ⟨0, fun _ _ => rfl⟩

end

section

open Relay (Good)

variable {ρ ω : Type} [AsyncRead ρ] [AsyncWrite ω] {source : Source ρ} {sink : Sink ω} {taken : Bytes}

theorem writes_reply {relay : Relay ρ ω} (h : Good source sink taken relay) (status : UInt8)
    (bound : SocketAddr) :
    ∃ next, Yields (writeReply status bound) relay () next ∧
      Good source sink (taken ++ replyBytes status bound) next ∧ next.reader = relay.reader := by
  obtain ⟨next, hwrite, hnext, hreader⟩ := h.writeAll (replyBytes status bound)
  refine ⟨next, ?_, hnext, hreader⟩
  have hnew := Address.new_ok bound.port (ipText_ne bound.ip)
  have hreply : (writeReply status bound : Nat → Async (Relay ρ ω) Unit) =
      fun polls => Async.writeAll (replyBytes status bound) polls := by
    funext polls
    rw [writeReply, hnew]
    show (do
      let (encoded, reply) := (encodeAddress ⟨ipText bound.ip, bound.port⟩).run [5, status, 0]
      Async.ofResult encoded
      Async.writeAll reply polls) = _
    rw [adds_bound bound [5, status, 0]]
    rfl
  rw [hreply]
  exact hwrite

theorem ends_readable (hends : source.Ends) (sink : Sink ω) (taken : Bytes) :
    (Relay.readable source sink taken).Ends := by
  intro relay room hgood hroom hrest
  obtain ⟨reader, hread, hreader, hempty⟩ := hends relay.reader room hgood.reader hroom hrest
  exact ⟨{ relay with reader }, Relay.onReader.yields hread, ⟨hreader, hgood.writer, hgood.taken⟩,
    hempty⟩

end

end Socks

namespace SocksServices

open Relay (Good)
open Socks

-- What is written for a request, and who goes on with the connection or the error it ends with.
def answer {σ κ : Type} (this : SocksServices σ κ) (client : SocketAddr) (tag : String)
    (command : UInt8) (destination : Address) : Bytes × Result (Nat → Async σ Unit) :=
  if command = 1 then
    match this.connect (Session.ofInbound .tcp client destination tag none) with
    | (.ok outbound, session) =>
        (replyBytes 0 (unspecifiedAddress client), .ok (this.relay session outbound))
    | (.error chain, _) => ([5, 1, 0, 1, 0, 0, 0, 0, 0, 0], .error chain)
  else if command = 3 then
    match this.bindUdp with
    | .ok bound =>
        let session := Session.ofInbound .udp client destination tag none
        (replyBytes 0 bound, .ok (this.routePacket session bound))
    | .error chain => ([], .error chain)
  else
    (replyBytes 7 (unspecifiedAddress client), Result.bail s!"unsupported SOCKS5 command {command}")

variable {ρ ω κ : Type} [AsyncRead ρ] [AsyncWrite ω]

-- The answer has been written, and what the client has sent beyond its request is left to whoever
-- goes on.
def Gives (source : Source ρ) (sink : Sink ω) (taken tail : Bytes)
    (run : Nat → Async (Relay ρ ω) Unit) (relay : Relay ρ ω) :
    Bytes × Result (Nat → Async (Relay ρ ω) Unit) → Prop
  | (written, .ok after) =>
      ∃ mid, Good source sink (taken ++ written) mid ∧ source.rest mid.reader = tail ∧
        Async.Leads run relay after mid
  | (written, .error chain) =>
      ∃ next, Good source sink (taken ++ written) next ∧ Fails run relay chain next

section

variable {this : SocksServices (Relay ρ ω) κ} {client : SocketAddr} {tag : String} {source : Source ρ}
  {sink : Sink ω} {taken tail : Bytes} {relay mid : Relay ρ ω} {destination : Address}

theorem Gives.of_leads {run after : Nat → Async (Relay ρ ω) Unit}
    (hleads : Async.Leads run relay after mid)
    {answer : Bytes × Result (Nat → Async (Relay ρ ω) Unit)}
    (h : Gives source sink taken tail after mid answer) :
    Gives source sink taken tail run relay answer := by
  obtain ⟨written, chain | later⟩ := answer
  · obtain ⟨next, hgood, hfails⟩ := h
    exact ⟨next, hgood, hleads.fails hfails⟩
  · obtain ⟨last, hgood, hrest, hlater⟩ := h
    exact ⟨last, hgood, hrest, hleads.trans hlater⟩

theorem gives_answer (hgood : Good source sink taken relay) (command : UInt8)
    (hrest : source.rest relay.reader = tail) :
    Gives source sink taken tail (this.handleCommand client tag command destination) relay
      (this.answer client tag command destination) := by
  unfold answer handleCommand
  by_cases hconnect : command = 1
  · simp only [if_pos hconnect]
    unfold handleConnect
    cases hrouted : this.connect (Session.ofInbound .tcp client destination tag none) with
    | mk connected session =>
        cases connected with
        | ok outbound =>
            obtain ⟨next, hwrite, hnext, hreader⟩ := writes_reply hgood 0 (unspecifiedAddress client)
            exact ⟨next, hnext, hreader ▸ hrest, hwrite.leads fun _ => this.relay session outbound⟩
        | error chain =>
            obtain ⟨next, hwrite, hnext, -⟩ := hgood.writeAll [5, 1, 0, 1, 0, 0, 0, 0, 0, 0]
            exact ⟨next, hnext, (yields_ignored hwrite).bind_fails (fails_ofResult next chain)⟩
  by_cases hassociate : command = 3
  · simp only [if_neg hconnect, if_pos hassociate]
    unfold handleUdpAssociate
    cases hbound : this.bindUdp with
    | ok bound =>
        obtain ⟨next, hwrite, hnext, hreader⟩ := writes_reply hgood 0 bound
        exact ⟨next, hnext, hreader ▸ hrest, hwrite.leads fun _ =>
          this.routePacket (Session.ofInbound .udp client destination tag none) bound⟩
    | error chain =>
        refine ⟨relay, ?_, ⟨0, fun _ _ => rfl⟩⟩
        rwa [List.append_nil]
  · simp only [if_neg hconnect, if_neg hassociate]
    obtain ⟨next, hwrite, hnext, -⟩ := writes_reply hgood 7 (unspecifiedAddress client)
    exact ⟨next, hnext, (yields_ignored hwrite).bind_fails (fails_ofResult next _)⟩

-- The greeting and the request, each as a function of its own.
def readGreeting (polls : Nat) : Async (Relay ρ ω) Unit := do
  let greeting ← Async.readExact 2 polls
  Async.ensure (greeting.getD 0 0 == 5) "unsupported SOCKS version"
  let methods ← Async.readExact (greeting.getD 1 0).toNat polls
  Async.ensure (methods.contains 0) "SOCKS client did not offer no-auth method"

def readRequest (polls : Nat) : Async (Relay ρ ω) (UInt8 × Address) := do
  let request ← Async.readExact 4 polls
  Async.ensure (request.getD 0 0 == 5 && request.getD 2 0 == 0) "invalid SOCKS5 request"
  let destination ← readAddress (request.getD 3 0) polls
  return (request.getD 1 0, destination)

theorem handleConnection_eq (polls : Nat) :
    this.handleConnection client tag polls = readGreeting polls >>= fun _ =>
      Async.writeAll [5, 0] polls >>= fun _ => readRequest polls >>= fun request =>
        this.handleCommand client tag request.1 request.2 polls := by
  simp only [handleConnection, readGreeting, readRequest, bind_assoc, pure_bind]

theorem follows_readGreeting (hends : source.Ends) (sink : Sink ω) (taken input : Bytes) :
    (Relay.readable source sink taken).Follows readGreeting greetingDecoder input := by
  have hall := ends_readable hends sink taken
  refine (Source.Follows.exact hall 2 input).bind fun greeting left _ => ?_
  refine (Source.Follows.ensure _ _ _).bind fun _ left _ => ?_
  exact (Source.Follows.exact hall _ _).bind fun methods left _ => .ensure _ _ _

theorem follows_readRequest (hends : source.Ends) (sink : Sink ω) (taken input : Bytes) :
    (Relay.readable source sink taken).Follows readRequest requestDecoder input := by
  have hall := ends_readable hends sink taken
  refine (Source.Follows.exact hall 4 input).bind fun request left _ => ?_
  refine (Source.Follows.ensure _ _ _).bind fun _ left _ => ?_
  exact (follows_readAddress hall _ _).bind fun destination left _ => .pure _ _

-- A client that opens a connection is answered by what it has said, however its bytes come, or it
-- has been told no more than that no authentication is asked for.
theorem handleConnection_answers (hends : source.Ends) (this : SocksServices (Relay ρ ω) κ)
    (client : SocketAddr) (tag : String) (hgood : Good source sink taken relay) :
    (∀ command destination tail, Request (source.rest relay.reader) command destination tail →
      Gives source sink (taken ++ [5, 0]) tail (this.handleConnection client tag) relay
        (this.answer client tag command destination)) ∧
    ((∀ command destination tail, ¬Request (source.rest relay.reader) command destination tail) →
      ∃ chain next, Fails (this.handleConnection client tag) relay chain next ∧
        (Good source sink taken next ∨ Good source sink (taken ++ [5, 0]) next)) := by
  have hrun : this.handleConnection client tag = fun polls => readGreeting polls >>= fun _ =>
      Async.writeAll [5, 0] polls >>= fun _ => readRequest polls >>= fun request =>
        this.handleCommand client tag request.1 request.2 polls :=
    funext fun polls => handleConnection_eq polls
  rw [hrun]
  have hgreeting := follows_readGreeting hends sink taken (source.rest relay.reader)
  cases hfound : greetingDecoder (source.rest relay.reader) with
  | error chain =>
      refine ⟨fun command destination tail hrequest => ?_, fun _ => ?_⟩
      · obtain ⟨left, hread, -⟩ := request_iff.mp hrequest
        cases hfound.symm.trans hread
      · obtain ⟨next, hfails, hnext⟩ := hgreeting.fails relay hgood rfl chain hfound
        exact ⟨chain, next, hfails.bind _, .inl hnext⟩
  | ok found =>
      obtain ⟨⟨⟩, left⟩ := found
      obtain ⟨greeted, hgreets, hgoodGreeted, hleft⟩ := hgreeting.yields relay hgood rfl () left hfound
      obtain ⟨written, hwrites, hgoodWritten, hreader⟩ := Good.writeAll hgoodGreeted [5, 0]
      have hrest : source.rest written.reader = left := hreader ▸ hleft
      have hrequests := follows_readRequest hends sink (taken ++ [5, 0]) left
      cases hasked : requestDecoder left with
      | error chain =>
          refine ⟨fun command destination tail hrequest => ?_, fun _ => ?_⟩
          · obtain ⟨other, hread, hother⟩ := request_iff.mp hrequest
            obtain ⟨-, rfl⟩ := Prod.mk.inj (Except.ok.inj (hfound.symm.trans hread))
            cases hasked.symm.trans hother
          · obtain ⟨next, hfails, hnext⟩ := hrequests.fails written hgoodWritten hrest chain hasked
            exact ⟨chain, next, hgreets.bind_fails (hwrites.bind_fails (hfails.bind _)), .inr hnext⟩
      | ok asked =>
          obtain ⟨⟨command, destination⟩, tail⟩ := asked
          refine ⟨fun other place beyond hrequest => ?_, fun hnone => ?_⟩
          · obtain ⟨later, hread, hother⟩ := request_iff.mp hrequest
            obtain ⟨-, rfl⟩ := Prod.mk.inj (Except.ok.inj (hfound.symm.trans hread))
            obtain ⟨hsame, rfl⟩ := Prod.mk.inj (Except.ok.inj (hasked.symm.trans hother))
            obtain ⟨rfl, rfl⟩ := Prod.mk.inj hsame
            obtain ⟨mid, hreads, hmid, htail⟩ :=
              hrequests.yields written hgoodWritten hrest (command, destination) tail hasked
            have hleads := (hgreets.leads fun _ polls => Async.writeAll [5, 0] polls >>= fun _ =>
              readRequest polls >>= fun request =>
                this.handleCommand client tag request.1 request.2 polls).trans
              ((hwrites.leads fun _ polls => readRequest polls >>= fun request =>
                this.handleCommand client tag request.1 request.2 polls).trans
                (hreads.leads fun request =>
                  this.handleCommand client tag request.1 request.2))
            exact (gives_answer hmid command htail).of_leads hleads
          · exact absurd (request_iff.mpr ⟨left, hfound, hasked⟩) (hnone command destination tail)

end

-- Everything is connected to, and nothing is done with it.
def idle : SocksServices (Relay Pieces Collected) Address where
  connect session := (.ok session.destination, session)
  relay _ _ _ := pure ()
  bindUdp := .ok ⟨.v4 0, 0⟩
  routePacket _ _ _ := pure ()

def OPENING : Relay Pieces Collected :=
  ⟨⟨[[5, 1], [0, 5, 1, 0, 3, 1], [97], [0, 80, 7]]⟩, ⟨[]⟩⟩

theorem handleConnection_answers_opening :
    Gives Pieces.source Collected.sink [5, 0] [7] (idle.handleConnection ⟨.v4 1, 5⟩ "in") OPENING
      (idle.answer ⟨.v4 1, 5⟩ "in" 1 ⟨"a", 80⟩) := by
  have hgood : Good Pieces.source Collected.sink [] OPENING := by
    refine ⟨?_, trivial, rfl⟩
    show ∀ piece ∈ OPENING.reader.pieces, piece ≠ []
    decide
  refine (handleConnection_answers Pieces.ends idle ⟨.v4 1, 5⟩ "in" hgood).1 1 ⟨"a", 80⟩ [7] ?_
  exact ⟨[0], [3, 1, 97, 0, 80, 7], 5, by decide, by decide, rfl, by decide, rfl⟩

end SocksServices

end SingBox.Core
