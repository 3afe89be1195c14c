import SingBox.Core.Ip.Printed
import SingBox.Core.Socks.Datagrams
import SingBox.Library.Checked

namespace SingBox.Core

open Library
open Checked (byte slice)
open Utf8 (encode)

namespace Socks

-- The two halves of `decode_address`, with each of its indices.
def decodeHostChecked (input : Bytes) : Checked (String × Nat) := do
  let kind ← byte input 0
  if kind = 1 then do
    Checked.ensure (7 ≤ input.length) "truncated SOCKS IPv4 address"
    let octets := [← byte input 1, ← byte input 2, ← byte input 3, ← byte input 4]
    return (String.ofList (IpAddr.ipv4Text (BitVec.ofNat 32 (ofBe octets))), 5)
  else if kind = 4 then do
    Checked.ensure (19 ≤ input.length) "truncated SOCKS IPv6 address"
    let octets ← slice input 1 17
    return (String.ofList (IpAddr.ipv6Text (BitVec.ofNat 128 (ofBe octets))), 17)
  else if kind = 3 then do
    Checked.ensure (2 ≤ input.length) "truncated SOCKS domain length"
    let length ← byte input 1
    Checked.ensure (2 + length.toNat + 2 ≤ input.length) "truncated SOCKS domain"
    let domain ← slice input 2 (2 + length.toNat)
    let host ← Checked.ofResult (Srs.fromUtf8 "SOCKS domain is not UTF-8" domain)
    return (host, 2 + length.toNat)
  else Checked.ofResult (Result.bail s!"unsupported SOCKS address type {kind}")

def decodePortChecked (input : Bytes) (host : String) (addressLen : Nat) :
    Checked (Address × Nat) := do
  Checked.ensure (addressLen + 2 ≤ input.length) "missing SOCKS port"
  let port := [← byte input addressLen, ← byte input (addressLen + 1)]
  let address ← Checked.ofResult (Address.new host (UInt16.ofNat (ofBe port)))
  return (address, addressLen + 2)

def decodeAddressChecked (input : Bytes) : Checked (Address × Nat) := do
  Checked.ensure (!input.isEmpty) "missing SOCKS UDP address"
  let (host, addressLen) ← decodeHostChecked input
  decodePortChecked input host addressLen

-- The same halves of `decodeAddress`.
def decodeHost (input : Bytes) : Result (String × Nat) :=
  let kind := input.getD 0 0
  if kind = 1 then do
    Result.ensure (7 ≤ input.length) "truncated SOCKS IPv4 address"
    let address := BitVec.ofNat 32 (ofBe ((input.drop 1).take 4))
    return (String.ofList (IpAddr.ipv4Text address), 5)
  else if kind = 4 then do
    Result.ensure (19 ≤ input.length) "truncated SOCKS IPv6 address"
    let address := BitVec.ofNat 128 (ofBe ((input.drop 1).take 16))
    return (String.ofList (IpAddr.ipv6Text address), 17)
  else if kind = 3 then do
    Result.ensure (2 ≤ input.length) "truncated SOCKS domain length"
    let length := (input.getD 1 0).toNat
    Result.ensure (2 + length + 2 ≤ input.length) "truncated SOCKS domain"
    let host ← Srs.fromUtf8 "SOCKS domain is not UTF-8" ((input.drop 2).take length)
    return (host, 2 + length)
  else Result.bail s!"unsupported SOCKS address type {kind}"

def decodePort (input : Bytes) (host : String) (addressLen : Nat) : Result (Address × Nat) := do
  Result.ensure (addressLen + 2 ≤ input.length) "missing SOCKS port"
  let address ← Address.new host (UInt16.ofNat (ofBe ((input.drop addressLen).take 2)))
  return (address, addressLen + 2)

theorem decodeAddress_eq {input : Bytes} (h : input ≠ []) :
    decodeAddress input =
      decodeHost input >>= fun found => decodePort input found.1 found.2 := by
  obtain ⟨kind, rest, rfl⟩ := List.exists_cons_of_ne_nil h
  have hempty : Result.ensure (!(kind :: rest).isEmpty) "missing SOCKS UDP address" = .ok () := rfl
  rw [decodeAddress, decodeHost, hempty]
  simp only [List.getD_cons_zero, decodePort]
  by_cases hipv4 : kind = 1
  · simp only [if_pos hipv4, bind_assoc, pure_bind]
    rfl
  by_cases hipv6 : kind = 4
  · simp only [if_neg hipv4, if_pos hipv6, bind_assoc, pure_bind]
    rfl
  by_cases hdomain : kind = 3
  · simp only [if_neg hipv4, if_neg hipv6, if_pos hdomain, bind_assoc, pure_bind]
    rfl
  · simp only [if_neg hipv4, if_neg hipv6, if_neg hdomain]
    rfl

theorem slice_take {bytes : Bytes} (start count : Nat) (h : start + count ≤ bytes.length) :
    slice bytes start (start + count) = pure ((bytes.drop start).take count) := by
  rw [slice, if_pos ⟨Nat.le_add_right _ _, h⟩, List.drop_take, Nat.add_sub_cancel_left]

theorem decodeHostChecked_eq {input : Bytes} (h : input ≠ []) :
    decodeHostChecked input = Checked.ofResult (decodeHost input) := by
  obtain ⟨kind, rest, rfl⟩ := List.exists_cons_of_ne_nil h
  have hkind : byte (kind :: rest) 0 = pure kind := rfl
  rw [decodeHostChecked, decodeHost, hkind, pure_bind]
  simp only [List.getD_cons_zero]
  split
  · refine Checked.bind_ofResult rfl fun _ hensure => ?_
    have hlength := of_decide_eq_true (Result.ensure_eq_ok.mp hensure)
    match rest, hlength with
    | _ :: _ :: _ :: _ :: _, _ => rfl
  split
  · refine Checked.bind_ofResult rfl fun _ hensure => ?_
    have hlength := of_decide_eq_true (Result.ensure_eq_ok.mp hensure)
    have hslice : slice (kind :: rest) 1 17 = pure (((kind :: rest).drop 1).take 16) :=
      slice_take 1 16 (by omega)
    rw [hslice]
    rfl
  split
  · refine Checked.bind_ofResult rfl fun _ hensure => ?_
    have hshort := of_decide_eq_true (Result.ensure_eq_ok.mp hensure)
    match rest, hshort with
    | length :: rest, _ =>
        have hbyte : byte (kind :: length :: rest) 1 = pure length := rfl
        rw [hbyte, pure_bind]
        refine Checked.bind_ofResult rfl fun _ hensure => ?_
        have hlength : 2 + length.toNat + 2 ≤ (kind :: length :: rest).length :=
          of_decide_eq_true (Result.ensure_eq_ok.mp hensure)
        rw [slice_take 2 length.toNat (by omega), pure_bind]
        exact Checked.bind_ofResult rfl fun _ _ => rfl
  · rfl

theorem decodePortChecked_eq (input : Bytes) (host : String) (addressLen : Nat) :
    decodePortChecked input host addressLen =
      Checked.ofResult (decodePort input host addressLen) := by
  refine Checked.bind_ofResult rfl fun _ hensure => ?_
  have hlength := of_decide_eq_true (Result.ensure_eq_ok.mp hensure)
  have hport : (input.drop addressLen).take 2 = [input[addressLen], input[addressLen + 1]] := by
    rw [List.drop_eq_getElem_cons (by omega), List.drop_eq_getElem_cons (by omega)]
    rfl
  rw [Checked.byte_of_lt (by omega), Checked.byte_of_lt (by omega), pure_bind, pure_bind, hport]
  exact Checked.bind_ofResult rfl fun _ _ => rfl

-- Every index is one that the input has.
theorem decodeAddressChecked_eq (input : Bytes) :
    decodeAddressChecked input = Checked.ofResult (decodeAddress input) := by
  cases input with
  | nil => rfl
  | cons kind rest =>
      rw [decodeAddress_eq (List.cons_ne_nil kind rest), decodeAddressChecked]
      refine Checked.bind_ofResult (decodeHostChecked_eq (List.cons_ne_nil kind rest)) fun found _ => ?_
      exact decodePortChecked_eq _ _ _

theorem decodeAddress_consumed {input : Bytes} {address : Address} {consumed : Nat}
    (h : decodeAddress input = .ok (address, consumed)) : consumed ≤ input.length := by
  cases input with
  | nil => cases h
  | cons kind rest =>
      rw [decodeAddress_eq (List.cons_ne_nil kind rest)] at h
      obtain ⟨found, -, hport⟩ := Result.bind_eq_ok.mp h
      obtain ⟨⟨⟩, hensure, hrest⟩ := Result.bind_eq_ok.mp hport
      obtain ⟨_, -, hsame⟩ := Result.bind_eq_ok.mp hrest
      obtain ⟨-, rfl⟩ := Prod.mk.inj (Except.ok.inj hsame)
      exact of_decide_eq_true (Result.ensure_eq_ok.mp hensure)

theorem take_toBe (count n : Nat) (tail : Bytes) : (toBe count n ++ tail).take count = toBe count n :=
  List.take_left' (toBe_length count n)

theorem decodeHost_ipv4 (ip : BitVec 32) {tail : Bytes} (h : 2 ≤ tail.length) :
    decodeHost (1 :: toBe 4 ip.toNat ++ tail) = .ok (String.ofList (IpAddr.ipv4Text ip), 5) := by
  have hensure : Result.ensure (7 ≤ (1 :: toBe 4 ip.toNat ++ tail).length)
      "truncated SOCKS IPv4 address" = .ok () := by
    refine Result.ensure_eq_ok.mpr (decide_eq_true ?_)
    rw [List.length_append, List.length_cons, toBe_length]
    omega
  have hip : BitVec.ofNat 32 (ofBe (((1 :: toBe 4 ip.toNat ++ tail).drop 1).take 4)) = ip := by
    rw [List.cons_append, List.drop_succ_cons, List.drop_zero, take_toBe, ofNat_ofBe 4 ip rfl]
  rw [decodeHost, hensure, hip]
  rfl

theorem decodeHost_ipv6 (ip : BitVec 128) {tail : Bytes} (h : 2 ≤ tail.length) :
    decodeHost (4 :: toBe 16 ip.toNat ++ tail) = .ok (String.ofList (IpAddr.ipv6Text ip), 17) := by
  have hensure : Result.ensure (19 ≤ (4 :: toBe 16 ip.toNat ++ tail).length)
      "truncated SOCKS IPv6 address" = .ok () := by
    refine Result.ensure_eq_ok.mpr (decide_eq_true ?_)
    rw [List.length_append, List.length_cons, toBe_length]
    omega
  have hip : BitVec.ofNat 128 (ofBe (((4 :: toBe 16 ip.toNat ++ tail).drop 1).take 16)) = ip := by
    rw [List.cons_append, List.drop_succ_cons, List.drop_zero, take_toBe, ofNat_ofBe 16 ip rfl]
  rw [decodeHost, hensure, hip]
  rfl

theorem decodeHost_domain {host : String} {tail : Bytes} (hhost : (encode host).length ≤ 255)
    (h : 2 ≤ tail.length) :
    decodeHost (3 :: UInt8.ofNat (encode host).length :: encode host ++ tail) =
      .ok (host, 2 + (encode host).length) := by
  have hlength : (UInt8.ofNat (encode host).length).toNat = (encode host).length := by
    rw [UInt8.toNat_ofNat', Nat.mod_eq_of_lt (by omega)]
  have hkind : (3 :: UInt8.ofNat (encode host).length :: encode host ++ tail).getD 0 0 = 3 := rfl
  have hshort : Result.ensure (2 ≤ (3 :: UInt8.ofNat (encode host).length ::
      encode host ++ tail).length) "truncated SOCKS domain length" = .ok () := rfl
  have hensure : Result.ensure (2 + (encode host).length + 2 ≤
      (3 :: UInt8.ofNat (encode host).length :: encode host ++ tail).length)
      "truncated SOCKS domain" = .ok () := by
    refine Result.ensure_eq_ok.mpr (decide_eq_true ?_)
    simp only [List.length_append, List.length_cons]
    omega
  have htake : ((3 :: UInt8.ofNat (encode host).length :: encode host ++ tail).drop 2).take
      (encode host).length = encode host := List.take_left
  have hdecode : Srs.fromUtf8 "SOCKS domain is not UTF-8" (encode host) = .ok host := by
    exact Result.ofOption_eq_ok.mpr (Utf8.decode_encode host)
  have hgetD : (3 :: UInt8.ofNat (encode host).length :: encode host ++ tail).getD 1 0 =
      UInt8.ofNat (encode host).length := rfl
  simp only [decodeHost, hkind, hgetD, hlength, hshort, hensure, htake, hdecode]
  rfl

-- What `encode_address` appends for a host is read back, unless it is too long.
theorem adds_encodeHost (host : String) :
    (¬((IpAddr.fromStr host.toList).isSome ∨ (encode host).length ≤ 255) ∧
        (encodeHost host).Refuses ["SOCKS host is too long"]) ∨
      ∃ encoded, encoded ≠ [] ∧ (encodeHost host).Adds () encoded ∧
        ∀ tail, 2 ≤ tail.length →
          decodeHost (encoded ++ tail) = .ok (canonicalHost host, encoded.length) := by
  cases haddress : IpAddr.fromStr host.toList with
  | none =>
      by_cases hlength : (encode host).length ≤ 255
      · refine .inr ⟨3 :: UInt8.ofNat (encode host).length :: encode host, List.cons_ne_nil _ _, ?_,
          fun tail htail => ?_⟩
        · rw [encodeHost, haddress, ← List.singleton_append, ← List.singleton_append (l := encode host)]
          refine Appends.Adds.bind_nil (.ofResult (Result.ensure_eq_ok.mpr (decide_eq_true hlength))) ?_
          exact (Appends.Adds.push 3).bind ((Appends.Adds.push _).bind (.extend _))
        · rw [canonicalHost, haddress]
          rw [List.length_cons, List.length_cons, Nat.add_assoc, Nat.add_comm]
          exact decodeHost_domain hlength htail
      · refine .inl ⟨by simpa using hlength, ?_⟩
        rw [encodeHost, haddress]
        refine Appends.Refuses.bind (.ofResult ?_)
        exact Result.ensure_eq_error.mpr ⟨decide_eq_false hlength, rfl⟩
  | some address =>
      refine .inr ?_
      cases address with
      | v4 ip =>
          refine ⟨1 :: toBe 4 ip.toNat, List.cons_ne_nil _ _, ?_, fun tail htail => ?_⟩
          · rw [encodeHost, haddress, ← List.singleton_append]
            exact (Appends.Adds.push 1).bind (.extend _)
          · rw [canonicalHost, haddress, List.length_cons, toBe_length]
            exact decodeHost_ipv4 ip htail
      | v6 ip =>
          refine ⟨4 :: toBe 16 ip.toNat, List.cons_ne_nil _ _, ?_, fun tail htail => ?_⟩
          · rw [encodeHost, haddress, ← List.singleton_append]
            exact (Appends.Adds.push 4).bind (.extend _)
          · rw [canonicalHost, haddress, List.length_cons, toBe_length]
            exact decodeHost_ipv6 ip htail

theorem decodePort_encoded {front : Bytes} {host : String} (port : UInt16) (payload : Bytes)
    (h : host ≠ "") :
    decodePort (front ++ (toBe 2 port.toNat ++ payload)) host front.length =
      .ok (⟨host, port⟩, front.length + 2) := by
  have hensure : Result.ensure (front.length + 2 ≤
      (front ++ (toBe 2 port.toNat ++ payload)).length) "missing SOCKS port" = .ok () := by
    refine Result.ensure_eq_ok.mpr (decide_eq_true ?_)
    rw [List.length_append, List.length_append, toBe_length]
    omega
  rw [decodePort, hensure, List.drop_left, take_toBe, port_ofBe, Address.new_ok port h]
  rfl

-- An address is read back from the front of what follows it, or nothing is appended for it.
theorem adds_encodeAddress (address : Address) :
    (¬((IpAddr.fromStr address.host.toList).isSome ∨ (encode address.host).length ≤ 255) ∧
        (encodeAddress address).Refuses ["SOCKS host is too long"]) ∨
      ∃ encoded, (encodeAddress address).Adds () encoded ∧ (address.host ≠ "" →
        ∀ payload, decodeAddress (encoded ++ payload) =
          .ok (address.canonical, encoded.length)) := by
  obtain ⟨hlong, hrefuses⟩ | ⟨encoded, hsome, hadds, hhost⟩ := adds_encodeHost address.host
  · exact .inl ⟨hlong, hrefuses.bind⟩
  · refine .inr ⟨encoded ++ toBe 2 address.port.toNat, hadds.bind (.extend _), fun hne payload => ?_⟩
    have hfound := hhost (toBe 2 address.port.toNat ++ payload)
      (by rw [List.length_append, toBe_length]; omega)
    rw [List.append_assoc, decodeAddress_eq (List.append_ne_nil_of_left_ne_nil hsome _), hfound,
      List.length_append, toBe_length]
    exact decodePort_encoded address.port payload (canonicalHost_ne hne)

theorem encodeAddress_ok {address : Address} (h : address.Encodable) :
    ∃ encoded, (encodeAddress address).Adds () encoded ∧ ∀ payload,
      decodeAddress (encoded ++ payload) = .ok (address.canonical, encoded.length) := by
  obtain ⟨hlong, -⟩ | ⟨encoded, hadds, hdecode⟩ := adds_encodeAddress address
  · exact absurd h.2 hlong
  · exact ⟨encoded, hadds, hdecode h.1⟩

theorem encodeAddress_error {address : Address} {output left : Bytes} {chain : List String}
    (h : (encodeAddress address).run output = (.error chain, left)) : left = output := by
  obtain ⟨-, hrefuses⟩ | ⟨encoded, hadds, -⟩ := adds_encodeAddress address
  · exact (Prod.mk.inj ((hrefuses output).symm.trans h)).2.symm
  · cases (Prod.mk.inj ((hadds output).symm.trans h)).1

end Socks

open Socks

theorem decodePacket_encoded {encoded : Bytes} {address : Address} (data : Bytes)
    (h : decodeAddress (encoded ++ data) = .ok (address, encoded.length)) :
    decodePacket ([0, 0, 0] ++ encoded ++ data) = .ok { data, destination := address } := by
  have hsome : 1 ≤ (encoded ++ data).length := by
    cases hinput : encoded ++ data with
    | nil => rw [hinput] at h; cases h
    | cons => exact Nat.le_add_left ..
  have hensure : Result.ensure (4 ≤ ([0, 0, 0] ++ encoded ++ data).length)
      "truncated SOCKS UDP datagram" = .ok () := by
    refine Result.ensure_eq_ok.mpr (decide_eq_true ?_)
    rw [List.append_assoc, List.length_append]
    exact Nat.add_le_add_left hsome 3
  have hdrop : ([0, 0, 0] ++ encoded ++ data).drop 3 = encoded ++ data := rfl
  have hdata : ([0, 0, 0] ++ encoded ++ data).drop (3 + encoded.length) = data :=
    List.drop_left' (by rw [List.length_append]; rfl)
  rw [decodePacket, hensure, hdrop, h]
  exact congrArg (fun rest => Except.ok (Packet.mk rest address)) hdata

-- A packet that is sent is the packet that is received.
theorem receive_sent {this : SocksPacketConnection} {packet : Packet} {peer : SocketAddr}
    (hpeer : this.peer = some peer) (h : packet.destination.Encodable) :
    ∃ bytes, this.send packet = .ok (bytes, peer) ∧
      ∀ (receiver : SocksPacketConnection) (datagram : Datagram), datagram.bytes = bytes →
        SocksRelay.FromClient receiver.controlSourceIp receiver.peer datagram.source →
        (receiver.receive datagram).1 =
          some (.ok ⟨packet.data, packet.destination.canonical⟩) := by
  obtain ⟨encoded, hadds, hdecode⟩ := encodeAddress_ok h
  refine ⟨[0, 0, 0] ++ encoded ++ packet.data, ?_, ?_⟩
  · rw [SocksPacketConnection.send, hpeer, hadds]
    rfl
  · rintro receiver datagram hbytes hclient
    rw [SocksRelay.receive_client hclient, hbytes, decodePacket_encoded _ (hdecode _)]

-- Addresses of datagrams, from what is sent and from what anybody sends.
theorem socks_addressing :
    (∀ (address : Address) (output payload : Bytes), address.Encodable →
      ∃ encoded, (encodeAddress address).run output = (.ok (), output ++ encoded) ∧
        decodeAddress (encoded ++ payload) = .ok (address.canonical, encoded.length)) ∧
    (∀ (this : SocksPacketConnection) (packet : Packet) (peer : SocketAddr),
      this.peer = some peer → packet.destination.Encodable →
        ∃ bytes, this.send packet = .ok (bytes, peer) ∧
          ∀ (receiver : SocksPacketConnection) (datagram : Datagram), datagram.bytes = bytes →
            SocksRelay.FromClient receiver.controlSourceIp receiver.peer datagram.source →
            (receiver.receive datagram).1 =
              some (.ok ⟨packet.data, packet.destination.canonical⟩)) ∧
    (∀ input, decodeAddressChecked input = Checked.ofResult (decodeAddress input) ∧
      ∀ address consumed, decodeAddress input = .ok (address, consumed) →
        consumed ≤ input.length) ∧
    (∀ (address : Address) (output left : Bytes) (chain : List String),
      (encodeAddress address).run output = (.error chain, left) → left = output) := by
  refine ⟨fun address output payload h => ?_, fun _ _ _ hpeer h => receive_sent hpeer h,
    fun input => ⟨decodeAddressChecked_eq input, fun _ _ h => decodeAddress_consumed h⟩,
    fun _ _ _ _ h => encodeAddress_error h⟩
  obtain ⟨encoded, hadds, hdecode⟩ := encodeAddress_ok h
  exact ⟨encoded, hadds output, hdecode payload⟩

end SingBox.Core
