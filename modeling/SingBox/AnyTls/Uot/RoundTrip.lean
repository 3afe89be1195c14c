import SingBox.AnyTls.Uot
import SingBox.Library.Exchange

namespace SingBox.AnyTls

open Library
open Async (Fails Yields)
open Core (Address IpAddr Packet UOT_MAGIC canonicalHost)
open Utf8 (encode)

-- Whether there is room for the host.
def hostFits (host : String) : Bool :=
  (IpAddr.fromStr host.toList).isSome || (encode host).length ≤ 255

-- What stands for a host in front of its port.
def hostBytes (types : AddressTypes) (host : String) : Bytes :=
  match IpAddr.fromStr host.toList with
  | some (.v4 ip) => types.ipv4 :: toBe 4 ip.toNat
  | some (.v6 ip) => types.ipv6 :: toBe 16 ip.toNat
  | none => types.domain :: UInt8.ofNat (encode host).length :: encode host

def addressBytes (types : AddressTypes) (address : Address) : Bytes :=
  hostBytes types address.host ++ toBe 2 address.port.toNat

section

variable {σ : Type} [AsyncRead σ] (source : Source σ)

theorem reads_u8 (byte : UInt8) : source.Reads readU8 byte [byte] :=
  (Source.Reads.exact [byte]).bind_last (.pure byte)

theorem reads_u16 (value : UInt16) : source.Reads readU16 value (toBe 2 value.toNat) := by
  have hdone : source.Reads (fun _ => Pure.pure (UInt16.ofNat (ofBe (toBe 2 value.toNat)))) value
      [] := by
    rw [Core.port_ofBe]
    exact .pure value
  exact (Source.Reads.exact_of_length (toBe_length 2 _)).bind_last hdone

-- The kinds of addresses are told from one another.
structure AddressTypes.Distinct (types : AddressTypes) : Prop where
  ipv6_ipv4 : types.ipv6 ≠ types.ipv4
  domain_ipv4 : types.domain ≠ types.ipv4
  domain_ipv6 : types.domain ≠ types.ipv6

theorem socksTypes_distinct : socksTypes.Distinct := ⟨by decide, by decide, by decide⟩

theorem uotTypes_distinct : uotTypes.Distinct := ⟨by decide, by decide, by decide⟩

variable {types : AddressTypes}

theorem reads_ipv4 (ip : BitVec 32) :
    source.Reads (readHost types types.ipv4) (String.ofList (IpAddr.ipv4Text ip))
      (toBe 4 ip.toNat) := by
  have hread : (readHost types types.ipv4 : Nat → Async σ String) = fun polls =>
      Async.readExact 4 polls >>= fun bytes =>
        pure (String.ofList (IpAddr.ipv4Text (BitVec.ofNat 32 (ofBe bytes)))) := by
    funext polls
    exact if_pos rfl
  have hdone : source.Reads (fun _ => Pure.pure
      (String.ofList (IpAddr.ipv4Text (BitVec.ofNat 32 (ofBe (toBe 4 ip.toNat))))))
      (String.ofList (IpAddr.ipv4Text ip)) [] := by
    rw [ofNat_ofBe 4 ip rfl]
    exact .pure _
  rw [hread]
  exact (Source.Reads.exact_of_length (toBe_length 4 ip.toNat)).bind_last hdone

theorem reads_ipv6 (h : types.Distinct) (ip : BitVec 128) :
    source.Reads (readHost types types.ipv6) (String.ofList (IpAddr.ipv6Text ip))
      (toBe 16 ip.toNat) := by
  have hread : (readHost types types.ipv6 : Nat → Async σ String) = fun polls =>
      Async.readExact 16 polls >>= fun bytes =>
        pure (String.ofList (IpAddr.ipv6Text (BitVec.ofNat 128 (ofBe bytes)))) := by
    funext polls
    exact (if_neg h.ipv6_ipv4).trans (if_pos rfl)
  have hdone : source.Reads (fun _ => Pure.pure
      (String.ofList (IpAddr.ipv6Text (BitVec.ofNat 128 (ofBe (toBe 16 ip.toNat))))))
      (String.ofList (IpAddr.ipv6Text ip)) [] := by
    rw [ofNat_ofBe 16 ip rfl]
    exact .pure _
  rw [hread]
  exact (Source.Reads.exact_of_length (toBe_length 16 ip.toNat)).bind_last hdone

theorem reads_domain (h : types.Distinct) {host : String} (hhost : (encode host).length ≤ 255) :
    source.Reads (readHost types types.domain) host
      (UInt8.ofNat (encode host).length :: encode host) := by
  have hread : (readHost types types.domain : Nat → Async σ String) = fun polls =>
      readU8 polls >>= fun length => Async.readExact length.toNat polls >>= fun bytes =>
        Async.ofResult (Result.ofOption types.notUtf8 (Utf8.decode bytes)) := by
    funext polls
    exact (if_neg h.domain_ipv4).trans ((if_neg h.domain_ipv6).trans (if_pos rfl))
  have hlength : (encode host).length = (UInt8.ofNat (encode host).length).toNat := by
    rw [UInt8.toNat_ofNat', Nat.mod_eq_of_lt (by omega)]
  have hdone : source.Reads (fun _ => Async.ofResult
      (Result.ofOption types.notUtf8 (Utf8.decode (encode host)))) host [] :=
    .ofResult (by rw [Utf8.decode_encode]; rfl)
  rw [hread]
  exact (reads_u8 source _).bind ((Source.Reads.exact_of_length hlength).bind_last hdone)

-- What stands for a host is read back in its printed form.
theorem reads_host (h : types.Distinct) {host : String} (hfits : hostFits host = true) :
    ∃ kind rest, hostBytes types host = kind :: rest ∧
      source.Reads (readHost types kind) (canonicalHost host) rest := by
  rw [hostBytes, canonicalHost]
  cases haddress : IpAddr.fromStr host.toList with
  | none =>
      rw [hostFits, haddress, Option.isSome_none, Bool.false_or, decide_eq_true_iff] at hfits
      exact ⟨_, _, rfl, reads_domain source h hfits⟩
  | some address =>
      cases address with
      | v4 ip => exact ⟨_, _, rfl, reads_ipv4 source ip⟩
      | v6 ip => exact ⟨_, _, rfl, reads_ipv6 source h ip⟩

theorem reads_address (h : types.Distinct) {address : Address} (hhost : address.host ≠ "")
    (hfits : hostFits address.host = true) :
    source.Reads (readAddress types) address.canonical (addressBytes types address) := by
  obtain ⟨kind, rest, hbytes, hread⟩ := reads_host source h hfits
  have hlayout : addressBytes types address = [kind] ++ (rest ++ toBe 2 address.port.toNat) := by
    rw [addressBytes, hbytes]
    rfl
  have hnew : Address.new (canonicalHost address.host) address.port = .ok address.canonical :=
    Address.new_ok _ (Core.canonicalHost_ne hhost)
  rw [hlayout]
  refine (reads_u8 source kind).bind (hread.bind ?_)
  exact (reads_u16 source address.port).bind_last (.ofResult hnew)

theorem reads_request :
    source.Reads readUotRequest () (0 :: addressBytes uotTypes ⟨UOT_MAGIC, 0⟩) := by
  have haddress : source.Reads readUotAddress (Address.canonical ⟨UOT_MAGIC, 0⟩)
      (addressBytes uotTypes ⟨UOT_MAGIC, 0⟩) :=
    reads_address source uotTypes_distinct (by decide) (by decide)
  rw [← List.singleton_append]
  exact (reads_u8 source 0).bind (.bind_nil (.ensure rfl) (haddress.bind_last (.pure ())))

def packetBytes (packet : Packet) : Bytes :=
  addressBytes uotTypes packet.destination ++ (toBe 2 packet.data.length ++ packet.data)

theorem reads_packet {packet : Packet} (hhost : packet.destination.host ≠ "")
    (hfits : hostFits packet.destination.host = true) (hdata : packet.data.length ≤ UOT_MAX_PACKET) :
    source.Reads recv ⟨packet.data, packet.destination.canonical⟩ (packetBytes packet) := by
  have hlength : (UInt16.ofNat packet.data.length).toNat = packet.data.length := by
    rw [UOT_MAX_PACKET] at hdata
    rw [UInt16.toNat_ofNat', Nat.mod_eq_of_lt (by omega)]
  have haddress : source.Reads readUotAddress packet.destination.canonical
      (addressBytes uotTypes packet.destination) :=
    reads_address source uotTypes_distinct hhost hfits
  have hcount := reads_u16 source (UInt16.ofNat packet.data.length)
  rw [hlength] at hcount
  refine haddress.bind (hcount.bind (.bind_nil (.ensure ?_) ?_))
  · exact decide_eq_true (hlength.symm ▸ hdata)
  · exact (Source.Reads.exact_of_length hlength.symm).bind_last (.pure _)

end

-- What `encode_socks_address` makes of an address, and when it makes nothing of it.
theorem encodeSocksAddress_eq (address : Address) :
    encodeSocksAddress address =
      if hostFits address.host then .ok (addressBytes socksTypes address)
      else .error ["AnyTLS domain is too long"] := by
  have hadds {bytes : Bytes} (h : (encodeSocksHost address.host).Adds () bytes) :
      encodeSocksAddress address = .ok (bytes ++ toBe 2 address.port.toNat) := by
    rw [encodeSocksAddress, h.bind (.extend _) []]
    rfl
  rw [addressBytes, hostBytes, hostFits]
  cases haddress : IpAddr.fromStr address.host.toList with
  | none =>
      rw [Option.isSome_none, Bool.false_or]
      by_cases hlength : (encode address.host).length ≤ 255
      · rw [if_pos (decide_eq_true hlength)]
        refine hadds ?_
        rw [encodeSocksHost, haddress]
        refine .bind_nil (.ofResult (Result.ensure_eq_ok.mpr (decide_eq_true hlength))) ?_
        exact (Appends.Adds.push 3).bind ((Appends.Adds.push _).bind (.extend _))
      · have hrefuses : (encodeSocksHost address.host).Refuses ["AnyTLS domain is too long"] := by
          rw [encodeSocksHost, haddress]
          refine Appends.Refuses.bind (.ofResult ?_)
          exact Result.ensure_eq_error.mpr ⟨decide_eq_false hlength, rfl⟩
        rw [if_neg (by simpa using hlength), encodeSocksAddress, hrefuses.bind []]
        rfl
  | some ip =>
      refine hadds ?_
      rw [encodeSocksHost, haddress]
      cases ip with
      | v4 ip => exact (Appends.Adds.push 1).bind (.extend _)
      | v6 ip =>
          show Appends.Adds _ () (4 :: toBe 16 ip.toNat)
          rw [← List.singleton_append]
          exact (Appends.Adds.push 4).bind (.extend _)

section

variable {σ : Type} [AsyncWrite σ] (sink : Sink σ)

theorem writes_octets (kind : UInt8) (octets : Bytes) :
    sink.Writes (fun polls => Async.writeAll [kind] polls >>= fun _ => Async.writeAll octets polls) ()
      (kind :: octets) := (Sink.Writes.writeAll [kind]).bind (.writeAll octets)

theorem writes_host {host : String} (h : hostFits host = true) :
    sink.Writes (writeUotHost host) () (hostBytes uotTypes host) := by
  rw [hostBytes]
  cases haddress : IpAddr.fromStr host.toList with
  | none =>
      rw [hostFits, haddress, Option.isSome_none, Bool.false_or] at h
      have hwrite : (writeUotHost host : Nat → Async σ Unit) = fun polls =>
          Async.ensure ((encode host).length ≤ 255) "AnyTLS UDP domain is too long" >>= fun _ =>
            Async.writeAll [2] polls >>= fun _ =>
              Async.writeAll [UInt8.ofNat (encode host).length] polls >>= fun _ =>
                Async.writeAll (encode host) polls := by
        funext polls
        rw [writeUotHost, haddress]
      rw [hwrite]
      refine .bind_nil (.ofResult (Result.ensure_eq_ok.mpr h)) ?_
      exact (Sink.Writes.writeAll [2]).bind ((Sink.Writes.writeAll [_]).bind (.writeAll _))
  | some address =>
      cases address with
      | v4 ip =>
          have hwrite : (writeUotHost host : Nat → Async σ Unit) = fun polls =>
              Async.writeAll [0] polls >>= fun _ => Async.writeAll (toBe 4 ip.toNat) polls := by
            funext polls
            rw [writeUotHost, haddress]
          rw [hwrite]
          exact writes_octets sink 0 (toBe 4 ip.toNat)
      | v6 ip =>
          have hwrite : (writeUotHost host : Nat → Async σ Unit) = fun polls =>
              Async.writeAll [1] polls >>= fun _ => Async.writeAll (toBe 16 ip.toNat) polls := by
            funext polls
            rw [writeUotHost, haddress]
          rw [hwrite]
          exact writes_octets sink 1 (toBe 16 ip.toNat)

theorem writes_address {address : Address} (h : hostFits address.host = true) :
    sink.Writes (writeUotAddress address) () (addressBytes uotTypes address) :=
  (writes_host sink h).bind (.writeAll _)

theorem writes_request :
    sink.Writes writeUotRequest () (0 :: addressBytes uotTypes ⟨UOT_MAGIC, 0⟩) := by
  rw [← List.singleton_append]
  refine (Sink.Writes.writeAll [0]).bind (.bind_nil (.ofResult rfl) ?_)
  exact (writes_address sink (by decide)).bind_last .flush

-- Whether `send` takes the packet.
def fits (packet : Packet) : Bool :=
  packet.data.length ≤ UOT_MAX_PACKET && hostFits packet.destination.host

theorem writes_packet {packet : Packet} (h : fits packet = true) :
    sink.Writes (send packet) () (packetBytes packet) := by
  obtain ⟨hdata, hhost⟩ := Bool.and_eq_true_iff.mp h
  refine .bind_nil (.ofResult (Result.ensure_eq_ok.mpr hdata)) ?_
  refine (writes_address sink hhost).bind ?_
  exact (Sink.Writes.writeAll _).bind ((Sink.Writes.writeAll _).bind_last .flush)

-- A packet that is not taken leaves the stream as it is.
theorem send_refused {packet : Packet} (h : fits packet = false) (writer : σ) :
    ∃ chain, Fails (send packet) writer chain writer := by
  cases hdata : decide (packet.data.length ≤ UOT_MAX_PACKET) with
  | false =>
      exact ⟨_, (Fails.ofResult writer (Result.ensure_eq_error.mpr ⟨hdata, rfl⟩)).bind _⟩
  | true =>
      rw [fits, hdata, Bool.true_and, hostFits, Bool.or_eq_false_iff] at h
      have hnone := Option.not_isSome_iff_eq_none.mp (Bool.eq_false_iff.mp h.1)
      have hhost : Fails (writeUotHost packet.destination.host) writer
          ["AnyTLS UDP domain is too long"] writer := by
        have hwrite : (writeUotHost packet.destination.host : Nat → Async σ Unit) = fun polls =>
            Async.ensure ((encode packet.destination.host).length ≤ 255)
              "AnyTLS UDP domain is too long" >>= fun _ =>
              Async.writeAll [2] polls >>= fun _ =>
                Async.writeAll [UInt8.ofNat (encode packet.destination.host).length] polls >>=
                  fun _ => Async.writeAll (encode packet.destination.host) polls := by
          funext polls
          rw [writeUotHost, hnone]
        rw [hwrite]
        exact (Fails.ofResult writer (Result.ensure_eq_error.mpr ⟨h.2, rfl⟩)).bind _
      exact ⟨_, (Yields.ofResult writer (Result.ensure_eq_ok.mpr hdata)).bind_fails
        ((hhost.bind _).bind _)⟩

-- Calls of `send`, one after the other, and what each of them returns.
def sendEach : List Packet → Nat → Async σ (List (Result Unit))
  | [], _ => pure []
  | packet :: packets, polls => do
      let outcome ← Async.attempt (send packet polls)
      let outcomes ← sendEach packets polls
      return outcome :: outcomes

-- What each call of `send` writes is the whole packet or nothing.
theorem writes_each (packets : List Packet) (writer : σ) (h : sink.good writer) :
    ∃ outcomes next, Yields (sendEach packets) writer outcomes next ∧ sink.good next ∧
      sink.taken next = sink.taken writer ++ (packets.filter fits).flatMap packetBytes ∧
      List.Forall₂ (fun packet outcome => outcome = .ok () ↔ fits packet = true)
        packets outcomes := by
  induction packets generalizing writer with
  | nil => exact ⟨[], writer, .pure writer [], h, (List.append_nil _).symm, .nil⟩
  | cons packet packets ih =>
      cases hfits : fits packet with
      | true =>
          obtain ⟨mid, hsend, hmid, htaken⟩ := writes_packet sink hfits writer h
          obtain ⟨outcomes, next, hrest, hnext, hbytes, houtcomes⟩ := ih mid hmid
          refine ⟨.ok () :: outcomes, next, hsend.attempt.bind (hrest.bind (.pure _ _)), hnext, ?_,
            .cons ⟨fun _ => hfits, fun _ => rfl⟩ houtcomes⟩
          rw [hbytes, htaken, List.filter_cons_of_pos hfits, List.flatMap_cons, List.append_assoc]
      | false =>
          obtain ⟨chain, hfails⟩ := send_refused hfits writer
          obtain ⟨outcomes, next, hrest, hnext, hbytes, houtcomes⟩ := ih writer h
          refine ⟨.error chain :: outcomes, next, hfails.attempt.bind (hrest.bind (.pure _ _)),
            hnext, ?_, .cons ⟨nofun, fun htrue => by rw [hfits] at htrue; cases htrue⟩ houtcomes⟩
          rw [hbytes, List.filter_cons_of_neg (by rw [hfits]; decide)]

end

-- A packet that can be sent.
def Sendable (packet : Packet) : Prop :=
  packet.data.length ≤ UOT_MAX_PACKET ∧ packet.destination.Encodable

-- A packet that `send` refuses: too large, or with a host that is too long.
def Refused (packet : Packet) : Prop :=
  UOT_MAX_PACKET < packet.data.length ∨
    IpAddr.fromStr packet.destination.host.toList = none ∧
      255 < (encode packet.destination.host).length

def canonicalPacket (packet : Packet) : Packet := ⟨packet.data, packet.destination.canonical⟩

theorem Sendable.fits {packet : Packet} (h : Sendable packet) : fits packet = true := by
  obtain ⟨hdata, -, hhost⟩ := h
  rw [AnyTls.fits, hostFits, decide_eq_true hdata, Bool.true_and, Bool.or_eq_true,
    decide_eq_true_iff]
  exact hhost

theorem Refused.not_fits {packet : Packet} (h : Refused packet) : fits packet = false := by
  rw [AnyTls.fits, hostFits]
  obtain hdata | ⟨hnone, hhost⟩ := h
  · rw [decide_eq_false (Nat.not_le_of_lt hdata), Bool.false_and]
  · rw [hnone, decide_eq_false (Nat.not_le_of_lt hhost), Option.isSome_none, Bool.or_false,
      Bool.and_false]

-- The packets that are sent are the packets that are received, whatever else was to be sent
-- and however the stream is cut.
theorem uot_boundaries {ω ρ : Type} [AsyncWrite ω] [AsyncRead ρ] (sink : Sink ω) (source : Source ρ)
    (packets : List Packet) (hpackets : ∀ packet ∈ packets, Sendable packet ∨ Refused packet)
    (writer : ω) (hwriter : sink.good writer) :
    (∃ stream outcomes written,
      Yields (fun polls => writeUotRequest polls >>= fun _ => sendEach packets polls) writer outcomes
        written ∧
      sink.taken written = sink.taken writer ++ stream ∧
      List.Forall₂ (fun packet outcome => outcome = .ok () ↔ Sendable packet) packets outcomes ∧
      ∀ reader, source.good reader → source.rest reader = stream →
        ∃ last, Yields (fun polls => readUotRequest polls >>= fun _ =>
            Async.times recv (packets.filter fits).length polls) reader
            ((packets.filter fits).map canonicalPacket) last ∧ source.rest last = []) ∧
    (∀ packet, Refused packet → ∀ state : ω, ∃ chain, Fails (send packet) state chain state) ∧
    (∀ address : Address, address.Encodable → ∃ encoded, encodeSocksAddress address = .ok encoded ∧
      source.Reads readSocksAddress address.canonical encoded) := by
  have hfits : ∀ packet ∈ packets, (fits packet = true ↔ Sendable packet) := by
    intro packet hmem
    refine ⟨fun h => ?_, Sendable.fits⟩
    obtain hsendable | hrefused := hpackets packet hmem
    · exact hsendable
    · rw [hrefused.not_fits] at h
      cases h
  refine ⟨?_, fun packet h state => send_refused h.not_fits state, fun address h => ?_⟩
  · obtain ⟨mid, hrequest, hmid, hfirst⟩ := writes_request sink writer hwriter
    obtain ⟨outcomes, written, hsend, -, htaken, houtcomes⟩ := writes_each sink packets mid hmid
    refine ⟨_, outcomes, written, hrequest.bind hsend, by rw [htaken, hfirst, List.append_assoc],
      ?_, fun reader hgood hrest => ?_⟩
    · refine List.forall₂_iff_get.mpr ⟨houtcomes.length_eq, fun index hp ho => ?_⟩
      exact (houtcomes.get hp ho).trans (hfits _ (List.get_mem packets ⟨index, hp⟩))
    · have hpacket : ∀ packet ∈ packets.filter fits,
          source.Reads recv (canonicalPacket packet) (packetBytes packet) := by
        intro packet hmem
        obtain ⟨hpacket, hfit⟩ := List.mem_filter.mp hmem
        obtain ⟨hdata, hhost⟩ := (hfits packet hpacket).mp hfit
        exact reads_packet source hhost.1 (Bool.and_eq_true_iff.mp hfit).2 hdata
      have hread : source.Reads (fun polls => readUotRequest polls >>= fun _ =>
          Async.times recv (packets.filter fits).length polls)
          ((packets.filter fits).map canonicalPacket)
          (0 :: addressBytes uotTypes ⟨UOT_MAGIC, 0⟩ ++ (packets.filter fits).flatMap packetBytes) :=
        (reads_request source).bind (.times _ hpacket)
      rw [← List.append_nil (_ ++ _)] at hrest
      obtain ⟨last, hyields, -, hempty⟩ := hread reader [] hgood hrest
      exact ⟨last, hyields, hempty⟩
  · have hhost : hostFits address.host = true := by
      rw [hostFits, Bool.or_eq_true, decide_eq_true_iff]
      exact h.2
    exact ⟨_, (encodeSocksAddress_eq address).trans (if_pos hhost),
      reads_address source socksTypes_distinct h.1 hhost⟩

-- Two packets, with one between them that is too large, in a stream of single bytes.
theorem uot_boundaries_three :
    ∃ stream outcomes written,
      Yields (fun polls => writeUotRequest polls >>= fun _ => sendEach
        [⟨[1, 2], ⟨"1.1.1.1", 53⟩⟩, ⟨List.replicate 65536 0, ⟨"a.com", 53⟩⟩,
          ⟨[], ⟨"a.com", 443⟩⟩] polls) (⟨[]⟩ : Collected) outcomes written ∧
      written.bytes = stream ∧
      ∃ last, Yields (fun polls => readUotRequest polls >>= fun _ => Async.times recv 2 polls)
        (⟨stream.map fun byte => [byte]⟩ : Pieces) [⟨[1, 2], ⟨"1.1.1.1", 53⟩⟩, ⟨[], ⟨"a.com", 443⟩⟩]
        last := by
  have hfirst : Sendable ⟨[1, 2], ⟨"1.1.1.1", 53⟩⟩ := ⟨by decide, by decide, by decide⟩
  have hlarge : Refused ⟨List.replicate 65536 0, ⟨"a.com", 53⟩⟩ :=
    .inl (by rw [List.length_replicate]; decide)
  have hthird : Sendable ⟨[], ⟨"a.com", 443⟩⟩ := ⟨by decide, by decide, by decide⟩
  obtain ⟨⟨stream, outcomes, written, hyields, htaken, -, hread⟩, -⟩ :=
    uot_boundaries Collected.sink Pieces.source _ (List.forall_mem_cons.mpr ⟨.inl hfirst,
      List.forall_mem_cons.mpr ⟨.inr hlarge, List.forall_mem_singleton.mpr (.inl hthird)⟩⟩) ⟨[]⟩ trivial
  have hgood : Pieces.source.good ⟨stream.map fun byte => [byte]⟩ := by
    intro piece hmem
    obtain ⟨byte, -, rfl⟩ := List.mem_map.mp hmem
    exact List.cons_ne_nil byte []
  have hrest : Pieces.source.rest ⟨stream.map fun byte => [byte]⟩ = stream :=
    List.flatMap_singleton' stream
  obtain ⟨last, hlast, -⟩ := hread _ hgood hrest
  rw [List.filter_cons_of_pos hfirst.fits, List.filter_cons_of_neg (by rw [hlarge.not_fits]; decide),
    List.filter_cons_of_pos hthird.fits] at hlast
  exact ⟨stream, outcomes, written, hyields, htaken, last, hlast⟩

end SingBox.AnyTls
