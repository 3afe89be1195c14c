import SingBox.Library.Relay
import SingBox.Tls.Reality

namespace SingBox.Tls

open Library
open Async (Yields)
open Core (SocketAddr)

-- A record of the TLS record layer.
structure Record where
  contentType : UInt8
  major : UInt8
  minor : UInt8
  payload : Bytes
  payload_length : payload.length < 2 ^ 16

def Record.encode (record : Record) : Bytes :=
  [record.contentType, record.major, record.minor] ++ toBe 2 record.payload.length ++ record.payload

-- What the acceptor has read of a client: the records with the hello, which may hold more than
-- it, and the bytes that came behind them.
structure HelloBytes where
  records : List Record
  extra : Bytes
  ahead : Bytes

def HelloBytes.encode (hello : HelloBytes) : Bytes := hello.records.flatMap Record.encode ++ hello.ahead

variable {ρ ω : Type} [AsyncRead ρ] [AsyncWrite ω]

-- What is relied on of the acceptor. `client` is all that the client sends.
structure Took (source : Source ρ) (client : Bytes) (hello : HelloBytes) (start : StartHandshake ρ) :
    Prop where
  handshake : ∀ record ∈ hello.records, record.contentType = 22
  joined : hello.records.flatMap Record.payload = start.accepted.encoded ++ hello.extra
  nonempty : start.accepted.encoded ≠ []
  good : source.good start.io
  client : client = hello.encode ++ source.rest start.io

-- The hello came alone in one record, the one that is sent for it, and nothing came with it.
structure HelloBytes.Plain (hello : HelloBytes) (encoded : Bytes) : Prop where
  alone : ∃ record, hello.records = [record] ∧ record.major = 3 ∧ record.minor = 1 ∧
    record.payload = encoded
  ahead : hello.ahead = []
  fits : encoded.length ≤ 2 ^ 14

-- The handshake server gets what the client sends, in records that are not too large.
structure Transparent (sink : Sink ω) (client encoded : Bytes) (relay : Relay ρ ω) : Prop where
  sent : ∃ next, Yields (relayTo encoded) relay () next ∧
    sink.taken next.writer = sink.taken relay.writer ++ client
  fits : encoded.length ≤ 2 ^ 14

theorem Record.encode_ne_nil (record : Record) : record.encode ≠ [] := List.cons_ne_nil _ _

theorem helloRecord_eq (encoded : Bytes) :
    helloRecord encoded = [22, 3, 1] ++ toBe 2 encoded.length ++ encoded := by
  rw [helloRecord, Nat.shiftRight_eq_div_pow]
  rfl

-- What the handshake server gets.
theorem relayTo_taken {source : Source ρ} {sink : Sink ω} (hends : source.Ends) {encoded : Bytes}
    (relay : Relay ρ ω) (hreader : source.good relay.reader) (hwriter : sink.good relay.writer)
    (hfits : encoded.length ≤ 65535) :
    ∃ next, Yields (relayTo encoded) relay () next ∧ sink.taken next.writer =
      sink.taken relay.writer ++ (helloRecord encoded ++ source.rest relay.reader) := by
  have hgood : Relay.Good source sink (sink.taken relay.writer) relay := ⟨hreader, hwriter, rfl⟩
  obtain ⟨mid, hwrite, hmid, hsame⟩ := hgood.writeAll (helloRecord encoded)
  obtain ⟨copied, next, hcopy, hnext⟩ := hmid.copy_upTo hends none
  have hensure : Yields (fun _ => Async.ensure (encoded.length ≤ 65535)
      "Reality ClientHello is too large") relay () relay :=
    .ofResult relay (Result.ensure_eq_ok.mpr (decide_eq_true hfits))
  refine ⟨next, hensure.bind (hwrite.bind (hcopy.bind (.pure next ()))), ?_⟩
  rw [hnext.taken, hsame, List.append_assoc]
  rfl

-- The record that is built is what has been read where that is a record for the hello alone.
theorem helloRecord_eq_iff {source : Source ρ} {client : Bytes} {hello : HelloBytes}
    {start : StartHandshake ρ} (h : Took source client hello start)
    (hfits : start.accepted.encoded.length ≤ 2 ^ 14) :
    helloRecord start.accepted.encoded = hello.encode ↔ hello.Plain start.accepted.encoded := by
  constructor
  · intro hsame
    obtain ⟨records, extra, ahead⟩ := hello
    cases records with
    | nil =>
        have hjoined := List.append_eq_nil_iff.mp (show [] = _ from h.joined).symm
        exact absurd hjoined.1 h.nonempty
    | cons record records =>
        rw [helloRecord_eq] at hsame
        have hrecord : [22, 3, 1] ++ toBe 2 start.accepted.encoded.length ++ start.accepted.encoded =
            [record.contentType, record.major, record.minor] ++ toBe 2 record.payload.length ++
              (record.payload ++ (records.flatMap Record.encode ++ ahead)) := by
          rw [hsame, HelloBytes.encode, List.flatMap_cons, Record.encode]
          simp only [List.append_assoc]
        obtain ⟨hheader, hpayload⟩ := List.append_inj hrecord (by simp)
        obtain ⟨hversion, hlengths⟩ := List.append_inj hheader rfl
        have hlength : start.accepted.encoded.length = record.payload.length := by
          have hbound := record.payload_length
          rw [← ofBe_toBe 2 start.accepted.encoded.length (by omega), hlengths,
            ofBe_toBe 2 _ (by omega)]
        -- the payload is as long as the hello, so nothing is left
        have hrest : records.flatMap Record.encode ++ ahead = [] := by
          have hboth := congrArg List.length hpayload
          rw [List.length_append] at hboth
          exact List.eq_nil_of_length_eq_zero (by omega)
        obtain ⟨hrecords, hahead⟩ := List.append_eq_nil_iff.mp hrest
        rw [hrest, List.append_nil] at hpayload
        refine ⟨⟨record, ?_, ?_, ?_, hpayload.symm⟩, hahead, hfits⟩
        · cases records with
          | nil => rfl
          | cons other records =>
              exact absurd (List.append_eq_nil_iff.mp hrecords).1 other.encode_ne_nil
        · exact (List.cons.inj (List.cons.inj hversion).2).1.symm
        · exact (List.cons.inj (List.cons.inj (List.cons.inj hversion).2).2).1.symm
  · rintro ⟨⟨record, hrecords, hmajor, hminor, hpayload⟩, hahead, -⟩
    have htype : record.contentType = 22 := h.handshake record (hrecords ▸ List.mem_singleton_self record)
    rw [HelloBytes.encode, hrecords, hahead, List.flatMap_singleton, List.append_nil, Record.encode,
      htype, hmajor, hminor, hpayload, helloRecord_eq]

-- The relay as it is given, whoever has made it.
theorem transparent_iff {source : Source ρ} {sink : Sink ω} (hends : source.Ends) {client : Bytes}
    {hello : HelloBytes} {start : StartHandshake ρ} (htook : Took source client hello start)
    {upstream : ω} (hgood : sink.good upstream) :
    Transparent sink client start.accepted.encoded ⟨start.io, upstream⟩ ↔
      hello.Plain start.accepted.encoded := by
  constructor
  · rintro ⟨⟨next, hnext, htaken⟩, hfits⟩
    obtain ⟨other, hother, hsent⟩ := relayTo_taken hends ⟨start.io, upstream⟩ htook.good
      hgood (Nat.le_trans hfits (by decide))
    obtain ⟨-, rfl⟩ := hnext.unique hother
    have hsame := List.append_cancel_left (htaken.symm.trans hsent)
    rw [htook.client] at hsame
    exact (helloRecord_eq_iff htook hfits).mp (List.append_cancel_right hsame).symm
  · intro hplain
    obtain ⟨next, hnext, hsent⟩ := relayTo_taken hends ⟨start.io, upstream⟩ htook.good
      hgood (Nat.le_trans hplain.fits (by decide))
    refine ⟨⟨next, hnext, ?_⟩, hplain.fits⟩
    rw [hsent, (helloRecord_eq_iff htook hplain.fits).mpr hplain, htook.client]

-- Whatever the client is rejected for, and however its bytes have come.
theorem relays_transparently_iff {source : Source ρ} {sink : Sink ω} (hends : source.Ends)
    {crypto : Crypto} {now : Nat} {lookupHost : String → UInt16 → Result (List SocketAddr)}
    {connect : SocketAddr → Result ω} {this : RealityAcceptor} {start : StartHandshake ρ}
    {client encoded : Bytes} {hello : HelloBytes} {relay : Relay ρ ω}
    (hconnect : ∀ address upstream, connect address = .ok upstream → sink.good upstream)
    (htook : Took source client hello start)
    (haccept : this.accept crypto now lookupHost connect (.ok start) = .ok (.relays relay encoded)) :
    Transparent sink client encoded relay ↔ hello.Plain encoded := by
  obtain ⟨-, rfl, hreader, address, hwriter⟩ := accept_relays haccept
  obtain ⟨reader, upstream⟩ := relay
  obtain rfl : reader = start.io := hreader
  exact transparent_iff hends htook (hconnect address upstream hwriter)

section Example

-- A hello of TLS 1.2 with one cipher suite and one signature scheme, and no session.
def minimalHello : Bytes :=
  [1, 0, 0, 51, 3, 3] ++ List.replicate 32 0 ++ [0, 0, 2, 19, 1, 1, 0, 0, 8, 0, 13, 0, 4, 0, 2, 8, 7]

def minimalRecord : Record where
  contentType := 22
  major := 3
  minor := 1
  payload := minimalHello
  payload_length := by decide

def prober : StartHandshake Pieces where
  accepted := {
    sessionId := []
    serverName := none
    keyShare := none
    random := List.replicate 32 0
    random_length := List.length_replicate
    encoded := minimalHello }
  io := ⟨[]⟩

def noCrypto : Crypto where
  agree _ _ := none
  hkdf _ _ _ := none
  openInPlace _ _ _ _ := none

def realityServer : RealityAcceptor where
  serverName := "example.com"
  privateKey := []
  handshakeServer := "192.0.2.1"
  handshakePort := 443
  shortIds := []
  maxTimeDifference := none
  systemDialer := {}

theorem prober_relayed : realityServer.accept noCrypto 0 (fun _ _ => .ok [])
    (fun _ => .ok (⟨[]⟩ : Collected)) (.ok prober) =
      .ok (.relays ⟨⟨[]⟩, ⟨[]⟩⟩ minimalHello) := rfl

theorem prober_took (ahead : Bytes) :
    Took Pieces.source (minimalRecord.encode ++ ahead) ⟨[minimalRecord], [], ahead⟩ prober where
  handshake record hmem := List.mem_singleton.mp hmem ▸ rfl
  joined := rfl
  nonempty := List.cons_ne_nil _ _
  good := List.forall_mem_nil _
  client := by
    rw [HelloBytes.encode, List.flatMap_singleton]
    exact (List.append_nil _).symm

-- The hello alone is passed on as it is.
theorem relays_transparently_prober :
    Transparent Collected.sink minimalRecord.encode minimalHello ⟨(⟨[]⟩ : Pieces), ⟨[]⟩⟩ :=
  (relays_transparently_iff Pieces.ends (fun _ _ _ => trivial) (by
    have htook := prober_took []
    rwa [List.append_nil] at htook) prober_relayed).mpr
    ⟨⟨minimalRecord, rfl, rfl, rfl, rfl⟩, rfl, by decide⟩

-- A ChangeCipherSpec that is read with the hello is lost.
theorem relay_loses_ahead :
    Took Pieces.source (minimalRecord.encode ++ [20, 3, 3, 0, 1, 1])
        ⟨[minimalRecord], [], [20, 3, 3, 0, 1, 1]⟩ prober ∧
      realityServer.accept noCrypto 0 (fun _ _ => .ok []) (fun _ => .ok (⟨[]⟩ : Collected))
        (.ok prober) = .ok (.relays ⟨⟨[]⟩, ⟨[]⟩⟩ minimalHello) ∧
      ¬Transparent Collected.sink (minimalRecord.encode ++ [20, 3, 3, 0, 1, 1]) minimalHello
        ⟨(⟨[]⟩ : Pieces), ⟨[]⟩⟩ := by
  have htook := prober_took [20, 3, 3, 0, 1, 1]
  refine ⟨htook, prober_relayed, fun htransparent => ?_⟩
  have hplain : HelloBytes.Plain ⟨[minimalRecord], [], [20, 3, 3, 0, 1, 1]⟩ minimalHello :=
    (transparent_iff Pieces.ends htook trivial).mp htransparent
  exact absurd hplain.ahead (List.cons_ne_nil _ _)

end Example

end SingBox.Tls
