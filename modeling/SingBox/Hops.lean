import SingBox.AnyTls.Uot.RoundTrip
import SingBox.Core.Dialer
import SingBox.Core.Ip.RoundTrip
import SingBox.Core.Socks.Codec
import SingBox.Library.Relay
import SingBox.Vless.RoundTrip

namespace SingBox

open Library Core
open Async (Yields)
open Utf8 (encode)
open Vless (Users Uuid)

namespace Core

-- Printing an address that has been printed changes nothing.
theorem fromStr_canonicalHost (host : String) :
    IpAddr.fromStr (canonicalHost host).toList = IpAddr.fromStr host.toList := by
  unfold canonicalHost
  split
  · next ip hread => rw [String.toList_ofList, IpAddr.fromStr_ipv4Text, hread]
  · next ip hread => rw [String.toList_ofList, IpAddr.fromStr_ipv6Text, hread]
  · rfl

theorem canonicalHost_of_none {host : String} (h : IpAddr.fromStr host.toList = none) :
    canonicalHost host = host := by
  unfold canonicalHost
  rw [h]

theorem canonicalHost_congr {first second : String}
    (hread : IpAddr.fromStr first.toList = IpAddr.fromStr second.toList)
    (hsome : (IpAddr.fromStr second.toList).isSome) : canonicalHost first = canonicalHost second := by
  obtain ⟨ip, hip⟩ := Option.isSome_iff_exists.mp hsome
  unfold canonicalHost
  rw [hread, hip]
  cases ip with
  | v4 ip => rfl
  | v6 ip => rfl

theorem canonicalHost_idem (host : String) : canonicalHost (canonicalHost host) = canonicalHost host := by
  cases hread : IpAddr.fromStr host.toList with
  | none => rw [canonicalHost_of_none hread, canonicalHost_of_none hread]
  | some ip => exact canonicalHost_congr (fromStr_canonicalHost host) (by rw [hread]; rfl)

namespace Address

theorem canonical_idem (this : Address) : this.canonical.canonical = this.canonical :=
  congrArg (Address.mk · this.port) (canonicalHost_idem this.host)

theorem Encodable.canonical {this : Address} (h : this.Encodable) : this.canonical.Encodable := by
  refine ⟨canonicalHost_ne h.1, ?_⟩
  cases hread : IpAddr.fromStr this.host.toList with
  | none =>
      have hsame : this.canonical.host = this.host := canonicalHost_of_none hread
      rw [hsame]
      exact h.2
  | some ip =>
      refine .inl ?_
      have hsame : IpAddr.fromStr this.canonical.host.toList = some ip :=
        (fromStr_canonicalHost this.host).trans hread
      rw [hsame]
      rfl

end Address

-- A host that is decoded fits where a host is encoded.
theorem Socks.decodeHost_fits {input : Bytes} {host : String} {count : Nat}
    (h : decodeHost input = .ok (host, count)) :
    (IpAddr.fromStr host.toList).isSome ∨ (encode host).length ≤ 255 := by
  rw [decodeHost] at h
  split at h
  · obtain ⟨-, -, hsame⟩ := Result.bind_eq_ok.mp h
    obtain ⟨rfl, -⟩ := Prod.mk.inj (Except.ok.inj hsame)
    rw [String.toList_ofList, IpAddr.fromStr_ipv4Text]
    exact .inl rfl
  split at h
  · obtain ⟨-, -, hsame⟩ := Result.bind_eq_ok.mp h
    obtain ⟨rfl, -⟩ := Prod.mk.inj (Except.ok.inj hsame)
    rw [String.toList_ofList, IpAddr.fromStr_ipv6Text]
    exact .inl rfl
  split at h
  · obtain ⟨-, -, hlong⟩ := Result.bind_eq_ok.mp h
    obtain ⟨-, -, hdomain⟩ := Result.bind_eq_ok.mp hlong
    obtain ⟨text, htext, hsame⟩ := Result.bind_eq_ok.mp hdomain
    obtain ⟨rfl, -⟩ := Prod.mk.inj (Except.ok.inj hsame)
    refine .inr ?_
    rw [← Utf8.encode_of_decode (Result.ofOption_eq_ok.mp htext), List.length_take]
    have hbyte := (input.getD 1 0).toNat_lt
    omega
  · cases h

theorem Socks.decodeAddress_encodable {wire : Bytes} {address : Address} {consumed : Nat}
    (h : decodeAddress wire = .ok (address, consumed)) : address.Encodable := by
  cases wire with
  | nil => cases h
  | cons kind rest =>
      rw [decodeAddress_eq (List.cons_ne_nil kind rest)] at h
      obtain ⟨⟨host, count⟩, hhost, hport⟩ := Result.bind_eq_ok.mp h
      obtain ⟨-, -, hnew⟩ := Result.bind_eq_ok.mp hport
      obtain ⟨made, hmade, hsame⟩ := Result.bind_eq_ok.mp hnew
      obtain ⟨rfl, -⟩ := Prod.mk.inj (Except.ok.inj hsame)
      obtain ⟨⟨⟩, hne, hthis⟩ := Result.bind_eq_ok.mp hmade
      obtain rfl := Except.ok.inj hthis
      exact ⟨bne_iff_ne.mp (Result.ensure_eq_ok.mp hne), decodeHost_fits hhost⟩

end Core

-- A client and a server between which the address of a destination is handed on.
inductive Hop where
  | socks
  | anyTls
  | uot
  | vless (uuid : Uuid) (users : Users)

namespace Hop

-- What the client makes of the address, on whatever it writes it to.
def Sends (address : Address) (bytes : Bytes) : Hop → Prop
  | socks => (Socks.encodeAddress address).run [] = (.ok (), bytes)
  | anyTls => AnyTls.encodeSocksAddress address = .ok bytes
  | uot => ∀ {ω : Type} [AsyncWrite ω] (sink : Sink ω),
      sink.Writes (AnyTls.writeUotAddress address) () bytes
  | vless uuid _ => Vless.encodeVlessRequest uuid address = .ok bytes

-- What the server makes of the bytes, from whatever it reads them and whatever comes behind them.
def Receives (bytes : Bytes) (address : Address) : Hop → Prop
  | socks => ∀ payload, Socks.decodeAddress (bytes ++ payload) = .ok (address, bytes.length)
  | anyTls => ∀ {ρ : Type} [AsyncRead ρ] (source : Source ρ),
      source.Reads AnyTls.readSocksAddress address bytes
  | uot => ∀ {ρ : Type} [AsyncRead ρ] (source : Source ρ),
      source.Reads AnyTls.readUotAddress address bytes
  | vless _ users => ∃ user, ∀ {ρ : Type} [AsyncRead ρ] (source : Source ρ),
      source.Reads (Vless.readVlessRequest users) (address, user) bytes

def Carries (this : Hop) (first second : Address) : Prop :=
  ∃ bytes, this.Sends first bytes ∧ this.Receives bytes second

-- The server knows the client.
def Known : Hop → Prop
  | vless uuid users => (users uuid).isSome
  | _ => True

section

variable {first second : Bytes} {address other : Address} {α : Type}

theorem writes_unique {run : {ω : Type} → [AsyncWrite ω] → Nat → Async ω Unit}
    (hfirst : ∀ {ω : Type} [AsyncWrite ω] (sink : Sink ω), sink.Writes run () first)
    (hsecond : ∀ {ω : Type} [AsyncWrite ω] (sink : Sink ω), sink.Writes run () second) :
    first = second := by
  obtain ⟨next, hyields, -, htaken⟩ := hfirst Collected.sink ⟨[]⟩ trivial
  obtain ⟨left, hleft, -, hother⟩ := hsecond Collected.sink ⟨[]⟩ trivial
  obtain ⟨-, rfl⟩ := hyields.unique hleft
  exact htaken.symm.trans hother

theorem reads_unique {run : {ρ : Type} → [AsyncRead ρ] → Nat → Async ρ α} {value found : α}
    (hvalue : ∀ {ρ : Type} [AsyncRead ρ] (source : Source ρ), source.Reads run value first)
    (hfound : ∀ {ρ : Type} [AsyncRead ρ] (source : Source ρ), source.Reads run found first) :
    value = found := by
  -- the bytes, one at a time
  have hgood : Pieces.source.good ⟨first.map ([·])⟩ := by
    rintro piece hpiece rfl
    obtain ⟨byte, -, hbyte⟩ := List.mem_map.mp hpiece
    cases hbyte
  have hrest : Pieces.source.rest ⟨first.map ([·])⟩ = first ++ [] := by
    rw [List.append_nil]
    exact List.flatMap_singleton' first
  obtain ⟨next, hyields, -⟩ := hvalue Pieces.source _ [] hgood hrest
  obtain ⟨left, hother, -⟩ := hfound Pieces.source _ [] hgood hrest
  exact (hyields.unique hother).1

-- One hop: the address arrives, in its printed form, and nothing else does.
theorem carries_iff {hop : Hop} (h : address.Encodable) (hknown : hop.Known) :
    hop.Carries address other ↔ other = address.canonical := by
  have hfits : AnyTls.hostFits address.host = true := by
    rw [AnyTls.hostFits, Bool.or_eq_true, decide_eq_true_iff]
    exact h.2
  cases hop with
  | socks =>
      obtain ⟨encoded, hadds, hdecode⟩ := Socks.encodeAddress_ok h
      constructor
      · rintro ⟨bytes, hsends, hreceives⟩
        obtain ⟨-, rfl⟩ := Prod.mk.inj ((hadds []).symm.trans hsends)
        exact (Prod.mk.inj (Except.ok.inj ((hreceives []).symm.trans (hdecode [])))).1
      · rintro rfl
        exact ⟨encoded, hadds [], hdecode⟩
  | anyTls =>
      have hencode : AnyTls.encodeSocksAddress address =
          .ok (AnyTls.addressBytes AnyTls.socksTypes address) := by
        rw [AnyTls.encodeSocksAddress_eq, if_pos hfits]
      have hread {ρ : Type} [AsyncRead ρ] (source : Source ρ) :
          source.Reads AnyTls.readSocksAddress address.canonical
            (AnyTls.addressBytes AnyTls.socksTypes address) :=
        AnyTls.reads_address source AnyTls.socksTypes_distinct h.1 hfits
      constructor
      · rintro ⟨bytes, hsends, hreceives⟩
        obtain rfl := Except.ok.inj (hencode.symm.trans hsends)
        exact reads_unique hreceives hread
      · rintro rfl
        exact ⟨_, hencode, hread⟩
  | uot =>
      have hwrite {ω : Type} [AsyncWrite ω] (sink : Sink ω) :
          sink.Writes (AnyTls.writeUotAddress address) ()
            (AnyTls.addressBytes AnyTls.uotTypes address) :=
        AnyTls.writes_address sink hfits
      have hread {ρ : Type} [AsyncRead ρ] (source : Source ρ) :
          source.Reads AnyTls.readUotAddress address.canonical
            (AnyTls.addressBytes AnyTls.uotTypes address) :=
        AnyTls.reads_address source AnyTls.uotTypes_distinct h.1 hfits
      constructor
      · rintro ⟨bytes, hsends, hreceives⟩
        obtain rfl : bytes = AnyTls.addressBytes AnyTls.uotTypes address :=
          writes_unique hsends hwrite
        exact reads_unique hreceives hread
      · rintro rfl
        exact ⟨_, hwrite, hread⟩
  | vless uuid users =>
      obtain ⟨user, huser⟩ := Option.isSome_iff_exists.mp hknown
      obtain ⟨request, hrequest⟩ := Vless.encodeVlessRequest_ok uuid h.2
      have hread {ρ : Type} [AsyncRead ρ] (source : Source ρ) :
          source.Reads (Vless.readVlessRequest users) (address.canonical, user) request :=
        Vless.reads_request source huser h.1 hrequest
      constructor
      · rintro ⟨bytes, hsends, found, hreceives⟩
        obtain rfl := Except.ok.inj (hrequest.symm.trans hsends)
        exact (Prod.mk.inj (reads_unique hreceives hread)).1
      · rintro rfl
        exact ⟨request, hrequest, user, hread⟩

end

end Hop

-- The destination of a request that is handed on from proxy to proxy.
inductive Travels : List Hop → Address → Address → Prop
  | here (address : Address) : Travels [] address address
  | onward {hop : Hop} {hops : List Hop} {first second last : Address} :
      hop.Carries first second → Travels hops second last → Travels (hop :: hops) first last

namespace Travels

variable {hops : List Hop} {address last : Address}

theorem eq_canonical (h : address.Encodable) (hknown : ∀ hop ∈ hops, hop.Known)
    (htravels : Travels hops address last) : last = address ∨ last = address.canonical := by
  induction htravels with
  | here => exact .inl rfl
  | onward hcarries _ ih =>
      obtain ⟨hhop, hhops⟩ := List.forall_mem_cons.mp hknown
      obtain rfl := (Hop.carries_iff h hhop).mp hcarries
      obtain hlast | hlast := ih h.canonical hhops
      · exact .inr hlast
      · exact .inr (hlast.trans (Address.canonical_idem _))

theorem unique {other : Address} (h : address.Encodable) (hknown : ∀ hop ∈ hops, hop.Known)
    (hfirst : Travels hops address last) (hsecond : Travels hops address other) : last = other := by
  induction hfirst with
  | here => cases hsecond; rfl
  | onward hcarries _ ih =>
      obtain ⟨hhop, hhops⟩ := List.forall_mem_cons.mp hknown
      cases hsecond with
      | onward hothers hrest =>
          obtain rfl := (Hop.carries_iff h hhop).mp hcarries
          obtain rfl := (Hop.carries_iff h hhop).mp hothers
          exact ih h.canonical hhops hrest

theorem arrives (h : address.Encodable) (hknown : ∀ hop ∈ hops, hop.Known) :
    ∃ last, Travels hops address last := by
  induction hops generalizing address with
  | nil => exact ⟨address, .here address⟩
  | cons hop hops ih =>
      obtain ⟨hhop, hhops⟩ := List.forall_mem_cons.mp hknown
      obtain ⟨last, hlast⟩ := ih h.canonical hhops
      exact ⟨last, .onward ((Hop.carries_iff h hhop).mpr rfl) hlast⟩

-- Whatever a client asks for, the last of any chain of proxies dials what the first would have
-- dialed.
theorem keeps_destination {wire : Bytes} {asked : Address} {consumed : Nat}
    (h : Socks.decodeAddress wire = .ok (asked, consumed)) (hknown : ∀ hop ∈ hops, hop.Known) :
    ∃ last, (∀ other, Travels hops asked other ↔ other = last) ∧ last.port = asked.port ∧
      IpAddr.fromStr last.host.toList = IpAddr.fromStr asked.host.toList ∧
      (IpAddr.fromStr asked.host.toList = none → last = asked) ∧
      ∀ (lookupHost : String → UInt16 → Result (List SocketAddr)) (dialer : SystemDialer),
        dialer.resolve lookupHost last.host last.port =
          dialer.resolve lookupHost asked.host asked.port := by
  have hasked := Socks.decodeAddress_encodable h
  obtain ⟨last, hlast⟩ := arrives hasked hknown
  have hform := eq_canonical hasked hknown hlast
  have hport : last.port = asked.port := by
    obtain rfl | rfl := hform
    · rfl
    · rfl
  have hread : IpAddr.fromStr last.host.toList = IpAddr.fromStr asked.host.toList := by
    obtain rfl | rfl := hform
    · rfl
    · exact fromStr_canonicalHost asked.host
  have hdomain (hnone : IpAddr.fromStr asked.host.toList = none) : last = asked := by
    obtain rfl | rfl := hform
    · rfl
    · exact congrArg (Address.mk · asked.port) (canonicalHost_of_none hnone)
  refine ⟨last, fun other => ⟨fun hother => hother.unique hasked hknown hlast, ?_⟩, hport, hread,
    hdomain, fun lookupHost dialer => ?_⟩
  · rintro rfl
    exact hlast
  · cases hip : IpAddr.fromStr asked.host.toList with
    | none => rw [hdomain hip]
    | some ip => rw [SystemDialer.resolve, SystemDialer.resolve, hread, hip, hport]

-- An address that a client gives as a name, through one proxy of each kind.
theorem keeps_destination_named :
    ∃ last, Travels [.anyTls, .vless ⟨List.replicate 16 7, rfl⟩ (fun _ => some "user"), .uot, .socks]
        ⟨"0::1", 80⟩ last ∧ last.port = 80 ∧ IpAddr.fromStr last.host.toList = some (.v6 1) := by
  have hdecode : Socks.decodeAddress [3, 4, 48, 58, 58, 49, 0, 80] = .ok (⟨"0::1", 80⟩, 8) := by decide
  have hknown : ∀ hop ∈ [Hop.anyTls, .vless ⟨List.replicate 16 7, rfl⟩ (fun _ => some "user"), .uot,
      .socks], hop.Known := by simp [Hop.Known]
  obtain ⟨last, hlast, hport, hread, -⟩ := keeps_destination hdecode hknown
  exact ⟨last, (hlast last).mpr rfl, hport, hread⟩

end Travels

end SingBox
