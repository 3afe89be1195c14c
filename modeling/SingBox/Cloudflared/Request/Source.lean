import SingBox.Cloudflared.Request

namespace SingBox.Cloudflared.ConnectRequest

open Library SingBox.Core

-- The header is there and its first part is the address.
def Gives (this : ConnectRequest) (key : String) (ip : IpAddr) : Prop :=
  ∃ value, this.sourceValue key = some value ∧ firstAddress value = some ip

-- Of the headers that give an address the first one gives this.
def NamesClient (this : ConnectRequest) (ip : IpAddr) : Prop :=
  ∃ before key after, SOURCE_HEADERS = before ++ key :: after ∧ this.Gives key ip ∧
    ∀ earlier ∈ before, ∀ other, ¬this.Gives earlier other

-- Both name the same client, but for 0.0.0.0, which is as good as none.
def SameClient (left right : ConnectRequest) : Prop :=
  ∀ ip, ip ≠ UNSPECIFIED → (left.NamesClient ip ↔ right.NamesClient ip)

-- The router is handed the session for the request.
def HandsOver (parseUri : String → Result Uri) (tag : String) (this : ConnectRequest)
    (session : Session) : Prop :=
  routerHandler parseUri tag this = .ok session ∨
    ∃ origin, prepareOriginRequest parseUri tag this = .ok origin ∧ origin.session = session

-- The same peer with another header, and a request from a client on the whitelist.
theorem not_same_source : ¬∀ (parseUri : String → Result Uri) (tag : String)
    (request : ConnectRequest) (metadata : List Metadata) (first second : Session),
    request.HandsOver parseUri tag first →
      { request with metadata }.HandsOver parseUri tag second → first.source = second.source := by
  intro h
  let parseUri : String → Result Uri := fun _ => .ok
    { scheme := some "http", authority := some ⟨"a.com", "a.com", none⟩, pathAndQuery := some "/",
      path := "/" }
  let request : ConnectRequest :=
    { destination := "http://a.com/", connectionType := .http, metadata := [] }
  let session (ip : IpAddr) : Session :=
    { network := .tcp, source := some ⟨ip, 0⟩, destination := ⟨"a.com", 80⟩, inbound := "in" }
  have hsame := h parseUri "in" request [⟨"HttpHeader:X-Real-IP", "10.0.0.1"⟩]
    (session (.v4 0)) (session (.v4 0x0a000001#32)) (.inl (by decide)) (.inl (by decide))
  revert hsame
  decide

theorem namesClient_iff (this : ConnectRequest) (ip : IpAddr) :
    this.NamesClient ip ↔
      SOURCE_HEADERS.findSome? (fun key => (this.sourceValue key).bind firstAddress) = some ip := by
  have hgives (key : String) (other : IpAddr) :
      this.Gives key other ↔ (this.sourceValue key).bind firstAddress = some other :=
    Option.bind_eq_some_iff.symm
  simp only [NamesClient, hgives, List.findSome?_eq_some_iff, Option.eq_none_iff_forall_ne_some]

-- The session's source says no more and no less than the headers.
theorem handsOver_source {parseUri : String → Result Uri} {tag : String} {this : ConnectRequest}
    {session : Session} (h : this.HandsOver parseUri tag session) :
    session.source = some this.sourceForRequest := by
  obtain h | ⟨origin, h, rfl⟩ := h
  · obtain ⟨⟨network, destination⟩, _, h⟩ := Result.bind_eq_ok.mp h
    cases network with
    | tcp =>
        obtain rfl := Except.ok.inj h
        rfl
    | udp => cases h
  · obtain ⟨⟨network, destination⟩, _, h⟩ := Result.bind_eq_ok.mp h
    obtain ⟨uri, _, h⟩ := Result.bind_eq_ok.mp h
    obtain ⟨host, _, h⟩ := Result.bind_eq_ok.mp h
    obtain rfl := Except.ok.inj h
    rfl

-- Two options with the same value where there is none stand for the same value.
theorem getD_eq_getD_iff {α : Type} (left right : Option α) (default : α) :
    left.getD default = right.getD default ↔
      ∀ value, value ≠ default → (left = some value ↔ right = some value) := by
  constructor
  · intro heq value hvalue
    cases left <;> cases right <;> simp only [Option.getD_none, Option.getD_some] at heq <;> grind
  · intro hsame
    by_cases hleft : left.getD default = default
    · rw [hleft]
      by_contra hright
      have hsome : right = some (right.getD default) := by
        cases right with
        | none => exact absurd rfl hright
        | some value => rfl
      have hvalue := (hsame _ fun h => hright h.symm).mpr hsome
      rw [hvalue] at hleft
      exact hright hleft.symm
    · have hsome : left = some (left.getD default) := by
        cases left with
        | none => exact absurd rfl hleft
        | some value => rfl
      rw [(hsame _ hleft).mp hsome]
      rfl

theorem sourceForRequest_eq_iff (left right : ConnectRequest) :
    left.sourceForRequest = right.sourceForRequest ↔ left.SameClient right := by
  simp only [sourceForRequest, SocketAddr.mk.injEq, and_true, SameClient, namesClient_iff]
  exact getD_eq_getD_iff _ _ _

-- Two requests that differ in their metadata only are given the same source if and only if
-- they name the same client.
theorem same_source_iff {parseUri : String → Result Uri} {tag : String} {request : ConnectRequest}
    {metadata : List Metadata} {first second : Session}
    (hfirst : request.HandsOver parseUri tag first)
    (hsecond : { request with metadata }.HandsOver parseUri tag second) :
    first.source = second.source ↔ request.SameClient { request with metadata } := by
  rw [handsOver_source hfirst, handsOver_source hsecond, Option.some_inj, sourceForRequest_eq_iff]

-- Two requests of one client, one of them with a second address behind the comma.
theorem same_source_iff_oneClient :
    let parseUri : String → Result Uri := fun _ => .ok
      { scheme := some "http", authority := some ⟨"a.com", "a.com", none⟩, pathAndQuery := some "/",
        path := "/" }
    let request : ConnectRequest :=
      { destination := "http://a.com/", connectionType := .http,
        metadata := [⟨"HttpHeader:X-Forwarded-For", "10.0.0.1"⟩] }
    let metadata : List Metadata := [⟨"HttpHeader:X-Forwarded-For", "10.0.0.1, 10.0.0.2"⟩]
    ∃ first second : Session, request.HandsOver parseUri "in" first ∧
      { request with metadata }.HandsOver parseUri "in" second ∧ first.source = second.source := by
  intro parseUri request metadata
  let session : Session :=
    { network := .tcp, source := some ⟨.v4 0x0a000001#32, 0⟩, destination := ⟨"a.com", 80⟩,
      inbound := "in" }
  have hfirst : request.HandsOver parseUri "in" session := .inl (by decide)
  have hsecond : { request with metadata }.HandsOver parseUri "in" session := .inl (by decide)
  refine ⟨session, session, hfirst, hsecond, (same_source_iff hfirst hsecond).mpr ?_⟩
  exact (sourceForRequest_eq_iff _ _).mp (by decide)

end SingBox.Cloudflared.ConnectRequest
