import Mathlib.Data.Bool.AllAny
import Mathlib.Data.List.TakeWhile
import SingBox.Cli.RuleSetFetcher.Urls
import SingBox.Core.Dialer
import SingBox.Core.Ip.Text
import SingBox.Hysteria2.Masquerade.Proxy

namespace SingBox

open Library Core
open Cli (ParsedUrl containsAny parseAuthority)
open Cloudflared (Authority ConnectionType Uri destinationForRequest splitHostPort)
open Hysteria2 (ProxyTarget)

-- An IPv6 address as it is written, with the port and the path behind it.
structure LiteralUrl where
  text : List Char
  address : BitVec 128
  port : UInt16
  path : List Char
  reads : IpAddr.fromStr text = some (.v6 address)
  path_head : path.head? = some '/'
  path_chars : ∀ char ∈ path, char ∉ ['?', '#', ' ', '\r', '\n']

namespace LiteralUrl

def bracketed (this : LiteralUrl) : List Char := '[' :: (this.text ++ [']'])

def authority (this : LiteralUrl) : List Char :=
  this.bracketed ++ ':' :: Nat.toDigits 10 this.port.toNat

def url (this : LiteralUrl) (scheme : String) : String :=
  String.ofList (scheme.toList ++ ("://".toList ++ (this.authority ++ this.path)))

-- What the `http` crate finds in it: the host keeps its brackets.
def uri (this : LiteralUrl) (scheme : String) : Uri where
  scheme := some scheme
  authority := some
    { text := String.ofList this.authority, host := String.ofList this.bracketed, port := some this.port }
  pathAndQuery := some (String.ofList this.path)
  path := String.ofList this.path

-- The dialer takes the host as the address, and a rule for destination addresses does.
structure Reaches (this : LiteralUrl) (destination : Address) : Prop where
  host : destination.host.toList = this.text
  port : destination.port = this.port
  dialed : ∀ (lookupHost : String → UInt16 → Result (List SocketAddr)) (dialer : SystemDialer),
    dialer.resolve lookupHost destination.host destination.port =
      .ok [⟨.v6 this.address, this.port⟩]
  seen : ∀ (cidr : IpCidr) (session : Session), session.destination = destination →
    (RuleMatcher.ofCidr cidr).matchesBase session = cidr.contains (.v6 this.address)

end LiteralUrl

-- What takes a destination from a text.
inductive UrlReader where
  | tunnel (websocket : Bool) (scheme : String)
  | tunnelTcp
  | proxy (https : Bool)
  | fetcher (https : Bool)

namespace UrlReader

def schemeOf (https : Bool) : String := if https then "https" else "http"

-- The scheme of the URL, where it is read by the `http` crate.
def crateScheme : UrlReader → Option String
  | tunnel _ scheme => some scheme
  | proxy https => some (schemeOf https)
  | tunnelTcp => none
  | fetcher _ => none

def input (literal : LiteralUrl) : UrlReader → String
  | tunnel _ scheme => literal.url scheme
  | tunnelTcp => String.ofList literal.authority
  | proxy https => literal.url (schemeOf https)
  | fetcher https => literal.url (schemeOf https)

def destination (parseUri : String → Result Uri) (value : String) : UrlReader → Result Address
  | tunnel websocket _ =>
      (destinationForRequest parseUri value (if websocket then .websocket else .http)).map Prod.snd
  | tunnelTcp => (destinationForRequest parseUri value .tcp).map Prod.snd
  | proxy _ => do
      let target ← ProxyTarget.parse parseUri value
      target.destination
  -- the client connects to the pair of host and port
  | fetcher _ => do
      let url ← ParsedUrl.parse value
      return { host := url.host, port := UInt16.ofNat url.port }

end UrlReader

namespace LiteralUrl

variable (this : LiteralUrl)

theorem text_chars : ∀ char ∈ this.text, addressChar char = true := IpAddr.fromStr_chars this.reads

theorem text_ne_nil : this.text ≠ [] := by
  intro hnil
  have hreads := this.reads
  have hnone : IpAddr.fromStr [] = none := by decide
  rw [hnil, hnone] at hreads
  cases hreads

theorem authority_chars : ∀ char ∈ this.authority, addressChar char = true ∨ char ∈ ['[', ']'] := by
  have hdigits : ∀ char ∈ Nat.toDigits 10 this.port.toNat, addressChar char = true := by
    intro char hin
    have hdigit := Nat.isDigit_of_mem_toDigits (by decide) (by decide) hin
    simp [addressChar, Char.isAlphanum, hdigit]
  intro char hin
  obtain hhost | htail := List.mem_append.mp hin
  · obtain rfl | hrest := List.mem_cons.mp hhost
    · exact .inr (by decide)
    · obtain htext | hclose := List.mem_append.mp hrest
      · exact .inl (this.text_chars char htext)
      · obtain rfl := List.mem_singleton.mp hclose
        exact .inr (by decide)
  · obtain rfl | hport := List.mem_cons.mp htail
    · exact .inl (by decide)
    · exact .inl (hdigits char hport)

theorem notMem_authority {char : Char} (h : addressChar char = false) (hmark : char ∉ ['[', ']']) :
    char ∉ this.authority := by
  intro hin
  obtain haddress | hbracket := this.authority_chars char hin
  · rw [h] at haddress
    exact Bool.false_ne_true haddress
  · exact hmark hbracket

theorem parse_port : parseUnsigned 65536 (Nat.toDigits 10 this.port.toNat) = .ok this.port.toNat :=
  parseUnsigned_toDigits this.port.toNat_lt

theorem splitOnce_close (rest : List Char) :
    splitOnce ']' (this.text ++ ']' :: rest) = some (this.text, rest) := by
  refine splitOnce_append fun hin => ?_
  exact absurd (this.text_chars ']' hin) (by decide)

theorem authority_eq :
    this.authority = '[' :: (this.text ++ ']' :: ':' :: Nat.toDigits 10 this.port.toNat) := by
  rw [authority, bracketed, List.cons_append, List.append_assoc]
  rfl

theorem splitHostPort_authority : splitHostPort this.authority = .ok (this.text, this.port) := by
  rw [this.authority_eq, splitHostPort]
  simp only [this.splitOnce_close, Result.ofOption, this.parse_port, Result.withContext, Bind.bind,
    Except.bind, UInt16.ofNat_toNat]
  rfl

section

variable {parseUri : String → Result Uri} {scheme : String}
  (h : parseUri (this.url scheme) = .ok (this.uri scheme))

include h

theorem destinationForRequest_uri (websocket : Bool) :
    destinationForRequest parseUri (this.url scheme) (if websocket then .websocket else .http) =
      .ok (.tcp, ⟨String.ofList this.bracketed, this.port⟩) := by
  have hkind : (if websocket then ConnectionType.websocket else .http) = .http ∨
      (if websocket then ConnectionType.websocket else .http) = .websocket := by
    cases websocket with
    | false => exact .inl rfl
    | true => exact .inr rfl
  rw [destinationForRequest, if_pos hkind, h]
  have hnew : Address.new (String.ofList this.bracketed) this.port =
      .ok ⟨String.ofList this.bracketed, this.port⟩ :=
    Address.new_ofList this.port (List.cons_ne_nil '[' (this.text ++ [']']))
  simp only [Result.withContext, Result.ofOption, uri, Bind.bind, Except.bind, Option.getD_some, hnew]
  rfl

theorem proxyTarget_uri {https : Bool} (hscheme : scheme = UrlReader.schemeOf https) :
    ∃ target, ProxyTarget.parse parseUri (this.url scheme) = .ok target ∧
      target.host = String.ofList this.bracketed ∧ target.port = this.port := by
  have hat : (String.ofList this.authority).toList.contains '@' = false := by
    rw [String.toList_ofList, List.contains_eq_mem]
    exact decide_eq_false (this.notMem_authority (by decide) (by decide))
  cases https with
  | false =>
      obtain rfl : scheme = "http" := hscheme
      simp only [ProxyTarget.parse, h, Result.withContext, Result.ofOption, Result.ensure, uri, Bind.bind,
        Except.bind, hat, Option.map_some, Option.getD_some]
      exact ⟨_, rfl, rfl, rfl⟩
  | true =>
      obtain rfl : scheme = "https" := hscheme
      simp only [ProxyTarget.parse, h, Result.withContext, Result.ofOption, Result.ensure, uri, Bind.bind,
        Except.bind, hat, Option.map_some, Option.getD_some]
      exact ⟨_, rfl, rfl, rfl⟩

end

theorem url_toList (scheme : String) :
    (this.url scheme).toList = scheme.toList ++ ("://".toList ++ (this.authority ++ this.path)) :=
  String.toList_ofList

theorem parseAuthority_literal (defaultPort : Nat) :
    parseAuthority this.authority defaultPort = .ok (this.text, this.port.toNat) := by
  have hsome : (!this.text.isEmpty) = true := by
    rw [Bool.not_eq_true', List.isEmpty_eq_false_iff]
    exact this.text_ne_nil
  have hport : parseUnsigned (2 ^ 16) (Nat.toDigits 10 this.port.toNat) = .ok this.port.toNat :=
    this.parse_port
  rw [this.authority_eq, parseAuthority]
  simp only [this.splitOnce_close, Result.ofOption, hport, Bind.bind, Except.bind, hsome]
  rfl

theorem sound_authority : Cli.Sound this.authority := by
  refine ⟨List.cons_ne_nil _ _, fun char hmem => ⟨fun hmark => ?_, ?_⟩⟩
  · have hchar : ∀ mark ∈ Uri.delimiters, addressChar mark = false ∧ mark ∉ ['[', ']'] :=
      List.all_iff_forall_prop.mp (by decide)
    exact this.notMem_authority (hchar char hmark).1 (hchar char hmark).2 hmem
  · rintro rfl
    exact this.notMem_authority (by decide) (by decide) hmem

-- The authority goes up to the path, and the path has neither a query nor a fragment.
theorem parseAs_literal (https : Bool) (scheme : String) (defaultPort : Nat) :
    ∃ url, ParsedUrl.parseAs https scheme defaultPort (this.authority ++ this.path) = .ok url ∧
      url.host = String.ofList this.text ∧ url.port = this.port.toNat := by
  have hfragment : this.path.takeWhile (· ≠ '#') = this.path := by
    rw [List.takeWhile_eq_self_iff]
    intro char hin
    refine decide_eq_true fun hmark => this.path_chars char hin ?_
    rw [hmark]
    decide
  have htarget : Cli.targetOf this.path = this.path := by
    have hhead := this.path_head
    cases hpath : this.path with
    | nil =>
        rw [hpath] at hhead
        cases hhead
    | cons char rest =>
        rw [hpath] at hhead
        rw [show char = '/' from Option.some.inj hhead]
        rfl
  have hblank : containsAny ['\r', '\n', ' '] this.path = false := by
    refine Cli.containsAny_eq_false.mpr fun char hin hmark => ?_
    have hsub : ∀ mark ∈ ['\r', '\n', ' '], mark ∈ ['?', '#', ' ', '\r', '\n'] :=
      List.all_iff_forall_prop.mp (by decide)
    exact this.path_chars char hin (hsub char hmark)
  have hslash : ∃ char ∈ Uri.delimiters, this.path.head? = some char := ⟨'/', by decide, this.path_head⟩
  rw [Cli.parseAs_append this.sound_authority (.inr hslash), hfragment, htarget, hblank,
    this.parseAuthority_literal]
  exact ⟨_, rfl, rfl, rfl⟩

theorem parse_literal (https : Bool) :
    ∃ url, ParsedUrl.parse (this.url (UrlReader.schemeOf https)) = .ok url ∧
      url.host = String.ofList this.text ∧ url.port = this.port.toNat := by
  unfold ParsedUrl.parse
  rw [url_toList]
  cases https with
  | false =>
      obtain ⟨url, hurl⟩ := this.parseAs_literal false "http" 80
      exact ⟨url, hurl⟩
  | true =>
      obtain ⟨url, hurl⟩ := this.parseAs_literal true "https" 443
      exact ⟨url, hurl⟩

theorem reaches_text : this.Reaches ⟨String.ofList this.text, this.port⟩ := by
  have hreads : IpAddr.fromStr (String.ofList this.text).toList = some (.v6 this.address) := by
    rw [String.toList_ofList]
    exact this.reads
  refine ⟨String.toList_ofList, rfl, ?_, ?_⟩
  · intro lookupHost dialer
    simp only [SystemDialer.resolve, hreads]
  · intro cidr session hsession
    rw [RuleMatcher.ofCidr_matches, hsession, hreads]
    rfl

theorem not_reaches_bracketed : ¬this.Reaches ⟨String.ofList this.bracketed, this.port⟩ := by
  intro hreaches
  have htext : this.bracketed = this.text := String.toList_ofList.symm.trans hreaches.host
  have hmark : '[' ∈ this.text := htext ▸ List.mem_cons_self
  exact absurd (this.text_chars '[' hmark) (by decide)

-- What becomes of a host in brackets instead: a name to look up, and no address to a rule.
theorem bracketed_lookup (lookupHost : String → UInt16 → Result (List SocketAddr)) :
    ({ } : SystemDialer).resolve lookupHost (String.ofList this.bracketed) this.port =
      lookupHost (String.ofList this.bracketed) this.port := by
  have hnone : IpAddr.fromStr (String.ofList this.bracketed).toList = none := by
    rw [String.toList_ofList]
    exact IpAddr.fromStr_bracketed _
  simp only [SystemDialer.resolve, hnone]

theorem bracketed_unseen (cidr : IpCidr) {session : Session}
    (h : session.destination.host = String.ofList this.bracketed) :
    (RuleMatcher.ofCidr cidr).matchesBase session = false := by
  rw [RuleMatcher.ofCidr_matches, h, String.toList_ofList, bracketed, IpAddr.fromStr_bracketed]
  rfl

end LiteralUrl

namespace UrlReader

variable {parseUri : String → Result Uri} (literal : LiteralUrl) {reader : UrlReader}

theorem destination_stripped (h : reader.crateScheme = none) :
    reader.destination parseUri (reader.input literal) =
      .ok ⟨String.ofList literal.text, literal.port⟩ := by
  cases reader with
  | tunnel websocket scheme => cases h
  | proxy https => cases h
  | tunnelTcp =>
      have hnew := Address.new_ofList literal.port literal.text_ne_nil
      rw [destination, input, destinationForRequest, if_neg (by decide), String.toList_ofList,
        literal.splitHostPort_authority]
      simp only [Bind.bind, Except.bind, hnew]
      rfl
  | fetcher https =>
      obtain ⟨url, hurl, hhost, hport⟩ := literal.parse_literal https
      have hback : UInt16.ofNat url.port = literal.port := by rw [hport, UInt16.ofNat_toNat]
      rw [destination, input, hurl]
      simp only [Bind.bind, Except.bind, hhost, hback]
      rfl

theorem destination_bracketed {scheme : String} (hscheme : reader.crateScheme = some scheme)
    (hcrate : parseUri (literal.url scheme) = .ok (literal.uri scheme)) :
    reader.destination parseUri (reader.input literal) =
      .ok ⟨String.ofList literal.bracketed, literal.port⟩ := by
  cases reader with
  | tunnel websocket _ =>
      obtain rfl := Option.some.inj hscheme
      rw [destination, input, literal.destinationForRequest_uri hcrate]
      rfl
  | proxy https =>
      obtain rfl := Option.some.inj hscheme
      obtain ⟨target, htarget, hhost, hport⟩ := literal.proxyTarget_uri hcrate rfl
      rw [destination, input, htarget]
      change Address.new target.host target.port = _
      rw [hhost, hport]
      exact Address.new_ofList literal.port (List.cons_ne_nil '[' (literal.text ++ [']']))
  | tunnelTcp => cases hscheme
  | fetcher https => cases hscheme

end UrlReader

-- The two parsers of this repository take the brackets off, the readers of `http::Uri` do not.
theorem literals_unbracketed_iff (parseUri : String → Result Uri) (literal : LiteralUrl)
    (reader : UrlReader)
    (hcrate : ∀ scheme, reader.crateScheme = some scheme →
      parseUri (literal.url scheme) = .ok (literal.uri scheme)) :
    (∃ destination, reader.destination parseUri (reader.input literal) = .ok destination ∧
      literal.Reaches destination) ↔ reader.crateScheme = none := by
  constructor
  · rintro ⟨destination, hdestination, hreaches⟩
    cases hscheme : reader.crateScheme with
    | none => rfl
    | some scheme =>
        have hbracketed := UrlReader.destination_bracketed literal hscheme (hcrate scheme hscheme)
        obtain rfl := Except.ok.inj (hbracketed.symm.trans hdestination)
        exact absurd hreaches literal.not_reaches_bracketed
  · intro hnone
    exact ⟨_, UrlReader.destination_stripped literal hnone, literal.reaches_text⟩

theorem loopback_path : ∀ char ∈ ['/'], char ∉ ['?', '#', ' ', '\r', '\n'] :=
  List.all_iff_forall_prop.mp (by decide)

def LOOPBACK_URL : LiteralUrl where
  text := "::1".toList
  address := 1
  port := 8080
  path := ['/']
  reads := by decide
  path_head := rfl
  path_chars := loopback_path

-- An HTTP request through the tunnel for `http://[::1]:8080/`.
theorem not_literals_unbracketed :
    ¬∀ (parseUri : String → Result Uri) (literal : LiteralUrl) (reader : UrlReader),
      (∀ scheme, reader.crateScheme = some scheme →
        parseUri (literal.url scheme) = .ok (literal.uri scheme)) →
      ∃ destination, reader.destination parseUri (reader.input literal) = .ok destination ∧
        literal.Reaches destination := by
  intro hall
  obtain ⟨destination, hdestination, hreaches⟩ := hall (fun _ => .ok (LOOPBACK_URL.uri "http"))
    LOOPBACK_URL (.tunnel false "http") (by rintro scheme ⟨⟩; rfl)
  have hbracketed : (UrlReader.tunnel false "http").destination
      (fun _ => .ok (LOOPBACK_URL.uri "http")) ((UrlReader.tunnel false "http").input LOOPBACK_URL) =
        .ok ⟨String.ofList LOOPBACK_URL.bracketed, LOOPBACK_URL.port⟩ :=
    UrlReader.destination_bracketed LOOPBACK_URL rfl rfl
  obtain rfl := Except.ok.inj (hbracketed.symm.trans hdestination)
  exact LOOPBACK_URL.not_reaches_bracketed hreaches

theorem literals_unbracketed_loopback :
    (∃ destination, (UrlReader.fetcher true).destination (fun _ => Result.bail "") "https://[::1]:8080/" =
        .ok destination ∧ LOOPBACK_URL.Reaches destination) ∧
    ¬∃ destination, (UrlReader.proxy true).destination (fun _ => .ok (LOOPBACK_URL.uri "https"))
        "https://[::1]:8080/" = .ok destination ∧ LOOPBACK_URL.Reaches destination := by
  have htext : LOOPBACK_URL.url "https" = "https://[::1]:8080/" := by decide
  constructor
  · have hfetched := (literals_unbracketed_iff (fun _ => Result.bail "") LOOPBACK_URL (.fetcher true)
      (by rintro scheme ⟨⟩)).mpr rfl
    rw [← htext]
    exact hfetched
  · intro hproxied
    rw [← htext] at hproxied
    have hnone := (literals_unbracketed_iff (fun _ => .ok (LOOPBACK_URL.uri "https")) LOOPBACK_URL
      (.proxy true) (by rintro scheme ⟨⟩; rfl)).mp hproxied
    cases hnone

end SingBox
