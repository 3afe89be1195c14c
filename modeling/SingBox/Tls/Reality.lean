import SingBox.Core.Dialer
import SingBox.Library.Relay

namespace SingBox.Tls

open Library
open Core (SocketAddr SystemDialer)

-- b"REALITY"
def REALITY_INFO : Bytes := [82, 69, 65, 76, 73, 84, 89]
def REALITY_SESSION_ID_LEN : Nat := 32
def REALITY_PAYLOAD_LEN : Nat := 16
def REALITY_KEY_LEN : Nat := 32

-- What `rustls` shows of a ClientHello: the parts that are looked at, and the whole message.
structure Accepted where
  sessionId : Bytes
  serverName : Option String
  -- that of `NamedGroup::X25519`
  keyShare : Option Bytes
  random : Bytes
  random_length : random.length = 32
  encoded : Bytes

-- `tokio_rustls::StartHandshake`. What has been read beyond the hello is not in `io` any more.
structure StartHandshake (ρ : Type) where
  accepted : Accepted
  io : ρ

-- X25519, HKDF with SHA-256, and AES-256-GCM.
structure Crypto where
  agree : (privateKey peerKey : Bytes) → Option Bytes
  hkdf : (salt shared info : Bytes) → Option Bytes
  openInPlace : (key nonce aad ciphertext : Bytes) → Option Bytes

structure RealityAcceptor where
  serverName : String
  privateKey : Bytes
  handshakeServer : String
  handshakePort : UInt16
  shortIds : List Bytes
  -- in seconds
  maxTimeDifference : Option Nat
  systemDialer : SystemDialer

-- How an accepted connection goes on.
inductive Accepting (ρ ω : Type) where
  | resumes (start : StartHandshake ρ) (authKey : Bytes)
  | relays (relay : Relay ρ ω) (encoded : Bytes)

-- `u64::abs_diff`
def absDiff (left right : Nat) : Nat := (left - right) + (right - left)

namespace RealityAcceptor

-- `now` is what the clock says, in seconds since 1970.
def authenticate (crypto : Crypto) (now : Nat) (this : RealityAcceptor) (accepted : Accepted) :
    Option Bytes := do
  guard (accepted.sessionId.length = REALITY_SESSION_ID_LEN)
  guard (accepted.serverName = some this.serverName)
  let peerKey ← accepted.keyShare
  guard (peerKey.length = REALITY_KEY_LEN)
  let shared ← crypto.agree this.privateKey peerKey
  let authKey ← crypto.hkdf (accepted.random.take 20) shared REALITY_INFO
  guard (71 ≤ accepted.encoded.length)
  let aad := accepted.encoded.take 39 ++ List.replicate 32 0 ++ accepted.encoded.drop 71
  let plain ← crypto.openInPlace authKey (accepted.random.drop 20) aad accepted.sessionId
  guard (REALITY_PAYLOAD_LEN ≤ plain.length)
  guard (this.shortIds.contains ((plain.drop 8).take 8))
  guard (this.maxTimeDifference.all fun maxDifference =>
    absDiff now (ofBe ((plain.drop 4).take 4)) ≤ maxDifference)
  return authKey

end RealityAcceptor

variable {ρ ω : Type}

-- The first address that can be connected to, and else the last error.
def firstConnection (connect : SocketAddr → Result ω) :
    Option (List String) → List SocketAddr → Result ω
  | lastError, [] => .error (lastError.getD ["connect Reality handshake server"])
  | _, address :: addresses =>
      match connect address with
      | .ok upstream => .ok upstream
      | .error chain => firstConnection connect (some chain) addresses

-- The record for a hello.
def helloRecord (encoded : Bytes) : Bytes :=
  [22, 3, 1, UInt8.ofNat (encoded.length >>> 8), UInt8.ofNat encoded.length] ++ encoded

-- What is sent to the handshake server: `copy_bidirectional` goes on with what the client sends.
def relayTo [AsyncRead ρ] [AsyncWrite ω] (encoded : Bytes) (polls : Nat) : Async (Relay ρ ω) Unit := do
  Async.ensure (encoded.length ≤ 65535) "Reality ClientHello is too large"
  Async.writeAll (helloRecord encoded) polls
  let _ ← Relay.copy none polls

namespace RealityAcceptor

-- Up to the connection with the handshake server.
def relayInvalid (lookupHost : String → UInt16 → Result (List SocketAddr))
    (connect : SocketAddr → Result ω) (this : RealityAcceptor) (start : StartHandshake ρ) :
    Result (Accepting ρ ω) := do
  let addresses ← this.systemDialer.resolve lookupHost this.handshakeServer this.handshakePort
  let upstream ← firstConnection connect none addresses
  return .relays ⟨start.io, upstream⟩ start.accepted.encoded

-- `start` is what `LazyConfigAcceptor` comes to.
def accept (crypto : Crypto) (now : Nat) (lookupHost : String → UInt16 → Result (List SocketAddr))
    (connect : SocketAddr → Result ω) (this : RealityAcceptor) (start : Result (StartHandshake ρ)) :
    Result (Accepting ρ ω) := do
  let start ← Result.withContext "read Reality ClientHello" start
  match this.authenticate crypto now start.accepted with
  | some authKey => return .resumes start authKey
  | none => this.relayInvalid lookupHost connect start

end RealityAcceptor

theorem firstConnection_ok {connect : SocketAddr → Result ω} {upstream : ω}
    {lastError : Option (List String)} {addresses : List SocketAddr}
    (h : firstConnection connect lastError addresses = .ok upstream) :
    ∃ address ∈ addresses, connect address = .ok upstream := by
  induction addresses generalizing lastError with
  | nil => cases h
  | cons address addresses ih =>
      rw [firstConnection] at h
      split at h
      case h_1 found hfound =>
        cases h
        exact ⟨address, List.mem_cons_self, hfound⟩
      case h_2 chain hchain =>
        obtain ⟨other, hmem, hother⟩ := ih h
        exact ⟨other, List.mem_cons_of_mem _ hmem, hother⟩

-- A client is relayed when it has been rejected and the handshake server can be reached.
theorem accept_relays {crypto : Crypto} {now : Nat}
    {lookupHost : String → UInt16 → Result (List SocketAddr)} {connect : SocketAddr → Result ω}
    {this : RealityAcceptor} {start : StartHandshake ρ} {relay : Relay ρ ω} {encoded : Bytes}
    (h : this.accept crypto now lookupHost connect (.ok start) = .ok (.relays relay encoded)) :
    this.authenticate crypto now start.accepted = none ∧ encoded = start.accepted.encoded ∧
      relay.reader = start.io ∧ ∃ address, connect address = .ok relay.writer := by
  have hstart : (this.authenticate crypto now start.accepted).elim
      (this.relayInvalid lookupHost connect start) (fun authKey => .ok (.resumes start authKey)) =
      .ok (.relays relay encoded) := by
    rw [← h]
    show _ = (match this.authenticate crypto now start.accepted with
      | some authKey => _
      | none => _ : Result (Accepting ρ ω))
    cases this.authenticate crypto now start.accepted <;> rfl
  cases hrejects : this.authenticate crypto now start.accepted with
  | some authKey =>
      rw [hrejects] at hstart
      cases hstart
  | none =>
      rw [hrejects] at hstart
      obtain ⟨addresses, -, hstart⟩ := Result.bind_eq_ok.mp hstart
      obtain ⟨upstream, hupstream, hstart⟩ := Result.bind_eq_ok.mp hstart
      cases hstart
      obtain ⟨address, -, hconnect⟩ := firstConnection_ok hupstream
      exact ⟨rfl, rfl, rfl, address, hconnect⟩

end SingBox.Tls
