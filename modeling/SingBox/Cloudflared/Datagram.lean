import SingBox.Core.Ip.Printed

namespace SingBox.Cloudflared

open Library SingBox.Core

def DATAGRAM_V3_REGISTRATION : UInt8 := 0
def DATAGRAM_V3_PAYLOAD : UInt8 := 1
def DATAGRAM_V3_REGISTRATION_RESPONSE : UInt8 := 3
def DATAGRAM_V3_FLAG_IPV6 : UInt8 := 0x01
def DATAGRAM_V3_FLAG_BUNDLE : UInt8 := 0x04
def DATAGRAM_V3_REQUEST_ID_LENGTH : Nat := 16
def DATAGRAM_V3_MAX_PAYLOAD : Nat := 1280

-- Durations and instants are in nanoseconds.
def ofSeconds (seconds : Nat) : Nat := seconds * 1000000000

def DEFAULT_DATAGRAM_IDLE : Nat := ofSeconds 210

structure RequestId where
  bytes : Bytes
  length_bytes : bytes.length = DATAGRAM_V3_REQUEST_ID_LENGTH
deriving DecidableEq

-- `copy_from_slice` into `[0u8; 16]`: the slices it is given have 16 bytes.
def RequestId.fromSlice (slice : Bytes) : RequestId where
  bytes := (slice ++ List.replicate DATAGRAM_V3_REQUEST_ID_LENGTH 0).take
    DATAGRAM_V3_REQUEST_ID_LENGTH
  length_bytes := by simp

-- The datagrams this side sends.
inductive Datagram where
  | registrationResponse (requestId : RequestId) (response : UInt8)
  | payload (requestId : RequestId) (data : Bytes)
deriving DecidableEq

inductive DatagramVersion where
  | v2
  | v3
deriving DecidableEq, Repr

def Datagram.encode (version : DatagramVersion) : Datagram → Bytes
  | .registrationResponse requestId response =>
      [DATAGRAM_V3_REGISTRATION_RESPONSE, response] ++ requestId.bytes ++ toBe 2 0
  | .payload requestId data =>
      match version with
      | .v3 => [DATAGRAM_V3_PAYLOAD] ++ requestId.bytes ++ data
      | .v2 => data ++ requestId.bytes ++ [0]

structure Registration where
  requestId : RequestId
  destination : Address
  payload : Bytes
  idleTimeout : Nat
deriving DecidableEq

def parseRegistration (data : Bytes) : Result Registration := do
  Result.ensure (5 + DATAGRAM_V3_REQUEST_ID_LENGTH ≤ data.length)
    "Cloudflare UDP registration is too short"
  let flags := data.getD 0 0
  let port := UInt16.ofNat (ofBe ((data.drop 1).take 2))
  let idleSeconds := ofBe ((data.drop 3).take 2)
  let idleTimeout := if idleSeconds = 0 then DEFAULT_DATAGRAM_IDLE else ofSeconds idleSeconds
  let requestId := RequestId.fromSlice ((data.drop 5).take DATAGRAM_V3_REQUEST_ID_LENGTH)
  let offset := 5 + DATAGRAM_V3_REQUEST_ID_LENGTH
  let (host, addressLen) ← readHost flags (data.drop offset)
  let destination ← Address.new host port
  let payloadOffset := offset + addressLen
  let payload := if flags &&& DATAGRAM_V3_FLAG_BUNDLE ≠ 0 then data.drop payloadOffset else []
  return { requestId, destination, payload, idleTimeout }
where
  readHost (flags : UInt8) (rest : Bytes) : Result (String × Nat) := do
    if flags &&& DATAGRAM_V3_FLAG_IPV6 ≠ 0 then
      Result.ensure (16 ≤ rest.length) "Cloudflare IPv6 UDP registration is too short"
      return (String.ofList (IpAddr.ipv6Text (BitVec.ofNat 128 (ofBe (rest.take 16)))), 16)
    else
      Result.ensure (4 ≤ rest.length) "Cloudflare IPv4 UDP registration is too short"
      return (String.ofList (IpAddr.ipv4Text (BitVec.ofNat 32 (ofBe (rest.take 4)))), 4)

example :
    parseRegistration ([4] ++ toBe 2 53 ++ toBe 2 30 ++ List.replicate 16 9 ++ [1, 1, 1, 1] ++
        [100, 110, 115]) =
      .ok { requestId := RequestId.fromSlice (List.replicate 16 9)
            destination := { host := "1.1.1.1", port := 53 }
            payload := [100, 110, 115], idleTimeout := ofSeconds 30 } := by
  decide +kernel

-- The address of a registration, and a registration up to the end of it.
def addressLength (flags : UInt8) : Nat := if flags &&& DATAGRAM_V3_FLAG_IPV6 ≠ 0 then 16 else 4

def registrationLength (data : Bytes) : Nat :=
  5 + DATAGRAM_V3_REQUEST_ID_LENGTH + addressLength (data.getD 0 0)

theorem readHost_ok {flags : UInt8} {rest : Bytes} (h : addressLength flags ≤ rest.length) :
    ∃ text, text ≠ [] ∧
      parseRegistration.readHost flags rest = .ok (String.ofList text, addressLength flags) := by
  unfold addressLength at h ⊢
  unfold parseRegistration.readHost
  split at h
  · rename_i hflag
    refine ⟨_, ipv6Text_ne_nil (BitVec.ofNat 128 (ofBe (rest.take 16))), ?_⟩
    rw [if_pos hflag, if_pos hflag]
    simp [Result.ensure, h]
  · rename_i hflag
    refine ⟨_, ipv4Text_ne_nil (BitVec.ofNat 32 (ofBe (rest.take 4))), ?_⟩
    rw [if_neg hflag, if_neg hflag]
    simp [Result.ensure, h]

theorem readHost_error {flags : UInt8} {rest : Bytes} (h : rest.length < addressLength flags) :
    ∃ chain, parseRegistration.readHost flags rest = .error chain := by
  unfold addressLength at h
  unfold parseRegistration.readHost
  split at h
  · rename_i hflag
    rw [if_pos hflag]
    exact ⟨_, by simp [Result.ensure, Result.bail, Nat.not_le.mpr h]; rfl⟩
  · rename_i hflag
    rw [if_neg hflag]
    exact ⟨_, by simp [Result.ensure, Result.bail, Nat.not_le.mpr h]; rfl⟩

-- Nothing but its length is wrong with a registration.
theorem parseRegistration_ok_iff (data : Bytes) :
    (∃ registration, parseRegistration data = .ok registration) ↔
      registrationLength data ≤ data.length := by
  unfold registrationLength
  by_cases hheader : 5 + DATAGRAM_V3_REQUEST_ID_LENGTH ≤ data.length
  · have hrest : (data.drop (5 + DATAGRAM_V3_REQUEST_ID_LENGTH)).length =
        data.length - (5 + DATAGRAM_V3_REQUEST_ID_LENGTH) := List.length_drop
    by_cases haddress : addressLength (data.getD 0 0) ≤
        (data.drop (5 + DATAGRAM_V3_REQUEST_ID_LENGTH)).length
    · refine ⟨fun _ => by omega, fun _ => ?_⟩
      obtain ⟨text, htext, hhost⟩ := readHost_ok haddress
      simp only [parseRegistration, Result.ensure, hheader, decide_true, if_true, hhost, Bind.bind,
        Except.bind, Address.new_ofList _ htext]
      exact ⟨_, rfl⟩
    · obtain ⟨chain, hhost⟩ := readHost_error (Nat.not_le.mp haddress)
      refine ⟨fun hok => ?_, fun h => by omega⟩
      obtain ⟨registration, hr⟩ := hok
      obtain ⟨_, _, hr⟩ := Result.bind_eq_ok.mp hr
      obtain ⟨_, hok, _⟩ := Result.bind_eq_ok.mp hr
      rw [hhost] at hok
      cases hok
  · refine ⟨fun hok => ?_, fun h => by omega⟩
    obtain ⟨registration, hr⟩ := hok
    obtain ⟨_, hensure, _⟩ := Result.bind_eq_ok.mp hr
    exact absurd (of_decide_eq_true (Result.ensure_eq_ok.mp hensure)) hheader

end SingBox.Cloudflared
