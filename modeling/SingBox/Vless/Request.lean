import SingBox.Core.Ip.Printed
import SingBox.Core.Rule
import SingBox.Library.Async
import SingBox.Library.Utf8

namespace SingBox.Vless

open Library
open Core (Address IpAddr)
open Utf8 (encode)

def VLESS_VERSION : UInt8 := 0
def VLESS_COMMAND_TCP : UInt8 := 1

abbrev Uuid := { bytes : Bytes // bytes.length = 16 }

-- The hash map from the ids of the users to their names.
abbrev Users := Uuid → Option String

def Users.get (users : Users) (bytes : Bytes) : Option String :=
  if h : bytes.length = 16 then users ⟨bytes, h⟩ else none

def encodeAddress (host : String) : Result Bytes :=
  match IpAddr.fromStr host.toList with
  | some (.v4 address) => .ok (1 :: toBe 4 address.toNat)
  | some (.v6 address) => .ok (3 :: toBe 16 address.toNat)
  | none => do
      Result.ensure ((encode host).length ≤ 255) "VLESS domain is too long"
      return 2 :: UInt8.ofNat (encode host).length :: encode host

def encodeVlessRequest (uuid : Uuid) (destination : Address) : Result Bytes := do
  let address ← encodeAddress destination.host
  return VLESS_VERSION :: uuid.val ++ [0, VLESS_COMMAND_TCP] ++
    toBe 2 destination.port.toNat ++ address

section

variable {σ : Type} [AsyncRead σ]

open Async (readExact)

def readByte (polls : Nat) : Async σ UInt8 := do
  let bytes ← readExact 1 polls
  return bytes.getD 0 0

def readHost (addressType : UInt8) (polls : Nat) : Async σ String :=
  if addressType = 1 then do
    let address ← readExact 4 polls
    return String.ofList (IpAddr.ipv4Text (BitVec.ofNat 32 (ofBe address)))
  else if addressType = 2 then do
    let length ← readByte polls
    let domain ← readExact length.toNat polls
    Async.ofResult (Result.ofOption "VLESS domain is not UTF-8" (Utf8.decode domain))
  else if addressType = 3 then do
    let address ← readExact 16 polls
    return String.ofList (IpAddr.ipv6Text (BitVec.ofNat 128 (ofBe address)))
  else Async.ofResult (Result.bail s!"unsupported VLESS address type: {addressType}")

def readVlessRequest (users : Users) (polls : Nat) : Async σ (Address × String) := do
  let version ← readByte polls
  Async.ensure (version = VLESS_VERSION) "unsupported VLESS version"
  let uuid ← readExact 16 polls
  let user ← Async.ofResult (Result.ofOption "invalid VLESS user UUID" (users.get uuid))
  let addonsLen ← readByte polls
  let _ ← readExact addonsLen.toNat polls
  let command ← readByte polls
  Async.ensure (command = VLESS_COMMAND_TCP) "VLESS UDP is not implemented"
  let port ← readExact 2 polls
  let addressType ← readByte polls
  let host ← readHost addressType polls
  let address ← Async.ofResult (Address.new host (UInt16.ofNat (ofBe port)))
  return (address, user)

end

-- What an address looks like when it has been printed.
def canonicalHost (host : String) : String :=
  match IpAddr.fromStr host.toList with
  | some (.v4 address) => String.ofList (IpAddr.ipv4Text address)
  | some (.v6 address) => String.ofList (IpAddr.ipv6Text address)
  | none => host

section

variable {σ : Type} [AsyncRead σ] {source : Source σ}

theorem reads_byte (byte : UInt8) : source.Reads readByte byte [byte] :=
  (Source.Reads.exact [byte]).bind_last (Source.Reads.pure byte)

-- The address kinds, each with its own bytes.
theorem reads_ipv4 (address : BitVec 32) :
    source.Reads (readHost 1) (String.ofList (IpAddr.ipv4Text address)) (toBe 4 address.toNat) := by
  have hdone : source.Reads (fun _ => Pure.pure
      (String.ofList (IpAddr.ipv4Text (BitVec.ofNat 32 (ofBe (toBe 4 address.toNat))))))
      (String.ofList (IpAddr.ipv4Text address)) [] := by
    rw [ofNat_ofBe 4 address rfl]
    exact Source.Reads.pure _
  exact (Source.Reads.exact_of_length (toBe_length 4 _)).bind_last hdone

theorem reads_ipv6 (address : BitVec 128) :
    source.Reads (readHost 3) (String.ofList (IpAddr.ipv6Text address)) (toBe 16 address.toNat) := by
  have hdone : source.Reads (fun _ => Pure.pure
      (String.ofList (IpAddr.ipv6Text (BitVec.ofNat 128 (ofBe (toBe 16 address.toNat))))))
      (String.ofList (IpAddr.ipv6Text address)) [] := by
    rw [ofNat_ofBe 16 address rfl]
    exact Source.Reads.pure _
  exact (Source.Reads.exact_of_length (toBe_length 16 _)).bind_last hdone

theorem reads_domain {host : String} (h : (encode host).length ≤ 255) :
    source.Reads (readHost 2) host (UInt8.ofNat (encode host).length :: encode host) := by
  have hlength : (encode host).length = (UInt8.ofNat (encode host).length).toNat := by
    rw [UInt8.toNat_ofNat', Nat.mod_eq_of_lt (by omega)]
  have hdone : source.Reads (fun _ => Async.ofResult
      (Result.ofOption "VLESS domain is not UTF-8" (Utf8.decode (encode host)))) host [] :=
    Source.Reads.ofResult (by rw [Utf8.decode_encode]; rfl)
  exact (reads_byte (UInt8.ofNat (encode host).length)).bind
    ((Source.Reads.exact_of_length hlength).bind_last hdone)

variable (source)

theorem reads_host {host : String} {address : Bytes} (h : encodeAddress host = .ok address) :
    ∃ addressType rest, address = addressType :: rest ∧
      source.Reads (readHost addressType) (canonicalHost host) rest := by
  unfold encodeAddress at h
  unfold canonicalHost
  split at h
  · exact ⟨1, _, (Except.ok.inj h).symm, reads_ipv4 _⟩
  · exact ⟨3, _, (Except.ok.inj h).symm, reads_ipv6 _⟩
  · obtain ⟨⟨⟩, hlength, h⟩ := Result.bind_eq_ok.mp h
    exact ⟨2, _, (Except.ok.inj h).symm,
      reads_domain (of_decide_eq_true (Result.ensure_eq_ok.mp hlength))⟩

theorem canonicalHost_ne {host : String} (h : host ≠ "") : canonicalHost host ≠ "" :=
  Core.canonicalHost_ne h

-- The request is read back whole, and what follows it is left.
theorem reads_request {users : Users} {uuid : Uuid} {user : String} {destination : Address}
    {request : Bytes} (huser : users uuid = some user) (hhost : destination.host ≠ "")
    (h : encodeVlessRequest uuid destination = .ok request) :
    source.Reads (readVlessRequest users)
      (⟨canonicalHost destination.host, destination.port⟩, user) request := by
  obtain ⟨address, haddress, h⟩ := Result.bind_eq_ok.mp h
  obtain rfl := Except.ok.inj h
  obtain ⟨addressType, rest, rfl, hread⟩ := reads_host source haddress
  have hget : Result.ofOption "invalid VLESS user UUID" (users.get uuid.val) = .ok user := by
    rw [Users.get, dif_pos uuid.property, huser]
    rfl
  have hnew : Address.new (canonicalHost destination.host)
      (UInt16.ofNat (ofBe (toBe 2 destination.port.toNat))) =
      .ok ⟨canonicalHost destination.host, destination.port⟩ := by
    rw [Core.port_ofBe]
    exact Address.new_ok _ (canonicalHost_ne hhost)
  have hlayout : VLESS_VERSION :: uuid.val ++ [0, VLESS_COMMAND_TCP] ++
      toBe 2 destination.port.toNat ++ addressType :: rest =
      [VLESS_VERSION] ++ (uuid.val ++ ([0] ++ ([VLESS_COMMAND_TCP] ++
        (toBe 2 destination.port.toNat ++ ([addressType] ++ rest))))) := by simp
  rw [hlayout]
  refine (reads_byte _).bind (.bind_nil (.ensure rfl) ?_)
  refine (Source.Reads.exact_of_length uuid.property).bind (.bind_nil (.ofResult hget) ?_)
  refine (reads_byte 0).bind (.bind_nil (Source.Reads.exact_of_length rfl) ?_)
  refine (reads_byte _).bind (.bind_nil (.ensure rfl) ?_)
  refine (Source.Reads.exact_of_length (toBe_length 2 _)).bind ((reads_byte _).bind (hread.bind_last ?_))
  exact .bind_last (.ofResult hnew) (.pure _)

end

end SingBox.Vless
