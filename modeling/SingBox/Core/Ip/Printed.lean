import SingBox.Core.Rule
import SingBox.Library.Utf8

namespace SingBox.Core

open Library

theorem ipv4Text_ne_nil (address : BitVec 32) : IpAddr.ipv4Text address ≠ [] := by
  simp [IpAddr.ipv4Text]

theorem segmentsText_ne_nil {segments : List Nat} (h : segments ≠ []) :
    IpAddr.segmentsText segments ≠ [] := by
  match segments, h with
  | [segment], _ => exact Nat.toDigits_ne_nil
  | segment :: next :: rest, _ => simp [IpAddr.segmentsText]

theorem ipv6Text_ne_nil (address : BitVec 128) : IpAddr.ipv6Text address ≠ [] := by
  unfold IpAddr.ipv6Text
  split
  · simp
  · simp only
    split
    · simp
    · exact segmentsText_ne_nil (by simp [IpAddr.segments])

theorem port_ofBe (port : UInt16) : UInt16.ofNat (ofBe (toBe 2 port.toNat)) = port := by
  rw [ofBe_toBe 2 _ port.toNat_lt, UInt16.ofNat_toNat]

-- What an address looks like when it has been printed.
def canonicalHost (host : String) : String :=
  match IpAddr.fromStr host.toList with
  | some (.v4 address) => String.ofList (IpAddr.ipv4Text address)
  | some (.v6 address) => String.ofList (IpAddr.ipv6Text address)
  | none => host

theorem canonicalHost_ne {host : String} (h : host ≠ "") : canonicalHost host ≠ "" := by
  have htext {text : List Char} (htext : text ≠ []) : String.ofList text ≠ "" := by
    intro hempty
    exact htext (by simpa using congrArg String.toList hempty)
  unfold canonicalHost
  split
  · exact htext (ipv4Text_ne_nil _)
  · exact htext (ipv6Text_ne_nil _)
  · exact h

def Address.canonical (this : Address) : Address := ⟨canonicalHost this.host, this.port⟩

-- An address that there is room for.
def Address.Encodable (this : Address) : Prop :=
  this.host ≠ "" ∧
    ((IpAddr.fromStr this.host.toList).isSome ∨ (Utf8.encode this.host).length ≤ 255)

end SingBox.Core
