import SingBox.Core.Srs

namespace SingBox.Core.Srs

open Library

-- `append_ipv4_range` and `append_ipv6_range` differ in the width of an address and
-- in how it is written.
section

variable {width : Nat}

-- `trailing_zeros`
def trailingZeros (start : BitVec width) : Nat :=
  ((List.range width).find? start.toNat.testBit).getD width

def blockEnd (start : BitVec width) (hostBits : Nat) : BitVec width :=
  if hostBits = width then BitVec.allOnes width
  else start ||| ((1 : BitVec width) <<< hostBits - 1)

-- The inner loop. It stops at a block of one address, which is `start` itself.
def fitBlock (start last : BitVec width) : Nat → Nat
  | 0 => 0
  | hostBits + 1 =>
      if last < blockEnd start (hostBits + 1) then fitBlock start last hostBits
      else hostBits + 1

def rangePass (write : BitVec width → List Char) (last : BitVec width)
    (state : List String × BitVec width) : Pass (List String × BitVec width) (List String) :=
  let (output, start) := state
  let hostBits := fitBlock start last (trailingZeros start)
  let prefixLen := Nat.toDigits 10 (width - hostBits)
  let output := output ++ [String.ofList (write start ++ '/' :: prefixLen)]
  let blockEnd := blockEnd start hostBits
  if blockEnd = BitVec.allOnes width ∨ blockEnd = last then .done output
  else .again (output, blockEnd + 1)

theorem le_blockEnd (start : BitVec width) (hostBits : Nat) :
    start.toNat ≤ (blockEnd start hostBits).toNat := by
  unfold blockEnd
  split
  · rw [BitVec.toNat_allOnes]
    exact Nat.le_sub_one_of_lt start.isLt
  · rw [BitVec.toNat_or]
    exact Nat.left_le_or

-- A block that does not reach the last address is followed by a greater one.
theorem rangePass_decreases (write : BitVec width → List Char) (last : BitVec width) :
    Loop.Decreases (rangePass write last) fun state => 2 ^ width - state.2.toNat := by
  rintro ⟨output, start⟩ next h
  simp only [rangePass] at h
  split at h
  · cases h
  · rename_i hgo
    obtain rfl := Pass.again.inj h
    have hle := le_blockEnd start (fitBlock start last (trailingZeros start))
    generalize blockEnd start (fitBlock start last (trailingZeros start)) = block at hgo hle
    have hne : block ≠ BitVec.allOnes width := fun he => hgo (.inl he)
    have hlt : block.toNat < 2 ^ width - 1 := by
      have hmax := block.isLt
      have hnat : block.toNat ≠ (BitVec.allOnes width).toNat :=
        fun he => hne (BitVec.eq_of_toNat_eq he)
      rw [BitVec.toNat_allOnes] at hnat
      omega
    have hnext : (block + 1).toNat = block.toNat + 1 := by
      have hpow : 1 < 2 ^ width := by omega
      have hone : (1 : BitVec width).toNat = 1 := Nat.mod_eq_of_lt hpow
      have hadd : block.toNat + 1 < 2 ^ width := by omega
      rw [BitVec.toNat_add, hone, Nat.mod_eq_of_lt hadd]
    simp only [hnext]
    omega

def appendRange (write : BitVec width → List Char) (output : List String)
    (start last : BitVec width) : List String :=
  Loop.run (rangePass write last) (fun state => 2 ^ width - state.2.toNat)
    (rangePass_decreases write last) (output, start)

end

def appendIpv4Range : List String → BitVec 32 → BitVec 32 → List String :=
  appendRange IpAddr.ipv4Text

def appendIpv6Range : List String → BitVec 128 → BitVec 128 → List String :=
  appendRange IpAddr.ipv6Text

example : appendIpv4Range [] 0xc0000201#32 0xc0000206#32 =
    ["192.0.2.1/32", "192.0.2.2/31", "192.0.2.4/31", "192.0.2.6/32"] := by decide

def readIpRange (cidrs : List String) : Decoder (List String) := do
  let start ← readBytes
  let last ← readBytes
  if start.length = 4 ∧ last.length = 4 then
    let start := BitVec.ofNat 32 (ofBe start)
    let last := BitVec.ofNat 32 (ofBe last)
    Decoder.ensure (start ≤ last) "invalid IPv4 range in IP set"
    return appendIpv4Range cidrs start last
  else if start.length = 16 ∧ last.length = 16 then
    let start := BitVec.ofNat 128 (ofBe start)
    let last := BitVec.ofNat 128 (ofBe last)
    Decoder.ensure (start ≤ last) "invalid IPv6 range in IP set"
    return appendIpv6Range cidrs start last
  else Decoder.fail "invalid address length in IP set"

def readIpRanges : Nat → List String → Decoder (List String)
  | 0, cidrs => return cidrs
  | count + 1, cidrs => do
      let cidrs ← readIpRange cidrs
      readIpRanges count cidrs

def readIpSet : Decoder (List String) := do
  let version ← readU8
  Decoder.ensure (version = 1) s!"unsupported IP set version: {version}"
  let count ← readBeU64
  Decoder.ensure (count.toNat ≤ MAX_COLLECTION_SIZE) "IP set is too large"
  readIpRanges count.toNat []

end SingBox.Core.Srs
