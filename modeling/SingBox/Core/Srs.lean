import SingBox.Core.Rule
import SingBox.Library.Decoder

namespace SingBox.Core.Srs

open Library

def MAGIC : Bytes := [0x53, 0x52, 0x53]
def CURRENT_VERSION : UInt8 := 5
def MAX_DECOMPRESSED_SIZE : Nat := 128 * 1024 * 1024
def MAX_COLLECTION_SIZE : Nat := 4000000
def MAX_RECURSION : Nat := 64

def ITEM_QUERY_TYPE : UInt8 := 0
def ITEM_NETWORK : UInt8 := 1
def ITEM_DOMAIN : UInt8 := 2
def ITEM_DOMAIN_KEYWORD : UInt8 := 3
def ITEM_DOMAIN_REGEX : UInt8 := 4
def ITEM_SOURCE_IP_CIDR : UInt8 := 5
def ITEM_IP_CIDR : UInt8 := 6
def ITEM_SOURCE_PORT : UInt8 := 7
def ITEM_SOURCE_PORT_RANGE : UInt8 := 8
def ITEM_PORT : UInt8 := 9
def ITEM_PORT_RANGE : UInt8 := 10
def ITEM_PROCESS_NAME : UInt8 := 11
def ITEM_PROCESS_PATH : UInt8 := 12
def ITEM_PACKAGE_NAME : UInt8 := 13
def ITEM_WIFI_SSID : UInt8 := 14
def ITEM_WIFI_BSSID : UInt8 := 15
def ITEM_ADGUARD_DOMAIN : UInt8 := 16
def ITEM_PROCESS_PATH_REGEX : UInt8 := 17
def ITEM_NETWORK_TYPE : UInt8 := 18
def ITEM_NETWORK_IS_EXPENSIVE : UInt8 := 19
def ITEM_NETWORK_IS_CONSTRAINED : UInt8 := 20
def ITEM_NETWORK_INTERFACE_ADDRESS : UInt8 := 21
def ITEM_DEFAULT_INTERFACE_ADDRESS : UInt8 := 22
def ITEM_PACKAGE_NAME_REGEX : UInt8 := 23
def ITEM_FINAL : UInt8 := 0xff

-- `read_exact` at the end of the payload.
def UNEXPECTED_END : List String :=
  ["unexpected end of binary rule-set", "failed to fill whole buffer"]

-- The methods of `BinaryReader`.
section

def readU8 : Decoder UInt8 := do
  let bytes ← Decoder.exact UNEXPECTED_END 1
  return bytes.headD 0

def readBool : Decoder Bool := do
  let value ← readU8
  if value = 0 then return false
  else if value = 1 then return true
  else Decoder.fail s!"invalid boolean value: {value}"

def readBeU16 : Decoder UInt16 := do
  let bytes ← Decoder.exact UNEXPECTED_END 2
  return UInt16.ofNat (ofBe bytes)

def readBeU64 : Decoder UInt64 := do
  let bytes ← Decoder.exact UNEXPECTED_END 8
  return UInt64.ofNat (ofBe bytes)

-- The passes of the loop that are left, from this shift on.
def readUvarintFrom : Nat → Nat → Nat → Decoder Nat
  | 0, _, _ => Decoder.fail "binary rule-set varint overflow"
  | left + 1, shift, value => do
      let byte ← readU8
      if shift = 63 ∧ 1 < byte then Decoder.fail "binary rule-set varint overflow"
      else
        let value := value ||| (byte &&& 0x7f).toNat <<< shift
        if byte < 0x80 then return value
        else readUvarintFrom left (shift + 7) value

def readUvarint : Decoder Nat := readUvarintFrom 10 0 0

def readCount (name : String) : Decoder Nat := do
  let count ← readUvarint
  Decoder.ensure (count ≤ MAX_COLLECTION_SIZE) s!"{name} is too large"
  return count

def readBytes : Decoder Bytes := do
  let length ← readCount "byte string"
  Decoder.exact UNEXPECTED_END length

-- The standard library's own message about the bytes is left out.
def fromUtf8 (context : String) (bytes : Bytes) : Result String :=
  Result.ofOption context (String.fromUTF8? ⟨bytes.toArray⟩)

def readString : Decoder String := do
  let bytes ← readBytes
  Decoder.ofResult (fromUtf8 "invalid UTF-8 in binary rule-set" bytes)

def readStrings : Decoder (List String) := do
  let count ← readCount "string list"
  Decoder.times (fun _ => readString) 0 count

def readU8s : Decoder Bytes := do
  let count ← readCount "byte list"
  Decoder.exact UNEXPECTED_END count

def readU16s : Decoder (List UInt16) := do
  let count ← readCount "uint16 list"
  Decoder.times (fun _ => readBeU16) 0 count

def readU64s : Decoder (List UInt64) := do
  let count ← readCount "uint64 list"
  Decoder.times (fun _ => readBeU64) 0 count

end

def getBit (words : List UInt64) (index : Nat) : Option Bool :=
  words[index >>> 6]?.map fun word => word &&& (1 <<< UInt64.ofNat (index &&& 63)) != 0

-- The node's children, each with its index. `labels` are the ones from
-- `labelIndex` on.
def readNode (labelBitmap : List UInt64) :
    List UInt8 → Nat → Nat → Result (List (UInt8 × Nat) × Nat × Nat)
  | labels, bitIndex, labelIndex =>
      match getBit labelBitmap bitIndex with
      | none => Result.bail "invalid domain matcher bitmap"
      | some true => .ok ([], bitIndex + 1, labelIndex)
      | some false =>
          match labels with
          | [] => Result.bail "invalid domain matcher labels"
          | label :: rest => do
              let (node, bitIndex, last) ←
                readNode labelBitmap rest (bitIndex + 1) (labelIndex + 1)
              return ((label, labelIndex + 1) :: node, bitIndex, last)

def readNodes (labelBitmap : List UInt64) (labels : List UInt8) :
    Nat → Nat → Nat → Result (List (List (UInt8 × Nat)) × Nat)
  | 0, _, labelIndex => .ok ([], labelIndex)
  | count + 1, bitIndex, labelIndex => do
      let (node, bitIndex, labelIndex) ←
        readNode labelBitmap (labels.drop labelIndex) bitIndex labelIndex
      let (nodes, labelIndex) ← readNodes labelBitmap labels count bitIndex labelIndex
      return (node :: nodes, labelIndex)

-- `room` is what the key may still grow by, and one more.
def collectDomainKeys (children : List (List (UInt8 × Nat))) (leaves : List UInt64) :
    Nat → Nat → Bytes → Result (List Bytes)
  | 0, _, _ => Result.bail "domain matcher key is too long"
  | room + 1, node, current => do
      let key := if (getBit leaves node).getD false then [current] else []
      let below ← (children.getD node []).mapM fun (label, child) => do
        Result.ensure (child < children.length) "invalid domain matcher child"
        collectDomainKeys children leaves room child (current ++ [label])
      return key ++ below.flatten

def MAX_KEY : Nat := 4096

section

-- The order in which a `HashSet` is iterated. A set is its elements, each of them
-- once.
variable (iter : List String → List String)

structure KeySets where
  exact : List String := []
  prefixes : List String := []
  suffix : List String := []

def addKey (sets : KeySets) (key : Bytes) : Result KeySets := do
  let text ← fromUtf8 "domain matcher contains invalid UTF-8" key
  match text.toList.reverse with
  | '\r' :: value => return { sets with prefixes := sets.prefixes.insert (String.ofList value) }
  | '\n' :: value => return { sets with suffix := sets.suffix.insert (String.ofList value) }
  | reversed => return { sets with exact := sets.exact.insert (String.ofList reversed) }

def addPrefix (sets : KeySets) (value : String) : KeySets :=
  match value.toList with
  | '.' :: root =>
      let root := String.ofList root
      if root ∈ sets.exact then
        { sets with exact := sets.exact.erase root, suffix := sets.suffix.insert root }
      else { sets with suffix := sets.suffix.insert value }
  | _ => { sets with suffix := sets.suffix.insert value }

def sortUnstable (values : List String) : List String :=
  values.mergeSort fun left right => left ≤ right

def dumpDomainKeys (keys : List Bytes) : Result (List String × List String) := do
  let sets ← keys.foldlM addKey {}
  let sets := (iter sets.prefixes).foldl addPrefix sets
  return (sortUnstable (iter sets.exact), sortUnstable (iter sets.suffix))

structure DomainTrie where
  leaves : List UInt64
  labelBitmap : List UInt64
  labels : List UInt8

-- `read_domain_matcher` after its arrays.
def DomainTrie.domains (this : DomainTrie) : Result (List String × List String) := do
  let nodeCount := this.labels.length + 1
  Result.ensure (nodeCount ≤ this.leaves.length * 64) "invalid domain matcher leaves"
  let (children, labelIndex) ← readNodes this.labelBitmap this.labels nodeCount 0 0
  Result.ensure (labelIndex = this.labels.length) "invalid domain matcher tree"
  let keys ← collectDomainKeys children this.leaves (MAX_KEY + 1) 0 []
  dumpDomainKeys iter keys

def readDomainMatcher : Decoder (List String × List String) := do
  let setVersion ← readU8
  Decoder.ensure (setVersion = 0) s!"unsupported domain matcher version: {setVersion}"
  let leaves ← readU64s
  let labelBitmap ← readU64s
  let labels ← readBytes
  Decoder.ofResult (DomainTrie.domains iter { leaves, labelBitmap, labels })

end

end SingBox.Core.Srs
