import SingBox.Core.Srs.Decode

namespace SingBox.Core.Srs

open Library

-- The layout that the decoder reads, written out.
def putUvarintFrom : Nat → Nat → Bytes
  | 0, _ => []
  | left + 1, value =>
      if value < 128 then [UInt8.ofNat value]
      else UInt8.ofNat (value % 128 + 128) :: putUvarintFrom left (value / 128)

-- Ten bytes hold every number of 64 bits.
def putUvarint (value : Nat) : Bytes := putUvarintFrom 10 value

def utf8 (text : String) : Bytes := text.toUTF8.data.toList

def putBytes (bytes : Bytes) : Bytes := putUvarint bytes.length ++ bytes

def putStrings (values : List String) : Bytes :=
  putUvarint values.length ++ values.flatMap fun value => putBytes (utf8 value)

def putU16s (values : List UInt16) : Bytes :=
  putUvarint values.length ++ values.flatMap fun value => toBe 2 value.toNat

def putU64s (values : List UInt64) : Bytes :=
  putUvarint values.length ++ values.flatMap fun value => toBe 8 value.toNat

def putBool (value : Bool) : Bytes := [if value then 1 else 0]

inductive IpRange where
  | v4 (start last : BitVec 32) (le : start ≤ last)
  | v6 (start last : BitVec 128) (le : start ≤ last)

namespace IpRange

def put : IpRange → Bytes
  | .v4 start last _ => putBytes (toBe 4 start.toNat) ++ putBytes (toBe 4 last.toNat)
  | .v6 start last _ => putBytes (toBe 16 start.toNat) ++ putBytes (toBe 16 last.toNat)

-- The blocks of the range, behind the ones before it.
def append (cidrs : List String) : IpRange → List String
  | .v4 start last _ => appendIpv4Range cidrs start last
  | .v6 start last _ => appendIpv6Range cidrs start last

end IpRange

def putIpSet (ranges : List IpRange) : Bytes :=
  1 :: toBe 8 ranges.length ++ ranges.flatMap IpRange.put

def cidrs (ranges : List IpRange) : List String := ranges.foldl IpRange.append []

def DomainTrie.put (this : DomainTrie) : Bytes :=
  0 :: putU64s this.leaves ++ putU64s this.labelBitmap ++ putBytes this.labels

-- An item with its values. The domains are the ones of the trie that it is written as.
inductive RuleItem where
  | network (values : List String)
  | domain (trie : DomainTrie) (domains suffixes : List String)
  | domainKeyword (values : List String)
  | sourceIpCidr (ranges : List IpRange)
  | ipCidr (ranges : List IpRange)
  | sourcePort (ports : List UInt16)
  | sourcePortRange (values : List String)
  | port (ports : List UInt16)
  | portRange (values : List String)

namespace RuleItem

def kind : RuleItem → UInt8
  | .network _ => ITEM_NETWORK
  | .domain .. => ITEM_DOMAIN
  | .domainKeyword _ => ITEM_DOMAIN_KEYWORD
  | .sourceIpCidr _ => ITEM_SOURCE_IP_CIDR
  | .ipCidr _ => ITEM_IP_CIDR
  | .sourcePort _ => ITEM_SOURCE_PORT
  | .sourcePortRange _ => ITEM_SOURCE_PORT_RANGE
  | .port _ => ITEM_PORT
  | .portRange _ => ITEM_PORT_RANGE

def putValues : RuleItem → Bytes
  | .network values => putStrings values
  | .domain trie _ _ => trie.put
  | .domainKeyword values => putStrings values
  | .sourceIpCidr ranges => putIpSet ranges
  | .ipCidr ranges => putIpSet ranges
  | .sourcePort ports => putU16s ports
  | .sourcePortRange values => putStrings values
  | .port ports => putU16s ports
  | .portRange values => putStrings values

def put (this : RuleItem) : Bytes := this.kind :: this.putValues

def set (rule : HeadlessRuleConfig) : RuleItem → HeadlessRuleConfig
  | .network values => { rule with network := values }
  | .domain _ domains suffixes => { rule with domain := domains, domainSuffix := suffixes }
  | .domainKeyword values => { rule with domainKeyword := values }
  | .sourceIpCidr ranges => { rule with sourceIpCidr := cidrs ranges }
  | .ipCidr ranges => { rule with ipCidr := cidrs ranges }
  | .sourcePort ports => { rule with sourcePort := ports }
  | .sourcePortRange values => { rule with sourcePortRange := values }
  | .port ports => { rule with port := ports }
  | .portRange values => { rule with portRange := values }

end RuleItem

def StringsFit (values : List String) : Prop :=
  values.length ≤ MAX_COLLECTION_SIZE ∧
    ∀ value ∈ values, (utf8 value).length ≤ MAX_COLLECTION_SIZE

structure DomainTrie.Fits (this : DomainTrie) : Prop where
  leaves : this.leaves.length ≤ MAX_COLLECTION_SIZE
  labelBitmap : this.labelBitmap.length ≤ MAX_COLLECTION_SIZE
  labels : this.labels.length ≤ MAX_COLLECTION_SIZE

section

variable (iter : List String → List String)

-- Every count and length is within the decoder's limit.
def RuleItem.Fits : RuleItem → Prop
  | .network values => StringsFit values
  | .domain trie domains suffixes =>
      trie.Fits ∧ trie.domains iter = .ok (domains, suffixes)
  | .domainKeyword values => StringsFit values
  | .sourceIpCidr ranges => ranges.length ≤ MAX_COLLECTION_SIZE
  | .ipCidr ranges => ranges.length ≤ MAX_COLLECTION_SIZE
  | .sourcePort ports => ports.length ≤ MAX_COLLECTION_SIZE
  | .sourcePortRange values => StringsFit values
  | .port ports => ports.length ≤ MAX_COLLECTION_SIZE
  | .portRange values => StringsFit values

inductive RuleTree where
  | default (items : List RuleItem) (invert : Bool)
  | logical (mode : LogicalMode) (rules : List RuleTree) (invert : Bool)

namespace RuleTree

mutual

def put : RuleTree → Bytes
  | .default items invert => 0 :: items.flatMap RuleItem.put ++ ITEM_FINAL :: putBool invert
  | .logical mode rules invert =>
      let mode : UInt8 := match mode with
        | .and => 0
        | .or => 1
      1 :: mode :: putUvarint rules.length ++ putEach rules ++ putBool invert

def putEach : List RuleTree → Bytes
  | [] => []
  | rule :: rest => rule.put ++ putEach rest

end

mutual

-- The rule that the tree stands for.
def config : RuleTree → HeadlessRuleConfig
  | .default items invert => { items.foldl RuleItem.set {} with invert }
  | .logical mode rules invert =>
      let mode := match mode with
        | .and => "and"
        | .or => "or"
      { kind := "logical", mode, rules := configs rules, invert }

def configs : List RuleTree → List HeadlessRuleConfig
  | [] => []
  | rule :: rest => rule.config :: configs rest

end

-- The tree has at most so many levels, and everything in it fits.
def Fits : Nat → RuleTree → Prop
  | 0, _ => False
  | _ + 1, .default items _ =>
      (items.map RuleItem.kind).Nodup ∧ ∀ item ∈ items, item.Fits iter
  | levels + 1, .logical _ rules _ =>
      rules.length ≤ MAX_COLLECTION_SIZE ∧ ∀ rule ∈ rules, Fits levels rule

end RuleTree

def putRules (rules : List RuleTree) : Bytes :=
  putUvarint rules.length ++ rules.flatMap RuleTree.put

end

end SingBox.Core.Srs
