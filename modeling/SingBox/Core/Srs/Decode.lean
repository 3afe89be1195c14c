import SingBox.Core.Srs.IpSet

namespace SingBox.Core.Srs

open Library

-- Every reader looks at no more than what it takes.
theorem readU8_local : Decoder.Local readU8 :=
  (Decoder.Local.exact _ 1).bind fun _ => Decoder.Local.pure _

theorem readU8_takes : Decoder.Takes readU8 := by
  intro input value rest h
  obtain ⟨⟨bytes, mid⟩, hr, hv⟩ := Result.bind_eq_ok.mp h
  obtain ⟨_, rfl⟩ := Prod.mk.inj (Except.ok.inj hv)
  unfold Decoder.exact at hr
  split at hr
  · obtain ⟨_, rfl⟩ := Prod.mk.inj (Except.ok.inj hr)
    rw [List.length_drop]
    omega
  · cases hr

theorem readBool_local : Decoder.Local readBool := by
  refine readU8_local.bind fun value => ?_
  split_ifs
  · exact .pure _
  · exact .pure _
  · exact .fail _

theorem readBeU16_local : Decoder.Local readBeU16 :=
  (Decoder.Local.exact _ 2).bind fun _ => Decoder.Local.pure _

theorem readBeU64_local : Decoder.Local readBeU64 :=
  (Decoder.Local.exact _ 8).bind fun _ => Decoder.Local.pure _

theorem readUvarintFrom_local (left shift value : Nat) :
    Decoder.Local (readUvarintFrom left shift value) := by
  induction left generalizing shift value with
  | zero => exact .fail _
  | succ left ih =>
      refine readU8_local.bind fun byte => ?_
      split_ifs
      · exact .fail _
      · exact .pure _
      · exact ih _ _

theorem readCount_local (name : String) : Decoder.Local (readCount name) :=
  (readUvarintFrom_local 10 0 0).bind fun _ => (Decoder.Local.ensure _ _).bind fun _ =>
    Decoder.Local.pure _

theorem readBytes_local : Decoder.Local readBytes :=
  (readCount_local _).bind fun _ => Decoder.Local.exact _ _

theorem readStrings_local : Decoder.Local readStrings :=
  (readCount_local _).bind fun _ =>
    Decoder.Local.times (fun _ => readBytes_local.bind fun _ => Decoder.Local.ofResult _) _ _

theorem readU8s_local : Decoder.Local readU8s :=
  (readCount_local _).bind fun _ => Decoder.Local.exact _ _

theorem readU16s_local : Decoder.Local readU16s :=
  (readCount_local _).bind fun _ => Decoder.Local.times (fun _ => readBeU16_local) _ _

theorem readU64s_local : Decoder.Local readU64s :=
  (readCount_local _).bind fun _ => Decoder.Local.times (fun _ => readBeU64_local) _ _

theorem readDomainMatcher_local (iter : List String → List String) :
    Decoder.Local (readDomainMatcher iter) :=
  readU8_local.bind fun _ => (Decoder.Local.ensure _ _).bind fun _ =>
    readU64s_local.bind fun _ => readU64s_local.bind fun _ => readBytes_local.bind fun _ =>
      Decoder.Local.ofResult _

theorem readIpRange_local (cidrs : List String) : Decoder.Local (readIpRange cidrs) := by
  refine readBytes_local.bind fun start => readBytes_local.bind fun last => ?_
  split_ifs
  · exact (Decoder.Local.ensure _ _).bind fun _ => .pure _
  · exact (Decoder.Local.ensure _ _).bind fun _ => .pure _
  · exact .fail _

theorem readIpRanges_local (count : Nat) (cidrs : List String) :
    Decoder.Local (readIpRanges count cidrs) := by
  induction count generalizing cidrs with
  | zero => exact .pure _
  | succ count ih => exact (readIpRange_local cidrs).bind ih

theorem readIpSet_local : Decoder.Local readIpSet :=
  readU8_local.bind fun _ => (Decoder.Local.ensure _ _).bind fun _ =>
    readBeU64_local.bind fun _ => (Decoder.Local.ensure _ _).bind fun _ =>
      readIpRanges_local _ _

section

variable (iter : List String → List String)

def unsupported {α : Type} (read : Decoder α) (name : String) :
    Decoder (Pass HeadlessRuleConfig HeadlessRuleConfig) := do
  let _ ← read
  Decoder.fail s!"binary rule item {name} is not supported"

-- The items that no session can be matched against.
def readUnsupportedItem (item : UInt8) : Decoder (Pass HeadlessRuleConfig HeadlessRuleConfig) :=
  if item = ITEM_QUERY_TYPE then unsupported readU16s "query_type"
  else if item = ITEM_DOMAIN_REGEX then unsupported readStrings "domain_regex"
  else if item = ITEM_PROCESS_NAME then unsupported readStrings "process_name"
  else if item = ITEM_PROCESS_PATH then unsupported readStrings "process_path"
  else if item = ITEM_PACKAGE_NAME then unsupported readStrings "package_name"
  else if item = ITEM_WIFI_SSID then unsupported readStrings "wifi_ssid"
  else if item = ITEM_WIFI_BSSID then unsupported readStrings "wifi_bssid"
  else if item = ITEM_PROCESS_PATH_REGEX then unsupported readStrings "process_path_regex"
  else if item = ITEM_PACKAGE_NAME_REGEX then unsupported readStrings "package_name_regex"
  else if item = ITEM_ADGUARD_DOMAIN then
    Decoder.fail "binary rule item adguard_domain is not supported"
  else if item = ITEM_NETWORK_TYPE then unsupported readU8s "network_type"
  else if item = ITEM_NETWORK_IS_EXPENSIVE then
    Decoder.fail "binary rule item network_is_expensive is not supported"
  else if item = ITEM_NETWORK_IS_CONSTRAINED then
    Decoder.fail "binary rule item network_is_constrained is not supported"
  else if item = ITEM_NETWORK_INTERFACE_ADDRESS then
    Decoder.fail "binary rule item network_interface_address is not supported"
  else if item = ITEM_DEFAULT_INTERFACE_ADDRESS then
    Decoder.fail "binary rule item default_interface_address is not supported"
  else Decoder.fail s!"unknown binary rule item: {item}"

-- One pass of the loop of `read_default_rule`.
def readItemBody (rule : HeadlessRuleConfig) (item : UInt8) :
    Decoder (Pass HeadlessRuleConfig HeadlessRuleConfig) :=
  if item = ITEM_NETWORK then do
    let network ← readStrings
    return .again { rule with network }
  else if item = ITEM_DOMAIN then do
    let (domain, domainSuffix) ← readDomainMatcher iter
    return .again { rule with domain, domainSuffix }
  else if item = ITEM_DOMAIN_KEYWORD then do
    let domainKeyword ← readStrings
    return .again { rule with domainKeyword }
  else if item = ITEM_SOURCE_IP_CIDR then do
    let sourceIpCidr ← readIpSet
    return .again { rule with sourceIpCidr }
  else if item = ITEM_IP_CIDR then do
    let ipCidr ← readIpSet
    return .again { rule with ipCidr }
  else if item = ITEM_SOURCE_PORT then do
    let sourcePort ← readU16s
    return .again { rule with sourcePort }
  else if item = ITEM_SOURCE_PORT_RANGE then do
    let sourcePortRange ← readStrings
    return .again { rule with sourcePortRange }
  else if item = ITEM_PORT then do
    let port ← readU16s
    return .again { rule with port }
  else if item = ITEM_PORT_RANGE then do
    let portRange ← readStrings
    return .again { rule with portRange }
  else if item = ITEM_FINAL then do
    let invert ← readBool
    return .done { rule with invert }
  else readUnsupportedItem item

def readItem (rule : HeadlessRuleConfig) : Decoder (Pass HeadlessRuleConfig HeadlessRuleConfig) := do
  let item ← readU8
  readItemBody iter rule item

theorem unsupported_local {α : Type} {read : Decoder α} (h : Decoder.Local read) (name : String) :
    Decoder.Local (unsupported read name) := h.bind fun _ => Decoder.Local.fail _

theorem readUnsupportedItem_local (item : UInt8) : Decoder.Local (readUnsupportedItem item) := by
  have hstrings (name : String) : Decoder.Local (unsupported readStrings name) :=
    unsupported_local readStrings_local name
  refine .ite (unsupported_local readU16s_local _) ?_
  refine .ite (hstrings _) (.ite (hstrings _) (.ite (hstrings _) (.ite (hstrings _) ?_)))
  refine .ite (hstrings _) (.ite (hstrings _) (.ite (hstrings _) (.ite (hstrings _) ?_)))
  refine .ite (.fail _) (.ite (unsupported_local readU8s_local _) ?_)
  exact .ite (.fail _) (.ite (.fail _) (.ite (.fail _) (.ite (.fail _) (.fail _))))

theorem readItemBody_local (rule : HeadlessRuleConfig) (item : UInt8) :
    Decoder.Local (readItemBody iter rule item) := by
  refine .ite (readStrings_local.bind fun _ => .pure _) ?_
  refine .ite ((readDomainMatcher_local iter).bind fun _ => .pure _) ?_
  refine .ite (readStrings_local.bind fun _ => .pure _) ?_
  refine .ite (readIpSet_local.bind fun _ => .pure _) ?_
  refine .ite (readIpSet_local.bind fun _ => .pure _) ?_
  refine .ite (readU16s_local.bind fun _ => .pure _) ?_
  refine .ite (readStrings_local.bind fun _ => .pure _) ?_
  refine .ite (readU16s_local.bind fun _ => .pure _) ?_
  refine .ite (readStrings_local.bind fun _ => .pure _) ?_
  exact .ite (readBool_local.bind fun _ => .pure _) (readUnsupportedItem_local item)

theorem readItem_local (rule : HeadlessRuleConfig) : Decoder.Local (readItem iter rule) :=
  readU8_local.bind (readItemBody_local iter rule)

theorem readItem_takes (rule : HeadlessRuleConfig) : Decoder.Takes (readItem iter rule) :=
  readU8_takes.bind (readItemBody_local iter rule)

def readDefaultRule : Decoder HeadlessRuleConfig :=
  Decoder.loop (readItem iter) (readItem_takes iter) {}

-- `levels` is how many levels of nesting are left: `depth < MAX_RECURSION` is
-- checked on the way down, and `depth` rises with each logical rule.
def readRule : Nat → Decoder HeadlessRuleConfig
  | 0 => Decoder.fail "logical rule nesting is too deep"
  | levels + 1 => do
      let kind ← readU8
      if kind = 0 then readDefaultRule iter
      else if kind = 1 then do
        -- `read_logical_rule`
        let mode ← readU8
        let mode ←
          if mode = 0 then pure "and"
          else if mode = 1 then pure "or"
          else Decoder.fail s!"unknown logical rule mode: {mode}"
        let count ← readCount "logical rule count"
        let rules ← Decoder.times (fun _ => readRule levels) 0 count
        let invert ← readBool
        return { kind := "logical", mode, rules, invert }
      else Decoder.fail s!"unknown binary rule type: {kind}"

def readRules : Decoder (List HeadlessRuleConfig) := do
  let count ← readCount "rule count"
  Decoder.times (fun index =>
    Decoder.withContext s!"decode binary rule {index}" (readRule iter MAX_RECURSION)) 0 count

-- What a zlib stream gives: its bytes, and the error it ends with if it does not
-- end well.
variable (zlib : Bytes → Bytes × Option String)

-- `read_to_end` of at most one byte more than the limit.
def decompress (input : Bytes) : Result Bytes :=
  let (bytes, error) := zlib input
  match error with
  | some error =>
      if bytes.length ≤ MAX_DECOMPRESSED_SIZE then
        .error ["decompress sing-box rule-set", error]
      else .ok (bytes.take (MAX_DECOMPRESSED_SIZE + 1))
  | none => .ok (bytes.take (MAX_DECOMPRESSED_SIZE + 1))

def decode (input : Bytes) : Result RuleSetSource := do
  Result.ensure (4 ≤ input.length) "truncated sing-box rule-set header"
  Result.ensure (input.take 3 = MAGIC) "invalid sing-box rule-set magic"
  let version := input.getD 3 0
  Result.ensure (1 ≤ version && version ≤ CURRENT_VERSION)
    s!"unsupported rule-set version: {version}"
  let decompressed ← decompress zlib (input.drop 4)
  Result.ensure (decompressed.length ≤ MAX_DECOMPRESSED_SIZE)
    "sing-box rule-set exceeds decompressed size limit"
  let (rules, rest) ← readRules iter decompressed
  Result.ensure rest.isEmpty "trailing data in sing-box rule-set"
  return { version, rules }

end

end SingBox.Core.Srs
