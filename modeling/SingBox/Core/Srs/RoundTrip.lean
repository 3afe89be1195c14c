import Mathlib.Tactic.Ring
import SingBox.Core.Srs.Layout
import SingBox.Library.Utf8

namespace SingBox.Core.Srs

open Library

-- Each reader finds what the layout put.
theorem reads_u8 (byte : UInt8) : Decoder.Reads readU8 byte [byte] :=
  (Decoder.Reads.exact UNEXPECTED_END [byte]).bind (Decoder.Reads.pure byte)

theorem reads_bool (value : Bool) : Decoder.Reads readBool value (putBool value) := by
  cases value with
  | false => exact (reads_u8 0).bind (Decoder.Reads.pure false)
  | true => exact (reads_u8 1).bind (Decoder.Reads.pure true)

private theorem reads_be {α : Type} (width number : Nat) (value : α) (convert : Nat → α)
    (hnumber : number < 256 ^ width) (hvalue : convert number = value) :
    Decoder.Reads (Decoder.exact UNEXPECTED_END width >>= fun bytes =>
      Pure.pure (convert (ofBe bytes))) value (toBe width number) := by
  have hexact := Decoder.Reads.exact UNEXPECTED_END (toBe width number)
  have hvalue : convert (ofBe (toBe width number)) = value := by
    rw [ofBe_toBe width number hnumber, hvalue]
  have hpure : Decoder.Reads (Pure.pure (convert (ofBe (toBe width number)))) value [] := by
    rw [hvalue]
    exact Decoder.Reads.pure value
  rw [toBe_length] at hexact
  have hread : Decoder.Reads (Decoder.exact UNEXPECTED_END width >>= fun bytes =>
      Pure.pure (convert (ofBe bytes))) value (toBe width number ++ []) := hexact.bind hpure
  rwa [List.append_nil] at hread

theorem reads_beU16 (value : UInt16) :
    Decoder.Reads readBeU16 value (toBe 2 value.toNat) :=
  reads_be 2 value.toNat value UInt16.ofNat value.toNat_lt (UInt16.ofNat_toNat)

theorem reads_beU64 (value : UInt64) :
    Decoder.Reads readBeU64 value (toBe 8 value.toNat) :=
  reads_be 8 value.toNat value UInt64.ofNat value.toNat_lt (UInt64.ofNat_toNat)

-- Bits above the ones that are set add up with them.
private theorem or_shiftLeft (acc bits shift : Nat) (hacc : acc < 2 ^ shift) :
    acc ||| bits <<< shift = acc + bits * 2 ^ shift := by
  rw [Nat.or_comm, Nat.shiftLeft_eq, Nat.mul_comm, ← Nat.two_pow_add_eq_or_of_lt hacc,
    Nat.add_comm]

private theorem low_bits (value : Nat) (hvalue : value < 256) :
    (UInt8.ofNat value &&& 0x7f).toNat = value % 128 := by
  have hmod : value % 256 = value := Nat.mod_eq_of_lt hvalue
  rw [UInt8.toNat_and, UInt8.toNat_ofNat', hmod]
  exact Nat.and_two_pow_sub_one_eq_mod value 7

-- The bits read so far are below `shift`, and the rest of the number fits above them.
theorem reads_uvarintFrom (left shift acc value : Nat) (hleft : shift + 7 * left = 70)
    (hshift : shift ≤ 63) (hacc : acc < 2 ^ shift) (hvalue : value < 2 ^ (64 - shift)) :
    Decoder.Reads (readUvarintFrom left shift acc) (acc + value * 2 ^ shift)
      (putUvarintFrom left value) := by
  induction left generalizing shift acc value with
  | zero => omega
  | succ left ih =>
      have hlast : shift = 63 → value < 2 := by
        rintro rfl
        exact hvalue
      by_cases hsmall : value < 128
      · have hbyte : (UInt8.ofNat value).toNat = value := by
          rw [UInt8.toNat_ofNat']
          omega
        have hgo : ¬(shift = 63 ∧ 1 < UInt8.ofNat value) := by
          rintro ⟨he, hone⟩
          have hbound := hlast he
          rw [UInt8.lt_iff_toNat_lt, hbyte] at hone
          have : (1 : UInt8).toNat = 1 := rfl
          omega
        have hend : UInt8.ofNat value < 0x80 := by
          rw [UInt8.lt_iff_toNat_lt, hbyte]
          exact hsmall
        have hbits : (UInt8.ofNat value &&& 0x7f).toNat = value := by
          rw [low_bits value (by omega), Nat.mod_eq_of_lt hsmall]
        rw [putUvarintFrom, if_pos hsmall]
        rw [← List.append_nil [UInt8.ofNat value]]
        refine (reads_u8 (UInt8.ofNat value)).bind ?_
        rw [if_neg hgo, if_pos hend, hbits, or_shiftLeft acc value shift hacc]
        exact Decoder.Reads.pure _
      · have hmore : shift ≠ 63 := fun he => hsmall (by have := hlast he; omega)
        have hnext : shift + 7 ≤ 63 := by omega
        have hgo : ¬(shift = 63 ∧ 1 < UInt8.ofNat (value % 128 + 128)) := fun h => hmore h.1
        have hbyte : ¬UInt8.ofNat (value % 128 + 128) < 0x80 := by
          rw [UInt8.lt_iff_toNat_lt, UInt8.toNat_ofNat']
          have : (0x80 : UInt8).toNat = 128 := rfl
          omega
        have hbits : (UInt8.ofNat (value % 128 + 128) &&& 0x7f).toNat = value % 128 := by
          rw [low_bits _ (by omega)]
          omega
        have hpow : 2 ^ (shift + 7) = 2 ^ shift * 128 := Nat.pow_add 2 shift 7
        have hacc' : acc + value % 128 * 2 ^ shift < 2 ^ (shift + 7) := by
          have hlow : value % 128 + 1 ≤ 128 := by omega
          have hmul := Nat.mul_le_mul_right (2 ^ shift) hlow
          rw [Nat.add_mul, Nat.one_mul] at hmul
          omega
        have hvalue' : value / 128 < 2 ^ (64 - (shift + 7)) := by
          rw [Nat.div_lt_iff_lt_mul (by decide)]
          have he : 64 - shift = 64 - (shift + 7) + 7 := by omega
          rwa [he, Nat.pow_add] at hvalue
        have hsum : acc + value % 128 * 2 ^ shift + value / 128 * 2 ^ (shift + 7) =
            acc + value * 2 ^ shift := by
          have hdiv := Nat.div_add_mod value 128
          calc acc + value % 128 * 2 ^ shift + value / 128 * 2 ^ (shift + 7)
              = acc + (128 * (value / 128) + value % 128) * 2 ^ shift := by rw [hpow]; ring
            _ = acc + value * 2 ^ shift := by rw [hdiv]
        have hrest := ih (shift + 7) (acc + value % 128 * 2 ^ shift) (value / 128) (by omega) hnext
          hacc' hvalue'
        rw [hsum] at hrest
        rw [putUvarintFrom, if_neg hsmall, ← List.singleton_append]
        refine (reads_u8 (UInt8.ofNat (value % 128 + 128))).bind ?_
        rw [if_neg hgo, if_neg hbyte, hbits, or_shiftLeft acc (value % 128) shift hacc]
        exact hrest

theorem reads_uvarint (value : Nat) (h : value < 2 ^ 64) :
    Decoder.Reads readUvarint value (putUvarint value) := by
  have hread := reads_uvarintFrom 10 0 0 value rfl (by decide) (by decide) h
  rwa [Nat.pow_zero, Nat.mul_one, Nat.zero_add] at hread

theorem reads_count (name : String) (count : Nat) (h : count ≤ MAX_COLLECTION_SIZE) :
    Decoder.Reads (readCount name) count (putUvarint count) := by
  have hsize : count < 2 ^ 64 := Nat.lt_of_le_of_lt h (by decide)
  have hchecked : Decoder.Reads (Decoder.ensure (count ≤ MAX_COLLECTION_SIZE)
      s!"{name} is too large" >>= fun _ => Pure.pure count) count [] :=
    (Decoder.Reads.ensure (decide_eq_true h)).bind_nil (Decoder.Reads.pure count)
  have hread : Decoder.Reads (readCount name) count (putUvarint count ++ []) :=
    (reads_uvarint count hsize).bind hchecked
  rwa [List.append_nil] at hread

theorem reads_bytes (bytes : Bytes) (h : bytes.length ≤ MAX_COLLECTION_SIZE) :
    Decoder.Reads readBytes bytes (putBytes bytes) :=
  (reads_count "byte string" bytes.length h).bind (Decoder.Reads.exact UNEXPECTED_END bytes)

theorem fromUtf8_utf8 (context text : String) : fromUtf8 context (utf8 text) = .ok text := by
  have hdecode : String.fromUTF8? ⟨(utf8 text).toArray⟩ = some text := Utf8.decode_encode text
  rw [fromUtf8, hdecode]
  rfl

theorem reads_string (text : String) (h : (utf8 text).length ≤ MAX_COLLECTION_SIZE) :
    Decoder.Reads readString text (putBytes (utf8 text)) := by
  have hread : Decoder.Reads readString text (putBytes (utf8 text) ++ []) :=
    (reads_bytes (utf8 text) h).bind (Decoder.Reads.ofResult (fromUtf8_utf8 _ text))
  rwa [List.append_nil] at hread

theorem reads_strings (values : List String) (h : StringsFit values) :
    Decoder.Reads readStrings values (putStrings values) :=
  (reads_count "string list" values.length h.1).bind
    (Decoder.Reads.times values (fun value hv _ => reads_string value (h.2 value hv)) 0)

theorem reads_u16s (values : List UInt16) (h : values.length ≤ MAX_COLLECTION_SIZE) :
    Decoder.Reads readU16s values (putU16s values) :=
  (reads_count "uint16 list" values.length h).bind
    (Decoder.Reads.times values (fun value _ _ => reads_beU16 value) 0)

theorem reads_u64s (values : List UInt64) (h : values.length ≤ MAX_COLLECTION_SIZE) :
    Decoder.Reads readU64s values (putU64s values) :=
  (reads_count "uint64 list" values.length h).bind
    (Decoder.Reads.times values (fun value _ _ => reads_beU64 value) 0)

-- The arrays are read back, and what the trie is worth decides about the rest.
theorem readDomainMatcher_put (iter : List String → List String) (trie : DomainTrie)
    (hfits : trie.Fits) (rest : Bytes) :
    readDomainMatcher iter (trie.put ++ rest) = Decoder.ofResult (trie.domains iter) rest := by
  have hversion : Decoder.Reads (Decoder.ensure ((0 : UInt8) = 0)
      s!"unsupported domain matcher version: {(0 : UInt8)}") () [] :=
    Decoder.Reads.ensure (by decide)
  have hput : trie.put ++ rest = [0] ++ ([] ++ (putU64s trie.leaves ++
      (putU64s trie.labelBitmap ++ (putBytes trie.labels ++ rest)))) := by
    simp only [DomainTrie.put, List.append_assoc, List.cons_append, List.nil_append]
  rw [hput, readDomainMatcher, (reads_u8 0).bind_apply, hversion.bind_apply,
    (reads_u64s trie.leaves hfits.leaves).bind_apply,
    (reads_u64s trie.labelBitmap hfits.labelBitmap).bind_apply,
    (reads_bytes trie.labels hfits.labels).bind_apply]

theorem reads_domainMatcher (iter : List String → List String) (trie : DomainTrie)
    (hfits : trie.Fits) {domains : List String × List String}
    (hdomains : trie.domains iter = .ok domains) :
    Decoder.Reads (readDomainMatcher iter) domains trie.put := by
  intro rest
  rw [readDomainMatcher_put iter trie hfits, hdomains]
  rfl

theorem reads_ipRange (output : List String) (range : IpRange) :
    Decoder.Reads (readIpRange output) (range.append output) range.put := by
  cases range with
  | v4 start last le =>
      have hlen (address : BitVec 32) : (toBe 4 address.toNat).length = 4 := toBe_length _ _
      have hmax : 4 ≤ MAX_COLLECTION_SIZE := by decide
      have hstart := reads_bytes (toBe 4 start.toNat) ((hlen start).trans_le hmax)
      have hlast := reads_bytes (toBe 4 last.toNat) ((hlen last).trans_le hmax)
      refine hstart.bind ?_
      rw [← List.append_nil (putBytes (toBe 4 last.toNat))]
      refine hlast.bind ?_
      rw [if_pos ⟨hlen start, hlen last⟩, ofNat_ofBe 4 start rfl, ofNat_ofBe 4 last rfl]
      exact (Decoder.Reads.ensure (decide_eq_true le)).bind_nil (Decoder.Reads.pure _)
  | v6 start last le =>
      have hlen (address : BitVec 128) : (toBe 16 address.toNat).length = 16 := toBe_length _ _
      have hmax : 16 ≤ MAX_COLLECTION_SIZE := by decide
      have hstart := reads_bytes (toBe 16 start.toNat) ((hlen start).trans_le hmax)
      have hlast := reads_bytes (toBe 16 last.toNat) ((hlen last).trans_le hmax)
      have hwide : ¬((toBe 16 start.toNat).length = 4 ∧ (toBe 16 last.toNat).length = 4) := by
        rw [hlen start]
        rintro ⟨he, _⟩
        exact absurd he (by decide)
      refine hstart.bind ?_
      rw [← List.append_nil (putBytes (toBe 16 last.toNat))]
      refine hlast.bind ?_
      rw [if_neg hwide, if_pos ⟨hlen start, hlen last⟩, ofNat_ofBe 16 start rfl,
        ofNat_ofBe 16 last rfl]
      exact (Decoder.Reads.ensure (decide_eq_true le)).bind_nil (Decoder.Reads.pure _)

theorem reads_ipRanges (ranges : List IpRange) (output : List String) :
    Decoder.Reads (readIpRanges ranges.length output) (ranges.foldl IpRange.append output)
      (ranges.flatMap IpRange.put) := by
  induction ranges generalizing output with
  | nil => exact Decoder.Reads.pure output
  | cons range ranges ih => exact (reads_ipRange output range).bind (ih (range.append output))

theorem reads_ipSet (ranges : List IpRange) (h : ranges.length ≤ MAX_COLLECTION_SIZE) :
    Decoder.Reads readIpSet (cidrs ranges) (putIpSet ranges) := by
  have hsize : ranges.length < 2 ^ 64 := Nat.lt_of_le_of_lt h (by decide)
  have hcount : (UInt64.ofNat ranges.length).toNat = ranges.length := by
    rw [UInt64.toNat_ofNat', Nat.mod_eq_of_lt hsize]
  have hlength := reads_beU64 (UInt64.ofNat ranges.length)
  have hread := reads_ipRanges ranges []
  rw [← hcount] at h hread
  rw [hcount] at hlength
  exact (reads_u8 1).bind <| (Decoder.Reads.ensure (by decide)).bind_nil <|
    hlength.bind <| (Decoder.Reads.ensure (decide_eq_true h)).bind_nil hread

section

variable (iter : List String → List String)

private theorem reads_again {α : Type} {read : Decoder α} {value : α} {encoded : Bytes}
    {next : α → HeadlessRuleConfig} (h : Decoder.Reads read value encoded) :
    Decoder.Reads (read >>= fun value =>
      Pure.pure (Pass.again (next value) : Pass HeadlessRuleConfig HeadlessRuleConfig))
      (.again (next value)) encoded := by
  have hread : Decoder.Reads (read >>= fun value =>
      Pure.pure (Pass.again (next value) : Pass HeadlessRuleConfig HeadlessRuleConfig))
      (.again (next value)) (encoded ++ []) := h.bind (Decoder.Reads.pure _)
  rwa [List.append_nil] at hread

-- An item sets its field, and the loop goes on.
theorem reads_item (rule : HeadlessRuleConfig) (item : RuleItem) (h : item.Fits iter) :
    Decoder.Reads (readItem iter rule) (.again (item.set rule)) item.put := by
  rw [RuleItem.put, ← List.singleton_append]
  refine (reads_u8 item.kind).bind ?_
  cases item with
  | network values => exact reads_again (reads_strings values h)
  | domain trie domains suffixes => exact reads_again (reads_domainMatcher iter trie h.1 h.2)
  | domainKeyword values => exact reads_again (reads_strings values h)
  | sourceIpCidr ranges => exact reads_again (reads_ipSet ranges h)
  | ipCidr ranges => exact reads_again (reads_ipSet ranges h)
  | sourcePort ports => exact reads_again (reads_u16s ports h)
  | sourcePortRange values => exact reads_again (reads_strings values h)
  | port ports => exact reads_again (reads_u16s ports h)
  | portRange values => exact reads_again (reads_strings values h)

theorem reads_final (rule : HeadlessRuleConfig) (invert : Bool) :
    Decoder.Reads (readItem iter rule) (.done { rule with invert }) (ITEM_FINAL :: putBool invert) := by
  have hread : Decoder.Reads (readItemBody iter rule ITEM_FINAL) (.done { rule with invert })
      (putBool invert ++ []) := (reads_bool invert).bind (Decoder.Reads.pure _)
  rw [List.append_nil] at hread
  exact (reads_u8 ITEM_FINAL).bind hread

theorem reads_defaultRule (items : List RuleItem) (invert : Bool)
    (h : ∀ item ∈ items, item.Fits iter) :
    Decoder.Reads (readDefaultRule iter) { items.foldl RuleItem.set {} with invert }
      (items.flatMap RuleItem.put ++ ITEM_FINAL :: putBool invert) :=
  Decoder.Reads.loop (readItem_takes iter) RuleItem.set (fun rule => { rule with invert }) items
    (fun item hi rule => reads_item iter rule item (h item hi))
    (fun rule => reads_final iter rule invert) {}

namespace RuleTree

theorem putEach_eq_flatMap (rules : List RuleTree) : putEach rules = rules.flatMap put := by
  induction rules with
  | nil => rfl
  | cons rule rules ih => rw [putEach, ih, List.flatMap_cons]

theorem configs_eq_map (rules : List RuleTree) : configs rules = rules.map config := by
  induction rules with
  | nil => rfl
  | cons rule rules ih => rw [configs, ih, List.map_cons]

end RuleTree

theorem reads_rule (levels : Nat) (rule : RuleTree) (h : rule.Fits iter levels) :
    Decoder.Reads (readRule iter levels) rule.config rule.put := by
  induction levels generalizing rule with
  | zero => exact h.elim
  | succ levels ih =>
      cases rule with
      | default items invert =>
          exact (reads_u8 0).bind (reads_defaultRule iter items invert h.2)
      | logical mode rules invert =>
          obtain ⟨hcount, hrules⟩ := h
          have heach := Decoder.Reads.times_map rules
            (fun rule hr _ => ih rule (hrules rule hr)) 0
          rw [← RuleTree.configs_eq_map, ← RuleTree.putEach_eq_flatMap] at heach
          have hhead := reads_count "logical rule count" rules.length hcount
          cases mode with
          | and =>
              have hread : Decoder.Reads (readRule iter (levels + 1))
                  (RuleTree.logical .and rules invert).config ([1] ++ ([0] ++
                    (putUvarint rules.length ++ (RuleTree.putEach rules ++ (putBool invert ++ []))))) :=
                (reads_u8 1).bind <| (reads_u8 0).bind <| (Decoder.Reads.pure "and").bind_nil <|
                  hhead.bind <| heach.bind <| (reads_bool invert).bind (Decoder.Reads.pure _)
              simpa only [RuleTree.put, List.append_nil, List.cons_append, List.nil_append,
                List.append_assoc] using hread
          | or =>
              have hread : Decoder.Reads (readRule iter (levels + 1))
                  (RuleTree.logical .or rules invert).config ([1] ++ ([1] ++
                    (putUvarint rules.length ++ (RuleTree.putEach rules ++ (putBool invert ++ []))))) :=
                (reads_u8 1).bind <| (reads_u8 1).bind <| (Decoder.Reads.pure "or").bind_nil <|
                  hhead.bind <| heach.bind <| (reads_bool invert).bind (Decoder.Reads.pure _)
              simpa only [RuleTree.put, List.append_nil, List.cons_append, List.nil_append,
                List.append_assoc] using hread

theorem reads_rules (rules : List RuleTree) (hcount : rules.length ≤ MAX_COLLECTION_SIZE)
    (hrules : ∀ rule ∈ rules, rule.Fits iter MAX_RECURSION) :
    Decoder.Reads (readRules iter) (rules.map RuleTree.config) (putRules rules) :=
  (reads_count "rule count" rules.length hcount).bind <|
    Decoder.Reads.times_map rules (fun rule hr _ =>
      (reads_rule iter MAX_RECURSION rule (hrules rule hr)).withContext _) 0

-- The decoder of the rules looks at no more than what it takes.
theorem readRule_local (levels : Nat) : Decoder.Local (readRule iter levels) := by
  induction levels with
  | zero => exact .fail _
  | succ levels ih =>
      refine readU8_local.bind fun kind => .ite ?_ (.ite ?_ (.fail _))
      · exact Decoder.Local.loop (readItem_takes iter) (readItem_local iter) {}
      · have hrules (mode : String) : Decoder.Local (readCount "logical rule count" >>= fun count =>
            Decoder.times (fun _ => readRule iter levels) 0 count >>= fun rules =>
              readBool >>= fun invert => Pure.pure
                ({ kind := "logical", mode, rules, invert } : HeadlessRuleConfig)) :=
          (readCount_local _).bind fun count => (Decoder.Local.times (fun _ => ih) 0 count).bind
            fun rules => readBool_local.bind fun invert => Decoder.Local.pure _
        exact readU8_local.bind fun mode => .ite ((Decoder.Local.pure "and").bind hrules)
          (.ite ((Decoder.Local.pure "or").bind hrules) ((Decoder.Local.fail _).bind hrules))

theorem readRules_local : Decoder.Local (readRules iter) :=
  (readCount_local _).bind fun count => Decoder.Local.times
    (fun _ => (readRule_local iter MAX_RECURSION).withContext _) 0 count

-- A zlib stream that holds its bytes as they are.
def stored (bytes : Bytes) : Bytes × Option String := (bytes, none)

private theorem decompress_stored (payload : Bytes) :
    decompress stored payload = .ok (payload.take (MAX_DECOMPRESSED_SIZE + 1)) := rfl

-- A payload is accepted if it fits and is a list of rules, up to its last byte.
theorem decode_stored {version : UInt8} (hversion : 1 ≤ version ∧ version ≤ CURRENT_VERSION)
    (payload : Bytes) (source : RuleSetSource) :
    decode iter stored (MAGIC ++ version :: payload) = .ok source ↔
      payload.length ≤ MAX_DECOMPRESSED_SIZE ∧
        ∃ rules, readRules iter payload = .ok (rules, []) ∧ source = { version, rules } := by
  have hlen : 4 ≤ (MAGIC ++ version :: payload).length := by
    simp only [MAGIC, List.length_append, List.length_cons, List.length_nil]
    omega
  have hmagic : (MAGIC ++ version :: payload).take 3 = MAGIC := rfl
  have hat : (MAGIC ++ version :: payload).getD 3 0 = version := rfl
  have hdrop : (MAGIC ++ version :: payload).drop 4 = payload := rfl
  have hchecked : (1 ≤ version && version ≤ CURRENT_VERSION) = true := by simp [hversion]
  simp only [decode, Result.bind_eq_ok, hat, hdrop, decompress_stored]
  constructor
  · rintro ⟨_, _, _, _, _, _, bytes, hb, _, hsize, ⟨rules, rest⟩, hr, _, hrest, hsource⟩
    obtain rfl := Except.ok.inj hb
    have hsize' := of_decide_eq_true (Result.ensure_eq_ok.mp hsize)
    have hfit : payload.length ≤ MAX_DECOMPRESSED_SIZE := by
      rw [List.length_take] at hsize'
      omega
    have hnil := List.isEmpty_iff.mp (Result.ensure_eq_ok.mp hrest)
    rw [List.take_of_length_le (Nat.le_succ_of_le hfit)] at hr
    exact ⟨hfit, rules, hnil ▸ hr, (Except.ok.inj hsource).symm⟩
  · rintro ⟨hfit, rules, hr, rfl⟩
    refine ⟨(), Result.ensure_eq_ok.mpr (decide_eq_true hlen), (),
      Result.ensure_eq_ok.mpr (decide_eq_true hmagic), (), Result.ensure_eq_ok.mpr hchecked,
      payload, ?_, (), Result.ensure_eq_ok.mpr (decide_eq_true hfit), (rules, []), hr, (), rfl, rfl⟩
    rw [List.take_of_length_le (Nat.le_succ_of_le hfit)]

-- The rules come back, and a file that ends earlier or later is no rule-set.
theorem decode_inverts {version : UInt8} (hversion : 1 ≤ version ∧ version ≤ CURRENT_VERSION)
    (rules : List RuleTree) (hcount : rules.length ≤ MAX_COLLECTION_SIZE)
    (hrules : ∀ rule ∈ rules, rule.Fits iter MAX_RECURSION)
    (hsize : (putRules rules).length ≤ MAX_DECOMPRESSED_SIZE) :
    decode iter stored (MAGIC ++ version :: putRules rules) =
        .ok { version, rules := rules.map RuleTree.config } ∧
      (∀ front back, putRules rules = front ++ back → back ≠ [] →
        ∀ source, decode iter stored (MAGIC ++ version :: front) ≠ .ok source) ∧
      ∀ extra, extra ≠ [] →
        ∀ source, decode iter stored (MAGIC ++ version :: (putRules rules ++ extra)) ≠ .ok source := by
  have hread := reads_rules iter rules hcount hrules
  refine ⟨?_, ?_, ?_⟩
  · have hwhole := hread []
    rw [List.append_nil] at hwhole
    exact (decode_stored iter hversion _ _).mpr ⟨hsize, _, hwhole, rfl⟩
  · intro front back hsplit hback source hsource
    obtain ⟨_, other, hfront, _⟩ := (decode_stored iter hversion _ _).mp hsource
    rw [hsplit] at hread
    exact hback ((readRules_local iter).unique hread hfront)
  · intro extra hextra source hsource
    obtain ⟨_, other, hmore, _⟩ := (decode_stored iter hversion _ _).mp hsource
    rw [hread extra] at hmore
    exact hextra (Prod.mk.inj (Except.ok.inj hmore)).2

theorem decode_inverts_nested :
    decode id stored (MAGIC ++ 5 :: putRules [.logical .or [.default [.network ["tcp"],
        .ipCidr [.v4 0xc0000200#32 0xc00002ff#32 (by decide)], .port [443]] true] false]) =
      .ok { version := 5, rules := [RuleTree.config (.logical .or [.default [.network ["tcp"],
        .ipCidr [.v4 0xc0000200#32 0xc00002ff#32 (by decide)], .port [443]] true] false)] } := by
  refine (decode_inverts id (by decide) [.logical .or [.default [.network ["tcp"],
    .ipCidr [.v4 0xc0000200#32 0xc00002ff#32 (by decide)], .port [443]] true] false]
    (by decide) ?_ (by decide)).1
  have hone : 1 ≤ MAX_COLLECTION_SIZE := by decide
  have hnetwork : StringsFit ["tcp"] := ⟨hone, by decide⟩
  simp only [List.mem_singleton, forall_eq, RuleTree.Fits, MAX_RECURSION]
  refine ⟨hone, by decide, fun item hi => ?_⟩
  simp only [List.mem_cons, List.not_mem_nil, or_false] at hi
  obtain rfl | rfl | rfl := hi
  · exact hnetwork
  · exact hone
  · exact hone

end

end SingBox.Core.Srs
