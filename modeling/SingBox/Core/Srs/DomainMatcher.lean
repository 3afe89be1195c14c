import Mathlib.Data.List.Nodup
import Mathlib.Data.Set.List
import SingBox.Core.Rule
import SingBox.Core.Srs.DomainTrie

namespace SingBox.Core.Srs

open Library

-- A lower-case domain of labels that are not empty.
structure Domain where
  text : String
  labels : ∀ label ∈ text.toList.splitOn '.', label ≠ []
  chars : ∀ char ∈ text.toList, char.toLower = char ∧ char ≠ '\r' ∧ char ≠ '\n'

theorem Domain.ext {first second : Domain} (h : first.text = second.text) : first = second := by
  cases first
  cases second
  congr

def dotted (text : String) : String := String.ofList ('.' :: text.toList)

-- What a domain starts with is no mark.
theorem Domain.toList_eq (this : Domain) :
    ∃ first rest, this.text.toList = first :: rest ∧ first ≠ '.' ∧ first ≠ '\r' ∧ first ≠ '\n' := by
  have hlabels := this.labels
  have hchars := this.chars
  cases htext : this.text.toList with
  | nil =>
      rw [htext] at hlabels
      exact absurd rfl (hlabels [] (by simp))
  | cons first rest =>
      rw [htext] at hlabels hchars
      refine ⟨first, rest, rfl, ?_, (hchars first (by simp)).2⟩
      rintro rfl
      exact absurd rfl (hlabels [] (by simp [List.splitOn_cons_eq_if_modifyHead]))

-- A key of the set, by the domain it is made from.
inductive DomainKey where
  | exact (domain : Domain)
  -- The prefix label: what ends with the dotted domain.
  | below (domain : Domain)
  -- The root label: the domain and everything below it.
  | root (domain : Domain)

namespace DomainKey

-- The key as it is read from its end.
def reading : DomainKey → List Char
  | .exact domain => domain.text.toList
  | .below domain => '\r' :: '.' :: domain.text.toList
  | .root domain => '\n' :: domain.text.toList

def bytes (this : DomainKey) : Bytes := utf8 (String.ofList this.reading.reverse)

def Covers (host : String) : DomainKey → Prop
  | .exact domain => host = domain.text
  | .below domain => '.' :: domain.text.toList <:+ host.toList
  | .root domain => host = domain.text ∨ '.' :: domain.text.toList <:+ host.toList

theorem reading_injective {first second : DomainKey} (h : first.reading = second.reading) :
    first = second := by
  have hdomain {left right : Domain} (he : left.text.toList = right.text.toList) : left = right :=
    Domain.ext (String.toList_inj.mp he)
  have hmark {domain : Domain} {mark : Char} {rest : List Char} (hm : mark = '\r' ∨ mark = '\n')
      (he : domain.text.toList = mark :: rest) : False := by
    obtain ⟨first, tail, htext, _, hcr, hlf⟩ := domain.toList_eq
    rw [htext, List.cons.injEq] at he
    obtain rfl | rfl := hm
    · exact hcr he.1
    · exact hlf he.1
  cases first with
  | exact left =>
      cases second with
      | exact right => rw [hdomain h]
      | below right => exact (hmark (.inl rfl) h).elim
      | root right => exact (hmark (.inr rfl) h).elim
  | below left =>
      cases second with
      | exact right => exact (hmark (.inl rfl) h.symm).elim
      | below right => rw [hdomain (List.tail_eq_of_cons_eq (List.tail_eq_of_cons_eq h))]
      | root right => exact absurd (List.head_eq_of_cons_eq h) (by decide)
  | root left =>
      cases second with
      | exact right => exact (hmark (.inr rfl) h.symm).elim
      | below right => exact absurd (List.head_eq_of_cons_eq h) (by decide)
      | root right => rw [hdomain (List.tail_eq_of_cons_eq h)]

theorem bytes_injective {first second : DomainKey} (h : first.bytes = second.bytes) :
    first = second := by
  have htext := fromUtf8_utf8 "" (String.ofList first.reading.reverse)
  rw [show utf8 (String.ofList first.reading.reverse) = second.bytes from h, bytes,
    fromUtf8_utf8] at htext
  have hchars := congrArg String.toList (Except.ok.inj htext)
  rw [String.toList_ofList, String.toList_ofList] at hchars
  exact reading_injective (List.reverse_injective hchars.symm)

-- What a key adds to the sets.
def add (sets : KeySets) : DomainKey → KeySets
  | .exact domain => { sets with exact := sets.exact.insert domain.text }
  | .below domain => { sets with prefixes := sets.prefixes.insert (dotted domain.text) }
  | .root domain => { sets with suffix := sets.suffix.insert domain.text }

theorem addKey_bytes (sets : KeySets) (key : DomainKey) :
    addKey sets key.bytes = .ok (key.add sets) := by
  rw [addKey, bytes, fromUtf8_utf8]
  simp only [bind, Except.bind, String.toList_ofList, List.reverse_reverse]
  cases key with
  | exact domain =>
      obtain ⟨first, rest, htext, _, hcr, hlf⟩ := domain.toList_eq
      simp only [reading]
      split
      · rename_i hmark
        exact absurd (List.head_eq_of_cons_eq (htext.symm.trans hmark)) hcr
      · rename_i hmark
        exact absurd (List.head_eq_of_cons_eq (htext.symm.trans hmark)) hlf
      · rw [String.ofList_toList]
        rfl
  | below domain => rfl
  | root domain =>
      simp only [reading, String.ofList_toList]
      rfl

theorem foldlM_addKey (keys : List DomainKey) (sets : KeySets) :
    (keys.map bytes).foldlM addKey sets = .ok (keys.foldl add sets) := by
  induction keys generalizing sets with
  | nil => rfl
  | cons key rest ih =>
      rw [List.map_cons, List.foldlM_cons, addKey_bytes]
      exact ih (key.add sets)

end DomainKey

-- What the sets hold: the keys so far.
structure KeySets.Holds (this : KeySets) (keys : List DomainKey) : Prop where
  exact : ∀ text, text ∈ this.exact ↔ ∃ domain, .exact domain ∈ keys ∧ text = domain.text
  prefixes : ∀ text, text ∈ this.prefixes ↔ ∃ domain, .below domain ∈ keys ∧ text = dotted domain.text
  suffix : ∀ text, text ∈ this.suffix ↔ ∃ domain, .root domain ∈ keys ∧ text = domain.text
  exact_nodup : this.exact.Nodup
  prefixes_nodup : this.prefixes.Nodup
  suffix_nodup : this.suffix.Nodup

theorem KeySets.Holds.add {sets : KeySets} {keys : List DomainKey} (h : sets.Holds keys)
    (key : DomainKey) : (key.add sets).Holds (keys ++ [key]) := by
  obtain ⟨hexact, hprefixes, hsuffix, hexactNodup, hprefixesNodup, hsuffixNodup⟩ := h
  cases key with
  | exact domain =>
      refine ⟨?_, ?_, ?_, List.Nodup.insert hexactNodup, hprefixesNodup, hsuffixNodup⟩ <;>
        simp [DomainKey.add, hexact, hprefixes, hsuffix, or_and_right, exists_or, or_comm]
  | below domain =>
      refine ⟨?_, ?_, ?_, hexactNodup, List.Nodup.insert hprefixesNodup, hsuffixNodup⟩ <;>
        simp [DomainKey.add, hexact, hprefixes, hsuffix, or_and_right, exists_or, or_comm]
  | root domain =>
      refine ⟨?_, ?_, ?_, hexactNodup, hprefixesNodup, List.Nodup.insert hsuffixNodup⟩ <;>
        simp [DomainKey.add, hexact, hprefixes, hsuffix, or_and_right, exists_or, or_comm]

theorem KeySets.Holds.foldl {sets : KeySets} {keys : List DomainKey} (h : sets.Holds keys)
    (more : List DomainKey) : (more.foldl DomainKey.add sets).Holds (keys ++ more) := by
  induction more generalizing sets keys with
  | nil => simpa using h
  | cons key rest ih => simpa using ih (h.add key)

theorem KeySets.holds_nil : KeySets.Holds {} [] := by constructor <;> simp

theorem dotted_injective {first second : String} (h : dotted first = dotted second) :
    first = second := by
  have hchars := congrArg String.toList h
  rw [dotted, dotted, String.toList_ofList, String.toList_ofList] at hchars
  exact String.toList_inj.mp (List.tail_eq_of_cons_eq hchars)

theorem addPrefix_dotted (sets : KeySets) (root : String) :
    addPrefix sets (dotted root) =
      if root ∈ sets.exact then
        { sets with exact := sets.exact.erase root, suffix := sets.suffix.insert root }
      else { sets with suffix := sets.suffix.insert (dotted root) } := by
  simp only [addPrefix, dotted, String.toList_ofList, String.ofList_toList]

-- What the sets become when the dotted domains of these roots are merged in. A
-- root that is a key itself takes its domain along.
structure KeySets.Merged (before after : KeySets) (roots : List String) : Prop where
  exact : ∀ text, text ∈ after.exact ↔ text ∈ before.exact ∧ text ∉ roots
  suffix : ∀ text, text ∈ after.suffix ↔ text ∈ before.suffix ∨
    (text ∈ roots ∧ text ∈ before.exact) ∨ ∃ root ∈ roots, root ∉ before.exact ∧ text = dotted root
  exact_nodup : after.exact.Nodup
  suffix_nodup : after.suffix.Nodup

theorem addPrefix_merged {sets : KeySets} (hexact : sets.exact.Nodup) (hsuffix : sets.suffix.Nodup)
    (root : String) : sets.Merged (addPrefix sets (dotted root)) [root] := by
  rw [addPrefix_dotted]
  by_cases hroot : root ∈ sets.exact
  · rw [if_pos hroot]
    refine ⟨fun text => ?_, fun text => ?_, hexact.erase root, List.Nodup.insert hsuffix⟩
    · rw [hexact.mem_erase_iff, List.mem_singleton, and_comm]
    · simp only [List.mem_insert_iff, List.mem_singleton, exists_eq_left, hroot, not_true,
        false_and, or_false]
      constructor
      · rintro (rfl | htext)
        · exact .inr ⟨rfl, hroot⟩
        · exact .inl htext
      · rintro (htext | ⟨rfl, _⟩)
        · exact .inr htext
        · exact .inl rfl
  · rw [if_neg hroot]
    refine ⟨fun text => ?_, fun text => ?_, hexact, List.Nodup.insert hsuffix⟩
    · refine ⟨fun htext => ⟨htext, ?_⟩, And.left⟩
      rw [List.mem_singleton]
      rintro rfl
      exact hroot htext
    · simp only [List.mem_insert_iff, List.mem_singleton, exists_eq_left, hroot, not_false_eq_true,
        true_and]
      constructor
      · rintro (rfl | htext)
        · exact .inr (.inr rfl)
        · exact .inl htext
      · rintro (htext | ⟨rfl, hmem⟩ | rfl)
        · exact .inr htext
        · exact absurd hmem hroot
        · exact .inl rfl

theorem KeySets.Merged.trans {sets mid after : KeySets} {root : String} {roots : List String}
    (hroot : root ∉ roots) (hfirst : sets.Merged mid [root]) (hrest : mid.Merged after roots) :
    sets.Merged after (root :: roots) := by
  -- the first root changes nothing for the ones behind it
  have hkept : ∀ other ∈ roots, (other ∈ mid.exact ↔ other ∈ sets.exact) := by
    intro other hother
    rw [hfirst.exact, List.mem_singleton, and_iff_left]
    rintro rfl
    exact hroot hother
  refine ⟨fun text => ?_, fun text => ?_, hrest.exact_nodup, hrest.suffix_nodup⟩
  · rw [hrest.exact, hfirst.exact, List.mem_singleton, List.mem_cons, not_or, and_assoc]
  · rw [hrest.suffix, hfirst.suffix, List.mem_singleton]
    constructor
    · rintro ((hbefore | ⟨rfl, hmem⟩ | ⟨other, hother, hmem, rfl⟩) | ⟨hlater, hmem⟩ |
        ⟨other, hother, hmem, rfl⟩)
      · exact .inl hbefore
      · exact .inr (.inl ⟨List.mem_cons_self, hmem⟩)
      · obtain rfl := List.mem_singleton.mp hother
        exact .inr (.inr ⟨other, List.mem_cons_self, hmem, rfl⟩)
      · exact .inr (.inl ⟨List.mem_cons_of_mem _ hlater, (hkept _ hlater).mp hmem⟩)
      · exact .inr (.inr ⟨other, List.mem_cons_of_mem _ hother,
          fun hexact => hmem ((hkept _ hother).mpr hexact), rfl⟩)
    · rintro (hbefore | ⟨hmem, hexact⟩ | ⟨other, hother, hexact, rfl⟩)
      · exact .inl (.inl hbefore)
      · obtain rfl | hlater := List.mem_cons.mp hmem
        · exact .inl (.inr (.inl ⟨rfl, hexact⟩))
        · exact .inr (.inl ⟨hlater, (hkept _ hlater).mpr hexact⟩)
      · obtain rfl | hlater := List.mem_cons.mp hother
        · exact .inl (.inr (.inr ⟨other, List.mem_singleton_self other, hexact, rfl⟩))
        · exact .inr (.inr ⟨other, hlater, fun hmid => hexact ((hkept _ hlater).mp hmid), rfl⟩)

theorem foldl_addPrefix {roots : List String} (hroots : roots.Nodup) {sets : KeySets}
    (hexact : sets.exact.Nodup) (hsuffix : sets.suffix.Nodup) :
    sets.Merged ((roots.map dotted).foldl addPrefix sets) roots := by
  induction roots generalizing sets with
  | nil => constructor <;> simp [hexact, hsuffix]
  | cons root roots ih =>
      obtain ⟨hroot, hrest⟩ := List.nodup_cons.mp hroots
      have hfirst := addPrefix_merged hexact hsuffix root
      exact hfirst.trans hroot (ih hrest hfirst.exact_nodup hfirst.suffix_nodup)

-- A set is iterated in some order.
def Shuffles (iter : List String → List String) : Prop := ∀ values, (iter values).Perm values

-- The lists for a set of keys: the exact domains, but for those that are merged
-- with a prefix, and the suffixes.
structure Dumped (keys : List DomainKey) (domain domainSuffix : List String) : Prop where
  exact : ∀ text, text ∈ domain ↔ (∃ domain, .exact domain ∈ keys ∧ text = domain.text) ∧
    ¬∃ domain, .below domain ∈ keys ∧ text = domain.text
  suffix : ∀ text, text ∈ domainSuffix ↔ (∃ domain, .root domain ∈ keys ∧ text = domain.text) ∨
    (∃ domain, .below domain ∈ keys ∧ .exact domain ∈ keys ∧ text = domain.text) ∨
    ∃ domain, .below domain ∈ keys ∧ .exact domain ∉ keys ∧ text = dotted domain.text
  exact_nodup : domain.Nodup
  suffix_nodup : domainSuffix.Nodup

theorem Dumped.perm {keys : List DomainKey} {domain domainSuffix domain' domainSuffix' : List String}
    (h : Dumped keys domain domainSuffix) (h' : Dumped keys domain' domainSuffix') :
    domain.Perm domain' ∧ domainSuffix.Perm domainSuffix' :=
  ⟨(List.perm_ext_iff_of_nodup h.exact_nodup h'.exact_nodup).mpr fun text =>
      (h.exact text).trans (h'.exact text).symm,
    (List.perm_ext_iff_of_nodup h.suffix_nodup h'.suffix_nodup).mpr fun text =>
      (h.suffix text).trans (h'.suffix text).symm⟩

theorem Dumped.of_perm {keys : List DomainKey}
    {domain domainSuffix domain' domainSuffix' : List String} (h : Dumped keys domain domainSuffix)
    (hdomain : domain.Perm domain') (hsuffix : domainSuffix.Perm domainSuffix') :
    Dumped keys domain' domainSuffix' :=
  ⟨fun text => hdomain.symm.mem_iff.trans (h.exact text),
    fun text => hsuffix.symm.mem_iff.trans (h.suffix text),
    hdomain.nodup h.exact_nodup, hsuffix.nodup h.suffix_nodup⟩

private theorem mem_exact_iff {sets : KeySets} {keys : List DomainKey} (h : sets.Holds keys)
    (domain : Domain) : domain.text ∈ sets.exact ↔ .exact domain ∈ keys := by
  rw [h.exact]
  constructor
  · rintro ⟨other, hother, he⟩
    rwa [Domain.ext he]
  · exact fun hkey => ⟨domain, hkey, rfl⟩

theorem dumped_of_merged {sets : KeySets} {keys : List DomainKey} (h : sets.Holds keys)
    {iter : List String → List String} (hiter : Shuffles iter) :
    Dumped keys ((iter sets.prefixes).foldl addPrefix sets).exact
      ((iter sets.prefixes).foldl addPrefix sets).suffix := by
  have hmem (text : String) : text ∈ iter sets.prefixes ↔
      ∃ domain, .below domain ∈ keys ∧ text = dotted domain.text :=
    (hiter sets.prefixes).mem_iff.trans (h.prefixes text)
  -- the roots of the dotted domains, in the order of the iteration
  let roots := (iter sets.prefixes).map fun text => String.ofList text.toList.tail
  have hroots : iter sets.prefixes = roots.map dotted := by
    have hid : ∀ text ∈ iter sets.prefixes, dotted (String.ofList text.toList.tail) = text := by
      intro text htext
      obtain ⟨domain, _, rfl⟩ := (hmem text).mp htext
      simp [dotted]
    rw [List.map_map]
    exact ((List.map_congr_left hid).trans (List.map_id' _)).symm
  have hroot (text : String) : text ∈ roots ↔ ∃ domain, .below domain ∈ keys ∧ text = domain.text := by
    have hdotted : text ∈ roots ↔ dotted text ∈ iter sets.prefixes := by
      rw [hroots, List.mem_map_of_injective fun _ _ => dotted_injective]
    rw [hdotted, hmem]
    refine exists_congr fun domain => and_congr_right fun _ => ?_
    exact ⟨dotted_injective, congrArg dotted⟩
  have hnodup : roots.Nodup := by
    refine List.Nodup.of_map dotted ?_
    rw [← hroots]
    exact (hiter sets.prefixes).nodup_iff.mpr h.prefixes_nodup
  have hmerged := foldl_addPrefix hnodup h.exact_nodup h.suffix_nodup
  rw [← hroots] at hmerged
  refine ⟨fun text => ?_, fun text => ?_, hmerged.exact_nodup, hmerged.suffix_nodup⟩
  · rw [hmerged.exact, h.exact, hroot]
  · rw [hmerged.suffix, h.suffix]
    refine or_congr_right (or_congr ?_ ?_)
    · rw [hroot]
      constructor
      · rintro ⟨⟨domain, hbelow, rfl⟩, hexact⟩
        exact ⟨domain, hbelow, (mem_exact_iff h domain).mp hexact, rfl⟩
      · rintro ⟨domain, hbelow, hexact, rfl⟩
        exact ⟨⟨domain, hbelow, rfl⟩, (mem_exact_iff h domain).mpr hexact⟩
    · constructor
      · rintro ⟨root, hr, hexact, rfl⟩
        obtain ⟨domain, hbelow, rfl⟩ := (hroot root).mp hr
        exact ⟨domain, hbelow, fun hkey => hexact ((mem_exact_iff h domain).mpr hkey), rfl⟩
      · rintro ⟨domain, hbelow, hexact, rfl⟩
        exact ⟨domain.text, (hroot _).mpr ⟨domain, hbelow, rfl⟩,
          fun hkey => hexact ((mem_exact_iff h domain).mp hkey), rfl⟩

theorem sortUnstable_congr {values others : List String} (h : values.Perm others) :
    sortUnstable values = sortUnstable others := by
  have hsorted (values : List String) : (sortUnstable values).Pairwise (· ≤ ·) := by
    have htrans (first second third : String) (hf : decide (first ≤ second) = true)
        (hs : decide (second ≤ third) = true) : decide (first ≤ third) = true :=
      decide_eq_true (String.le_trans (of_decide_eq_true hf) (of_decide_eq_true hs))
    have htotal (first second : String) :
        (decide (first ≤ second) || decide (second ≤ first)) = true := by
      simpa using String.le_total first second
    exact (List.pairwise_mergeSort htrans htotal values).imp of_decide_eq_true
  refine List.Perm.eq_of_pairwise (fun _ _ _ _ => String.le_antisymm) (hsorted values)
    (hsorted others) ?_
  exact (List.mergeSort_perm _ _).trans (h.trans (List.mergeSort_perm _ _).symm)

-- The order in which the sets are iterated does not show in the lists.
theorem dumpDomainKeys_spec (keys : List DomainKey) :
    ∃ domain domainSuffix, Dumped keys domain domainSuffix ∧
      ∀ iter, Shuffles iter →
        dumpDomainKeys iter (keys.map DomainKey.bytes) = .ok (domain, domainSuffix) := by
  let sets := keys.foldl DomainKey.add {}
  let merged (iter : List String → List String) := (iter sets.prefixes).foldl addPrefix sets
  have hsets : sets.Holds keys := by
    have h := KeySets.holds_nil.foldl keys
    rwa [List.nil_append] at h
  have hmerged (iter : List String → List String) (hiter : Shuffles iter) :
      Dumped keys (merged iter).exact (merged iter).suffix := dumped_of_merged hsets hiter
  have hid : Dumped keys (merged id).exact (merged id).suffix :=
    hmerged id fun values => .refl values
  refine ⟨sortUnstable (merged id).exact, sortUnstable (merged id).suffix, ?_, fun iter hiter => ?_⟩
  · exact hid.of_perm (List.mergeSort_perm _ _).symm (List.mergeSort_perm _ _).symm
  · have hdump : dumpDomainKeys iter (keys.map DomainKey.bytes) =
        .ok (sortUnstable (iter (merged iter).exact), sortUnstable (iter (merged iter).suffix)) := by
      rw [dumpDomainKeys, DomainKey.foldlM_addKey]
      rfl
    obtain ⟨hexact, hsuffix⟩ := (hmerged iter hiter).perm hid
    rw [hdump, sortUnstable_congr ((hiter _).trans hexact),
      sortUnstable_congr ((hiter _).trans hsuffix)]

-- The condition on the domain of a rule with these lists.
theorem Dumped.matches_iff {keys : List DomainKey} {domain domainSuffix : List String}
    (h : Dumped keys domain domainSuffix) (host : String) :
    ((domain.any fun value => value == host) || domainSuffix.any fun value =>
        if value.toList.head? = some '.' then value.toList.isSuffixOf host.toList
        else host == value || ('.' :: value.toList).isSuffixOf host.toList) = true ↔
      ∃ key ∈ keys, key.Covers host := by
  have hplain (domain : Domain) : (if domain.text.toList.head? = some '.' then
        domain.text.toList.isSuffixOf host.toList
      else host == domain.text || ('.' :: domain.text.toList).isSuffixOf host.toList) = true ↔
      host = domain.text ∨ '.' :: domain.text.toList <:+ host.toList := by
    obtain ⟨first, rest, htext, hdot, _⟩ := domain.toList_eq
    have hhead : domain.text.toList.head? ≠ some '.' := by
      rw [htext, List.head?_cons]
      exact fun he => hdot (Option.some.inj he)
    rw [if_neg hhead, Bool.or_eq_true, beq_iff_eq, List.isSuffixOf_iff_suffix]
  have hdotted (domain : Domain) : (if (dotted domain.text).toList.head? = some '.' then
        (dotted domain.text).toList.isSuffixOf host.toList
      else host == dotted domain.text ||
        ('.' :: (dotted domain.text).toList).isSuffixOf host.toList) = true ↔
      '.' :: domain.text.toList <:+ host.toList := by
    rw [dotted, String.toList_ofList, List.head?_cons, if_pos rfl, List.isSuffixOf_iff_suffix]
  rw [Bool.or_eq_true, List.any_eq_true, List.any_eq_true]
  constructor
  · rintro (⟨text, htext, he⟩ | ⟨text, htext, hm⟩)
    · obtain ⟨⟨domain, hkey, rfl⟩, _⟩ := (h.exact text).mp htext
      exact ⟨_, hkey, (beq_iff_eq.mp he).symm⟩
    · obtain ⟨domain, hkey, rfl⟩ | ⟨domain, hbelow, hexact, rfl⟩ | ⟨domain, hkey, _, rfl⟩ :=
        (h.suffix text).mp htext
      · exact ⟨_, hkey, (hplain domain).mp hm⟩
      · obtain he | hends := (hplain domain).mp hm
        · exact ⟨_, hexact, he⟩
        · exact ⟨_, hbelow, hends⟩
      · exact ⟨_, hkey, (hdotted domain).mp hm⟩
  · rintro ⟨key, hkey, hcovers⟩
    cases key with
    | exact domain =>
        by_cases hbelow : .below domain ∈ keys
        · exact .inr ⟨domain.text, (h.suffix _).mpr (.inr (.inl ⟨domain, hbelow, hkey, rfl⟩)),
            (hplain domain).mpr (.inl hcovers)⟩
        · refine .inl ⟨domain.text, (h.exact _).mpr ⟨⟨domain, hkey, rfl⟩, ?_⟩, ?_⟩
          · rintro ⟨other, hother, he⟩
            exact hbelow (Domain.ext he ▸ hother)
          · exact beq_iff_eq.mpr hcovers.symm
    | below domain =>
        by_cases hexact : .exact domain ∈ keys
        · exact .inr ⟨domain.text, (h.suffix _).mpr (.inr (.inl ⟨domain, hkey, hexact, rfl⟩)),
            (hplain domain).mpr (.inr hcovers)⟩
        · exact .inr ⟨dotted domain.text,
            (h.suffix _).mpr (.inr (.inr ⟨domain, hkey, hexact, rfl⟩)),
            (hdotted domain).mpr hcovers⟩
    | root domain =>
        exact .inr ⟨domain.text, (h.suffix _).mpr (.inl ⟨domain, hkey, rfl⟩),
          (hplain domain).mpr hcovers⟩

-- Without a key there is nothing in the lists, and with one there is.
theorem Dumped.not_empty {keys : List DomainKey} {domain domainSuffix : List String}
    (h : Dumped keys domain domainSuffix) {key : DomainKey} (hkey : key ∈ keys) :
    (domain.isEmpty && domainSuffix.isEmpty) = false := by
  have hcovers : ∃ host, key.Covers host := by
    cases key with
    | exact domain => exact ⟨domain.text, rfl⟩
    | below domain => exact ⟨dotted domain.text, by simp [DomainKey.Covers, dotted]⟩
    | root domain => exact ⟨domain.text, .inl rfl⟩
  obtain ⟨host, hhost⟩ := hcovers
  have hany := (h.matches_iff host).mpr ⟨key, hkey, hhost⟩
  rw [Bool.and_eq_false_iff]
  cases domain with
  | cons _ _ => exact .inl rfl
  | nil =>
      cases domainSuffix with
      | cons _ _ => exact .inr rfl
      | nil => cases hany

-- The domains of the keys are lower-case already.
theorem Dumped.normalizeDomains_eq {keys : List DomainKey} {domain domainSuffix : List String}
    (h : Dumped keys domain domainSuffix) :
    normalizeDomains domain = domain ∧ normalizeDomains domainSuffix = domainSuffix := by
  have hchars (domain : Domain) : domain.text.toList.map Char.toLower = domain.text.toList :=
    (List.map_congr_left fun char hchar => (domain.chars char hchar).1).trans (List.map_id' _)
  have hplain (domain : Domain) : toAsciiLowercase domain.text = domain.text := by
    rw [toAsciiLowercase, hchars, String.ofList_toList]
  have hdotted (domain : Domain) : toAsciiLowercase (dotted domain.text) = dotted domain.text := by
    rw [toAsciiLowercase, dotted, String.toList_ofList, List.map_cons, hchars]
    rfl
  constructor
  · refine (List.map_congr_left fun text htext => ?_).trans (List.map_id' _)
    obtain ⟨⟨domain, _, rfl⟩, _⟩ := (h.exact text).mp htext
    exact hplain domain
  · refine (List.map_congr_left fun text htext => ?_).trans (List.map_id' _)
    obtain ⟨domain, _, rfl⟩ | ⟨domain, _, _, rfl⟩ | ⟨domain, _, _, rfl⟩ := (h.suffix text).mp htext
    · exact hplain domain
    · exact hplain domain
    · exact hdotted domain

-- The set of keys as it is laid out.
def trieOf (keys : List DomainKey) : DomainTrie := DomainTrie.ofKeys (keys.map DomainKey.bytes)

-- The walk of the trie finds the keys, each of them at least once and in some order.
theorem collect_keys {keys : List DomainKey} (hlong : ∀ key ∈ keys, key.bytes.length ≤ MAX_KEY) :
    ∃ found : List DomainKey, (∀ key, key ∈ found ↔ key ∈ keys) ∧
      DomainTrie.collect (keys.map DomainKey.bytes) (MAX_KEY + 1) 0 [] =
        .ok (found.map DomainKey.bytes) := by
  have hroot : (DomainTrie.nodes (keys.map DomainKey.bytes))[0]? = some [] := by
    rw [DomainTrie.nodes_eq]
    rfl
  have hreaches : DomainTrie.Reaches (keys.map DomainKey.bytes) (MAX_KEY + 1) [] := by
    intro bytes hbytes _
    obtain ⟨key, hkey, rfl⟩ := List.mem_map.mp hbytes
    have hle := hlong key hkey
    rw [List.length_nil]
    omega
  have hmem (bytes : Bytes) : bytes ∈ DomainTrie.below (keys.map DomainKey.bytes) (MAX_KEY + 1) [] ↔
      bytes ∈ keys.map DomainKey.bytes ∧ [] <+: bytes := DomainTrie.mem_below hreaches
  have hfound : DomainTrie.below (keys.map DomainKey.bytes) (MAX_KEY + 1) [] ∈
      Set.range (List.map DomainKey.bytes) := by
    rw [Set.range_list_map]
    intro bytes hbytes
    obtain ⟨key, _, rfl⟩ := List.mem_map.mp ((hmem bytes).mp hbytes).1
    exact ⟨key, rfl⟩
  obtain ⟨found, hfound⟩ := hfound
  refine ⟨found, fun key => ?_, ?_⟩
  · rw [← List.mem_map_of_injective fun _ _ => DomainKey.bytes_injective, hfound, hmem,
      List.mem_map_of_injective fun _ _ => DomainKey.bytes_injective]
    exact and_iff_left key.bytes.nil_prefix
  · rw [hfound]
    exact DomainTrie.collect_eq_below hroot (Nat.succ_pos _) hreaches

theorem fromHeadless_domains {config : HeadlessRuleConfig} {matcher : RuleMatcher}
    (h : RuleMatcher.fromHeadless config = .ok matcher) :
    matcher.domains = normalizeDomains config.domain ∧
      matcher.domainSuffixes = normalizeDomains config.domainSuffix ∧
      matcher.domainKeywords = normalizeDomains config.domainKeyword := by
  simp only [RuleMatcher.fromHeadless, Result.bind_eq_ok] at h
  obtain ⟨_, _, _, _, _, _, _, _, _, _, hmatcher⟩ := h
  obtain rfl := Except.ok.inj hmatcher
  exact ⟨rfl, rfl, rfl⟩

-- A key beyond the limit makes the whole trie unreadable.
theorem readDomainMatcher_long_key {keys : List DomainKey} {key : DomainKey} (hkey : key ∈ keys)
    (hlong : MAX_KEY < key.bytes.length)
    (hlabels : (trieOf keys).labels.length ≤ MAX_COLLECTION_SIZE) (iter : List String → List String)
    (rest : Bytes) (result : (List String × List String) × Bytes) :
    readDomainMatcher iter ((trieOf keys).put ++ rest) ≠ .ok result := by
  have hroot : (DomainTrie.nodes (keys.map DomainKey.bytes))[0]? = some [] := by
    rw [DomainTrie.nodes_eq]
    rfl
  have hlength : ([] : Bytes).length + (MAX_KEY + 1) ≤ key.bytes.length := by
    rw [List.length_nil]
    omega
  have hfits : (trieOf keys).Fits := DomainTrie.fits_ofKeys hlabels
  intro h
  rw [readDomainMatcher_put iter _ hfits, trieOf, DomainTrie.domains_ofKeys] at h
  cases hcollect : DomainTrie.collect (keys.map DomainKey.bytes) (MAX_KEY + 1) 0 [] with
  | error chain =>
      rw [hcollect] at h
      cases h
  | ok collected =>
      exact DomainTrie.collect_fails hroot (List.mem_map_of_mem hkey) key.bytes.nil_prefix hlength
        collected hcollect

theorem utf8_replicate (length : Nat) :
    (utf8 (String.ofList (List.replicate length 'a'))).length = length := by
  have hbytes : (utf8 (String.ofList (List.replicate length 'a'))) =
      (List.replicate length 'a').flatMap String.utf8EncodeChar := by
    simp [utf8, List.utf8Encode]
  rw [hbytes]
  simp [List.flatMap_replicate, String.utf8EncodeChar]

-- The trie of the keys is read as lists of domains, whatever the order of the sets,
-- and a rule with the lists matches a host that one of the keys covers.
def KeepsMeaning (keys : List DomainKey) : Prop :=
  ∃ domain domainSuffix,
    (∀ iter, Shuffles iter →
      Decoder.Reads (readDomainMatcher iter) (domain, domainSuffix) (trieOf keys).put) ∧
    ∀ (config : HeadlessRuleConfig) (matcher : RuleMatcher),
      RuleMatcher.fromHeadless { config with domain, domainSuffix, domainKeyword := [] } =
          .ok matcher →
        ∀ host, matcher.domainMatches (toAsciiLowercase host) = true ↔
          ∃ key ∈ keys, key.Covers (toAsciiLowercase host)

-- The trie is an item that the decoder reads, with the same lists in every order.
theorem exists_domain_item (keys : List DomainKey)
    (hlong : ∀ key ∈ keys, key.bytes.length ≤ MAX_KEY)
    (hlabels : (trieOf keys).labels.length ≤ MAX_COLLECTION_SIZE) :
    ∃ found domain domainSuffix, (∀ key, key ∈ found ↔ key ∈ keys) ∧
      Dumped found domain domainSuffix ∧
      ∀ iter, Shuffles iter → (RuleItem.domain (trieOf keys) domain domainSuffix).Fits iter := by
  obtain ⟨found, hfound, hcollect⟩ := collect_keys hlong
  obtain ⟨domain, domainSuffix, hdumped, hdump⟩ := dumpDomainKeys_spec found
  refine ⟨found, domain, domainSuffix, hfound, hdumped, fun iter hiter => ?_⟩
  refine ⟨DomainTrie.fits_ofKeys hlabels, ?_⟩
  rw [trieOf, DomainTrie.domains_ofKeys, hcollect]
  exact hdump iter hiter

theorem keepsMeaning_of_fits (keys : List DomainKey) (hsome : keys ≠ [])
    (hlong : ∀ key ∈ keys, key.bytes.length ≤ MAX_KEY)
    (hlabels : (trieOf keys).labels.length ≤ MAX_COLLECTION_SIZE) : KeepsMeaning keys := by
  obtain ⟨found, domain, domainSuffix, hfound, hdumped, hitem⟩ :=
    exists_domain_item keys hlong hlabels
  refine ⟨domain, domainSuffix, fun iter hiter => ?_, fun config matcher hmatcher host => ?_⟩
  · obtain ⟨hfits, hdomains⟩ := hitem iter hiter
    exact reads_domainMatcher iter _ hfits hdomains
  · obtain ⟨hdomains, hsuffixes, hkeywords⟩ := fromHeadless_domains hmatcher
    obtain ⟨key, hkey⟩ := List.exists_mem_of_ne_nil keys hsome
    have hempty := hdumped.not_empty ((hfound key).mpr hkey)
    have hlower := hdumped.normalizeDomains_eq
    have hmatches := hdumped.matches_iff (toAsciiLowercase host)
    simp only [hfound] at hmatches
    rw [← hmatches, RuleMatcher.domainMatches, hdomains, hsuffixes, hkeywords]
    simp only [hlower.1, hlower.2, hempty, Bool.false_and, Bool.false_or]
    simp only [normalizeDomains, List.map_nil, List.any_nil, Bool.or_false]

-- A domain of one label.
def letters (length : Nat) (h : length ≠ 0) : Domain where
  text := String.ofList (List.replicate length 'a')
  labels := by
    have hdot : '.' ∉ List.replicate length 'a' := fun hm =>
      absurd (List.eq_of_mem_replicate hm) (by decide)
    intro label hlabel
    rw [String.toList_ofList, List.splitOn_eq_singleton hdot, List.mem_singleton] at hlabel
    rw [hlabel]
    simpa using h
  chars := by
    intro char hchar
    rw [String.toList_ofList] at hchar
    rw [List.eq_of_mem_replicate hchar]
    decide

theorem keepsMeaning_sample : KeepsMeaning [.exact (letters 1 (by decide)),
    .below (letters 2 (by decide)), .root (letters 1 (by decide))] :=
  keepsMeaning_of_fits _ (by simp) (by decide) (by decide)

-- No key at all is no condition on the host, and a label may be too long.
theorem not_keepsMeaning :
    ¬KeepsMeaning [] ∧ ¬KeepsMeaning [.exact (letters 4097 (by decide))] := by
  have hid : Shuffles id := fun values => .refl values
  constructor
  · rintro ⟨domain, domainSuffix, hreads, hcovers⟩
    have hread := hreads id hid []
    have hempty : readDomainMatcher id ((trieOf []).put ++ []) = .ok (([], []), []) := by
      decide +kernel
    obtain ⟨rfl, rfl⟩ := Prod.mk.inj (Prod.mk.inj (Except.ok.inj (hempty.symm.trans hread))).1
    obtain ⟨key, hkey, _⟩ := (hcovers {} {} rfl "a.b").mp (by decide)
    cases hkey
  · rintro ⟨domain, domainSuffix, hreads, _⟩
    have hbytes : (DomainKey.exact (letters 4097 (by decide))).bytes =
        utf8 (String.ofList (List.replicate 4097 'a')) := by
      rw [DomainKey.bytes, DomainKey.reading, letters, String.toList_ofList, List.reverse_replicate]
    have hlength := utf8_replicate 4097
    rw [← hbytes] at hlength
    have hlabels : (trieOf [.exact (letters 4097 (by decide))]).labels.length ≤
        MAX_COLLECTION_SIZE := by
      rw [trieOf, List.map_singleton, DomainTrie.labels_ofKeys_singleton, hlength]
      decide
    have hlong : MAX_KEY < (DomainKey.exact (letters 4097 (by decide))).bytes.length := by
      rw [hlength]
      decide
    exact readDomainMatcher_long_key (List.mem_singleton_self _) hlong hlabels id [] _ (hreads id hid [])

end SingBox.Core.Srs
