import SingBox.Core.Ip.Text
import SingBox.Core.Radix

namespace SingBox.Core

open Library

-- Text that no digit of the radix stands in front of.
def Stops (radix : Nat) (text : List Char) : Prop :=
  ∀ char rest, text = char :: rest → toDigit radix char = none

theorem stops_nil (radix : Nat) : Stops radix [] := nofun

theorem stops_cons {radix : Nat} {char : Char} (h : toDigit radix char = none) (rest : List Char) :
    Stops radix (char :: rest) := by
  rintro other more ⟨⟩
  exact h

theorem stops_separator {separator : Char} (h : separator = '.' ∨ separator = ':') (rest : List Char) :
    Stops 16 (separator :: rest) := by
  refine stops_cons ?_ rest
  rcases h with rfl | rfl <;> decide

section

variable {radix : Nat}

theorem toDigit_digitChar (hradix : radix ≤ 16) {digit : Nat} (h : digit < radix) :
    toDigit radix (Nat.digitChar digit) = some digit := by
  have hall : ∀ radix < 17, ∀ digit < radix, toDigit radix (Nat.digitChar digit) = some digit := by
    decide
  exact hall radix (by omega) digit h

theorem numeralFrom_toDigits (hradix : 1 < radix) (hle : radix ≤ 16) (n : Nat) :
    numeralFrom radix (Nat.toDigits radix n) 0 = some n := by
  have hlast (digit mid : Nat) (h : digit < radix) :
      numeralFrom radix [Nat.digitChar digit] mid = some (mid * radix + digit) := by
    rw [numeralFrom, toDigit_digitChar hle h]
    rfl
  induction n using Nat.strongRecOn with
  | _ n ih =>
      rw [Nat.toDigits_eq_if hradix]
      split
      · next hlt =>
          rw [hlast n 0 hlt]
          exact congrArg some (by omega)
      · next hge =>
          have hfront := ih (n / radix) (Nat.div_lt_self (by omega) hradix)
          rw [numeralFrom_append, hfront, Option.bind_some, hlast _ _ (Nat.mod_lt n (by omega))]
          exact congrArg some (Nat.div_add_mod' n radix)

namespace Parser

theorem readDigits_numeral {maxDigits : Nat} {digits rest : List Char} {result count value : Nat}
    (h : numeralFrom radix digits result = some value) (hcount : count + digits.length ≤ maxDigits)
    (hrest : Stops radix rest) :
    readDigits radix maxDigits (digits ++ rest) result count =
      some ((value, count + digits.length), rest) := by
  induction digits generalizing result count with
  | nil =>
      obtain rfl := Option.some.inj h
      cases rest with
      | nil => rfl
      | cons char rest =>
          rw [List.nil_append, readDigits, hrest char rest rfl]
          rfl
  | cons char digits ih =>
      obtain ⟨digit, hdigit, hmore⟩ := Option.bind_eq_some_iff.mp h
      rw [List.length_cons] at hcount
      rw [List.cons_append, readDigits, hdigit]
      show (if maxDigits < count + 1 then none else _) = _
      rw [if_neg (by omega), ih hmore (by omega), List.length_cons]
      exact congrArg some (congrArg (·, rest) (congrArg (value, ·) (by omega)))

-- Only zero is written with a zero in front.
theorem toDigits_head (hradix : 1 < radix) (hle : radix ≤ 16) {n : Nat}
    (h : (Nat.toDigits radix n).head? = some '0') : n = 0 := by
  induction n using Nat.strongRecOn with
  | _ n ih =>
      rw [Nat.toDigits_eq_if hradix] at h
      split at h
      · next hlt => exact Nat.digitChar_eq_zero.mp (Option.some.inj h)
      · next hge =>
          rw [List.head?_append_of_ne_nil _ Nat.toDigits_ne_nil] at h
          have hzero := ih (n / radix) (Nat.div_lt_self (by omega) hradix) h
          exact absurd ((Nat.div_eq_zero_iff).mp hzero) (by omega)

theorem readNumber_toDigits (hradix : 1 < radix) (hle : radix ≤ 16) {bound maxDigits n : Nat}
    {rest : List Char} (hbound : n < bound) (hmax : n < radix ^ maxDigits) (hpos : 0 < maxDigits)
    (allowZeroPrefix : Bool) (hrest : Stops radix rest) :
    readNumber bound radix maxDigits allowZeroPrefix (Nat.toDigits radix n ++ rest) =
      some (n, rest) := by
  have hlength := (Nat.length_toDigits_le_iff hradix hpos).mpr hmax
  have hsome : (Nat.toDigits radix n).length ≠ 0 := Nat.ne_of_gt Nat.length_toDigits_pos
  have hzero : ¬((!allowZeroPrefix && (Nat.toDigits radix n ++ rest).head? == some '0' &&
      1 < (Nat.toDigits radix n).length) = true) := by
    intro h
    simp only [Bool.and_eq_true, beq_iff_eq, decide_eq_true_eq] at h
    obtain ⟨⟨-, hhead⟩, hlong⟩ := h
    rw [List.head?_append_of_ne_nil _ Nat.toDigits_ne_nil] at hhead
    obtain rfl := toDigits_head hradix hle hhead
    rw [Nat.toDigits_zero] at hlong
    exact absurd hlong (by decide)
  have hread : readDigits radix maxDigits (Nat.toDigits radix n ++ rest) 0 0 =
      some ((n, 0 + (Nat.toDigits radix n).length), rest) :=
    readDigits_numeral (numeralFrom_toDigits hradix hle n) (by omega) hrest
  rw [Nat.zero_add] at hread
  simp only [readNumber, hread, Option.bind_eq_bind, Option.bind_some, if_neg hsome, if_neg hzero,
    if_pos hbound]

end Parser

end

namespace Parser

variable {α β : Type}

theorem bind_some {read : Parser α} {input rest : List Char} {value : α}
    (h : read input = some (value, rest)) (next : α → Parser β) :
    (read >>= next) input = next value rest := by
  show (read input).bind (fun found => next found.1 found.2) = _
  rw [h]
  rfl

theorem bind_none {read : Parser α} {input : List Char} (h : read input = none)
    (next : α → Parser β) : (read >>= next) input = none := by
  show (read input).bind (fun found => next found.1 found.2) = _
  rw [h]
  rfl

theorem readSeparator_first (separator : Char) (inner : Parser α) (input : List Char) :
    readSeparator separator 0 inner input = inner input := rfl

theorem readSeparator_next (separator : Char) {index : Nat} (h : 0 < index) (inner : Parser α)
    (input : List Char) : readSeparator separator index inner (separator :: input) = inner input := by
  have hgiven : readGivenChar separator (separator :: input) = some ((), input) := if_pos rfl
  rw [readSeparator, if_pos h]
  exact bind_some hgiven _

theorem readOctet_toDigits {n : Nat} (h : n < 256) {rest : List Char} (hrest : Stops 10 rest) :
    readNumber 256 10 3 false (Nat.toDigits 10 n ++ rest) = some (n, rest) :=
  readNumber_toDigits (by decide) (by decide) h (by omega) (by decide) false hrest

theorem readIpv4Addr_ipv4Text (address : BitVec 32) {rest : List Char} (hrest : Stops 10 rest) :
    readIpv4Addr (IpAddr.ipv4Text address ++ rest) = some (address, rest) := by
  have hoctet (index : Nat) : IpAddr.octet address index < 256 := Nat.mod_lt _ (by decide)
  have hdot (more : List Char) : Stops 10 ('.' :: more) := stops_cons (by decide) more
  have hvalue : BitVec.ofNat 32 (((IpAddr.octet address 0 * 256 + IpAddr.octet address 1) * 256 +
      IpAddr.octet address 2) * 256 + IpAddr.octet address 3) = address := by
    apply BitVec.eq_of_toNat_eq
    have hlt := address.isLt
    rw [BitVec.toNat_ofNat]
    simp only [IpAddr.octet]
    omega
  have hnext {index n : Nat} (hindex : 0 < index) {more : List Char} (hn : n < 256)
      (hmore : Stops 10 more) :
      readOctet index ('.' :: (Nat.toDigits 10 n ++ more)) = some (n, more) := by
    rw [readOctet, readSeparator_next '.' hindex]
    exact readOctet_toDigits hn hmore
  have htext : IpAddr.ipv4Text address ++ rest =
      Nat.toDigits 10 (IpAddr.octet address 0) ++ '.' :: (Nat.toDigits 10 (IpAddr.octet address 1) ++
        '.' :: (Nat.toDigits 10 (IpAddr.octet address 2) ++
          '.' :: (Nat.toDigits 10 (IpAddr.octet address 3) ++ rest))) := by
    simp [IpAddr.ipv4Text]
  have hfirst (more : List Char) : readOctet 0
      (Nat.toDigits 10 (IpAddr.octet address 0) ++ '.' :: more) =
        some (IpAddr.octet address 0, '.' :: more) := readOctet_toDigits (hoctet 0) (hdot more)
  rw [htext, readIpv4Addr]
  refine (bind_some (hfirst _) _).trans ?_
  refine (bind_some (hnext (by decide) (hoctet 1) (hdot _)) _).trans ?_
  refine (bind_some (hnext (by decide) (hoctet 2) (hdot _)) _).trans ?_
  refine (bind_some (hnext (by decide) (hoctet 3) hrest) _).trans ?_
  rw [hvalue]
  rfl

-- Without a dot there is no IPv4 address.
theorem readIpv4Addr_none {input : List Char} (h : '.' ∉ input) : readIpv4Addr input = none := by
  rw [readIpv4Addr]
  cases hfirst : readOctet 0 input with
  | none => exact bind_none hfirst _
  | some found =>
      obtain ⟨one, rest⟩ := found
      refine (bind_some hfirst _).trans (bind_none ?_ _)
      obtain ⟨taken, rfl, -⟩ := takes_readNumber 256 10 3 false input one rest hfirst
      rw [readOctet, readSeparator, if_pos (by decide)]
      refine bind_none ?_ _
      cases rest with
      | nil => rfl
      | cons char rest =>
          have hchar : char ≠ '.' := by
            rintro rfl
            exact h (List.mem_append_right _ List.mem_cons_self)
          rw [readGivenChar, if_neg hchar]

-- Where no digit stands there is no number.
theorem readNumber_none {input : List Char} {radix : Nat} (h : Stops radix input)
    (bound maxDigits : Nat) (allowZeroPrefix : Bool) :
    readNumber bound radix maxDigits allowZeroPrefix input = none := by
  have hread : readDigits radix maxDigits input 0 0 = some ((0, 0), input) := by
    cases input with
    | nil => rfl
    | cons char rest => rw [readDigits, h char rest rfl]
  rw [readNumber, hread]
  rfl

theorem readIpv4Addr_colon (input : List Char) : readIpv4Addr (':' :: input) = none :=
  bind_none (readNumber_none (stops_cons (by decide) input) 256 3 false) _

-- A group of an IPv6 address with what separates it from the one before.
def groupText (index segment : Nat) : List Char :=
  if 0 < index then ':' :: Nat.toDigits 16 segment else Nat.toDigits 16 segment

def groupsText : Nat → List Nat → List Char
  | _, [] => []
  | index, segment :: rest => groupText index segment ++ groupsText (index + 1) rest

theorem readSeparator_groupText (index segment : Nat) (inner : Parser α) (rest : List Char) :
    readSeparator ':' index inner (groupText index segment ++ rest) =
      inner (Nat.toDigits 16 segment ++ rest) := by
  rw [groupText]
  by_cases hindex : 0 < index
  · rw [if_pos hindex]
    exact readSeparator_next ':' hindex inner _
  · obtain rfl : index = 0 := by omega
    rfl

-- No group can be read any more.
structure Closes (index : Nat) (text : List Char) : Prop where
  address : readSeparator ':' index readIpv4Addr text = none
  group : readSeparator ':' index (readNumber 65536 16 4 true) text = none

theorem closes_nil (index : Nat) : Closes index [] := by
  have hnumber (radix bound maxDigits : Nat) (zero : Bool) :
      readNumber bound radix maxDigits zero [] = none := readNumber_none (stops_nil radix) _ _ _
  have hgiven : readGivenChar ':' [] = none := rfl
  rcases Nat.eq_zero_or_pos index with rfl | hindex
  · exact ⟨readIpv4Addr_none List.not_mem_nil, hnumber 16 65536 4 true⟩
  · constructor
    · rw [readSeparator, if_pos hindex]
      exact bind_none hgiven _
    · rw [readSeparator, if_pos hindex]
      exact bind_none hgiven _

-- Two colons are no separator.
theorem closes_colons (index : Nat) (text : List Char) : Closes index (':' :: ':' :: text) := by
  have hgroup (rest : List Char) : readNumber 65536 16 4 true (':' :: rest) = none :=
    readNumber_none (stops_cons (by decide) rest) _ _ _
  rcases Nat.eq_zero_or_pos index with rfl | hindex
  · exact ⟨readIpv4Addr_colon _, hgroup _⟩
  · constructor
    · rw [readSeparator_next ':' hindex]
      exact readIpv4Addr_colon _
    · rw [readSeparator_next ':' hindex]
      exact hgroup _

theorem dot_notMem_toDigits (n : Nat) : '.' ∉ Nat.toDigits 16 n := by
  have hdigits : ∀ digit < 16, '.' ≠ Nat.digitChar digit := by decide
  intro h
  obtain ⟨digit, hlt, heq⟩ := mem_toDigits (by decide) h
  exact hdigits digit hlt heq

theorem dot_notMem_groupsText (index : Nat) (segments : List Nat) : '.' ∉ groupsText index segments := by
  induction segments generalizing index with
  | nil => exact List.not_mem_nil
  | cons segment rest ih =>
      have hgroup : '.' ∉ groupText index segment := by
        rw [groupText]
        split
        · simp [dot_notMem_toDigits]
        · exact dot_notMem_toDigits segment
      rw [groupsText, List.mem_append]
      exact not_or.mpr ⟨hgroup, ih (index + 1)⟩

theorem stops_groupsText {index : Nat} (h : 0 < index) (segments : List Nat) {rest : List Char}
    (hrest : Stops 16 rest) : Stops 16 (groupsText index segments ++ rest) := by
  cases segments with
  | nil => exact hrest
  | cons segment segments =>
      rw [groupsText, groupText, if_pos h]
      exact stops_separator (.inr rfl) _

-- The groups are read up to where they end.
theorem readGroups_groupsText (limit slots : Nat) {segments : List Nat} {rest : List Char}
    (hslots : slots ≤ limit) (hlength : segments.length ≤ slots)
    (hsegments : ∀ segment ∈ segments, segment < 65536) (hdot : '.' ∉ rest) (hstops : Stops 16 rest)
    (hcloses : segments.length < slots → Closes (limit - slots + segments.length) rest) :
    readGroups limit slots (groupsText (limit - slots) segments ++ rest) =
      ((segments.map (BitVec.ofNat 16), false), rest) := by
  induction segments generalizing slots with
  | nil =>
      cases slots with
      | zero => rfl
      | succ slots =>
          obtain ⟨haddress, hgroup⟩ := hcloses (Nat.succ_pos slots)
          simp only [List.length_nil, Nat.add_zero] at haddress hgroup
          rw [groupsText, List.nil_append, readGroups]
          simp only [haddress, hgroup, ite_self]
          rfl
  | cons segment segments ih =>
      obtain ⟨slots, rfl⟩ : ∃ n, slots = n + 1 := ⟨slots - 1, by simp at hlength; omega⟩
      obtain ⟨hsegment, hothers⟩ := List.forall_mem_cons.mp hsegments
      rw [List.length_cons] at hlength hcloses
      have hindex : limit - (slots + 1) + 1 = limit - slots := by omega
      have hnext : Stops 16 (groupsText (limit - slots) segments ++ rest) :=
        stops_groupsText (by omega) segments hstops
      have haddress : readIpv4Addr (Nat.toDigits 16 segment ++
          (groupsText (limit - slots) segments ++ rest)) = none := by
        refine readIpv4Addr_none ?_
        simp only [List.mem_append, not_or]
        exact ⟨dot_notMem_toDigits segment, dot_notMem_groupsText _ segments, hdot⟩
      have hgroup : readNumber 65536 16 4 true (Nat.toDigits 16 segment ++
          (groupsText (limit - slots) segments ++ rest)) =
            some (segment, groupsText (limit - slots) segments ++ rest) :=
        readNumber_toDigits (by decide) (by decide) hsegment (by omega) (by decide) true hnext
      have hrest := ih slots (by omega) (by omega) hothers (fun hless => by
        have hlater := hcloses (by omega)
        rwa [show limit - (slots + 1) + (segments.length + 1) =
          limit - slots + segments.length by omega] at hlater)
      rw [groupsText, hindex, List.append_assoc, readGroups]
      simp only [readSeparator_groupText, haddress, hgroup, hrest, ite_self]
      rfl

theorem segmentsText_eq (segments : List Nat) : IpAddr.segmentsText segments = groupsText 0 segments := by
  have hlater (segments : List Nat) (index : Nat) (segment : Nat) :
      IpAddr.segmentsText (segment :: segments) =
        Nat.toDigits 16 segment ++ groupsText (index + 1) segments := by
    induction segments generalizing index segment with
    | nil => exact (List.append_nil _).symm
    | cons next segments ih =>
        have hstep : IpAddr.segmentsText (segment :: next :: segments) =
          Nat.toDigits 16 segment ++ ':' :: IpAddr.segmentsText (next :: segments) := rfl
        rw [hstep, ih (index + 1) next, groupsText, groupText, if_pos (Nat.succ_pos index)]
        rfl
  cases segments with
  | nil => rfl
  | cons segment segments => exact hlater segments 0 segment

end Parser

namespace IpAddr

-- All that a span covers is zero.
structure Span.Zeros (this : Span) (segments : List Nat) (seen : Nat) : Prop where
  within : this.start + this.len ≤ seen
  zeros : ∀ index, this.start ≤ index → index < this.start + this.len → segments[index]? = some 0

theorem Span.zeros_empty (segments : List Nat) (seen : Nat) : Span.Zeros ⟨0, 0⟩ segments seen :=
  ⟨Nat.zero_le _, fun _ _ h => absurd h (Nat.not_lt_zero _)⟩

theorem Span.Zeros.later {this : Span} {segments : List Nat} {seen : Nat}
    (h : this.Zeros segments seen) : this.Zeros segments (seen + 1) :=
  ⟨Nat.le_succ_of_le h.within, h.zeros⟩

-- The longest span so far, and the one that ends here.
def spanStep (spans : Span × Span) (found : Nat × Nat) : Span × Span :=
  if found.1 = 0 then
    let current : Span :=
      { start := if spans.2.len = 0 then found.2 else spans.2.start, len := spans.2.len + 1 }
    (if spans.1.len < current.len then current else spans.1, current)
  else (spans.1, ⟨0, 0⟩)

theorem longestZeros_eq (segments : List Nat) :
    longestZeros segments = (segments.zipIdx.foldl spanStep (⟨0, 0⟩, ⟨0, 0⟩)).1 := rfl

structure Scanned (segments : List Nat) (seen : Nat) (spans : Span × Span) : Prop where
  longest : spans.1.Zeros segments seen
  current : spans.2.Zeros segments seen
  ends : spans.2.len = 0 ∨ spans.2.start + spans.2.len = seen

theorem Scanned.step {segments : List Nat} {seen segment : Nat} {spans : Span × Span}
    (h : Scanned segments seen spans) (hsegment : segments[seen]? = some segment) :
    Scanned segments (seen + 1) (spanStep spans (segment, seen)) := by
  rw [spanStep]
  by_cases hzero : segment = 0
  · subst hzero
    have hcurrent : Span.Zeros ⟨if spans.2.len = 0 then seen else spans.2.start, spans.2.len + 1⟩
        segments (seen + 1) ∧
        (if spans.2.len = 0 then seen else spans.2.start) + (spans.2.len + 1) = seen + 1 := by
      by_cases hfirst : spans.2.len = 0
      · rw [if_pos hfirst, hfirst]
        refine ⟨⟨Nat.le_refl _, fun index hle hlt => ?_⟩, rfl⟩
        obtain rfl : index = seen := by simp only at hle hlt; omega
        exact hsegment
      · have hends := h.ends.resolve_left hfirst
        rw [if_neg hfirst]
        refine ⟨⟨by simp only; omega, fun index hle hlt => ?_⟩, by omega⟩
        by_cases hlast : index = seen
        · exact hlast ▸ hsegment
        · exact h.current.zeros index hle (by simp only at hlt; omega)
    rw [if_pos rfl]
    refine ⟨?_, hcurrent.1, .inr hcurrent.2⟩
    simp only
    split
    · exact hcurrent.1
    · exact h.longest.later
  · rw [if_neg hzero]
    exact ⟨h.longest.later, Span.zeros_empty _ _, .inl rfl⟩

theorem scanned_foldl {front rest : List Nat} {spans : Span × Span}
    (h : Scanned (front ++ rest) front.length spans) :
    Scanned (front ++ rest) (front ++ rest).length
      ((rest.zipIdx front.length).foldl spanStep spans) := by
  induction rest generalizing front spans with
  | nil => simpa using h
  | cons segment rest ih =>
      have hsegment : (front ++ segment :: rest)[front.length]? = some segment := by simp
      have hstep := h.step hsegment
      have hlength : front.length + 1 = (front ++ [segment]).length := by simp
      have hsplit : front ++ segment :: rest = (front ++ [segment]) ++ rest := by simp
      rw [List.zipIdx_cons, List.foldl_cons, hlength]
      rw [hlength, hsplit] at hstep
      rw [hsplit]
      exact ih hstep

theorem longestZeros_zeros (segments : List Nat) :
    (longestZeros segments).Zeros segments segments.length := by
  have hempty := Span.zeros_empty segments 0
  have hfirst : Scanned ([] ++ segments) ([] : List Nat).length (⟨0, 0⟩, ⟨0, 0⟩) :=
    ⟨hempty, hempty, .inl rfl⟩
  exact (scanned_foldl hfirst).longest

-- Zeros in the place of the span make up the segments again.
theorem segments_around {segments : List Nat} {span : Span}
    (h : span.Zeros segments segments.length) :
    segments.take span.start ++ List.replicate span.len 0 ++ segments.drop (span.start + span.len) =
      segments := by
  have hmiddle : (segments.drop span.start).take span.len = List.replicate span.len 0 := by
    apply List.eq_replicate_iff.mpr
    refine ⟨?_, fun segment hsegment => ?_⟩
    · have hwithin := h.within
      rw [List.length_take, List.length_drop]
      omega
    · obtain ⟨index, hindex⟩ := List.getElem?_of_mem hsegment
      rw [List.getElem?_take] at hindex
      split at hindex
      · next hlt =>
          rw [List.getElem?_drop, h.zeros _ (Nat.le_add_right _ _) (by omega)] at hindex
          exact (Option.some.inj hindex).symm
      · cases hindex
  rw [← hmiddle, List.append_assoc, ← List.drop_drop, List.take_append_drop, List.take_append_drop]

-- A number is made up of its digits in any base.
theorem foldl_digits (base count acc n : Nat) :
    ((List.range count).map fun index => n / base ^ (count - 1 - index) % base).foldl
      (fun value digit => value * base + digit) acc = acc * base ^ count + n % base ^ count := by
  induction count generalizing acc with
  | zero => simp [Nat.mod_one]
  | succ count ih =>
      have hrest : (List.range count).map (fun index => n / base ^ (count + 1 - 1 - (index + 1)) % base) =
          (List.range count).map fun index => n / base ^ (count - 1 - index) % base := by
        refine List.map_congr_left fun index _ => ?_
        rw [show count + 1 - 1 - (index + 1) = count - 1 - index by omega]
      rw [List.range_succ_eq_map, List.map_cons, List.map_map, List.foldl_cons]
      have hmap : (fun index => n / base ^ (count + 1 - 1 - index) % base) ∘ Nat.succ =
          fun index => n / base ^ (count + 1 - 1 - (index + 1)) % base := rfl
      rw [hmap, hrest, ih, Nat.mod_pow_succ, Nat.pow_succ]
      simp only [Nat.add_sub_cancel, Nat.sub_zero]
      rw [Nat.add_mul, Nat.mul_assoc, Nat.mul_comm base, Nat.mul_comm (n / base ^ count % base),
        Nat.add_assoc, Nat.add_comm (base ^ count * (n / base ^ count % base))]

theorem segments_small (address : BitVec 128) : ∀ segment ∈ segments address, segment < 65536 := by
  intro segment hsegment
  obtain ⟨index, -, rfl⟩ := List.mem_map.mp hsegment
  exact Nat.mod_lt _ (by decide)

theorem ofGroups_segments (address : BitVec 128) :
    Parser.ofGroups ((segments address).map (BitVec.ofNat 16)) = address := by
  have hfold (segments : List Nat) (acc : Nat) (h : ∀ segment ∈ segments, segment < 65536) :
      (segments.map (BitVec.ofNat 16)).foldl (fun n group => n * 65536 + group.toNat) acc =
        segments.foldl (fun n segment => n * 65536 + segment) acc := by
    induction segments generalizing acc with
    | nil => rfl
    | cons segment segments ih =>
        obtain ⟨hsegment, hrest⟩ := List.forall_mem_cons.mp h
        rw [List.map_cons, List.foldl_cons, List.foldl_cons, BitVec.toNat_ofNat,
          Nat.mod_eq_of_lt (by omega)]
        exact ih _ hrest
  have hdigits := foldl_digits 65536 8 0 address.toNat
  apply BitVec.eq_of_toNat_eq
  rw [Parser.ofGroups, hfold _ 0 (segments_small address), segments, hdigits, BitVec.toNat_ofNat]
  have hlt := address.isLt
  omega

theorem toNat_toIpv6Mapped (address : BitVec 32) :
    (toIpv6Mapped address).toNat = 0xffff * 2 ^ 32 + address.toNat := by
  rw [toIpv6Mapped, BitVec.toNat_append, ← Nat.shiftLeft_add_eq_or_of_lt address.isLt,
    Nat.shiftLeft_eq]
  rfl

theorem toIpv6Mapped_of_some {address : BitVec 128} {ipv4 : BitVec 32}
    (h : toIpv4Mapped address = some ipv4) : address = toIpv6Mapped ipv4 := by
  rw [toIpv4Mapped] at h
  split at h
  · next hhigh =>
      obtain rfl := Option.some.inj h
      have hnat := congrArg BitVec.toNat hhigh
      apply BitVec.eq_of_toNat_eq
      have hlt := address.isLt
      rw [toNat_toIpv6Mapped]
      simp only [BitVec.extractLsb'_toNat, BitVec.toNat_ofNat, Nat.shiftRight_eq_div_pow] at hnat ⊢
      omega
  · cases h

theorem segments_length (address : BitVec 128) : (segments address).length = 8 := by
  rw [segments, List.length_map, List.length_range]

end IpAddr

namespace Parser

open IpAddr (ipv4Text toIpv6Mapped)

-- All eight groups are there.
theorem readIpv6Addr_groups {groups : List Nat} (hlength : groups.length = 8)
    (hgroups : ∀ group ∈ groups, group < 65536) :
    readIpv6Addr (groupsText 0 groups) = some (ofGroups (groups.map (BitVec.ofNat 16)), []) := by
  have hread := readGroups_groupsText 8 8 (Nat.le_refl 8) (by omega) hgroups
    List.not_mem_nil (stops_nil 16) (fun h => absurd h (by omega))
  rw [List.append_nil, Nat.sub_self] at hread
  rw [readIpv6Addr, hread]
  simp only [List.length_map, if_pos hlength]
  rfl

-- The groups on the two sides of two colons.
theorem readIpv6Addr_colons {input rest left : List Char} {head tail : List (BitVec 16)}
    {embedded : Bool} (hhead : readGroups 8 8 input = ((head, false), ':' :: ':' :: rest))
    (hshort : head.length < 8)
    (htail : readGroups (8 - (head.length + 1)) (8 - (head.length + 1)) rest =
      ((tail, embedded), left)) :
    readIpv6Addr input =
      some (ofGroups (head ++ List.replicate (8 - head.length - tail.length) 0 ++ tail), left) := by
  have hgiven (rest : List Char) : readGivenChar ':' (':' :: rest) = some ((), rest) := by
    rw [readGivenChar, if_pos rfl]
  have hcount : ¬head.length = 8 := Nat.ne_of_lt hshort
  simp only [readIpv6Addr, hhead, if_neg hcount, Bool.false_eq_true, if_false, hgiven, Option.bind_eq_bind,
    Option.bind_some, htail, pure]

theorem readIpv6Addr_compressed {front back : List Nat} (hlength : front.length + back.length < 7)
    (hfront : ∀ group ∈ front, group < 65536) (hback : ∀ group ∈ back, group < 65536) :
    readIpv6Addr (groupsText 0 front ++ ':' :: ':' :: groupsText 0 back) =
      some (ofGroups ((front ++ List.replicate (8 - front.length - back.length) 0 ++ back).map
        (BitVec.ofNat 16)), []) := by
  have hdot : '.' ∉ ':' :: ':' :: groupsText 0 back := by simp [dot_notMem_groupsText]
  have hhead := readGroups_groupsText 8 8 (Nat.le_refl 8) (by omega) hfront hdot
    (stops_separator (.inr rfl) _) (fun _ => closes_colons _ _)
  have htail := readGroups_groupsText (8 - (front.length + 1)) (8 - (front.length + 1)) (Nat.le_refl _)
    (by omega) hback List.not_mem_nil (stops_nil 16) (fun _ => closes_nil _)
  rw [Nat.sub_self] at hhead htail
  rw [List.append_nil] at htail
  have hlimit : readGroups (8 - ((front.map (BitVec.ofNat 16)).length + 1))
      (8 - ((front.map (BitVec.ofNat 16)).length + 1)) (groupsText 0 back) =
        ((back.map (BitVec.ofNat 16), false), []) := by rw [List.length_map, htail]
  rw [readIpv6Addr_colons hhead (by rw [List.length_map]; omega) hlimit, List.length_map, List.length_map, List.map_append, List.map_append, List.map_replicate]
  rfl

-- The dotted form that is left to the last two groups.
theorem readIpv6Addr_mapped (address : BitVec 32) :
    readIpv6Addr ("::ffff:".toList ++ ipv4Text address) = some (toIpv6Mapped address, []) := by
  have htext : "::ffff:".toList ++ ipv4Text address =
      ':' :: ':' :: ("ffff:".toList ++ ipv4Text address) := rfl
  have hhead : readGroups 8 8 (':' :: ':' :: ("ffff:".toList ++ ipv4Text address)) =
      (([], false), ':' :: ':' :: ("ffff:".toList ++ ipv4Text address)) := by
    obtain ⟨haddress, hgroup⟩ := closes_colons 0 ("ffff:".toList ++ ipv4Text address)
    rw [readGroups]
    simp only [Nat.sub_self, haddress, hgroup, ite_self]
  have hdotted : readIpv4Addr (ipv4Text address) = some (address, []) := by
    have hread := readIpv4Addr_ipv4Text address (stops_nil 10)
    rwa [List.append_nil] at hread
  have hlast : readGroups 7 6 (':' :: ipv4Text address) =
      (([address.extractLsb' 16 16, address.extractLsb' 0 16], true), []) := by
    rw [readGroups]
    simp only [readSeparator_next ':' (show 0 < 7 - (5 + 1) by decide), hdotted]
    rfl
  have htail : readGroups 7 7 ("ffff:".toList ++ ipv4Text address) =
      (([0xffff#16, address.extractLsb' 16 16, address.extractLsb' 0 16], true), []) := by
    have hnone : readIpv4Addr ("ffff:".toList ++ ipv4Text address) = none :=
      bind_none (readNumber_none (stops_cons (by decide) _) 256 3 false) _
    have hgroup : readNumber 65536 16 4 true ("ffff:".toList ++ ipv4Text address) =
        some (0xffff, ':' :: ipv4Text address) :=
      readNumber_toDigits (n := 0xffff) (by decide) (by decide) (by decide) (by decide) (by decide) true
        (stops_separator (.inr rfl) _)
    rw [readGroups]
    simp only [Nat.sub_self, readSeparator_first, hnone, hgroup, hlast, ite_self]
  have hvalue : ofGroups ([] ++ List.replicate (8 - 0 - 3) 0 ++
      [0xffff#16, address.extractLsb' 16 16, address.extractLsb' 0 16]) = toIpv6Mapped address := by
    apply BitVec.eq_of_toNat_eq
    have hlt := address.isLt
    have hzero : BitVec.toNat (0 : BitVec 16) = 0 := rfl
    rw [IpAddr.toNat_toIpv6Mapped]
    simp only [ofGroups, List.replicate, List.nil_append, List.cons_append, List.foldl_cons,
      List.foldl_nil, BitVec.extractLsb'_toNat, BitVec.toNat_ofNat, Nat.shiftRight_eq_div_pow, hzero]
    omega
  rw [htext, readIpv6Addr_colons hhead (by decide) htail]
  exact congrArg (fun value => some (value, [])) hvalue

end Parser

namespace IpAddr

theorem fromStr_ipv4Text (address : BitVec 32) : fromStr (ipv4Text address) = some (.v4 address) := by
  have hread := Parser.readIpv4Addr_ipv4Text address (stops_nil 10)
  rw [List.append_nil] at hread
  rw [fromStr, Parser.readIpAddr, hread]

theorem fromStr_ipv6Text (address : BitVec 128) : fromStr (ipv6Text address) = some (.v6 address) := by
  suffices hboth : Parser.readIpv4Addr (ipv6Text address) = none ∧
      Parser.readIpv6Addr (ipv6Text address) = some (address, []) by
    rw [fromStr, Parser.readIpAddr, hboth.1, hboth.2]
    rfl
  cases hmapped : toIpv4Mapped address with
  | some ipv4 =>
      have htext : ipv6Text address = "::ffff:".toList ++ ipv4Text ipv4 := by rw [ipv6Text, hmapped]
      rw [htext, toIpv6Mapped_of_some hmapped]
      exact ⟨Parser.readIpv4Addr_colon _, Parser.readIpv6Addr_mapped ipv4⟩
  | none =>
      have hsmall := segments_small address
      have hlength := segments_length address
      have hzeros := longestZeros_zeros (segments address)
      have htext : ipv6Text address =
          if 1 < (longestZeros (segments address)).len then
            Parser.groupsText 0 ((segments address).take (longestZeros (segments address)).start) ++
              ':' :: ':' :: Parser.groupsText 0 ((segments address).drop
                ((longestZeros (segments address)).start + (longestZeros (segments address)).len))
          else Parser.groupsText 0 (segments address) := by
        rw [ipv6Text, hmapped]
        simp only [Parser.segmentsText_eq, List.append_assoc]
        rfl
      have hdot := Parser.dot_notMem_groupsText 0
      generalize longestZeros (segments address) = span at hzeros htext
      have hwithin := hzeros.within
      rw [htext]
      by_cases hlong : 1 < span.len
      · have hshort : ((segments address).take span.start).length +
            ((segments address).drop (span.start + span.len)).length < 7 := by
          rw [List.length_take, List.length_drop]
          omega
        have hread := Parser.readIpv6Addr_compressed hshort
          (fun group hgroup => hsmall group (List.mem_of_mem_take hgroup))
          (fun group hgroup => hsmall group (List.mem_of_mem_drop hgroup))
        have hcount : 8 - ((segments address).take span.start).length -
            ((segments address).drop (span.start + span.len)).length = span.len := by
          rw [List.length_take, List.length_drop]
          omega
        rw [hcount, segments_around hzeros, ofGroups_segments] at hread
        rw [if_pos hlong]
        refine ⟨Parser.readIpv4Addr_none ?_, hread⟩
        simp [hdot]
      · rw [if_neg hlong]
        refine ⟨Parser.readIpv4Addr_none (hdot _), ?_⟩
        rw [Parser.readIpv6Addr_groups hlength hsmall, ofGroups_segments]

end IpAddr

end SingBox.Core
