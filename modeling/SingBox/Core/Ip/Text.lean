import SingBox.Core.Ip
import SingBox.Library.Text

namespace SingBox.Core

open Library

-- What the text of an address can consist of.
def addressChar (char : Char) : Bool := char.isAlphanum || char == ':' || char == '.'

theorem addressChar_toDigit {radix digit : Nat} {char : Char} (h : toDigit radix char = some digit) :
    addressChar char = true := by
  have hchar : char.isAlphanum = true := by
    change (char.isUpper || char.isLower || char.isDigit) = true
    rw [Bool.or_eq_true, Bool.or_eq_true]
    unfold toDigit at h
    by_cases hdigit : '0' ≤ char ∧ char ≤ '9'
    · exact .inr ((Bool.and_eq_true ..).mpr ⟨decide_eq_true hdigit.1, decide_eq_true hdigit.2⟩)
    · by_cases hlower : 'a' ≤ char ∧ char ≤ 'z'
      · exact .inl (.inr ((Bool.and_eq_true ..).mpr
          ⟨decide_eq_true hlower.1, decide_eq_true hlower.2⟩))
      · by_cases hupper : 'A' ≤ char ∧ char ≤ 'Z'
        · have hval : 'A'.val ≤ char.val ∧ char.val ≤ 'Z'.val := hupper
          exact .inl (.inl (decide_eq_true hval))
        · simp [hdigit, hlower, hupper] at h
  rw [addressChar, hchar]
  rfl

namespace Parser

variable {α : Type}

theorem takes_readGivenChar {given : Char} (h : addressChar given = true) :
    Takes (addressChar · = true) (readGivenChar given) := by
  intro input value rest hread
  cases input with
  | nil => cases hread
  | cons char input =>
      rw [readGivenChar] at hread
      split at hread
      · rename_i hchar
        obtain ⟨-, rfl⟩ := Prod.mk.inj (Option.some.inj hread)
        exact ⟨[char], rfl, List.forall_mem_singleton.mpr (hchar ▸ h)⟩
      · cases hread

theorem takes_readSeparator {separator : Char} (h : addressChar separator = true) (index : Nat)
    {inner : Parser α} (hinner : Takes (addressChar · = true) inner) :
    Takes (addressChar · = true) (readSeparator separator index inner) := by
  unfold readSeparator
  split
  · exact .bind (takes_readGivenChar h) fun _ => hinner
  · exact hinner

theorem readDigits_taken {radix maxDigits : Nat} {input rest : List Char}
    {result count number digits : Nat}
    (h : readDigits radix maxDigits input result count = some ((number, digits), rest)) :
    ∃ taken, input = taken ++ rest ∧ ∀ char ∈ taken, addressChar char = true := by
  induction input generalizing result count with
  | nil =>
      obtain ⟨-, rfl⟩ := Prod.mk.inj (Option.some.inj h)
      exact ⟨[], rfl, nofun⟩
  | cons char input ih =>
      rw [readDigits] at h
      split at h
      · obtain ⟨-, rfl⟩ := Prod.mk.inj (Option.some.inj h)
        exact ⟨[], rfl, nofun⟩
      · rename_i digit hdigit
        split at h
        · cases h
        · obtain ⟨taken, rfl, htaken⟩ := ih h
          exact ⟨char :: taken, rfl,
            List.forall_mem_cons.mpr ⟨addressChar_toDigit hdigit, htaken⟩⟩

theorem takes_readNumber (bound radix maxDigits : Nat) (allowZeroPrefix : Bool) :
    Takes (addressChar · = true) (readNumber bound radix maxDigits allowZeroPrefix) := by
  intro input value rest hread
  obtain ⟨⟨⟨number, digits⟩, left⟩, hdigits, hchecked⟩ := Option.bind_eq_some_iff.mp hread
  have hrest : left = rest := by
    simp only at hchecked
    split at hchecked
    · cases hchecked
    · split at hchecked
      · cases hchecked
      · split at hchecked
        · exact (Prod.mk.inj (Option.some.inj hchecked)).2
        · cases hchecked
  exact hrest ▸ readDigits_taken hdigits

theorem takes_readIpv4Addr : Takes (addressChar · = true) readIpv4Addr := by
  have hoctet (index : Nat) : Takes (addressChar · = true) (readOctet index) :=
    takes_readSeparator (by decide) index (takes_readNumber 256 10 3 false)
  exact .bind (hoctet 0) fun _ => .bind (hoctet 1) fun _ => .bind (hoctet 2) fun _ =>
    .bind (hoctet 3) fun _ => .pure _

-- The groups end where a group fails, at whatever stands there.
theorem readGroups_taken (limit slots : Nat) (input : List Char) :
    ∃ taken, input = taken ++ (readGroups limit slots input).2 ∧
      ∀ char ∈ taken, addressChar char = true := by
  induction slots generalizing input with
  | zero => exact ⟨[], rfl, nofun⟩
  | succ slots ih =>
      have hcolon : addressChar ':' = true := by decide
      rw [readGroups]
      split
      · rename_i address rest hembedded
        split at hembedded
        · exact takes_readSeparator hcolon _ takes_readIpv4Addr _ _ _ hembedded
        · cases hembedded
      · split
        · exact ⟨[], rfl, nofun⟩
        · rename_i group rest hgroup
          obtain ⟨taken, rfl, htaken⟩ :=
            takes_readSeparator hcolon _ (takes_readNumber 65536 16 4 true) _ _ _ hgroup
          obtain ⟨more, hmore, hchars⟩ := ih rest
          refine ⟨taken ++ more, ?_, List.forall_mem_append.mpr ⟨htaken, hchars⟩⟩
          rw [List.append_assoc, ← hmore]

theorem takes_readIpv6Addr : Takes (addressChar · = true) readIpv6Addr := by
  intro input value rest hread
  have hcolon : addressChar ':' = true := by decide
  obtain ⟨head, hhead, hheadChars⟩ := readGroups_taken 8 8 input
  unfold readIpv6Addr at hread
  simp only at hread
  split at hread
  · obtain ⟨-, rfl⟩ := Prod.mk.inj (Option.some.inj hread)
    exact ⟨head, hhead, hheadChars⟩
  · split at hread
    · cases hread
    · obtain ⟨⟨_, first⟩, hfirst, hread⟩ := Option.bind_eq_some_iff.mp hread
      obtain ⟨⟨_, second⟩, hsecond, hread⟩ := Option.bind_eq_some_iff.mp hread
      obtain ⟨-, rfl⟩ := Prod.mk.inj (Option.some.inj hread)
      obtain ⟨one, hone, honeChars⟩ := takes_readGivenChar hcolon _ _ _ hfirst
      obtain ⟨two, htwo, htwoChars⟩ := takes_readGivenChar hcolon _ _ _ hsecond
      obtain ⟨tail, htail, htailChars⟩ := readGroups_taken
        (8 - ((readGroups 8 8 input).1.1.length + 1)) (8 - ((readGroups 8 8 input).1.1.length + 1)) second
      refine ⟨head ++ (one ++ (two ++ tail)), ?_, ?_⟩
      · simp only [List.append_assoc, ← htail, ← htwo, ← hone, ← hhead]
      · simp only [List.forall_mem_append]
        exact ⟨hheadChars, honeChars, htwoChars, htailChars⟩

end Parser

theorem IpAddr.fromStr_chars {text : List Char} {address : IpAddr}
    (h : IpAddr.fromStr text = some address) : ∀ char ∈ text, addressChar char = true := by
  unfold IpAddr.fromStr at h
  split at h
  · rename_i found hread
    unfold Parser.readIpAddr at hread
    split at hread
    · rename_i hv4
      obtain ⟨-, rfl⟩ := Prod.mk.inj (Option.some.inj hread)
      exact Parser.takes_readIpv4Addr.whole hv4
    · obtain ⟨⟨found, rest⟩, hv6, hpair⟩ := Option.map_eq_some_iff.mp hread
      obtain ⟨-, rfl⟩ := Prod.mk.inj hpair
      exact Parser.takes_readIpv6Addr.whole hv6
  · cases h

-- An address in brackets is none.
theorem IpAddr.fromStr_bracketed (text : List Char) : IpAddr.fromStr ('[' :: text) = none := by
  cases h : IpAddr.fromStr ('[' :: text) with
  | none => rfl
  | some address => exact absurd (fromStr_chars h '[' List.mem_cons_self) (by decide)

end SingBox.Core
