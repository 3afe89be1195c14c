import SingBox.Core.Ip
import SingBox.Library.Text

namespace SingBox.Core

open Library
open Text (isWhitespace)

-- `from_str_radix` of the unsigned integers below `bound`.
def fromStrRadix (radix bound : Nat) (text : List Char) : Result Nat :=
  match text with
  | [] => Result.bail "cannot parse integer from empty string"
  | ['+'] => Result.bail "invalid digit found in string"
  | '+' :: digits => go digits 0
  | digits => go digits 0
where
  go : List Char → Nat → Result Nat
    | [], result => .ok result
    | char :: rest, result =>
        match toDigit radix char with
        | none => Result.bail "invalid digit found in string"
        | some digit =>
            if result * radix + digit < bound then go rest (result * radix + digit)
            else Result.bail "number too large to fit in target type"

-- What digits stand for, however many and in whatever case.
def numeralFrom (radix : Nat) : List Char → Nat → Option Nat
  | [], result => some result
  | char :: rest, result =>
      (toDigit radix char).bind fun digit => numeralFrom radix rest (result * radix + digit)

def numeral (radix : Nat) (text : List Char) : Option Nat := numeralFrom radix text 0

example : numeral 16 "001aF".toList = some 431 := by decide

section

variable {radix bound result value : Nat} {text : List Char}

theorem parseUnsigned_eq (bound : Nat) (text : List Char) :
    parseUnsigned bound text = fromStrRadix 10 bound text := by
  have hgo (digits : List Char) (result : Nat) :
      parseUnsigned.go bound digits result = fromStrRadix.go 10 bound digits result := by
    induction digits generalizing result with
    | nil => rfl
    | cons char rest ih =>
        rw [parseUnsigned.go, fromStrRadix.go]
        cases toDigit 10 char with
        | none => rfl
        | some digit => simp only [ih]
  unfold parseUnsigned fromStrRadix
  split <;> simp only [hgo]

theorem toDigit_plus (radix : Nat) : toDigit radix '+' = none := by
  have hdigit : toDigit radix '+' = if radix < radix then some radix else none := rfl
  rw [hdigit, if_neg (Nat.lt_irrefl radix)]

theorem numeralFrom_le (hradix : 0 < radix) (h : numeralFrom radix text result = some value) :
    result ≤ value := by
  induction text generalizing result with
  | nil => exact Nat.le_of_eq (Option.some.inj h)
  | cons char rest ih =>
      obtain ⟨digit, -, hrest⟩ := Option.bind_eq_some_iff.mp h
      have hle : result ≤ result * radix := Nat.le_mul_of_pos_right result hradix
      have hmore := ih hrest
      omega

theorem fromStrRadix_go_numeral (hradix : 0 < radix) (h : numeralFrom radix text result = some value)
    (hbound : value < bound) : fromStrRadix.go radix bound text result = .ok value := by
  induction text generalizing result with
  | nil => exact congrArg _ (Option.some.inj h)
  | cons char rest ih =>
      obtain ⟨digit, hdigit, hrest⟩ := Option.bind_eq_some_iff.mp h
      have hle := numeralFrom_le hradix hrest
      rw [fromStrRadix.go, hdigit]
      show (if _ then _ else _) = _
      rw [if_pos (by omega)]
      exact ih hrest

theorem fromStrRadix_numeral (hradix : 0 < radix) (htext : text ≠ [])
    (h : numeral radix text = some value) (hbound : value < bound) :
    fromStrRadix radix bound text = .ok value := by
  have hgo := fromStrRadix_go_numeral hradix h hbound
  have hplus (rest : List Char) : text ≠ '+' :: rest := by
    rintro rfl
    rw [numeral, numeralFrom, toDigit_plus] at h
    cases h
  unfold fromStrRadix
  split
  · exact absurd rfl htext
  · exact absurd rfl (hplus _)
  · exact absurd rfl (hplus _)
  · exact hgo

theorem fromStrRadix_go_digits (h : fromStrRadix.go radix bound text result = .ok value) :
    ∀ char ∈ text, (toDigit radix char).isSome := by
  induction text generalizing result with
  | nil => exact fun char hchar => absurd hchar List.not_mem_nil
  | cons first rest ih =>
      rw [fromStrRadix.go] at h
      cases hdigit : toDigit radix first with
      | none =>
          rw [hdigit] at h
          cases h
      | some digit =>
          have hstep : (if result * radix + digit < bound then
              fromStrRadix.go radix bound rest (result * radix + digit)
            else Result.bail "number too large to fit in target type") = .ok value := by
            rwa [hdigit] at h
          have hrest : fromStrRadix.go radix bound rest (result * radix + digit) = .ok value := by
            split at hstep
            · exact hstep
            · cases hstep
          exact List.forall_mem_cons.mpr ⟨by rw [hdigit]; rfl, ih hrest⟩

theorem fromStrRadix_go_ok (hresult : result < bound)
    (h : fromStrRadix.go radix bound text result = .ok value) :
    numeralFrom radix text result = some value ∧ value < bound := by
  induction text generalizing result with
  | nil =>
      cases h
      exact ⟨rfl, hresult⟩
  | cons first rest ih =>
      rw [fromStrRadix.go] at h
      cases hdigit : toDigit radix first with
      | none =>
          rw [hdigit] at h
          cases h
      | some digit =>
          have hstep : (if result * radix + digit < bound then
              fromStrRadix.go radix bound rest (result * radix + digit)
            else Result.bail "number too large to fit in target type") = .ok value := by
            rwa [hdigit] at h
          split at hstep
          case isTrue hfits =>
            rw [numeralFrom, hdigit]
            exact ih hfits hstep
          case isFalse => cases hstep

-- What is accepted has digits, and at most a plus sign in front of them.
theorem fromStrRadix_digits (h : fromStrRadix radix bound text = .ok value) :
    ∀ char ∈ text, char = '+' ∨ (toDigit radix char).isSome := by
  unfold fromStrRadix at h
  split at h
  · cases h
  · cases h
  · exact List.forall_mem_cons.mpr
      ⟨.inl rfl, fun char hchar => .inr (fromStrRadix_go_digits h char hchar)⟩
  · exact fun char hchar => .inr (fromStrRadix_go_digits h char hchar)

theorem numeralFrom_digits (h : numeralFrom radix text result = some value) :
    ∀ char ∈ text, (toDigit radix char).isSome := by
  induction text generalizing result with
  | nil => exact fun char hchar => absurd hchar List.not_mem_nil
  | cons first rest ih =>
      obtain ⟨digit, hdigit, hrest⟩ := Option.bind_eq_some_iff.mp h
      exact List.forall_mem_cons.mpr ⟨by rw [hdigit]; rfl, ih hrest⟩

-- A character that delimits nothing.
structure Plain (char : Char) : Prop where
  visible : 32 ≤ char.toNat ∧ char.toNat < 127
  word : isWhitespace char = false
  semicolon : char ≠ ';'
  lineEnd : char ≠ '\r' ∧ char ≠ '\n'

theorem digit_spec {char : Char} (h : (toDigit 16 char).isSome) : Plain char := by
  have hall : ∀ code < 128, (toDigit 16 (Char.ofNat code)).isSome →
      (32 ≤ code ∧ code < 127) ∧ isWhitespace (Char.ofNat code) = false ∧ Char.ofNat code ≠ ';' ∧
        Char.ofNat code ≠ '\r' ∧ Char.ofNat code ≠ '\n' := by decide
  have hsmall : char.toNat < 128 := by
    by_contra hlarge
    have habove (bound : Char) (hbound : bound.toNat < 128) : ¬char ≤ bound := fun hle => by
      have hnat : char.toNat ≤ bound.toNat := hle
      omega
    simp [toDigit, habove '9' (by decide), habove 'z' (by decide), habove 'Z' (by decide)] at h
  have hchar := hall char.toNat hsmall
  rw [Char.ofNat_toNat] at hchar
  obtain ⟨hvisible, hword, hsemicolon, hlineEnd⟩ := hchar h
  exact ⟨hvisible, hword, hsemicolon, hlineEnd⟩

-- A digit of a radix is one of every larger radix.
theorem toDigit_mono {small large : Nat} (hle : small ≤ large) {char : Char}
    (h : (toDigit small char).isSome) : (toDigit large char).isSome := by
  have hless (digit : Nat) (hdigit : (if digit < small then some digit else none).isSome) :
      (if digit < large then some digit else none).isSome := by
    have hlt : digit < small := by
      by_contra hnot
      rw [if_neg hnot] at hdigit
      cases hdigit
    rw [if_pos (by omega)]
    rfl
  simp only [toDigit] at h ⊢
  by_cases hnumber : '0' ≤ char ∧ char ≤ '9'
  · rw [if_pos hnumber] at h ⊢
    exact hless _ h
  by_cases hlower : 'a' ≤ char ∧ char ≤ 'z'
  · rw [if_neg hnumber, if_pos hlower] at h ⊢
    exact hless _ h
  by_cases hupper : 'A' ≤ char ∧ char ≤ 'Z'
  · rw [if_neg hnumber, if_neg hlower, if_pos hupper] at h ⊢
    exact hless _ h
  · rw [if_neg hnumber, if_neg hlower, if_neg hupper, if_neg (Nat.lt_irrefl small)] at h
    cases h

theorem fromStrRadix_plain (hradix : radix ≤ 16) (h : fromStrRadix radix bound text = .ok value) :
    ∀ char ∈ text, Plain char := by
  intro char hchar
  obtain rfl | hdigit := fromStrRadix_digits h char hchar
  · exact ⟨by decide, by decide, by decide, by decide⟩
  · exact digit_spec (toDigit_mono hradix hdigit)

theorem fromStrRadix_ne_nil (h : fromStrRadix radix bound text = .ok value) : text ≠ [] := by
  rintro rfl
  cases h

theorem numeralFrom_append (front back : List Char) :
    numeralFrom radix (front ++ back) result =
      (numeralFrom radix front result).bind fun mid => numeralFrom radix back mid := by
  induction front generalizing result with
  | nil => rfl
  | cons char front ih =>
      rw [List.cons_append, numeralFrom, numeralFrom, Option.bind_assoc]
      exact congrArg _ (funext fun digit => ih)

end

theorem mem_toDigits {radix n : Nat} (hradix : 1 < radix) {char : Char}
    (h : char ∈ Nat.toDigits radix n) : ∃ digit < radix, char = Nat.digitChar digit := by
  induction n using Nat.strongRecOn with
  | _ n ih =>
      rw [Nat.toDigits_eq_if hradix] at h
      split at h
      · next hlt => exact ⟨n, hlt, List.mem_singleton.mp h⟩
      · next hge =>
          obtain hfront | hlast := List.mem_append.mp h
          · exact ih (n / radix) (Nat.div_lt_self (by omega) hradix) hfront
          · exact ⟨n % radix, Nat.mod_lt n (by omega), List.mem_singleton.mp hlast⟩

-- The digits of a number stand for it.
theorem numeral_toDigits (n : Nat) : numeral 10 (Nat.toDigits 10 n) = some n := by
  have hdigit : ∀ digit < 10, toDigit 10 (Nat.digitChar digit) = some digit := by decide
  have hlast (digit mid : Nat) (h : digit < 10) :
      numeralFrom 10 [Nat.digitChar digit] mid = some (mid * 10 + digit) := by
    rw [numeralFrom, hdigit digit h]
    rfl
  induction n using Nat.strongRecOn with
  | _ n ih =>
      rw [Nat.toDigits_eq_if (by decide)]
      split
      · next hlt =>
          rw [numeral, hlast n 0 hlt]
          exact congrArg some (by omega)
      · next hge =>
          have hfront := ih (n / 10) (by omega)
          rw [numeral] at hfront ⊢
          rw [numeralFrom_append, hfront, Option.bind_some, hlast _ _ (by omega)]
          exact congrArg some (by omega)

theorem parseUnsigned_toDigits {n bound : Nat} (h : n < bound) :
    parseUnsigned bound (Nat.toDigits 10 n) = .ok n := by
  rw [parseUnsigned_eq]
  exact fromStrRadix_numeral (by decide) Nat.toDigits_ne_nil (numeral_toDigits n) h

end SingBox.Core
