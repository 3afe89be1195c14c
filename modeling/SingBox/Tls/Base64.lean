import SingBox.Vless.Base64.Accumulator

namespace SingBox.Tls

open Library
open Vless (Base64Bits urlDigit)

-- Every index into it is below 64.
def ALPHABET : List Char :=
  "ABCDEFGHIJKLMNOPQRSTUVWXYZabcdefghijklmnopqrstuvwxyz0123456789-_".toList

def alphabetChar (index : UInt8) : Char := ALPHABET.getD index.toNat '='

-- What the loop writes of three bytes, the first of `remaining`.
def encodeGroup (remaining : Nat) (first second third : UInt8) : List Char :=
  [alphabetChar (first >>> 2), alphabetChar ((first &&& 3) <<< 4 ||| second >>> 4)] ++
    (if 1 < remaining then [alphabetChar ((second &&& 15) <<< 2 ||| third >>> 6)] else []) ++
    (if 2 < remaining then [alphabetChar (third &&& 63)] else [])

def encodeGroups : Bytes → List Char
  | [] => []
  | [first] => encodeGroup 1 first 0 0
  | [first, second] => encodeGroup 2 first second 0
  | first :: second :: third :: rest =>
      encodeGroup (rest.length + 3) first second third ++ encodeGroups rest

def encodeBase64Url (value : Bytes) : String := String.ofList (encodeGroups value)

-- The digits and the bits held back are those of the other decoder; blanks are passed over.
def pushSpaced (this : Base64Bits) : Bytes → Result Base64Bits
  | [] => .ok this
  | byte :: rest =>
      match urlDigit byte with
      | some digit => pushSpaced (this.push digit) rest
      | none =>
          if byte = 61 then .ok this
          else if byte ∈ ([32, 10, 13, 9] : Bytes) then pushSpaced this rest
          else Result.bail "invalid base64 Reality private_key"

def decodeBase64Url (value : String) : Result Bytes := do
  let read ← pushSpaced { output := [], buffer := 0, bits := 0 } (Utf8.encode value)
  return read.output

-- The same with a fault where a word of the code has no room.
def pushSpacedChecked (this : Base64Bits) : Bytes → Checked Base64Bits
  | [] => pure this
  | byte :: rest =>
      match urlDigit byte with
      | some digit => do
          let next ← this.pushChecked digit
          pushSpacedChecked next rest
      | none =>
          if byte = 61 then pure this
          else if byte ∈ ([32, 10, 13, 9] : Bytes) then pushSpacedChecked this rest
          else Checked.ofResult (Result.bail "invalid base64 Reality private_key")

def decodeBase64UrlChecked (value : String) : Checked Bytes := do
  let read ← pushSpacedChecked { output := [], buffer := 0, bits := 0 } (Utf8.encode value)
  return read.output

theorem alphabetChar_digit {digit : UInt8} (h : digit.toNat < 64) :
    alphabetChar digit = Vless.urlChar (Vless.base64Char digit) := by
  have hall : ∀ n < 64, alphabetChar (UInt8.ofNat n) =
      Vless.urlChar (Vless.base64Char (UInt8.ofNat n)) := by decide +kernel
  have hdigit := hall digit.toNat h
  rwa [UInt8.ofNat_toNat] at hdigit

-- The bits of a byte that is not there are zeros.
theorem or_zero_shift (byte : UInt8) :
    byte ||| (0 : UInt8) >>> 4 = byte ∧ byte ||| (0 : UInt8) >>> 6 = byte := ⟨by simp, by simp⟩

theorem encodeGroups_eq (value : Bytes) :
    encodeGroups value = (Vless.digits value).map alphabetChar := by
  fun_induction Vless.digits value with
  | case1 => rfl
  | case2 first =>
      rw [encodeGroups, encodeGroup, (or_zero_shift _).1]
      rfl
  | case3 first second =>
      rw [encodeGroups, encodeGroup, (or_zero_shift _).2]
      rfl
  | case4 first second third rest ih =>
      rw [encodeGroups, encodeGroup, if_pos (by omega), if_pos (by omega), ih]
      rfl

-- Both crates write the same text.
theorem encodeBase64Url_eq (value : Bytes) : encodeBase64Url value = Vless.encodeBase64Url value := by
  refine String.toList_inj.mp ?_
  rw [encodeBase64Url, String.toList_ofList, encodeGroups_eq, Vless.encodeBase64Url_eq]
  exact List.map_congr_left fun digit hmem => alphabetChar_digit (Vless.digits_lt value digit hmem)

-- What one decoder reads the other one does.
theorem pushSpaced_of_pushAll {this read : Base64Bits} {bytes : Bytes}
    (h : this.pushAll bytes = .ok read) : pushSpaced this bytes = .ok read := by
  induction bytes generalizing this with
  | nil => exact h
  | cons byte rest ih =>
      rw [Base64Bits.pushAll] at h
      rw [pushSpaced]
      by_cases hpadding : byte = 61
      · subst hpadding
        exact h
      · rw [if_neg hpadding] at h
        cases hdigit : urlDigit byte with
        | none =>
            rw [hdigit] at h
            cases h
        | some digit =>
            rw [hdigit] at h
            exact ih h

theorem decodeBase64Url_of_decode {value : String} {decoded : Bytes}
    (h : Vless.decodeBase64Url value = .ok decoded) : decodeBase64Url value = .ok decoded := by
  obtain ⟨read, hread, hrest⟩ := Result.bind_eq_ok.mp h
  obtain ⟨_, _, hdecoded⟩ := Result.bind_eq_ok.mp hrest
  exact Result.bind_eq_ok.mpr ⟨read, pushSpaced_of_pushAll hread, hdecoded⟩

theorem decodeBase64Url_encode (value : Bytes) :
    decodeBase64Url (encodeBase64Url value) = .ok value := by
  rw [encodeBase64Url_eq]
  exact decodeBase64Url_of_decode (Vless.decodeBase64Url_encode value)

theorem pushSpacedChecked_eq {this : Base64Bits} (h : this.Held) (bytes : Bytes) :
    pushSpacedChecked this bytes = Checked.ofResult (pushSpaced this bytes) := by
  induction bytes generalizing this with
  | nil => rfl
  | cons byte rest ih =>
      rw [pushSpacedChecked, pushSpaced]
      cases hdigit : urlDigit byte with
      | some digit =>
          have hlt := Vless.urlDigit_lt hdigit
          show this.pushChecked digit >>= _ = _
          rw [Base64Bits.pushChecked_eq h hlt]
          exact ih (h.push hlt).1
      | none =>
          show (if byte = 61 then _ else _) = Checked.ofResult (if byte = 61 then _ else _)
          split
          · rfl
          · split
            · exact ih h
            · rfl

theorem decodeBase64UrlChecked_eq (value : String) :
    decodeBase64UrlChecked value = Checked.ofResult (decodeBase64Url value) := by
  refine Checked.bind_ofResult (pushSpacedChecked_eq Base64Bits.held_start _) fun read _ => ?_
  rfl

-- The codings for URLs in both crates.
theorem base64_url_codecs :
    (∀ value, Vless.decodeBase64Url (Vless.encodeBase64Url value) = .ok value) ∧
    (∀ value, decodeBase64Url (encodeBase64Url value) = .ok value) ∧
    (∀ text, Vless.decodeBase64UrlChecked text = Checked.ofResult (Vless.decodeBase64Url text)) ∧
    (∀ text, decodeBase64UrlChecked text = Checked.ofResult (decodeBase64Url text)) ∧
    ∀ text, (∃ decoded, Vless.decodeBase64Url text = .ok decoded) ↔
      (∀ byte ∈ (Utf8.encode text).takeWhile (· ≠ 61), urlDigit byte ≠ none) ∧
        ((Utf8.encode text).takeWhile (· ≠ 61)).length % 4 ≠ 1 :=
  ⟨Vless.decodeBase64Url_encode, decodeBase64Url_encode, Vless.decodeBase64UrlChecked_eq,
    decodeBase64UrlChecked_eq, Vless.decodeBase64Url_accepts⟩

end SingBox.Tls
