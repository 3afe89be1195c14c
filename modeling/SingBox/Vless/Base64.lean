import Mathlib.Data.Bool.AllAny
import SingBox.Library.Result
import SingBox.Library.Text
import SingBox.Library.Utf8

namespace SingBox.Vless

open Library

-- Every index into it is below 64.
def BASE64_TABLE : List Char :=
  "ABCDEFGHIJKLMNOPQRSTUVWXYZabcdefghijklmnopqrstuvwxyz0123456789+/".toList

def base64Char (index : UInt8) : Char := BASE64_TABLE.getD index.toNat '='

-- The chunks of three bytes.
def encodeChunks : Bytes → List Char
  | [] => []
  | [first] => [base64Char (first >>> 2), base64Char ((first &&& 3) <<< 4), '=', '=']
  | [first, second] =>
      [base64Char (first >>> 2), base64Char ((first &&& 3) <<< 4 ||| second >>> 4),
        base64Char ((second &&& 15) <<< 2), '=']
  | first :: second :: third :: rest =>
      base64Char (first >>> 2) :: base64Char ((first &&& 3) <<< 4 ||| second >>> 4) ::
        base64Char ((second &&& 15) <<< 2 ||| third >>> 6) :: base64Char (third &&& 63) ::
        encodeChunks rest

def encodeBase64 (value : Bytes) : String := String.ofList (encodeChunks value)

def urlChar (char : Char) : Char :=
  if char = '+' then '-' else if char = '/' then '_' else char

def encodeBase64Url (value : Bytes) : String :=
  String.ofList (((encodeBase64 value).toList.rdropWhile (· == '=')).map urlChar)

def urlDigit (byte : UInt8) : Option UInt8 :=
  if 65 ≤ byte ∧ byte ≤ 90 then some (byte - 65)
  else if 97 ≤ byte ∧ byte ≤ 122 then some (byte - 97 + 26)
  else if 48 ≤ byte ∧ byte ≤ 57 then some (byte - 48 + 52)
  else if byte = 45 then some 62
  else if byte = 95 then some 63
  else none

-- `buffer` has the bits that have not made up a byte, fewer than a `u32` has room for.
structure Base64Bits where
  output : Bytes
  buffer : Nat
  bits : Nat

namespace Base64Bits

def push (this : Base64Bits) (digit : UInt8) : Base64Bits :=
  let buffer := this.buffer <<< 6 ||| digit.toNat
  let bits := this.bits + 6
  if 8 ≤ bits then
    { output := this.output ++ [UInt8.ofNat (buffer >>> (bits - 8))]
      buffer := buffer &&& (1 <<< (bits - 8) - 1)
      bits := bits - 8 }
  else { this with buffer, bits }

def pushAll (this : Base64Bits) : Bytes → Result Base64Bits
  | [] => .ok this
  | byte :: rest =>
      if byte = 61 then .ok this
      else
        match urlDigit byte with
        | none => Result.bail "invalid URL base64 character"
        | some digit => (this.push digit).pushAll rest

end Base64Bits

def decodeBase64Url (value : String) : Result Bytes := do
  let read ← Base64Bits.pushAll { output := [], buffer := 0, bits := 0 } (Utf8.encode value)
  Result.ensure (read.bits < 6) "invalid URL base64 padding"
  return read.output

example : encodeBase64 [102, 111, 111, 98] = "Zm9vYg==" := by decide

-- The low bits of a byte, moved up.
theorem toNat_keep (byte : UInt8) (keep : Nat) {mask shift : UInt8}
    (hmask : mask.toNat = 2 ^ keep - 1) (hroom : keep + shift.toNat ≤ 8) (hshift : shift.toNat < 8) :
    ((byte &&& mask) <<< shift).toNat = byte.toNat % 2 ^ keep * 2 ^ shift.toNat := by
  have hfits : byte.toNat % 2 ^ keep * 2 ^ shift.toNat < 2 ^ 8 := by
    refine Nat.lt_of_lt_of_le ?_ (Nat.pow_le_pow_right (by omega) hroom)
    rw [Nat.pow_add]
    exact Nat.mul_lt_mul_of_pos_right (Nat.mod_lt _ (Nat.two_pow_pos keep)) (Nat.two_pow_pos _)
  rw [UInt8.toNat_shiftLeft, UInt8.toNat_and, hmask, Nat.and_two_pow_sub_one_eq_mod,
    Nat.mod_eq_of_lt hshift, Nat.shiftLeft_eq, Nat.mod_eq_of_lt hfits]

-- The low bits of a byte on top of the high bits of the next one.
theorem toNat_join (first second : UInt8) (keep : Nat) {mask shift drop : UInt8}
    (hmask : mask.toNat = 2 ^ keep - 1) (hroom : keep + shift.toNat ≤ 8)
    (hshift : shift.toNat + drop.toNat = 8) (hdrop : drop.toNat < 8) (hpos : shift.toNat < 8) :
    ((first &&& mask) <<< shift ||| second >>> drop).toNat =
      first.toNat % 2 ^ keep * 2 ^ shift.toNat + second.toNat / 2 ^ drop.toNat := by
  have hlow : second.toNat / 2 ^ drop.toNat < 2 ^ shift.toNat := by
    rw [Nat.div_lt_iff_lt_mul (Nat.two_pow_pos _), ← Nat.pow_add, hshift]
    exact second.toNat_lt
  rw [UInt8.toNat_or, toNat_keep first keep hmask hroom hpos, UInt8.toNat_shiftRight,
    Nat.mod_eq_of_lt hdrop, Nat.shiftRight_eq_div_pow, ← Nat.shiftLeft_eq,
    Nat.shiftLeft_add_eq_or_of_lt hlow]

-- The digits of a value, six bits each.
def digits : Bytes → Bytes
  | [] => []
  | [first] => [first >>> 2, (first &&& 3) <<< 4]
  | [first, second] =>
      [first >>> 2, (first &&& 3) <<< 4 ||| second >>> 4, (second &&& 15) <<< 2]
  | first :: second :: third :: rest =>
      first >>> 2 :: ((first &&& 3) <<< 4 ||| second >>> 4) ::
        ((second &&& 15) <<< 2 ||| third >>> 6) :: (third &&& 63) :: digits rest

theorem encodeChunks_eq (value : Bytes) :
    ∃ padding, encodeChunks value = (digits value).map base64Char ++ List.replicate padding '=' := by
  fun_induction digits value with
  | case1 => exact ⟨0, rfl⟩
  | case2 first => exact ⟨2, rfl⟩
  | case3 first second => exact ⟨1, rfl⟩
  | case4 first second third rest ih =>
      obtain ⟨padding, hrest⟩ := ih
      exact ⟨padding, by rw [encodeChunks, hrest]; rfl⟩

-- What the digits of three bytes, or of fewer at the end, are.
theorem toNat_first (first : UInt8) : (first >>> 2).toNat = first.toNat / 4 := by
  simp [Nat.shiftRight_eq_div_pow]

theorem toNat_second (first second : UInt8) :
    ((first &&& 3) <<< 4 ||| second >>> 4).toNat = first.toNat % 4 * 16 + second.toNat / 16 :=
  toNat_join first second 2 rfl (by decide) rfl (by decide) (by decide)

theorem toNat_third (second third : UInt8) :
    ((second &&& 15) <<< 2 ||| third >>> 6).toNat = second.toNat % 16 * 4 + third.toNat / 64 :=
  toNat_join second third 4 rfl (by decide) rfl (by decide) (by decide)

theorem toNat_fourth (third : UInt8) : (third &&& 63).toNat = third.toNat % 64 := by
  rw [UInt8.toNat_and]
  exact Nat.and_two_pow_sub_one_eq_mod third.toNat 6

theorem toNat_secondLast (first : UInt8) : ((first &&& 3) <<< 4).toNat = first.toNat % 4 * 16 :=
  toNat_keep first 2 rfl (by decide) (by decide)

theorem toNat_thirdLast (second : UInt8) : ((second &&& 15) <<< 2).toNat = second.toNat % 16 * 4 :=
  toNat_keep second 4 rfl (by decide) (by decide)

theorem digits_lt (value : Bytes) : ∀ digit ∈ digits value, digit.toNat < 64 := by
  fun_induction digits value with
  | case1 => simp
  | case2 first =>
      have hfirst := first.toNat_lt
      simp only [List.forall_mem_cons, toNat_first, toNat_secondLast]
      exact ⟨by omega, by omega, by simp⟩
  | case3 first second =>
      have hfirst := first.toNat_lt
      have hsecond := second.toNat_lt
      simp only [List.forall_mem_cons, toNat_first, toNat_second, toNat_thirdLast]
      exact ⟨by omega, by omega, by omega, by simp⟩
  | case4 first second third rest ih =>
      have hfirst := first.toNat_lt
      have hsecond := second.toNat_lt
      have hthird := third.toNat_lt
      simp only [List.forall_mem_cons, toNat_first, toNat_second, toNat_third, toNat_fourth]
      exact ⟨by omega, by omega, by omega, by omega, ih⟩

-- Which characters stand for digits, in both alphabets.
theorem base64Char_digit {digit : UInt8} (h : digit.toNat < 64) :
    base64Char digit ≠ '=' ∧ base64Char digit ∈ BASE64_TABLE ∧
      (urlChar (base64Char digit)).toNat < 128 ∧
      UInt8.ofNat (urlChar (base64Char digit)).toNat ≠ 61 ∧
      urlDigit (UInt8.ofNat (urlChar (base64Char digit)).toNat) = some digit := by
  have hall : ∀ n < 64, base64Char (UInt8.ofNat n) ≠ '=' ∧
      base64Char (UInt8.ofNat n) ∈ BASE64_TABLE ∧
      (urlChar (base64Char (UInt8.ofNat n))).toNat < 128 ∧
      UInt8.ofNat (urlChar (base64Char (UInt8.ofNat n))).toNat ≠ 61 ∧
      urlDigit (UInt8.ofNat (urlChar (base64Char (UInt8.ofNat n))).toNat) = some (UInt8.ofNat n) := by
    decide +kernel
  have hdigit := hall digit.toNat h
  rwa [UInt8.ofNat_toNat] at hdigit

-- The padding is taken off again.
theorem encodeBase64Url_eq (value : Bytes) : (encodeBase64Url value).toList =
    (digits value).map fun digit => urlChar (base64Char digit) := by
  obtain ⟨padding, hchunks⟩ := encodeChunks_eq value
  have hplain : ∀ char ∈ (digits value).map base64Char, ¬(char == '=') = true := by
    intro char hchar
    obtain ⟨digit, hdigit, rfl⟩ := List.mem_map.mp hchar
    simpa using (base64Char_digit (digits_lt value digit hdigit)).1
  have hdrop : (encodeChunks value).rdropWhile (· == '=') = (digits value).map base64Char := by
    rw [hchunks]
    clear hchunks
    induction padding with
    | zero =>
        rw [List.replicate_zero, List.append_nil, List.rdropWhile_eq_self_iff]
        exact fun hne => hplain _ (List.getLast_mem hne)
    | succ padding ih =>
        rw [List.replicate_succ', ← List.append_assoc, List.rdropWhile_concat_pos _ _ _ rfl]
        exact ih
  rw [encodeBase64Url, encodeBase64, String.toList_ofList, String.toList_ofList, hdrop,
    List.map_map]
  rfl

namespace Base64Bits

variable (output : Bytes) (buffer : Nat) {bits digit : Nat} {byte : UInt8}

theorem push_join (hbyte : byte.toNat = digit) (hdigit : digit < 64) :
    buffer <<< 6 ||| byte.toNat = buffer * 64 + digit := by
  rw [hbyte, ← Nat.shiftLeft_add_eq_or_of_lt (i := 6) hdigit, Nat.shiftLeft_eq]

-- The first digit after a whole number of bytes.
theorem push_hold (hbyte : byte.toNat = digit) (hdigit : digit < 64) :
    push ⟨output, buffer, 0⟩ byte = ⟨output, buffer * 64 + digit, 6⟩ := by
  simp only [push, push_join buffer hbyte hdigit]
  rfl

-- A digit that makes up a byte.
theorem push_take (hbyte : byte.toNat = digit) (hdigit : digit < 64) (hbits : 2 ≤ bits) :
    push ⟨output, buffer, bits⟩ byte =
      ⟨output ++ [UInt8.ofNat ((buffer * 64 + digit) / 2 ^ (bits - 2))],
        (buffer * 64 + digit) % 2 ^ (bits - 2), bits - 2⟩ := by
  have hleft : bits + 6 - 8 = bits - 2 := by omega
  simp only [push, push_join buffer hbyte hdigit, hleft, Nat.shiftRight_eq_div_pow,
    Nat.one_shiftLeft, Nat.and_two_pow_sub_one_eq_mod]
  rw [if_pos (by omega)]

theorem ofNat_eq {n : Nat} (h : n = byte.toNat) : UInt8.ofNat n = byte := by
  rw [h, UInt8.ofNat_toNat]

-- The digits come to the value, and nothing is left of the last one.
theorem foldl_digits (output value : Bytes) :
    ∃ bits < 6, (digits value).foldl push ⟨output, 0, 0⟩ = ⟨output ++ value, 0, bits⟩ := by
  fun_induction digits value generalizing output with
  | case1 => exact ⟨0, by decide, by simp⟩
  | case2 first =>
      have hfirst := first.toNat_lt
      refine ⟨4, by decide, ?_⟩
      rw [List.foldl_cons, push_hold _ _ (toNat_first first) (by omega), List.foldl_cons,
        push_take _ _ (toNat_secondLast first) (by omega) (by decide), @ofNat_eq first _ (by omega), List.foldl_nil]
      congr 1
      omega
  | case3 first second =>
      have hfirst := first.toNat_lt
      have hsecond := second.toNat_lt
      refine ⟨2, by decide, ?_⟩
      rw [List.foldl_cons, push_hold _ _ (toNat_first first) (by omega), List.foldl_cons,
        push_take _ _ (toNat_second first second) (by omega) (by decide),
        @ofNat_eq first _ (by omega), List.foldl_cons,
        push_take _ _ (toNat_thirdLast second) (by omega) (by decide),
        @ofNat_eq second _ (by omega), List.foldl_nil, List.append_assoc]
      congr 1
      omega
  | case4 first second third rest ih =>
      have hfirst := first.toNat_lt
      have hsecond := second.toNat_lt
      have hthird := third.toNat_lt
      obtain ⟨bits, hbits, hrest⟩ := ih (output ++ [first] ++ [second] ++ [third])
      refine ⟨bits, hbits, ?_⟩
      rw [List.foldl_cons, push_hold _ _ (toNat_first first) (by omega), List.foldl_cons,
        push_take _ _ (toNat_second first second) (by omega) (by decide),
        @ofNat_eq first _ (by omega), List.foldl_cons,
        push_take _ _ (toNat_third second third) (by omega) (by decide),
        @ofNat_eq second _ (by omega), List.foldl_cons,
        push_take _ _ (toNat_fourth third) (by omega) (by decide),
        @ofNat_eq third _ (by omega)]
      simp only [Nat.sub_self, Nat.reduceSub, Nat.pow_zero, Nat.mod_one]
      rw [hrest]
      simp

theorem pushAll_digits (this : Base64Bits) {values : Bytes}
    (h : ∀ digit ∈ values, digit.toNat < 64) :
    this.pushAll (values.map fun digit => UInt8.ofNat (urlChar (base64Char digit)).toNat) =
      .ok (values.foldl push this) := by
  induction values generalizing this with
  | nil => rfl
  | cons digit values ih =>
      obtain ⟨hdigit, hvalues⟩ := List.forall_mem_cons.mp h
      obtain ⟨_, _, _, hne, hurl⟩ := base64Char_digit hdigit
      rw [List.map_cons, pushAll, if_neg hne, hurl, List.foldl_cons]
      exact ih _ hvalues

end Base64Bits

theorem encodeBase64Url_bytes (value : Bytes) : Utf8.encode (encodeBase64Url value) =
    (digits value).map fun digit => UInt8.ofNat (urlChar (base64Char digit)).toNat := by
  rw [Utf8.encode_eq_flatMap, encodeBase64Url_eq, List.flatMap_map]
  have hchar : ∀ digit ∈ digits value, String.utf8EncodeChar (urlChar (base64Char digit)) =
      [UInt8.ofNat (urlChar (base64Char digit)).toNat] := fun digit hdigit =>
    Utf8.encodeChar_small (base64Char_digit (digits_lt value digit hdigit)).2.2.1
  rw [List.flatMap_congr hchar, List.map_eq_flatMap]

theorem encodeBase64_length (value : Bytes) :
    (encodeBase64 value).toList.length ≤ 4 * value.length := by
  rw [encodeBase64, String.toList_ofList]
  fun_induction encodeChunks value with
  | case1 => exact Nat.le_refl _
  | case2 first => simp
  | case3 first second => simp
  | case4 first second third rest ih =>
      simp only [List.length_cons]
      omega

-- Neither form has a blank or a line end in it.
theorem encodeBase64_plain (value : Bytes) :
    ∀ char ∈ (encodeBase64 value).toList, Text.isWhitespace char = false := by
  have hplain : ∀ char ∈ '=' :: BASE64_TABLE, Text.isWhitespace char = false :=
    List.all_iff_forall_prop.mp (by decide)
  obtain ⟨padding, hchunks⟩ := encodeChunks_eq value
  intro char hchar
  rw [encodeBase64, String.toList_ofList, hchunks] at hchar
  refine hplain char ?_
  obtain hdigit | hpadding := List.mem_append.mp hchar
  · obtain ⟨digit, hmem, rfl⟩ := List.mem_map.mp hdigit
    exact List.mem_cons_of_mem _ (base64Char_digit (digits_lt value digit hmem)).2.1
  · exact List.eq_of_mem_replicate hpadding ▸ List.mem_cons_self

theorem encodeBase64Url_plain (value : Bytes) :
    ∀ char ∈ (encodeBase64Url value).toList, Text.isWhitespace char = false := by
  have hplain : ∀ char ∈ BASE64_TABLE, Text.isWhitespace (urlChar char) = false :=
    List.all_iff_forall_prop.mp (by decide)
  intro char hchar
  rw [encodeBase64Url_eq, List.mem_map] at hchar
  obtain ⟨digit, hdigit, rfl⟩ := hchar
  exact hplain _ (base64Char_digit (digits_lt value digit hdigit)).2.1

theorem decodeBase64Url_encode (value : Bytes) :
    decodeBase64Url (encodeBase64Url value) = .ok value := by
  obtain ⟨bits, hbits, hfold⟩ := Base64Bits.foldl_digits [] value
  have hread := Base64Bits.pushAll_digits ⟨[], 0, 0⟩ (digits_lt value)
  rw [hfold, ← encodeBase64Url_bytes] at hread
  refine Result.bind_eq_ok.mpr ⟨_, hread, Result.bind_eq_ok.mpr ⟨(), ?_, rfl⟩⟩
  exact Result.ensure_eq_ok.mpr (decide_eq_true hbits)

end SingBox.Vless
