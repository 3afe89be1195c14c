import SingBox.Library.Reader

namespace SingBox.Library

-- The bytes of a text.
namespace Utf8

def encode (text : String) : Bytes := text.toUTF8.data.toList

theorem encode_append (left right : String) :
    encode (left ++ right) = encode left ++ encode right := by
  simp [encode, String.toByteArray_append]

theorem encode_inj {left right : String} : encode left = encode right ↔ left = right := by
  constructor
  · intro h
    have hbytes : left.toUTF8 = right.toUTF8 := ByteArray.ext (Array.toList_inj.mp h)
    exact String.toByteArray_inj.mp hbytes
  · exact congrArg encode

-- `str::from_utf8`
def decode (bytes : Bytes) : Option String := String.fromUTF8? ⟨bytes.toArray⟩

@[simp] theorem decode_encode (text : String) : decode (encode text) = some text := by
  have hbytes : (⟨(encode text).toArray⟩ : ByteArray) = text.toUTF8 := rfl
  have hvalid : text.toUTF8.IsValidUTF8 := text.isValidUTF8
  rw [decode, hbytes, String.fromUTF8?, dif_pos hvalid]
  rfl

theorem encode_of_decode {bytes : Bytes} {text : String} (h : decode bytes = some text) :
    bytes = encode text := by
  rw [decode, String.fromUTF8?] at h
  split at h
  · obtain rfl := Option.some.inj h
    rfl
  · cases h

theorem encode_eq_flatMap (text : String) :
    encode text = text.toList.flatMap String.utf8EncodeChar := by
  obtain ⟨chars, rfl⟩ : ∃ chars, text = String.ofList chars := ⟨text.toList, String.ofList_toList.symm⟩
  simp [encode, List.utf8Encode]

theorem encodeChar_small {char : Char} (h : char.toNat < 128) :
    String.utf8EncodeChar char = [UInt8.ofNat char.toNat] :=
  if_pos (Nat.le_of_lt_succ h)

theorem encode_length {text : String} (h : ∀ char ∈ text.toList, char.toNat < 128) :
    (encode text).length = text.toList.length := by
  rw [encode_eq_flatMap, List.length_flatMap,
    List.map_congr_left fun char hchar => congrArg List.length (encodeChar_small (h char hchar))]
  simp

theorem encodeChar_large {char : Char} (h : 128 ≤ char.toNat) :
    ∀ byte ∈ String.utf8EncodeChar char, 128 ≤ byte.toNat := by
  have hchar : ¬char.val.toNat ≤ 127 := Nat.not_le_of_lt h
  -- a first byte has its number on top of `mark`, and one that goes on has it on top of 128
  have hbyte (n room mark : Nat) (hmark : 128 ≤ mark) (hroom : 0 < room) (hsum : mark + room ≤ 256) :
      128 ≤ (UInt8.ofNat (n % room + mark)).toNat := by
    have hmod := Nat.mod_lt n hroom
    rw [UInt8.toNat_ofNat', Nat.mod_eq_of_lt (by omega)]
    omega
  intro byte hmem
  simp only [String.utf8EncodeChar, hchar, if_false] at hmem
  split_ifs at hmem <;> simp only [List.mem_cons, List.not_mem_nil, or_false] at hmem
  · obtain rfl | rfl := hmem <;> exact hbyte _ _ _ (by omega) (by omega) (by omega)
  · obtain rfl | rfl | rfl := hmem <;> exact hbyte _ _ _ (by omega) (by omega) (by omega)
  · obtain rfl | rfl | rfl | rfl := hmem <;> exact hbyte _ _ _ (by omega) (by omega) (by omega)

-- A byte below 128 stands for the character of that number, and for no part of another one.
theorem mem_encodeChar {char : Char} {byte : UInt8} (hbyte : byte.toNat < 128)
    (h : byte ∈ String.utf8EncodeChar char) : byte.toNat = char.toNat := by
  by_cases hchar : char.toNat < 128
  · rw [encodeChar_small hchar, List.mem_singleton] at h
    rw [h, UInt8.toNat_ofNat']
    omega
  · have hlarge := encodeChar_large (Nat.le_of_not_lt hchar) byte h
    omega

theorem mem_encode {text : String} {byte : UInt8} (hbyte : byte.toNat < 128)
    (h : byte ∈ encode text) : ∃ char ∈ text.toList, byte.toNat = char.toNat := by
  rw [encode_eq_flatMap, List.mem_flatMap] at h
  obtain ⟨char, hchar, h⟩ := h
  exact ⟨char, hchar, mem_encodeChar hbyte h⟩

-- A text that begins with such a byte begins with its character.
theorem head_encode {text : String} {byte : UInt8} (hbyte : byte.toNat < 128)
    (h : (encode text).head? = some byte) : text.toList.head? = some (Char.ofNat byte.toNat) := by
  rw [encode_eq_flatMap] at h
  cases hchars : text.toList with
  | nil => rw [hchars] at h; cases h
  | cons char rest =>
      rw [hchars, List.flatMap_cons] at h
      have hmem : byte ∈ String.utf8EncodeChar char := by
        cases hfirst : String.utf8EncodeChar char with
        | nil => exact absurd hfirst String.utf8EncodeChar_ne_nil
        | cons first others =>
            rw [hfirst] at h
            exact Option.some.inj h ▸ List.mem_cons_self
      rw [mem_encodeChar hbyte hmem, Char.ofNat_toNat]
      rfl

-- What stands on either side of such a byte is a text.
theorem encode_split {front back : Bytes} {byte : UInt8} {text : String} (hbyte : byte.toNat < 128)
    (h : front ++ byte :: back = encode text) :
    ∃ before after, front = encode before ∧ back = encode after := by
  suffices hchars : ∀ (chars : List Char) (front : Bytes),
      front ++ byte :: back = chars.flatMap String.utf8EncodeChar →
      ∃ before after : List Char, front = before.flatMap String.utf8EncodeChar ∧
        back = after.flatMap String.utf8EncodeChar by
    rw [encode_eq_flatMap] at h
    obtain ⟨before, after, hfront, hback⟩ := hchars text.toList front h
    exact ⟨String.ofList before, String.ofList after,
      by rw [encode_eq_flatMap, String.toList_ofList, hfront],
      by rw [encode_eq_flatMap, String.toList_ofList, hback]⟩
  intro chars
  induction chars with
  | nil =>
      intro front h
      cases (List.append_eq_nil_iff.mp h).2
  | cons char chars ih =>
      intro front h
      rw [List.flatMap_cons, List.append_eq_append_iff] at h
      obtain ⟨part, hchar, hrest⟩ | ⟨more, hfront, hrest⟩ := h
      · -- the byte is the first one of the character, which is then no larger one
        cases part with
        | nil =>
            obtain ⟨before, after, hnone, hback⟩ := ih [] hrest
            exact ⟨[char], after, by simpa using hchar.symm, hback⟩
        | cons first part =>
            obtain ⟨rfl, hback⟩ := List.cons.inj hrest
            by_cases hsmall : char.toNat < 128
            · rw [encodeChar_small hsmall] at hchar
              cases front with
              | nil =>
                  obtain ⟨-, rfl⟩ := List.cons.inj hchar
                  exact ⟨[], chars, rfl, hback⟩
              | cons other front => cases (List.append_eq_nil_iff.mp (List.cons.inj hchar).2.symm).2
            · have hlarge := encodeChar_large (Nat.le_of_not_lt hsmall) byte (hchar ▸ by simp)
              omega
      · obtain ⟨before, after, rfl, hback⟩ := ih more hrest.symm
        exact ⟨char :: before, after, by rw [List.flatMap_cons, hfront], hback⟩

-- Bytes below 128 are a text.
theorem encode_ascii {bytes : Bytes} (h : ∀ byte ∈ bytes, byte.toNat < 128) :
    bytes = encode (String.ofList (bytes.map fun byte => Char.ofNat byte.toNat)) := by
  rw [encode_eq_flatMap, String.toList_ofList, List.flatMap_map]
  have hbyte : ∀ byte ∈ bytes, String.utf8EncodeChar (Char.ofNat byte.toNat) = [byte] := by
    intro byte hmem
    have hall : ∀ code < 128, String.utf8EncodeChar (Char.ofNat code) = [UInt8.ofNat code] := by decide
    rw [hall byte.toNat (h byte hmem), UInt8.ofNat_toNat]
  rw [List.flatMap_congr hbyte]
  simp

-- `u8::to_ascii_lowercase`
def lowerByte (byte : UInt8) : UInt8 := if 65 ≤ byte ∧ byte ≤ 90 then byte + 32 else byte

theorem map_lowerByte_encodeChar (char : Char) :
    (String.utf8EncodeChar char).map lowerByte = String.utf8EncodeChar char.toLower := by
  by_cases hchar : char.toNat < 128
  · have hsmall : ∀ n < 128, (String.utf8EncodeChar (Char.ofNat n)).map lowerByte =
        String.utf8EncodeChar (Char.ofNat n).toLower := by decide
    have hsame := hsmall char.toNat hchar
    rwa [Char.ofNat_toNat] at hsame
  · have hlarge := encodeChar_large (Nat.le_of_not_lt hchar)
    have hlower : char.toLower = char := by
      have hupper : ¬(char.val ≥ 'A'.val ∧ char.val ≤ 'Z'.val) := by
        rintro ⟨_, hle⟩
        have hnat : char.toNat ≤ 90 := hle
        omega
      exact dif_neg hupper
    have hkeep : ∀ byte ∈ String.utf8EncodeChar char, lowerByte byte = byte := by
      intro byte hmem
      have hbyte := hlarge byte hmem
      refine if_neg fun h => ?_
      have hle : byte.toNat ≤ 90 := h.2
      omega
    rw [hlower, List.map_congr_left hkeep, List.map_id']

theorem map_lowerByte_encode (text : String) :
    (encode text).map lowerByte = encode (String.ofList (text.toList.map Char.toLower)) := by
  simp only [encode_eq_flatMap, String.toList_ofList, List.map_flatMap, List.flatMap_map,
    map_lowerByte_encodeChar]

end Utf8

end SingBox.Library
