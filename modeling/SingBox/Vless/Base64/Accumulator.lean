import SingBox.Library.Checked
import SingBox.Vless.Base64

namespace SingBox.Vless

open Library

theorem urlDigit_lt {byte digit : UInt8} (h : urlDigit byte = some digit) : digit.toNat < 64 := by
  have hall : ∀ n < 256, (urlDigit (UInt8.ofNat n)).all (·.toNat < 64) := by decide +kernel
  have hbyte := hall byte.toNat byte.toNat_lt
  rw [UInt8.ofNat_toNat, h, Option.all_some] at hbyte
  exact of_decide_eq_true hbyte

namespace Base64Bits

-- Less than a byte is held back between two digits.
structure Held (this : Base64Bits) : Prop where
  bits : this.bits < 8
  buffer : this.buffer < 2 ^ this.bits

theorem held_start : Held ⟨[], 0, 0⟩ := ⟨by decide, by decide⟩

variable {this read : Base64Bits} {digit : UInt8} {bytes : Bytes}

theorem push_join_lt (h : this.Held) (hdigit : digit.toNat < 64) :
    this.buffer <<< 6 ||| digit.toNat < 2 ^ (this.bits + 6) := by
  have hbuffer := h.buffer
  rw [push_join this.buffer rfl hdigit, Nat.pow_add]
  omega

theorem Held.push (h : this.Held) (hdigit : digit.toNat < 64) :
    (this.push digit).Held ∧ (this.push digit).bits = (this.bits + 6) % 8 := by
  have hbits := h.bits
  by_cases hfull : 8 ≤ this.bits + 6
  · have hpush : this.push digit =
        ⟨this.output ++ [UInt8.ofNat ((this.buffer <<< 6 ||| digit.toNat) >>> (this.bits + 6 - 8))],
          (this.buffer <<< 6 ||| digit.toNat) &&& (1 <<< (this.bits + 6 - 8) - 1),
          this.bits + 6 - 8⟩ := if_pos hfull
    rw [hpush]
    refine ⟨⟨?_, ?_⟩, ?_⟩
    · show this.bits + 6 - 8 < 8
      omega
    · rw [Nat.one_shiftLeft, Nat.and_two_pow_sub_one_eq_mod]
      exact Nat.mod_lt _ (Nat.two_pow_pos _)
    · show this.bits + 6 - 8 = (this.bits + 6) % 8
      omega
  · have hpush : this.push digit =
        ⟨this.output, this.buffer <<< 6 ||| digit.toNat, this.bits + 6⟩ := if_neg hfull
    rw [hpush]
    refine ⟨⟨?_, push_join_lt h hdigit⟩, ?_⟩
    · show this.bits + 6 < 8
      omega
    · show this.bits + 6 = (this.bits + 6) % 8
      omega

-- `push` in the words of the code, a `u32` of bits and a `u8` for their number, with a fault
-- where one of them has no room.
def pushChecked (this : Base64Bits) (digit : UInt8) : Checked Base64Bits :=
  if this.buffer <<< 6 ||| digit.toNat < 2 ^ 32 ∧ this.bits + 6 < 2 ^ 8 then pure (this.push digit)
  else Checked.fault .overflow

theorem pushChecked_eq (h : this.Held) (hdigit : digit.toNat < 64) :
    this.pushChecked digit = pure (this.push digit) := by
  have hbits := h.bits
  have hroom : 2 ^ (this.bits + 6) ≤ 2 ^ 32 := Nat.pow_le_pow_right (by decide) (by omega)
  exact if_pos ⟨Nat.lt_of_lt_of_le (push_join_lt h hdigit) hroom, by omega⟩

def pushAllChecked (this : Base64Bits) : Bytes → Checked Base64Bits
  | [] => pure this
  | byte :: rest =>
      if byte = 61 then pure this
      else
        match urlDigit byte with
        | none => Checked.ofResult (Result.bail "invalid URL base64 character")
        | some digit => do
            let next ← this.pushChecked digit
            next.pushAllChecked rest

theorem pushAllChecked_eq (h : this.Held) :
    this.pushAllChecked bytes = Checked.ofResult (this.pushAll bytes) := by
  induction bytes generalizing this with
  | nil => rfl
  | cons byte rest ih =>
      rw [pushAllChecked, pushAll]
      split
      · rfl
      · cases hdigit : urlDigit byte with
        | none => rfl
        | some digit =>
            have hlt := urlDigit_lt hdigit
            have hrest := ih (h.push hlt).1
            show this.pushChecked digit >>= _ = _
            rw [pushChecked_eq h hlt]
            exact hrest

-- What has been read, up to the padding.
theorem pushAll_ok (h : this.Held) (hread : this.pushAll bytes = .ok read) :
    (∀ byte ∈ bytes.takeWhile (· ≠ 61), urlDigit byte ≠ none) ∧
      read.bits = (this.bits + 6 * (bytes.takeWhile (· ≠ 61)).length) % 8 := by
  induction bytes generalizing this with
  | nil =>
      obtain rfl := Except.ok.inj hread
      exact ⟨fun byte hmem => absurd hmem List.not_mem_nil, (Nat.mod_eq_of_lt h.bits).symm⟩
  | cons byte rest ih =>
      rw [pushAll] at hread
      by_cases hpadding : byte = 61
      · rw [if_pos hpadding] at hread
        obtain rfl := Except.ok.inj hread
        rw [List.takeWhile_cons_of_neg (by simpa using hpadding)]
        exact ⟨fun byte hmem => absurd hmem List.not_mem_nil, (Nat.mod_eq_of_lt h.bits).symm⟩
      · rw [if_neg hpadding] at hread
        rw [List.takeWhile_cons_of_pos (by simpa using hpadding)]
        cases hdigit : urlDigit byte with
        | none =>
            rw [hdigit] at hread
            cases hread
        | some digit =>
            rw [hdigit] at hread
            obtain ⟨hnext, hbits⟩ := h.push (urlDigit_lt hdigit)
            obtain ⟨hall, hcount⟩ := ih hnext hread
            refine ⟨List.forall_mem_cons.mpr ⟨?_, hall⟩, ?_⟩
            · rw [hdigit]
              exact Option.some_ne_none digit
            · rw [hcount, hbits, List.length_cons]
              omega

theorem exists_pushAll (this : Base64Bits)
    (h : ∀ byte ∈ bytes.takeWhile (· ≠ 61), urlDigit byte ≠ none) :
    ∃ read, this.pushAll bytes = .ok read := by
  induction bytes generalizing this with
  | nil => exact ⟨this, rfl⟩
  | cons byte rest ih =>
      rw [pushAll]
      by_cases hpadding : byte = 61
      · exact ⟨this, if_pos hpadding⟩
      · rw [if_neg hpadding]
        rw [List.takeWhile_cons_of_pos (by simpa using hpadding)] at h
        obtain ⟨hbyte, hrest⟩ := List.forall_mem_cons.mp h
        obtain ⟨digit, hdigit⟩ := Option.ne_none_iff_exists'.mp hbyte
        rw [hdigit]
        exact ih (this.push digit) hrest

end Base64Bits

def decodeBase64UrlChecked (value : String) : Checked Bytes := do
  let read ← Base64Bits.pushAllChecked { output := [], buffer := 0, bits := 0 } (Utf8.encode value)
  Checked.ensure (read.bits < 6) "invalid URL base64 padding"
  return read.output

theorem decodeBase64UrlChecked_eq (value : String) :
    decodeBase64UrlChecked value = Checked.ofResult (decodeBase64Url value) := by
  refine Checked.bind_ofResult (Base64Bits.pushAllChecked_eq Base64Bits.held_start) fun read _ => ?_
  refine Checked.bind_ofResult rfl fun _ _ => ?_
  rfl

-- Four digits come to three bytes, and a single digit more would come to none.
theorem decodeBase64Url_accepts (value : String) :
    (∃ decoded, decodeBase64Url value = .ok decoded) ↔
      (∀ byte ∈ (Utf8.encode value).takeWhile (· ≠ 61), urlDigit byte ≠ none) ∧
        ((Utf8.encode value).takeWhile (· ≠ 61)).length % 4 ≠ 1 := by
  constructor
  · rintro ⟨decoded, h⟩
    obtain ⟨read, hread, hrest⟩ := Result.bind_eq_ok.mp h
    obtain ⟨_, hensure, -⟩ := Result.bind_eq_ok.mp hrest
    have hbits := of_decide_eq_true (Result.ensure_eq_ok.mp hensure)
    obtain ⟨hall, hcount⟩ := Base64Bits.pushAll_ok Base64Bits.held_start hread
    change read.bits = (0 + 6 * _) % 8 at hcount
    exact ⟨hall, by omega⟩
  · rintro ⟨hall, hlength⟩
    obtain ⟨read, hread⟩ := Base64Bits.exists_pushAll ⟨[], 0, 0⟩ hall
    obtain ⟨-, hcount⟩ := Base64Bits.pushAll_ok Base64Bits.held_start hread
    change read.bits = (0 + 6 * _) % 8 at hcount
    have hbits : read.bits < 6 := by omega
    refine ⟨read.output, Result.bind_eq_ok.mpr ⟨read, hread, Result.bind_eq_ok.mpr ⟨(), ?_, rfl⟩⟩⟩
    exact Result.ensure_eq_ok.mpr (decide_eq_true hbits)

end SingBox.Vless
