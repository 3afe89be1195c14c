import Mathlib.Algebra.Order.Group.Nat
import Mathlib.Data.List.Basic
import Mathlib.Data.List.Induction

namespace SingBox.Library

abbrev Bytes := List UInt8

-- The `width` low bytes of `n`, most significant first.
def toBe : Nat → Nat → Bytes
  | 0, _ => []
  | width + 1, n => toBe width (n / 256) ++ [UInt8.ofNat n]

def ofBe (bytes : Bytes) : Nat :=
  bytes.foldl (fun n byte => n * 256 + byte.toNat) 0

@[simp] theorem toBe_length (width n : Nat) : (toBe width n).length = width := by
  induction width generalizing n with
  | zero => rfl
  | succ width ih => simp [toBe, ih]

theorem ofBe_concat (bytes : Bytes) (byte : UInt8) :
    ofBe (bytes ++ [byte]) = ofBe bytes * 256 + byte.toNat := by
  simp [ofBe]

theorem ofBe_toBe (width n : Nat) (h : n < 256 ^ width) : ofBe (toBe width n) = n := by
  induction width generalizing n with
  | zero => simp_all [toBe, ofBe]
  | succ width ih =>
      have hn : n / 256 < 256 ^ width := by
        rw [Nat.div_lt_iff_lt_mul (by decide)]
        simpa [Nat.pow_succ] using h
      rw [toBe, ofBe_concat, ih _ hn, UInt8.toNat_ofNat']
      omega

theorem ofNat_ofBe (count : Nat) {width : Nat} (bits : BitVec width) (h : 256 ^ count = 2 ^ width) :
    BitVec.ofNat width (ofBe (toBe count bits.toNat)) = bits := by
  rw [ofBe_toBe count _ (h ▸ bits.isLt), BitVec.ofNat_toNat, BitVec.setWidth_eq]

theorem ofBe_lt (bytes : Bytes) : ofBe bytes < 256 ^ bytes.length := by
  induction bytes using List.reverseRecOn with
  | nil => decide
  | append_singleton bytes byte ih =>
      have hbyte := byte.toNat_lt
      rw [ofBe_concat, List.length_append, List.length_singleton, Nat.pow_succ]
      omega

theorem toBe_ofBe (bytes : Bytes) : toBe bytes.length (ofBe bytes) = bytes := by
  induction bytes using List.reverseRecOn with
  | nil => rfl
  | append_singleton bytes byte ih =>
      have hbyte := byte.toNat_lt
      have hhigh : (ofBe bytes * 256 + byte.toNat) / 256 = ofBe bytes := by omega
      have hlow : UInt8.ofNat (ofBe bytes * 256 + byte.toNat) = byte := by
        rw [← UInt8.toNat_inj, UInt8.toNat_ofNat']
        omega
      rw [List.length_append, List.length_singleton, ofBe_concat, toBe, hhigh, hlow, ih]

-- A reader takes what it needs from the front of the input and leaves the
-- rest. `none` is the end of the input in the middle of a value.
abbrev Reader := StateT Bytes Option

namespace Reader

variable {α β : Type}

theorem bind_apply (read : Reader α) (next : α → Reader β) (bytes : Bytes) :
    (read >>= next) bytes = (read bytes).bind fun (value, rest) => next value rest := rfl

theorem pure_apply (value : α) (bytes : Bytes) :
    (pure value : Reader α) bytes = some (value, bytes) := rfl

def exact (count : Nat) : Reader Bytes := fun bytes =>
  if count ≤ bytes.length then some (bytes.take count, bytes.drop count) else none

def u8 : Reader UInt8
  | [] => none
  | byte :: rest => some (byte, rest)

def u16 : Reader UInt16 := do
  return UInt16.ofNat (ofBe (← exact 2))

def u32 : Reader UInt32 := do
  return UInt32.ofNat (ofBe (← exact 4))

-- `read` finds `value` in `encoded` and leaves whatever follows unread.
def Reads (read : Reader α) (value : α) (encoded : Bytes) : Prop :=
  ∀ rest, read (encoded ++ rest) = some (value, rest)

theorem Reads.pure (value : α) : Reads (Pure.pure value) value [] := fun _ => rfl

theorem Reads.bind {read : Reader α} {next : α → Reader β} {first : α} {second : β}
    {front back : Bytes} (hf : Reads read first front) (hb : Reads (next first) second back) :
    Reads (read >>= next) second (front ++ back) := by
  intro rest
  rw [bind_apply, List.append_assoc, hf]
  exact hb rest

theorem Reads.exact (bytes : Bytes) : Reads (Reader.exact bytes.length) bytes bytes := by
  intro rest
  simp [Reader.exact]

theorem Reads.u8 (byte : UInt8) : Reads Reader.u8 byte [byte] := fun _ => rfl

theorem Reads.u16 (value : UInt16) : Reads Reader.u16 value (toBe 2 value.toNat) := by
  intro rest
  have h := Reads.exact (toBe 2 value.toNat) rest
  rw [toBe_length] at h
  simp [Reader.u16, bind_apply, h, ofBe_toBe 2 _ value.toNat_lt, pure_apply]

theorem Reads.u32 (value : UInt32) : Reads Reader.u32 value (toBe 4 value.toNat) := by
  intro rest
  have h := Reads.exact (toBe 4 value.toNat) rest
  rw [toBe_length] at h
  simp [Reader.u32, bind_apply, h, ofBe_toBe 4 _ value.toNat_lt, pure_apply]

-- Read values one after another until the next one is not there whole; what
-- is left over comes back with them. `fuel` bounds the number of values.
def manyFor (read : Reader α) : Nat → Bytes → List α × Bytes
  | 0, bytes => ([], bytes)
  | fuel + 1, bytes =>
      match read bytes with
      | none => ([], bytes)
      | some (value, rest) =>
          let (values, left) := manyFor read fuel rest
          (value :: values, left)

-- A value takes at least one byte, so the input's length is fuel enough.
def many (read : Reader α) (bytes : Bytes) : List α × Bytes :=
  manyFor read bytes.length bytes

theorem manyFor_flatMap (read : Reader α) (encode : α → Bytes) (values : List α)
    (hr : ∀ value ∈ values, Reads read value (encode value))
    (hpos : ∀ value ∈ values, 0 < (encode value).length) (hend : read [] = none) (fuel : Nat)
    (hf : (values.flatMap encode).length ≤ fuel) :
    manyFor read fuel (values.flatMap encode) = (values, []) := by
  induction values generalizing fuel with
  | nil => cases fuel <;> simp [manyFor, hend]
  | cons value values ih =>
      have hp := hpos value (by simp)
      simp only [List.flatMap_cons, List.length_append] at hf
      obtain ⟨fuel, rfl⟩ : ∃ n, fuel = n + 1 := ⟨fuel - 1, by omega⟩
      have hi := ih (fun v hv => hr v (by simp [hv])) (fun v hv => hpos v (by simp [hv])) fuel
        (by omega)
      simp only [List.flatMap_cons, manyFor, hr value (by simp) _, hi]

-- Encodings laid end to end are read back one by one, up to the last byte.
theorem many_flatMap (read : Reader α) (encode : α → Bytes) (values : List α)
    (hr : ∀ value ∈ values, Reads read value (encode value))
    (hpos : ∀ value ∈ values, 0 < (encode value).length) (hend : read [] = none) :
    many read (values.flatMap encode) = (values, []) :=
  manyFor_flatMap read encode values hr hpos hend _ (Nat.le_refl _)

end Reader

end SingBox.Library
