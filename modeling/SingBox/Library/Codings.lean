import Mathlib.Data.List.Basic
import SingBox.Library.Reader

namespace SingBox.Library.Base64

-- The standard coding of bytes in 64 characters, as it is read: three bytes in four characters,
-- and `=` in place of the characters for bytes that are missing at the end.

def alphabet : List Char := "ABCDEFGHIJKLMNOPQRSTUVWXYZabcdefghijklmnopqrstuvwxyz0123456789+/".toList

def digit? (char : Char) : Option Nat := if char ∈ alphabet then some (alphabet.idxOf char) else none

def decode : List Char → Option Bytes
  | [] => some []
  | first :: second :: third :: fourth :: rest => do
      let a ← digit? first
      let b ← digit? second
      if third = '=' ∧ fourth = '=' ∧ rest = [] then return [UInt8.ofNat (a * 4 + b / 16)]
      let c ← digit? third
      if fourth = '=' ∧ rest = [] then
        return [UInt8.ofNat (a * 4 + b / 16), UInt8.ofNat (b % 16 * 16 + c / 4)]
      let d ← digit? fourth
      return [UInt8.ofNat (a * 4 + b / 16), UInt8.ofNat (b % 16 * 16 + c / 4),
        UInt8.ofNat (c % 4 * 64 + d)] ++ (← decode rest)
  | _ => none

example : decode "Zm9vYg==".toList = some [102, 111, 111, 98] := by decide

variable {first second third fourth : Char} {a b c d : Nat} {rest : List Char} {bytes : Bytes}

theorem decode_one (hfirst : digit? first = some a) (hsecond : digit? second = some b) :
    decode [first, second, '=', '='] = some [UInt8.ofNat (a * 4 + b / 16)] := by
  rw [decode, hfirst, hsecond]
  rfl

theorem not_padding (h : digit? fourth = some d) : fourth ≠ '=' := by
  have hnone : digit? '=' = none := by decide
  rintro rfl
  cases hnone.symm.trans h

theorem decode_two (hfirst : digit? first = some a) (hsecond : digit? second = some b)
    (hthird : digit? third = some c) : decode [first, second, third, '='] =
      some [UInt8.ofNat (a * 4 + b / 16), UInt8.ofNat (b % 16 * 16 + c / 4)] := by
  rw [decode, hfirst, hsecond, hthird]
  show (if third = '=' ∧ '=' = '=' ∧ ([] : List Char) = [] then _ else _) = _
  rw [if_neg fun h => not_padding hthird h.1]
  rfl

theorem decode_three (hfirst : digit? first = some a) (hsecond : digit? second = some b)
    (hthird : digit? third = some c) (hfourth : digit? fourth = some d) (hrest : decode rest = some bytes) :
    decode (first :: second :: third :: fourth :: rest) =
      some ([UInt8.ofNat (a * 4 + b / 16), UInt8.ofNat (b % 16 * 16 + c / 4),
        UInt8.ofNat (c % 4 * 64 + d)] ++ bytes) := by
  rw [decode, hfirst, hsecond, hthird, hfourth, hrest]
  show (if third = '=' ∧ fourth = '=' ∧ rest = [] then _ else _) = _
  rw [if_neg fun h => not_padding hthird h.1]
  show (if fourth = '=' ∧ rest = [] then _ else _) = _
  rw [if_neg fun h => not_padding hfourth h.1]
  rfl

end SingBox.Library.Base64

namespace SingBox.Library.Percent

-- Bytes in which some are written as `%` and two digits.

-- How a digit is written.
def digits (digit : Nat) : Bytes :=
  [UInt8.ofNat (Nat.digitChar digit).toNat, UInt8.ofNat (Nat.digitChar digit).toUpper.toNat]

-- A single pass: what is found is not looked at again.
inductive Decodes : Bytes → Bytes → Prop
  | nil : Decodes [] []
  | plain {byte : UInt8} {rest decoded : Bytes} :
      byte ≠ 37 → Decodes rest decoded → Decodes (byte :: rest) (byte :: decoded)
  | escaped {high low : Nat} {first second : UInt8} {rest decoded : Bytes} :
      high < 16 → low < 16 → first ∈ digits high → second ∈ digits low → Decodes rest decoded →
        Decodes (37 :: first :: second :: rest) (UInt8.ofNat (high * 16 + low) :: decoded)

-- Every byte written so.
def escape (bytes : Bytes) : Bytes :=
  bytes.flatMap fun byte => [37, UInt8.ofNat (Nat.digitChar (byte.toNat / 16)).toNat,
    UInt8.ofNat (Nat.digitChar (byte.toNat % 16)).toNat]

theorem decodes_escape (bytes : Bytes) : Decodes (escape bytes) bytes := by
  induction bytes with
  | nil => exact .nil
  | cons byte rest ih =>
      have hbyte := byte.toNat_lt
      have hstep : Decodes (escape (byte :: rest))
          (UInt8.ofNat (byte.toNat / 16 * 16 + byte.toNat % 16) :: rest) :=
        .escaped (by omega) (by omega) List.mem_cons_self List.mem_cons_self ih
      rwa [Nat.div_add_mod', UInt8.ofNat_toNat] at hstep

theorem Decodes.append {first second found other : Bytes} (hfirst : Decodes first found)
    (hsecond : Decodes second other) : Decodes (first ++ second) (found ++ other) := by
  induction hfirst with
  | nil => exact hsecond
  | plain hplain _ ih => exact .plain hplain ih
  | escaped hhigh hlow hfirst hsecond _ ih => exact .escaped hhigh hlow hfirst hsecond ih

-- What is written so begins with the mark, and has only digits behind it.
def marks : Bytes := 37 :: (List.range 16).map fun digit => UInt8.ofNat (Nat.digitChar digit).toNat

theorem escape_marks (bytes : Bytes) : ∀ byte ∈ escape bytes, byte ∈ marks := by
  have hdigit (digit : Nat) (h : digit < 16) : UInt8.ofNat (Nat.digitChar digit).toNat ∈ marks :=
    List.mem_cons_of_mem _ (List.mem_map.mpr ⟨digit, List.mem_range.mpr h, rfl⟩)
  intro byte hmem
  obtain ⟨source, _, hbyte⟩ := List.mem_flatMap.mp hmem
  have hsource := source.toNat_lt
  simp only [List.mem_cons, List.not_mem_nil, or_false] at hbyte
  obtain rfl | rfl | rfl := hbyte
  · exact List.mem_cons_self
  · exact hdigit _ (by omega)
  · exact hdigit _ (by omega)

end SingBox.Library.Percent
