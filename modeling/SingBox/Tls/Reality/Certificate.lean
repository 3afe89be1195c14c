import SingBox.Library.Der
import SingBox.Library.Utf8
import SingBox.Tls.Reality

namespace SingBox.Tls

open Library
open Der (Value)
open Utf8 (encode)

def ED25519_OID : Bytes := [0x2b, 0x65, 0x70]

def derLen (len : Nat) : Bytes :=
  if len < 128 then [UInt8.ofNat len]
  else
    let body := (toBe 8 len).dropWhile (· = 0)
    (0x80 ||| UInt8.ofNat body.length) :: body

def derTag (tag : UInt8) (content : Bytes) : Bytes := tag :: (derLen content.length ++ content)

def derSequence (parts : List Bytes) : Bytes := derTag 0x30 parts.flatten
def derSet (parts : List Bytes) : Bytes := derTag 0x31 parts.flatten
def derInteger (value : Bytes) : Bytes := derTag 0x02 value
def derOid (value : Bytes) : Bytes := derTag 0x06 value
def derUtf8 (value : String) : Bytes := derTag 0x0c (encode value)
def derGeneralizedTime (value : String) : Bytes := derTag 0x18 (encode value)
def derBitString (value : Bytes) : Bytes := derTag 0x03 ([0] ++ value)
def derContextExplicit (tag : UInt8) (value : Bytes) : Bytes := derTag (0xa0 ||| tag) value

def buildRealityCertificate (publicKey signature : Bytes) : Bytes :=
  let algorithm := derSequence [derOid ED25519_OID]
  let version := derContextExplicit 0 (derInteger [2])
  let serial := derInteger [1]
  let commonName := derSequence [derOid [0x55, 0x04, 0x03], derUtf8 "REALITY"]
  let name := derSequence [derSet [commonName]]
  let validity := derSequence [derGeneralizedTime "20200101000000Z", derGeneralizedTime "20500101000000Z"]
  let spki := derSequence [algorithm, derBitString publicKey]
  let tbs := derSequence [version, serial, algorithm, name, validity, name, spki]
  derSequence [tbs, algorithm, derBitString signature]

theorem derLen_length (len : Nat) : (derLen len).length ≤ 9 := by
  unfold derLen
  split
  · exact Nat.le_add_left 1 8
  · have hbody := (List.dropWhile_suffix (l := toBe 8 len) (· = 0)).length_le
    rw [toBe_length] at hbody
    exact Nat.succ_le_succ hbody

theorem ofBe_dropWhile (bytes : Bytes) : ofBe (bytes.dropWhile (· = 0)) = ofBe bytes := by
  induction bytes with
  | nil => rfl
  | cons byte rest ih =>
      by_cases hzero : byte = 0
      · subst hzero
        have hdrop : ((0 : UInt8) :: rest).dropWhile (· = 0) = rest.dropWhile (· = 0) := rfl
        rw [hdrop, ih]
        rfl
      · rw [List.dropWhile_cons_of_neg (by simpa using hzero)]

-- A length is read back.
theorem readLength_derLen {len : Nat} (h : len < 2 ^ 64) : Der.readLength (derLen len) = some (len, []) := by
  unfold derLen
  split
  · next hshort =>
      have hsame : (UInt8.ofNat len).toNat = len := by
        rw [UInt8.toNat_ofNat', Nat.mod_eq_of_lt (by omega)]
      exact Der.readLength_eq_some.mpr (.inl ⟨by omega, hsame.symm, rfl⟩)
  · next hlong =>
      have hvalue : ofBe ((toBe 8 len).dropWhile (· = 0)) = len := by
        rw [ofBe_dropWhile, ofBe_toBe 8 len h]
      have hbody : ((toBe 8 len).dropWhile (· = 0)).length < 9 := by
        have hsuffix := (List.dropWhile_suffix (l := toBe 8 len) (· = 0)).length_le
        rw [toBe_length] at hsuffix
        omega
      have hmark : ∀ count < 9, (0x80 ||| UInt8.ofNat count).toNat = 128 + count := by decide
      have hhead : ((toBe 8 len).dropWhile (· = 0)).head? ≠ some 0 := by
        intro hhead
        have hfirst := List.head?_dropWhile_not (· = 0) (toBe 8 len)
        rw [hhead] at hfirst
        simp at hfirst
      refine Der.readLength_eq_some.mpr (.inr ⟨_, (List.append_nil _).symm, hmark _ hbody, hhead, ?_, ?_⟩)
      · omega
      · exact hvalue.symm

-- What the certificate says: a key of the algorithm under a name, and a signature.
def ed25519 : Value := .constructed 0x30 [.primitive 0x06 ED25519_OID]

def realityName : Value :=
  .constructed 0x30 [.constructed 0x31 [.constructed 0x30
    [.primitive 0x06 [0x55, 0x04, 0x03], .primitive 0x0c (encode "REALITY")]]]

def realityCertificate (publicKey signature : Bytes) : Value :=
  .constructed 0x30 [
    .constructed 0x30 [
      .constructed 0xa0 [.primitive 0x02 [2]],
      .primitive 0x02 [1],
      ed25519,
      realityName,
      .constructed 0x30
        [.primitive 0x18 (encode "20200101000000Z"), .primitive 0x18 (encode "20500101000000Z")],
      realityName,
      .constructed 0x30 [ed25519, .primitive 0x03 (0 :: publicKey)]],
    ed25519,
    .primitive 0x03 (0 :: signature)]

theorem buildRealityCertificate_eq (publicKey signature : Bytes) :
    buildRealityCertificate publicKey signature =
      Der.encode derLen (realityCertificate publicKey signature) := by
  simp only [buildRealityCertificate, derSequence, derSet, derInteger, derOid, derUtf8,
    derGeneralizedTime, derBitString, derContextExplicit, derTag, realityCertificate, ed25519,
    realityName, Der.encode, Der.encodeAll, List.flatten_cons, List.flatten_nil, List.append_nil]
  rfl

theorem values_buildRealityCertificate {publicKey signature : Bytes} (hkey : publicKey.length = 32)
    (hsignature : signature.length < 2 ^ 63) :
    Der.values (buildRealityCertificate publicKey signature) =
      some [realityCertificate publicKey signature] := by
  have hroom : (realityCertificate publicKey signature).room ≤ signature.length + 500 := by
    have htexts : (encode "REALITY").length = 7 ∧ (encode "20200101000000Z").length = 15 ∧
        (encode "20500101000000Z").length = 15 := by decide
    simp only [realityCertificate, ed25519, realityName, ED25519_OID, Value.room, Der.allRoom,
      List.length_cons, List.length_nil, hkey, htexts]
    omega
  have hlength := Der.encode_length derLen_length (realityCertificate publicKey signature)
  rw [buildRealityCertificate_eq]
  exact Der.values_encode (fun _ => readLength_derLen) _ rfl (by omega)

-- The certificate is one, with nothing but what it is built from: it is read back whole, and from
-- it the key and the signature.
theorem buildRealityCertificate_reads {publicKey signature : Bytes} (hkey : publicKey.length = 32)
    (hsignature : signature.length < 2 ^ 63) :
    Der.values (buildRealityCertificate publicKey signature) =
        some [realityCertificate publicKey signature] ∧
      ∀ otherKey otherSignature : Bytes, otherKey.length = 32 → otherSignature.length < 2 ^ 63 →
        buildRealityCertificate otherKey otherSignature = buildRealityCertificate publicKey signature →
        otherKey = publicKey ∧ otherSignature = signature := by
  have hread := values_buildRealityCertificate hkey hsignature
  refine ⟨hread, fun otherKey otherSignature hother hotherSignature hsame => ?_⟩
  have hotherRead := values_buildRealityCertificate hother hotherSignature
  rw [hsame, hread] at hotherRead
  simp only [realityCertificate, Option.some.injEq, List.cons.injEq, Value.constructed.injEq,
    Value.primitive.injEq, true_and, and_true] at hotherRead
  exact ⟨hotherRead.1.symm, hotherRead.2.symm⟩

theorem buildRealityCertificate_reads_replicate :
    Der.values (buildRealityCertificate (List.replicate 32 1) (List.replicate 64 2)) =
      some [realityCertificate (List.replicate 32 1) (List.replicate 64 2)] :=
  (buildRealityCertificate_reads List.length_replicate (by decide)).1

end SingBox.Tls
