import Mathlib.Analysis.Complex.Trigonometric
import SingBox.Library.Reader

namespace SingBox.Library.Digest

-- Digests of messages as the standards have them, on strings of bits.

abbrev Bits := List Bool
abbrev Word := BitVec 32

-- A number in so many bits, the high-order bit first, and back.
def numeral (width n : Nat) : Bits := (List.range width).map fun index => n.testBit (width - 1 - index)

def value (bits : Bits) : Nat := bits.foldl (fun n bit => 2 * n + bit.toNat) 0

-- Every byte is eight bits, the high-order bit first.
def ofBytes (bytes : Bytes) : Bits := bytes.flatMap fun byte => numeral 8 byte.toNat

-- The `index`th of the parts of so many bits.
def part (width : Nat) (bits : Bits) (index : Nat) : Bits := (bits.drop (width * index)).take width

-- The bytes in the other order.
def swapped (bits : Bits) : Bits :=
  (List.range (bits.length / 8)).reverse.flatMap fun index => part 8 bits index

-- Every four bits are a digit.
def hex : Bits → List Char
  | b3 :: b2 :: b1 :: b0 :: rest => Nat.digitChar (value [b3, b2, b1, b0]) :: hex rest
  | _ => []

-- How many zeros there are between the bit that ends the message and its length.
def zeros (length : Nat) : Nat := (959 - length % 512) % 512

theorem zeros_least (length : Nat) : (length + 1 + zeros length) % 512 = 448 ∧
    ∀ fewer < zeros length, (length + 1 + fewer) % 512 ≠ 448 := by
  unfold zeros
  constructor
  · omega
  · intro fewer hfewer
    omega

-- `length` is how the length is written, in 64 bits.
def pad (length : Nat → Bits) (message : Bits) : Bits :=
  message ++ true :: (List.replicate (zeros message.length) false ++ length message.length)

-- The blocks of 512 bits go into the state one after another.
def absorb {σ : Type} (process : σ → Bits → σ) (initial : σ) (padded : Bits) : σ :=
  ((List.range (padded.length / 512)).map fun index => part 512 padded index).foldl process initial

-- SHA-1
namespace Sha1

structure State where
  a : Word
  b : Word
  c : Word
  d : Word
  e : Word

def initial : State := ⟨0x67452301, 0xefcdab89, 0x98badcfe, 0x10325476, 0xc3d2e1f0⟩

def ch (x y z : Word) : Word := (x &&& y) ^^^ (~~~x &&& z)
def parity (x y z : Word) : Word := x ^^^ y ^^^ z
def maj (x y z : Word) : Word := (x &&& y) ^^^ (x &&& z) ^^^ (y &&& z)

def f (t : Nat) : Word → Word → Word → Word :=
  if t ≤ 19 then ch else if t ≤ 39 then parity else if t ≤ 59 then maj else parity

def K (t : Nat) : Word :=
  if t ≤ 19 then 0x5a827999 else if t ≤ 39 then 0x6ed9eba1 else if t ≤ 59 then 0x8f1bbcdc else 0xca62c1d6

-- The words of a block, and those that are made of them.
def schedule (M : Nat → Word) (t : Nat) : Word :=
  if t < 16 then M t
  else (schedule M (t - 3) ^^^ schedule M (t - 8) ^^^ schedule M (t - 14) ^^^
    schedule M (t - 16)).rotateLeft 1

def step (W : Nat → Word) (state : State) (t : Nat) : State where
  a := state.a.rotateLeft 5 + f t state.b state.c state.d + state.e + K t + W t
  b := state.a
  c := state.b.rotateLeft 30
  d := state.c
  e := state.d

def process (state : State) (block : Bits) : State :=
  let W := schedule fun t => BitVec.ofNat 32 (value (part 32 block t))
  let last := (List.range 80).foldl (step W) state
  ⟨state.a + last.a, state.b + last.b, state.c + last.c, state.d + last.d, state.e + last.e⟩

def hash (message : Bits) : Bits :=
  let state := absorb process initial (pad (numeral 64) message)
  [state.a, state.b, state.c, state.d, state.e].flatMap fun word => numeral 32 word.toNat

end Sha1

-- MD5
namespace Md5

structure Buffer where
  a : Word
  b : Word
  c : Word
  d : Word

def initial : Buffer := ⟨0x67452301, 0xefcdab89, 0x98badcfe, 0x10325476⟩

noncomputable def T (i : Nat) : Word := BitVec.ofNat 32 ⌊2 ^ 32 * |Real.sin i|⌋₊

def F (x y z : Word) : Word := (x &&& y) ||| (~~~x &&& z)
def G (x y z : Word) : Word := (x &&& z) ||| (y &&& ~~~z)
def H (x y z : Word) : Word := x ^^^ y ^^^ z
def I (x y z : Word) : Word := y ^^^ (x ||| ~~~z)

-- Which of the words an operation changes, the first one named.
inductive Order where
  | abcd
  | dabc
  | cdab
  | bcda
deriving DecidableEq

structure Operation where
  order : Order
  k : Nat
  s : Nat
  i : Nat
deriving DecidableEq

-- `a = b + ((a + f(b,c,d) + X[k] + T[i]) <<< s)`, with the words in the order of the operation
noncomputable def Operation.run (f : Word → Word → Word → Word) (X : Nat → Word) (buffer : Buffer)
    (this : Operation) : Buffer :=
  match this.order with
  | .abcd => { buffer with a := buffer.b +
      (buffer.a + f buffer.b buffer.c buffer.d + X this.k + T this.i).rotateLeft this.s }
  | .dabc => { buffer with d := buffer.a +
      (buffer.d + f buffer.a buffer.b buffer.c + X this.k + T this.i).rotateLeft this.s }
  | .cdab => { buffer with c := buffer.d +
      (buffer.c + f buffer.d buffer.a buffer.b + X this.k + T this.i).rotateLeft this.s }
  | .bcda => { buffer with b := buffer.c +
      (buffer.b + f buffer.c buffer.d buffer.a + X this.k + T this.i).rotateLeft this.s }

def round1 : List Operation :=
  [⟨.abcd, 0, 7, 1⟩, ⟨.dabc, 1, 12, 2⟩, ⟨.cdab, 2, 17, 3⟩, ⟨.bcda, 3, 22, 4⟩,
    ⟨.abcd, 4, 7, 5⟩, ⟨.dabc, 5, 12, 6⟩, ⟨.cdab, 6, 17, 7⟩, ⟨.bcda, 7, 22, 8⟩,
    ⟨.abcd, 8, 7, 9⟩, ⟨.dabc, 9, 12, 10⟩, ⟨.cdab, 10, 17, 11⟩, ⟨.bcda, 11, 22, 12⟩,
    ⟨.abcd, 12, 7, 13⟩, ⟨.dabc, 13, 12, 14⟩, ⟨.cdab, 14, 17, 15⟩, ⟨.bcda, 15, 22, 16⟩]

def round2 : List Operation :=
  [⟨.abcd, 1, 5, 17⟩, ⟨.dabc, 6, 9, 18⟩, ⟨.cdab, 11, 14, 19⟩, ⟨.bcda, 0, 20, 20⟩,
    ⟨.abcd, 5, 5, 21⟩, ⟨.dabc, 10, 9, 22⟩, ⟨.cdab, 15, 14, 23⟩, ⟨.bcda, 4, 20, 24⟩,
    ⟨.abcd, 9, 5, 25⟩, ⟨.dabc, 14, 9, 26⟩, ⟨.cdab, 3, 14, 27⟩, ⟨.bcda, 8, 20, 28⟩,
    ⟨.abcd, 13, 5, 29⟩, ⟨.dabc, 2, 9, 30⟩, ⟨.cdab, 7, 14, 31⟩, ⟨.bcda, 12, 20, 32⟩]

def round3 : List Operation :=
  [⟨.abcd, 5, 4, 33⟩, ⟨.dabc, 8, 11, 34⟩, ⟨.cdab, 11, 16, 35⟩, ⟨.bcda, 14, 23, 36⟩,
    ⟨.abcd, 1, 4, 37⟩, ⟨.dabc, 4, 11, 38⟩, ⟨.cdab, 7, 16, 39⟩, ⟨.bcda, 10, 23, 40⟩,
    ⟨.abcd, 13, 4, 41⟩, ⟨.dabc, 0, 11, 42⟩, ⟨.cdab, 3, 16, 43⟩, ⟨.bcda, 6, 23, 44⟩,
    ⟨.abcd, 9, 4, 45⟩, ⟨.dabc, 12, 11, 46⟩, ⟨.cdab, 15, 16, 47⟩, ⟨.bcda, 2, 23, 48⟩]

def round4 : List Operation :=
  [⟨.abcd, 0, 6, 49⟩, ⟨.dabc, 7, 10, 50⟩, ⟨.cdab, 14, 15, 51⟩, ⟨.bcda, 5, 21, 52⟩,
    ⟨.abcd, 12, 6, 53⟩, ⟨.dabc, 3, 10, 54⟩, ⟨.cdab, 10, 15, 55⟩, ⟨.bcda, 1, 21, 56⟩,
    ⟨.abcd, 8, 6, 57⟩, ⟨.dabc, 15, 10, 58⟩, ⟨.cdab, 6, 15, 59⟩, ⟨.bcda, 13, 21, 60⟩,
    ⟨.abcd, 4, 6, 61⟩, ⟨.dabc, 11, 10, 62⟩, ⟨.cdab, 2, 15, 63⟩, ⟨.bcda, 9, 21, 64⟩]

-- A word has its low-order byte first.
noncomputable def process (buffer : Buffer) (block : Bits) : Buffer :=
  let X (k : Nat) : Word := BitVec.ofNat 32 (value (swapped (part 32 block k)))
  let first := round1.foldl (Operation.run F X) buffer
  let second := round2.foldl (Operation.run G X) first
  let third := round3.foldl (Operation.run H X) second
  let last := round4.foldl (Operation.run I X) third
  ⟨buffer.a + last.a, buffer.b + last.b, buffer.c + last.c, buffer.d + last.d⟩

noncomputable def hash (message : Bits) : Bits :=
  let buffer := absorb process initial (pad (fun length => swapped (numeral 64 length)) message)
  [buffer.a, buffer.b, buffer.c, buffer.d].flatMap fun word => swapped (numeral 32 word.toNat)

end Md5

section

variable {width other n : Nat}

@[simp] theorem numeral_length (width n : Nat) : (numeral width n).length = width := by simp [numeral]

theorem numeral_succ (width n : Nat) : numeral (width + 1) n = numeral width (n / 2) ++ [n.testBit 0] := by
  rw [numeral, numeral, List.range_succ, List.map_append]
  congr 1
  · refine List.map_congr_left fun index hindex => ?_
    have hlt := List.mem_range.mp hindex
    rw [← Nat.testBit_succ]
    congr 1
    omega
  · simp

theorem numeral_append (width other n : Nat) :
    numeral (width + other) n = numeral width (n / 2 ^ other) ++ numeral other n := by
  induction other generalizing n with
  | zero => simp [numeral]
  | succ other ih =>
      rw [← Nat.add_assoc, numeral_succ, ih, numeral_succ, Nat.div_div_eq_div_mul, ← Nat.pow_succ',
        List.append_assoc]

theorem value_concat (bits : Bits) (bit : Bool) : value (bits ++ [bit]) = 2 * value bits + bit.toNat := by
  simp [value]

theorem value_append (front back : Bits) :
    value (front ++ back) = value front * 2 ^ back.length + value back := by
  induction back using List.reverseRecOn with
  | nil => simp [value]
  | append_singleton back bit ih =>
      rw [← List.append_assoc, value_concat, ih, value_concat, List.length_append, List.length_singleton,
        Nat.pow_succ]
      ring

theorem value_numeral (width n : Nat) : value (numeral width n) = n % 2 ^ width := by
  induction width generalizing n with
  | zero =>
      rw [Nat.pow_zero, Nat.mod_one]
      rfl
  | succ width ih =>
      rw [numeral_succ, value_concat, ih, Nat.testBit_zero, Nat.pow_succ']
      have hsplit := Nat.mod_mul (x := n) (a := 2) (b := 2 ^ width)
      rcases Nat.mod_two_eq_zero_or_one n with hbit | hbit
      · simp only [hbit, zero_ne_one, decide_false, Bool.toNat_false]
        omega
      · simp only [hbit, decide_true, Bool.toNat_true]
        omega

theorem numeral_mod (width n : Nat) : numeral width (n % 2 ^ width) = numeral width n := by
  refine List.map_congr_left fun index hindex => ?_
  have hlt := List.mem_range.mp hindex
  rw [Nat.testBit_mod_two_pow, decide_eq_true (by omega), Bool.true_and]

end

section Bytes

variable {bytes : Bytes}

theorem ofBytes_append (front back : Bytes) : ofBytes (front ++ back) = ofBytes front ++ ofBytes back :=
  List.flatMap_append

theorem ofBytes_flatMap {α : Type} (items : List α) (bytes : α → Bytes) :
    ofBytes (items.flatMap bytes) = items.flatMap fun item => ofBytes (bytes item) := List.flatMap_assoc

theorem ofBytes_cons (byte : UInt8) (bytes : Bytes) :
    ofBytes (byte :: bytes) = numeral 8 byte.toNat ++ ofBytes bytes := List.flatMap_cons

theorem ofBytes_singleton (byte : UInt8) : ofBytes [byte] = numeral 8 byte.toNat :=
  List.append_nil _

theorem ofBytes_length (bytes : Bytes) : (ofBytes bytes).length = 8 * bytes.length := by
  induction bytes with
  | nil => rfl
  | cons byte rest ih =>
      rw [ofBytes_cons, List.length_append, numeral_length, ih, List.length_cons]
      omega

theorem value_ofBytes (bytes : Bytes) : value (ofBytes bytes) = ofBe bytes := by
  induction bytes using List.reverseRecOn with
  | nil => rfl
  | append_singleton bytes byte ih =>
      have hbyte := byte.toNat_lt
      rw [ofBytes_append, value_append, ih, ofBytes_singleton, value_numeral, numeral_length, ofBe_concat,
        Nat.mod_eq_of_lt hbyte]
      rfl

theorem ofBytes_toBe (width n : Nat) : ofBytes (toBe width n) = numeral (8 * width) n := by
  induction width generalizing n with
  | zero => rfl
  | succ width ih =>
      rw [toBe, ofBytes_append, ih, ofBytes_singleton, UInt8.toNat_ofNat', numeral_mod, Nat.mul_succ,
        numeral_append]
      rfl

theorem drop_ofBytes (count : Nat) (bytes : Bytes) :
    (ofBytes bytes).drop (8 * count) = ofBytes (bytes.drop count) := by
  induction count generalizing bytes with
  | zero => rfl
  | succ count ih =>
      cases bytes with
      | nil => exact List.drop_nil
      | cons byte rest =>
          have hskip : 8 * (count + 1) = (numeral 8 byte.toNat).length + 8 * count := by
            rw [numeral_length]
            omega
          rw [ofBytes_cons, hskip, List.drop_length_add_append, ih]
          rfl

theorem take_ofBytes (count : Nat) (bytes : Bytes) :
    (ofBytes bytes).take (8 * count) = ofBytes (bytes.take count) := by
  induction count generalizing bytes with
  | zero => rfl
  | succ count ih =>
      cases bytes with
      | nil => exact List.take_nil
      | cons byte rest =>
          have hskip : 8 * (count + 1) = (numeral 8 byte.toNat).length + 8 * count := by
            rw [numeral_length]
            omega
          rw [ofBytes_cons, hskip, List.take_length_add_append, ih, List.take_succ_cons, ofBytes_cons]

theorem part_ofBytes (width : Nat) (bytes : Bytes) (index : Nat) :
    part (8 * width) (ofBytes bytes) index = ofBytes ((bytes.drop (width * index)).take width) := by
  rw [part, Nat.mul_assoc, drop_ofBytes, take_ofBytes]

theorem swapped_ofBytes (bytes : Bytes) : swapped (ofBytes bytes) = ofBytes bytes.reverse := by
  have hparts : ∀ count ≤ bytes.length, (List.range count).reverse.flatMap (part 8 (ofBytes bytes)) =
      ofBytes (bytes.take count).reverse := by
    intro count hcount
    induction count with
    | zero => rfl
    | succ count ih =>
        have hlast : part 8 (ofBytes bytes) count = ofBytes [bytes[count]] := by
          refine (part_ofBytes 1 bytes count).trans ?_
          rw [Nat.one_mul, List.drop_eq_getElem_cons hcount]
          rfl
        rw [List.range_succ, List.reverse_concat, List.flatMap_cons, ih (Nat.le_of_succ_le hcount), hlast,
          ← ofBytes_append, List.take_succ_eq_append_getElem hcount, List.reverse_concat]
        rfl
  rw [swapped, ofBytes_length, Nat.mul_div_cancel_left _ (by decide), hparts _ (Nat.le_refl _),
    List.take_length]

theorem ofBytes_zeros (count : Nat) : ofBytes (List.replicate count 0) = List.replicate (8 * count) false := by
  induction count with
  | zero => rfl
  | succ count ih =>
      rw [List.replicate_succ, ofBytes_cons, ih, Nat.mul_succ, Nat.add_comm, List.replicate_add]
      rfl

-- The bit behind the message and the first zeros are the byte 0x80.
theorem pad_ofBytes {length : Nat → Bits} {message lengthBytes : Bytes}
    (h : length (8 * message.length) = ofBytes lengthBytes) : pad length (ofBytes message) =
      ofBytes (message ++ [0x80] ++ List.replicate ((120 - (message ++ [0x80]).length % 64) % 64) 0 ++
        lengthBytes) := by
  have hzeros : zeros (8 * message.length) = 7 + 8 * ((120 - (message ++ [0x80]).length % 64) % 64) := by
    rw [zeros, List.length_append, List.length_singleton]
    omega
  have hmark : ofBytes [0x80] = true :: List.replicate 7 false := by decide
  rw [pad, ofBytes_length, h, hzeros, List.replicate_add, ofBytes_append, ofBytes_append, ofBytes_append,
    hmark, ofBytes_zeros]
  simp only [List.append_assoc, List.cons_append]

-- Blocks of 64 bytes go into a state that stands for another one.
theorem absorb_ofBytes {σ τ : Type} {process : σ → Bits → σ} {compress : τ → Bytes → τ} {view : τ → σ}
    (h : ∀ state chunk, process (view state) (ofBytes chunk) = view (compress state chunk)) (initial : τ)
    (data : Bytes) : absorb process (view initial) (ofBytes data) =
      view (((List.range (data.length / 64)).map fun index =>
        (data.drop (index * 64)).take 64).foldl compress initial) := by
  have hcount : 8 * data.length / 512 = data.length / 64 := by omega
  have hparts (index : Nat) : part 512 (ofBytes data) index =
      ofBytes ((data.drop (index * 64)).take 64) := by
    rw [Nat.mul_comm index]
    exact part_ofBytes 64 data index
  rw [absorb, ofBytes_length, hcount, List.foldl_map, List.foldl_map]
  simp only [hparts]
  exact List.foldl_hom view fun state index => h state _

end Bytes

end SingBox.Library.Digest
