import SingBox.Library.Checked
import SingBox.Library.HttpHead
import Mathlib.Data.List.Infix

namespace SingBox.Library

open HttpHead (CR LF crlf)

-- Where the needle is found first.
def position (needle : Bytes) : Bytes → Option Nat
  | [] => none
  | byte :: rest =>
      if needle <+: byte :: rest then some 0 else (position needle rest).map (· + 1)

theorem position_some {needle data : Bytes} {index : Nat} (hneedle : needle ≠ [])
    (h : position needle data = some index) :
    ∃ front back, data = front ++ (needle ++ back) ∧ index = front.length ∧ ¬needle <:+: front := by
  induction data generalizing index with
  | nil => cases h
  | cons byte rest ih =>
      rw [position] at h
      split at h
      · next hstarts =>
          obtain ⟨back, hback⟩ := hstarts
          exact ⟨[], back, hback.symm, (Option.some.inj h).symm,
            fun hinside => hneedle (List.infix_nil.mp hinside)⟩
      · next hstarts =>
          obtain ⟨before, hrest, rfl⟩ := Option.map_eq_some_iff.mp h
          obtain ⟨front, back, rfl, rfl, hclean⟩ := ih hrest
          refine ⟨byte :: front, back, rfl, rfl, fun hinside => ?_⟩
          obtain hfront | hbehind := List.infix_cons_iff.mp hinside
          · exact hstarts (hfront.trans (List.prefix_append (byte :: front) (needle ++ back)))
          · exact hclean hbehind

-- What comes behind the needle does not move it.
theorem position_again {needle front back : Bytes} (hneedle : needle ≠ [])
    (h : position needle (front ++ (needle ++ back)) = some front.length) (other : Bytes) :
    position needle (front ++ (needle ++ other)) = some front.length := by
  induction front with
  | nil =>
      obtain ⟨byte, rest, rfl⟩ := List.exists_cons_of_ne_nil hneedle
      exact if_pos (List.prefix_append (byte :: rest) other)
  | cons byte front ih =>
      rw [List.cons_append, position] at h
      split at h
      · cases h
      · next hstarts =>
          obtain ⟨index, hfront, hindex⟩ := Option.map_eq_some_iff.mp h
          obtain rfl : index = front.length := Nat.succ.inj hindex
          rw [List.cons_append, position, if_neg, ih hfront]
          · rfl
          · intro hother
            have hlength : needle.length ≤ (byte :: (front ++ needle)).length := by
              rw [List.length_cons, List.length_append]
              omega
            have hwithin (more : Bytes) : byte :: (front ++ needle) <+: byte :: (front ++ (needle ++ more)) :=
              ⟨more, by rw [List.cons_append, List.append_assoc]⟩
            have hfound := List.prefix_of_prefix_length_le hother (hwithin other) hlength
            exact hstarts (hfound.trans (hwithin back))

theorem position_append {needle data : Bytes} {index : Nat} (hneedle : needle ≠ [])
    (h : position needle data = some index) (more : Bytes) :
    position needle (data ++ more) = some index := by
  obtain ⟨front, back, rfl, rfl, -⟩ := position_some hneedle h
  rw [List.append_assoc, List.append_assoc]
  exact position_again hneedle h (back ++ more)

-- Before the last byte of the needle it is not found.
theorem position_part {needle front back data left : Bytes} (hneedle : needle ≠ [])
    (h : position needle (front ++ (needle ++ back)) = some front.length)
    (hsplit : data ++ left = front ++ needle) (hleft : left ≠ []) : position needle data = none := by
  cases hfound : position needle data with
  | none => rfl
  | some index =>
      obtain ⟨before, after, rfl, rfl, -⟩ := position_some hneedle hfound
      have hall := position_append hneedle hfound (left ++ back)
      rw [← List.append_assoc _ left, hsplit, List.append_assoc, h] at hall
      have hsame := Option.some.inj hall
      have hlength := congrArg List.length hsplit
      have hpos := List.length_pos_iff.mpr hleft
      simp only [List.length_append] at hlength
      omega

-- The end of a head, where the empty line is looked for.
theorem headEnd_eq (data : Bytes) :
    HttpHead.headEnd data = (position (crlf ++ crlf) data).map (· + 4) := by
  induction data with
  | nil => rfl
  | cons byte rest ih =>
      rw [HttpHead.headEnd, position, ih]
      split
      · rfl
      · rw [Option.map_map, Option.map_map]
        exact congrArg (Option.map · _) (funext fun index => Nat.add_right_comm index 4 1)

-- The chunked coding of a body, as bytes.
namespace Chunked

-- What is in front of a line end.
def Line (line : Bytes) : Prop := ¬crlf <:+: line

instance (line : Bytes) : Decidable (Line line) := inferInstanceAs (Decidable (¬_))

theorem position_line {line : Bytes} (h : Line line) (rest : Bytes) :
    position crlf (line ++ (crlf ++ rest)) = some line.length := by
  induction line with
  | nil => exact if_pos (List.prefix_append crlf rest)
  | cons byte line ih =>
      have hline : Line line := fun hinside => h (List.infix_cons hinside)
      rw [List.cons_append, position, if_neg, ih hline]
      · rfl
      · rintro ⟨back, hback⟩
        have hpair : CR :: LF :: back = byte :: (line ++ (crlf ++ rest)) := hback
        obtain ⟨rfl, hnext⟩ := List.cons.inj hpair
        cases line with
        | nil => cases (List.cons.inj hnext).1
        | cons next line =>
            obtain ⟨rfl, -⟩ := List.cons.inj hnext
            exact h ⟨[], line, rfl⟩

theorem line_of_position {data : Bytes} {index : Nat} (h : position crlf data = some index) :
    ∃ line rest, data = line ++ (crlf ++ rest) ∧ index = line.length ∧ Line line :=
  position_some (by decide) h

-- A chunk, as its size line and its data.
structure Chunk where
  line : Bytes
  data : Bytes

def Chunk.bytes (this : Chunk) : Bytes := this.line ++ (crlf ++ (this.data ++ crlf))

def write (chunks : List Chunk) : Bytes := chunks.flatMap Chunk.bytes

def dataOf (chunks : List Chunk) : Bytes := chunks.flatMap Chunk.data

section

-- The size that a recipient finds in a line, and how much it takes in all.
variable (sizeOf : Bytes → Option Nat) (fits : Nat → Prop)

structure Chunk.Reads (this : Chunk) : Prop where
  line : Line this.line
  data : this.data ≠ []
  size : sizeOf this.line = some this.data.length

-- What a decoder may find in front of it.
inductive Front (taken : Nat) : Bytes → Prop where
  | chunk {chunk : Chunk} (hchunk : chunk.Reads sizeOf) (hsmall : chunk.data.length + 2 < 2 ^ 64)
      (hfits : fits (taken + chunk.data.length)) (rest : Bytes) : Front taken (chunk.bytes ++ rest)
  | last {line : Bytes} (hline : Line line) (hsize : sizeOf line = some 0) (rest : Bytes) :
      Front taken (line ++ (crlf ++ rest))
  | overflow {line : Bytes} {size : Nat} (hline : Line line) (hsize : sizeOf line = some size)
      (hlarge : 2 ^ 64 ≤ size + 2) (rest : Bytes) : Front taken (line ++ (crlf ++ rest))

-- A loop whose passes take a chunk each. The size enters an addition with the two bytes of
-- the line end.
structure Decoder (body : Bytes × Bytes → Checked (Pass (Bytes × Bytes) Bytes)) : Prop where
  chunk {chunk : Chunk} {rest output : Bytes} : chunk.Reads sizeOf →
    chunk.data.length + 2 < 2 ^ 64 → fits (output.length + chunk.data.length) →
    body (chunk.bytes ++ rest, output) = pure (.again (rest, output ++ chunk.data))
  last {line rest output : Bytes} : Line line → sizeOf line = some 0 →
    body (line ++ (crlf ++ rest), output) = pure (.done output)
  overflow {line rest output : Bytes} {size : Nat} : Line line → sizeOf line = some size →
    2 ^ 64 ≤ size + 2 → body (line ++ (crlf ++ rest), output) = Checked.fault .overflow
  cases (remaining output : Bytes) : Front sizeOf fits output.length remaining ∨
    ∃ chain, body (remaining, output) = Checked.ofResult (.error chain)

-- What a decoder comes to.
inductive Decodes : Bytes → Bytes → Checked Bytes → Prop where
  | chunk {chunk : Chunk} {rest output : Bytes} {result : Checked Bytes} (hchunk : chunk.Reads sizeOf)
      (hsmall : chunk.data.length + 2 < 2 ^ 64) (hfits : fits (output.length + chunk.data.length))
      (hrest : Decodes rest (output ++ chunk.data) result) :
      Decodes (chunk.bytes ++ rest) output result
  | last {line : Bytes} (hline : Line line) (hsize : sizeOf line = some 0) (rest output : Bytes) :
      Decodes (line ++ (crlf ++ rest)) output (pure output)
  | overflow {line : Bytes} {size : Nat} (hline : Line line) (hsize : sizeOf line = some size)
      (hlarge : 2 ^ 64 ≤ size + 2) (rest output : Bytes) :
      Decodes (line ++ (crlf ++ rest)) output (Checked.fault .overflow)
  | refused (remaining output : Bytes) (chain : List String) :
      Decodes remaining output (Checked.ofResult (.error chain))

variable {sizeOf fits}

theorem Chunk.bytes_append (this : Chunk) (rest : Bytes) :
    this.bytes ++ rest = this.line ++ (crlf ++ (this.data ++ (crlf ++ rest))) := by
  simp only [bytes, List.append_assoc]

theorem write_cons (chunk : Chunk) (chunks : List Chunk) (rest : Bytes) :
    write (chunk :: chunks) ++ rest = chunk.bytes ++ (write chunks ++ rest) := by
  rw [write, List.flatMap_cons, List.append_assoc, write]

theorem dataOf_cons (chunk : Chunk) (chunks : List Chunk) :
    dataOf (chunk :: chunks) = chunk.data ++ dataOf chunks := List.flatMap_cons

namespace Decoder

variable {body : Bytes × Bytes → Checked (Pass (Bytes × Bytes) Bytes)}

theorem decreases (h : Decoder sizeOf fits body) :
    Loop.Decreases (Checked.pass body) fun state => state.1.length := by
  intro (remaining, output) next hnext
  obtain hfront | ⟨chain, hfailed⟩ := h.cases remaining output
  · cases hfront with
    | chunk hchunk hsmall hfits rest =>
        rw [Checked.pass_again (h.chunk hchunk hsmall hfits)] at hnext
        cases hnext
        simp only [Chunk.bytes_append, List.length_append, HttpHead.crlf, List.length_cons]
        omega
    | last hline hsize rest =>
        rw [Checked.pass_done (h.last hline hsize)] at hnext
        cases hnext
    | overflow hline hsize hlarge rest =>
        rw [Checked.pass_fault (h.overflow hline hsize hlarge)] at hnext
        cases hnext
  · rw [Checked.pass_error hfailed] at hnext
    cases hnext

-- The loop, from what remains of the input and what has been put out.
def run (h : Decoder sizeOf fits body) (remaining output : Bytes) : Checked Bytes :=
  Loop.run (Checked.pass body) _ h.decreases (remaining, output)

variable (h : Decoder sizeOf fits body) {line rest output : Bytes}

theorem run_chunk {chunk : Chunk} (hchunk : chunk.Reads sizeOf)
    (hsmall : chunk.data.length + 2 < 2 ^ 64) (hfits : fits (output.length + chunk.data.length)) :
    h.run (chunk.bytes ++ rest) output = h.run rest (output ++ chunk.data) :=
  Loop.run_again h.decreases _ _ (Checked.pass_again (h.chunk hchunk hsmall hfits))

theorem run_last (hline : Line line) (hsize : sizeOf line = some 0) :
    h.run (line ++ (crlf ++ rest)) output = pure output :=
  Loop.run_done h.decreases _ _ (Checked.pass_done (h.last hline hsize))

theorem run_overflow {size : Nat} (hline : Line line) (hsize : sizeOf line = some size)
    (hlarge : 2 ^ 64 ≤ size + 2) :
    h.run (line ++ (crlf ++ rest)) output = Checked.fault .overflow :=
  Loop.run_done h.decreases _ _ (Checked.pass_fault (h.overflow hline hsize hlarge))

theorem run_error {chain : List String} {remaining : Bytes}
    (hfailed : body (remaining, output) = Checked.ofResult (.error chain)) :
    h.run remaining output = Checked.ofResult (.error chain) :=
  Loop.run_done h.decreases _ _ (Checked.pass_error hfailed)

theorem decodes (remaining output : Bytes) :
    Decodes sizeOf fits remaining output (h.run remaining output) := by
  induction hlength : remaining.length using Nat.strongRecOn generalizing remaining output with
  | _ length ih =>
      obtain hfront | ⟨chain, hfailed⟩ := h.cases remaining output
      · cases hfront with
        | @chunk chunk hchunk hsmall hfits rest =>
            rw [h.run_chunk hchunk hsmall hfits]
            refine .chunk hchunk hsmall hfits (ih rest.length ?_ rest _ rfl)
            simp only [Chunk.bytes_append, List.length_append, HttpHead.crlf, List.length_cons] at hlength
            omega
        | last hline hsize rest =>
            rw [h.run_last hline hsize]
            exact .last hline hsize rest output
        | overflow hline hsize hlarge rest =>
            rw [h.run_overflow hline hsize hlarge]
            exact .overflow hline hsize hlarge rest output
      · rw [h.run_error hfailed]
        exact .refused remaining output chain

end Decoder

-- Where the decoding of an input ends well.
theorem Decodes.of_ok {remaining output decoded : Bytes} {result : Checked Bytes}
    (h : Decodes sizeOf fits remaining output result) (hresult : result = pure decoded)
    (hfits : fits output.length) :
    ∃ chunks line rest, remaining = write chunks ++ (line ++ (crlf ++ rest)) ∧
      (∀ chunk ∈ chunks, chunk.Reads sizeOf ∧ chunk.data.length + 2 < 2 ^ 64) ∧
      fits (output.length + (dataOf chunks).length) ∧ Line line ∧ sizeOf line = some 0 ∧
      decoded = output ++ dataOf chunks := by
  induction h with
  | @chunk chunk rest output result hchunk hsmall hfitsChunk hrest ih =>
      obtain ⟨chunks, line, rest, rfl, hchunks, hall, hline, hsize, rfl⟩ :=
        ih hresult (by rwa [List.length_append])
      refine ⟨chunk :: chunks, line, rest, (write_cons chunk chunks _).symm,
        List.forall_mem_cons.mpr ⟨⟨hchunk, hsmall⟩, hchunks⟩, ?_, hline, hsize, ?_⟩
      · rwa [dataOf_cons, List.length_append, ← Nat.add_assoc, ← List.length_append]
      · rw [dataOf_cons, List.append_assoc]
  | @last line hline hsize rest output =>
      obtain rfl : output = decoded := Except.ok.inj (Except.ok.inj hresult)
      refine ⟨[], line, rest, rfl, fun chunk hchunk => absurd hchunk List.not_mem_nil, hfits, hline,
        hsize, (List.append_nil output).symm⟩
  | overflow => cases hresult
  | refused => cases hresult

theorem Decodes.of_fault {remaining output : Bytes} {kind : Fault} {result : Checked Bytes}
    (h : Decodes sizeOf fits remaining output result) (hresult : result = Checked.fault kind)
    (hfits : fits output.length) :
    ∃ chunks line rest size, remaining = write chunks ++ (line ++ (crlf ++ rest)) ∧
      (∀ chunk ∈ chunks, chunk.Reads sizeOf) ∧ fits (output.length + (dataOf chunks).length) ∧
      Line line ∧ sizeOf line = some size ∧ 2 ^ 64 ≤ size + 2 := by
  induction h with
  | @chunk chunk rest output result hchunk hsmall hfitsChunk hrest ih =>
      obtain ⟨chunks, line, rest, size, rfl, hchunks, hall, hline, hsize, hlarge⟩ :=
        ih hresult (by rwa [List.length_append])
      refine ⟨chunk :: chunks, line, rest, size, (write_cons chunk chunks _).symm,
        List.forall_mem_cons.mpr ⟨hchunk, hchunks⟩, ?_, hline, hsize, hlarge⟩
      rwa [dataOf_cons, List.length_append, ← Nat.add_assoc, ← List.length_append]
  | last => cases hresult
  | @overflow line size hline hsize hlarge rest output =>
      exact ⟨[], line, rest, size, rfl, fun chunk hchunk => absurd hchunk List.not_mem_nil, hfits,
        hline, hsize, hlarge⟩
  | refused => cases hresult

-- The part of a pass behind the size line.
abbrev Take := Nat → Bytes → Bytes → Checked (Pass (Bytes × Bytes) Bytes)

-- A pass that looks for the size line first.
def body (missing : String) (readSize : Bytes → Result Nat) (take : Take) :
    Bytes × Bytes → Checked (Pass (Bytes × Bytes) Bytes)
  | (remaining, output) => do
      let lineEnd ← Checked.ofOption missing (position crlf remaining)
      let line ← Checked.slice remaining 0 lineEnd
      let size ← Checked.ofResult (readSize line)
      let remaining ← Checked.slice remaining (lineEnd + 2) remaining.length
      take size remaining output

-- What is asked of it.
structure Takes (fits : Nat → Prop) (take : Take) : Prop where
  last (rest output : Bytes) : take 0 rest output = pure (.done output)
  overflow {size : Nat} (rest output : Bytes) : 2 ^ 64 ≤ size + 2 →
    take size rest output = Checked.fault .overflow
  chunk {data output : Bytes} (rest : Bytes) : data ≠ [] → data.length + 2 < 2 ^ 64 →
    fits (output.length + data.length) →
    take data.length (data ++ (crlf ++ rest)) output = pure (.again (rest, output ++ data))
  cases {size : Nat} (remaining output : Bytes) : size ≠ 0 → size + 2 < 2 ^ 64 →
    (∃ data rest, remaining = data ++ (crlf ++ rest) ∧ data.length = size ∧
      fits (output.length + size)) ∨
    ∃ chain, take size remaining output = Checked.ofResult (.error chain)

theorem split_data {size : Nat} {remaining : Bytes} (h : size + 2 ≤ remaining.length) :
    ∃ data mid rest, remaining = data ++ (mid ++ rest) ∧ data.length = size ∧ mid.length = 2 := by
  refine ⟨remaining.take size, (remaining.drop size).take 2, (remaining.drop size).drop 2, ?_, ?_, ?_⟩
  · rw [List.take_append_drop, List.take_append_drop]
  · rw [List.length_take]
    omega
  · rw [List.length_take, List.length_drop]
    omega

-- A chunk in front of its line end and what comes behind it.
theorem slice_data (data mid rest : Bytes) (h : mid.length = 2) :
    data.length + 2 ≤ (data ++ (mid ++ rest)).length ∧
      Checked.slice (data ++ (mid ++ rest)) data.length (data.length + 2) = pure mid ∧
      Checked.slice (data ++ (mid ++ rest)) (data.length + 2) (data ++ (mid ++ rest)).length =
        pure rest := by
  refine ⟨?_, h ▸ Checked.slice_mid data mid rest, h ▸ Checked.slice_behind data mid rest⟩
  rw [List.length_append, List.length_append]
  omega

theorem body_line (missing : String) (readSize : Bytes → Result Nat) (take : Take) {line : Bytes}
    (h : Line line) (rest output : Bytes) :
    body missing readSize take (line ++ (crlf ++ rest), output) =
      Checked.ofResult (readSize line) >>= fun size => take size rest output := by
  have hrest : Checked.slice (line ++ (crlf ++ rest)) (line.length + 2)
      (line ++ (crlf ++ rest)).length = pure rest := Checked.slice_behind line crlf rest
  rw [body, position_line h, Checked.ofOption_some, pure_bind, Checked.slice_front, pure_bind]
  simp only [hrest, pure_bind]

theorem Takes.decoder {take : Take} (h : Takes fits take) (missing : String)
    (readSize : Bytes → Result Nat) :
    Decoder (fun line => (readSize line).toOption) fits (body missing readSize take) := by
  have hread {line : Bytes} {size : Nat} (hsize : (readSize line).toOption = some size) :
      readSize line = .ok size := by
    cases hline : readSize line with
    | error chain => simp [hline, Except.toOption] at hsize
    | ok found => simpa [hline, Except.toOption] using hsize
  refine ⟨fun hchunk hsmall hfits => ?_, fun hline hsize => ?_, fun hline hsize hlarge => ?_,
    fun remaining output => ?_⟩
  · rw [Chunk.bytes_append, body_line _ _ _ hchunk.line, hread hchunk.size]
    exact h.chunk _ hchunk.data hsmall hfits
  · rw [body_line _ _ _ hline, hread hsize]
    exact h.last _ _
  · rw [body_line _ _ _ hline, hread hsize]
    exact h.overflow _ _ hlarge
  · cases hend : position crlf remaining with
    | none =>
        refine .inr ⟨[missing], ?_⟩
        rw [body, hend]
        rfl
    | some index =>
        obtain ⟨line, rest, rfl, -, hline⟩ := line_of_position hend
        rw [body_line _ _ _ hline]
        cases hsize : readSize line with
        | error chain => exact .inr ⟨chain, rfl⟩
        | ok size =>
            have hfound : (readSize line).toOption = some size := by rw [hsize]; rfl
            by_cases hzero : size = 0
            · exact .inl (.last hline (hzero ▸ hfound) rest)
            by_cases hsmall : size + 2 < 2 ^ 64
            · obtain ⟨data, back, rfl, rfl, hfits⟩ | hfailed := h.cases rest output hzero hsmall
              · refine .inl ?_
                have hreads : Chunk.Reads (fun line => (readSize line).toOption) ⟨line, data⟩ :=
                  ⟨hline, List.ne_nil_of_length_pos (Nat.pos_of_ne_zero hzero), hfound⟩
                exact Chunk.bytes_append ⟨line, data⟩ back ▸ .chunk hreads hsmall hfits back
              · exact .inr hfailed
            · exact .inl (.overflow hline hfound (Nat.not_lt.mp hsmall) rest)

section

variable {body : Bytes × Bytes → Checked (Pass (Bytes × Bytes) Bytes)}
  (h : Decoder sizeOf fits body) (hmono : ∀ few many, few ≤ many → fits many → fits few)

include hmono

-- Chunks that fit are taken, as long as no size is too large.
theorem Decoder.run_write {chunks : List Chunk} {output : Bytes} (rest : Bytes)
    (hchunks : ∀ chunk ∈ chunks, chunk.Reads sizeOf)
    (hfits : fits (output.length + (dataOf chunks).length)) :
    h.run (write chunks ++ rest) output = h.run rest (output ++ dataOf chunks) ∨
      (∃ chunk ∈ chunks, 2 ^ 64 ≤ chunk.data.length + 2) ∧
        h.run (write chunks ++ rest) output = Checked.fault .overflow := by
  induction chunks generalizing output with
  | nil =>
      refine .inl ?_
      rw [show dataOf [] = [] from rfl, List.append_nil]
      rfl
  | cons chunk chunks ih =>
      obtain ⟨hchunk, hothers⟩ := List.forall_mem_cons.mp hchunks
      rw [dataOf_cons, List.length_append, ← Nat.add_assoc, ← List.length_append] at hfits
      rw [write_cons]
      by_cases hsmall : chunk.data.length + 2 < 2 ^ 64
      · have hfirst : fits (output.length + chunk.data.length) :=
          hmono _ _ (by rw [List.length_append]; omega) hfits
        rw [h.run_chunk hchunk hsmall hfirst, dataOf_cons, ← List.append_assoc]
        obtain hrun | ⟨⟨large, hmem, hlarge⟩, hrun⟩ := ih hothers hfits
        · exact .inl hrun
        · exact .inr ⟨⟨large, List.mem_cons_of_mem _ hmem, hlarge⟩, hrun⟩
      · have hlarge := Nat.not_lt.mp hsmall
        refine .inr ⟨⟨chunk, List.mem_cons_self, hlarge⟩, ?_⟩
        rw [Chunk.bytes_append]
        exact h.run_overflow hchunk.line hchunk.size hlarge

theorem Decoder.run_faultless_iff {input : Bytes} (hnone : fits 0) :
    (h.run input []).Faultless ↔
      ∀ chunks line rest size, input = write chunks ++ (line ++ (crlf ++ rest)) →
        (∀ chunk ∈ chunks, chunk.Reads sizeOf) → fits (dataOf chunks).length → Line line →
        sizeOf line = some size → size + 2 < 2 ^ 64 := by
  constructor
  · rintro ⟨result, hresult⟩ chunks line rest size rfl hchunks hfits hline hsize
    by_contra hlarge
    have hfits : fits (([] : Bytes).length + (dataOf chunks).length) := by
      rwa [List.length_nil, Nat.zero_add]
    obtain hrun | ⟨-, hrun⟩ := h.run_write hmono (line ++ (crlf ++ rest)) hchunks hfits
    · rw [hrun, h.run_overflow hline hsize (Nat.not_lt.mp hlarge)] at hresult
      cases hresult
    · rw [hrun] at hresult
      cases hresult
  · intro hsizes
    cases hrun : h.run input [] with
    | ok result => exact ⟨result, rfl⟩
    | error kind =>
        obtain ⟨chunks, line, rest, size, rfl, hchunks, hfits, hline, hsize, hlarge⟩ :=
          (h.decodes input []).of_fault hrun hnone
        rw [List.length_nil, Nat.zero_add] at hfits
        have hsmall := hsizes chunks line rest size rfl hchunks hfits hline hsize
        omega

end

end

end Chunked

end SingBox.Library
