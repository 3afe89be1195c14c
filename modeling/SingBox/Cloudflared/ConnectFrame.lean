import Mathlib.Algebra.Order.Ring.Nat
import SingBox.Cloudflared.Request
import SingBox.Library.Follows
import SingBox.Library.Relay

namespace SingBox.Cloudflared

open Library

def DATA_STREAM_SIGNATURE : Bytes := [0x0A, 0x36, 0xCD, 0x12, 0xA1, 0x3E]

def PROTOCOL_VERSION : Bytes := [0x30, 0x31]

def MAX_CONNECT_MESSAGE : Nat := 8 * 1024 * 1024

-- `u32::from_le_bytes`
def ofLittle (bytes : Bytes) : Nat := ofBe bytes.reverse

-- The size of the table of a message of so many segments.
def frameHeaderSize (segmentCount : Nat) : Checked Nat := do
  Checked.nextMultipleOf (← Checked.mul 4 (← Checked.add segmentCount 1)) 8

-- `usize::checked_mul` and `usize::checked_add`, and what is said where they fail.
def checkedSize (size : Nat) : Checked Nat :=
  Checked.ofOption "Cloudflare Cap'n Proto size overflow" (if size < 2 ^ 64 then some size else none)

-- The loop over the segments, from `index` on.
def bodySizeFrom (frame : Bytes) : Nat → Nat → Nat → Checked Nat
  | 0, _, bodySize => pure bodySize
  | segments + 1, index, bodySize => do
      let offset ← Checked.add 4 (← Checked.mul index 4)
      let words := ofLittle (← Checked.slice frame offset (← Checked.add offset 4))
      let bodySize ← checkedSize (bodySize + (← checkedSize (words * 8)))
      bodySizeFrom frame segments (index + 1) bodySize

-- The table behind its first eight bytes.
def readOthers {σ : Type} [AsyncRead σ] (headerSize polls : Nat) : Async σ Bytes :=
  if 8 < headerSize then Async.readExact (headerSize - 8) polls else pure []

-- `allocate` notes how long a buffer is made.
def readConnectFrame {σ : Type} [AsyncRead σ] (polls : Nat) : Async (Metered σ) Bytes := do
  let version ← Async.withContext "read Cloudflare data stream version" (Async.readExact 2 polls)
  Async.ensure (version = PROTOCOL_VERSION) "unsupported Cloudflare data stream version"
  let header ← Async.readExact 8 polls
  let segmentCount ← Async.ofChecked (Checked.add (ofLittle (header.take 4)) 1)
  Async.ensure (segmentCount ≤ 512) "Cloudflare Cap'n Proto message has too many segments"
  let headerSize ← Async.ofChecked (frameHeaderSize segmentCount)
  Async.ensure (8 ≤ headerSize) "invalid Cloudflare Cap'n Proto header"
  Metered.allocate headerSize
  let others ← readOthers headerSize polls
  let bodySize ← Async.ofChecked (bodySizeFrom (header ++ others) segmentCount 0 0)
  Async.ensure (bodySize ≤ MAX_CONNECT_MESSAGE) "Cloudflare connect request is too large"
  let frameSize ← Async.ofChecked (Checked.add headerSize bodySize)
  Metered.allocate frameSize
  let body ← Async.readExact bodySize polls
  Metered.allocate (DATA_STREAM_SIGNATURE.length + PROTOCOL_VERSION.length + frameSize)
  return DATA_STREAM_SIGNATURE ++ (PROTOCOL_VERSION ++ (header ++ others ++ body))

-- What stands in front of the message is checked here, and `readMessage` is the reader of the
-- message, with the fields of the request.
def decodeConnectRequest (readMessage : Bytes → Result ConnectRequest) (data : Bytes) :
    Checked ConnectRequest := do
  Checked.ensure (DATA_STREAM_SIGNATURE.length + PROTOCOL_VERSION.length ≤ data.length)
    "Condition failed: data.len() >= DATA_STREAM_SIGNATURE.len() + PROTOCOL_VERSION.len()"
  let signature ← Checked.slice data 0 DATA_STREAM_SIGNATURE.length
  Checked.ensure (signature = DATA_STREAM_SIGNATURE) "invalid Cloudflare data stream signature"
  let version ← Checked.slice data DATA_STREAM_SIGNATURE.length (DATA_STREAM_SIGNATURE.length + 2)
  Checked.ensure (version = PROTOCOL_VERSION) "unsupported Cloudflare data stream version"
  Checked.ofResult (readMessage (← Checked.slice data 8 data.length))

-- The size of the table: the number of segments, their sizes, up to a whole word.
def tableSize (segmentCount : Nat) : Nat := (4 * (segmentCount + 1) + 7) / 8 * 8

-- The words of the segments from `index` on, by their entries in the table.
def wordsFrom (table : Bytes) : Nat → Nat → Nat
  | 0, _ => 0
  | segments + 1, index =>
      ofLittle ((table.drop (4 + index * 4)).take 4) + wordsFrom table segments (index + 1)

def segmentsIn (header : Bytes) : Nat := ofLittle (header.take 4) + 1

-- What is made of the bytes of a stream, without the checks of the sizes themselves.
def frameDecoder : Decoder Bytes := do
  let version ← Decoder.withContext "read Cloudflare data stream version" (Decoder.exact ["early eof"] 2)
  Decoder.ensure (version = PROTOCOL_VERSION) "unsupported Cloudflare data stream version"
  let header ← Decoder.exact ["early eof"] 8
  Decoder.ensure (segmentsIn header ≤ 512) "Cloudflare Cap'n Proto message has too many segments"
  Decoder.ensure (8 ≤ tableSize (segmentsIn header)) "invalid Cloudflare Cap'n Proto header"
  let others ← Decoder.exact ["early eof"] (tableSize (segmentsIn header) - 8)
  let bodySize := 8 * wordsFrom (header ++ others) (segmentsIn header) 0
  Decoder.ensure (bodySize ≤ MAX_CONNECT_MESSAGE) "Cloudflare connect request is too large"
  let body ← Decoder.exact ["early eof"] bodySize
  return DATA_STREAM_SIGNATURE ++ (PROTOCOL_VERSION ++ (header ++ others ++ body))

def toLittle (width n : Nat) : Bytes := (toBe width n).reverse

theorem toLittle_length (width n : Nat) : (toLittle width n).length = width := by
  rw [toLittle, List.length_reverse, toBe_length]

theorem ofLittle_lt (bytes : Bytes) : ofLittle bytes < 256 ^ bytes.length := by
  rw [← List.length_reverse]
  exact ofBe_lt bytes.reverse

theorem ofLittle_toLittle {width n : Nat} (h : n < 256 ^ width) : ofLittle (toLittle width n) = n := by
  rw [ofLittle, toLittle, List.reverse_reverse, ofBe_toBe width n h]

theorem toLittle_ofLittle (bytes : Bytes) : toLittle bytes.length (ofLittle bytes) = bytes := by
  rw [ofLittle, toLittle, ← List.length_reverse, toBe_ofBe, List.reverse_reverse]

theorem frameHeaderSize_eq {segmentCount : Nat} (h : segmentCount ≤ 512) :
    frameHeaderSize segmentCount = pure (tableSize segmentCount) := by
  rw [frameHeaderSize, Checked.add_of_lt (by omega), pure_bind, Checked.mul_of_lt (by omega), pure_bind,
    Checked.nextMultipleOf, tableSize]
  split
  · exact congrArg pure (by omega)
  · rw [Checked.add_of_lt (by omega)]
    exact congrArg pure (by omega)

theorem checkedSize_eq {size : Nat} (h : size < 2 ^ 64) : checkedSize size = pure size := by
  rw [checkedSize, if_pos h]
  rfl

theorem slice_take {bytes : Bytes} {start count : Nat} (h : start + count ≤ bytes.length) :
    Checked.slice bytes start (start + count) = pure ((bytes.drop start).take count) := by
  rw [Checked.slice, if_pos ⟨by omega, h⟩, List.take_drop]

-- The invariant: there is room for what the segments that are left can add.
theorem bodySizeFrom_eq (table : Bytes) (segments index bodySize : Nat)
    (htable : 4 + (index + segments) * 4 ≤ table.length) (hcount : index + segments ≤ 512)
    (hsize : bodySize + segments * 2 ^ 35 < 2 ^ 64) :
    bodySizeFrom table segments index bodySize =
      pure (bodySize + 8 * wordsFrom table segments index) := by
  induction segments generalizing index bodySize with
  | zero => rfl
  | succ segments ih =>
      have hwords : ofLittle ((table.drop (4 + index * 4)).take 4) < 2 ^ 32 := by
        have hlt := ofLittle_lt ((table.drop (4 + index * 4)).take 4)
        have hlength : ((table.drop (4 + index * 4)).take 4).length = 4 := by
          rw [List.length_take, List.length_drop]
          omega
        rwa [hlength] at hlt
      rw [bodySizeFrom, Checked.mul_of_lt (by omega), pure_bind, Checked.add_of_lt (by omega), pure_bind,
        Checked.add_of_lt (by omega), pure_bind, slice_take (by omega), pure_bind]
      show (checkedSize (ofLittle _ * 8) >>= fun _ => _) = _
      rw [checkedSize_eq (by omega), pure_bind, checkedSize_eq (by omega), pure_bind,
        ih _ _ (by omega) (by omega) (by omega), wordsFrom]
      exact congrArg pure (by omega)

section

variable {σ : Type} [AsyncRead σ] {source : Source σ}

theorem follows_readOthers (hends : source.Ends) (headerSize : Nat) (input : Bytes) :
    source.Follows (readOthers headerSize) (Decoder.exact ["early eof"] (headerSize - 8)) input := by
  by_cases hlong : 8 < headerSize
  · have hread : readOthers headerSize = (Async.readExact (headerSize - 8) : Nat → Async σ Bytes) := by
      funext polls
      exact if_pos hlong
    rw [hread]
    exact .exact hends _ input
  · have hread : readOthers headerSize = fun _ => (pure [] : Async σ Bytes) := by
      funext polls
      exact if_neg hlong
    have hnone : Decoder.exact ["early eof"] (headerSize - 8) = pure [] := by
      funext bytes
      rw [Nat.sub_eq_zero_of_le (Nat.not_lt.mp hlong)]
      rfl
    rw [hread, hnone]
    exact .pure [] input

-- No more than this is asked for at a time, whatever comes: the signature, the version, the table
-- that is announced, and the largest body.
def allowance (input : Bytes) : Nat :=
  DATA_STREAM_SIGNATURE.length + PROTOCOL_VERSION.length +
    tableSize (segmentsIn (input.drop PROTOCOL_VERSION.length)) + MAX_CONNECT_MESSAGE

theorem exact_ok {count : Nat} {input value left : Bytes}
    (h : Decoder.exact ["early eof"] count input = .ok (value, left)) :
    value.length = count ∧ input = value ++ left := by
  unfold Decoder.exact at h
  split at h
  case isFalse => cases h
  case isTrue hcount =>
    obtain ⟨rfl, rfl⟩ := Prod.mk.inj (Except.ok.inj h)
    exact ⟨by rw [List.length_take, Nat.min_eq_left hcount], (List.take_append_drop _ _).symm⟩

theorem ensure_ok {condition : Bool} {message : String} {input left : Bytes} {value : Unit}
    (h : Decoder.ensure condition message input = .ok (value, left)) : condition = true ∧ left = input := by
  cases condition with
  | false => cases h
  | true => exact ⟨rfl, (Prod.mk.inj (Except.ok.inj h)).2.symm⟩

-- The function does on a stream what the decoder does on its bytes.
theorem follows_frameDecoder (hends : source.Ends) (input : Bytes) :
    (Metered.source source (allowance input)).Follows readConnectFrame frameDecoder input := by
  have hall := Metered.source_ends hends (allowance input)
  refine ((Source.Follows.exact hall 2 input).withContext _).bind fun version afterVersion hversion => ?_
  obtain ⟨hlength, hinput⟩ := exact_ok (Result.withContext_eq_ok.mp hversion)
  refine (Source.Follows.ensure _ _ _).bind fun _ left hensured => ?_
  obtain ⟨-, rfl⟩ := ensure_ok hensured
  refine (Source.Follows.exact hall 8 left).bind fun header afterHeader hheader => ?_
  obtain ⟨height, rfl⟩ := exact_ok hheader
  have hsegments : segmentsIn (input.drop PROTOCOL_VERSION.length) = segmentsIn header := by
    have hdrop : input.drop PROTOCOL_VERSION.length = header ++ afterHeader := by
      rw [hinput]
      exact List.drop_left' hlength
    rw [hdrop, segmentsIn, List.take_append_of_le_length (by omega), segmentsIn]
  have hfield : ofLittle (header.take 4) < 2 ^ 32 := by
    have hlt := ofLittle_lt (header.take 4)
    rwa [List.length_take, height] at hlt
  have hadd : Checked.add (ofLittle (header.take 4)) 1 = pure (segmentsIn header) :=
    Checked.add_of_lt (by omega)
  refine .bind_checked hadd ?_
  refine (Source.Follows.ensure _ _ _).bind fun _ left hensured => ?_
  obtain ⟨hsome, rfl⟩ := ensure_ok hensured
  have hcount : segmentsIn header ≤ 512 := of_decide_eq_true hsome
  have hleast : 8 + 4 * (segmentsIn header - 1) ≤ tableSize (segmentsIn header) ∧
      tableSize (segmentsIn header) ≤ 2056 := by
    rw [tableSize]
    omega
  refine .bind_checked (frameHeaderSize_eq hcount) ?_
  refine (Source.Follows.ensure _ _ _).bind fun _ left hensured => ?_
  obtain ⟨-, rfl⟩ := ensure_ok hensured
  have hallowed : allowance input = 8 + tableSize (segmentsIn header) + MAX_CONNECT_MESSAGE := by
    rw [allowance, hsegments]
    rfl
  refine Metered.follows_allocate (by omega) ?_
  refine (follows_readOthers hall _ _).bind fun others afterTable hothers => ?_
  obtain ⟨hothersLength, -⟩ := exact_ok hothers
  have htable : (header ++ others).length = tableSize (segmentsIn header) := by
    rw [List.length_append]
    omega
  have hpositive : 1 ≤ segmentsIn header := Nat.le_add_left 1 _
  have hbody := bodySizeFrom_eq (header ++ others) (segmentsIn header) 0 0 (by omega) (by omega)
    (by omega)
  rw [Nat.zero_add] at hbody
  refine .bind_checked hbody ?_
  refine (Source.Follows.ensure _ _ _).bind fun _ left hensured => ?_
  obtain ⟨hsmall, rfl⟩ := ensure_ok hensured
  have hfits := of_decide_eq_true hsmall
  have hmost : MAX_CONNECT_MESSAGE < 2 ^ 32 := by decide
  refine .bind_checked (Checked.add_of_lt (by omega)) ?_
  refine Metered.follows_allocate (by omega) ?_
  refine (Source.Follows.exact hall _ _).bind fun body afterBody hbodyRead => ?_
  refine Metered.follows_allocate ?_ (.pure _ _)
  rw [hallowed]
  show 8 + _ ≤ _
  omega

end

-- A message as it is framed in a stream: the number of segments, the words in each, room up to a
-- whole word, and the segments.
structure ConnectMessage where
  sizes : List UInt32
  padding : Bytes
  body : Bytes
  count : 1 ≤ sizes.length ∧ sizes.length ≤ 512
  padded : padding.length = if sizes.length % 2 = 0 then 4 else 0
  whole : body.length = 8 * (sizes.map UInt32.toNat).sum
  fits : body.length ≤ MAX_CONNECT_MESSAGE

def entry (size : UInt32) : Bytes := toLittle 4 size.toNat

theorem entries_length (sizes : List UInt32) : (sizes.flatMap entry).length = 4 * sizes.length := by
  induction sizes with
  | nil => rfl
  | cons size sizes ih =>
      rw [List.flatMap_cons, List.length_append, ih, entry, toLittle_length, List.length_cons]
      omega

namespace ConnectMessage

variable (this : ConnectMessage)

def table : Bytes :=
  toLittle 4 (this.sizes.length - 1) ++ (this.sizes.flatMap entry ++ this.padding)

def bytes : Bytes := this.table ++ this.body

theorem table_length : this.table.length = tableSize this.sizes.length := by
  have hpadded := this.padded
  rw [table, List.length_append, List.length_append, toLittle_length, entries_length, hpadded, tableSize]
  split <;> omega

end ConnectMessage

-- The entries from one on, and the words they come to.
theorem wordsFrom_entries {table rest : Bytes} {sizes : List UInt32} {index : Nat}
    (h : table.drop (4 + index * 4) = sizes.flatMap entry ++ rest) :
    wordsFrom table sizes.length index = (sizes.map UInt32.toNat).sum := by
  induction sizes generalizing index with
  | nil => rfl
  | cons size sizes ih =>
      rw [List.flatMap_cons, List.append_assoc] at h
      have hlength : (entry size).length = 4 := toLittle_length 4 _
      have hhere : (table.drop (4 + index * 4)).take 4 = entry size := by
        rw [h]
        exact List.take_left' hlength
      have hnext : table.drop (4 + (index + 1) * 4) = sizes.flatMap entry ++ rest := by
        have hsum : 4 + (index + 1) * 4 = 4 + index * 4 + 4 := by omega
        rw [hsum, ← List.drop_drop, h]
        exact List.drop_left' hlength
      rw [List.length_cons, wordsFrom, hhere, entry, ofLittle_toLittle size.toNat_lt, ih hnext,
        List.map_cons, List.sum_cons]

-- Any bytes are the entries of some sizes.
theorem exists_entries (segments : Nat) (bytes : Bytes) (h : 4 * segments ≤ bytes.length) :
    ∃ sizes : List UInt32, sizes.length = segments ∧ ∃ rest, bytes = sizes.flatMap entry ++ rest := by
  induction segments generalizing bytes with
  | zero => exact ⟨[], rfl, bytes, rfl⟩
  | succ segments ih =>
      obtain ⟨sizes, hlength, rest, hrest⟩ := ih (bytes.drop 4) (by rw [List.length_drop]; omega)
      have hfour : (bytes.take 4).length = 4 := by
        rw [List.length_take]
        omega
      have hlt : ofLittle (bytes.take 4) < 2 ^ 32 := by
        have hlt := ofLittle_lt (bytes.take 4)
        rwa [hfour] at hlt
      have hentry : entry (UInt32.ofNat (ofLittle (bytes.take 4))) = bytes.take 4 := by
        have hback := toLittle_ofLittle (bytes.take 4)
        rw [hfour] at hback
        rw [entry, UInt32.toNat_ofNat', Nat.mod_eq_of_lt hlt, hback]
      refine ⟨UInt32.ofNat (ofLittle (bytes.take 4)) :: sizes, by rw [List.length_cons, hlength], rest, ?_⟩
      rw [List.flatMap_cons, hentry, List.append_assoc, ← hrest, List.take_append_drop]

theorem reads_exact {bytes : Bytes} {count : Nat} (h : bytes.length = count) :
    Decoder.Reads (Decoder.exact ["early eof"] count) bytes bytes := by
  rw [← h]
  exact .exact _ bytes

theorem ConnectMessage.reads (message : ConnectMessage) :
    Decoder.Reads frameDecoder (DATA_STREAM_SIGNATURE ++ (PROTOCOL_VERSION ++ message.bytes))
      (PROTOCOL_VERSION ++ message.bytes) := by
  obtain ⟨hleast, hmost⟩ := message.count
  have htable := message.table_length
  have height : 8 ≤ tableSize message.sizes.length := by
    rw [tableSize]
    omega
  have hheader : (message.table.take 8).length = 8 := by
    rw [List.length_take]
    omega
  have hothers : (message.table.drop 8).length = tableSize message.sizes.length - 8 := by
    rw [List.length_drop, htable]
  have hfirst : (message.table.take 8).take 4 = toLittle 4 (message.sizes.length - 1) := by
    rw [List.take_take, ConnectMessage.table]
    exact List.take_left' (toLittle_length 4 _)
  have hsegments : segmentsIn (message.table.take 8) = message.sizes.length := by
    rw [segmentsIn, hfirst, ofLittle_toLittle (by omega)]
    omega
  have hentries : message.table.drop (4 + 0 * 4) = message.sizes.flatMap entry ++ message.padding :=
    List.drop_left' (toLittle_length 4 _)
  have hbody : message.body.length = 8 * wordsFrom (message.table.take 8 ++ message.table.drop 8)
      message.sizes.length 0 := by
    rw [List.take_append_drop, wordsFrom_entries hentries, message.whole]
  have hbytes : PROTOCOL_VERSION ++ message.bytes = PROTOCOL_VERSION ++ (message.table.take 8 ++
      (message.table.drop 8 ++ message.body)) := by
    rw [ConnectMessage.bytes, ← List.append_assoc (message.table.take 8), List.take_append_drop]
  rw [hbytes, frameDecoder]
  refine .bind (.withContext _ (reads_exact rfl)) (.bind_nil (.ensure (decide_eq_true rfl)) ?_)
  refine .bind (reads_exact hheader) (.bind_nil (.ensure ?_) (.bind_nil (.ensure ?_) ?_))
  · rw [hsegments]
    exact decide_eq_true hmost
  · rw [hsegments]
    exact decide_eq_true height
  rw [hsegments]
  refine .bind (reads_exact hothers) ?_
  show Decoder.Reads (Decoder.ensure (decide (8 * wordsFrom _ _ _ ≤ _)) _ >>= fun _ => _) _ _
  rw [← hbody]
  refine .bind_nil (.ensure (decide_eq_true message.fits)) fun rest => ?_
  rw [Decoder.Reads.bind_apply (reads_exact rfl), Decoder.pure_apply, List.append_assoc]

theorem of_bind {α β : Type} {read : Decoder α} {next : α → Decoder β} {input left : Bytes} {value : β}
    (h : (read >>= next) input = .ok (value, left)) :
    ∃ first mid, read input = .ok (first, mid) ∧ next first mid = .ok (value, left) := by
  obtain ⟨⟨first, mid⟩, hfirst, hsecond⟩ := Result.bind_eq_ok.mp h
  exact ⟨first, mid, hfirst, hsecond⟩

-- Whatever the decoder takes is such a message.
theorem frameDecoder_ok {input value left : Bytes} (h : frameDecoder input = .ok (value, left)) :
    ∃ message : ConnectMessage, input = PROTOCOL_VERSION ++ (message.bytes ++ left) := by
  obtain ⟨version, afterVersion, hversion, hchecked⟩ := of_bind h
  obtain ⟨-, rfl⟩ := exact_ok (Result.withContext_eq_ok.mp hversion)
  obtain ⟨_, mid, hensured, hrest⟩ := of_bind hchecked
  obtain ⟨hone, rfl⟩ := ensure_ok hensured
  obtain rfl := of_decide_eq_true hone
  obtain ⟨header, afterHeader, hheader, hcounted⟩ := of_bind hrest
  obtain ⟨height, rfl⟩ := exact_ok hheader
  obtain ⟨_, mid, hensured, hsized⟩ := of_bind hcounted
  obtain ⟨hsome, rfl⟩ := ensure_ok hensured
  have hcount : segmentsIn header ≤ 512 := of_decide_eq_true hsome
  obtain ⟨_, mid, hensured, htabled⟩ := of_bind hsized
  obtain ⟨-, rfl⟩ := ensure_ok hensured
  obtain ⟨others, afterTable, hothers, hsummed⟩ := of_bind htabled
  obtain ⟨hothersLength, rfl⟩ := exact_ok hothers
  obtain ⟨_, mid, hensured, hread⟩ := of_bind hsummed
  obtain ⟨hsmall, rfl⟩ := ensure_ok hensured
  have hfits := of_decide_eq_true hsmall
  obtain ⟨body, afterBody, hbody, hvalue⟩ := of_bind hread
  obtain ⟨hbodyLength, rfl⟩ := exact_ok hbody
  obtain ⟨-, rfl⟩ := Prod.mk.inj (Except.ok.inj hvalue)
  have hpositive : 1 ≤ segmentsIn header := Nat.le_add_left 1 _
  have hsize : 4 + 4 * segmentsIn header ≤ tableSize (segmentsIn header) ∧
      tableSize (segmentsIn header) = 4 + 4 * segmentsIn header +
        (if segmentsIn header % 2 = 0 then 4 else 0) ∧ 8 ≤ tableSize (segmentsIn header) := by
    rw [tableSize]
    split <;> omega
  have htable : (header ++ others).length = tableSize (segmentsIn header) := by
    rw [List.length_append]
    omega
  obtain ⟨sizes, hsizes, padding, hpadding⟩ := exists_entries (segmentsIn header)
    ((header ++ others).drop 4) (by rw [List.length_drop]; omega)
  have hwords : wordsFrom (header ++ others) sizes.length 0 = (sizes.map UInt32.toNat).sum :=
    wordsFrom_entries hpadding
  have hentries : tableSize (segmentsIn header) - 4 = 4 * segmentsIn header + padding.length := by
    rw [← htable, ← List.length_drop, hpadding, List.length_append, entries_length, hsizes]
  have hfirst : toLittle 4 (segmentsIn header - 1) = (header ++ others).take 4 := by
    have hfour : (header.take 4).length = 4 := by
      rw [List.length_take]
      omega
    have hback := toLittle_ofLittle (header.take 4)
    rw [hfour] at hback
    rw [List.take_append_of_le_length (by omega), ← hback]
    rfl
  have hbytes : toLittle 4 (sizes.length - 1) ++ (sizes.flatMap entry ++ padding) = header ++ others := by
    rw [hsizes, hfirst, ← hpadding, List.take_append_drop]
  rw [hsizes] at hwords
  refine ⟨⟨sizes, padding, body, by omega, ?_, ?_, by omega⟩, ?_⟩
  · rw [hsizes]
    omega
  · rw [hbodyLength, hwords]
  · show _ = PROTOCOL_VERSION ++ (toLittle 4 (sizes.length - 1) ++ (sizes.flatMap entry ++ padding) ++
      body ++ afterBody)
    rw [hbytes]
    simp only [List.append_assoc]

-- The message is found behind the signature and the version.
theorem decodeConnectRequest_frame (readMessage : Bytes → Result ConnectRequest) (message : Bytes) :
    decodeConnectRequest readMessage (DATA_STREAM_SIGNATURE ++ (PROTOCOL_VERSION ++ message)) =
      Checked.ofResult (readMessage message) := by
  have hsignature := Checked.slice_front DATA_STREAM_SIGNATURE (PROTOCOL_VERSION ++ message)
  have hversion := Checked.slice_mid DATA_STREAM_SIGNATURE PROTOCOL_VERSION message
  have hmessage := Checked.slice_behind DATA_STREAM_SIGNATURE PROTOCOL_VERSION message
  have hlong : decide (DATA_STREAM_SIGNATURE.length + PROTOCOL_VERSION.length ≤
      (DATA_STREAM_SIGNATURE ++ (PROTOCOL_VERSION ++ message)).length) = true := by
    simp [List.length_append, ← Nat.add_assoc]
  rw [decodeConnectRequest, hlong, Checked.ensure_true, pure_bind, hsignature, pure_bind,
    decide_eq_true rfl, Checked.ensure_true, pure_bind]
  show (Checked.slice _ DATA_STREAM_SIGNATURE.length
    (DATA_STREAM_SIGNATURE.length + PROTOCOL_VERSION.length) >>= fun _ => _) = _
  rw [hversion, pure_bind, decide_eq_true rfl, Checked.ensure_true, pure_bind]
  show (Checked.slice _ (DATA_STREAM_SIGNATURE.length + PROTOCOL_VERSION.length) _ >>= fun _ => _) = _
  rw [hmessage, pure_bind]

-- A message is cut out of a stream, with nothing that comes behind it; everything else is an
-- error, and neither comes to a fault or asks for too much memory.
theorem connect_frames_cut {σ : Type} [AsyncRead σ] {source : Source σ} (hends : source.Ends)
    {state : σ} (hgood : source.good state) :
    (∀ (message : ConnectMessage) (tail : Bytes),
      source.rest state = PROTOCOL_VERSION ++ (message.bytes ++ tail) →
      (∃ next, Async.Yields readConnectFrame ⟨state, []⟩
          (DATA_STREAM_SIGNATURE ++ (PROTOCOL_VERSION ++ message.bytes)) next ∧
        source.good next.stream ∧ source.rest next.stream = tail ∧
        ∀ size ∈ next.allocated, size ≤ allowance (source.rest state)) ∧
      ∀ readMessage, decodeConnectRequest readMessage
          (DATA_STREAM_SIGNATURE ++ (PROTOCOL_VERSION ++ message.bytes)) =
        Checked.ofResult (readMessage message.bytes)) ∧
    ((¬∃ (message : ConnectMessage) (tail : Bytes),
        source.rest state = PROTOCOL_VERSION ++ (message.bytes ++ tail)) →
      ∃ chain next, Async.Fails readConnectFrame ⟨state, []⟩ chain next ∧
        ∀ size ∈ next.allocated, size ≤ allowance (source.rest state)) := by
  have hfollows := follows_frameDecoder hends (source.rest state)
  have hstart : (Metered.source source (allowance (source.rest state))).good ⟨state, []⟩ :=
    ⟨hgood, fun _ hnone => absurd hnone List.not_mem_nil⟩
  constructor
  · intro message tail hrest
    refine ⟨?_, fun readMessage => decodeConnectRequest_frame readMessage message.bytes⟩
    have hdecoder := message.reads tail
    rw [List.append_assoc, ← hrest] at hdecoder
    obtain ⟨next, hyields, ⟨hnext, hsizes⟩, hleft⟩ := hfollows.yields _ hstart rfl _ _ hdecoder
    exact ⟨next, hyields, hnext, hleft, hsizes⟩
  · intro hother
    cases hdecoder : frameDecoder (source.rest state) with
    | ok result =>
        obtain ⟨value, left⟩ := result
        obtain ⟨message, hmessage⟩ := frameDecoder_ok hdecoder
        exact absurd ⟨message, left, hmessage⟩ hother
    | error chain =>
        obtain ⟨next, hfails, -, hsizes⟩ := hfollows.fails _ hstart rfl chain hdecoder
        exact ⟨chain, next, hfails, hsizes⟩

def ONE_WORD : ConnectMessage where
  sizes := [1]
  padding := []
  body := [1, 2, 3, 4, 5, 6, 7, 8]
  count := ⟨by decide, by decide⟩
  padded := rfl
  whole := rfl
  fits := by decide

theorem connect_frames_cut_one_word :
    (∃ next, Async.Yields readConnectFrame
        ⟨(⟨[PROTOCOL_VERSION ++ (ONE_WORD.bytes ++ [9])]⟩ : Pieces), []⟩
        (DATA_STREAM_SIGNATURE ++ (PROTOCOL_VERSION ++ ONE_WORD.bytes)) next ∧
      next.stream.pieces.flatten = [9]) ∧
    ∃ chain next, Async.Fails readConnectFrame ⟨(⟨[[0x30, 0x32]]⟩ : Pieces), []⟩ chain next := by
  have hgood : Pieces.source.good (⟨[PROTOCOL_VERSION ++ (ONE_WORD.bytes ++ [9])]⟩ : Pieces) :=
    List.forall_mem_singleton.mpr (by decide)
  have hother : Pieces.source.good (⟨[[0x30, 0x32]]⟩ : Pieces) :=
    List.forall_mem_singleton.mpr (by decide)
  obtain ⟨⟨next, hyields, -, hrest, -⟩, -⟩ :=
    (connect_frames_cut Pieces.ends hgood).1 ONE_WORD [9] (List.append_nil _)
  refine ⟨⟨next, hyields, hrest⟩, ?_⟩
  obtain ⟨chain, next, hfails, -⟩ := (connect_frames_cut Pieces.ends hother).2 (by
    rintro ⟨message, tail, hrest⟩
    have hsecond : some (0x32 : UInt8) = some 0x31 := congrArg (fun bytes : Bytes => bytes[1]?) hrest
    exact absurd hsecond (by decide))
  exact ⟨chain, next, hfails⟩

end SingBox.Cloudflared
