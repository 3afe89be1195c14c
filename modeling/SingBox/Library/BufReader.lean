import SingBox.Library.Chunked
import SingBox.Library.Relay

namespace SingBox.Library

open Async (Focus Yields)
open HttpHead (LF cut)

-- Bytes, and a stream behind them.
structure Chain (ρ : Type) where
  first : Bytes
  second : ρ

-- A stream of which some has been read ahead.
structure BufReader (ρ : Type) where
  inner : ρ
  buffer : Bytes := []

section

variable {ρ : Type}

def Chain.onSecond : Focus (Chain ρ) ρ where
  part := second
  put chain second := { chain with second }
  part_put _ _ := rfl
  put_put _ _ _ := rfl

def BufReader.onInner : Focus (BufReader ρ) ρ where
  part := inner
  put reader inner := { reader with inner }
  part_put _ _ := rfl
  put_put _ _ _ := rfl

variable [AsyncRead ρ]

instance : AsyncRead (Chain ρ) where
  pollRead chain room :=
    if chain.first = [] then Chain.onSecond.poll (AsyncRead.pollRead · room) chain
    else (.ready (.ok (chain.first.take room)), { chain with first := chain.first.drop room })

namespace BufReader

def CAPACITY : Nat := 8 * 1024

theorem CAPACITY_pos : 0 < CAPACITY := by decide

-- What is in the buffer, which is filled if it is empty.
def pollFill (reader : BufReader ρ) : Poll (IoResult Bytes) × BufReader ρ :=
  if reader.buffer = [] then
    onInner.pollThen (fun bytes next => (bytes, { next with buffer := bytes }))
      (AsyncRead.pollRead · CAPACITY) reader
  else (.ready (.ok reader.buffer), reader)

-- A read that is as large as the buffer goes past it.
instance : AsyncRead (BufReader ρ) where
  pollRead reader room :=
    if reader.buffer = [] then
      if CAPACITY ≤ room then onInner.poll (AsyncRead.pollRead · room) reader
      else
        onInner.pollThen (fun bytes next => (bytes.take room, { next with buffer := bytes.drop room }))
          (AsyncRead.pollRead · CAPACITY) reader
    else
      (.ready (.ok (reader.buffer.take room)), { reader with buffer := reader.buffer.drop room })

end BufReader

private theorem take_ne_nil {bytes : Bytes} {room : Nat} (hbytes : bytes ≠ []) (hroom : 0 < room) :
    bytes.take room ≠ [] := by
  rw [← List.length_pos_iff] at hbytes ⊢
  rw [List.length_take]
  omega

def Chain.source (source : Source ρ) : Source (Chain ρ) where
  good chain := source.good chain.second
  rest chain := chain.first ++ source.rest chain.second
  read := by
    intro chain room hgood hroom hrest
    by_cases hfirst : chain.first = []
    · rw [hfirst, List.nil_append] at hrest
      obtain ⟨bytes, second, hread, hnext, hbytes, hle, hleft⟩ :=
        source.read chain.second room hgood hroom hrest
      refine ⟨bytes, { chain with second }, ?_, hnext, hbytes, hle, ?_⟩
      · refine Yields.of_poll (fun chain => chain.first = []) (fun chain hchain => if_pos hchain) ?_
          hfirst (onSecond.yields hread)
        intro state next hstate hpending
        obtain ⟨part, rfl⟩ := onSecond.pollThen_pending hpending
        exact hstate
      · rw [hfirst, List.nil_append, hleft]
        rfl
    · refine ⟨chain.first.take room, { chain with first := chain.first.drop room },
        .ready (if_neg hfirst), hgood, take_ne_nil hfirst hroom, List.length_take_le _ _, ?_⟩
      rw [← List.append_assoc, List.take_append_drop]

namespace BufReader

variable (source : Source ρ)

def Good (reader : BufReader ρ) : Prop := source.good reader.inner

def rest (reader : BufReader ρ) : Bytes := reader.buffer ++ source.rest reader.inner

variable {source}

-- A read of the stream behind an empty buffer.
theorem Good.readInner {reader : BufReader ρ} (h : reader.Good source) (hbuffer : reader.buffer = [])
    {room : Nat} (hroom : 0 < room) (hrest : reader.rest source ≠ []) :
    ∃ bytes inner, Yields (Async.await (AsyncRead.pollRead · room)) (onInner.part reader) bytes inner ∧
      source.good inner ∧ bytes ≠ [] ∧ bytes.length ≤ room ∧
      reader.rest source = bytes ++ source.rest inner := by
  rw [rest, hbuffer, List.nil_append] at hrest ⊢
  exact source.read reader.inner room h hroom hrest

theorem Yields.of_empty {α : Type} {poll : BufReader ρ → Poll (IoResult α) × BufReader ρ} {room : Nat}
    (settle : Bytes → BufReader ρ → α × BufReader ρ)
    (hpoll : ∀ reader : BufReader ρ, reader.buffer = [] →
      poll reader = onInner.pollThen settle (AsyncRead.pollRead · room) reader)
    {reader : BufReader ρ} (hbuffer : reader.buffer = []) {bytes : Bytes} {inner : ρ}
    (hread : Yields (Async.await (AsyncRead.pollRead · room)) (onInner.part reader) bytes inner) :
    Yields (Async.await poll) reader (settle bytes { reader with inner }).1
      (settle bytes { reader with inner }).2 := by
  refine Async.Yields.of_poll (fun reader => reader.buffer = []) hpoll ?_ hbuffer
    (onInner.yieldsThen settle hread)
  intro state next hstate hpending
  obtain ⟨part, rfl⟩ := onInner.pollThen_pending hpending
  exact hstate

theorem Good.fill {reader : BufReader ρ} (h : reader.Good source) (hrest : reader.rest source ≠ []) :
    ∃ next, Yields (Async.await pollFill) reader next.buffer next ∧ next.Good source ∧
      next.buffer ≠ [] ∧ next.rest source = reader.rest source := by
  by_cases hbuffer : reader.buffer = []
  · obtain ⟨bytes, inner, hread, hgood, hbytes, -, hleft⟩ := h.readInner hbuffer CAPACITY_pos hrest
    have hfill : Yields (Async.await pollFill) reader bytes ⟨inner, bytes⟩ :=
      Yields.of_empty (fun bytes next => (bytes, { next with buffer := bytes }))
        (fun reader hreader => if_pos hreader) hbuffer hread
    exact ⟨⟨inner, bytes⟩, hfill, hgood, hbytes, hleft.symm⟩
  · exact ⟨reader, .ready (if_neg hbuffer), h, hbuffer, rfl⟩

end BufReader

def BufReader.source (source : Source ρ) : Source (BufReader ρ) where
  good := Good source
  rest := rest source
  read := by
    intro reader room hgood hroom hrest
    by_cases hbuffer : reader.buffer = []
    · by_cases hlarge : CAPACITY ≤ room
      · obtain ⟨bytes, inner, hread, hnext, hbytes, hle, hleft⟩ := hgood.readInner hbuffer hroom hrest
        have hpoll : Yields (Async.read room) reader bytes { reader with inner } :=
          Yields.of_empty Prod.mk (fun reader hreader => (if_pos hreader).trans (if_pos hlarge)) hbuffer
            hread
        refine ⟨bytes, { reader with inner }, hpoll, hnext, hbytes, hle, ?_⟩
        rw [hleft, BufReader.rest, hbuffer]
        rfl
      · obtain ⟨bytes, inner, hread, hnext, hbytes, -, hleft⟩ :=
          hgood.readInner hbuffer CAPACITY_pos hrest
        have hpoll : Yields (Async.read room) reader (bytes.take room) ⟨inner, bytes.drop room⟩ :=
          Yields.of_empty
            (fun bytes next => (bytes.take room, { next with buffer := bytes.drop room }))
            (fun reader hreader => (if_pos hreader).trans (if_neg hlarge)) hbuffer hread
        refine ⟨bytes.take room, ⟨inner, bytes.drop room⟩, hpoll, hnext, take_ne_nil hbytes hroom,
          List.length_take_le _ _, ?_⟩
        rw [hleft, BufReader.rest, ← List.append_assoc, List.take_append_drop]
    · refine ⟨reader.buffer.take room, { reader with buffer := reader.buffer.drop room },
        .ready (if_neg hbuffer), hgood, take_ne_nil hbuffer hroom, List.length_take_le _ _, ?_⟩
      rw [BufReader.rest, BufReader.rest, ← List.append_assoc, List.take_append_drop]

end

namespace BufReader

variable {ρ ω : Type} [AsyncRead ρ] [AsyncWrite ω]

def fillBuf (polls : Nat) : Async (Relay (BufReader ρ) ω) Bytes :=
  Async.await (Relay.onReader.poll pollFill) polls

def consume (count : Nat) (relay : Relay (BufReader ρ) ω) : Relay (BufReader ρ) ω :=
  { relay with reader := { relay.reader with buffer := relay.reader.buffer.drop count } }

-- One round of `read_until`, for a line feed. `line` is what has been read before.
def readLineRound (line : Bytes) (polls : Nat) : Async (Relay (BufReader ρ) ω) (Pass Bytes Bytes) := do
  let available ← fillBuf polls
  match cut LF available with
  | some (before, _) => do
      Async.modify (consume (before.length + 1))
      return .done (line ++ (before ++ [LF]))
  | none => do
      Async.modify (consume available.length)
      if available = [] then return .done line else return .again (line ++ available)

-- `read_line`
def readLine (polls : Nat) : Async (Relay (BufReader ρ) ω) String := do
  let line ← Async.loop readLineRound [] polls
  Async.ofResult (Result.ofOption "stream did not contain valid UTF-8" (Utf8.decode line))

variable {source : Source ρ} {sink : Sink ω} {taken : Bytes}

theorem fill_ready {relay : Relay (BufReader ρ) ω}
    (h : Relay.Good (BufReader.source source) sink taken relay)
    (hrest : relay.reader.rest source ≠ []) :
    ∃ next, Yields fillBuf relay next.reader.buffer next ∧
      Relay.Good (BufReader.source source) sink taken next ∧ next.reader.buffer ≠ [] ∧
      next.reader.rest source = relay.reader.rest source := by
  obtain ⟨reader, hfill, hgood, hbuffer, hsame⟩ := Good.fill h.reader hrest
  exact ⟨{ relay with reader }, Relay.onReader.yields hfill, ⟨hgood, h.writer, h.taken⟩, hbuffer, hsame⟩

-- A line may go on behind what is there of it, or ends within.
theorem line_split {available behind line tail : Bytes} {last : UInt8}
    (h : available ++ behind = line ++ last :: tail) :
    (∃ others, line = available ++ others ∧ behind = others ++ last :: tail) ∨
      ∃ more, available = line ++ last :: more ∧ tail = more ++ behind := by
  obtain ⟨others, hline, hbehind⟩ | ⟨more, havailable, hmore⟩ := List.append_eq_append_iff.mp h
  · exact .inl ⟨others, hline, hbehind⟩
  · cases more with
    | nil => exact .inl ⟨[], by rw [havailable, List.append_nil, List.append_nil], hmore.symm⟩
    | cons first more =>
        obtain ⟨rfl, rfl⟩ := List.cons.inj hmore
        exact .inr ⟨more, havailable, rfl⟩

theorem cut_none {separator : UInt8} {bytes : Bytes} (h : separator ∉ bytes) :
    cut separator bytes = none := by
  induction bytes with
  | nil => rfl
  | cons byte rest ih =>
      obtain ⟨hne, hrest⟩ := not_or.mp (mt List.mem_cons.mpr h)
      rw [cut, if_neg (Ne.symm hne), ih hrest]
      rfl

theorem readLine_loop {line tail : Bytes} (hline : LF ∉ line) (before : Bytes)
    {relay : Relay (BufReader ρ) ω} (h : Relay.Good (BufReader.source source) sink taken relay)
    (hrest : relay.reader.rest source = line ++ LF :: tail) :
    ∃ next, Async.LoopYields readLineRound before relay (before ++ (line ++ [LF])) next ∧
      Relay.Good (BufReader.source source) sink taken next ∧ next.reader.rest source = tail := by
  induction hlength : line.length using Nat.strongRecOn generalizing line before relay with
  | _ length ih =>
      obtain ⟨mid, hfill, hmid, hbuffer, hsame⟩ := fill_ready h (by rw [hrest]; simp)
      have hsplit : mid.reader.buffer ++ source.rest mid.reader.inner = line ++ LF :: tail :=
        hsame.trans hrest
      obtain ⟨others, rfl, hbehind⟩ | ⟨more, havailable, rfl⟩ := line_split hsplit
      · obtain ⟨hfront, hothers⟩ := not_or.mp (mt List.mem_append.mpr hline)
        have hround : Yields (readLineRound before) relay (.again (before ++ mid.reader.buffer))
            (consume mid.reader.buffer.length mid) := by
          refine hfill.bind ?_
          simp only [cut_none hfront, if_neg hbuffer]
          exact (Yields.modify _ mid).bind (Yields.pure _ _)
        have hconsumed : (consume mid.reader.buffer.length mid).reader.rest source =
            others ++ LF :: tail := by
          rw [← hbehind, BufReader.rest, consume, List.drop_length]
          rfl
        have hpos := List.length_pos_iff.mpr hbuffer
        rw [List.length_append] at hlength
        have hafter : Relay.Good (BufReader.source source) sink taken
            (consume mid.reader.buffer.length mid) := ⟨hmid.reader, hmid.writer, hmid.taken⟩
        obtain ⟨next, hloop, hnext, htail⟩ := ih others.length (by omega) hothers
          (before ++ mid.reader.buffer) hafter hconsumed rfl
        rw [List.append_assoc, ← List.append_assoc mid.reader.buffer] at hloop
        exact ⟨next, .again hround hloop, hnext, htail⟩
      · have hround : Yields (readLineRound before) relay (.done (before ++ (line ++ [LF])))
            (consume (line.length + 1) mid) := by
          refine hfill.bind ?_
          simp only [havailable, HttpHead.cut_append hline]
          exact (Yields.modify _ mid).bind (Yields.pure _ _)
        refine ⟨consume (line.length + 1) mid, .done hround,
          ⟨hmid.reader, hmid.writer, hmid.taken⟩, ?_⟩
        have hdrop : (line ++ LF :: more).drop (line.length + 1) = more := by
          rw [List.drop_append, List.drop_eq_nil_of_le (by omega), List.nil_append]
          simp
        rw [BufReader.rest, consume, havailable, hdrop]

theorem readLine_copies {text : String} {line : Bytes} (hline : LF ∉ line)
    (htext : Utf8.decode (line ++ [LF]) = some text) :
    Relay.Copies (BufReader.source source) sink readLine text (line ++ [LF]) [] := by
  intro taken tail relay hgood hrest
  rw [List.append_assoc] at hrest
  obtain ⟨next, hloop, hnext, htail⟩ := readLine_loop hline [] hgood hrest
  refine ⟨next, ?_, by rwa [List.append_nil], htail⟩
  exact hloop.yields.bind (Yields.ofResult next (by rw [List.nil_append, htext]; rfl))

-- Nothing is filled in where nothing is left.
theorem fill_nothing (hends : source.Ends) {reader : BufReader (Chain ρ)}
    (hgood : source.good reader.inner.second) (hbuffer : reader.buffer = [])
    (hfirst : reader.inner.first = []) (hrest : source.rest reader.inner.second = []) :
    ∃ next, Yields (Async.await pollFill) reader [] next := by
  obtain ⟨second, hread, -⟩ := hends reader.inner.second CAPACITY hgood CAPACITY_pos hrest
  have hinner : Yields (Async.await (AsyncRead.pollRead · CAPACITY)) (onInner.part reader) []
      { reader.inner with second } := by
    refine Yields.of_poll (fun chain => chain.first = []) (fun chain hchain => if_pos hchain) ?_
      hfirst (Chain.onSecond.yields hread)
    intro state next hstate hpending
    obtain ⟨part, rfl⟩ := Chain.onSecond.pollThen_pending hpending
    exact hstate
  exact ⟨_, Yields.of_empty (fun bytes next => (bytes, { next with buffer := bytes }))
    (fun reader hreader => if_pos hreader) hbuffer hinner⟩

omit [AsyncWrite ω] in
theorem readLine_nothing (hends : source.Ends) {relay : Relay (BufReader (Chain ρ)) ω}
    (hgood : source.good relay.reader.inner.second) (hbuffer : relay.reader.buffer = [])
    (hfirst : relay.reader.inner.first = []) (hrest : source.rest relay.reader.inner.second = []) :
    ∃ next, Yields readLine relay "" next := by
  obtain ⟨reader, hfill⟩ := fill_nothing hends hgood hbuffer hfirst hrest
  have hround : Yields (readLineRound []) relay (.done []) (consume 0 { relay with reader }) := by
    have havailable : Yields fillBuf relay [] { relay with reader } := Relay.onReader.yields hfill
    refine havailable.bind ?_
    simp only [cut]
    exact (Yields.modify _ _).bind (Yields.pure _ _)
  exact ⟨_, (Async.LoopYields.done hround).yields.bind (Yields.ofResult _ rfl)⟩

end BufReader

end SingBox.Library
