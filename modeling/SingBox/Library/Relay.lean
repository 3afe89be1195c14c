import SingBox.Library.Async
import SingBox.Library.Loop

namespace SingBox.Library

open Async (Yields)

namespace Async

variable {σ ρ κ α β : Type}

-- A loop in a function that awaits. It makes so many rounds at most.
def loopRounds (body : κ → Nat → Async σ (Pass κ α)) (polls : Nat) : Nat → κ → Async σ α
  | 0, _ => pending
  | rounds + 1, position => do
      match ← body position polls with
      | .again next => loopRounds body polls rounds next
      | .done value => return value

def loop (body : κ → Nat → Async σ (Pass κ α)) (position : κ) (polls : Nat) : Async σ α :=
  loopRounds body polls polls position

-- With rounds enough, and each of them polled often enough, the loop comes to its value.
def LoopYields (body : κ → Nat → Async σ (Pass κ α)) (position : κ) (state : σ) (value : α)
    (next : σ) : Prop :=
  ∃ enough, ∀ rounds polls, enough ≤ rounds → enough ≤ polls →
    loopRounds body polls rounds position state = some (.ok value, next)

section

variable {body : κ → Nat → Async σ (Pass κ α)} {position : κ} {state mid next : σ} {value : α}

theorem LoopYields.done (h : Yields (body position) state (.done value) next) :
    LoopYields body position state value next := by
  obtain ⟨enough, hbody⟩ := h
  refine ⟨enough + 1, fun rounds polls hrounds hpolls => ?_⟩
  obtain ⟨rounds, rfl⟩ : ∃ n, rounds = n + 1 := ⟨rounds - 1, by omega⟩
  rw [loopRounds, bind_ok (hbody polls (by omega))]
  rfl

-- One more round before the others, whatever they come to.
theorem Yields.loopRounds {after : κ} {result : Result α}
    (h : Yields (body position) state (.again after) mid)
    (hrest : ∃ enough, ∀ rounds polls, enough ≤ rounds → enough ≤ polls →
      loopRounds body polls rounds after mid = some (result, next)) :
    ∃ enough, ∀ rounds polls, enough ≤ rounds → enough ≤ polls →
      loopRounds body polls rounds position state = some (result, next) := by
  obtain ⟨front, hbody⟩ := h
  obtain ⟨back, hback⟩ := hrest
  refine ⟨max front back + 1, fun rounds polls hrounds hpolls => ?_⟩
  obtain ⟨rounds, rfl⟩ : ∃ n, rounds = n + 1 := ⟨rounds - 1, by omega⟩
  rw [Async.loopRounds, bind_ok (hbody polls (by omega))]
  exact hback rounds polls (by omega) (by omega)

theorem LoopYields.again {after : κ} (h : Yields (body position) state (.again after) mid)
    (hrest : LoopYields body after mid value next) : LoopYields body position state value next :=
  h.loopRounds hrest

theorem LoopYields.yields (h : LoopYields body position state value next) :
    Yields (loop body position) state value next := by
  obtain ⟨enough, hloop⟩ := h
  exact ⟨enough, fun polls hpolls => hloop polls polls hpolls hpolls⟩

end

-- The same result, however often more it is polled.
theorem Yields.unique {run : Nat → Async σ α} {state next other : σ} {first second : α}
    (hf : Yields run state first next) (hs : Yields run state second other) :
    first = second ∧ next = other := by
  obtain ⟨front, hfront⟩ := hf
  obtain ⟨back, hback⟩ := hs
  have hsame := (hfront (max front back) (by omega)).symm.trans (hback (max front back) (by omega))
  simpa using hsame

-- A poll that is another one in the states it waits in.
theorem Yields.of_poll {poll other : σ → Poll (IoResult α) × σ} (inv : σ → Prop)
    (hsame : ∀ state, inv state → poll state = other state)
    (hkeep : ∀ state next, inv state → other state = (.pending, next) → inv next)
    {state next : σ} {value : α} (hi : inv state) (h : Yields (Async.await other) state value next) :
    Yields (Async.await poll) state value next := by
  obtain ⟨enough, hother⟩ := h
  have hall (polls : Nat) (state : σ) (hi : inv state) :
      Async.await poll polls state = Async.await other polls state := by
    induction polls generalizing state with
    | zero => rfl
    | succ polls ih =>
        simp only [Async.await, hsame state hi]
        cases hp : other state with
        | mk result mid =>
            cases result with
            | pending => exact ih mid (hkeep state mid hi hp)
            | ready result => cases result <;> rfl
  exact ⟨enough, fun polls hpolls => (hall polls state hi).trans (hother polls hpolls)⟩

-- A change of the state alone.
def modify (change : σ → σ) : Async σ Unit := fun state => some (.ok (), change state)

theorem Yields.modify (change : σ → σ) (state : σ) :
    Yields (fun _ => Async.modify change) state () (change state) := .of_eq fun _ => rfl

-- A part of a state, and the state with another one in its place.
structure Focus (σ ρ : Type) where
  part : σ → ρ
  put : σ → ρ → σ
  part_put : ∀ state other, part (put state other) = other
  put_put : ∀ state first second, put (put state first) second = put state second

-- A poll of the part, and what is made of its value once it is ready.
def Focus.pollThen (focus : Focus σ ρ) (settle : α → σ → β × σ)
    (poll : ρ → Poll (IoResult α) × ρ) (state : σ) : Poll (IoResult β) × σ :=
  match poll (focus.part state) with
  | (.pending, next) => (.pending, focus.put state next)
  | (.ready (.error error), next) => (.ready (.error error), focus.put state next)
  | (.ready (.ok value), next) =>
      let (result, settled) := settle value (focus.put state next)
      (.ready (.ok result), settled)

theorem Focus.pollThen_pending (focus : Focus σ ρ) {settle : α → σ → β × σ}
    {poll : ρ → Poll (IoResult α) × ρ} {state next : σ}
    (h : focus.pollThen settle poll state = (.pending, next)) :
    ∃ part, next = focus.put state part := by
  rw [Focus.pollThen] at h
  split at h
  · exact ⟨_, (Prod.mk.inj h).2.symm⟩
  · cases (Prod.mk.inj h).1
  · cases (Prod.mk.inj h).1

def Focus.poll (focus : Focus σ ρ) (poll : ρ → Poll (IoResult α) × ρ) (state : σ) :
    Poll (IoResult α) × σ := focus.pollThen Prod.mk poll state

theorem Focus.awaitThen (focus : Focus σ ρ) (settle : α → σ → β × σ)
    {poll : ρ → Poll (IoResult α) × ρ} {polls : Nat} {state : σ} {value : α} {next : ρ}
    (h : Async.await poll polls (focus.part state) = some (.ok value, next)) :
    Async.await (focus.pollThen settle poll) polls state =
      some (.ok (settle value (focus.put state next)).1, (settle value (focus.put state next)).2) := by
  induction polls generalizing state with
  | zero => cases h
  | succ polls ih =>
      cases hp : poll (focus.part state) with
      | mk result mid =>
          simp only [Async.await, hp] at h
          simp only [Async.await, Focus.pollThen, hp]
          cases result with
          | pending =>
              have hmid : Async.await poll polls (focus.part (focus.put state mid)) =
                  some (.ok value, next) := by rwa [focus.part_put]
              have hrest := ih hmid
              rwa [focus.put_put] at hrest
          | ready result =>
              cases result with
              | error error => cases h
              | ok found =>
                  cases h
                  rfl

theorem Focus.yieldsThen (focus : Focus σ ρ) (settle : α → σ → β × σ)
    {poll : ρ → Poll (IoResult α) × ρ} {state : σ} {value : α} {next : ρ}
    (h : Yields (Async.await poll) (focus.part state) value next) :
    Yields (Async.await (focus.pollThen settle poll)) state (settle value (focus.put state next)).1
      (settle value (focus.put state next)).2 := by
  obtain ⟨enough, hpoll⟩ := h
  exact ⟨enough, fun polls hpolls => focus.awaitThen settle (hpoll polls hpolls)⟩

theorem Focus.yields (focus : Focus σ ρ) {poll : ρ → Poll (IoResult α) × ρ} {state : σ} {value : α}
    {next : ρ} (h : Yields (Async.await poll) (focus.part state) value next) :
    Yields (Async.await (focus.poll poll)) state value (focus.put state next) :=
  focus.yieldsThen Prod.mk h

theorem Yields.ready {poll : σ → Poll (IoResult α) × σ} {state next : σ} {value : α}
    (h : poll state = (.ready (.ok value), next)) : Yields (Async.await poll) state value next := by
  refine ⟨1, fun polls hpolls => ?_⟩
  obtain ⟨polls, rfl⟩ : ∃ n, polls = n + 1 := ⟨polls - 1, by omega⟩
  simp only [Async.await, h]

end Async

-- Nothing more is read where there is nothing left.
def Source.Ends {σ : Type} [AsyncRead σ] (source : Source σ) : Prop :=
  ∀ state room, source.good state → 0 < room → source.rest state = [] →
    ∃ next, Async.Yields (Async.read room) state [] next ∧ source.good next ∧ source.rest next = []

-- What takes all that is written to it, in pieces of any size.
structure Sink (σ : Type) [AsyncWrite σ] where
  good : σ → Prop
  taken : σ → Bytes
  write : ∀ state data, good state → data ≠ [] →
    ∃ count next, Async.Yields (Async.await (AsyncWrite.pollWrite · data)) state count next ∧
      good next ∧ 0 < count ∧ taken next = taken state ++ data.take count
  flush : ∀ state, good state →
    ∃ next, Async.Yields Async.flush state () next ∧ good next ∧ taken next = taken state

theorem Sink.writeRounds {σ : Type} [AsyncWrite σ] (sink : Sink σ) {state : σ} (h : sink.good state)
    (rounds : Nat) {data : Bytes} (hdata : data.length ≤ rounds) :
    ∃ next, Async.Yields (fun polls => Async.writeRounds polls rounds data) state () next ∧
      sink.good next ∧ sink.taken next = sink.taken state ++ data := by
  induction rounds generalizing state data with
  | zero =>
      obtain rfl := List.eq_nil_of_length_eq_zero (Nat.le_zero.mp hdata)
      exact ⟨state, .pure state (), h, (List.append_nil _).symm⟩
  | succ rounds ih =>
      cases data with
      | nil => exact ⟨state, .pure state (), h, (List.append_nil _).symm⟩
      | cons byte data =>
          obtain ⟨count, mid, hwrite, hmid, hcount, htaken⟩ :=
            sink.write state (byte :: data) h (List.cons_ne_nil byte data)
          have hless : ((byte :: data).drop count).length ≤ rounds := by
            rw [List.length_drop]
            simp only [List.length_cons] at hdata ⊢
            omega
          obtain ⟨next, hrounds, hnext, hrest⟩ := ih hmid hless
          rw [htaken, List.append_assoc, List.take_append_drop] at hrest
          exact ⟨next, .writeRounds (List.cons_ne_nil byte data) hcount hwrite hrounds, hnext, hrest⟩

theorem Sink.writeAll {σ : Type} [AsyncWrite σ] (sink : Sink σ) {state : σ} (h : sink.good state)
    (data : Bytes) :
    ∃ next, Async.Yields (Async.writeAll data) state () next ∧ sink.good next ∧
      sink.taken next = sink.taken state ++ data := sink.writeRounds h data.length (Nat.le_refl _)

-- What is read from and what is written to.
structure Relay (ρ ω : Type) where
  reader : ρ
  writer : ω

namespace Relay

open Async

variable {ρ ω α β κ : Type} [AsyncRead ρ] [AsyncWrite ω]

def onReader : Focus (Relay ρ ω) ρ where
  part := reader
  put relay reader := { relay with reader }
  part_put _ _ := rfl
  put_put _ _ _ := rfl

def onWriter : Focus (Relay ρ ω) ω where
  part := writer
  put relay writer := { relay with writer }
  part_put _ _ := rfl
  put_put _ _ _ := rfl

instance : AsyncRead (Relay ρ ω) where
  pollRead relay room := onReader.poll (AsyncRead.pollRead · room) relay

instance : AsyncWrite (Relay ρ ω) where
  pollWrite relay data := onWriter.poll (AsyncWrite.pollWrite · data) relay
  pollFlush relay := onWriter.poll AsyncWrite.pollFlush relay

def COPY_BUFFER : Nat := 8 * 1024

-- A read, of a `take` where there is a limit.
def readUpTo (limit : Option Nat) (polls : Nat) : Async (Relay ρ ω) Bytes :=
  if limit = some 0 then pure [] else Async.read (min COPY_BUFFER (limit.getD COPY_BUFFER)) polls

-- One round of `tokio::io::copy`. `copied` is how much has been copied before.
def copyRound : Option Nat × Nat → Nat → Async (Relay ρ ω) (Pass (Option Nat × Nat) Nat)
  | (limit, copied), polls => do
      let bytes ← readUpTo limit polls
      if bytes = [] then
        Async.flush polls
        return .done copied
      else
        Async.writeAll bytes polls
        return .again (limit.map (· - bytes.length), copied + bytes.length)

def copy (limit : Option Nat) (polls : Nat) : Async (Relay ρ ω) Nat :=
  Async.loop copyRound (limit, 0) polls

theorem copyRound_eq (limit : Option Nat) (copied : Nat) :
    (copyRound (limit, copied) : Nat → Async (Relay ρ ω) (Pass (Option Nat × Nat) Nat)) =
      fun polls => readUpTo limit polls >>= fun bytes =>
        if bytes = [] then Async.flush polls >>= fun _ => pure (.done copied)
        else Async.writeAll bytes polls >>= fun _ =>
          pure (.again (limit.map (· - bytes.length), copied + bytes.length)) := rfl

section

variable (source : Source ρ) (sink : Sink ω)

structure Good (taken : Bytes) (relay : Relay ρ ω) : Prop where
  reader : source.good relay.reader
  writer : sink.good relay.writer
  taken : sink.taken relay.writer = taken

-- The function finds `value` in `encoded`, leaves whatever follows unread, and writes `written`.
def Copies (run : Nat → Async (Relay ρ ω) α) (value : α) (encoded written : Bytes) : Prop :=
  ∀ taken tail relay, Good source sink taken relay → source.rest relay.reader = encoded ++ tail →
    ∃ next, Yields run relay value next ∧ Good source sink (taken ++ written) next ∧
      source.rest next.reader = tail

end

variable {source : Source ρ} {sink : Sink ω} {taken : Bytes}

theorem Good.read {relay : Relay ρ ω} (h : Good source sink taken relay) {room : Nat}
    (hroom : 0 < room) (hrest : source.rest relay.reader ≠ []) :
    ∃ bytes next, Yields (Async.read room) relay bytes next ∧ Good source sink taken next ∧
      bytes ≠ [] ∧ bytes.length ≤ room ∧
      source.rest relay.reader = bytes ++ source.rest next.reader := by
  obtain ⟨bytes, reader, hread, hgood, hbytes, hle, hleft⟩ :=
    source.read relay.reader room h.reader hroom hrest
  exact ⟨bytes, { relay with reader }, onReader.yields hread, ⟨hgood, h.writer, h.taken⟩, hbytes, hle,
    hleft⟩

theorem Good.flush {relay : Relay ρ ω} (h : Good source sink taken relay) :
    ∃ next, Yields Async.flush relay () next ∧ Good source sink taken next ∧
      next.reader = relay.reader := by
  obtain ⟨writer, hflush, hgood, htaken⟩ := sink.flush relay.writer h.writer
  exact ⟨{ relay with writer }, onWriter.yields hflush, ⟨h.reader, hgood, htaken.trans h.taken⟩, rfl⟩

-- The relay as something to write to, with its reader as it is.
def writable (sink : Sink ω) (reader : ρ) : Sink (Relay ρ ω) where
  good relay := sink.good relay.writer ∧ relay.reader = reader
  taken relay := sink.taken relay.writer
  write relay data hgood hdata := by
    obtain ⟨count, writer, hwrite, hnext, hcount, htaken⟩ := sink.write relay.writer data hgood.1 hdata
    exact ⟨count, { relay with writer }, onWriter.yields hwrite, ⟨hnext, hgood.2⟩, hcount, htaken⟩
  flush relay hgood := by
    obtain ⟨writer, hflush, hnext, htaken⟩ := sink.flush relay.writer hgood.1
    exact ⟨{ relay with writer }, onWriter.yields hflush, ⟨hnext, hgood.2⟩, htaken⟩

theorem Good.writeAll {relay : Relay ρ ω} (h : Good source sink taken relay) (data : Bytes) :
    ∃ next, Yields (Async.writeAll data) relay () next ∧ Good source sink (taken ++ data) next ∧
      next.reader = relay.reader := by
  obtain ⟨next, hwrite, ⟨hnext, hreader⟩, htaken⟩ :=
    (writable sink relay.reader).writeAll ⟨h.writer, rfl⟩ data
  exact ⟨next, hwrite, ⟨hreader ▸ h.reader, hnext, htaken.trans (congrArg (· ++ data) h.taken)⟩, hreader⟩

-- A copy stops at its limit, or where the source ends.
structure Stops (source : Source ρ) (limit : Option Nat) (data tail : Bytes) : Prop where
  within : ∀ most, limit = some most → data.length ≤ most
  ends : limit = some data.length ∨ source.Ends ∧ tail = []

theorem Stops.prefix {limit : Option Nat} {data tail bytes rest : Bytes}
    (h : Stops source limit data tail) (hrest : data ++ tail = bytes ++ rest)
    (hle : bytes.length ≤ min COPY_BUFFER (limit.getD COPY_BUFFER)) : bytes <+: data := by
  obtain rfl | ⟨-, rfl⟩ := h.ends
  · refine List.prefix_of_prefix_length_le ⟨rest, hrest.symm⟩ ⟨tail, rfl⟩ ?_
    rw [Option.getD_some] at hle
    omega
  · rw [List.append_nil] at hrest
    exact ⟨rest, hrest.symm⟩

theorem Stops.drop {limit : Option Nat} {bytes others tail : Bytes}
    (h : Stops source limit (bytes ++ others) tail) :
    Stops source (limit.map (· - bytes.length)) others tail := by
  constructor
  · intro most hmost
    obtain ⟨least, hleast, rfl⟩ := Option.map_eq_some_iff.mp hmost
    have hle := h.within least hleast
    rw [List.length_append] at hle
    omega
  · refine h.ends.imp (fun hlimit => ?_) id
    rw [hlimit, Option.map_some, List.length_append, Nat.add_sub_cancel_left]

theorem Stops.room_pos {limit : Option Nat} (h : limit ≠ some 0) :
    0 < min COPY_BUFFER (limit.getD COPY_BUFFER) := by
  cases limit with
  | none => decide
  | some most =>
      have hmost : most ≠ 0 := fun heq => h (congrArg some heq)
      exact Nat.lt_min.mpr ⟨by decide, Nat.pos_of_ne_zero hmost⟩

theorem Good.readUpTo_nil {limit : Option Nat} {tail : Bytes} {relay : Relay ρ ω}
    (h : Good source sink taken relay) (hstops : Stops source limit [] tail)
    (hrest : source.rest relay.reader = tail) :
    ∃ next, Yields (readUpTo limit) relay [] next ∧ Good source sink taken next ∧
      source.rest next.reader = tail := by
  by_cases hzero : limit = some 0
  · exact ⟨relay, .of_eq fun polls => by rw [readUpTo, if_pos hzero]; rfl, h, hrest⟩
  · obtain hlimit | ⟨hends, rfl⟩ := hstops.ends
    · exact absurd hlimit hzero
    · obtain ⟨reader, hread, hgood, hleft⟩ :=
        hends relay.reader _ h.reader (Stops.room_pos hzero) hrest
      obtain ⟨enough, hyields⟩ := onReader.yields hread
      refine ⟨{ relay with reader }, ⟨enough, fun polls hpolls => ?_⟩, ⟨hgood, h.writer, h.taken⟩, hleft⟩
      rw [readUpTo, if_neg hzero]
      exact hyields polls hpolls

theorem Good.readUpTo_cons {limit : Option Nat} {data tail : Bytes} {relay : Relay ρ ω}
    (h : Good source sink taken relay) (hdata : data ≠ []) (hstops : Stops source limit data tail)
    (hrest : source.rest relay.reader = data ++ tail) :
    ∃ bytes others next, data = bytes ++ others ∧ bytes ≠ [] ∧
      Yields (readUpTo limit) relay bytes next ∧ Good source sink taken next ∧
      source.rest next.reader = others ++ tail := by
  have hzero : limit ≠ some 0 := fun heq => by
    have hle := hstops.within 0 heq
    have hpos := List.length_pos_iff.mpr hdata
    omega
  obtain ⟨bytes, next, ⟨enough, hyields⟩, hnext, hbytes, hle, hleft⟩ :=
    h.read (Stops.room_pos hzero)
      (by rw [hrest]; exact fun hnil => hdata (List.append_eq_nil_iff.mp hnil).1)
  obtain ⟨others, rfl⟩ := hstops.prefix (hrest.symm.trans hleft) hle
  rw [hrest, List.append_assoc] at hleft
  refine ⟨bytes, others, next, rfl, hbytes, ⟨enough, fun polls hpolls => ?_⟩, hnext,
    (List.append_cancel_left hleft).symm⟩
  rw [readUpTo, if_neg hzero]
  exact hyields polls hpolls

-- The last round, which writes nothing.
theorem Good.copyRound_done {limit : Option Nat} {tail : Bytes} {relay : Relay ρ ω}
    (h : Good source sink taken relay) (hstops : Stops source limit [] tail)
    (hrest : source.rest relay.reader = tail) (copied : Nat) :
    ∃ next, Yields (copyRound (limit, copied)) relay (.done copied) next ∧
      Good source sink taken next ∧ source.rest next.reader = tail := by
  obtain ⟨mid, hread, hmid, hleft⟩ := h.readUpTo_nil hstops hrest
  obtain ⟨next, hflush, hnext, hreader⟩ := hmid.flush
  refine ⟨next, ?_, hnext, by rw [hreader, hleft]⟩
  rw [copyRound_eq]
  refine hread.bind ?_
  simp only [if_true]
  exact hflush.bind (Yields.pure next _)

theorem Good.copyRound_again {limit : Option Nat} {data tail : Bytes} {relay : Relay ρ ω}
    (h : Good source sink taken relay) (hdata : data ≠ []) (hstops : Stops source limit data tail)
    (hrest : source.rest relay.reader = data ++ tail) (copied : Nat) :
    ∃ bytes others next, data = bytes ++ others ∧ bytes ≠ [] ∧
      Yields (copyRound (limit, copied)) relay
        (.again (limit.map (· - bytes.length), copied + bytes.length)) next ∧
      Good source sink (taken ++ bytes) next ∧ source.rest next.reader = others ++ tail := by
  obtain ⟨bytes, others, mid, rfl, hbytes, hread, hmid, hleft⟩ := h.readUpTo_cons hdata hstops hrest
  obtain ⟨next, hwrite, hnext, hreader⟩ := hmid.writeAll bytes
  refine ⟨bytes, others, next, rfl, hbytes, ?_, hnext, by rw [hreader, hleft]⟩
  rw [copyRound_eq]
  refine hread.bind ?_
  simp only [if_neg hbytes]
  exact hwrite.bind (Yields.pure next _)

theorem Good.copyFrom {limit : Option Nat} {data tail : Bytes} {relay : Relay ρ ω}
    (h : Good source sink taken relay) (hstops : Stops source limit data tail)
    (hrest : source.rest relay.reader = data ++ tail) (copied : Nat) :
    ∃ next, LoopYields copyRound (limit, copied) relay (copied + data.length) next ∧
      Good source sink (taken ++ data) next ∧ source.rest next.reader = tail := by
  induction hlength : data.length using Nat.strongRecOn generalizing limit data relay taken copied with
  | _ length ih =>
      by_cases hdata : data = []
      · subst hdata
        obtain rfl : 0 = length := hlength
        obtain ⟨next, hround, hnext, hleft⟩ := h.copyRound_done hstops hrest copied
        exact ⟨next, .done hround, by rwa [List.append_nil], hleft⟩
      · obtain ⟨bytes, others, mid, rfl, hbytes, hround, hmid, hleft⟩ :=
          h.copyRound_again hdata hstops hrest copied
        have hpos := List.length_pos_iff.mpr hbytes
        rw [List.length_append] at hlength
        obtain ⟨next, hloop, hnext, htail⟩ :=
          ih others.length (by omega) hmid hstops.drop hleft (copied + bytes.length) rfl
        rw [List.append_assoc] at hnext
        rw [Nat.add_assoc, hlength] at hloop
        exact ⟨next, .again hround hloop, hnext, htail⟩

-- `tokio::io::copy`
theorem Good.copy {limit : Option Nat} {data tail : Bytes} {relay : Relay ρ ω}
    (h : Good source sink taken relay) (hstops : Stops source limit data tail)
    (hrest : source.rest relay.reader = data ++ tail) :
    ∃ next, Yields (Relay.copy limit) relay data.length next ∧
      Good source sink (taken ++ data) next ∧ source.rest next.reader = tail := by
  obtain ⟨next, hloop, hnext, htail⟩ := h.copyFrom hstops hrest 0
  rw [Nat.zero_add] at hloop
  exact ⟨next, hloop.yields, hnext, htail⟩

-- The front of what there is, up to a limit.
def upTo : Option Nat → Bytes → Bytes
  | some most, bytes => bytes.take most
  | none, bytes => bytes

theorem stops_upTo (hends : source.Ends) (limit : Option Nat) (bytes : Bytes) :
    ∃ tail, bytes = upTo limit bytes ++ tail ∧ Stops source limit (upTo limit bytes) tail := by
  cases limit with
  | none =>
      have hnone (most : Nat) (hmost : none = some most) : bytes.length ≤ most := nomatch hmost
      exact ⟨[], (List.append_nil bytes).symm, hnone, .inr ⟨hends, rfl⟩⟩
  | some most =>
      refine ⟨bytes.drop most, (List.take_append_drop most bytes).symm, fun other hother => ?_, ?_⟩
      · obtain rfl := Option.some.inj hother
        exact List.length_take_le most bytes
      · by_cases hmost : most ≤ bytes.length
        · refine .inl (congrArg some ?_)
          rw [upTo, List.length_take, Nat.min_eq_left hmost]
        · exact .inr ⟨hends, List.drop_eq_nil_of_le (by omega)⟩

-- A copy of a stream that comes to an end, at the limit or before it.
theorem Good.copy_upTo {relay : Relay ρ ω} (h : Good source sink taken relay) (hends : source.Ends)
    (limit : Option Nat) :
    ∃ copied next, Yields (Relay.copy limit) relay copied next ∧
      Good source sink (taken ++ upTo limit (source.rest relay.reader)) next := by
  obtain ⟨tail, hsplit, hstops⟩ := stops_upTo hends limit (source.rest relay.reader)
  obtain ⟨next, hcopy, hnext, -⟩ := h.copy hstops hsplit
  exact ⟨_, next, hcopy, hnext⟩

variable {run : Nat → Async (Relay ρ ω) α} {after : α → Nat → Async (Relay ρ ω) β} {first : α}
  {second : β} {front back written more : Bytes}

theorem Copies.pure (value : α) : Copies source sink (fun _ => Pure.pure value) value [] [] :=
  fun taken _ relay hgood hrest => ⟨relay, .pure relay value, by rwa [List.append_nil], hrest⟩

theorem Copies.ofResult {result : Result α} {value : α} (h : result = .ok value) :
    Copies source sink (fun _ => Async.ofResult result) value [] [] :=
  fun taken _ relay hgood hrest => ⟨relay, .ofResult relay h, by rwa [List.append_nil], hrest⟩

theorem Copies.ensure {condition : Bool} {message : String} (h : condition = true) :
    Copies source sink (fun _ => Async.ensure condition message) () [] [] :=
  .ofResult (Result.ensure_eq_ok.mpr h)

theorem Copies.bind (hf : Copies source sink run first front written)
    (hs : Copies source sink (after first) second back more) :
    Copies source sink (fun polls => run polls >>= fun value => after value polls) second
      (front ++ back) (written ++ more) := by
  intro taken tail relay hgood hrest
  rw [List.append_assoc] at hrest
  obtain ⟨mid, hfirst, hmid, hleft⟩ := hf taken (back ++ tail) relay hgood hrest
  obtain ⟨next, hsecond, hnext, htail⟩ := hs (taken ++ written) tail mid hmid hleft
  rw [List.append_assoc] at hnext
  exact ⟨next, hfirst.bind hsecond, hnext, htail⟩

-- A step that takes and writes nothing.
theorem Copies.bind_nil (hf : Copies source sink run first [] [])
    (hs : Copies source sink (after first) second back more) :
    Copies source sink (fun polls => run polls >>= fun value => after value polls) second back more :=
  hf.bind hs

theorem Copies.bind_last (hf : Copies source sink run first front written)
    (hs : Copies source sink (after first) second [] []) :
    Copies source sink (fun polls => run polls >>= fun value => after value polls) second front
      written := by
  have h := hf.bind hs
  rwa [List.append_nil, List.append_nil] at h

theorem Copies.copy (data : Bytes) :
    Copies source sink (Relay.copy (some data.length)) data.length data data := by
  intro taken tail relay hgood hrest
  have hstops : Stops source (some data.length) data tail :=
    ⟨fun most hmost => Nat.le_of_eq (Option.some.inj hmost), .inl rfl⟩
  exact hgood.copy hstops hrest

-- The relay as something to read from.
def readable (source : Source ρ) (sink : Sink ω) (taken : Bytes) : Source (Relay ρ ω) where
  good := Good source sink taken
  rest relay := source.rest relay.reader
  read _ _ hgood hroom hrest := hgood.read hroom hrest

theorem Copies.readExact (bytes : Bytes) :
    Copies source sink (Async.readExact bytes.length) bytes bytes [] := by
  intro taken tail relay hgood hrest
  have hreads : (readable source sink taken).Reads (Async.readExact bytes.length) bytes bytes :=
    Source.Reads.exact bytes
  obtain ⟨next, hread, hnext, htail⟩ := hreads relay tail hgood hrest
  exact ⟨next, hread, by rwa [List.append_nil], htail⟩

-- The rounds of a loop that are left from a position on.
def LoopCopies (source : Source ρ) (sink : Sink ω)
    (body : κ → Nat → Async (Relay ρ ω) (Pass κ α)) (position : κ) (value : α)
    (encoded written : Bytes) : Prop :=
  ∀ taken tail relay, Good source sink taken relay → source.rest relay.reader = encoded ++ tail →
    ∃ next, LoopYields body position relay value next ∧ Good source sink (taken ++ written) next ∧
      source.rest next.reader = tail

section

variable {body : κ → Nat → Async (Relay ρ ω) (Pass κ α)} {position later : κ} {value : α}

theorem LoopCopies.done (h : Copies source sink (body position) (.done value) front written) :
    LoopCopies source sink body position value front written := by
  intro taken tail relay hgood hrest
  obtain ⟨next, hbody, hnext, htail⟩ := h taken tail relay hgood hrest
  exact ⟨next, .done hbody, hnext, htail⟩

theorem LoopCopies.again (h : Copies source sink (body position) (.again later) front written)
    (hrest : LoopCopies source sink body later value back more) :
    LoopCopies source sink body position value (front ++ back) (written ++ more) := by
  intro taken tail relay hgood hencoded
  rw [List.append_assoc] at hencoded
  obtain ⟨mid, hbody, hmid, hleft⟩ := h taken (back ++ tail) relay hgood hencoded
  obtain ⟨next, hloop, hnext, htail⟩ := hrest (taken ++ written) tail mid hmid hleft
  rw [List.append_assoc] at hnext
  exact ⟨next, .again hbody hloop, hnext, htail⟩

theorem LoopCopies.loop (h : LoopCopies source sink body position value front written) :
    Copies source sink (Async.loop body position) value front written := by
  intro taken tail relay hgood hrest
  obtain ⟨next, hloop, hnext, htail⟩ := h taken tail relay hgood hrest
  exact ⟨next, hloop.yields, hnext, htail⟩

end

end Relay

-- A stream that is never late: what is left of it, in the pieces in which it arrives.
structure Pieces where
  pieces : List Bytes

instance : AsyncRead Pieces where
  pollRead stream room :=
    match stream.pieces with
    | [] => (.ready (.ok []), stream)
    | piece :: others =>
        if piece.length ≤ room then (.ready (.ok piece), ⟨others⟩)
        else (.ready (.ok (piece.take room)), ⟨piece.drop room :: others⟩)

-- A stream that takes everything at once.
structure Collected where
  bytes : Bytes

instance : AsyncWrite Collected where
  pollWrite stream data := (.ready (.ok data.length), ⟨stream.bytes ++ data⟩)
  pollFlush stream := (.ready (.ok ()), stream)

def Pieces.source : Source Pieces where
  good stream := ∀ piece ∈ stream.pieces, piece ≠ []
  rest stream := stream.pieces.flatten
  read := by
    rintro ⟨pieces⟩ room hgood hroom hrest
    cases pieces with
    | nil => exact absurd rfl hrest
    | cons piece others =>
        obtain ⟨hpiece, hothers⟩ := List.forall_mem_cons.mp hgood
        by_cases hfits : piece.length ≤ room
        · exact ⟨piece, ⟨others⟩, .ready (if_pos hfits), hothers, hpiece, hfits, rfl⟩
        · have htake : piece.take room ≠ [] := by
            rw [← List.length_pos_iff, List.length_take]
            omega
          have hdrop : piece.drop room ≠ [] := by
            rw [← List.length_pos_iff, List.length_drop]
            omega
          refine ⟨piece.take room, ⟨piece.drop room :: others⟩, .ready (if_neg hfits),
            List.forall_mem_cons.mpr ⟨hdrop, hothers⟩, htake, List.length_take_le _ _, ?_⟩
          rw [List.flatten_cons, List.flatten_cons, ← List.append_assoc, List.take_append_drop]

theorem Pieces.ends : Pieces.source.Ends := by
  rintro ⟨pieces⟩ room hgood hroom hrest
  cases pieces with
  | nil => exact ⟨⟨[]⟩, .ready rfl, hgood, rfl⟩
  | cons piece others =>
      have hpiece := (List.forall_mem_cons.mp hgood).1
      exact absurd (List.append_eq_nil_iff.mp hrest).1 hpiece

def Collected.sink : Sink Collected where
  good _ := True
  taken := bytes
  write stream data _ hdata :=
    ⟨data.length, ⟨stream.bytes ++ data⟩, .ready rfl, trivial, List.length_pos_iff.mpr hdata,
      by rw [List.take_length]⟩
  flush stream _ := ⟨stream, .ready rfl, trivial, rfl⟩

end SingBox.Library
