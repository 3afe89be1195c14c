import SingBox.Library.Async
import SingBox.Library.Reader
import SingBox.Library.Run

namespace SingBox.Cloudflared

open Library

-- `h2::SendStream` as its user and the peer's window updates find it. `requested` is
-- the capacity `reserve_capacity` has asked for and the stream has not been given,
-- `increased` tells that it has been given some since `poll_capacity` last said so, and
-- `registered` that it has the waker of a task.
structure SendStream (σ : Type) where
  pollCapacity : σ → Poll (Option (Except String Nat)) × σ
  sendData : Bytes → Bool → σ → Except String Unit × σ
  windowUpdate : Nat → σ → σ
  isOpen : σ → Bool
  requested : σ → Nat
  increased : σ → Bool
  registered : σ → Bool

namespace SendStream

variable {σ : Type}

-- What h2 documents of a stream: capacity comes only where it has been asked for, and
-- `poll_capacity` waits for it.
structure Contract (h2 : SendStream σ) : Prop where
  assigned : ∀ amount stream, h2.requested stream = 0 →
    h2.requested (h2.windowUpdate amount stream) = 0 ∧
      h2.increased (h2.windowUpdate amount stream) = h2.increased stream
  waits : ∀ stream, h2.isOpen stream = true → h2.increased stream = false →
    (h2.pollCapacity stream).1 = .pending ∧ h2.registered (h2.pollCapacity stream).2 = true
  closed : ∀ stream, h2.isOpen stream = false → (h2.pollCapacity stream).1 = .ready none ∨
    ∃ error, (h2.pollCapacity stream).1 = .ready (some (.error error))
  polled : ∀ stream, h2.requested (h2.pollCapacity stream).2 = h2.requested stream ∧
    (h2.increased stream = false → h2.increased (h2.pollCapacity stream).2 = false)

def afterUpdates (h2 : SendStream σ) (amounts : List Nat) (stream : σ) : σ :=
  amounts.foldl (fun stream amount => h2.windowUpdate amount stream) stream

-- A window update can still be of use to the user: capacity is asked for or has come,
-- or there is a waker that some updates wake.
def Resumable (h2 : SendStream σ) (stream : σ) : Prop :=
  0 < h2.requested stream ∨ h2.increased stream = true ∨
    h2.registered stream = true ∧ ∃ amounts, h2.increased (h2.afterUpdates amounts stream) = true

end SendStream

-- `Http2BodyWriter` passes its calls on to one of these.
structure H2Writer (σ : Type) where
  stream : Option σ

namespace H2Writer

variable {σ : Type}

def closedError : IoError := ⟨.brokenPipe, "Cloudflare HTTP/2 stream is closed"⟩

def pollWrite (h2 : SendStream σ) (this : H2Writer σ) (data : Bytes) :
    Poll (IoResult Nat) × H2Writer σ :=
  match this.stream with
  | none => (.ready (.error closedError), this)
  | some stream =>
      if data = [] then (.ready (.ok 0), this)
      else
        match h2.pollCapacity stream with
        | (.pending, stream) => (.pending, { stream := some stream })
        | (.ready none, stream) => (.ready (.error closedError), { stream := some stream })
        | (.ready (some (.error error)), stream) =>
            (.ready (.error ⟨.other, error⟩), { stream := some stream })
        | (.ready (some (.ok capacity)), stream) =>
            if capacity = 0 then (.pending, { stream := some stream })
            else
              let length := min capacity data.length
              match h2.sendData (data.take length) false stream with
              | (.ok (), stream) => (.ready (.ok length), { stream := some stream })
              | (.error error, stream) =>
                  (.ready (.error ⟨.other, error⟩), { stream := some stream })

def pollFlush (this : H2Writer σ) : Poll (IoResult Unit) × H2Writer σ := (.ready (.ok ()), this)

def pollShutdown (h2 : SendStream σ) (this : H2Writer σ) : Poll (IoResult Unit) × H2Writer σ :=
  match this.stream with
  | none => (.ready (.ok ()), this)
  | some stream =>
      match (h2.sendData [] true stream).1 with
      | .ok () => (.ready (.ok ()), { stream := none })
      | .error error => (.ready (.error ⟨.other, error⟩), { stream := none })

end H2Writer

inductive H2Action where
  | write (data : Bytes)
  | flush
  | shutdown
  | windowUpdate (amount : Nat)
deriving DecidableEq, Repr

-- A writer and its user, who has been told to wait by a write of some data and has not
-- been told otherwise.
structure H2Run (σ : Type) where
  writer : H2Writer σ
  waiting : Bool

namespace H2Run

variable {σ : Type}

def new (stream : σ) : H2Run σ := { writer := { stream := some stream }, waiting := false }

def step (h2 : SendStream σ) (this : H2Run σ) : H2Action → Option (H2Run σ)
  | .write data =>
      let polled := this.writer.pollWrite h2 data
      let waiting :=
        match polled.1 with
        | .pending => true
        | .ready _ => if data = [] then this.waiting else false
      some { writer := polled.2, waiting }
  | .flush => some { this with writer := this.writer.pollFlush.2 }
  | .shutdown => some { writer := (this.writer.pollShutdown h2).2, waiting := false }
  | .windowUpdate amount =>
      some { this with writer := { stream := this.writer.stream.map (h2.windowUpdate amount) } }

-- Who waits will be woken.
def Woken (h2 : SendStream σ) (this : H2Run σ) : Prop :=
  this.waiting = true → ∃ stream, this.writer.stream = some stream ∧ h2.Resumable stream

-- No data are written to a stream that is open.
def WritesNothing (h2 : SendStream σ) (this : H2Run σ) : H2Action → Prop
  | .write data => ∀ stream, this.writer.stream = some stream → h2.isOpen stream = true → data = []
  | _ => True

-- Nothing has been asked for and nothing has come.
def Idle (h2 : SendStream σ) (this : H2Run σ) : Prop :=
  ∀ stream, this.writer.stream = some stream →
    h2.requested stream = 0 ∧ h2.increased stream = false

theorem afterUpdates_idle {h2 : SendStream σ} (hc : h2.Contract) (amounts : List Nat) {stream : σ}
    (hr : h2.requested stream = 0) (hi : h2.increased stream = false) :
    h2.increased (h2.afterUpdates amounts stream) = false := by
  induction amounts generalizing stream with
  | nil => exact hi
  | cons amount rest ih =>
      obtain ⟨hrequested, hincreased⟩ := hc.assigned amount stream hr
      exact ih hrequested (hincreased.trans hi)

-- Window updates alone bring nothing.
theorem not_resumable {h2 : SendStream σ} (hc : h2.Contract) {stream : σ}
    (hr : h2.requested stream = 0) (hi : h2.increased stream = false) : ¬h2.Resumable stream := by
  rintro (hpos | hincreased | ⟨_, amounts, hlater⟩)
  · omega
  · rw [hi] at hincreased
    cases hincreased
  · rw [afterUpdates_idle hc amounts hr hi] at hlater
    cases hlater

-- What a write does to a stream that has asked for nothing.
theorem pollWrite_idle {h2 : SendStream σ} (hc : h2.Contract) {stream : σ} {data : Bytes}
    (hd : data ≠ []) (hi : h2.increased stream = false) :
    (H2Writer.pollWrite h2 ⟨some stream⟩ data).2 = ⟨some (h2.pollCapacity stream).2⟩ ∧
      ((H2Writer.pollWrite h2 ⟨some stream⟩ data).1 = .pending ↔ h2.isOpen stream = true) := by
  simp only [H2Writer.pollWrite, hd, if_false]
  cases hopen : h2.isOpen stream with
  | true =>
      have hwaits := (hc.waits stream hopen hi).1
      generalize h2.pollCapacity stream = polled at hwaits
      obtain ⟨result, next⟩ := polled
      obtain rfl : result = .pending := hwaits
      exact ⟨rfl, by simp⟩
  | false =>
      have hclosed := hc.closed stream hopen
      generalize h2.pollCapacity stream = polled at hclosed
      obtain ⟨result, next⟩ := polled
      obtain hnone | ⟨error, herror⟩ := hclosed
      · obtain rfl : result = .ready none := hnone
        exact ⟨rfl, by simp⟩
      · obtain rfl : result = .ready (some (.error error)) := herror
        exact ⟨rfl, by simp⟩

theorem idle_new {h2 : SendStream σ} {stream : σ} (hr : h2.requested stream = 0)
    (hi : h2.increased stream = false) : (new stream).Idle h2 := by
  intro other ho
  obtain rfl : stream = other := Option.some.inj ho
  exact ⟨hr, hi⟩

theorem Idle.step {h2 : SendStream σ} (hc : h2.Contract) {this next : H2Run σ} (action : H2Action)
    (h : this.Idle h2) (hs : this.step h2 action = some next) : next.Idle h2 := by
  cases action with
  | write data =>
      obtain rfl := Option.some.inj hs
      cases hw : this.writer with
      | mk found =>
          rw [Idle, hw] at h
          cases found with
          | none =>
              intro stream hstream
              simp [H2Writer.pollWrite] at hstream
          | some stream =>
              obtain ⟨hr, hi⟩ := h stream rfl
              by_cases hd : data = []
              · intro other ho
                obtain rfl : stream = other := by simpa [hw, hd, H2Writer.pollWrite] using ho
                exact ⟨hr, hi⟩
              · intro other ho
                simp only [(pollWrite_idle hc hd hi).1] at ho
                obtain rfl := Option.some.inj ho
                obtain ⟨hrequested, hincreased⟩ := hc.polled stream
                exact ⟨hrequested.trans hr, hincreased hi⟩
  | flush => exact Option.some.inj hs ▸ h
  | shutdown =>
      obtain rfl := Option.some.inj hs
      intro stream hstream
      unfold H2Writer.pollShutdown at hstream
      split at hstream
      · rename_i hnone
        simp [hnone] at hstream
      · split at hstream
        · cases hstream
        · cases hstream
  | windowUpdate amount =>
      obtain rfl := Option.some.inj hs
      intro stream hstream
      obtain ⟨before, hbefore, rfl⟩ := Option.map_eq_some_iff.mp hstream
      obtain ⟨hr, hi⟩ := h before hbefore
      obtain ⟨hrequested, hincreased⟩ := hc.assigned amount before hr
      exact ⟨hrequested, hincreased.trans hi⟩

-- A user of an idle stream is woken only if it does not wait.
theorem woken_iff {h2 : SendStream σ} (hc : h2.Contract) {this : H2Run σ} (h : this.Idle h2) :
    this.Woken h2 ↔ this.waiting = false := by
  constructor
  · intro hw
    by_contra hwaiting
    obtain ⟨stream, hstream, hresumable⟩ := hw (by simpa using hwaiting)
    obtain ⟨hr, hi⟩ := h stream hstream
    exact not_resumable hc hr hi hresumable
  · intro hwaiting hw
    rw [hwaiting] at hw
    cases hw

theorem woken_step_iff {h2 : SendStream σ} (hc : h2.Contract) {this next : H2Run σ}
    (action : H2Action) (h : this.Idle h2) (hw : this.Woken h2)
    (hs : this.step h2 action = some next) : this.WritesNothing h2 action ↔ next.Woken h2 := by
  have hidle := h.step hc action hs
  rw [woken_iff hc h] at hw
  rw [woken_iff hc hidle]
  cases action with
  | write data =>
      obtain rfl := Option.some.inj hs
      by_cases hd : data = []
      · refine iff_of_true (fun _ _ _ => hd) ?_
        have hready : ∃ result, (this.writer.pollWrite h2 data).1 = .ready result := by
          unfold H2Writer.pollWrite
          split
          · exact ⟨_, rfl⟩
          · rw [if_pos hd]
            exact ⟨_, rfl⟩
        obtain ⟨result, hresult⟩ := hready
        simp only [hresult, if_pos hd]
        exact hw
      · have hpending : (this.writer.pollWrite h2 data).1 = .pending ↔
            ∃ stream, this.writer.stream = some stream ∧ h2.isOpen stream = true := by
          cases hwriter : this.writer with
          | mk found =>
              cases found with
              | none => simp [H2Writer.pollWrite]
              | some stream =>
                  have hi := (h stream (by rw [hwriter])).2
                  simp [(pollWrite_idle hc hd hi).2]
        simp only [WritesNothing, hd, imp_false]
        cases hresult : (this.writer.pollWrite h2 data).1 with
        | pending =>
            obtain ⟨stream, hstream, hopen⟩ := hpending.mp hresult
            exact iff_of_false (fun hnone => hnone stream hstream hopen) (by simp)
        | ready result =>
            refine iff_of_true (fun stream hstream hopen => ?_) rfl
            rw [hpending.mpr ⟨stream, hstream, hopen⟩] at hresult
            cases hresult
  | flush =>
      obtain rfl := Option.some.inj hs
      exact iff_of_true trivial hw
  | shutdown =>
      obtain rfl := Option.some.inj hs
      exact iff_of_true trivial rfl
  | windowUpdate amount =>
      obtain rfl := Option.some.inj hs
      exact iff_of_true trivial hw

-- Along a run the writer never sleeps without a wake-up, if and only if no data are
-- written to its stream while that is open.
theorem woken_iff_writesNothing {h2 : SendStream σ} (hc : h2.Contract) {stream : σ}
    (hr : h2.requested stream = 0) (hi : h2.increased stream = false) (actions : List H2Action) :
    Run.Always (step h2) (Woken h2) (new stream) actions ↔
      Run.Meets (step h2) (WritesNothing h2) (new stream) actions := by
  have hidle : ∀ (state : H2Run σ) (action : H2Action) (next : H2Run σ), state.Idle h2 →
      state.step h2 action = some next → next.Idle h2 :=
    fun _ action _ h hs => h.step hc action hs
  refine Run.always_iff_meets_under hidle (fun _ action _ h hw hs => woken_step_iff hc action h hw hs)
    ?_ _ actions (idle_new hr hi) ?_
  · intro state action hs
    cases action with
    | write | flush | shutdown | windowUpdate => cases hs
  · intro hwaiting
    cases hwaiting

-- A stream with a window of its own that gives of it what has been asked for.
structure FlowControl where
  window : Nat
  requested : Nat
  assigned : Nat
  increased : Bool
  registered : Bool
deriving DecidableEq, Repr

def FlowControl.new : FlowControl :=
  { window := 65535, requested := 0, assigned := 0, increased := false, registered := false }

def flowControl : SendStream FlowControl where
  pollCapacity stream :=
    if stream.increased then
      (.ready (some (.ok stream.assigned)), { stream with increased := false })
    else (.pending, { stream with registered := true })
  sendData data _ stream :=
    (.ok (), { stream with
      window := stream.window - data.length
      assigned := stream.assigned - data.length })
  windowUpdate amount stream :=
    let window := stream.window + amount
    let given := min stream.requested (window - stream.assigned)
    { window
      requested := stream.requested - given
      assigned := stream.assigned + given
      increased := stream.increased || decide (0 < given)
      registered := stream.registered && decide (given = 0) }
  isOpen _ := true
  requested := FlowControl.requested
  increased := FlowControl.increased
  registered := FlowControl.registered

theorem flowControl_contract : flowControl.Contract where
  assigned amount stream hr := by
    have hr : stream.requested = 0 := hr
    simp [flowControl, hr]
  waits stream _ hi := by
    have hi : stream.increased = false := hi
    simp [flowControl, hi]
  closed _ h := by cases h
  polled stream := by
    cases hi : stream.increased with
    | true => simp [flowControl, hi]
    | false => simp [flowControl, hi]

-- The first write of a byte waits, and no window update will wake its task.
theorem not_woken :
    ¬∀ (σ : Type) (h2 : SendStream σ), h2.Contract → ∀ stream, h2.requested stream = 0 →
      h2.increased stream = false → ∀ actions,
        Run.Always (step h2) (Woken h2) (new stream) actions := by
  intro h
  have hrun := h FlowControl flowControl flowControl_contract .new rfl rfl
    [.windowUpdate 65535, .write [1]]
  obtain ⟨stream, hstream, hresumable⟩ := (hrun.2 _ rfl).2 _ rfl rfl
  obtain rfl := Option.some.inj hstream
  exact not_resumable flowControl_contract rfl rfl hresumable

theorem woken_iff_writesNothing_shutdown :
    Run.Always (step flowControl) (Woken flowControl) (new .new)
      [.write [], .windowUpdate 10, .flush, .shutdown, .write [1]] := by
  refine (woken_iff_writesNothing flowControl_contract rfl rfl _).mpr ?_
  refine .cons (fun _ _ _ => rfl) rfl (.cons trivial rfl (.cons trivial rfl (.cons trivial rfl
    (.cons (fun _ hclosed => ?_) rfl trivial))))
  cases hclosed

end H2Run

end SingBox.Cloudflared
