import SingBox.AnyTls.Session.Isolation

namespace SingBox.AnyTls

open Library

-- The channel takes a payload at once: there is room in it, or nobody receives from it.
def Stream.Accepts (stream : Stream) : Prop :=
  stream.incoming.length < INCOMING_CAPACITY ∨ stream.writer = .finished ∨ stream.writer = .cancelled

-- No task of the stream makes its channel fuller.
theorem Stream.Accepts.step {outgoingClosed : Bool} {stream next : Stream} {action : Stream.Step}
    (h : stream.Accepts) (hs : stream.step outgoingClosed action = some next) : next.Accepts := by
  have hkeeps : next.incoming.length ≤ stream.incoming.length ∧
      (stream.WriterDone → next.WriterDone) := by
    cases action <;> simp only [Stream.step] at hs
    all_goals
      repeat' split at hs
      all_goals cases hs <;> simp_all [Stream.WriterDone]
  obtain hroom | hdone := h
  · exact .inl (Nat.lt_of_le_of_lt hkeeps.1 hroom)
  · exact .inr (hkeeps.2 hdone)

namespace Session

-- The reader waits for room in the channel of a stream while it holds the lock of the map.
def Waits (session : Session) : Prop :=
  ∃ index data stream, session.reader = .delivering index data ∧
    session.streams[index]? = some stream ∧ ¬stream.Accepts

-- Nobody waits for room with the lock taken, and whoever has taken it gives it back with
-- the next step of its own.
structure Unblocked (acceptsPadding : Bytes → Bool) (session : Session) : Prop where
  waits : ¬session.Waits
  unlocks : session.isLocked = true →
    ∃ next, session.step acceptsPadding .enqueue = some next ∧ next.isLocked = false

-- The payload of a frame is for a stream whose channel takes it at once.
def HasRoom (session : Session) : Action → Prop
  | .receive frame => session.reader = .idle → frame.command = CMD_PSH →
      ∀ index stream, session.lookup frame.streamId = some index →
        session.streams[index]? = some stream → stream.Accepts
  | _ => True

theorem enqueue_eq_none_iff {session : Session} {index : Nat} {data : Bytes} {stream : Stream} :
    session.enqueue index data stream = none ↔ ¬stream.Accepts := by
  unfold enqueue Stream.Accepts
  split
  · rename_i hdone
    simp [hdone]
  · rename_i hdone
    split <;> simp_all

theorem enqueue_unlocks {session next : Session} {index : Nat} {data : Bytes} {stream : Stream}
    (h : session.enqueue index data stream = some next) : next.isLocked = false := by
  unfold enqueue at h
  split at h
  · obtain rfl := Option.some.inj h
    rfl
  · split at h
    · obtain rfl := Option.some.inj h
      rfl
    · cases h

-- What the reader is about to send can be sent.
theorem unblocked_iff {acceptsPadding : Bytes → Bool} {session : Session} :
    session.Unblocked acceptsPadding ↔ ∀ index data, session.reader = .delivering index data →
      ∃ stream, session.streams[index]? = some stream ∧ stream.Accepts := by
  constructor
  · intro h index data hreader
    have hlocked : session.isLocked = true := by rw [isLocked, hreader]
    obtain ⟨next, hnext, _⟩ := h.unlocks hlocked
    rw [step, hreader] at hnext
    obtain ⟨stream, hstream, hnext⟩ := Option.bind_eq_some_iff.mp hnext
    refine ⟨stream, hstream, ?_⟩
    by_contra hfull
    rw [enqueue_eq_none_iff.mpr hfull] at hnext
    cases hnext
  · intro h
    refine ⟨?_, fun hlocked => ?_⟩
    · rintro ⟨index, data, stream, hreader, hstream, hfull⟩
      obtain ⟨other, hother, haccepts⟩ := h index data hreader
      obtain rfl := Option.some.inj (hstream.symm.trans hother)
      exact hfull haccepts
    · cases hreader : session.reader with
      | idle => simp [isLocked, hreader] at hlocked
      | ended => simp [isLocked, hreader] at hlocked
      | delivering index data =>
          obtain ⟨stream, hstream, haccepts⟩ := h index data hreader
          obtain ⟨next, hnext⟩ : ∃ next, session.enqueue index data stream = some next :=
            Option.ne_none_iff_exists'.mp fun hnone => enqueue_eq_none_iff.mp hnone haccepts
          refine ⟨next, ?_, enqueue_unlocks hnext⟩
          rw [step, hreader]
          exact Option.bind_eq_some_iff.mpr ⟨stream, hstream, hnext⟩

theorem receivePush_delivering {session : Session} {frame : Frame} {index : Nat} {data : Bytes}
    (hidle : session.reader = .idle)
    (h : (session.receivePush frame).reader = .delivering index data) :
    session.lookup frame.streamId = some index := by
  unfold receivePush at h
  split at h
  · rename_i found hfound
    rw [hfound, (ReaderTask.delivering.inj h).1]
  · rw [hidle] at h
    cases h

-- Only a payload makes the reader take the lock for longer than a step.
theorem receive_delivering {acceptsPadding : Bytes → Bool} {session : Session} {frame : Frame}
    {index : Nat} {data : Bytes} (hidle : session.reader = .idle)
    (h : (session.receive acceptsPadding frame).reader = .delivering index data) :
    frame.command = CMD_PSH ∧ session.lookup frame.streamId = some index ∧
      session.receive acceptsPadding frame = session.receivePush frame := by
  by_cases hpush : frame.command = CMD_PSH
  · rw [receive_push hpush] at h ⊢
    exact ⟨hpush, receivePush_delivering hidle h, rfl⟩
  · exfalso
    unfold receive receiveClient receiveServer at h
    rw [if_neg hpush] at h
    repeat' split at h
    all_goals simp_all

-- Whoever is given the lock for a payload has been given it by the frame, and nobody else
-- changes what it is to do.
theorem step_delivering {acceptsPadding : Bytes → Bool} {session next : Session} {action : Action}
    {index : Nat} {data : Bytes} (hs : session.step acceptsPadding action = some next)
    (hreader : next.reader = .delivering index data) :
    (∃ frame, action = .receive frame ∧ session.reader = .idle ∧ frame.command = CMD_PSH ∧
        session.lookup frame.streamId = some index ∧ next = session.receivePush frame) ∨
      session.reader = .delivering index data ∧
        (next.streams = session.streams ∨
          ∃ target change stream changed, action = .task target change ∧
            session.streams[target]? = some stream ∧
            stream.step session.outgoingClosed change = some changed ∧
            next.streams = session.streams.set target changed) := by
  cases moves_of_step hs with
  | receive frame hidle => exact .inl ⟨frame, rfl, hidle, receive_delivering hidle hreader⟩
  | enqueue _ _ hsent =>
      have hunlocked := enqueue_unlocks hsent
      simp [isLocked, hreader] at hunlocked
  | close _ =>
      rw [finish_reader] at hreader
      cases hreader
  | clear _ hlock => exact absurd hreader (isLocked_false hlock index data)
  | closeOutgoing => exact .inr ⟨hreader, .inl rfl⟩
  | openStream _ hlock =>
      rw [register_reader] at hreader
      exact absurd hreader (isLocked_false hlock index data)
  | @task target change stream changed hstream hchange =>
      exact .inr ⟨hreader, .inr ⟨target, change, stream, changed, rfl, hstream, hchange, rfl⟩⟩
  | pumpRemove hlock _ _ =>
      rw [remove_reader] at hreader
      exact absurd hreader (isLocked_false hlock index data)
  | abandon hlock _ _ =>
      rw [remove_reader] at hreader
      exact absurd hreader (isLocked_false hlock index data)

-- The stream of a payload, once the frame has been taken, is as full as before.
theorem receivePush_stream {session : Session} {frame : Frame} {index : Nat} {stream : Stream}
    (hlookup : session.lookup frame.streamId = some index)
    (hstream : session.streams[index]? = some stream) :
    (session.receivePush frame).streams[index]? =
      some { stream with received := stream.received ++ frame.data } := by
  rw [receivePush, hlookup]
  simp [hstream]

-- A step blocks the session if and only if it takes a payload for which there is no room.
theorem hasRoom_iff {acceptsPadding : Bytes → Bool} {session next : Session} {action : Action}
    (h : session.Unblocked acceptsPadding)
    (hs : session.step acceptsPadding action = some next) :
    session.HasRoom action ↔ next.Unblocked acceptsPadding := by
  rw [unblocked_iff] at h ⊢
  constructor
  · intro hroom index data hreader
    obtain ⟨frame, rfl, hidle, hpush, hlookup, rfl⟩ | ⟨hbefore, hstreams⟩ :=
      step_delivering hs hreader
    · obtain ⟨stream, hstream, _⟩ := lookup_some hlookup
      exact ⟨_, receivePush_stream hlookup hstream, hroom hidle hpush index stream hlookup hstream⟩
    · obtain ⟨stream, hstream, haccepts⟩ := h index data hbefore
      obtain hsame | ⟨target, change, found, changed, _, hfound, hchange, hset⟩ := hstreams
      · exact ⟨stream, hsame ▸ hstream, haccepts⟩
      · rw [hset]
        by_cases htarget : target = index
        · subst htarget
          obtain rfl := Option.some.inj (hfound.symm.trans hstream)
          have hlt : target < session.streams.length := (List.getElem?_eq_some_iff.mp hstream).1
          exact ⟨changed, List.getElem?_set_self hlt, haccepts.step hchange⟩
        · exact ⟨stream, (List.getElem?_set_ne htarget).trans hstream, haccepts⟩
  · intro hnext
    cases action with
    | receive frame =>
        intro hidle hpush index stream hlookup hstream
        simp only [step, hidle, if_true] at hs
        obtain rfl := Option.some.inj hs
        rw [receive_push hpush] at hnext
        have hreader : (session.receivePush frame).reader = .delivering index frame.data := by
          rw [receivePush, hlookup]
        obtain ⟨found, hfound, haccepts⟩ := hnext index frame.data hreader
        rw [receivePush_stream hlookup hstream] at hfound
        obtain rfl := Option.some.inj hfound
        exact haccepts
    | _ => trivial

theorem hasRoom_of_refused {acceptsPadding : Bytes → Bool} {session : Session} {action : Action}
    (hs : session.step acceptsPadding action = none) : session.HasRoom action := by
  cases action with
  | receive frame =>
      intro hidle
      simp [step, hidle] at hs
  | _ => trivial

theorem unblocked_new (acceptsPadding : Bytes → Bool) (side : Side) :
    (new side).Unblocked acceptsPadding :=
  unblocked_iff.mpr fun _ _ hreader => nomatch hreader

-- Along a run nobody waits for room with the lock taken if and only if each payload that is
-- received finds room in the channel of its stream.
theorem always_unblocked_iff (acceptsPadding : Bytes → Bool) (side : Side) (actions : List Action) :
    Run.Always (step acceptsPadding) (Unblocked acceptsPadding) (new side) actions ↔
      Run.Meets (step acceptsPadding) HasRoom (new side) actions :=
  Run.always_iff_meets (fun _ _ _ => hasRoom_iff) (fun _ _ => hasRoom_of_refused) (new side) actions
    (unblocked_new acceptsPadding side)

-- A stream that nobody reads from, and one payload more than its channel holds.
theorem not_always_unblocked : ¬∀ (acceptsPadding : Bytes → Bool) (side : Side)
    (actions : List Action),
    Run.Always (step acceptsPadding) (Unblocked acceptsPadding) (new side) actions := by
  intro h
  let push : Action := .receive { command := CMD_PSH, streamId := 1, data := [7] }
  let actions := .openStream :: (List.replicate 32 [push, .enqueue]).flatten ++ [push]
  have hblocked : (Run.exec (step fun _ => true) (new .client) actions).any fun final =>
      final.isLocked && (final.step (fun _ => true) .enqueue).isNone := by decide +kernel
  obtain ⟨final, hfinal, hstuck⟩ := (Option.any_eq_true _ _).mp hblocked
  obtain ⟨hlocked, hnone⟩ := (Bool.and_eq_true _ _).mp hstuck
  obtain ⟨next, hnext, _⟩ := ((h _ _ actions).final hfinal).unlocks hlocked
  rw [hnext] at hnone
  cases hnone

end Session

-- A stream whose consumer has stopped reading: its channel and its duplex are full.
structure Stream.Stalled (stream : Stream) : Prop where
  writer : ∃ rest, stream.writer = .writing rest ∧ rest ≠ []
  incoming : INCOMING_CAPACITY ≤ stream.incoming.length
  downlink : stream.downlink.length = DUPLEX_CAPACITY
  consumer : stream.consumer ≠ .dropped
  cancelled : stream.cancelled = false

theorem Stream.Stalled.not_accepts {stream : Stream} (h : stream.Stalled) : ¬stream.Accepts := by
  obtain ⟨rest, hwriter, _⟩ := h.writer
  rintro (hroom | hdone | hdone)
  · have hfull := h.incoming
    omega
  · rw [hwriter] at hdone
    cases hdone
  · rw [hwriter] at hdone
    cases hdone

-- Only its consumer can change that.
theorem Stream.Stalled.step {outgoingClosed : Bool} {stream next : Stream} {action : Stream.Step}
    (h : stream.Stalled) (hread : ∀ count, action ≠ .read count) (hdrop : action ≠ .drop)
    (hs : stream.step outgoingClosed action = some next) : next.Stalled := by
  obtain ⟨rest, hwriter, hrest⟩ := h.writer
  have hduplex := h.downlink
  cases action with
  | take => simp [Stream.step, hwriter] at hs
  | write count =>
      -- the duplex has no room for a byte, and there are bytes left to write
      simp only [Stream.step, hwriter] at hs
      split at hs
      · rename_i hguard
        obtain ⟨_, _, hroom, hsome | hnone⟩ := hguard
        · omega
        · exact absurd hnone hrest
      · cases hs
  | fail => simp [Stream.step, hwriter, h.consumer] at hs
  | finish => simp [Stream.step, hwriter] at hs
  | cancelled => simp [Stream.step, hwriter, h.cancelled] at hs
  | read count => exact absurd rfl (hread count)
  | readEnd =>
      have hbytes : stream.downlink ≠ [] := by
        rintro hnil
        rw [hnil] at hduplex
        cases hduplex
      simp [Stream.step, hbytes] at hs
  | drop => exact absurd rfl hdrop
  | shutdown | leave | depart =>
      simp only [Stream.step] at hs
      split at hs
      · obtain rfl := Option.some.inj hs
        exact ⟨h.writer, h.incoming, h.downlink, h.consumer, h.cancelled⟩
      · cases hs

namespace Session

-- The reader of a client waits on a stalled stream.
structure StalledOn (index : Nat) (session : Session) : Prop where
  side : session.side = .client
  reader : ∃ data, session.reader = .delivering index data
  stream : ∃ stream, session.streams[index]? = some stream ∧ stream.Stalled

theorem StalledOn.isLocked {index : Nat} {session : Session} (h : session.StalledOn index) :
    session.isLocked = true := by
  obtain ⟨data, hreader⟩ := h.reader
  rw [Session.isLocked, hreader]

-- Until the consumer reads again or goes, nothing that needs the map is done.
theorem StalledOn.step {acceptsPadding : Bytes → Bool} {index : Nat} {session next : Session}
    {action : Action} (h : session.StalledOn index)
    (hread : ∀ count, action ≠ .task index (.read count)) (hdrop : action ≠ .task index .drop)
    (hs : session.step acceptsPadding action = some next) : next.StalledOn index := by
  have hlocked := h.isLocked
  have hside := h.side
  obtain ⟨data, hreader⟩ := h.reader
  obtain ⟨stream, hstream, hstalled⟩ := h.stream
  cases moves_of_step hs with
  | receive frame hidle =>
      rw [hreader] at hidle
      cases hidle
  | enqueue hdelivering hfound hsent =>
      obtain ⟨rfl, rfl⟩ := ReaderTask.delivering.inj (hreader.symm.trans hdelivering)
      obtain rfl := Option.some.inj (hfound.symm.trans hstream)
      rw [enqueue_eq_none_iff.mpr hstalled.not_accepts] at hsent
      cases hsent
  | close hguard => simp [hreader, hside] at hguard
  | closeOutgoing => exact ⟨hside, h.reader, h.stream⟩
  | clear _ hlock | openStream _ hlock | pumpRemove hlock _ _ | abandon hlock _ _ =>
      rw [hlocked] at hlock
      cases hlock
  | @task target change found changed hfound hchange =>
      by_cases htarget : target = index
      · subst htarget
        obtain rfl := Option.some.inj (hfound.symm.trans hstream)
        have hlt : target < session.streams.length := (List.getElem?_eq_some_iff.mp hstream).1
        have hnext : changed.Stalled := hstalled.step
          (fun count heq => hread count (heq ▸ rfl)) (fun heq => hdrop (heq ▸ rfl)) hchange
        exact ⟨hside, h.reader, changed, List.getElem?_set_self hlt, hnext⟩
      · exact ⟨hside, h.reader, stream, (List.getElem?_set_ne htarget).trans hstream, hstalled⟩

-- So the lock is kept through every run in which the consumer stays away.
theorem StalledOn.run {acceptsPadding : Bytes → Bool} {index : Nat} {session final : Session}
    {actions : List Action} (h : session.StalledOn index)
    (haway : ∀ action ∈ actions, (∀ count, action ≠ .task index (.read count)) ∧
      action ≠ .task index .drop)
    (he : Run.exec (Session.step acceptsPadding) session actions = some final) :
    final.isLocked = true := by
  have hstalled : final.StalledOn index :=
    Run.rule (fun _ action => (∀ count, action ≠ .task index (.read count)) ∧
      action ≠ .task index .drop) (StalledOn index)
      (fun _ _ _ hinv hcond hs => hinv.step hcond.1 hcond.2 hs) session actions final h
      (Run.meets_of_forall session actions fun action hmem _ => haway action hmem) he
  exact hstalled.isLocked

end Session

end SingBox.AnyTls
