import SingBox.AnyTls.Session.Delivery

namespace SingBox.AnyTls

open Library

namespace Session

-- A run of the session, with two things apart that `Action` takes together: a
-- caller of `open_stream` may be given the lock after callers with later ids, and
-- the token of a server's session may be cancelled before its reader sees it.
inductive Event where
  | action (action : Action)
  | insert (id : UInt32)
  | cancel
deriving DecidableEq, Repr

def event (acceptsPadding : Bytes → Bool) (session : Session) : Event → Option Session
  | .action action => session.step acceptsPadding action
  | .insert id =>
      if session.side = .client ∧ session.isLocked = false then some (session.register id) else none
  | .cancel =>
      if session.side = .server then
        some { session with
          streams := session.streams.map fun stream => { stream with cancelled := true } }
      else none

-- What the CMD_PSH frames among the received ones carry for an id.
def pushed (id : UInt32) (events : List Event) : Bytes :=
  events.flatMap fun
    | .action (.receive frame) =>
        if frame.command = CMD_PSH ∧ frame.streamId = id then frame.data else []
    | _ => []

end Session

namespace Stream

-- The streams differ in nothing that carries bytes, and a stream that has left the
-- map stays out of it.
structure Marked (stream next : Stream) : Prop where
  id : next.id = stream.id
  received : next.received = stream.received
  delivered : next.delivered = stream.delivered
  downlink : next.downlink = stream.downlink
  incoming : next.incoming = stream.incoming
  writer : next.writer = stream.writer
  removed : next.removed = none → stream.removed = none

theorem Marked.refl (stream : Stream) : stream.Marked stream :=
  ⟨rfl, rfl, rfl, rfl, rfl, rfl, fun hr => hr⟩

theorem Marked.trans {stream mid next : Stream} (h : stream.Marked mid) (h' : mid.Marked next) :
    stream.Marked next :=
  ⟨h'.id.trans h.id, h'.received.trans h.received, h'.delivered.trans h.delivered,
    h'.downlink.trans h.downlink, h'.incoming.trans h.incoming, h'.writer.trans h.writer,
    fun hr => h.removed (h'.removed hr)⟩

-- What a step of the stream's own tasks does with the bytes: a writer that goes on
-- loses none, and one that is done writes none.
structure Carried (stream next : Stream) : Prop where
  id : next.id = stream.id
  received : next.received = stream.received
  removed : next.removed = stream.removed
  busy : ¬next.WriterDone → ¬stream.WriterDone ∧ next.held = stream.held
  done : next.WriterDone → next.delivered ++ next.downlink = stream.delivered ++ stream.downlink

theorem carried_of_step {outgoingClosed : Bool} {stream next : Stream} (action : Step)
    (h : stream.step outgoingClosed action = some next) : stream.Carried next := by
  cases action with
  | take =>
      simp only [step] at h
      split at h
      · rename_i data rest hw hin
        obtain rfl := Option.some.inj h
        refine ⟨rfl, rfl, rfl, fun _ => ⟨by simp [WriterDone, hw], ?_⟩, fun _ => rfl⟩
        simp [held, unwritten, hw, hin]
      · cases h
  | write count =>
      simp only [step] at h
      split at h
      · rename_i rest hw
        split at h
        · obtain rfl := Option.some.inj h
          refine ⟨rfl, rfl, rfl, fun _ => ⟨by simp [WriterDone, hw], ?_⟩, fun hdone => ?_⟩
          · have hrest : rest.take count ++ rest.drop count = rest := List.take_append_drop count rest
            by_cases hdrop : rest.drop count = []
            · rw [hdrop, List.append_nil] at hrest
              simp [held, unwritten, hw, hdrop, hrest]
            · simp only [held, unwritten, hw, if_neg hdrop, List.append_assoc]
              rw [← List.append_assoc (rest.take count), hrest]
          · exfalso
            simp only [WriterDone] at hdone
            split at hdone <;> simp at hdone
        · cases h
      · cases h
  | fail | finish | cancelled =>
      simp only [step] at h
      repeat' split at h
      all_goals first
        | obtain rfl := Option.some.inj h
          exact ⟨rfl, rfl, rfl, fun hb => absurd (by simp [WriterDone]) hb, fun _ => rfl⟩
        | cases h
  | read count =>
      simp only [step] at h
      split at h
      · obtain rfl := Option.some.inj h
        refine ⟨rfl, rfl, rfl, fun hb => ⟨hb, ?_⟩, fun _ => ?_⟩
        · simp [held, unwritten]
        · simp
      · cases h
  | readEnd | shutdown | drop | leave | depart =>
      simp only [step] at h
      split at h
      · obtain rfl := Option.some.inj h
        exact ⟨rfl, rfl, rfl, fun hb => ⟨hb, rfl⟩, fun _ => rfl⟩
      · cases h

-- The received bytes are passed on in their order. `pending` is what the reader is
-- still delivering, and `running` tells that it goes on.
structure Ordered (running : Prop) (pending : Bytes) (stream : Stream) : Prop where
  written : stream.delivered ++ stream.downlink <+: stream.received
  waiting : ¬stream.WriterDone → stream.held ++ pending <+: stream.received
  registered : stream.removed = none → running → ¬stream.WriterDone →
    stream.held ++ pending = stream.received

theorem ordered_new (running : Prop) (id : UInt32) : (Stream.new id).Ordered running [] :=
  ⟨List.prefix_refl _, fun _ => List.prefix_refl _, fun _ _ _ => rfl⟩

theorem Ordered.carried {running : Prop} {pending : Bytes} {stream next : Stream}
    (h : stream.Ordered running pending) (hc : stream.Carried next) : next.Ordered running pending := by
  have hwaiting : ¬next.WriterDone → next.held ++ pending <+: next.received := by
    intro hb
    obtain ⟨hbusy, hheld⟩ := hc.busy hb
    rw [hheld, hc.received]
    exact h.waiting hbusy
  refine ⟨?_, hwaiting, fun hr hrun hb => ?_⟩
  · by_cases hdone : next.WriterDone
    · rw [hc.done hdone, hc.received]
      exact h.written
    · have hfront : next.delivered ++ next.downlink <+: next.held ++ pending := by
        rw [held, List.append_assoc _ next.unwritten]
        exact List.prefix_append _ _
      exact hfront.trans (hwaiting hdone)
  · obtain ⟨hbusy, hheld⟩ := hc.busy hb
    rw [hheld, hc.received]
    exact h.registered (hc.removed ▸ hr) hrun hbusy

end Stream

namespace Session

-- The streams that are there are marked at most.
def Marked (session next : Session) : Prop :=
  ∀ (index : Nat) (stream : Stream), session.streams[index]? = some stream →
    ∃ marked, next.streams[index]? = some marked ∧ stream.Marked marked

theorem Marked.trans {session mid next : Session} (h : session.Marked mid) (h' : mid.Marked next) :
    session.Marked next := by
  intro index stream hs
  obtain ⟨marked, hmarked, hm⟩ := h index stream hs
  obtain ⟨last, hlast, hl⟩ := h' index marked hmarked
  exact ⟨last, hlast, hm.trans hl⟩

theorem marked_of_eq {session next : Session} (hn : next.streams = session.streams) :
    session.Marked next := by
  intro index stream hs
  exact ⟨stream, hn ▸ hs, .refl stream⟩

-- What is done to each of the streams alike.
theorem marked_map {session next : Session} {change : Stream → Stream}
    (hn : next.streams = session.streams.map change) (hc : ∀ stream : Stream, stream.Marked (change stream)) :
    session.Marked next := by
  intro index stream hs
  refine ⟨change stream, ?_, hc stream⟩
  rw [hn, List.getElem?_map, hs, Option.map_some]

theorem marked_modify {session next : Session} {target : Nat} {change : Stream → Stream}
    (hn : next.streams = session.streams.modify target change)
    (hc : ∀ stream : Stream, stream.Marked (change stream)) : session.Marked next := by
  intro index stream hs
  refine ⟨if target = index then change stream else stream, ?_, ?_⟩
  · rw [hn, List.getElem?_modify, hs]
    split <;> rfl
  · split
    · exact hc stream
    · exact .refl stream

theorem marked_set {session next : Session} {target : Nat} {found changed : Stream}
    (hn : next.streams = session.streams.set target changed)
    (hf : session.streams[target]? = some found) (hc : found.Marked changed) :
    session.Marked next := by
  intro index stream hs
  by_cases hne : target = index
  · subst hne
    obtain rfl : stream = found := Option.some.inj (hs.symm.trans hf)
    have hlt := (List.getElem?_eq_some_iff.mp hs).1
    exact ⟨changed, hn ▸ List.getElem?_set_self hlt, hc⟩
  · exact ⟨stream, hn ▸ (List.getElem?_set_ne hne).trans hs, .refl stream⟩

theorem marked_append {session next : Session} {added : List Stream}
    (hn : next.streams = session.streams ++ added) : session.Marked next := by
  intro index stream hs
  refine ⟨stream, ?_, .refl stream⟩
  have hlt := (List.getElem?_eq_some_iff.mp hs).1
  rw [hn, List.getElem?_append_left hlt, hs]

theorem marked_remove (session : Session) (id : UInt32) (removal : Removal) :
    session.Marked (session.remove id removal) := by
  unfold Session.remove
  split
  · exact marked_modify rfl fun stream => ⟨rfl, rfl, rfl, rfl, rfl, rfl, fun hr => by cases hr⟩
  · exact marked_of_eq rfl

theorem marked_finish (session : Session) : session.Marked session.finish := by
  unfold Session.finish
  split
  · exact marked_of_eq rfl
  · exact marked_map rfl fun stream => ⟨rfl, rfl, rfl, rfl, rfl, rfl, fun hr => hr⟩

theorem marked_clearStreams (session : Session) : session.Marked session.clearStreams := by
  refine marked_map rfl fun stream => ?_
  split
  · exact ⟨rfl, rfl, rfl, rfl, rfl, rfl, fun hr => by cases hr⟩
  · exact .refl stream

theorem marked_register (session : Session) (id : UInt32) :
    session.Marked (session.register id) := by
  unfold Session.register
  split
  · rename_i index hl
    have hreplaced : session.Marked { session with
        streams := session.streams.modify index fun stream =>
          { stream with removed := some .replaced } } :=
      marked_modify rfl fun stream => ⟨rfl, rfl, rfl, rfl, rfl, rfl, fun hr => by cases hr⟩
    exact hreplaced.trans (marked_append rfl)
  · exact marked_append rfl

@[simp] theorem finish_reader (session : Session) : session.finish.reader = .ended := by
  unfold Session.finish
  split <;> rfl

@[simp] theorem remove_reader (session : Session) (id : UInt32) (removal : Removal) :
    (session.remove id removal).reader = session.reader := by
  unfold Session.remove
  split <;> rfl

@[simp] theorem register_reader (session : Session) (id : UInt32) :
    (session.register id).reader = session.reader := by
  unfold Session.register
  split <;> rfl

-- A CMD_PSH frame for the stream at `index` is received.
def PushesTo (session : Session) (event : Event) (index : Nat) (data : Bytes) : Prop :=
  ∃ frame, event = .action (.receive frame) ∧ frame.command = CMD_PSH ∧
    session.lookup frame.streamId = some index ∧ frame.data = data

-- What an event does to the stream at `index`.
inductive Change (session : Session) (event : Event) (next : Session) (index : Nat)
    (stream : Stream) : Stream → Prop where
  | mark {marked : Stream} (hm : stream.Marked marked)
      (hpending : pending next.reader index = pending session.reader index ∨ next.reader = .ended)
      (hrunning : next.reader ≠ .ended → session.reader ≠ .ended)
      (hpush : ∀ data, ¬session.PushesTo event index data) :
      Change session event next index stream marked
  | push (data : Bytes) (hidle : session.reader = .idle)
      (hreader : next.reader = .delivering index data) (hpush : session.PushesTo event index data)
      (hregistered : stream.removed = none) :
      Change session event next index stream { stream with received := stream.received ++ data }
  | enqueue (data : Bytes) (hreader : session.reader = .delivering index data)
      (hidle : next.reader = .idle) (hevent : event = .action .enqueue) :
      Change session event next index stream { stream with incoming := stream.incoming ++ [data] }
  | discard (data : Bytes) (hreader : session.reader = .delivering index data)
      (hidle : next.reader = .idle) (hevent : event = .action .enqueue)
      (hdone : stream.WriterDone) : Change session event next index stream stream
  | task (action : Stream.Step) {changed : Stream} (hreader : next.reader = session.reader)
      (hevent : event = .action (.task index action))
      (hs : stream.step session.outgoingClosed action = some changed) :
      Change session event next index stream changed

private theorem not_pushesTo {session : Session} {event : Event}
    (h : ∀ frame, event ≠ .action (.receive frame)) (index : Nat) (data : Bytes) :
    ¬session.PushesTo event index data := by
  rintro ⟨frame, he, _⟩
  exact h frame he

-- Events that only mark streams and leave the reader where it is, or end it.
theorem change_of_marked {session next : Session} {event : Event} (h : session.Marked next)
    (hreader : next.reader = session.reader ∨ next.reader = .ended)
    (hpush : ∀ index data, ¬session.PushesTo event index data) {index : Nat} {stream : Stream}
    (hs : session.streams[index]? = some stream) :
    ∃ changed, next.streams[index]? = some changed ∧
      Change session event next index stream changed := by
  obtain ⟨marked, hmarked, hm⟩ := h index stream hs
  refine ⟨marked, hmarked, .mark hm ?_ ?_ (hpush index)⟩
  · exact hreader.imp_left fun he => by rw [he]
  · obtain he | he := hreader
    · exact fun hr => he ▸ hr
    · exact fun hr => absurd he hr

theorem change_of_receivePush {session : Session} {frame : Frame} (hidle : session.reader = .idle)
    (hc : frame.command = CMD_PSH) {index : Nat} {stream : Stream}
    (hs : session.streams[index]? = some stream) :
    ∃ changed, (session.receivePush frame).streams[index]? = some changed ∧
      Change session (.action (.receive frame)) (session.receivePush frame) index stream changed := by
  unfold Session.receivePush
  cases hl : session.lookup frame.streamId with
  | none =>
      refine ⟨stream, hs, .mark (.refl stream) (.inl rfl) (fun hr => hr) ?_⟩
      rintro data ⟨other, he, _, hother, _⟩
      obtain rfl : frame = other := by simpa using he
      rw [hl] at hother
      cases hother
  | some target =>
      obtain ⟨found, hfound, hregistered⟩ := lookup_some hl
      by_cases ht : target = index
      · subst ht
        obtain rfl : stream = found := Option.some.inj (hs.symm.trans hfound)
        refine ⟨{ stream with received := stream.received ++ frame.data }, ?_,
          .push frame.data hidle rfl ⟨frame, rfl, hc, hl, rfl⟩ hregistered⟩
        simp [hs]
      · refine ⟨stream, ?_, .mark (.refl stream) (.inl ?_) (by simp [hidle]) ?_⟩
        · simp [ht, hs]
        · rw [hidle]
          exact if_neg ht
        · rintro data ⟨other, he, _, hother, _⟩
          obtain rfl : frame = other := by simpa using he
          exact ht (Option.some.inj (hl.symm.trans hother))

-- The frames that carry no payload.
theorem marked_receive {acceptsPadding : Bytes → Bool} {session : Session} {frame : Frame}
    (hc : frame.command ≠ CMD_PSH) :
    session.Marked (session.receive acceptsPadding frame) ∧
      ((session.receive acceptsPadding frame).reader = session.reader ∨
        (session.receive acceptsPadding frame).reader = .ended) := by
  unfold Session.receive
  split
  · unfold receiveClient
    rw [if_neg hc]
    repeat' split
    all_goals first
      | exact ⟨marked_of_eq rfl, .inl rfl⟩
      | exact ⟨marked_remove session _ _, .inl (remove_reader session _ _)⟩
      | exact ⟨marked_finish session, .inr (finish_reader session)⟩
  · unfold receiveServer
    rw [if_neg hc]
    repeat' split
    all_goals first
      | exact ⟨marked_of_eq rfl, .inl rfl⟩
      | exact ⟨marked_register session _, .inl (register_reader session _)⟩
      | exact ⟨marked_remove session _ _, .inl (remove_reader session _ _)⟩
      | exact ⟨marked_finish session, .inr (finish_reader session)⟩

theorem receive_push {acceptsPadding : Bytes → Bool} {session : Session} {frame : Frame}
    (hc : frame.command = CMD_PSH) :
    session.receive acceptsPadding frame = session.receivePush frame := by
  unfold Session.receive
  split
  · rw [receiveClient, if_pos hc]
  · rw [receiveServer, hc]
    rfl

theorem change_of_enqueue {session next : Session} {target : Nat} {data : Bytes} {found : Stream}
    (hr : session.reader = .delivering target data) (hf : session.streams[target]? = some found)
    (he : session.enqueue target data found = some next) {index : Nat} {stream : Stream}
    (hs : session.streams[index]? = some stream) :
    ∃ changed, next.streams[index]? = some changed ∧
      Change session (.action .enqueue) next index stream changed := by
  have hpush : ∀ index data, ¬session.PushesTo (.action .enqueue) index data :=
    not_pushesTo (by simp)
  have hquiet : ∀ reader : ReaderTask, reader = .idle → target ≠ index →
      pending reader index = pending session.reader index := by
    rintro reader rfl hne
    rw [hr]
    exact (if_neg hne).symm
  unfold Session.enqueue at he
  split at he
  · rename_i hdone
    obtain rfl := Option.some.inj he
    by_cases hne : target = index
    · subst hne
      obtain rfl : stream = found := Option.some.inj (hs.symm.trans hf)
      exact ⟨stream, hs, .discard data hr rfl rfl hdone⟩
    · exact ⟨stream, hs, .mark (.refl stream) (.inl (hquiet _ rfl hne)) (by simp [hr]) (hpush index)⟩
  · split at he
    · obtain rfl := Option.some.inj he
      by_cases hne : target = index
      · subst hne
        obtain rfl : stream = found := Option.some.inj (hs.symm.trans hf)
        exact ⟨_, by simp [hs], .enqueue data hr rfl rfl⟩
      · refine ⟨stream, by simp [hne, hs], ?_⟩
        exact .mark (.refl stream) (.inl (hquiet _ rfl hne)) (by simp [hr]) (hpush index)
    · cases he

-- Everything an event can do to a stream that is there.
theorem change_of_event {acceptsPadding : Bytes → Bool} {session next : Session} (event : Event)
    (he : session.event acceptsPadding event = some next) {index : Nat} {stream : Stream}
    (hs : session.streams[index]? = some stream) :
    ∃ changed, next.streams[index]? = some changed ∧
      Change session event next index stream changed := by
  cases event with
  | insert id =>
      simp only [Session.event] at he
      split at he
      · obtain rfl := Option.some.inj he
        exact change_of_marked (marked_register session id) (.inl (register_reader session id))
          (not_pushesTo (by simp)) hs
      · cases he
  | cancel =>
      simp only [Session.event] at he
      split at he
      · obtain rfl := Option.some.inj he
        have hm : session.Marked { session with
            streams := session.streams.map fun stream => { stream with cancelled := true } } :=
          marked_map rfl fun stream => ⟨rfl, rfl, rfl, rfl, rfl, rfl, fun hr => hr⟩
        exact change_of_marked hm (.inl rfl) (not_pushesTo (by simp)) hs
      · cases he
  | action action =>
      cases moves_of_step he with
      | receive frame hidle =>
          by_cases hc : frame.command = CMD_PSH
          · rw [receive_push hc]
            exact change_of_receivePush hidle hc hs
          · obtain ⟨hm, hreader⟩ := marked_receive hc
            refine change_of_marked hm hreader ?_ hs
            rintro target data ⟨other, he, hother, _⟩
            obtain rfl : frame = other := by simpa using he
            exact hc hother
      | enqueue hreader hfound hsent => exact change_of_enqueue hreader hfound hsent hs
      | close _ =>
          exact change_of_marked (marked_finish session) (.inr (finish_reader session))
            (not_pushesTo (by simp)) hs
      | clear _ _ =>
          exact change_of_marked (marked_clearStreams session) (.inl rfl) (not_pushesTo (by simp)) hs
      | closeOutgoing =>
          have hpush : ∀ index data, ¬session.PushesTo (.action .closeOutgoing) index data :=
            not_pushesTo (by simp)
          have hm : session.Marked { session with outgoingClosed := true } := marked_of_eq rfl
          exact change_of_marked hm (.inl rfl) hpush hs
      | openStream _ _ =>
          have hpush : ∀ index data, ¬session.PushesTo (.action .openStream) index data :=
            not_pushesTo (by simp)
          have hm : session.Marked { session.register session.nextStreamId with
              nextStreamId := session.nextStreamId + 1 } :=
            (marked_register session session.nextStreamId).trans (marked_of_eq rfl)
          exact change_of_marked hm (.inl (register_reader session session.nextStreamId)) hpush hs
      | @task target change found changed hfound hchange =>
          by_cases hne : target = index
          · subst hne
            obtain rfl : stream = found := Option.some.inj (hs.symm.trans hfound)
            have hlt := (List.getElem?_eq_some_iff.mp hs).1
            exact ⟨changed, List.getElem?_set_self hlt, .task change rfl rfl hchange⟩
          · refine ⟨stream, (List.getElem?_set_ne hne).trans hs, ?_⟩
            exact .mark (.refl stream) (.inl rfl) (fun hr => hr) (not_pushesTo (by simp) index)
      | @pumpRemove target found _ hfound _ =>
          have hm : session.Marked { session with
              streams := session.streams.set target { found with pump := .departing } } :=
            marked_set rfl hfound ⟨rfl, rfl, rfl, rfl, rfl, rfl, fun hr => hr⟩
          exact change_of_marked (hm.trans (marked_remove _ _ _)) (.inl (remove_reader _ _ _))
            (not_pushesTo (by simp)) hs
      | abandon _ _ _ =>
          exact change_of_marked (marked_remove session _ _) (.inl (remove_reader session _ _))
            (not_pushesTo (by simp)) hs

theorem ordered_of_change {session next : Session} {event : Event} {index : Nat}
    {stream changed : Stream} (h : stream.Ordered (session.reader ≠ .ended) (pending session.reader index))
    (hc : Change session event next index stream changed) :
    changed.Ordered (next.reader ≠ .ended) (pending next.reader index) := by
  cases hc with
  | mark hm hpending hrunning _ =>
      have hdone : changed.WriterDone ↔ stream.WriterDone := by
        simp only [Stream.WriterDone, hm.writer]
      have hheld : changed.held = stream.held := by
        simp only [Stream.held, Stream.unwritten, hm.delivered, hm.downlink, hm.incoming, hm.writer]
      refine ⟨?_, fun hb => ?_, fun hr hrun hb => ?_⟩
      · rw [hm.delivered, hm.downlink, hm.received]
        exact h.written
      · rw [hheld, hm.received]
        have hwaiting := h.waiting (mt hdone.mpr hb)
        obtain he | he := hpending
        · rwa [he]
        · rw [he]
          change stream.held ++ [] <+: stream.received
          rw [List.append_nil]
          exact (List.prefix_append _ _).trans hwaiting
      · obtain he | he := hpending
        · rw [hheld, hm.received, he]
          exact h.registered (hm.removed hr) (hrunning hrun) (mt hdone.mpr hb)
        · exact absurd he hrun
  | push data hidle hreader _ hregistered =>
      have hexact (hb : ¬stream.WriterDone) : stream.held = stream.received := by
        have hr := h.registered hregistered (by simp [hidle]) hb
        simpa [hidle, pending] using hr
      have hpending : pending next.reader index = data := by
        rw [hreader]
        exact if_pos rfl
      have hnext (hb : ¬stream.WriterDone) : stream.held ++ data = stream.received ++ data :=
        congrArg (· ++ data) (hexact hb)
      rw [hpending]
      refine ⟨h.written.trans (List.prefix_append _ _), fun hb => ?_, fun _ _ hb => hnext hb⟩
      exact (hnext hb).symm ▸ List.prefix_refl _
  | enqueue data hreader hidle _ =>
      have hpending : pending session.reader index = data := by
        rw [hreader]
        exact if_pos rfl
      have hheld : Stream.held { stream with incoming := stream.incoming ++ [data] } ++
          pending next.reader index = stream.held ++ pending session.reader index := by
        rw [hpending, hidle]
        simp [Stream.held, Stream.unwritten, pending]
      refine ⟨h.written, fun hb => ?_, fun hr _ hb => ?_⟩
      · rw [hheld]
        exact h.waiting hb
      · rw [hheld]
        exact h.registered hr (by simp [hreader]) hb
  | discard data _ _ _ hdone =>
      exact ⟨h.written, fun hb => absurd hdone hb, fun _ _ hb => absurd hdone hb⟩
  | task action hreader _ hs =>
      rw [hreader]
      exact h.carried (Stream.carried_of_step action hs)

-- A stream is registered while no frame is being delivered.
def Registers (session next : Session) : Prop :=
  ∃ id, next.streams = (session.register id).streams ∧ next.reader = session.reader ∧
    ∀ index data, session.reader ≠ .delivering index data

theorem remove_length (session : Session) (id : UInt32) (removal : Removal) :
    (session.remove id removal).streams.length = session.streams.length := by
  unfold Session.remove
  split
  · exact List.length_modify _ _ _
  · rfl

theorem finish_length (session : Session) : session.finish.streams.length = session.streams.length := by
  unfold Session.finish
  split
  · rfl
  · exact List.length_map _

theorem grows_of_receive (acceptsPadding : Bytes → Bool) {session : Session} (frame : Frame)
    (hidle : session.reader = .idle) :
    (session.receive acceptsPadding frame).streams.length = session.streams.length ∨
      session.Registers (session.receive acceptsPadding frame) := by
  have hpush : (session.receivePush frame).streams.length = session.streams.length := by
    unfold Session.receivePush
    split
    · exact List.length_modify _ _ _
    · rfl
  unfold Session.receive
  split
  · unfold receiveClient
    repeat' split
    all_goals first
      | exact .inl rfl
      | exact .inl hpush
      | exact .inl (remove_length session _ _)
      | exact .inl (finish_length session)
  · unfold receiveServer
    repeat' split
    all_goals first
      | exact .inl rfl
      | exact .inl hpush
      | exact .inr ⟨_, rfl, register_reader session _, by simp [hidle]⟩
      | exact .inl (remove_length session _ _)
      | exact .inl (finish_length session)

theorem grows_of_event {acceptsPadding : Bytes → Bool} {session next : Session} (event : Event)
    (he : session.event acceptsPadding event = some next) :
    next.streams.length = session.streams.length ∨ session.Registers next := by
  cases event with
  | insert id =>
      simp only [Session.event] at he
      split at he
      · rename_i hguard
        obtain rfl := Option.some.inj he
        exact .inr ⟨id, rfl, register_reader session id, isLocked_false hguard.2⟩
      · cases he
  | cancel =>
      simp only [Session.event] at he
      split at he
      · obtain rfl := Option.some.inj he
        exact .inl (List.length_map _)
      · cases he
  | action action =>
      cases moves_of_step he with
      | receive frame hidle => exact grows_of_receive acceptsPadding frame hidle
      | enqueue _ _ hsent =>
          unfold Session.enqueue at hsent
          repeat' split at hsent
          all_goals first
            | obtain rfl := Option.some.inj hsent
              simp
            | cases hsent
      | close _ => exact .inl (finish_length session)
      | clear _ _ => exact .inl (List.length_map _)
      | closeOutgoing => exact .inl rfl
      | openStream _ hlock =>
          exact .inr ⟨session.nextStreamId, rfl, register_reader session session.nextStreamId,
            isLocked_false hlock⟩
      | task _ _ => exact .inl List.length_set
      | pumpRemove _ _ _ => exact .inl ((remove_length _ _ _).trans List.length_set)
      | abandon _ _ _ => exact .inl (remove_length session _ _)

-- No two streams in the map have one id.
def Unique (session : Session) : Prop :=
  ∀ (first second : Nat) (stream other : Stream), session.streams[first]? = some stream →
    session.streams[second]? = some other → stream.removed = none → other.removed = none →
      stream.id = other.id → first = second

theorem lookup_of_registered {session : Session} (h : session.Unique) {index : Nat}
    {stream : Stream} (hs : session.streams[index]? = some stream) (hr : stream.removed = none) :
    session.lookup stream.id = some index := by
  obtain ⟨hlt, hget⟩ := List.getElem?_eq_some_iff.mp hs
  have hpass : (session.streams[index].id = stream.id && session.streams[index].removed.isNone) =
      true := by simp [hget, hr]
  cases hl : session.lookup stream.id with
  | none =>
      have hnone := List.findIdx?_eq_none_iff.mp hl _ (List.getElem_mem hlt)
      rw [hpass] at hnone
      cases hnone
  | some found =>
      obtain ⟨hfound, hp, _⟩ := List.findIdx?_eq_some_iff_getElem.mp hl
      simp only [Bool.and_eq_true, decide_eq_true_eq, Option.isNone_iff_eq_none] at hp
      have he := h found index _ stream (List.getElem?_eq_getElem hfound) hs hp.2 hr hp.1
      rw [he]

-- What a registration leaves in the map.
theorem register_streams {session : Session} (h : session.Unique) (id : UInt32) :
    (session.register id).streams.length = session.streams.length + 1 ∧
      (session.register id).streams[session.streams.length]? = some (Stream.new id) ∧
      ∀ (index : Nat) (stream : Stream), (session.register id).streams[index]? = some stream →
        index < session.streams.length → stream.id = id → stream.removed ≠ none := by
  unfold Session.register
  cases hl : session.lookup id with
  | none =>
      refine ⟨by simp, by simp, fun index stream hs hlt hid hr => ?_⟩
      simp only [List.getElem?_append_left hlt] at hs
      have hfound := lookup_of_registered h hs hr
      rw [hid, hl] at hfound
      cases hfound
  | some target =>
      refine ⟨by simp, by simp, fun index stream hs hlt hid hr => ?_⟩
      have hlen : index < (session.streams.modify target fun stream =>
          { stream with removed := some .replaced }).length := by simpa using hlt
      simp only [List.getElem?_append_left hlen, List.getElem?_modify, Option.map_eq_map,
        Option.map_eq_some_iff] at hs
      obtain ⟨old, hold, rfl⟩ := hs
      by_cases ht : target = index
      · rw [if_pos ht] at hr
        cases hr
      · rw [if_neg ht] at hid hr
        have hfound := lookup_of_registered h hold hr
        rw [hid, hl] at hfound
        exact ht (Option.some.inj hfound)

structure Isolated (session : Session) : Prop where
  ordered : ∀ (index : Nat) (stream : Stream), session.streams[index]? = some stream →
    stream.Ordered (session.reader ≠ .ended) (pending session.reader index)
  unique : session.Unique

theorem isolated_new (side : Side) : (new side).Isolated where
  ordered := by simp [new]
  unique := by simp [new, Unique]

theorem removed_of_change {session next : Session} {event : Event} {index : Nat}
    {stream changed : Stream} (hc : Change session event next index stream changed) :
    changed.id = stream.id ∧ (changed.removed = none → stream.removed = none) := by
  cases hc with
  | mark hm _ _ _ => exact ⟨hm.id, hm.removed⟩
  | push data _ _ _ _ => exact ⟨rfl, fun hr => hr⟩
  | enqueue data _ _ _ => exact ⟨rfl, fun hr => hr⟩
  | discard data _ _ _ _ => exact ⟨rfl, fun hr => hr⟩
  | task action _ _ hs =>
      have hc := Stream.carried_of_step action hs
      exact ⟨hc.id, fun hr => hc.removed ▸ hr⟩

-- An old stream of the next session is one that was there, changed.
theorem old_stream {acceptsPadding : Bytes → Bool} {session next : Session} {event : Event}
    (he : session.event acceptsPadding event = some next) {index : Nat} {changed : Stream}
    (hs : next.streams[index]? = some changed) (hlt : index < session.streams.length) :
    ∃ stream, session.streams[index]? = some stream ∧
      Change session event next index stream changed := by
  have hold := List.getElem?_eq_getElem hlt
  obtain ⟨found, hfound, hc⟩ := change_of_event event he hold
  obtain rfl : changed = found := Option.some.inj (hs.symm.trans hfound)
  exact ⟨_, hold, hc⟩

theorem Isolated.event {acceptsPadding : Bytes → Bool} {session next : Session} (event : Event)
    (h : session.Isolated) (he : session.event acceptsPadding event = some next) :
    next.Isolated := by
  have hunique : ∀ (first second : Nat) (stream other : Stream), next.streams[first]? = some stream →
      next.streams[second]? = some other → first < session.streams.length →
        second < session.streams.length → stream.removed = none → other.removed = none →
          stream.id = other.id → first = second := by
    intro first second stream other hs ho hfirst hsecond hr hor hid
    obtain ⟨before, hbefore, hc⟩ := old_stream he hs hfirst
    obtain ⟨previous, hprevious, hp⟩ := old_stream he ho hsecond
    obtain ⟨hcid, hcr⟩ := removed_of_change hc
    obtain ⟨hpid, hpr⟩ := removed_of_change hp
    exact h.unique first second before previous hbefore hprevious (hcr hr) (hpr hor)
      (by rw [← hcid, ← hpid, hid])
  obtain hlen | ⟨id, hn, hreader, hfree⟩ := grows_of_event event he
  · have hold : ∀ (index : Nat) (stream : Stream), next.streams[index]? = some stream →
        index < session.streams.length :=
      fun index stream hs => hlen ▸ (List.getElem?_eq_some_iff.mp hs).1
    refine ⟨fun index stream hs => ?_, fun first second stream other hs ho => ?_⟩
    · obtain ⟨before, hbefore, hc⟩ := old_stream he hs (hold index stream hs)
      exact ordered_of_change (h.ordered index before hbefore) hc
    · exact hunique first second stream other hs ho (hold first stream hs) (hold second other ho)
  · obtain ⟨hlen, hnew, hleft⟩ := register_streams h.unique id
    rw [← hn] at hlen hnew
    have hcases : ∀ (index : Nat) (stream : Stream), next.streams[index]? = some stream →
        index < session.streams.length ∨
          index = session.streams.length ∧ stream = Stream.new id := by
      intro index stream hs
      have hlt := (List.getElem?_eq_some_iff.mp hs).1
      by_cases hold : index < session.streams.length
      · exact .inl hold
      · obtain rfl : index = session.streams.length := by omega
        exact .inr ⟨rfl, Option.some.inj (hs.symm.trans hnew)⟩
    refine ⟨fun index stream hs => ?_, fun first second stream other hs ho hr hor hid => ?_⟩
    · obtain hold | ⟨rfl, rfl⟩ := hcases index stream hs
      · obtain ⟨before, hbefore, hc⟩ := old_stream he hs hold
        exact ordered_of_change (h.ordered index before hbefore) hc
      · rw [hreader, pending_of_unlocked hfree]
        exact Stream.ordered_new _ id
    · -- an old stream under the new id is out of the map
      obtain hfirst | ⟨rfl, rfl⟩ := hcases first stream hs
      · obtain hsecond | ⟨rfl, rfl⟩ := hcases second other ho
        · exact hunique first second stream other hs ho hfirst hsecond hr hor hid
        · exact absurd hr (hleft first stream (hn ▸ hs) hfirst hid)
      · obtain hsecond | ⟨rfl, _⟩ := hcases second other ho
        · exact absurd hor (hleft second other (hn ▸ ho) hsecond hid.symm)
        · rfl

theorem isolated_of_exec {acceptsPadding : Bytes → Bool} {session final : Session}
    (h : session.Isolated) (events : List Event)
    (he : Run.exec (event acceptsPadding) session events = some final) : final.Isolated :=
  Run.invariant (fun _ event _ h he => h.event event he) session events final h he

-- The payload of an event that is not a frame for the id is empty, and a frame for
-- a stream that is in the map reaches it.
theorem pushed_of_event {session : Session} (event : Event) (h : session.Unique) {index : Nat}
    {stream : Stream} (hs : session.streams[index]? = some stream) :
    pushed stream.id [event] = [] ∨
      session.PushesTo event index (pushed stream.id [event]) ∨ stream.removed ≠ none := by
  by_cases hr : stream.removed = none
  · have hl := lookup_of_registered h hs hr
    by_cases hf : ∃ frame, event = .action (.receive frame) ∧ frame.command = CMD_PSH ∧
        frame.streamId = stream.id
    · obtain ⟨frame, rfl, hc, hid⟩ := hf
      refine .inr (.inl ⟨frame, rfl, hc, hid ▸ hl, ?_⟩)
      simp [pushed, hc, hid]
    · refine .inl ?_
      unfold pushed
      simp only [List.flatMap_cons, List.flatMap_nil, List.append_nil]
      split
      · rename_i frame
        exact if_neg fun hcid => hf ⟨frame, rfl, hcid⟩
      · rfl
  · exact .inr (.inr hr)

theorem lookup_id {session : Session} {id : UInt32} {index : Nat} {stream : Stream}
    (hl : session.lookup id = some index) (hs : session.streams[index]? = some stream) :
    stream.id = id := by
  obtain ⟨hlt, hp, _⟩ := List.findIdx?_eq_some_iff_getElem.mp hl
  obtain rfl : session.streams[index] = stream :=
    Option.some.inj ((List.getElem?_eq_getElem hlt).symm.trans hs)
  simp only [Bool.and_eq_true, decide_eq_true_eq] at hp
  exact hp.1

theorem pushed_of_pushesTo {session : Session} {event : Event} {index : Nat} {data : Bytes}
    {stream : Stream} (hs : session.streams[index]? = some stream)
    (hp : session.PushesTo event index data) : pushed stream.id [event] = data := by
  obtain ⟨frame, rfl, hc, hl, rfl⟩ := hp
  have hid : stream.id = frame.streamId := lookup_id hl hs
  simp [pushed, hc, hid]

-- What the stream at `index` has received so far is counted in `before`: all of it
-- while the stream is in the map.
structure Counted (stream : Stream) (before : Bytes) : Prop where
  received : stream.received <+: before
  registered : stream.removed = none → stream.received = before

theorem counted_of_event {acceptsPadding : Bytes → Bool} {session next : Session} {event : Event}
    (h : session.Isolated) (he : session.event acceptsPadding event = some next) {index : Nat}
    {stream : Stream} (hs : session.streams[index]? = some stream) {before : Bytes}
    (hcounted : Counted stream before) :
    ∃ changed, next.streams[index]? = some changed ∧ changed.id = stream.id ∧
      Counted changed (before ++ pushed stream.id [event]) := by
  obtain ⟨changed, hchanged, hc⟩ := change_of_event event he hs
  obtain ⟨hid, hremoved⟩ := removed_of_change hc
  refine ⟨changed, hchanged, hid, ?_⟩
  -- a change that receives nothing
  have hquiet (hreceived : changed.received = stream.received)
      (hnone : stream.removed = none → pushed stream.id [event] = []) :
      Counted changed (before ++ pushed stream.id [event]) := by
    refine ⟨?_, fun hr => ?_⟩
    · exact hreceived ▸ hcounted.received.trans (List.prefix_append _ _)
    · rw [hreceived, hnone (hremoved hr), List.append_nil]
      exact hcounted.registered (hremoved hr)
  cases hc with
  | mark hm _ _ hpush =>
      refine hquiet hm.received fun hr => ?_
      obtain hempty | hp | hgone := pushed_of_event event h.unique hs
      · exact hempty
      · exact absurd hp (hpush _)
      · exact absurd hr hgone
  | push data _ _ hpush hregistered =>
      rw [pushed_of_pushesTo hs hpush, ← hcounted.registered hregistered]
      exact ⟨List.prefix_refl _, fun _ => rfl⟩
  | enqueue data _ _ hevent => exact hquiet rfl fun _ => by rw [hevent]; rfl
  | discard data _ _ hevent _ => exact hquiet rfl fun _ => by rw [hevent]; rfl
  | task action _ hevent hstep =>
      exact hquiet (Stream.carried_of_step action hstep).received fun _ => by rw [hevent]; rfl

theorem pushed_cons (id : UInt32) (event : Event) (events : List Event) :
    pushed id (event :: events) = pushed id [event] ++ pushed id events := by
  simp [pushed]

theorem counted_of_exec {acceptsPadding : Bytes → Bool} {session final : Session}
    (h : session.Isolated) {events : List Event}
    (he : Run.exec (event acceptsPadding) session events = some final) {index : Nat}
    {stream : Stream} (hs : session.streams[index]? = some stream) {before : Bytes}
    (hcounted : Counted stream before) :
    ∃ changed, final.streams[index]? = some changed ∧ changed.id = stream.id ∧
      Counted changed (before ++ pushed stream.id events) := by
  induction events generalizing session stream before with
  | nil =>
      obtain rfl : session = final := by simpa [Run.exec] using he
      exact ⟨stream, hs, rfl, by simpa [pushed] using hcounted⟩
  | cons first rest ih =>
      obtain ⟨next, hn, hrest⟩ := Option.bind_eq_some_iff.mp he
      obtain ⟨mid, hmid, hid, hcm⟩ := counted_of_event h hn hs hcounted
      obtain ⟨changed, hchanged, hcid, hcc⟩ := ih (h.event first hn) hrest hmid hcm
      refine ⟨changed, hchanged, hcid.trans hid, ?_⟩
      rw [pushed_cons, ← List.append_assoc, ← hid]
      exact hid ▸ hcc

-- Whatever the tasks of a session do in whatever order: a stream's consumer is
-- given a prefix of the payloads received for its id since it was registered.
theorem delivered_of_registered {acceptsPadding : Bytes → Bool} (side : Side)
    (front : List Event) (registration : Event) (back : List Event) {before after final : Session}
    (hfront : Run.exec (event acceptsPadding) (new side) front = some before)
    (hregistration : before.event acceptsPadding registration = some after)
    (hadded : after.streams.length = before.streams.length + 1)
    (hback : Run.exec (event acceptsPadding) after back = some final) {stream : Stream}
    (hs : final.streams[before.streams.length]? = some stream) :
    stream.delivered <+: pushed stream.id back := by
  have hbefore := isolated_of_exec (isolated_new side) front hfront
  have hafter := hbefore.event registration hregistration
  obtain hlen | ⟨id, hn, _, _⟩ := grows_of_event registration hregistration
  · omega
  obtain ⟨_, hnew, _⟩ := register_streams hbefore.unique id
  rw [← hn] at hnew
  have hempty : Counted (Stream.new id) [] := ⟨List.prefix_refl _, fun _ => rfl⟩
  obtain ⟨changed, hchanged, hid, hcounted⟩ := counted_of_exec hafter hback hnew hempty
  obtain rfl : stream = changed := Option.some.inj (hs.symm.trans hchanged)
  have hordered := (isolated_of_exec hafter back hback).ordered _ stream hs
  have hdelivered : stream.delivered <+: stream.received :=
    (List.prefix_append _ _).trans hordered.written
  rw [hid]
  exact hdelivered.trans hcounted.received

-- Two streams of a server's session. The frames of the first one are received
-- before, between and after those of the second, which is read half-way.
private def twoStreams : List Event :=
  [.action (.receive ⟨CMD_PSH, 1, [1, 2]⟩), .action .enqueue,
    .action (.receive ⟨CMD_PSH, 2, [3, 4]⟩), .action .enqueue,
    .action (.receive ⟨CMD_PSH, 1, [5]⟩), .action (.task 1 .take), .action .enqueue,
    .action (.task 1 (.write 2)), .action (.task 0 .take),
    .action (.receive ⟨CMD_PSH, 2, [6]⟩), .action (.task 1 (.read 1)), .action .enqueue]

theorem delivered_of_registered_twoStreams :
    ∃ before after final stream,
      Run.exec (event fun _ => true) (new .server)
        [.action (.receive ⟨CMD_SETTINGS, 0, []⟩), .action (.receive ⟨CMD_SYN, 1, []⟩)] =
          some before ∧
      before.event (fun _ => true) (.action (.receive ⟨CMD_SYN, 2, []⟩)) = some after ∧
      after.streams.length = before.streams.length + 1 ∧
      Run.exec (event fun _ => true) after twoStreams = some final ∧
      final.streams[before.streams.length]? = some stream ∧
      stream.delivered = [3] ∧ stream.delivered <+: pushed stream.id twoStreams := by
  have hrun : ∃ before after final stream,
      Run.exec (event fun _ => true) (new .server)
        [.action (.receive ⟨CMD_SETTINGS, 0, []⟩), .action (.receive ⟨CMD_SYN, 1, []⟩)] =
          some before ∧
      before.event (fun _ => true) (.action (.receive ⟨CMD_SYN, 2, []⟩)) = some after ∧
      after.streams.length = before.streams.length + 1 ∧
      Run.exec (event fun _ => true) after twoStreams = some final ∧
      final.streams[before.streams.length]? = some stream ∧ stream.delivered = [3] :=
    ⟨_, _, _, _, rfl, rfl, rfl, rfl, rfl, rfl⟩
  obtain ⟨before, after, final, stream, hfront, hregistration, hadded, hback, hs, hread⟩ := hrun
  refine ⟨before, after, final, stream, hfront, hregistration, hadded, hback, hs, hread, ?_⟩
  exact delivered_of_registered .server _ _ twoStreams hfront hregistration hadded hback hs

end Session

end SingBox.AnyTls
