import SingBox.AnyTls.Session

namespace SingBox.AnyTls

open Library

namespace Stream

-- Received bytes that have not reached the duplex.
def unwritten (stream : Stream) : Bytes :=
  (match stream.writer with
    | .writing rest => rest
    | _ => []) ++ stream.incoming.flatten

-- Received bytes, from those the consumer has been given to the queue's last.
def held (stream : Stream) : Bytes :=
  stream.delivered ++ stream.downlink ++ stream.unwritten

-- The writer has left its loop, one way or the other.
def WriterDone (stream : Stream) : Prop := stream.writer = .finished ∨ stream.writer = .cancelled

-- What holds of a stream while `pending` is what the reader is still delivering
-- to it and `running` tells that the session goes on.
structure Accounted (running : Prop) (pending : Bytes) (stream : Stream) : Prop where
  ended : stream.consumer = .ended → stream.downlink = [] ∧ stream.WriterDone
  registered : stream.removed = none → running →
    stream.cancelled = false ∧ stream.writer ≠ .cancelled ∧
      (stream.consumer ≠ .dropped → ¬stream.WriterDone ∧ stream.held ++ pending = stream.received)
  removedByFin : stream.removed = some .fin → stream.consumer ≠ .dropped →
    stream.held = stream.received ∧ (stream.WriterDone → stream.unwritten = [])

-- The branch of the `select!` that drops the writer is taken with nothing left
-- to write, if the stream was removed by a FIN and has a consumer.
def DropsNothing (stream : Stream) : Prop :=
  stream.removed = some .fin → stream.consumer ≠ .dropped → stream.unwritten = []

theorem Accounted.of_busy {running : Prop} {pending : Bytes} {stream next : Stream}
    (h : stream.Accounted running pending) (hremoved : next.removed = stream.removed)
    (hcancelled : next.cancelled = stream.cancelled) (hconsumer : next.consumer = stream.consumer)
    (hreceived : next.received = stream.received) (hheld : next.held = stream.held)
    (hbusy : ¬stream.WriterDone) (hstill : ¬next.WriterDone) : next.Accounted running pending where
  ended hc := absurd (h.ended (hconsumer ▸ hc)).2 hbusy
  registered hr hrun := by
    obtain ⟨hc, _, hk⟩ := h.registered (hremoved ▸ hr) hrun
    refine ⟨hcancelled.trans hc, fun hw => hstill (.inr hw), fun hd => ⟨hstill, ?_⟩⟩
    rw [hheld, hreceived]
    exact (hk (hconsumer ▸ hd)).2
  removedByFin hr hd := by
    refine ⟨?_, fun hdone => absurd hdone hstill⟩
    rw [hheld, hreceived]
    exact (h.removedByFin (hremoved ▸ hr) (hconsumer ▸ hd)).1

private theorem not_writerDone_receiving {stream : Stream} (hw : stream.writer = .receiving) :
    ¬stream.WriterDone := by simp [WriterDone, hw]

private theorem not_writerDone_writing {stream : Stream} {rest : Bytes}
    (hw : stream.writer = .writing rest) : ¬stream.WriterDone := by simp [WriterDone, hw]

-- The steps of the writer.
theorem Accounted.take {running : Prop} {pending : Bytes} {outgoingClosed : Bool}
    {stream next : Stream} (h : stream.Accounted running pending)
    (hs : stream.step outgoingClosed .take = some next) : next.Accounted running pending := by
  simp only [step] at hs
  split at hs
  · rename_i data rest hw hin
    obtain rfl := Option.some.inj hs
    refine h.of_busy rfl rfl rfl rfl ?_ (not_writerDone_receiving hw)
      (not_writerDone_writing rfl)
    simp [held, unwritten, hw, hin]
  · cases hs

theorem Accounted.write {running : Prop} {pending : Bytes} {outgoingClosed : Bool}
    {stream next : Stream} (count : Nat) (h : stream.Accounted running pending)
    (hs : stream.step outgoingClosed (.write count) = some next) :
    next.Accounted running pending := by
  simp only [step] at hs
  split at hs
  · rename_i rest hw
    split at hs
    · obtain rfl := Option.some.inj hs
      by_cases hdrop : rest.drop count = []
      · have hrest : rest.take count = rest := by
          simpa [hdrop] using List.take_append_drop count rest
        refine h.of_busy rfl rfl rfl rfl ?_ (not_writerDone_writing hw)
          (not_writerDone_receiving (if_pos hdrop))
        simp [held, unwritten, hw, hdrop, hrest]
      · refine h.of_busy rfl rfl rfl rfl ?_ (not_writerDone_writing hw)
          (not_writerDone_writing (if_neg hdrop))
        have hrest : rest.take count ++ rest.drop count = rest := List.take_append_drop count rest
        simp only [held, unwritten, hw, hdrop, if_false, List.append_assoc]
        rw [← List.append_assoc (rest.take count), hrest]
    · cases hs
  · cases hs

theorem Accounted.fail {running : Prop} {pending : Bytes} {outgoingClosed : Bool}
    {stream next : Stream} (h : stream.Accounted running pending)
    (hs : stream.step outgoingClosed .fail = some next) : next.Accounted running pending := by
  simp only [step] at hs
  split at hs
  · split at hs
    · rename_i hdropped
      obtain rfl := Option.some.inj hs
      refine ⟨fun hc => ?_, fun hr hrun => ⟨(h.registered hr hrun).1, by simp, fun hd => ?_⟩,
        fun _ hd => ?_⟩
      · simp [hdropped.1] at hc
      · exact absurd hdropped.1 hd
      · exact absurd hdropped.1 hd
    · cases hs
  · cases hs

theorem Accounted.finish {running : Prop} {pending : Bytes} {outgoingClosed : Bool}
    {stream next : Stream} (h : stream.Accounted running pending)
    (hs : stream.step outgoingClosed .finish = some next) : next.Accounted running pending := by
  simp only [step] at hs
  split at hs
  · rename_i hguard
    obtain ⟨hw, hin, hr⟩ := hguard
    obtain rfl := Option.some.inj hs
    have hempty : stream.unwritten = [] := by simp [unwritten, hw, hin]
    refine ⟨fun hc => ⟨(h.ended hc).1, .inl rfl⟩, fun hnone => absurd hnone hr, fun hf hd => ?_⟩
    have hheld := (h.removedByFin hf hd).1
    simp only [held, hempty] at hheld
    refine ⟨?_, fun _ => by simp [unwritten, hin]⟩
    simpa [held, unwritten, hin] using hheld
  · cases hs

theorem Accounted.cancelled {running : Prop} {pending : Bytes} {outgoingClosed : Bool}
    {stream next : Stream} (h : stream.Accounted running pending) (hc : stream.DropsNothing)
    (hs : stream.step outgoingClosed .cancelled = some next) : next.Accounted running pending := by
  have hnext : stream.cancelled = true ∧ next = { stream with writer := .cancelled } := by
    simp only [step] at hs
    split at hs
    all_goals
      first
      | cases hs
      | split at hs
        · exact ⟨by assumption, (Option.some.inj hs).symm⟩
        · cases hs
  obtain ⟨htoken, rfl⟩ := hnext
  refine ⟨fun hended => ⟨(h.ended hended).1, .inr rfl⟩, fun hnone hrun => ?_, fun hf hd => ?_⟩
  · exact absurd ((h.registered hnone hrun).1) (by simp [htoken])
  · have hempty := hc hf hd
    have hheld := (h.removedByFin hf hd).1
    have hin : stream.incoming.flatten = [] := (List.append_eq_nil_iff.mp hempty).2
    simp only [held, hempty] at hheld
    exact ⟨by simpa [held, unwritten, hin] using hheld, fun _ => by simpa [unwritten] using hin⟩

-- The steps of the consumer.
theorem Accounted.read {running : Prop} {pending : Bytes} {outgoingClosed : Bool}
    {stream next : Stream} (count : Nat) (h : stream.Accounted running pending)
    (hs : stream.step outgoingClosed (.read count) = some next) :
    next.Accounted running pending := by
  simp only [step] at hs
  split at hs
  · rename_i hguard
    obtain rfl := Option.some.inj hs
    have hheld : { stream with
        delivered := stream.delivered ++ stream.downlink.take count
        downlink := stream.downlink.drop count }.held = stream.held := by
      simp [held, unwritten]
    refine ⟨fun hc => ?_, fun hr hrun => ?_, fun hf hd => ?_⟩
    · simp [hguard.1] at hc
    · rw [hheld]
      exact h.registered hr hrun
    · rw [hheld]
      exact h.removedByFin hf hd
  · cases hs

theorem Accounted.readEnd {running : Prop} {pending : Bytes} {outgoingClosed : Bool}
    {stream next : Stream} (h : stream.Accounted running pending)
    (hs : stream.step outgoingClosed .readEnd = some next) : next.Accounted running pending := by
  simp only [step] at hs
  split at hs
  · rename_i hguard
    obtain ⟨hreading, hempty, hclosed⟩ := hguard
    obtain rfl := Option.some.inj hs
    have hdone : stream.WriterDone := by
      simp only [downlinkClosed, Bool.or_eq_true, Bool.and_eq_true, decide_eq_true_eq] at hclosed
      exact hclosed.imp (fun h => h) And.left
    have hd : stream.consumer ≠ .dropped := by simp [hreading]
    refine ⟨fun _ => ⟨hempty, hdone⟩, fun hr hrun => ?_, fun hf _ => h.removedByFin hf hd⟩
    obtain ⟨hc, hw, hk⟩ := h.registered hr hrun
    exact ⟨hc, hw, fun _ => hk hd⟩
  · cases hs

theorem Accounted.drop {running : Prop} {pending : Bytes} {outgoingClosed : Bool}
    {stream next : Stream} (h : stream.Accounted running pending)
    (hs : stream.step outgoingClosed .drop = some next) : next.Accounted running pending := by
  simp only [step] at hs
  split at hs
  · obtain rfl := Option.some.inj hs
    refine ⟨fun hc => by simp at hc, fun hr hrun => ?_, fun _ hd => by simp at hd⟩
    obtain ⟨hc, hw, _⟩ := h.registered hr hrun
    exact ⟨hc, hw, fun hd => by simp at hd⟩
  · cases hs

theorem Accounted.step {running : Prop} {pending : Bytes} {outgoingClosed : Bool}
    {stream next : Stream} (action : Step) (h : stream.Accounted running pending)
    (hc : action = .cancelled → stream.DropsNothing)
    (hs : stream.step outgoingClosed action = some next) : next.Accounted running pending := by
  cases action with
  | take => exact h.take hs
  | write count => exact h.write count hs
  | fail => exact h.fail hs
  | finish => exact h.finish hs
  | cancelled => exact h.cancelled (hc rfl) hs
  | read count => exact h.read count hs
  | readEnd => exact h.readEnd hs
  | drop => exact h.drop hs
  -- the other steps touch nothing that is accounted for
  | shutdown | leave | depart =>
      simp only [Stream.step] at hs
      split at hs
      · obtain rfl := Option.some.inj hs
        exact ⟨h.ended, h.registered, h.removedByFin⟩
      · cases hs

end Stream

namespace Session

-- What the reader is still delivering to a stream.
def pending (reader : ReaderTask) (index : Nat) : Bytes :=
  match reader with
  | .delivering target data => if target = index then data else []
  | _ => []

structure Accounted (session : Session) : Prop where
  streams : ∀ (index : Nat) (stream : Stream), session.streams[index]? = some stream →
    stream.Accounted (session.reader ≠ .ended) (pending session.reader index)
  target : ∀ index data, session.reader = .delivering index data →
    ∃ stream, session.streams[index]? = some stream ∧ stream.removed = none

-- Whenever a writer is dropped, nothing of what it has to write is lost.
def DropsNothing (session : Session) : Action → Prop
  | .task index .cancelled =>
      ∀ stream, session.streams[index]? = some stream → stream.DropsNothing
  | _ => True

theorem accounted_new (side : Side) : (new side).Accounted where
  streams := by simp [new]
  target := by simp [new]

theorem lookup_some {session : Session} {id : UInt32} {index : Nat}
    (h : session.lookup id = some index) :
    ∃ stream, session.streams[index]? = some stream ∧ stream.removed = none := by
  obtain ⟨hlt, hp, _⟩ := List.findIdx?_eq_some_iff_getElem.mp h
  refine ⟨_, List.getElem?_eq_getElem hlt, ?_⟩
  simp only [Bool.and_eq_true, Option.isNone_iff_eq_none] at hp
  exact hp.2

theorem isLocked_false {session : Session} (h : session.isLocked = false) :
    ∀ index data, session.reader ≠ .delivering index data := by
  intro index data he
  simp [isLocked, he] at h

theorem pending_of_unlocked {reader : ReaderTask}
    (h : ∀ index data, reader ≠ .delivering index data) (index : Nat) : pending reader index = [] := by
  cases reader with
  | delivering target data => exact absurd rfl (h target data)
  | idle => rfl
  | ended => rfl

-- A change of one stream.
theorem Accounted.modify {session : Session} {index : Nat} {change : Stream → Stream}
    (h : session.Accounted) (hfree : ∀ index data, session.reader ≠ .delivering index data)
    (hc : ∀ stream, session.streams[index]? = some stream →
      stream.Accounted (session.reader ≠ .ended) [] →
      (change stream).Accounted (session.reader ≠ .ended) []) :
    { session with streams := session.streams.modify index change }.Accounted where
  streams other stream hs := by
    simp only [List.getElem?_modify, Option.map_eq_map, Option.map_eq_some_iff] at hs
    obtain ⟨old, hold, rfl⟩ := hs
    have ha := h.streams other old hold
    rw [pending_of_unlocked hfree] at ha ⊢
    split
    · rename_i he
      subst he
      exact hc old hold ha
    · exact ha
  target other data he := absurd he (hfree other data)

-- A FIN finds the stream with everything received held; another removal is not
-- spoken about.
theorem Accounted.remove {session : Session} (id : UInt32) (removal : Removal)
    (h : session.Accounted) (hfree : ∀ index data, session.reader ≠ .delivering index data)
    (hfin : removal = .fin → session.reader ≠ .ended) : (session.remove id removal).Accounted := by
  unfold Session.remove
  split
  · rename_i index hl
    obtain ⟨stream, hs, hr⟩ := lookup_some hl
    refine h.modify hfree fun found hf ha => ?_
    obtain rfl : stream = found := Option.some.inj (hs.symm.trans hf)
    refine ⟨ha.ended, fun hnone => by simp at hnone, fun hremoved hd => ?_⟩
    obtain ⟨_, _, hk⟩ := ha.registered hr (hfin (Option.some.inj hremoved))
    obtain ⟨hbusy, hheld⟩ := hk hd
    rw [List.append_nil] at hheld
    exact ⟨hheld, fun hdone => absurd hdone hbusy⟩
  · exact h

theorem accounted_newStream (running : Prop) (id : UInt32) :
    (Stream.new id).Accounted running [] where
  ended hc := by simp [Stream.new] at hc
  registered _ _ := by simp [Stream.new, Stream.WriterDone, Stream.held, Stream.unwritten]
  removedByFin hr := by simp [Stream.new] at hr

theorem Accounted.register {session : Session} (id : UInt32) (h : session.Accounted)
    (hfree : ∀ index data, session.reader ≠ .delivering index data) :
    (session.register id).Accounted := by
  have happend : ∀ changed : Session, changed.Accounted → changed.reader = session.reader →
      { changed with streams := changed.streams ++ [Stream.new id] }.Accounted := by
    intro changed ha hr
    refine ⟨fun index stream hs => ?_, fun index data he => absurd (hr ▸ he) (hfree index data)⟩
    rw [List.getElem?_append] at hs
    split at hs
    · exact ha.streams index stream hs
    · obtain rfl : stream = Stream.new id := by
        simpa using List.mem_of_getElem? hs
      rw [pending_of_unlocked (hr ▸ hfree)]
      exact accounted_newStream _ id
  unfold Session.register
  split
  · rename_i index hl
    refine happend _ (h.modify hfree fun stream _ ha => ?_) rfl
    exact ⟨ha.ended, fun hnone => by simp at hnone, fun hf => by simp at hf⟩
  · exact happend session h rfl

theorem Accounted.finish {session : Session} (h : session.Accounted) : session.finish.Accounted := by
  unfold Session.finish
  split
  · exact ⟨fun index stream hs => ⟨(h.streams index stream hs).ended, fun _ hr => absurd rfl hr,
      (h.streams index stream hs).removedByFin⟩, by simp⟩
  · refine ⟨fun index stream hs => ?_, by simp⟩
    simp only [List.getElem?_map, Option.map_eq_some_iff] at hs
    obtain ⟨old, hold, rfl⟩ := hs
    have ha := h.streams index old hold
    exact ⟨ha.ended, fun _ hr => absurd rfl hr, ha.removedByFin⟩

theorem Accounted.clearStreams {session : Session} (h : session.Accounted)
    (hunlocked : ∀ index data, session.reader ≠ .delivering index data) :
    session.clearStreams.Accounted := by
  refine ⟨fun index stream hs => ?_, fun index data he => absurd he (hunlocked index data)⟩
  simp only [Session.clearStreams, List.getElem?_map, Option.map_eq_some_iff] at hs
  obtain ⟨old, hold, rfl⟩ := hs
  have ha := h.streams index old hold
  split
  · exact ⟨ha.ended, fun hnone => by simp at hnone, fun hf => by simp at hf⟩
  · exact ha

theorem Accounted.receivePush {session : Session} (frame : Frame) (h : session.Accounted)
    (hidle : session.reader = .idle) : (session.receivePush frame).Accounted := by
  unfold Session.receivePush
  split
  · rename_i index hl
    obtain ⟨stream, hs, hr⟩ := lookup_some hl
    refine ⟨fun other next hn => ?_, fun other data he => ?_⟩
    · simp only [List.getElem?_modify, Option.map_eq_map, Option.map_eq_some_iff] at hn
      obtain ⟨old, hold, rfl⟩ := hn
      have ha := h.streams other old hold
      simp only [hidle, pending] at ha ⊢
      split
      · rename_i he
        subst he
        obtain rfl : stream = old := Option.some.inj (hs.symm.trans hold)
        refine ⟨ha.ended, fun _ _ => ?_, fun hf => by simp [hr] at hf⟩
        obtain ⟨hc, hw, hk⟩ := ha.registered hr (by simp)
        refine ⟨hc, hw, fun hd => ⟨(hk hd).1, ?_⟩⟩
        have hheld := (hk hd).2
        rw [List.append_nil] at hheld
        exact congrArg (· ++ frame.data) hheld
      · exact ⟨ha.ended, fun hnone _ => ha.registered hnone (by simp), ha.removedByFin⟩
    · obtain ⟨rfl, rfl⟩ : index = other ∧ frame.data = data := by simpa using he
      exact ⟨{ stream with received := stream.received ++ frame.data }, by simp [hs], hr⟩
  · exact h

theorem Accounted.receive {session : Session} (acceptsPadding : Bytes → Bool) (frame : Frame)
    (h : session.Accounted) (hidle : session.reader = .idle) :
    (session.receive acceptsPadding frame).Accounted := by
  have hfree : ∀ index data, session.reader ≠ .delivering index data := by simp [hidle]
  have hfin : Removal.fin = .fin → session.reader ≠ .ended := by simp [hidle]
  unfold Session.receive
  split
  · unfold receiveClient
    repeat' split
    all_goals first
      | exact h
      | exact h.receivePush frame hidle
      | exact h.remove _ _ hfree hfin
      | exact h.finish
  · unfold receiveServer
    repeat' split
    all_goals first
      | exact h
      | exact ⟨h.streams, h.target⟩
      | exact h.register _ hfree
      | exact h.receivePush frame hidle
      | exact h.remove _ _ hfree hfin
      | exact h.finish

theorem Accounted.enqueue {session next : Session} {index : Nat} {data : Bytes} {stream : Stream}
    (h : session.Accounted) (hr : session.reader = .delivering index data)
    (hs : session.streams[index]? = some stream)
    (he : session.enqueue index data stream = some next) : next.Accounted := by
  obtain ⟨found, hf, hnone⟩ := h.target index data hr
  obtain rfl : stream = found := Option.some.inj (hs.symm.trans hf)
  have hstream := h.streams index stream hs
  have hrun : session.reader ≠ .ended := by simp [hr]
  obtain ⟨hc, hw, hk⟩ := hstream.registered hnone hrun
  simp only [hr, pending, if_true] at hk
  -- the other streams are delivered nothing before and after
  have hother : ∀ other old, session.streams[other]? = some old → other ≠ index →
      old.Accounted (ReaderTask.idle ≠ .ended) [] := by
    intro other old hold hne
    have ha := h.streams other old hold
    simp only [hr, pending, if_neg (Ne.symm hne)] at ha
    exact ⟨ha.ended, fun hnone _ => ha.registered hnone (by simp), ha.removedByFin⟩
  unfold Session.enqueue at he
  split at he
  · rename_i hdone
    obtain rfl := Option.some.inj he
    refine ⟨fun other old hold => ?_, by simp⟩
    by_cases hne : other = index
    · subst hne
      obtain rfl : stream = old := Option.some.inj (hs.symm.trans hold)
      exact ⟨hstream.ended, fun _ _ => ⟨hc, hw, fun hd => absurd hdone (hk hd).1⟩,
        fun hf => by simp [hnone] at hf⟩
    · exact hother other old hold hne
  · split at he
    · obtain rfl := Option.some.inj he
      refine ⟨fun other old hold => ?_, by simp⟩
      simp only [List.getElem?_modify, Option.map_eq_map, Option.map_eq_some_iff] at hold
      obtain ⟨before, hbefore, rfl⟩ := hold
      split
      · rename_i heq
        subst heq
        obtain rfl : stream = before := Option.some.inj (hs.symm.trans hbefore)
        refine ⟨hstream.ended, fun _ _ => ⟨hc, hw, fun hd => ⟨(hk hd).1, ?_⟩⟩,
          fun hf => by simp [hnone] at hf⟩
        have hheld := (hk hd).2
        simp only [pending, List.append_nil]
        simpa [Stream.held, Stream.unwritten] using hheld
      · rename_i hne
        exact hother other before hbefore (Ne.symm hne)
    · cases he

theorem removed_of_step {outgoingClosed : Bool} {stream next : Stream} (action : Stream.Step)
    (h : stream.step outgoingClosed action = some next) : next.removed = stream.removed := by
  cases action <;> simp only [Stream.step] at h
  all_goals
    repeat' split at h
    all_goals cases h <;> rfl

theorem Accounted.set {session : Session} {index : Nat} {stream next : Stream}
    (h : session.Accounted) (hs : session.streams[index]? = some stream)
    (hr : next.removed = stream.removed)
    (hn : next.Accounted (session.reader ≠ .ended) (pending session.reader index)) :
    { session with streams := session.streams.set index next }.Accounted := by
  have hlt : index < session.streams.length := (List.getElem?_eq_some_iff.mp hs).1
  refine ⟨fun other old hold => ?_, fun other data he => ?_⟩
  · by_cases he : index = other
    · subst he
      rw [List.getElem?_set_self hlt] at hold
      exact Option.some.inj hold ▸ hn
    · rw [List.getElem?_set_ne he] at hold
      exact h.streams other old hold
  · obtain ⟨found, hf, hnone⟩ := h.target other data he
    by_cases he : index = other
    · subst he
      obtain rfl : stream = found := Option.some.inj (hs.symm.trans hf)
      exact ⟨next, List.getElem?_set_self hlt, hr.trans hnone⟩
    · exact ⟨found, (List.getElem?_set_ne he).trans hf, hnone⟩

-- What a step makes of the session, and what allows it.
inductive Moves (acceptsPadding : Bytes → Bool) (session : Session) : Action → Session → Prop where
  | receive (frame : Frame) (hidle : session.reader = .idle) :
      Moves acceptsPadding session (.receive frame) (session.receive acceptsPadding frame)
  | enqueue {index : Nat} {data : Bytes} {stream : Stream} {next : Session}
      (hreader : session.reader = .delivering index data)
      (hstream : session.streams[index]? = some stream)
      (hsent : session.enqueue index data stream = some next) :
      Moves acceptsPadding session .enqueue next
  | close (hguard : session.reader = .idle ∨ (session.side = .server ∧ session.reader ≠ .ended)) :
      Moves acceptsPadding session .close session.finish
  | clear (hside : session.side = .client) (hlock : session.isLocked = false) :
      Moves acceptsPadding session .clear session.clearStreams
  | closeOutgoing :
      Moves acceptsPadding session .closeOutgoing { session with outgoingClosed := true }
  | openStream (hside : session.side = .client) (hlock : session.isLocked = false) :
      Moves acceptsPadding session .openStream
        { session.register session.nextStreamId with nextStreamId := session.nextStreamId + 1 }
  | task {target : Nat} {change : Stream.Step} {stream changed : Stream}
      (hstream : session.streams[target]? = some stream)
      (hchange : stream.step session.outgoingClosed change = some changed) :
      Moves acceptsPadding session (.task target change)
        { session with streams := session.streams.set target changed }
  | pumpRemove {target : Nat} {stream : Stream} (hlock : session.isLocked = false)
      (hstream : session.streams[target]? = some stream) (hpump : stream.pump = .leaving) :
      Moves acceptsPadding session (.pumpRemove target)
        ({ session with streams := session.streams.set target { stream with pump := .departing } }.remove
          stream.id .here)
  | abandon {target : Nat} {stream : Stream} (hlock : session.isLocked = false)
      (hstream : session.streams[target]? = some stream)
      (hdone : session.side = .client ∨ stream.consumer = .dropped) :
      Moves acceptsPadding session (.abandon target) (session.remove stream.id .here)

theorem moves_of_step {acceptsPadding : Bytes → Bool} {session next : Session} {action : Action}
    (hs : session.step acceptsPadding action = some next) :
    session.Moves acceptsPadding action next := by
  cases action with
  | receive frame =>
      obtain ⟨hidle, hs⟩ := Option.ite_none_right_eq_some.mp hs
      exact Option.some.inj hs ▸ .receive frame hidle
  | enqueue =>
      simp only [step] at hs
      split at hs
      · rename_i index data hreader
        obtain ⟨stream, hstream, hsent⟩ := Option.bind_eq_some_iff.mp hs
        exact .enqueue hreader hstream hsent
      · cases hs
  | close =>
      obtain ⟨hguard, hs⟩ := Option.ite_none_right_eq_some.mp hs
      exact Option.some.inj hs ▸ .close hguard
  | clear =>
      obtain ⟨hguard, hs⟩ := Option.ite_none_right_eq_some.mp hs
      exact Option.some.inj hs ▸ .clear hguard.1 hguard.2
  | closeOutgoing => exact Option.some.inj hs ▸ .closeOutgoing
  | openStream =>
      obtain ⟨hguard, hs⟩ := Option.ite_none_right_eq_some.mp hs
      exact Option.some.inj hs ▸ .openStream hguard.1 hguard.2
  | task target change =>
      obtain ⟨stream, hstream, hs⟩ := Option.bind_eq_some_iff.mp hs
      obtain ⟨changed, hchange, rfl⟩ := Option.map_eq_some_iff.mp hs
      exact .task hstream hchange
  | pumpRemove target =>
      obtain ⟨stream, hstream, hs⟩ := Option.bind_eq_some_iff.mp hs
      obtain ⟨hguard, hs⟩ := Option.ite_none_right_eq_some.mp hs
      exact Option.some.inj hs ▸ .pumpRemove hguard.2 hstream hguard.1
  | abandon target =>
      obtain ⟨stream, hstream, hs⟩ := Option.bind_eq_some_iff.mp hs
      obtain ⟨hguard, hs⟩ := Option.ite_none_right_eq_some.mp hs
      exact Option.some.inj hs ▸ .abandon hguard.1 hstream hguard.2

theorem Accounted.step {acceptsPadding : Bytes → Bool} {session next : Session} (action : Action)
    (h : session.Accounted) (hc : session.DropsNothing action)
    (hs : session.step acceptsPadding action = some next) : next.Accounted := by
  cases moves_of_step hs with
  | receive frame hidle => exact h.receive acceptsPadding frame hidle
  | enqueue hreader hstream hsent => exact h.enqueue hreader hstream hsent
  | close _ => exact h.finish
  | clear _ hlock => exact h.clearStreams (isLocked_false hlock)
  | closeOutgoing => exact ⟨h.streams, h.target⟩
  | openStream _ hlock =>
      have hr := h.register session.nextStreamId (isLocked_false hlock)
      exact ⟨hr.streams, hr.target⟩
  | @task target change stream changed hstream hchange =>
      refine h.set hstream (removed_of_step change hchange)
        ((h.streams target stream hstream).step change ?_ hchange)
      rintro rfl
      exact hc stream hstream
  | @pumpRemove target stream hlock hstream _ =>
      have ha := h.streams target stream hstream
      have hset : Session.Accounted { session with
          streams := session.streams.set target { stream with pump := .departing } } :=
        h.set hstream rfl ⟨ha.ended, ha.registered, ha.removedByFin⟩
      exact hset.remove stream.id .here (isLocked_false hlock) (by simp)
  | @abandon _ stream hlock _ _ => exact h.remove stream.id .here (isLocked_false hlock) (by simp)

-- As long as no writer is dropped with something left to write, a consumer that
-- reads the end of a stream after a FIN has been given all that was received.
theorem fin_delivers_everything (acceptsPadding : Bytes → Bool) (side : Side)
    (actions : List Action) (final : Session)
    (hdrops : Run.Meets (step acceptsPadding) DropsNothing (new side) actions)
    (hrun : Run.exec (step acceptsPadding) (new side) actions = some final) :
    ∀ stream ∈ final.streams, stream.consumer = .ended → stream.removed = some .fin →
      stream.delivered = stream.received := by
  have h : final.Accounted := by
    refine Run.rule _ Accounted ?_ _ actions final (accounted_new side) hdrops hrun
    intro session action next ha hc hs
    exact ha.step action hc hs
  intro stream hmem hended hfin
  obtain ⟨index, hs⟩ := List.mem_iff_getElem?.mp hmem
  have ha := h.streams index stream hs
  obtain ⟨hempty, hdone⟩ := ha.ended hended
  obtain ⟨hheld, hwritten⟩ := ha.removedByFin hfin (by simp [hended])
  simpa [Stream.held, hempty, hwritten hdone] using hheld

-- A client's stream: the payload is queued, then the FIN comes.
def pushThenFin : List Action :=
  [.openStream, .receive ⟨CMD_PSH, 1, [7, 8]⟩, .enqueue, .receive ⟨CMD_FIN, 1, []⟩]

-- The writer has drained its queue before it sees that it is cancelled.
def drained : List Action :=
  pushThenFin ++ [.task 0 .take, .task 0 (.write 2), .task 0 .finish, .task 0 (.read 2),
    .task 0 .readEnd]

theorem fin_delivers_everything_drained :
    ∃ final, Run.exec (step fun _ => true) (new .client) drained = some final ∧
      (∃ stream ∈ final.streams, stream.consumer = .ended ∧ stream.removed = some .fin) ∧
      ∀ stream ∈ final.streams, stream.consumer = .ended → stream.removed = some .fin →
        stream.delivered = stream.received := by
  refine ⟨_, rfl, by decide, ?_⟩
  refine fin_delivers_everything (fun _ => true) .client drained _ (Run.meets_of_forall _ _ ?_) rfl
  simp [drained, pushThenFin, DropsNothing]

-- The writer is dropped first, and the pump's half of the duplex after it.
def dropped : List Action :=
  pushThenFin ++ [.task 0 .cancelled, .task 0 .leave, .pumpRemove 0, .task 0 .depart,
    .task 0 .readEnd]

-- The two bytes have been received, and the consumer reads an end without them.
theorem dropped_loses_bytes :
    ∃ final, Run.exec (step fun _ => true) (new .client) dropped = some final ∧
      ∃ stream ∈ final.streams, stream.consumer = .ended ∧ stream.removed = some .fin ∧
        stream.received = [7, 8] ∧ stream.delivered = [] := by
  refine ⟨_, rfl, ?_⟩
  decide

end Session

end SingBox.AnyTls
