import SingBox.AnyTls.Connection.Step

namespace SingBox.AnyTls

open Library
open Utf8 (encode)

-- The ids of the CMD_SYN frames.
def synIds (frames : List Frame) : List UInt32 :=
  (frames.filter (·.command = CMD_SYN)).map Frame.streamId

-- Whether a CMD_SETTINGS has been received or is among the frames.
def settingsSeen (seen : Bool) (frames : List Frame) : Bool :=
  seen || frames.any (·.command = CMD_SETTINGS)

-- No CMD_SYN comes before the settings.
def SettingsFirst : Bool → List Frame → Prop
  | _, [] => True
  | seen, frame :: rest =>
      (frame.command = CMD_SYN → seen = true) ∧
        SettingsFirst (seen || frame.command = CMD_SETTINGS) rest

section

variable {frames front back before after wastes : List Frame} {frame : Frame} {seen : Bool}

@[simp] theorem synIds_append (front back : List Frame) :
    synIds (front ++ back) = synIds front ++ synIds back := by
  simp [synIds]

theorem synIds_other (h : frame.command ≠ CMD_SYN) : synIds [frame] = [] := by
  simp [synIds, h]

theorem synIds_syn (h : frame.command = CMD_SYN) : synIds [frame] = [frame.streamId] := by
  simp [synIds, h]

theorem synIds_waste (h : Waste wastes) : synIds wastes = [] := by
  rw [synIds, List.filter_eq_nil_iff.mpr, List.map_nil]
  intro frame hframe
  simp only [h.command frame hframe]
  decide

theorem synIds_padded (h : Padded before after) : synIds after = synIds before := by
  obtain ⟨front, wastes, back, hw, rfl, rfl⟩ := h
  simp [synIds_waste hw]

theorem settingsSeen_append (seen : Bool) (front back : List Frame) :
    settingsSeen seen (front ++ back) = settingsSeen (settingsSeen seen front) back := by
  simp [settingsSeen, Bool.or_assoc]

theorem settingsSeen_waste (h : Waste wastes) : settingsSeen seen wastes = seen := by
  rw [settingsSeen, List.any_eq_false.mpr, Bool.or_false]
  intro frame hframe
  simp only [h.command frame hframe]
  decide

theorem settingsSeen_padded (h : Padded before after) :
    settingsSeen seen after = settingsSeen seen before := by
  obtain ⟨front, wastes, back, hw, rfl, rfl⟩ := h
  simp only [settingsSeen_append, settingsSeen_waste hw]

theorem settingsFirst_append : SettingsFirst seen (front ++ back) ↔
    SettingsFirst seen front ∧ SettingsFirst (settingsSeen seen front) back := by
  induction front generalizing seen with
  | nil => simp [SettingsFirst, settingsSeen]
  | cons frame rest ih =>
      simp only [List.cons_append, SettingsFirst, ih, and_assoc]
      simp [settingsSeen, Bool.or_assoc]

theorem settingsFirst_of_forall (h : ∀ frame ∈ frames, frame.command ≠ CMD_SYN) :
    SettingsFirst seen frames := by
  induction frames generalizing seen with
  | nil => trivial
  | cons frame rest ih =>
      obtain ⟨hframe, hrest⟩ := List.forall_mem_cons.mp h
      exact ⟨fun heq => absurd heq hframe, ih hrest⟩

theorem settingsFirst_padded (h : Padded before after) (hb : SettingsFirst seen before) :
    SettingsFirst seen after := by
  obtain ⟨front, wastes, back, hw, rfl, rfl⟩ := h
  obtain ⟨hfront, hback⟩ := settingsFirst_append.mp hb
  rw [List.append_assoc, settingsFirst_append, settingsFirst_append, settingsSeen_waste hw]
  refine ⟨hfront, settingsFirst_of_forall fun frame hframe => ?_, hback⟩
  rw [hw.command frame hframe]
  decide

end

namespace ClientSession

-- The ids that have been drawn are below this, as long as the counter has not wrapped.
def drawnBelow (session : ClientSession) : Nat :=
  if session.nextStreamId = 0 then 2 ^ 32 else session.nextStreamId.toNat

-- Each id is that of one call that has not sent its CMD_SYN, of one CMD_SYN on its way, or
-- of a stream of the server.
structure Numbered (session : ClientSession) (sent streams : List UInt32) : Prop where
  once : sent.Nodup
  apart : ∀ id ∈ sent, id ∉ streams
  pending : ∀ call id, session.Pending call id → id ∉ sent ∧ id ∉ streams
  single : ∀ call other id, session.Pending call id → session.Pending other id → call = other
  drawn : ∀ id, id ∈ sent ∨ id ∈ streams ∨ (∃ call, session.Pending call id) →
    id ≠ 0 ∧ id.toNat < session.drawnBelow

section

variable {session next : ClientSession} {sent streams rest : List UInt32} {id : UInt32}

theorem Numbered.mono (h : session.Numbered sent streams)
    (hcounter : next.nextStreamId = session.nextStreamId)
    (hpending : ∀ call id, next.Pending call id → session.Pending call id)
    {others : List UInt32} (hstreams : ∀ id, id ∈ others → id ∈ streams) :
    next.Numbered sent others := by
  refine ⟨h.once, fun id hid hother => h.apart id hid (hstreams id hother), ?_, ?_, ?_⟩
  · intro call id hid
    obtain ⟨hsent, hserved⟩ := h.pending call id (hpending call id hid)
    exact ⟨hsent, fun hother => hserved (hstreams id hother)⟩
  · intro call other id hcall hother
    exact h.single call other id (hpending call id hcall) (hpending other id hother)
  · intro id hid
    rw [drawnBelow, hcounter]
    refine h.drawn id ?_
    obtain hsent | hserved | ⟨call, hcall⟩ := hid
    · exact .inl hsent
    · exact .inr (.inl (hstreams id hserved))
    · exact .inr (.inr ⟨call, hpending call id hcall⟩)

-- The next id is one that nobody has.
theorem Numbered.number (h : session.Numbered sent streams) (hzero : session.nextStreamId ≠ 0)
    (hcounter : next.nextStreamId = session.nextStreamId + 1) {call : Nat}
    (hpending : ∀ other id, next.Pending other id →
      (other = call ∧ id = session.nextStreamId) ∨ session.Pending other id) :
    next.Numbered sent streams := by
  have hbelow : session.drawnBelow = session.nextStreamId.toNat := if_neg hzero
  have hfresh : ¬(session.nextStreamId ∈ sent ∨ session.nextStreamId ∈ streams ∨
      ∃ call, session.Pending call session.nextStreamId) := by
    intro hid
    have hlt := (h.drawn _ hid).2
    omega
  simp only [not_or, not_exists] at hfresh
  obtain ⟨hsent, hserved, hnobody⟩ := hfresh
  have hmore : session.nextStreamId.toNat < next.drawnBelow := by
    rw [drawnBelow, hcounter]
    split
    · exact session.nextStreamId.toNat_lt
    · rename_i hne
      have hsucc : (session.nextStreamId + 1).toNat ≠ 0 := fun heq =>
        hne (UInt32.toNat_inj.mp heq)
      rw [UInt32.toNat_add] at hsucc ⊢
      have hlt := session.nextStreamId.toNat_lt
      simp only [UInt32.toNat_one] at hsucc ⊢
      omega
  refine ⟨h.once, h.apart, ?_, ?_, ?_⟩
  · intro other id hid
    obtain ⟨_, rfl⟩ | hold := hpending other id hid
    · exact ⟨hsent, hserved⟩
    · exact h.pending other id hold
  · intro first second id hfirst hsecond
    obtain ⟨rfl, rfl⟩ | hfirst := hpending first id hfirst
    · obtain ⟨rfl, _⟩ | hsecond := hpending second _ hsecond
      · rfl
      · exact absurd hsecond (hnobody second)
    · obtain ⟨_, rfl⟩ | hsecond := hpending second id hsecond
      · exact absurd hfirst (hnobody first)
      · exact h.single first second id hfirst hsecond
  · intro id hid
    have hold : id ∈ sent ∨ id ∈ streams ∨ (∃ call, session.Pending call id) →
        id ≠ 0 ∧ id.toNat < next.drawnBelow := by
      intro hid
      obtain ⟨hne, hlt⟩ := h.drawn id hid
      exact ⟨hne, by omega⟩
    obtain hin | hin | ⟨other, hother⟩ := hid
    · exact hold (.inl hin)
    · exact hold (.inr (.inl hin))
    · obtain ⟨_, rfl⟩ | hother := hpending other id hother
      · exact ⟨hzero, hmore⟩
      · exact hold (.inr (.inr ⟨other, hother⟩))

theorem Numbered.syn (h : session.Numbered sent streams) {call : Nat}
    (hcall : session.Pending call id) (hcounter : next.nextStreamId = session.nextStreamId)
    (hpending : ∀ other otherId, next.Pending other otherId →
      other ≠ call ∧ session.Pending other otherId) : next.Numbered (sent ++ [id]) streams := by
  obtain ⟨hsent, hserved⟩ := h.pending call id hcall
  have hmem : ∀ other, other ∈ sent ++ [id] ↔ other ∈ sent ∨ other = id := by simp
  refine ⟨?_, ?_, ?_, ?_, ?_⟩
  · refine List.nodup_append.mpr ⟨h.once, List.pairwise_singleton _ id, ?_⟩
    rintro other hother _ hin rfl
    exact hsent (List.mem_singleton.mp hin ▸ hother)
  · intro other hother
    obtain hin | rfl := (hmem other).mp hother
    · exact h.apart other hin
    · exact hserved
  · intro other otherId hother
    obtain ⟨hne, hold⟩ := hpending other otherId hother
    obtain ⟨hin, hin'⟩ := h.pending other otherId hold
    refine ⟨fun hmore => ?_, hin'⟩
    obtain hin'' | rfl := (hmem otherId).mp hmore
    · exact hin hin''
    · exact hne (h.single other call otherId hold hcall)
  · intro first second otherId hfirst hsecond
    exact h.single first second otherId (hpending first otherId hfirst).2
      (hpending second otherId hsecond).2
  · intro other hother
    rw [drawnBelow, hcounter]
    refine h.drawn other ?_
    obtain hin | hin | ⟨call', hcall'⟩ := hother
    · obtain hin | rfl := (hmem other).mp hin
      · exact .inl hin
      · exact .inr (.inr ⟨call, hcall⟩)
    · exact .inr (.inl hin)
    · exact .inr (.inr ⟨call', (hpending call' other hcall').2⟩)

-- A CMD_SYN comes to the server.
theorem Numbered.serve (h : session.Numbered (id :: rest) streams) :
    id ≠ 0 ∧ id ∉ streams ∧ session.Numbered rest (streams ++ [id]) := by
  obtain ⟨hid, hrest⟩ := List.nodup_cons.mp h.once
  refine ⟨(h.drawn id (.inl List.mem_cons_self)).1, h.apart id List.mem_cons_self, hrest, ?_, ?_,
    h.single, ?_⟩
  · intro other hother hin
    obtain hin | hin := List.mem_append.mp hin
    · exact h.apart other (List.mem_cons_of_mem _ hother) hin
    · exact hid (List.mem_singleton.mp hin ▸ hother)
  · intro call other hcall
    obtain ⟨hsent, hserved⟩ := h.pending call other hcall
    obtain ⟨hne, hin⟩ := not_or.mp (List.mem_cons.not.mp hsent)
    refine ⟨hin, fun hmore => ?_⟩
    obtain hmore | hmore := List.mem_append.mp hmore
    · exact hserved hmore
    · exact hne (List.mem_singleton.mp hmore)
  · intro other hother
    refine h.drawn other ?_
    obtain hin | hin | hcall := hother
    · exact .inl (List.mem_cons_of_mem _ hin)
    · obtain hin | hin := List.mem_append.mp hin
      · exact .inr (.inl hin)
      · exact .inl (List.mem_singleton.mp hin ▸ List.mem_cons_self)
    · exact .inr (.inr hcall)

end

end ClientSession

namespace Connection

-- The settings go before the streams of the calls.
structure Ordered (session : ClientSession) (received : Bool) (frames : List Frame) : Prop where
  started : session.Started
  announced : session.announced = true → settingsSeen received frames = true
  first : SettingsFirst received frames

-- Nothing is on its way that the other side does not know.
structure Known (connection : Connection) : Prop where
  fits : ∀ frame ∈ connection.client.tx, frame.data.length ≤ MAX_FRAME_SIZE
  upward : ∀ frame ∈ connection.upward, frame.command ∈ CLIENT_COMMANDS
  downward : ∀ frame ∈ connection.downward, frame.command ∈ SERVER_COMMANDS

-- Neither side has ended the connection for a frame it has received.
def Agreed (connection : Connection) : Prop :=
  ∀ message, connection.server.loop ≠ some (.bail message) ∧
    connection.client.reader ≠ some (.bail message)

structure Agrees (connection : Connection) : Prop where
  whole : connection.Whole
  numbered : connection.client.Numbered (synIds connection.upward) connection.server.streams
  ordered : Ordered connection.client connection.server.settingsReceived connection.upward
  known : connection.Known
  agreed : connection.Agreed

-- The counter has not come round when an id is drawn.
def Unwrapped (connection : Connection) (action : Action) : Prop :=
  ∀ call, action = .client (.number call) → connection.client.nextStreamId ≠ 0

section

variable {connection next : Connection}

theorem new_agrees (clientPadding serverPadding : PaddingScheme) :
    (new clientPadding serverPadding).Agrees := by
  have hframes : Link.new.frames ++ [] = [] := by rw [Link.new_whole.2, List.append_nil]
  have hup : (new clientPadding serverPadding).upward = [] := hframes
  have hdown : (new clientPadding serverPadding).downward = [] := hframes
  refine ⟨new_whole _ _, ?_, ⟨?_, ?_, ?_⟩, ⟨?_, ?_, ?_⟩, ?_⟩
  · rw [hup]
    exact ⟨List.nodup_nil, by simp [synIds], by simp [new, ClientSession.Pending,
      ClientSession.stage, ClientSession.new], by simp [new, ClientSession.Pending,
      ClientSession.stage, ClientSession.new], by simp [new, synIds, ServerConnection.new,
      ClientSession.Pending, ClientSession.stage, ClientSession.new]⟩
  · simp [ClientSession.Started, new, ClientSession.stage, ClientSession.new]
  · simp [new, ClientSession.new]
  · rw [hup]
    trivial
  · simp [new, ClientSession.new]
  · simp [hup]
  · simp [hdown]
  · simp [Agreed, new, ServerConnection.new, ClientSession.new]

-- Frames that are sent come behind those on their way.
theorem Agrees.send (h : connection.Agrees) {frames : List Frame}
    (hserver : next.server = connection.server) (huplink : next.uplink = connection.uplink)
    (hdownlink : next.downlink = connection.downlink)
    (hreader : next.client.reader = connection.client.reader ∨
      next.client.reader = some .cancelled ∨ next.client.reader = some .transport)
    (htx : next.client.tx = connection.client.tx ++ frames)
    (hframes : ∀ frame ∈ frames,
      frame.data.length ≤ MAX_FRAME_SIZE ∧ frame.command ∈ CLIENT_COMMANDS)
    (hnumbered : next.client.Numbered (synIds connection.upward ++ synIds frames)
      connection.server.streams)
    (hordered : Ordered next.client connection.server.settingsReceived
      (connection.upward ++ frames)) : next.Agrees := by
  have hup : next.upward = connection.upward ++ frames := by
    rw [upward, upward, huplink, htx, List.append_assoc]
  have hdown : next.downward = connection.downward := by
    rw [downward, downward, hserver, hdownlink]
  refine ⟨?_, ?_, ?_, ⟨?_, ?_, ?_⟩, fun message => ⟨?_, ?_⟩⟩
  · rw [Whole, huplink, hdownlink]
    exact h.whole
  · rw [hup, synIds_append, hserver]
    exact hnumbered
  · rw [hup, hserver]
    exact hordered
  · intro frame hframe
    rw [htx] at hframe
    obtain hold | hnew := List.mem_append.mp hframe
    · exact h.known.fits frame hold
    · exact (hframes frame hnew).1
  · intro frame hframe
    rw [hup] at hframe
    obtain hold | hnew := List.mem_append.mp hframe
    · exact h.known.upward frame hold
    · exact (hframes frame hnew).2
  · rw [hdown]
    exact h.known.downward
  · rw [hserver]
    exact (h.agreed message).1
  · obtain heq | heq | heq := hreader
    · rw [heq]
      exact (h.agreed message).2
    · simp [heq]
    · simp [heq]

theorem Ordered.send {session next : ClientSession} {received : Bool} {front : List Frame}
    {frame : Frame} (h : Ordered session received front) (hstarted : next.Started)
    (hannounced : next.announced = session.announced)
    (hframe : frame.command = CMD_SYN → session.announced = true) :
    Ordered next received (front ++ [frame]) := by
  refine ⟨hstarted, fun hn => ?_, settingsFirst_append.mpr ⟨h.first, ?_, trivial⟩⟩
  · rw [settingsSeen_append, h.announced (hannounced ▸ hn)]
    rfl
  · exact fun hsyn => h.announced (hframe hsyn)

theorem Agrees.client (h : connection.Agrees) {action : ClientSession.Action}
    (hown : connection.client.Own action next.client)
    (hstarted : connection.client.Started → next.client.Started)
    (hserver : next.server = connection.server) (huplink : next.uplink = connection.uplink)
    (hdownlink : next.downlink = connection.downlink)
    (hcounter : ∀ call, action = .number call → connection.client.nextStreamId ≠ 0) :
    next.Agrees := by
  have hstart := hstarted h.ordered.started
  have hquiet : next.client.announced = connection.client.announced →
      Ordered next.client connection.server.settingsReceived (connection.upward ++ []) := by
    intro heq
    rw [List.append_nil]
    exact ⟨hstart, fun hn => h.ordered.announced (heq ▸ hn), h.ordered.first⟩
  cases hown.emits with
  | quiet hannounced htx hid hpending =>
      refine h.send hserver huplink hdownlink hown.reader (htx.trans (List.append_nil _).symm)
        (by simp) ?_ (hquiet hannounced)
      rw [show synIds [] = [] from rfl, List.append_nil]
      exact h.numbered.mono hid hpending fun _ hin => hin
  | announce hannounced htx hid hstage =>
      refine h.send hserver huplink hdownlink hown.reader htx ?_ ?_ ⟨hstart, fun _ => ?_, ?_⟩
      · intro frame hframe
        rw [List.mem_singleton.mp hframe]
        exact ⟨settingsData_length _, .tail _ (.tail _ (.tail _ (.tail _ (.head _))))⟩
      · rw [synIds_other (show CMD_SETTINGS ≠ CMD_SYN by decide), List.append_nil]
        exact h.numbered.mono hid (fun call id => (ClientSession.pending_of_eq hstage call id).mp)
          fun _ hin => hin
      · rw [settingsSeen_append]
        exact Bool.or_true _
      · exact settingsFirst_append.mpr ⟨h.ordered.first,
          fun heq => absurd heq (show CMD_SETTINGS ≠ CMD_SYN by decide), trivial⟩
  | number call hannounced htx hid hpending =>
      refine h.send hserver huplink hdownlink hown.reader (htx.trans (List.append_nil _).symm)
        (by simp) ?_ (hquiet hannounced)
      rw [show synIds [] = [] from rfl, List.append_nil]
      exact h.numbered.number (hcounter call rfl) hid hpending
  | syn call id hcall hannounced htx hid hpending =>
      refine h.send hserver huplink hdownlink hown.reader htx ?_ ?_
        (h.ordered.send hstart hannounced fun _ => ?_)
      · intro frame hframe
        rw [List.mem_singleton.mp hframe]
        exact ⟨Nat.zero_le _, .tail _ (.head _)⟩
      · rw [synIds_syn rfl]
        exact h.numbered.syn hcall hid hpending
      · obtain ⟨stage, hstage, _⟩ := Option.bind_eq_some_iff.mp hcall
        exact h.ordered.started call stage hstage
  | data frame hcommand hlen hannounced htx hid hstage =>
      have hother : frame.command ≠ CMD_SYN := by
        obtain heq | heq := hcommand <;> rw [heq] <;> decide
      refine h.send hserver huplink hdownlink hown.reader htx ?_ ?_
        (h.ordered.send hstart hannounced fun heq => absurd heq hother)
      · intro other hmem
        rw [List.mem_singleton.mp hmem]
        refine ⟨hlen, ?_⟩
        obtain heq | heq := hcommand <;> rw [heq] <;> decide
      · rw [synIds_other hother, List.append_nil]
        exact h.numbered.mono hid (fun call id => (ClientSession.pending_of_eq hstage call id).mp)
          fun _ hin => hin

theorem Agrees.server (h : connection.Agrees) (hown : connection.server.Own next.server)
    (hclient : next.client = connection.client) (huplink : next.uplink = connection.uplink)
    (hdownlink : next.downlink = connection.downlink) : next.Agrees := by
  have hup : next.upward = connection.upward := by rw [upward, upward, huplink, hclient]
  have hdown : ∀ frame ∈ next.downward,
      frame ∈ connection.downward ∨ frame.command ∈ [CMD_PSH, CMD_SYNACK, CMD_FIN] := by
    intro frame hframe
    rw [downward, hdownlink] at hframe
    obtain htx | ⟨other, htx, hcommand⟩ := hown.tx
    · rw [htx] at hframe
      exact .inl hframe
    · rw [htx, ← List.append_assoc] at hframe
      obtain hold | hnew := List.mem_append.mp hframe
      · exact .inl hold
      · exact .inr (List.mem_singleton.mp hnew ▸ hcommand)
  have hmore : ∀ command ∈ [CMD_PSH, CMD_SYNACK, CMD_FIN], command ∈ SERVER_COMMANDS :=
    List.all_iff_forall_prop.mp (by decide)
  refine ⟨?_, ?_, ?_, ⟨?_, ?_, ?_⟩, fun message => ⟨?_, ?_⟩⟩
  · rw [Whole, huplink, hdownlink]
    exact h.whole
  · rw [hup]
    exact h.numbered.mono (by rw [hclient]) (fun _ _ hp => hclient ▸ hp) hown.streams
  · rw [hup, hclient, hown.settingsReceived]
    exact h.ordered
  · rw [hclient]
    exact h.known.fits
  · rw [hup]
    exact h.known.upward
  · intro frame hframe
    obtain hold | hnew := hdown frame hframe
    · exact h.known.downward frame hold
    · exact hmore frame.command hnew
  · obtain heq | heq | heq := hown.loop
    · rw [heq]
      exact (h.agreed message).1
    · simp [heq]
    · simp [heq]
  · rw [hclient]
    exact (h.agreed message).2

theorem Agrees.clientWrites (h : connection.Agrees) (hw : next.Whole) {rest : List Frame}
    {frame : Frame} {closed : Bool} (htx : connection.client.tx = frame :: rest)
    (hclient : next.client = { connection.client with tx := rest, txClosed := closed })
    (hserver : next.server = connection.server) (hdownlink : next.downlink = connection.downlink)
    (hup : Padded connection.upward next.upward) : next.Agrees := by
  have hdown : next.downward = connection.downward := by
    rw [downward, downward, hserver, hdownlink]
  refine ⟨hw, ?_, ⟨?_, ?_, ?_⟩, ⟨?_, ?_, ?_⟩, fun message => ⟨?_, ?_⟩⟩
  · rw [synIds_padded hup, hserver]
    refine h.numbered.mono (by rw [hclient]) (fun call id hp => ?_) fun _ hin => hin
    rw [hclient] at hp
    exact hp
  · rw [hclient]
    exact h.ordered.started
  · intro hn
    rw [hclient] at hn
    rw [settingsSeen_padded hup, hserver]
    exact h.ordered.announced hn
  · rw [hserver]
    exact settingsFirst_padded hup h.ordered.first
  · intro frame hframe
    rw [hclient] at hframe
    exact h.known.fits frame (htx ▸ List.mem_cons_of_mem _ hframe)
  · intro frame hframe
    obtain hold | hwaste := mem_padded hup hframe
    · exact h.known.upward frame hold
    · rw [hwaste]
      decide
  · rw [hdown]
    exact h.known.downward
  · rw [hserver]
    exact (h.agreed message).1
  · rw [hclient]
    exact (h.agreed message).2

theorem Agrees.serverWrites (h : connection.Agrees) (hw : next.Whole) {rest : List Frame}
    {frame : Frame} {closed : Bool} (htx : connection.server.tx = frame :: rest)
    (hserver : next.server = { connection.server with tx := rest, txClosed := closed })
    (hclient : next.client = connection.client) (huplink : next.uplink = connection.uplink)
    (hdown : Padded connection.downward next.downward ∨
      next.downward = connection.downlink.frames ++ rest) : next.Agrees := by
  have hup : next.upward = connection.upward := by rw [upward, upward, huplink, hclient]
  have hmem : ∀ other ∈ next.downward, other ∈ connection.downward ∨ other.command = CMD_WASTE := by
    intro other hother
    obtain hpadded | heq := hdown
    · exact mem_padded hpadded hother
    · rw [heq] at hother
      rw [downward, htx]
      obtain hfront | hback := List.mem_append.mp hother
      · exact .inl (List.mem_append_left _ hfront)
      · exact .inl (List.mem_append_right _ (List.mem_cons_of_mem _ hback))
  refine ⟨hw, ?_, ?_, ⟨?_, ?_, ?_⟩, fun message => ⟨?_, ?_⟩⟩
  · rw [hup, hclient, hserver]
    exact h.numbered
  · rw [hup, hclient, hserver]
    exact h.ordered
  · rw [hclient]
    exact h.known.fits
  · rw [hup]
    exact h.known.upward
  · intro other hother
    obtain hold | hwaste := hmem other hother
    · exact h.known.downward other hold
    · rw [hwaste]
      decide
  · rw [hserver]
    exact (h.agreed message).1
  · rw [hclient]
    exact (h.agreed message).2

theorem Agrees.clientReceives (h : connection.Agrees) (hw : next.Whole) {frame : Frame}
    (hclient : next.client = connection.client.receive frame)
    (hdown : connection.downward = frame :: (next.downlink.frames ++ connection.server.tx))
    (hserver : next.server = connection.server) (huplink : next.uplink = connection.uplink) :
    next.Agrees := by
  have hreceived := connection.client.receive_received
    (h.known.downward frame (hdown ▸ List.mem_cons_self))
  rw [← hclient] at hreceived
  have hup : next.upward = connection.upward := by
    rw [upward, upward, huplink, hreceived.tx]
  refine ⟨hw, ?_, ⟨?_, ?_, ?_⟩, ⟨?_, ?_, ?_⟩, fun message => ⟨?_, ?_⟩⟩
  · rw [hup, hserver]
    exact h.numbered.mono hreceived.nextStreamId
      (fun call id => (ClientSession.pending_of_eq hreceived.stage call id).mp) fun _ hin => hin
  · intro call stage hcall
    rw [hreceived.announced]
    exact h.ordered.started call stage (hreceived.stage ▸ hcall)
  · rw [hreceived.announced, hup, hserver]
    exact h.ordered.announced
  · rw [hup, hserver]
    exact h.ordered.first
  · rw [hreceived.tx]
    exact h.known.fits
  · rw [hup]
    exact h.known.upward
  · intro other hother
    rw [downward, hserver] at hother
    exact h.known.downward other (hdown ▸ List.mem_cons_of_mem _ hother)
  · rw [hserver]
    exact (h.agreed message).1
  · obtain heq | ⟨chain, heq⟩ := hreceived.reader
    · rw [heq]
      exact (h.agreed message).2
    · simp [heq]

-- The settings are there before a stream, and each stream has an id of its own.
theorem Agrees.accepts (h : connection.Agrees) {frame : Frame} {rest : List Frame}
    (hup : connection.upward = frame :: rest) (hsyn : frame.command = CMD_SYN) :
    connection.server.settingsReceived = true ∧ frame.streamId ≠ 0 ∧
      frame.streamId ∉ connection.server.streams := by
  have hfirst := h.ordered.first
  have hnumbered := h.numbered
  rw [hup] at hfirst hnumbered
  rw [← List.singleton_append, synIds_append, synIds_syn hsyn] at hnumbered
  exact ⟨hfirst.1 hsyn, hnumbered.serve.1, hnumbered.serve.2.1⟩

theorem Agrees.serverReceives (h : connection.Agrees) (hw : next.Whole) {frame : Frame}
    (hserver : next.server = connection.server.receive frame)
    (hup : connection.upward = frame :: (next.uplink.frames ++ connection.client.tx))
    (hclient : next.client = connection.client) (hdownlink : next.downlink = connection.downlink) :
    next.Agrees := by
  have hreceived := connection.server.receive_received
    (h.known.upward frame (hup ▸ List.mem_cons_self)) (h.accepts hup)
  rw [← hserver] at hreceived
  have hrest : connection.upward = frame :: next.upward := by
    rw [hup, upward, hclient]
  have hfirst := h.ordered.first
  have hnumbered := h.numbered
  rw [hrest] at hfirst hnumbered
  refine ⟨hw, ?_, ⟨?_, ?_, ?_⟩, ⟨?_, ?_, ?_⟩, fun message => ⟨?_, ?_⟩⟩
  · rw [hclient]
    rw [← List.singleton_append, synIds_append] at hnumbered
    by_cases hsyn : frame.command = CMD_SYN
    · rw [synIds_syn hsyn] at hnumbered
      rw [hreceived.syn hsyn]
      exact hnumbered.serve.2.2
    · rw [synIds_other hsyn, List.nil_append] at hnumbered
      exact hnumbered.mono rfl (fun _ _ hp => hp) (hreceived.other hsyn)
  · rw [hclient]
    exact h.ordered.started
  · intro hn
    rw [hclient] at hn
    have hseen := h.ordered.announced hn
    rw [hrest, ← List.singleton_append, settingsSeen_append] at hseen
    rw [hreceived.settingsReceived]
    simpa [settingsSeen] using hseen
  · rw [hreceived.settingsReceived]
    exact hfirst.2
  · rw [hclient]
    exact h.known.fits
  · intro other hother
    exact h.known.upward other (hrest ▸ List.mem_cons_of_mem _ hother)
  · intro other hother
    rw [downward, hdownlink] at hother
    obtain hfront | hback := List.mem_append.mp hother
    · exact h.known.downward other (List.mem_append_left _ hfront)
    · obtain hold | hcommand := hreceived.tx other hback
      · exact h.known.downward other (List.mem_append_right _ hold)
      · obtain heq | heq := hcommand <;> rw [heq] <;> decide
  · rw [hreceived.loop]
    exact (h.agreed message).1
  · rw [hclient]
    exact (h.agreed message).2

theorem agrees_step (h : connection.Agrees) {action : Action} (hcond : connection.Unwrapped action)
    (hs : connection.step action = some next) : next.Agrees := by
  obtain ⟨hw, hmoves⟩ := moves_of_step h.whole hs
  cases hmoves with
  | client action hown hstarted hserver huplink hdownlink =>
      exact h.client hown hstarted hserver huplink hdownlink fun call heq =>
        hcond call (congrArg _ heq)
  | server action hown hclient huplink hdownlink => exact h.server hown hclient huplink hdownlink
  | clientWrites random frame rest closed htx hclient hserver hdownlink hwrites =>
      have hfits := h.known.fits frame (htx ▸ List.mem_cons_self)
      obtain hup | ⟨hlarge, _⟩ := hwrites
      · exact h.clientWrites hw htx hclient hserver hdownlink hup
      · exact absurd hfits (Nat.not_le_of_lt hlarge)
  | serverWrites random frame rest closed htx hserver hclient huplink hdown =>
      exact h.serverWrites hw htx hserver hclient huplink (hdown.imp_right And.right)
  | clientReceives frame hclient hdown hserver huplink =>
      exact h.clientReceives hw hclient hdown hserver huplink
  | serverReceives frame hserver hup hclient hdownlink =>
      exact h.serverReceives hw hserver hup hclient hdownlink

end

-- As long as the counter of the ids does not come round, neither side ends the connection
-- for a frame of the other, in a run of any length.
theorem agreed_of_unwrapped (clientPadding serverPadding : PaddingScheme) (actions : List Action)
    (h : Run.Meets step Unwrapped (new clientPadding serverPadding) actions) :
    Run.Always step Agreed (new clientPadding serverPadding) actions :=
  Run.always_of_meets (fun _ _ _ hs hcond hstep => agrees_step hs hcond hstep)
    (fun _ hs => hs.agreed) _ _ (new_agrees clientPadding serverPadding) h

def PLAIN : PaddingScheme := { stop := 8, rules := fun _ => none, source := "" }

theorem agreed_of_unwrapped_first : Run.Always step Agreed (new PLAIN PLAIN)
    [.client .announce, .client .acquire, .client (.reserve 0), .client .push, .client (.check 0),
      .client (.number 0), .client (.insert 0), .client (.lookup 0), .client (.sendSyn 0)] := by
  refine agreed_of_unwrapped PLAIN PLAIN _ (.cons ?_ rfl (.cons ?_ rfl (.cons ?_ rfl (.cons ?_ rfl
    (.cons ?_ rfl (.cons ?_ rfl (.cons ?_ rfl (.cons ?_ rfl (.cons ?_ rfl trivial)))))))))
  all_goals
    intro call heq
    cases heq
  show (1 : UInt32) ≠ 0
  decide

end Connection

end SingBox.AnyTls
