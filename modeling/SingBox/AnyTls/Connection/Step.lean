import SingBox.AnyTls.Client.Frames
import SingBox.AnyTls.Connection
import SingBox.AnyTls.Server

namespace SingBox.AnyTls

open Library
open Utf8 (encode)

-- The commands of the frames that a client sends.
def CLIENT_COMMANDS : List UInt8 := [CMD_WASTE, CMD_SYN, CMD_PSH, CMD_FIN, CMD_SETTINGS]

namespace ServerConnection

-- A step of the server that is not about received frames.
structure Own (connection next : ServerConnection) : Prop where
  padding : next.padding = connection.padding
  settingsReceived : next.settingsReceived = connection.settingsReceived
  updated : next.updated = connection.updated
  streams : ∀ id, id ∈ next.streams → id ∈ connection.streams
  loop : next.loop = connection.loop ∨ next.loop = some .cancelled ∨ next.loop = some .transport
  tx : next.tx = connection.tx ∨ ∃ frame, next.tx = connection.tx ++ [frame] ∧
    frame.command ∈ [CMD_PSH, CMD_SYNACK, CMD_FIN]

section

variable {connection next : ServerConnection}

theorem send_cases (connection : ServerConnection) (frame : Frame) :
    connection.send frame = connection ∨
      connection.send frame = { connection with tx := connection.tx ++ [frame] } := by
  unfold send
  split
  · exact .inl rfl
  · exact .inr rfl

theorem own_send {frame : Frame} (h : frame.command ∈ [CMD_PSH, CMD_SYNACK, CMD_FIN]) :
    connection.Own (connection.send frame) := by
  obtain heq | heq := connection.send_cases frame
  · rw [heq]
    exact ⟨rfl, rfl, rfl, fun _ h => h, .inl rfl, .inl rfl⟩
  · rw [heq]
    exact ⟨rfl, rfl, rfl, fun _ h => h, .inl rfl, .inr ⟨frame, rfl, h⟩⟩

theorem Own.setTask (h : connection.Own next) (index : Nat) (task : ServerTask) :
    connection.Own (next.setTask index task) :=
  ⟨h.padding, h.settingsReceived, h.updated, h.streams, h.loop, h.tx⟩

theorem removeStream_streams (connection : ServerConnection) (id other : UInt32)
    (h : other ∈ (connection.removeStream id).streams) : other ∈ connection.streams :=
  (List.mem_filter.mp h).1

theorem own_of_step {action : Action} (h : connection.step action = some next)
    (hreceive : ∀ frame, action ≠ .receive frame) (hwritten : action ≠ .written) :
    connection.Own next := by
  cases action with
  | receive frame => exact absurd rfl (hreceive frame)
  | written => exact absurd rfl hwritten
  | cancelLoop =>
      simp only [step, Option.ite_none_right_eq_some, Option.some.injEq] at h
      obtain ⟨_, rfl⟩ := h
      exact ⟨rfl, rfl, rfl, fun _ h => h, .inr (.inl rfl), .inl rfl⟩
  | breakLoop =>
      simp only [step, Option.ite_none_right_eq_some, Option.some.injEq] at h
      obtain ⟨_, rfl⟩ := h
      exact ⟨rfl, rfl, rfl, fun _ h => h, .inr (.inr rfl), .inl rfl⟩
  | push index data =>
      simp only [step] at h
      split at h
      · simp only [Option.ite_none_right_eq_some, Option.some.injEq] at h
        obtain ⟨_, rfl⟩ := h
        exact own_send (.head _)
      · cases h
  | answer index data =>
      simp only [step] at h
      split at h
      · obtain rfl := Option.some.inj h
        exact (own_send (.tail _ (.head _))).setTask _ _
      · cases h
  | leave index =>
      simp only [step] at h
      split at h
      · obtain rfl := Option.some.inj h
        exact ⟨rfl, rfl, rfl, connection.removeStream_streams _, .inl rfl, .inl rfl⟩
      · obtain rfl := Option.some.inj h
        exact ⟨rfl, rfl, rfl, connection.removeStream_streams _, .inl rfl, .inl rfl⟩
      · cases h
  | finish index =>
      simp only [step] at h
      split at h
      · obtain rfl := Option.some.inj h
        exact (own_send (.tail _ (.tail _ (.head _)))).setTask _ _
      · cases h
  | closeTx =>
      obtain rfl := Option.some.inj h
      exact ⟨rfl, rfl, rfl, fun _ h => h, .inl rfl, .inl rfl⟩

-- What the frames of a client do to the server. A CMD_SYN is one that it accepts.
structure Received (connection : ServerConnection) (frame : Frame) (next : ServerConnection) :
    Prop where
  padding : next.padding = connection.padding
  settingsReceived : next.settingsReceived =
    (connection.settingsReceived || frame.command = CMD_SETTINGS)
  syn : frame.command = CMD_SYN → next.streams = connection.streams ++ [frame.streamId]
  other : frame.command ≠ CMD_SYN → ∀ id, id ∈ next.streams → id ∈ connection.streams
  loop : next.loop = connection.loop
  tx : ∀ other ∈ next.tx, other ∈ connection.tx ∨
    other.command = CMD_SERVER_SETTINGS ∨ other.command = CMD_UPDATE_PADDING

theorem mem_send {frame other : Frame} (h : other ∈ (connection.send frame).tx) :
    other ∈ connection.tx ∨ other = frame := by
  obtain heq | heq := connection.send_cases frame
  · exact .inl (heq ▸ h)
  · rw [heq] at h
    exact (List.mem_append.mp h).imp_right List.mem_singleton.mp

theorem send_frame (connection : ServerConnection) (frame : Frame) :
    connection.send frame = { connection with tx := (connection.send frame).tx } := by
  obtain heq | heq := connection.send_cases frame <;> rw [heq]

-- The answer to a CMD_SETTINGS.
theorem received_settings {frame : Frame} (h : frame.command = CMD_SETTINGS) :
    Received connection frame (connection.receiveSettings frame) := by
  have hsyn : frame.command ≠ CMD_SYN := by rw [h]; decide
  have hfirst := connection.send_frame ⟨CMD_SERVER_SETTINGS, 0, encode "v=2\n"⟩
  have hmem : ∀ other ∈ (connection.send ⟨CMD_SERVER_SETTINGS, 0, encode "v=2\n"⟩).tx,
      other ∈ connection.tx ∨ other.command = CMD_SERVER_SETTINGS := by
    intro other hother
    exact (mem_send hother).imp_right fun heq => by rw [heq]
  generalize (connection.send ⟨CMD_SERVER_SETTINGS, 0, encode "v=2\n"⟩).tx = tx at hfirst hmem
  rw [receiveSettings, hfirst]
  split
  · refine ⟨rfl, by simp [h], fun heq => absurd heq hsyn, fun _ _ hid => hid, rfl, ?_⟩
    exact fun other hother => (hmem other hother).imp_right .inl
  · rw [send_frame]
    refine ⟨rfl, by simp [h], fun heq => absurd heq hsyn, fun _ _ hid => hid, rfl, ?_⟩
    intro other hother
    obtain hold | heq := mem_send hother
    · exact (hmem other hold).imp_right .inl
    · exact .inr (.inr (by rw [heq]))

theorem received_other {frame : Frame} (hsettings : frame.command ≠ CMD_SETTINGS)
    (hsyn : frame.command ≠ CMD_SYN) {streams : List UInt32}
    (hstreams : ∀ id, id ∈ streams → id ∈ connection.streams) :
    Received connection frame { connection with streams } :=
  ⟨rfl, by simp [hsettings], fun heq => absurd heq hsyn, fun _ => hstreams, rfl, fun _ => .inl⟩

theorem receive_received {frame : Frame} (h : frame.command ∈ CLIENT_COMMANDS)
    (hsyn : frame.command = CMD_SYN → connection.settingsReceived = true ∧ frame.streamId ≠ 0 ∧
      frame.streamId ∉ connection.streams) :
    Received connection frame (connection.receive frame) := by
  simp only [CLIENT_COMMANDS, List.mem_cons, List.not_mem_nil, or_false] at h
  obtain h | h | h | h | h := h
  · have hreceive : connection.receive frame = connection := by
      simp only [receive, h]
      rfl
    rw [hreceive]
    exact received_other (by rw [h]; decide) (by rw [h]; decide) fun _ hid => hid
  · obtain ⟨hreceived, hid, hfresh⟩ := hsyn h
    have hreceive : connection.receive frame = connection.receiveSyn frame := by
      simp only [receive, h]
      rfl
    rw [hreceive, receiveSyn, if_neg (by simp [hreceived]), if_neg hid, if_neg hfresh]
    exact ⟨rfl, by simp [hreceived], fun _ => rfl, fun hne => absurd h hne, rfl, fun _ => .inl⟩
  · have hreceive : connection.receive frame = connection := by
      simp only [receive, h]
      rfl
    rw [hreceive]
    exact received_other (by rw [h]; decide) (by rw [h]; decide) fun _ hid => hid
  · have hreceive : connection.receive frame = connection.removeStream frame.streamId := by
      simp only [receive, h]
      rfl
    rw [hreceive]
    exact received_other (by rw [h]; decide) (by rw [h]; decide)
      (connection.removeStream_streams frame.streamId)
  · have hreceive : connection.receive frame = connection.receiveSettings frame := by
      simp only [receive, h]
      rfl
    rw [hreceive]
    exact received_settings h

-- The answer, in full: its second part is missing when the client has the server's scheme.
inductive Answered (connection : ServerConnection) (frame : Frame) (next : ServerConnection) :
    Prop
  | lost : next.tx = connection.tx → next.updated = connection.updated →
      Answered connection frame next
  | same : settingValue frame.data "padding-md5" = some connection.padding.md5Hex →
      next.tx = connection.tx ++ [⟨CMD_SERVER_SETTINGS, 0, encode "v=2\n"⟩] →
      next.updated = connection.updated → Answered connection frame next
  | update : next.tx = connection.tx ++ [⟨CMD_SERVER_SETTINGS, 0, encode "v=2\n"⟩,
      ⟨CMD_UPDATE_PADDING, 0, encode connection.padding.source⟩] →
      Answered connection frame next

theorem receiveSettings_answered (connection : ServerConnection) (frame : Frame) :
    (connection.receiveSettings frame).padding = connection.padding ∧
      Answered connection frame (connection.receiveSettings frame) := by
  cases hclosed : connection.txClosed with
  | true =>
      have hsend : connection.send ⟨CMD_SERVER_SETTINGS, 0, encode "v=2\n"⟩ = connection :=
        if_pos hclosed
      rw [receiveSettings, hsend]
      split
      · exact ⟨rfl, .lost rfl rfl⟩
      · rw [send, if_pos (show _ = true from hclosed)]
        exact ⟨rfl, .lost rfl (by simp [hclosed])⟩
  | false =>
      have hsend : ∀ frame, connection.send frame =
          { connection with tx := connection.tx ++ [frame] } :=
        fun _ => if_neg (by simp [hclosed])
      rw [receiveSettings, hsend]
      split
      · next hsame => exact ⟨rfl, .same hsame rfl rfl⟩
      · rw [send, if_neg (by simp [hclosed])]
        exact ⟨rfl, .update (by simp)⟩

-- Only the answer to a CMD_SETTINGS is about the settings.
theorem receive_plain (connection : ServerConnection) {frame : Frame}
    (h : frame.command ≠ CMD_SETTINGS) :
    (connection.receive frame).padding = connection.padding ∧
      (connection.receive frame).updated = connection.updated ∧
      ∃ added, (connection.receive frame).tx = connection.tx ++ added ∧
        ∀ other ∈ added, other.command = CMD_HEARTBEAT_RESPONSE := by
  have hsame : ∀ next : ServerConnection, next.padding = connection.padding →
      next.updated = connection.updated → next.tx = connection.tx →
      next.padding = connection.padding ∧ next.updated = connection.updated ∧
        ∃ added, next.tx = connection.tx ++ added ∧
          ∀ other ∈ added, other.command = CMD_HEARTBEAT_RESPONSE :=
    fun next hpadding hupdated htx => ⟨hpadding, hupdated, [], by simp [htx], by simp⟩
  rw [receive, if_neg h]
  split_ifs
  · unfold receiveSyn
    split_ifs <;> exact hsame _ rfl rfl rfl
  · exact hsame _ rfl rfl rfl
  · exact hsame _ rfl rfl rfl
  · obtain heq | heq := connection.send_cases ⟨CMD_HEARTBEAT_RESPONSE, 0, frame.data⟩
    · rw [heq]
      exact hsame _ rfl rfl rfl
    · rw [heq]
      exact ⟨rfl, rfl, _, rfl, by simp⟩
  · exact hsame _ rfl rfl rfl
  · exact hsame _ rfl rfl rfl
  · exact hsame _ rfl rfl rfl

end

end ServerConnection

-- The second list is the first one with waste frames put in at one place.
def Padded (before after : List Frame) : Prop :=
  ∃ front wastes back, Waste wastes ∧ before = front ++ back ∧ after = front ++ wastes ++ back

theorem mem_padded {before after : List Frame} {frame : Frame} (h : Padded before after) (hf : frame ∈ after) :
    frame ∈ before ∨ frame.command = CMD_WASTE := by
  obtain ⟨front, wastes, back, hw, rfl, rfl⟩ := h
  simp only [List.mem_append] at hf ⊢
  obtain (hfront | hwaste) | hback := hf
  · exact .inl (.inl hfront)
  · exact .inr (hw.command frame hwaste)
  · exact .inl (.inr hback)

namespace Connection

def Whole (connection : Connection) : Prop :=
  connection.uplink.Whole ∧ connection.downlink.Whole

-- What a step does to the two sides and to the frames on their way.
inductive Moves (connection next : Connection) : Action → Prop
  | client (action : ClientSession.Action) : connection.client.Own action next.client →
      (connection.client.Started → next.client.Started) → next.server = connection.server →
      next.uplink = connection.uplink → next.downlink = connection.downlink →
      Moves connection next (.client action)
  | server (action : ServerConnection.Action) : connection.server.Own next.server →
      next.client = connection.client → next.uplink = connection.uplink →
      next.downlink = connection.downlink → Moves connection next (.server action)
  | clientWrites (random : Nat → Option UInt64) (frame : Frame) (rest : List Frame)
      (closed : Bool) : connection.client.tx = frame :: rest →
      next.client = { connection.client with tx := rest, txClosed := closed } →
      next.server = connection.server → next.downlink = connection.downlink →
      (Padded connection.upward next.upward ∨
        (MAX_FRAME_SIZE < frame.data.length ∧ next.upward = connection.uplink.frames ++ rest)) →
      Moves connection next (.clientWrites random)
  | serverWrites (random : Nat → Option UInt64) (frame : Frame) (rest : List Frame)
      (closed : Bool) : connection.server.tx = frame :: rest →
      next.server = { connection.server with tx := rest, txClosed := closed } →
      next.client = connection.client → next.uplink = connection.uplink →
      (Padded connection.downward next.downward ∨
        (MAX_FRAME_SIZE < frame.data.length ∧
          next.downward = connection.downlink.frames ++ rest)) →
      Moves connection next (.serverWrites random)
  | clientReceives (frame : Frame) : next.client = connection.client.receive frame →
      connection.downward = frame :: (next.downlink.frames ++ connection.server.tx) →
      next.server = connection.server → next.uplink = connection.uplink →
      Moves connection next .clientReceives
  | serverReceives (frame : Frame) : next.server = connection.server.receive frame →
      connection.upward = frame :: (next.uplink.frames ++ connection.client.tx) →
      next.client = connection.client → next.downlink = connection.downlink →
      Moves connection next .serverReceives

theorem new_whole (clientPadding serverPadding : PaddingScheme) :
    (new clientPadding serverPadding).Whole := ⟨Link.new_whole.1, Link.new_whole.1⟩

-- A side's own steps are not those in which it receives or writes.
theorem client_of_step {connection next : Connection} {action : ClientSession.Action}
    (h : connection.step (.client action) = some next) :
    (∀ frame, action ≠ .receive frame) ∧ action ≠ .written ∧
      ∃ client, connection.client.step action = some client ∧ next = { connection with client } := by
  cases action with
  | receive frame => cases h
  | written => cases h
  | closeTx | repadded _ => exact ⟨by simp, by simp, _, rfl, (Option.some.inj h).symm⟩
  | _ =>
      obtain ⟨client, hclient, rfl⟩ := Option.map_eq_some_iff.mp h
      exact ⟨by simp, by simp, client, hclient, rfl⟩

theorem server_of_step {connection next : Connection} {action : ServerConnection.Action}
    (h : connection.step (.server action) = some next) :
    (∀ frame, action ≠ .receive frame) ∧ action ≠ .written ∧
      ∃ server, connection.server.step action = some server ∧ next = { connection with server } := by
  cases action with
  | receive frame => cases h
  | written => cases h
  | closeTx => exact ⟨by simp, by simp, _, rfl, (Option.some.inj h).symm⟩
  | _ =>
      obtain ⟨server, hserver, rfl⟩ := Option.map_eq_some_iff.mp h
      exact ⟨by simp, by simp, server, hserver, rfl⟩

-- The writer's frame and the waste behind it take the place of the frame in the channel.
theorem padded_of_write {frames wastes rest : List Frame} (frame : Frame) (hw : Waste wastes) :
    Padded (frames ++ frame :: rest) (frames ++ frame :: wastes ++ rest) :=
  ⟨frames ++ [frame], wastes, rest, hw, by simp, by simp⟩

theorem moves_of_step {connection next : Connection} {action : Action} (hw : connection.Whole)
    (h : connection.step action = some next) : next.Whole ∧ Moves connection next action := by
  cases action with
  | client action =>
      obtain ⟨hreceive, hwritten, client, hclient, rfl⟩ := client_of_step h
      have hown := ClientSession.own_of_step hclient hreceive hwritten
      exact ⟨hw, .client action hown (ClientSession.started_of_step hclient hown.emits.announced)
        rfl rfl rfl⟩
  | server action =>
      obtain ⟨hreceive, hwritten, server, hserver, rfl⟩ := server_of_step h
      exact ⟨hw, .server action (ServerConnection.own_of_step hserver hreceive hwritten) rfl rfl rfl⟩
  | clientWrites random =>
      obtain ⟨frame, hhead, h⟩ := Option.bind_eq_some_iff.mp h
      obtain ⟨client, hclient, rfl⟩ := Option.map_eq_some_iff.mp h
      obtain ⟨rest, htx⟩ : ∃ rest, connection.client.tx = frame :: rest :=
        List.head?_eq_some_iff.mp hhead
      simp only [ClientSession.step, htx] at hclient
      split at hclient
      · rename_i hopen heq
        obtain ⟨rfl, rfl⟩ := List.cons.inj heq
        obtain rfl := Option.some.inj hclient
        by_cases hlen : frame.data.length ≤ MAX_FRAME_SIZE
        · obtain ⟨uplink, wastes, hwrite, hwhole, hwaste, hframes⟩ :=
            hw.1.write ⟨frame, connection.client.padding, random⟩ hlen
          rw [hwrite]
          refine ⟨⟨hwhole, hw.2⟩, .clientWrites random frame _ _ htx rfl rfl rfl (.inl ?_)⟩
          simp only [upward, hframes, htx]
          exact padded_of_write frame hwaste
        · have hlarge := Nat.lt_of_not_le hlen
          rw [Link.write_large hlarge]
          exact ⟨hw, .clientWrites random frame _ true htx rfl rfl rfl (.inr ⟨hlarge, rfl⟩)⟩
      · cases hclient
  | serverWrites random =>
      obtain ⟨frame, hhead, h⟩ := Option.bind_eq_some_iff.mp h
      obtain ⟨server, hserver, rfl⟩ := Option.map_eq_some_iff.mp h
      obtain ⟨rest, htx⟩ : ∃ rest, connection.server.tx = frame :: rest :=
        List.head?_eq_some_iff.mp hhead
      simp only [ServerConnection.step, htx] at hserver
      split at hserver
      · rename_i hopen heq
        obtain ⟨rfl, rfl⟩ := List.cons.inj heq
        obtain rfl := Option.some.inj hserver
        by_cases hlen : frame.data.length ≤ MAX_FRAME_SIZE
        · obtain ⟨downlink, wastes, hwrite, hwhole, hwaste, hframes⟩ :=
            hw.2.write ⟨frame, connection.server.padding, random⟩ hlen
          rw [hwrite]
          refine ⟨⟨hw.1, hwhole⟩, .serverWrites random frame _ _ htx rfl rfl rfl (.inl ?_)⟩
          simp only [downward, hframes, htx]
          exact padded_of_write frame hwaste
        · have hlarge := Nat.lt_of_not_le hlen
          rw [Link.write_large hlarge]
          exact ⟨hw, .serverWrites random frame _ true htx rfl rfl rfl (.inr ⟨hlarge, rfl⟩)⟩
      · cases hserver
  | clientReceives =>
      obtain ⟨⟨frame, downlink⟩, hread, h⟩ := Option.bind_eq_some_iff.mp h
      obtain ⟨client, hclient, rfl⟩ := Option.map_eq_some_iff.mp h
      simp only [ClientSession.step, Option.ite_none_right_eq_some, Option.some.injEq] at hclient
      obtain ⟨_, rfl⟩ := hclient
      obtain ⟨hwhole, hframes⟩ := hw.2.read hread
      refine ⟨⟨hw.1, hwhole⟩, .clientReceives frame rfl ?_ rfl rfl⟩
      rw [downward, hframes]
      rfl
  | serverReceives =>
      obtain ⟨⟨frame, uplink⟩, hread, h⟩ := Option.bind_eq_some_iff.mp h
      obtain ⟨server, hserver, rfl⟩ := Option.map_eq_some_iff.mp h
      simp only [ServerConnection.step, Option.ite_none_right_eq_some, Option.some.injEq] at hserver
      obtain ⟨_, rfl⟩ := hserver
      obtain ⟨hwhole, hframes⟩ := hw.1.read hread
      refine ⟨⟨hwhole, hw.2⟩, .serverReceives frame rfl ?_ rfl rfl⟩
      rw [upward, hframes]
      rfl

end Connection

end SingBox.AnyTls
