import SingBox.AnyTls.Connection.Wrap
import SingBox.AnyTls.Outbound.Negotiation

namespace SingBox.AnyTls

open Library
open Utf8 (encode)
open Connection (PLAIN)

namespace Connection

variable {before server : PaddingScheme} {connection next : Connection}

-- Only the server's scheme takes the place of the one under the lock.
theorem Negotiated.padding_step (h : connection.Negotiated before server)
    (hparse : ClientSession.parseUpdate (encode server.source) = .ok server) {action : Action}
    (haction : ∀ padding, action ≠ .client (.repadded padding))
    (hs : connection.step action = some next) :
    next.client.padding = connection.client.padding ∨ next.client.padding = server := by
  obtain ⟨_, hmoves⟩ := moves_of_step h.whole hs
  cases hmoves with
  | client action hown _ _ _ _ =>
      exact .inl (hown.padding fun padding heq => haction padding (congrArg _ heq))
  | server action _ hclient _ _ => exact .inl (by rw [hclient])
  | clientWrites random frame rest closed _ hclient _ _ _ => exact .inl (by rw [hclient])
  | serverWrites random frame rest closed _ _ hclient _ _ => exact .inl (by rw [hclient])
  | serverReceives frame _ _ hclient _ => exact .inl (by rw [hclient])
  | clientReceives frame hclient hdown _ _ =>
      by_cases hupdate : frame.command = CMD_UPDATE_PADDING
      · have hdata := h.updates frame (hdown ▸ List.mem_cons_self) hupdate
        rw [hclient, connection.client.receive_update hupdate (hdata ▸ hparse)]
        exact .inr rfl
      · rw [hclient]
        exact .inl ((connection.client.receive_heard frame).padding hupdate)

-- A frame of the server goes all the way down when nothing is before it.
theorem exec_pass_down (connection : Connection) {frame : Frame} {rest : List Frame}
    (htx : connection.server.tx = frame :: rest) (hopen : connection.server.txClosed = false)
    (hrules : ∀ index, connection.server.padding.rules index = none)
    (hlen : frame.data.length ≤ MAX_FRAME_SIZE) (hbytes : connection.downlink.bytes = [])
    (hreader : connection.client.reader = none) :
    ∃ next, Run.exec step connection [.serverWrites fun _ => none, .clientReceives] = some next ∧
      next.server = { connection.server with tx := rest } ∧
      next.client = connection.client.receive frame ∧ next.downlink.bytes = [] := by
  obtain ⟨downlink, hwrite, hread⟩ := Link.pass hrules hlen hbytes
  refine ⟨{ connection with
    server := { connection.server with tx := rest }
    client := connection.client.receive frame
    downlink := { downlink with bytes := [] } }, ?_, rfl, rfl, rfl⟩
  simp [Run.exec, step, ServerConnection.step, htx, hopen, hwrite, hread, ClientSession.step,
    hreader]

end Connection

namespace AnyTlsOutbound

structure Negotiated (before server : PaddingScheme) (outbound : AnyTlsOutbound) : Prop where
  fixed : outbound.server = server
  either : outbound.padding = before ∨ outbound.padding = server
  sessions : ∀ connection ∈ outbound.connections,
    (outbound.shared connection).Negotiated before server

section

variable {before server : PaddingScheme} {outbound next : AnyTlsOutbound}

theorem new_negotiated (before server : PaddingScheme) :
    (new before server).Negotiated before server := ⟨rfl, .inl rfl, by simp [new]⟩

-- What another session has put under the lock is as good for this one.
theorem shared_negotiated {connection : Connection} {padding : PaddingScheme}
    (h : (outbound.shared connection).Negotiated before server)
    (hpadding : padding = outbound.padding ∨ padding = server) :
    ({ outbound with padding }.shared connection).Negotiated before server := by
  obtain rfl | rfl := hpadding
  · exact h
  · exact h.settled h.whole h.fixed rfl (fun _ => .inl) fun _ hframe => hframe

theorem step_session (index : Nat) {action : Connection.Action}
    (h : ∀ padding, action ≠ .client (.repadded padding)) :
    outbound.step (.session index action) =
      outbound.connections[index]?.bind fun connection =>
        ((outbound.shared connection).step action).map fun next =>
          { outbound with
            padding := next.client.padding, connections := outbound.connections.set index next } := by
  unfold step
  split
  · next heq => cases heq
  · next padding heq => exact absurd (Action.session.inj heq).2 (h padding)
  · next heq =>
      obtain ⟨rfl, rfl⟩ := Action.session.inj heq
      rfl

theorem session_of_step {index : Nat} {action : Connection.Action}
    (h : outbound.step (.session index action) = some next) :
    (∀ padding, action ≠ .client (.repadded padding)) ∧
      ∃ connection ∈ outbound.connections, ∃ after,
        (outbound.shared connection).step action = some after ∧
        next = { outbound with
          padding := after.client.padding, connections := outbound.connections.set index after } := by
  have hother : ∀ padding, action ≠ .client (.repadded padding) := by
    rintro padding rfl
    cases h
  rw [step_session index hother] at h
  obtain ⟨connection, hget, h⟩ := Option.bind_eq_some_iff.mp h
  obtain ⟨after, hafter, rfl⟩ := Option.map_eq_some_iff.mp h
  exact ⟨hother, connection, List.mem_of_getElem? hget, after, hafter, rfl⟩

theorem negotiated_step (h : outbound.Negotiated before server)
    (hparse : ClientSession.parseUpdate (encode server.source) = .ok server)
    (hlen : (encode server.source).length ≤ MAX_FRAME_SIZE) {action : Action}
    (hs : outbound.step action = some next) :
    next.Negotiated before server ∧
      (next.padding = outbound.padding ∨ next.padding = server) := by
  cases action with
  | connect =>
      obtain rfl := Option.some.inj hs
      refine ⟨⟨h.fixed, h.either, fun connection hmem => ?_⟩, .inl rfl⟩
      obtain hold | hnew := List.mem_append.mp hmem
      · exact h.sessions connection hold
      · rw [List.mem_singleton.mp hnew, h.fixed]
        exact Connection.new_negotiated h.either
  | session index action =>
      obtain ⟨hother, connection, hmem, after, hafter, rfl⟩ := session_of_step hs
      have hsession := h.sessions connection hmem
      have hpadding := hsession.padding_step hparse hother hafter
      have hnext := Connection.negotiated_step hsession hparse hlen hother hafter
      refine ⟨⟨h.fixed, hnext.either, fun other hset => ?_⟩, hpadding⟩
      obtain hold | rfl := List.mem_or_eq_of_mem_set hset
      · exact shared_negotiated (h.sessions other hold) hpadding
      · exact hnext

-- The scheme of a run is either the one before it or the server's.
theorem negotiated_run (h : outbound.Negotiated before server)
    (hparse : ClientSession.parseUpdate (encode server.source) = .ok server)
    (hlen : (encode server.source).length ≤ MAX_FRAME_SIZE) {actions : List Action}
    (hrun : Run.exec step outbound actions = some next) :
    next.Negotiated before server ∧
      (next.padding = outbound.padding ∨ next.padding = server) := by
  have hstep : ∀ state action after, state.Negotiated before server ∧
      (state.padding = outbound.padding ∨ state.padding = server) → step state action = some after →
      after.Negotiated before server ∧ (after.padding = outbound.padding ∨ after.padding = server) := by
    rintro state action after ⟨hstate, hpadding⟩ hs
    obtain ⟨hafter, hsame | hserver⟩ := negotiated_step hstate hparse hlen hs
    · exact ⟨hafter, hsame ▸ hpadding⟩
    · exact ⟨hafter, .inr hserver⟩
  exact Run.invariant hstep outbound actions next ⟨h, .inl rfl⟩ hrun

end

-- The server has nothing to say about settings with its own checksum.
theorem settings_answer (peer : ServerConnection) {padding : PaddingScheme}
    (h : padding.md5Hex = peer.padding.md5Hex) :
    ∀ frame ∈ (peer.receive (settingsFrame padding)).tx,
      frame ∈ peer.tx ∨ frame.command ≠ CMD_UPDATE_PADDING := by
  have hvalue : settingValue (settingsFrame padding).data "padding-md5" =
      some peer.padding.md5Hex := by
    rw [← h]
    exact settingValue_settingsData padding
  have hpadding := (peer.send_frame ⟨CMD_SERVER_SETTINGS, 0, encode "v=2\n"⟩)
  rw [Connection.receive_settings, ServerConnection.receiveSettings, hpadding, if_pos hvalue]
  intro frame hframe
  refine (ServerConnection.mem_send hframe).imp_right fun heq => ?_
  rw [heq]
  decide

-- One exchange on one session is enough for all of them, and for good.
theorem converges {text : String} {server : PaddingScheme}
    (hparse : PaddingScheme.parse text = .ok server) (hlen : (encode text).length ≤ 65535)
    (before : PaddingScheme) (actions : List Action) {outbound : AnyTlsOutbound}
    (hrun : Run.exec step (new before server) actions = some outbound) {connection : Connection}
    (hmem : connection ∈ outbound.connections) (hdone : connection.Exchanged)
    (later : List Action) {final : AnyTlsOutbound}
    (hlater : Run.exec step outbound later = some final) :
    final.padding.md5Hex = server.md5Hex ∧
      (connection.server.updated = true →
        final.padding.stop = server.stop ∧ final.padding.rules = server.rules) ∧
      ∀ peer : ServerConnection, peer.padding = server →
        ∀ frame ∈ (peer.receive (settingsFrame final.padding)).tx,
          frame ∈ peer.tx ∨ frame.command ≠ CMD_UPDATE_PADDING := by
  have hupdate := PaddingScheme.parseUpdate_source hparse
  have hsource := PaddingScheme.source_length hparse hlen
  obtain ⟨hnegotiated, _⟩ := negotiated_run (new_negotiated before server) hupdate hsource hrun
  obtain ⟨hfinal, hkept⟩ := negotiated_run hnegotiated hupdate hsource hlater
  have hsession := hnegotiated.sessions connection hmem
  have hcame : ¬(outbound.shared connection).UpdateComing := by
    rintro ⟨frame, hframe, hcommand⟩
    exact hdone.2 frame hframe hcommand
  have hsettled : outbound.padding = server → final.padding = server := by
    intro hserver
    exact hkept.elim (·.trans hserver) id
  have hmd5 : final.padding.md5Hex = server.md5Hex := by
    obtain hserver | hsame | hcoming := hsession.answered (.inl hdone.1)
    · rw [hsettled hserver]
    · obtain hbefore | hserver := hfinal.either
      · rw [hbefore, hsame]
      · rw [hserver]
    · exact absurd hcoming hcame
  refine ⟨hmd5, fun hupdated => ?_, fun peer hpeer => settings_answer peer (hpeer ▸ hmd5)⟩
  obtain hserver | hcoming := hsession.updated hupdated
  · rw [hsettled hserver]
    exact ⟨rfl, rfl⟩
  · exact absurd hcoming hcame

-- The steps of a session are steps of an outbound that has no other.
theorem exec_session {connection next : Connection} (server : PaddingScheme)
    {actions : List Connection.Action}
    (hactions : ∀ action ∈ actions, ∀ padding, action ≠ .client (.repadded padding))
    (hrun : Run.exec Connection.step connection actions = some next) :
    Run.exec step ⟨connection.client.padding, server, [connection]⟩ (actions.map (.session 0)) =
      some ⟨next.client.padding, server, [next]⟩ := by
  induction actions generalizing connection with
  | nil =>
      obtain rfl : connection = next := by simpa [Run.exec] using hrun
      rfl
  | cons action rest ih =>
      obtain ⟨mid, hmid, hrest⟩ := Option.bind_eq_some_iff.mp hrun
      obtain ⟨haction, hothers⟩ := List.forall_mem_cons.mp hactions
      have hstep := @step_session ⟨connection.client.padding, server, [connection]⟩ 0 action
        haction
      rw [List.map_cons, Run.exec, hstep]
      simp only [shared, List.getElem?_cons_zero, Option.bind_some, hmid, Option.map_some,
        List.set_cons_zero]
      exact ih hothers hrest

def NINE : PaddingScheme := { stop := 9, rules := fun _ => none, source := "stop=9" }

def asking : Connection :=
  { Connection.new PLAIN NINE with
    client := { ClientSession.new PLAIN with announced := true, tx := [settingsFrame PLAIN] } }

theorem receive_plain : (ServerConnection.new NINE).receive (settingsFrame PLAIN) =
    { ServerConnection.new NINE with
      settingsReceived := true
      tx := [⟨CMD_SERVER_SETTINGS, 0, encode "v=2\n"⟩, ⟨CMD_UPDATE_PADDING, 0, encode NINE.source⟩]
      updated := true } := by
  have hmd5 : ¬PLAIN.md5Hex = NINE.md5Hex := by decide +kernel
  have hvalue : settingValue (settingsFrame PLAIN).data "padding-md5" = some PLAIN.md5Hex :=
    settingValue_settingsData PLAIN
  rw [Connection.receive_settings, ServerConnection.receiveSettings, hvalue]
  exact if_neg fun heq => hmd5 (Option.some.inj heq)

-- The settings go up, and the answer and the update come down.
theorem exec_exchange : ∃ actions next, Run.exec Connection.step asking actions = some next ∧
    (∀ action ∈ actions, ∀ padding, action ≠ .client (.repadded padding)) ∧
    next.Exchanged ∧ next.server.updated = true := by
  obtain ⟨asked, hup, hclient, hserver, hdownlink, _⟩ := Connection.exec_pass asking rfl rfl
    (fun _ => rfl) (settingsData_length PLAIN) rfl rfl
  have hanswer := hserver.trans receive_plain
  obtain ⟨told, hsettings, htold, hheard, hbytes⟩ := Connection.exec_pass_down asked
    (by rw [hanswer]) (by rw [hanswer]; rfl) (by rw [hanswer]; exact fun _ => rfl)
    (show (encode "v=2\n").length ≤ MAX_FRAME_SIZE by decide) (by rw [hdownlink]; rfl)
    (by rw [hclient]; rfl)
  rw [hanswer] at htold
  have hsupports : told.client = { asked.client with supportsV2 := true } := hheard.trans rfl
  obtain ⟨next, hupdate, hdone, hpadded, hempty⟩ := Connection.exec_pass_down told
    (by rw [htold]) (by rw [htold]; rfl) (by rw [htold]; exact fun _ => rfl)
    (show (encode NINE.source).length ≤ MAX_FRAME_SIZE by decide) hbytes
    (by rw [hsupports, hclient]; rfl)
  refine ⟨_, next, Run.exec_trans hup (Run.exec_trans hsettings hupdate), by simp, ⟨?_, ?_⟩, ?_⟩
  · have hparse : ClientSession.parseUpdate (encode NINE.source) = .ok NINE :=
      @PaddingScheme.parseUpdate_source "stop=9" _ rfl
    rw [hpadded, ClientSession.receive_update _ rfl hparse, hsupports]
  · have hframes : next.downlink.frames = [] :=
      (Link.frames_of_bytes next.downlink (show _ = wire [] from hempty) (by simp)).2
    rw [Connection.downward, hframes, hdone, htold]
    simp
  · rw [hdone, htold]

theorem converges_nine : ∃ actions outbound, Run.exec step (new PLAIN NINE) actions = some outbound ∧
    outbound.padding.md5Hex = NINE.md5Hex ∧ outbound.padding.stop = 9 := by
  obtain ⟨actions, next, hexchange, hactions, hdone, hupdated⟩ := exec_exchange
  have hstart : Run.exec step (new PLAIN NINE) [.connect, .session 0 (.client .announce)] =
      some ⟨PLAIN, NINE, [asking]⟩ := rfl
  have hrun := Run.exec_trans hstart (exec_session NINE hactions hexchange)
  obtain ⟨hmd5, hstop, _⟩ := @converges "stop=9" NINE rfl (by decide +kernel) PLAIN _ _ hrun next
    (List.mem_singleton_self next) hdone [] _ rfl
  exact ⟨_, _, hrun, hmd5, (hstop hupdated).1⟩

end AnyTlsOutbound

end SingBox.AnyTls
