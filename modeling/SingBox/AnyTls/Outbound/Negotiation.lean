import SingBox.AnyTls.Connection.Step
import SingBox.AnyTls.Connection
import SingBox.AnyTls.Padding.Preamble

namespace SingBox.AnyTls

open Library
open Utf8 (encode)

namespace PaddingScheme

theorem sourceText_sourceText (text : String) : sourceText (sourceText text) = sourceText text := by
  have hdefault : (Text.trim DEFAULT_PADDING_SCHEME.toList).isEmpty = false := by
    decide +kernel
  by_cases hblank : (Text.trim text.toList).isEmpty = true
  · have hsource : sourceText text = DEFAULT_PADDING_SCHEME := if_pos hblank
    rw [hsource, sourceText, hdefault]
    rfl
  · have hsource : sourceText text = text := if_neg hblank
    rw [hsource, hsource]

theorem parse_congr {text other : String} (h : sourceText text = sourceText other) :
    parse text = parse other := by
  have heq : ∀ text, parse text = (do
      let scheme ← (Text.splitWhitespace (sourceText text).toList).foldlM parseItem
        { stop := 8, rules := fun _ => none, source := sourceText text }
      Result.ensure (0 < scheme.stop) "AnyTLS padding stop must be positive"
      return scheme) := fun _ => rfl
  rw [heq, heq, h]

-- What the server sends is parsed to what it has.
theorem parse_of_source {text : String} {scheme : PaddingScheme} (h : parse text = .ok scheme) :
    parse scheme.source = .ok scheme := by
  rw [parse_source h, parse_congr (sourceText_sourceText text), h]

theorem parseUpdate_source {text : String} {scheme : PaddingScheme}
    (h : parse text = .ok scheme) : ClientSession.parseUpdate (encode scheme.source) = .ok scheme := by
  have hsource : Result.ofOption "invalid utf-8" (Utf8.decode (encode scheme.source)) =
      .ok scheme.source := by rw [Utf8.decode_encode, Result.ofOption]
  exact Result.bind_eq_ok.mpr ⟨scheme.source, hsource, parse_of_source h⟩

theorem source_length {text : String} {scheme : PaddingScheme} (h : parse text = .ok scheme)
    (hlen : (encode text).length ≤ MAX_FRAME_SIZE) :
    (encode scheme.source).length ≤ MAX_FRAME_SIZE := by
  rw [parse_source h, sourceText]
  split
  · have hascii : ∀ char ∈ DEFAULT_PADDING_SCHEME.toList, char.toNat < 128 :=
      List.all_iff_forall_prop.mp (by decide +kernel)
    rw [Utf8.encode_length hascii]
    decide +kernel
  · exact hlen

end PaddingScheme

-- Nothing about the settings comes up, and no CMD_UPDATE_PADDING goes away.
structure Keeps (before after : List Frame) : Prop where
  old : ∀ frame ∈ after, frame ∈ before ∨
    (frame.command ≠ CMD_UPDATE_PADDING ∧ frame.command ≠ CMD_SERVER_SETTINGS)
  update : ∀ frame ∈ before, frame.command = CMD_UPDATE_PADDING → frame ∈ after

namespace Connection

def UpdateComing (connection : Connection) : Prop :=
  ∃ frame ∈ connection.downward, frame.command = CMD_UPDATE_PADDING

-- Where the scheme of the client was `before` and that of the server is `server`. What the
-- server has answered makes up for a scheme that is not the server's.
structure Negotiated (before server : PaddingScheme) (connection : Connection) : Prop where
  whole : connection.Whole
  fixed : connection.server.padding = server
  either : connection.client.padding = before ∨ connection.client.padding = server
  settings : ∀ frame ∈ connection.upward, frame.command = CMD_SETTINGS →
    frame.data = settingsData before ∨
      (frame.data = settingsData server ∧ connection.client.padding = server)
  updates : ∀ frame ∈ connection.downward, frame.command = CMD_UPDATE_PADDING →
    frame.data = encode server.source
  answered : (connection.client.supportsV2 = true ∨
      ∃ frame ∈ connection.downward, frame.command = CMD_SERVER_SETTINGS) →
    connection.client.padding = server ∨ before.md5Hex = server.md5Hex ∨ connection.UpdateComing
  updated : connection.server.updated = true →
    connection.client.padding = server ∨ connection.UpdateComing

section

variable {before server : PaddingScheme} {connection next : Connection}

theorem new_negotiated {padding : PaddingScheme} (h : padding = before ∨ padding = server) :
    (new padding server).Negotiated before server := by
  have hframes : Link.new.frames ++ [] = [] := by rw [Link.new_whole.2, List.append_nil]
  have hup : (new padding server).upward = [] := hframes
  have hdown : (new padding server).downward = [] := hframes
  refine ⟨new_whole _ _, rfl, h, ?_, ?_, ?_, ?_⟩
  · simp [hup]
  · simp [hdown]
  · rw [hdown]
    rintro (hset | ⟨frame, hframe, _⟩)
    · cases hset
    · cases hframe
  · intro hset
    cases hset

theorem UpdateComing.keeps (h : connection.UpdateComing)
    (hdown : Keeps connection.downward next.downward) : next.UpdateComing := by
  obtain ⟨frame, hframe, hcommand⟩ := h
  exact ⟨frame, hdown.update frame hframe hcommand, hcommand⟩

-- A step in which nothing is received that is about the settings.
theorem Negotiated.keep (h : connection.Negotiated before server) (hw : next.Whole)
    (hserver : next.server.padding = connection.server.padding)
    (hupdated : next.server.updated = connection.server.updated)
    (hpadding : next.client.padding = connection.client.padding)
    (hsupports : next.client.supportsV2 = connection.client.supportsV2)
    (hup : ∀ frame ∈ next.upward, frame ∈ connection.upward ∨
      (frame.command = CMD_SETTINGS → frame.data = settingsData connection.client.padding))
    (hdown : Keeps connection.downward next.downward) : next.Negotiated before server := by
  refine ⟨hw, hserver.trans h.fixed, hpadding ▸ h.either, ?_, ?_, ?_, ?_⟩
  · intro frame hframe hcommand
    rw [hpadding]
    obtain hold | hnew := hup frame hframe
    · exact h.settings frame hold hcommand
    · rw [hnew hcommand]
      exact h.either.imp (congrArg settingsData) fun heq => ⟨congrArg settingsData heq, heq⟩
  · intro frame hframe hcommand
    obtain hold | ⟨hne, _⟩ := hdown.old frame hframe
    · exact h.updates frame hold hcommand
    · exact absurd hcommand hne
  · intro hanswered
    rw [hpadding]
    have hbefore : connection.client.supportsV2 = true ∨
        ∃ frame ∈ connection.downward, frame.command = CMD_SERVER_SETTINGS := by
      obtain hset | ⟨frame, hframe, hcommand⟩ := hanswered
      · exact .inl (hsupports ▸ hset)
      · obtain hold | ⟨_, hne⟩ := hdown.old frame hframe
        · exact .inr ⟨frame, hold, hcommand⟩
        · exact absurd hcommand hne
    exact (h.answered hbefore).imp_right (Or.imp_right (·.keeps hdown))
  · intro hset
    rw [hpadding]
    exact (h.updated (hupdated ▸ hset)).imp_right (·.keeps hdown)

theorem keeps_of_padded {before after : List Frame} (h : Padded before after) :
    Keeps before after := by
  refine ⟨fun frame hframe => (mem_padded h hframe).imp_right fun hwaste => ?_, ?_⟩
  · rw [hwaste]
    decide
  · intro frame hframe _
    obtain ⟨front, wastes, back, _, rfl, rfl⟩ := h
    simp only [List.mem_append] at hframe ⊢
    exact hframe.imp_left .inl

theorem keeps_append {before added : List Frame}
    (h : ∀ frame ∈ added, frame.command ≠ CMD_UPDATE_PADDING ∧
      frame.command ≠ CMD_SERVER_SETTINGS) : Keeps before (before ++ added) :=
  ⟨fun frame hframe => (List.mem_append.mp hframe).imp_right (h frame),
    fun _ hframe _ => List.mem_append_left _ hframe⟩

theorem Negotiated.client (h : connection.Negotiated before server) (hw : next.Whole)
    {action : ClientSession.Action} (hown : connection.client.Own action next.client)
    (haction : ∀ padding, action ≠ .repadded padding) (hserver : next.server = connection.server)
    (huplink : next.uplink = connection.uplink) (hdownlink : next.downlink = connection.downlink) :
    next.Negotiated before server := by
  have hdown : next.downward = connection.downward := by
    rw [downward, downward, hserver, hdownlink]
  have hnew : ∃ added, next.client.tx = connection.client.tx ++ added ∧ ∀ frame ∈ added,
      frame.command = CMD_SETTINGS → frame.data = settingsData connection.client.padding := by
    cases hown.emits with
    | quiet _ htx => exact ⟨[], htx.trans (List.append_nil _).symm, by simp⟩
    | announce _ htx => exact ⟨_, htx, by simp [settingsFrame]⟩
    | number _ _ htx => exact ⟨[], htx.trans (List.append_nil _).symm, by simp⟩
    | syn _ _ _ _ htx =>
        refine ⟨_, htx, fun frame hframe hcommand => ?_⟩
        rw [List.mem_singleton.mp hframe] at hcommand
        cases hcommand
    | data frame hother _ _ htx =>
        refine ⟨_, htx, fun other hmem hcommand => ?_⟩
        rw [List.mem_singleton.mp hmem] at hcommand
        obtain heq | heq := hother <;> rw [heq] at hcommand <;> cases hcommand
  obtain ⟨added, htx, hadded⟩ := hnew
  refine h.keep hw (by rw [hserver]) (by rw [hserver]) (hown.padding haction) hown.supportsV2 ?_
    (hdown ▸ ⟨fun _ => .inl, fun _ hframe _ => hframe⟩)
  intro frame hframe
  rw [upward, huplink, htx, ← List.append_assoc] at hframe
  exact (List.mem_append.mp hframe).imp_right (hadded frame)

theorem Negotiated.server_own (h : connection.Negotiated before server) (hw : next.Whole)
    (hown : connection.server.Own next.server) (hclient : next.client = connection.client)
    (huplink : next.uplink = connection.uplink) (hdownlink : next.downlink = connection.downlink) :
    next.Negotiated before server := by
  have hup : next.upward = connection.upward := by rw [upward, upward, huplink, hclient]
  refine h.keep hw hown.padding hown.updated (by rw [hclient]) (by rw [hclient])
    (fun frame hframe => .inl (hup ▸ hframe)) ?_
  obtain htx | ⟨frame, htx, hcommand⟩ := hown.tx
  · rw [downward, downward, hdownlink, htx]
    exact ⟨fun _ => .inl, fun _ hframe _ => hframe⟩
  · rw [downward, downward, hdownlink, htx, ← List.append_assoc]
    refine keeps_append fun other hother => ?_
    rw [List.mem_singleton.mp hother]
    simp only [List.mem_cons, List.not_mem_nil, or_false] at hcommand
    obtain heq | heq | heq := hcommand <;> rw [heq] <;> decide

-- A frame that is too large is lost, but it is not one about the settings.
theorem Negotiated.serverWrites (h : connection.Negotiated before server) (hw : next.Whole)
    (hlen : (encode server.source).length ≤ MAX_FRAME_SIZE) {frame : Frame} {rest : List Frame}
    {closed : Bool} (htx : connection.server.tx = frame :: rest)
    (hserver : next.server = { connection.server with tx := rest, txClosed := closed })
    (hclient : next.client = connection.client) (huplink : next.uplink = connection.uplink)
    (hdown : Padded connection.downward next.downward ∨
      (MAX_FRAME_SIZE < frame.data.length ∧ next.downward = connection.downlink.frames ++ rest)) :
    next.Negotiated before server := by
  have hup : next.upward = connection.upward := by rw [upward, upward, huplink, hclient]
  refine h.keep hw (by rw [hserver]) (by rw [hserver]) (by rw [hclient]) (by rw [hclient])
    (fun frame hframe => .inl (hup ▸ hframe)) ?_
  obtain hpadded | ⟨hlarge, hlost⟩ := hdown
  · exact keeps_of_padded hpadded
  · have hbefore : connection.downward = connection.downlink.frames ++ frame :: rest := by
      rw [downward, htx]
    rw [hlost, hbefore]
    refine ⟨fun other hother => .inl ?_, fun other hother hcommand => ?_⟩
    · obtain hfront | hback := List.mem_append.mp hother
      · exact List.mem_append_left _ hfront
      · exact List.mem_append_right _ (List.mem_cons_of_mem _ hback)
    · obtain hfront | hback := List.mem_append.mp hother
      · exact List.mem_append_left _ hfront
      · obtain rfl | hback := List.mem_cons.mp hback
        · have hdata := h.updates other (hbefore ▸ hother) hcommand
          rw [hdata] at hlarge
          exact absurd hlen (Nat.not_le_of_lt hlarge)
        · exact List.mem_append_right _ hback

theorem Negotiated.clientWrites (h : connection.Negotiated before server) (hw : next.Whole)
    {frame : Frame} {rest : List Frame} {closed : Bool} (htx : connection.client.tx = frame :: rest)
    (hclient : next.client = { connection.client with tx := rest, txClosed := closed })
    (hserver : next.server = connection.server) (hdownlink : next.downlink = connection.downlink)
    (hup : Padded connection.upward next.upward ∨
      (MAX_FRAME_SIZE < frame.data.length ∧ next.upward = connection.uplink.frames ++ rest)) :
    next.Negotiated before server := by
  have hdown : next.downward = connection.downward := by
    rw [downward, downward, hserver, hdownlink]
  refine h.keep hw (by rw [hserver]) (by rw [hserver]) (by rw [hclient]) (by rw [hclient]) ?_
    (hdown ▸ ⟨fun _ => .inl, fun _ hframe _ => hframe⟩)
  intro other hother
  obtain hpadded | ⟨_, hlost⟩ := hup
  · refine (mem_padded hpadded hother).imp_right fun hwaste hcommand => ?_
    rw [hwaste] at hcommand
    cases hcommand
  · rw [hlost] at hother
    rw [upward, htx]
    refine .inl ?_
    obtain hfront | hback := List.mem_append.mp hother
    · exact List.mem_append_left _ hfront
    · exact List.mem_append_right _ (List.mem_cons_of_mem _ hback)

-- The scheme of the lock becomes the server's, and stays.
theorem Negotiated.settled (h : connection.Negotiated before server) (hw : next.Whole)
    (hserver : next.server.padding = server) (hpadding : next.client.padding = server)
    (hup : ∀ frame ∈ next.upward, frame ∈ connection.upward ∨ frame.command ≠ CMD_SETTINGS)
    (hdown : ∀ frame ∈ next.downward, frame ∈ connection.downward) :
    next.Negotiated before server := by
  refine ⟨hw, hserver, .inr hpadding, ?_, fun frame hframe => h.updates frame (hdown frame hframe),
    fun _ => .inl hpadding, fun _ => .inl hpadding⟩
  intro frame hframe hcommand
  obtain hold | hne := hup frame hframe
  · exact (h.settings frame hold hcommand).imp_right fun hdata => ⟨hdata.1, hpadding⟩
  · exact absurd hcommand hne

theorem Negotiated.clientReceives (h : connection.Negotiated before server) (hw : next.Whole)
    (hparse : ClientSession.parseUpdate (encode server.source) = .ok server) {frame : Frame}
    (hclient : next.client = connection.client.receive frame)
    (hdown : connection.downward = frame :: (next.downlink.frames ++ connection.server.tx))
    (hserver : next.server = connection.server) (huplink : next.uplink = connection.uplink) :
    next.Negotiated before server := by
  have hheard := connection.client.receive_heard frame
  rw [← hclient] at hheard
  have hrest : connection.downward = frame :: next.downward := by rw [hdown, downward, hserver]
  have hup : ∀ other ∈ next.upward, other ∈ connection.upward ∨ other.command ≠ CMD_SETTINGS := by
    intro other hother
    rw [upward, huplink] at hother
    obtain hfront | hback := List.mem_append.mp hother
    · exact .inl (List.mem_append_left _ hfront)
    · refine (hheard.tx other hback).imp (List.mem_append_right _) fun hcommand => ?_
      rw [hcommand]
      decide
  have htail : ∀ other ∈ next.downward, other ∈ connection.downward :=
    fun other hother => hrest ▸ List.mem_cons_of_mem _ hother
  by_cases hupdate : frame.command = CMD_UPDATE_PADDING
  · have hdata := h.updates frame (hrest ▸ List.mem_cons_self) hupdate
    have hset := connection.client.receive_update hupdate (hdata ▸ hparse)
    refine h.settled hw (by rw [hserver, h.fixed]) ?_ hup htail
    rw [hclient, hset]
  · have hpadding := hheard.padding hupdate
    have hcoming : connection.UpdateComing → next.UpdateComing := by
      rintro ⟨other, hother, hcommand⟩
      rw [hrest] at hother
      obtain rfl | hback := List.mem_cons.mp hother
      · exact absurd hcommand hupdate
      · exact ⟨other, hback, hcommand⟩
    refine ⟨hw, by rw [hserver, h.fixed], hpadding ▸ h.either, ?_,
      fun other hother => h.updates other (htail other hother), ?_, ?_⟩
    · intro other hother hcommand
      rw [hpadding]
      obtain hold | hne := hup other hother
      · exact h.settings other hold hcommand
      · exact absurd hcommand hne
    · intro hanswered
      rw [hpadding]
      refine (h.answered ?_).imp_right (Or.imp_right hcoming)
      obtain hset | ⟨other, hother, hcommand⟩ := hanswered
      · refine (hheard.supportsV2 hset).imp_right fun hcommand => ?_
        exact ⟨frame, hrest ▸ List.mem_cons_self, hcommand⟩
      · exact .inr ⟨other, htail other hother, hcommand⟩
    · intro hset
      rw [hpadding]
      exact (h.updated (hserver ▸ hset)).imp_right hcoming

-- The server's answer says that the schemes are the same, or sends its own.
theorem Negotiated.receivesSettings (h : connection.Negotiated before server) (hw : next.Whole)
    {frame : Frame} (hframe : frame.command = CMD_SETTINGS)
    (hserver : next.server = connection.server.receiveSettings frame)
    (hup : connection.upward = frame :: next.upward) (hclient : next.client = connection.client)
    (hdownlink : next.downlink = connection.downlink) : next.Negotiated before server := by
  obtain ⟨hpadding, hanswer⟩ := connection.server.receiveSettings_answered frame
  rw [← hserver] at hpadding hanswer
  have hdown : ∀ added, next.server.tx = connection.server.tx ++ added →
      next.downward = connection.downward ++ added := by
    intro added htx
    rw [downward, downward, hdownlink, htx, List.append_assoc]
  -- what comes up is not about this answer
  have hrest : ∀ other ∈ next.upward, other.command = CMD_SETTINGS →
      other.data = settingsData before ∨
        (other.data = settingsData server ∧ next.client.padding = server) := by
    intro other hother hcommand
    rw [hclient]
    exact h.settings other (hup ▸ List.mem_cons_of_mem _ hother) hcommand
  cases hanswer with
  | lost htx hupdated =>
      refine h.keep hw hpadding hupdated (by rw [hclient]) (by rw [hclient])
        (fun other hother => .inl (hup ▸ List.mem_cons_of_mem _ hother)) ?_
      rw [hdown [] (htx.trans (List.append_nil _).symm)]
      exact keeps_append (by simp)
  | same hvalue htx hupdated =>
      refine ⟨hw, hpadding.trans h.fixed, hclient ▸ h.either, hrest, ?_, ?_, ?_⟩
      · intro other hother hcommand
        rw [hdown _ htx] at hother
        obtain hold | hnew := List.mem_append.mp hother
        · exact h.updates other hold hcommand
        · rw [List.mem_singleton.mp hnew] at hcommand
          cases hcommand
      · intro _
        rw [hclient]
        rw [h.fixed] at hvalue
        obtain hdata | ⟨_, hsame⟩ := h.settings frame (hup ▸ List.mem_cons_self) hframe
        · rw [hdata, settingValue_settingsData] at hvalue
          exact .inr (.inl (Option.some.inj hvalue))
        · exact .inl hsame
      · intro hset
        rw [hclient]
        refine (h.updated (hupdated ▸ hset)).imp_right ?_
        rintro ⟨other, hother, hcommand⟩
        exact ⟨other, hdown _ htx ▸ List.mem_append_left _ hother, hcommand⟩
  | update htx =>
      have hcoming : next.UpdateComing :=
        ⟨_, hdown _ htx ▸ List.mem_append_right _ (.tail _ (.head _)), rfl⟩
      refine ⟨hw, hpadding.trans h.fixed, hclient ▸ h.either, hrest, ?_,
        fun _ => .inr (.inr hcoming), fun _ => .inr hcoming⟩
      intro other hother hcommand
      rw [hdown _ htx] at hother
      obtain hold | hnew := List.mem_append.mp hother
      · exact h.updates other hold hcommand
      · obtain rfl | hlast := List.mem_cons.mp hnew
        · cases hcommand
        · rw [List.mem_singleton.mp hlast, h.fixed]

theorem Negotiated.serverReceives (h : connection.Negotiated before server) (hw : next.Whole)
    {frame : Frame} (hserver : next.server = connection.server.receive frame)
    (hup : connection.upward = frame :: (next.uplink.frames ++ connection.client.tx))
    (hclient : next.client = connection.client) (hdownlink : next.downlink = connection.downlink) :
    next.Negotiated before server := by
  have hrest : connection.upward = frame :: next.upward := by rw [hup, upward, hclient]
  by_cases hsettings : frame.command = CMD_SETTINGS
  · have hreceive : connection.server.receive frame = connection.server.receiveSettings frame :=
      if_pos hsettings
    exact h.receivesSettings hw hsettings (hserver.trans hreceive) hrest hclient hdownlink
  · obtain ⟨hpadding, hupdated, added, htx, hadded⟩ := connection.server.receive_plain hsettings
    rw [← hserver] at hpadding hupdated htx
    refine h.keep hw hpadding hupdated (by rw [hclient]) (by rw [hclient])
      (fun other hother => .inl (hrest ▸ List.mem_cons_of_mem _ hother)) ?_
    rw [downward, downward, hdownlink, htx, ← List.append_assoc]
    refine keeps_append fun other hother => ?_
    rw [hadded other hother]
    decide

theorem negotiated_step (h : connection.Negotiated before server)
    (hparse : ClientSession.parseUpdate (encode server.source) = .ok server)
    (hlen : (encode server.source).length ≤ MAX_FRAME_SIZE) {action : Action}
    (haction : ∀ padding, action ≠ .client (.repadded padding))
    (hs : connection.step action = some next) : next.Negotiated before server := by
  obtain ⟨hw, hmoves⟩ := moves_of_step h.whole hs
  cases hmoves with
  | client action hown _ hserver huplink hdownlink =>
      exact h.client hw hown (fun padding heq => haction padding (congrArg _ heq)) hserver huplink
        hdownlink
  | server action hown hclient huplink hdownlink =>
      exact h.server_own hw hown hclient huplink hdownlink
  | clientWrites random frame rest closed htx hclient hserver hdownlink hup =>
      exact h.clientWrites hw htx hclient hserver hdownlink hup
  | serverWrites random frame rest closed htx hserver hclient huplink hdown =>
      exact h.serverWrites hw hlen htx hserver hclient huplink hdown
  | clientReceives frame hclient hdown hserver huplink =>
      exact h.clientReceives hw hparse hclient hdown hserver huplink
  | serverReceives frame hserver hup hclient hdownlink =>
      exact h.serverReceives hw hserver hup hclient hdownlink

end

end Connection

end SingBox.AnyTls
