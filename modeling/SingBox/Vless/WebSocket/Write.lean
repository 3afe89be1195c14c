import Mathlib.Data.List.TakeWhile
import SingBox.Vless.WebSocket.Calls

namespace SingBox.Vless

open Library

namespace WebSocketStream

-- The payloads of the pongs among frames.
def pongs (frames : List WholeFrame) : List Bytes :=
  (frames.filter fun frame => frame.opcode = 0xA).map WholeFrame.payload

-- What reading does to the output: it queues whole frames behind it and, as
-- long as no Close has been answered, these are the pongs to the pings it has
-- finished.
structure Replied (this next : WebSocketStream) (replies : List WholeFrame) : Prop where
  clientSide : next.clientSide = this.clientSide
  pendingPayloadLen : next.pendingPayloadLen = this.pendingPayloadLen
  writes : Rest this.inner.writes next.inner.writes
  masks : Rest this.inner.masks next.inner.masks
  sound : this.Sound → next.Sound
  queued : next.queued = this.queued ++ replies
  wire : ∃ bytes, Wire this.clientSide replies bytes ∧
    next.inner.sent ++ next.unsent = this.inner.sent ++ this.unsent ++ bytes
  answered : next.closeQueued = false → this.closeQueued = false ∧
    (∀ reply ∈ replies, reply.opcode = 0xA) ∧
    pings (this.view.frames this.clientSide).1 =
      pongs replies ++ pings (next.view.frames this.clientSide).1

theorem pongs_append (front back : List WholeFrame) :
    pongs (front ++ back) = pongs front ++ pongs back := by simp [pongs]

theorem pings_cons (frame : WholeFrame) (frames : List WholeFrame) :
    pings (frame :: frames) =
      (if frame.opcode = 0x9 then [frame.payload] else []) ++ pings frames := by
  by_cases h : frame.opcode = 0x9 <;> simp [pings, h]

theorem Replied.refl (this : WebSocketStream) : Replied this this [] :=
  ⟨rfl, rfl, .refl _, .refl _, id, by simp, ⟨[], .nil, by simp⟩, fun h => ⟨h, by simp, by simp [pongs]⟩⟩

theorem Replied.trans {this mid next : WebSocketStream} {front back : List WholeFrame}
    (hm : Replied this mid front) (hn : Replied mid next back) :
    Replied this next (front ++ back) where
  clientSide := hn.clientSide.trans hm.clientSide
  pendingPayloadLen := hn.pendingPayloadLen.trans hm.pendingPayloadLen
  writes := hm.writes.trans hn.writes
  masks := hm.masks.trans hn.masks
  sound := hn.sound ∘ hm.sound
  queued := by rw [hn.queued, hm.queued, List.append_assoc]
  wire := by
    obtain ⟨first, hw, hc⟩ := hm.wire
    obtain ⟨second, hw', hc'⟩ := hn.wire
    rw [hm.clientSide] at hw'
    exact ⟨first ++ second, hw.append hw', by rw [hc', hc, List.append_assoc]⟩
  answered hclose := by
    obtain ⟨hmid, hpong', hp'⟩ := hn.answered hclose
    obtain ⟨hthis, hpong, hp⟩ := hm.answered hmid
    rw [hm.clientSide] at hp'
    refine ⟨hthis, ?_, by rw [hp, hp', pongs_append, List.append_assoc]⟩
    simpa [or_imp, forall_and] using ⟨hpong, hpong'⟩

theorem Quiet.replied {this next : WebSocketStream} (h : Quiet this next)
    (hs : this.Sound → next.Sound)
    (hp : pings (next.view.frames this.clientSide).1 = pings (this.view.frames this.clientSide).1) :
    Replied this next [] where
  clientSide := h.clientSide
  pendingPayloadLen := h.pendingPayloadLen
  writes := h.writes
  masks := h.masks
  sound := hs
  queued := by rw [h.queued, List.append_nil]
  wire := ⟨[], .nil, by rw [h.conserved, List.append_nil]⟩
  answered hc := ⟨h.closeQueued ▸ hc, by simp, by simp [pongs, hp]⟩

theorem Steady.replied {this next : WebSocketStream} (h : Steady this next) :
    Replied this next [] := h.toQuiet.replied h.sound (by rw [h.frames])

-- A finished frame: a pong for a ping, nothing for data, and a Close for a Close.
theorem Replies.replied {this next : WebSocketStream} {frame : WholeFrame}
    (h : Replies this next frame) (hs : this.Sound → next.Sound)
    (hf : this.view.frames this.clientSide =
      (frame :: (next.view.frames this.clientSide).1, (next.view.frames this.clientSide).2)) :
    ∃ replies, Replied this next replies := by
  have hp := congrArg (fun frames => pings frames.1) hf
  simp only [pings_cons] at hp
  have hqueues : ∀ opcode, Queues this next opcode frame.payload →
      (next.closeQueued = false → this.closeQueued = false ∧ opcode = 0xA ∧
        pings (this.view.frames this.clientSide).1 =
          frame.payload :: pings (next.view.frames this.clientSide).1) →
      Replied this next [⟨opcode, frame.payload⟩] := by
    intro opcode hq ha
    obtain ⟨mask, hc⟩ := hq.conserved
    refine ⟨hq.clientSide, hq.pendingPayloadLen, hq.writes, hq.masks, hs, hq.queued,
      ⟨_, .cons mask ⟨opcode, frame.payload⟩ [] [] .nil, by rw [hc, List.append_nil]⟩, ?_⟩
    intro hclose
    obtain ⟨ho, rfl, hp⟩ := ha hclose
    exact ⟨ho, by simp, by simp [pongs, hp]⟩
  cases h with
  | close ho hq hc => exact ⟨_, hqueues 0x8 hq (fun h => by rw [hc] at h; cases h)⟩
  | ping ho hq hc =>
      refine ⟨_, hqueues 0xA hq (fun h => ⟨hc ▸ h, rfl, ?_⟩)⟩
      simpa [ho] using hp
  | silent hclose hping hq => exact ⟨[], hq.replied hs (by simpa [hping] using hp.symm)⟩

theorem pollRead_replied (output : Nat) (this : WebSocketStream) (hs : this.Sound)
    (hm : ∀ n, this.inner.masks n ≠ none) :
    ∃ replies, Replied this (this.pollRead output).2 replies := by
  unfold pollRead
  split
  · refine ⟨[], ⟨rfl, rfl, .refl _, .refl _, fun hs => ⟨hs.input, hs.output, hs.view⟩, by simp,
      ⟨[], .nil, by simp [unsent]⟩, fun h => ⟨h, by simp, ?_⟩⟩⟩
    rfl
  · apply Loop.run_rule (fun state => state.Sound ∧ ∃ replies, Replied this state replies)
      (fun result => ∃ replies, Replied this result.2 replies) (readPass_decreases output)
      _ _ this ⟨hs, [], .refl this⟩
    · rintro state next ⟨hss, front, hf⟩ hp
      have hc := readPass_cases output state hss
      rw [hp] at hc
      cases hc with
      | progressed _ hst => exact ⟨hst.sound hss, _, hf.trans hst.replied⟩
      | finished _ frame hns hreply ho hcl hframes he =>
          obtain ⟨back, hb⟩ := hreply.replied hns hframes
          exact ⟨hns hss, _, hf.trans hb⟩
    · rintro state result ⟨hss, front, hf⟩ hp
      have hc := readPass_cases output state hss
      rw [hp] at hc
      cases hc with
      | stalled next hst _ => exact ⟨_, hf.trans hst.replied⟩
      | broken next error hst _ => exact ⟨_, hf.trans hst.replied⟩
      | maskless next error _ _ _ hcause =>
          obtain ⟨used, hu⟩ := hf.masks
          obtain ⟨n, hn⟩ := hcause
          exact absurd ((hu n).symm.trans hn) (hm _)
      | idle next hst _ => exact ⟨_, hf.trans hst.replied⟩
      | refused next error hst _ _ => exact ⟨_, hf.trans hst.replied⟩
      | ended next hq hns ho hclosed hfr hn =>
          exact ⟨_, hf.trans (hq.replied hns (by rw [hfr, hn]))⟩
      | delivered next bytes hq hns hpos hle ho hcl he hpings =>
          exact ⟨_, hf.trans (hq.replied hns hpings)⟩

-- The bytes `poll_write` has reported as accepted.
def accepted (trace : List (Call × Answer)) : Bytes :=
  trace.flatMap fun
    | (.write data, .wrote (.ready (.ok count))) => data.take count
    | _ => []

-- What the caller offered at its last `poll_write`, if that was left pending.
def outstanding (trace : List (Call × Answer)) : Option Bytes :=
  trace.foldl (fun pending entry =>
    match entry with
    | (.write data, .wrote .pending) => some data
    | (.write data, _) => if data = [] then pending else none
    | _ => pending) none

-- A caller that was left pending offers the same bytes again, and perhaps more.
def Retries (trace : List (Call × Answer)) : Prop :=
  ∀ front data answer back, trace = front ++ (.write data, answer) :: back → data ≠ [] →
    ∀ first, outstanding front = some first → first.take MAX_WS_FRAME_SIZE <+: data

-- What holds after the calls of `trace`, as long as no Close has been queued:
-- the buffer and the transport together hold whole frames, and `chunk` is the
-- one whose caller has not heard of it yet.
structure Conversation (start : WebSocketStream) (trace : List (Call × Answer))
    (this : WebSocketStream) (chunk : Bytes) : Prop where
  frames : ∀ frame ∈ this.queued,
    (frame.opcode = 0x2 ∧ frame.payload.length ≤ MAX_WS_FRAME_SIZE) ∨ frame.opcode = 0xA
  data : this.queued.flatMap WholeFrame.data = accepted trace ++ chunk
  answered : pings (start.view.frames start.clientSide).1 =
    pongs this.queued ++ pings (this.view.frames start.clientSide).1
  length : chunk.length = this.pendingPayloadLen.getD 0
  offered : this.pendingPayloadLen ≠ none →
    ∃ first, outstanding trace = some first ∧ chunk <+: first.take MAX_WS_FRAME_SIZE

-- What holds after any calls.
structure Standing (start this : WebSocketStream) : Prop where
  sound : this.Sound
  clientSide : this.clientSide = start.clientSide
  accepting : this.inner.Accepting
  masks : ∀ n, this.inner.masks n ≠ none
  wire : Wire start.clientSide this.queued (this.inner.sent ++ this.unsent)

theorem Moves.standing {start this next : WebSocketStream} (h : Moves this next)
    (hs : Standing start this) : Standing start next where
  sound := h.reader.sound hs.sound (h.output hs.sound.output)
  clientSide := h.reader.clientSide.trans hs.clientSide
  accepting := h.writes.accepting hs.accepting
  masks := by
    obtain ⟨used, hu⟩ := h.masks
    exact fun n => hu n ▸ hs.masks (n + used)
  wire := by rw [h.queued, h.conserved]; exact hs.wire

theorem Sends.standing {start this next : WebSocketStream} {frame : WholeFrame}
    (h : Sends this next frame) (hs : Standing start this) : Standing start next where
  sound := h.reader.sound hs.sound h.output
  clientSide := h.reader.clientSide.trans hs.clientSide
  accepting := h.writes.accepting hs.accepting
  masks := by
    obtain ⟨used, hu⟩ := h.masks
    exact fun n => hu n ▸ hs.masks (n + used)
  wire := by
    obtain ⟨mask, hc⟩ := h.conserved
    rw [h.queued, hc, hs.clientSide]
    have hone : Wire start.clientSide _ _ := Wire.cons mask frame [] [] .nil
    rw [List.append_nil] at hone
    exact hs.wire.append hone

theorem Replied.standing {start this next : WebSocketStream} {replies : List WholeFrame}
    (h : Replied this next replies) (hs : Standing start this) : Standing start next where
  sound := h.sound hs.sound
  clientSide := h.clientSide.trans hs.clientSide
  accepting := h.writes.accepting hs.accepting
  masks := by
    obtain ⟨used, hu⟩ := h.masks
    exact fun n => hu n ▸ hs.masks (n + used)
  wire := by
    obtain ⟨bytes, hw, hc⟩ := h.wire
    rw [h.queued, hc]
    rw [hs.clientSide] at hw
    exact hs.wire.append hw

theorem call_standing {start this : WebSocketStream} (request : Call) (hs : Standing start this) :
    Standing start (this.call request).2 := by
  cases request with
  | read output =>
      obtain ⟨replies, h⟩ := pollRead_replied output this hs.sound hs.masks
      exact h.standing hs
  | write data =>
      have h := pollWrite_cases data this hs.sound
      simp only [call]
      generalize this.pollWrite data = result at h
      cases h with
      | empty hd => exact hs
      | settled next accepted hd hp hm hn => exact hm.standing hs
      | waiting next hd hm hn => exact hm.standing hs
      | broken next error hm hn hc => exact hm.standing hs
      | maskless next error _ _ _ hc =>
          obtain ⟨n, hn⟩ := hc
          exact absurd hn (hs.masks n)
      | queued next result hd hp hf hsends hl ha => exact hsends.standing hs
  | flush => exact (pollFlush_moves this).1.standing hs
  | shutdown =>
      have h := pollShutdown_cases this hs.sound
      simp only [call]
      generalize this.pollShutdown = result at h
      cases h with
      | again next result ho hm => exact hm.standing hs
      | maskless next error _ _ _ hc =>
          obtain ⟨n, hn⟩ := hc
          exact absurd hn (hs.masks n)
      | queued next result ho hsends hl => exact hsends.standing hs

theorem accepted_concat (trace : List (Call × Answer)) (entry : Call × Answer) :
    accepted (trace ++ [entry]) = accepted trace ++ accepted [entry] := by
  simp [accepted]

theorem outstanding_concat (trace : List (Call × Answer)) (entry : Call × Answer) :
    outstanding (trace ++ [entry]) =
      match entry with
      | (.write data, .wrote .pending) => some data
      | (.write data, _) => if data = [] then outstanding trace else none
      | _ => outstanding trace := by
  simp only [outstanding, List.foldl_append, List.foldl_cons, List.foldl_nil]

-- Nothing of the conversation changes but where its bytes are.
theorem Conversation.of_moves {start this next : WebSocketStream}
    {front trace : List (Call × Answer)} {chunk : Bytes}
    (h : Conversation start front this chunk) (hm : Moves this next)
    (hp : next.pendingPayloadLen = this.pendingPayloadLen)
    (ha : accepted trace = accepted front)
    (ho : this.pendingPayloadLen ≠ none →
      ∃ first, outstanding trace = some first ∧ chunk <+: first.take MAX_WS_FRAME_SIZE) :
    Conversation start trace next chunk where
  frames := by rw [hm.queued]; exact h.frames
  data := by rw [hm.queued, ha]; exact h.data
  answered := by rw [hm.queued, hm.reader.view]; exact h.answered
  length := by rw [hp]; exact h.length
  offered := by rw [hp]; exact ho

theorem Conversation.of_replied {start this next : WebSocketStream} {replies : List WholeFrame}
    {front : List (Call × Answer)} {chunk : Bytes} (output : Nat) (answer : Answer)
    (h : Conversation start front this chunk) (hside : this.clientSide = start.clientSide)
    (hr : Replied this next replies) (hc : next.closeQueued = false) :
    Conversation start (front ++ [(.read output, answer)]) next chunk := by
  obtain ⟨_, hpong, hp⟩ := hr.answered hc
  have hdata : replies.flatMap WholeFrame.data = [] := by
    rw [List.flatMap_eq_nil_iff]
    intro reply hreply
    simp only [WholeFrame.data, hpong reply hreply]
    rfl
  rw [hside] at hp
  refine ⟨?_, ?_, ?_, ?_, ?_⟩
  · rw [hr.queued]
    intro frame hframe
    rcases List.mem_append.mp hframe with hframe | hframe
    · exact h.frames frame hframe
    · exact .inr (hpong frame hframe)
  · rw [hr.queued, List.flatMap_append, hdata, List.append_nil, h.data, accepted_concat]
    simp [accepted]
  · rw [hr.queued, pongs_append, h.answered, hp, List.append_assoc]
  · rw [hr.pendingPayloadLen]
    exact h.length
  · rw [hr.pendingPayloadLen, outstanding_concat]
    exact h.offered

-- A chunk that is queued goes behind everything accepted before it.
theorem Conversation.of_sends {start this next : WebSocketStream}
    {front trace : List (Call × Answer)} {chunk payload : Bytes}
    (h : Conversation start front this chunk) (hp : this.pendingPayloadLen = none)
    (hs : Sends this next ⟨0x2, payload⟩) (hle : payload.length ≤ MAX_WS_FRAME_SIZE)
    (kept : Bytes) (ha : accepted trace ++ kept = accepted front ++ payload)
    (hlen : kept.length = next.pendingPayloadLen.getD 0)
    (ho : next.pendingPayloadLen ≠ none →
      ∃ first, outstanding trace = some first ∧ kept <+: first.take MAX_WS_FRAME_SIZE) :
    Conversation start trace next kept := by
  have hchunk : chunk = [] := by
    have := h.length
    rw [hp] at this
    exact List.length_eq_zero_iff.mp this
  have hdata : this.queued.flatMap WholeFrame.data = accepted front := by
    rw [h.data, hchunk, List.append_nil]
  refine ⟨?_, ?_, ?_, hlen, ho⟩
  · rw [hs.queued]
    intro frame hframe
    rcases List.mem_append.mp hframe with hframe | hframe
    · exact h.frames frame hframe
    · obtain rfl := List.mem_singleton.mp hframe
      exact .inl ⟨rfl, hle⟩
  · rw [hs.queued, List.flatMap_append, hdata, ha]
    simp [WholeFrame.data, show isControl 0x2 = false from rfl]
  · rw [hs.queued, pongs_append, h.answered, hs.reader.view]
    simp [pongs]

theorem call_conversation {start this : WebSocketStream} {front : List (Call × Answer)}
    {chunk : Bytes} (request : Call) (hs : Standing start this)
    (h : Conversation start front this chunk) (ho : this.closeQueued = false)
    (hretry : ∀ data, request = .write data → data ≠ [] → ∀ first, outstanding front = some first →
      first.take MAX_WS_FRAME_SIZE <+: data)
    (hc : (this.call request).2.closeQueued = false) :
    ∃ next, Conversation start (front ++ [(request, (this.call request).1)])
      (this.call request).2 next := by
  cases request with
  | read output =>
      obtain ⟨replies, hr⟩ := pollRead_replied output this hs.sound hs.masks
      exact ⟨chunk, h.of_replied output _ hs.clientSide hr hc⟩
  | write data =>
      have hw := pollWrite_cases data this hs.sound
      simp only [call] at hc ⊢
      generalize this.pollWrite data = result at hw hc ⊢
      cases hw with
      | empty hd =>
          refine ⟨chunk, h.of_moves (.refl this) rfl ?_ ?_⟩
          · rw [accepted_concat]
            simp [accepted]
          · rw [outstanding_concat]
            simpa [hd] using h.offered
      | settled next count hd hp hm hn =>
          obtain ⟨first, hfirst, hoffered⟩ := h.offered (by simp [hp])
          have htake : data.take count = chunk := by
            have hlen := h.length
            rw [hp, Option.getD_some] at hlen
            have := List.prefix_iff_eq_take.mp (hoffered.trans (hretry data rfl hd first hfirst))
            rw [hlen] at this
            exact this.symm
          refine ⟨[], ⟨by rw [hm.queued]; exact h.frames, ?_, ?_, by simp [hn], by simp [hn]⟩⟩
          · rw [hm.queued, h.data, accepted_concat]
            simp [accepted, htake]
          · rw [hm.queued, hm.reader.view]
            exact h.answered
      | waiting next hd hm hn =>
          refine ⟨chunk, h.of_moves hm hn ?_ ?_⟩
          · rw [accepted_concat]
            simp [accepted]
          · intro hpending
            obtain ⟨first, hfirst, hoffered⟩ := h.offered hpending
            rw [outstanding_concat]
            refine ⟨data, rfl, ?_⟩
            have hle := hoffered.length_le.trans (List.length_take_le _ _)
            rw [List.prefix_iff_eq_take.mp (hoffered.trans (hretry data rfl hd first hfirst))]
            exact List.take_prefix_take_left hle
      | broken next error hm hn hbroken => exact absurd hs.accepting hbroken
      | maskless next error _ _ _ hmask =>
          obtain ⟨n, hn⟩ := hmask
          exact absurd hn (hs.masks n)
      | queued next result hd hp hf hsends hl ha =>
          have hle : (data.take MAX_WS_FRAME_SIZE).length ≤ MAX_WS_FRAME_SIZE :=
            List.length_take_le _ _
          generalize hpending : next.pendingPayloadLen = pending at ha
          cases ha with
          | done =>
              refine ⟨[], h.of_sends hp hsends hle [] ?_ (by simp [hpending]) (by simp [hpending])⟩
              rw [accepted_concat]
              simp [accepted]
          | pending =>
              refine ⟨data.take MAX_WS_FRAME_SIZE, h.of_sends hp hsends hle _ ?_
                (by simp [hpending]) fun _ => ⟨data, by rw [outstanding_concat], List.prefix_rfl⟩⟩
              rw [accepted_concat]
              simp [accepted]
          | error error hbroken => exact absurd hs.accepting hbroken
  | flush =>
      obtain ⟨hm, hp⟩ := pollFlush_moves this
      refine ⟨chunk, h.of_moves hm hp ?_ ?_⟩
      · rw [accepted_concat]
        simp [accepted, call]
      · rw [outstanding_concat]
        exact h.offered
  | shutdown =>
      have hw := pollShutdown_cases this hs.sound
      simp only [call] at hc
      generalize this.pollShutdown = result at hw hc
      cases hw with
      | again next result hclosed hm => simp [ho] at hclosed
      | maskless next error _ _ _ hmask =>
          obtain ⟨n, hn⟩ := hmask
          exact absurd hn (hs.masks n)
      | queued next result _ hsends hl => simp [hl] at hc

-- A Close that has been queued stays queued.
theorem call_closeQueued {start this : WebSocketStream} (request : Call) (hs : Standing start this)
    (hc : (this.call request).2.closeQueued = false) : this.closeQueued = false := by
  cases request with
  | read output =>
      obtain ⟨replies, hr⟩ := pollRead_replied output this hs.sound hs.masks
      exact (hr.answered hc).1
  | write data =>
      have hw := pollWrite_cases data this hs.sound
      simp only [call] at hc
      generalize this.pollWrite data = result at hw hc
      cases hw with
      | empty hd => exact hc
      | settled next accepted hd hp hm hn => exact hm.closeQueued ▸ hc
      | waiting next hd hm hn => exact hm.closeQueued ▸ hc
      | broken next error hm hn hbroken => exact hm.closeQueued ▸ hc
      | maskless next error _ _ hl _ => exact hl ▸ hc
      | queued next result hd hp hf hsends hl ha => exact hl ▸ hc
  | flush => exact (pollFlush_moves this).1.closeQueued ▸ hc
  | shutdown =>
      have hw := pollShutdown_cases this hs.sound
      simp only [call] at hc
      generalize this.pollShutdown = result at hw hc
      cases hw with
      | again next result ho hm => exact hm.closeQueued ▸ hc
      | maskless next error _ _ hl _ => exact hl ▸ hc
      | queued next result ho hsends hl => exact ho

theorem calls_conversation {start this : WebSocketStream} (front : List (Call × Answer))
    (requests : List Call) (hs : Standing start this)
    (h : this.closeQueued = false → ∃ chunk, Conversation start front this chunk)
    (hretry : Retries (front ++ (this.calls requests).1)) :
    Standing start (this.calls requests).2 ∧
      ((this.calls requests).2.closeQueued = false →
        ∃ chunk, Conversation start (front ++ (this.calls requests).1) (this.calls requests).2 chunk) := by
  induction requests generalizing this front with
  | nil => simpa [calls] using ⟨hs, h⟩
  | cons request rest ih =>
      simp only [calls] at hretry ⊢
      rw [List.append_cons] at hretry ⊢
      refine ih _ (call_standing request hs) ?_ hretry
      intro hc
      have ho := call_closeQueued request hs hc
      obtain ⟨chunk, hconv⟩ := h ho
      refine call_conversation request hs hconv ho ?_ hc
      rintro data rfl hd first hfirst
      exact hretry front data _ _ (by rw [List.append_assoc]; rfl) hd first hfirst

theorem pings_length_le (clientSide fragmented : Bool) (bytes : Bytes) :
    ∀ payload ∈ pings (parse clientSide fragmented bytes).1, payload.length ≤ 125 := by
  induction hl : bytes.length using Nat.strongRecOn generalizing fragmented bytes with
  | _ length ih =>
      cases hp : parseHeader clientSide fragmented bytes with
      | error error =>
          rw [parse_error _ _ _ _ hp]
          simp [pings]
      | ok started =>
          cases started with
          | none =>
              rw [parse_none _ _ _ hp]
              simp [pings]
          | some begun =>
              obtain ⟨frame, next, taken⟩ := begun
              have hh := (parseHeader_some _ _ _ _ _ _).mp hp
              obtain ⟨hkept, hmask, _⟩ := hh.kept
              have htwo := hh.two_le
              have hle := hh.length_le
              rw [parse_header _ _ _ _ _ _ hh]
              simp only [continueFrame, continueFrom, hkept, List.nil_append]
              split
              · simp [pings]
              · intro payload hmem
                rw [pings_cons] at hmem
                rcases List.mem_append.mp hmem with hmem | hmem
                · have hping : frame.opcode = 0x9 := by
                    by_contra hne
                    simp [hne] at hmem
                  rw [if_pos hping] at hmem
                  obtain rfl := List.mem_singleton.mp hmem
                  obtain ⟨⟨first, second, rest, _, _, _, _, hcontrol, _, rfl⟩, _, _⟩ := hh
                  have hc : isControl (opcodeOf first) = true := by
                    change opcodeOf first = 0x9 at hping
                    rw [hping]
                    rfl
                  have := (hcontrol hc).2
                  simp only [xorMask_length, List.length_take, beginFrame] at *
                  omega
                · refine ih _ ?_ next _ rfl payload hmem
                  simp only [List.length_drop]
                  omega

-- A frame of the conversation is one the other side takes.
theorem Conversation.sendable {start this : WebSocketStream} {trace : List (Call × Answer)}
    {chunk : Bytes} (h : Conversation start trace this chunk)
    (hp : ∀ payload ∈ pings (start.view.frames start.clientSide).1, payload.length ≤ 125) :
    ∀ frame ∈ this.queued, Sendable frame.opcode frame.payload.length := by
  intro frame hframe
  rcases h.frames frame hframe with hdata | hpong
  · exact .inl hdata
  · refine .inr ⟨.inr hpong, hp _ ?_⟩
    rw [h.answered]
    refine List.mem_append_left _ (List.mem_map_of_mem (List.mem_filter.mpr ⟨hframe, ?_⟩))
    simpa using hpong

theorem Conversation.dataBeforeClose {start this : WebSocketStream} {trace : List (Call × Answer)}
    {chunk : Bytes} (h : Conversation start trace this chunk) :
    dataBeforeClose this.queued = accepted trace ++ chunk := by
  have hall : this.queued.takeWhile (fun frame => frame.opcode != 0x8) = this.queued := by
    rw [List.takeWhile_eq_self_iff]
    intro frame hframe
    rcases h.frames frame hframe with ⟨ho, _⟩ | ho <;> rw [ho] <;> rfl
  rw [WebSocketStream.dataBeforeClose, hall, h.data]

-- What a stream has written is whole frames, the last of them perhaps still on
-- its way: pongs for the pings it has finished, and data that the other side
-- reads back as what was accepted and the chunk that is pending.
theorem written_frames_read_back (inner : Environment) (hfresh : inner.sent = [])
    (haccepting : inner.Accepting) (hmasks : ∀ n, inner.masks n ≠ none) (tail earlyData : Bytes)
    (clientSide : Bool) (requests : List Call) :
    let run := (new inner tail earlyData clientSide).calls requests
    let wire := run.2.inner.sent ++ run.2.unsent
    Retries run.1 → run.2.closeQueued = false →
    ∃ frames chunk, Accepts (!clientSide) false wire frames ∧
      pings (parse clientSide false (tail ++ inner.incoming)).1 =
        pongs frames ++ pings (run.2.view.frames clientSide).1 ∧
      frames.flatMap WholeFrame.data = accepted run.1 ++ chunk ∧
      chunk.length = run.2.pendingPayloadLen.getD 0 ∧
      ∀ (peer : Environment) (ahead : Bytes), peer.Reliable → ahead ++ peer.incoming = wire →
        ∀ (sizes : List Nat) (output : Nat),
          let reads := (new peer ahead [] (!clientSide)).pollReads sizes
          ∃ rest, delivered reads.1 ++ rest = accepted run.1 ++ chunk ∧
            Answers output reads.2.inner rest (.ok ()) (reads.2.pollRead output).1 := by
  intro run wire hretry hclose
  have hstart : Standing (new inner tail earlyData clientSide) (new inner tail earlyData clientSide) :=
    ⟨sound_new _ _ _ _, rfl, haccepting, hmasks, by simpa [new, hfresh, unsent] using Wire.nil⟩
  have hempty : Conversation (new inner tail earlyData clientSide) []
      (new inner tail earlyData clientSide) [] :=
    ⟨by simp [new], rfl, rfl, rfl, by simp [new]⟩
  obtain ⟨hstanding, hconv⟩ := calls_conversation [] requests hstart (fun _ => ⟨[], hempty⟩) hretry
  obtain ⟨chunk, h⟩ := hconv hclose
  have hsendable := h.sendable (pings_length_le clientSide false (tail ++ inner.incoming))
  have haccepts := hstanding.wire.accepts hsendable
  refine ⟨_, chunk, haccepts, h.answered, h.data, h.length, ?_⟩
  intro peer ahead hpeer hwire sizes output
  obtain ⟨hread, hframes⟩ := read_segmentation_independent peer hpeer ahead [] (!clientSide) sizes output
  rw [hwire] at hread hframes
  rw [hframes _ haccepts, h.dataBeforeClose] at hread
  exact hread

-- A transport that is not ready at first and then moves one byte at a time.
def hesitant (incoming : Bytes) : Environment :=
  { trickle incoming with writes := fun n => if n = 0 then .pending else .ready 0 }

private theorem hesitant_accepting (incoming : Bytes) : (hesitant incoming).Accepting := by
  intro n
  by_cases h : n = 0 <;> simp [hesitant, h]

-- A chunk left pending and offered again, with a ping read in between.
def hesitantCalls : List (Call × Answer) × WebSocketStream :=
  (new (hesitant [0x89, 1, 7]) [] [] true).calls [.write [1, 2], .read 4, .write [1, 2, 3]]

private theorem hesitantCalls_trace : hesitantCalls.1 =
    [(.write [1, 2], .wrote .pending), (.read 4, .read (.ready (.ok []))),
      (.write [1, 2, 3], .wrote (.ready (.ok 2)))] := rfl

private theorem hesitantCalls_retries : Retries hesitantCalls.1 := by
  rw [hesitantCalls_trace]
  intro front data answer back heq _ first hfirst
  match front, heq with
  | [], _ => simp [outstanding] at hfirst
  | [_], heq => simp at heq
  | [_, _], heq =>
      simp only [List.cons_append, List.nil_append, List.cons.injEq, Prod.mk.injEq,
        Call.write.injEq] at heq
      obtain ⟨rfl, rfl, ⟨rfl, _⟩, _⟩ := heq
      obtain rfl : [1, 2] = first := by simpa [outstanding] using hfirst
      exact ⟨[3], rfl⟩
  | _ :: _ :: _ :: _, heq => simp at heq

private theorem hesitantCalls_open : hesitantCalls.2.closeQueued = false := rfl

private theorem hesitantCalls_settled : hesitantCalls.2.pendingPayloadLen = none := rfl

private theorem hesitantCalls_view : hesitantCalls.2.view = ⟨none, false, true, []⟩ := rfl

theorem written_frames_read_back_hesitant :
    ∃ frames chunk, Accepts false false (hesitantCalls.2.inner.sent ++ hesitantCalls.2.unsent) frames ∧
      [[7]] = pongs frames ∧ frames.flatMap WholeFrame.data = [1, 2] ++ chunk ∧ chunk.length = 0 := by
  obtain ⟨frames, chunk, haccepts, hpongs, hdata, hlength, _⟩ :=
    written_frames_read_back (hesitant [0x89, 1, 7]) rfl (hesitant_accepting _)
      (by simp [hesitant, trickle]) [] [] true [.write [1, 2], .read 4, .write [1, 2, 3]]
      hesitantCalls_retries hesitantCalls_open
  have hparse : parse true false [0x89, 1, 7] = ([⟨0x9, [7]⟩], .clean) :=
    Accepts.parse (.cons false false [0x89, 1] [7] [] (beginFrame 0x9 1 fun _ => 0) [] rfl rfl (.nil false))
  rw [← hesitantCalls] at haccepts hpongs hdata hlength
  rw [hesitantCalls_trace] at hdata
  rw [hesitantCalls_settled] at hlength
  rw [hesitantCalls_view] at hpongs
  have hreceived : [] ++ (hesitant [0x89, 1, 7]).incoming = [0x89, 1, 7] := rfl
  rw [hreceived, hparse] at hpongs
  simp only [ReadView.frames, parse_nil] at hpongs
  refine ⟨frames, chunk, haccepts, ?_, ?_, hlength⟩
  · simpa [pings] using hpongs
  · simpa [accepted] using hdata

end WebSocketStream

end SingBox.Vless
