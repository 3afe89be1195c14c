import SingBox.Library.Run
import SingBox.Vless.WebSocket.Write

namespace SingBox.Vless

open Library

namespace WebSocketStream

-- Nothing stands behind a Close, so there is at most one.
def CloseIsLast (frames : List WholeFrame) : Prop :=
  ∀ front close back, frames = front ++ close :: back → close.opcode = 0x8 → back = []

-- The frame `poll_read` has at hand: the one it is in, or the one its input
-- starts with.
def currentFrame (this : WebSocketStream) : Option WebSocketReadFrame :=
  match this.readFrame with
  | some frame => some frame
  | none =>
      match parseHeader this.clientSide this.fragmented this.availableInput with
      | .ok (some (frame, _)) => some frame
      | _ => none

-- The way to `finish_read_frame` with a frame it answers is open.
def AnswersControl (output : Nat) (this : WebSocketStream) : Prop :=
  this.flushControl.1 = .ready (.ok ()) ∧ this.readClosed = false ∧ output ≠ 0 ∧
    ∃ frame, this.currentFrame = some frame ∧ frame.remaining = 0 ∧
      (frame.opcode = 0x8 ∨ frame.opcode = 0x9)

-- Once a Close has been queued, a read does not come to a Ping or a Close and a
-- write does not come to `append_frame`.
def KeepsClose (this : WebSocketStream) : Call → Prop
  | .read output =>
      this.closeQueued = true → this.earlyData.length ≤ this.earlyOffset →
        ∀ state, Loop.Visits (readPass output) this state → ¬AnswersControl output state
  | .write data =>
      this.closeQueued = true → data = [] ∨ this.pendingPayloadLen ≠ none ∨
        this.pollFlushOutput.1 ≠ .ready (.ok ())
  | .flush => True
  | .shutdown => True

def step (this : WebSocketStream) (request : Call) : Option WebSocketStream :=
  some (this.call request).2

theorem closeIsLast_concat (frames : List WholeFrame) (frame : WholeFrame)
    (h : ∀ frame ∈ frames, frame.opcode ≠ 0x8) : CloseIsLast (frames ++ [frame]) := by
  intro front close back heq hclose
  rcases List.append_eq_append_iff.mp heq with ⟨more, hfront, hmore⟩ | ⟨more, hframes, hmore⟩
  · have hlen := congrArg List.length hmore
    simp only [List.length_append, List.length_cons, List.length_nil] at hlen
    exact List.length_eq_zero_iff.mp (by omega)
  · cases more with
    | nil =>
        rw [List.nil_append] at hmore
        exact (List.cons.inj hmore).2
    | cons first rest =>
        obtain ⟨rfl, _⟩ := List.cons.inj hmore
        exact absurd hclose (h close (by simp [hframes]))

-- What holds as long as no frame has been queued behind a Close.
structure Disciplined (this : WebSocketStream) : Prop where
  sound : this.Sound
  last : CloseIsLast this.queued
  unclosed : this.closeQueued = false → ∀ frame ∈ this.queued, frame.opcode ≠ 0x8

theorem disciplined_new (inner : Environment) (tail earlyData : Bytes) (clientSide : Bool) :
    Disciplined (new inner tail earlyData clientSide) where
  sound := sound_new _ _ _ _
  last := by
    intro front close back heq
    cases front <;> cases heq
  unclosed := by simp [new]

theorem Disciplined.same {this next : WebSocketStream} (h : Disciplined this)
    (hs : this.Sound → next.Sound) (hq : next.queued = this.queued)
    (hc : next.closeQueued = this.closeQueued) : Disciplined next where
  sound := hs h.sound
  last := hq ▸ h.last
  unclosed := by rw [hc, hq]; exact h.unclosed

-- A frame may be queued as long as no Close has been.
theorem Disciplined.queue {this next : WebSocketStream} {frame : WholeFrame} (h : Disciplined this)
    (ho : this.closeQueued = false) (hs : this.Sound → next.Sound)
    (hq : next.queued = this.queued ++ [frame])
    (hc : next.closeQueued = false → frame.opcode ≠ 0x8) : Disciplined next where
  sound := hs h.sound
  last := hq ▸ closeIsLast_concat this.queued frame (h.unclosed ho)
  unclosed hclose other hother := by
    rw [hq] at hother
    rcases List.mem_append.mp hother with hother | hother
    · exact h.unclosed ho other hother
    · exact List.mem_singleton.mp hother ▸ hc hclose

theorem SameReader.currentFrame {this next : WebSocketStream} (h : SameReader this next) :
    next.currentFrame = this.currentFrame := by
  simp only [WebSocketStream.currentFrame, h.readFrame, h.clientSide, h.fragmented,
    h.availableInput]

-- Among the ways a pass can go on, only finishing a Ping or a Close queues.
theorem readPayload_queued (output : Nat) (frame : WebSocketReadFrame)
    (this next : WebSocketStream) (hp : readPayload output frame this = .again next)
    (hq : next.queued ≠ this.queued) :
    frame.remaining = 0 ∧ (frame.opcode = 0x8 ∨ frame.opcode = 0x9) := by
  have htake : ∀ state : WebSocketStream, takePayload output frame state = .again next →
      next.queued = state.queued := by
    intro state h
    rw [takePayload_eq] at h
    simp only at h
    split at h
    · exact Pass.again.inj h ▸ (state.taken_quiet frame _).queued
    · cases h
  unfold readPayload at hp
  split at hp
  · rename_i hr
    refine ⟨hr, ?_⟩
    by_contra hne
    obtain ⟨hclose, hping⟩ := not_or.mp hne
    simp only [finishReadFrame, hclose, hping, if_false] at hp
    exact hq (Pass.again.inj hp ▸ rfl)
  · split at hp
    · obtain ⟨filled, count, hf, hc⟩ := pollFillInput_cases this
      rcases hc with ⟨_, _, he⟩ | ⟨_, _, _, he⟩ | ⟨_, _, he⟩ | ⟨_, _, _, he⟩
      · rw [he] at hp
        exact absurd ((htake filled hp).trans hf.writer.queued) hq
      all_goals
        rw [he] at hp
        cases hp
    · exact absurd (htake this hp) hq

theorem readPass_queued (output : Nat) (this next : WebSocketStream)
    (hp : readPass output this = .again next) (hq : next.queued ≠ this.queued) :
    AnswersControl output this := by
  obtain ⟨flushed, hquiet, hr, hc⟩ := flushControl_cases this
  have hne : next.queued ≠ flushed.queued := hquiet.queued ▸ hq
  unfold readPass at hp
  rcases hc with he | ⟨he, _⟩ | ⟨_, he, _⟩
  · rw [he] at hp
    simp only at hp
    split at hp
    · cases hp
    · rename_i hidle
      obtain ⟨hopen, hout⟩ := not_or.mp hidle
      refine ⟨by rw [he], by simpa [hr.readClosed] using hopen, hout, ?_⟩
      rw [← hr.currentFrame]
      split at hp
      · rename_i frame hf
        exact ⟨frame, by rw [currentFrame, hf], readPayload_queued output frame flushed next hp hne⟩
      · rename_i hf
        split at hp
        · cases hp
        · rename_i frame started hst
          have hsame := (startFrame_some flushed started frame hf hst).1.queued
          refine ⟨frame, ?_, readPayload_queued output frame started next hp (hsame ▸ hne)⟩
          rw [currentFrame, hf]
          unfold startFrame at hst
          split at hst
          · cases hst
          · cases hst
          · rename_i hparse
            simp only [hparse]
            simpa using congrArg (Option.map Prod.fst) (Except.ok.inj hst)
        · unfold fillHeader at hp
          obtain ⟨filled, count, hf, hc⟩ := pollFillInput_cases flushed
          rcases hc with ⟨_, _, he⟩ | ⟨_, _, _, he⟩ | ⟨_, _, he⟩ | ⟨_, _, _, he⟩
          · rw [he] at hp
            exact absurd (Pass.again.inj hp ▸ hf.writer.queued) hne
          · simp only [he] at hp
            split at hp <;> cases hp
          all_goals
            rw [he] at hp
            cases hp
  · rw [he] at hp
    cases hp
  · rw [he] at hp
    cases hp

-- A read from a state that keeps the discipline: its loop only comes to a Close
-- of its own when none had been queued, and that ends the reading.
theorem pollRead_disciplined (output : Nat) (this : WebSocketStream) (h : Disciplined this)
    (hk : KeepsClose this (.read output)) : Disciplined (this.pollRead output).2 := by
  unfold pollRead
  split
  · exact h.same (fun hs => ⟨hs.input, hs.output, hs.view⟩) rfl rfl
  · rename_i hearly
    apply Loop.run_rule
      (fun state => Loop.Visits (readPass output) this state ∧ Disciplined state ∧
        (state.closeQueued = true → this.closeQueued = true ∨ state.readClosed = true))
      (fun result => Disciplined result.2) (readPass_decreases output) _ _ this ⟨.refl, h, .inl⟩
    · rintro state next ⟨hv, hd, hcause⟩ hp
      have hc := readPass_cases output state hd.sound
      have hqueues := readPass_queued output state next hp
      rw [hp] at hc
      refine ⟨hv.tail hp, ?_⟩
      cases hc with
      | progressed _ hst =>
          refine ⟨hd.same hst.sound hst.queued hst.closeQueued, fun hclose => ?_⟩
          exact (hcause (hst.closeQueued ▸ hclose)).imp id (hst.closed.trans ·)
      | finished _ frame hns hreply ho hcl hf he =>
          -- a reply behind a Close would have been due in this very pass
          have hunclosed : next.queued ≠ state.queued → state.closeQueued = false := by
            intro hne
            by_contra hclose
            rcases hcause (by simpa using hclose) with hthis | hclosed
            · exact hk hthis (Nat.not_lt.mp hearly) state hv (hqueues hne)
            · simp [ho] at hclosed
          cases hreply with
          | close hop hq hc =>
              refine ⟨hd.queue (hunclosed (by simp [hq.queued])) hns hq.queued (by simp [hc]), ?_⟩
              exact fun _ => .inr (by simp [hcl, hop])
          | ping hop hq hc =>
              have hun := hunclosed (by simp [hq.queued])
              refine ⟨hd.queue hun hns hq.queued
                (fun _ => (by decide : (0xA : UInt8) ≠ 0x8)), fun hclose => ?_⟩
              simp [hc, hun] at hclose
          | silent hclose hping hq =>
              refine ⟨hd.same hns hq.queued hq.closeQueued, fun hc => ?_⟩
              exact (hcause (hq.closeQueued ▸ hc)).imp id fun hclosed => by simp [ho] at hclosed
    · rintro state result ⟨hv, hd, hcause⟩ hp
      have hc := readPass_cases output state hd.sound
      rw [hp] at hc
      cases hc with
      | stalled next hst _ => exact hd.same hst.sound hst.queued hst.closeQueued
      | broken next error hst _ => exact hd.same hst.sound hst.queued hst.closeQueued
      | maskless next error hs hq hl _ => exact hd.same hs hq hl
      | idle next hst _ => exact hd.same hst.sound hst.queued hst.closeQueued
      | refused next error hst _ _ => exact hd.same hst.sound hst.queued hst.closeQueued
      | ended next hq hns _ _ _ _ => exact hd.same hns hq.queued hq.closeQueued
      | delivered next bytes hq hns _ _ _ _ _ _ => exact hd.same hns hq.queued hq.closeQueued

theorem Moves.disciplined {this next : WebSocketStream} (hm : Moves this next)
    (h : Disciplined this) : Disciplined next :=
  h.same (fun hs => hm.reader.sound hs (hm.output hs.output)) hm.queued hm.closeQueued

theorem call_disciplined (this : WebSocketStream) (request : Call) (h : Disciplined this)
    (hk : KeepsClose this request) : Disciplined (this.call request).2 := by
  cases request with
  | read output => exact pollRead_disciplined output this h hk
  | write data =>
      have hw := pollWrite_cases data this h.sound
      simp only [call]
      generalize this.pollWrite data = result at hw
      cases hw with
      | empty hd => exact h
      | settled next accepted hd hp hm hn => exact hm.disciplined h
      | waiting next hd hm hn => exact hm.disciplined h
      | broken next error hm hn hc => exact hm.disciplined h
      | maskless next error hs hq hl hc => exact h.same hs hq hl
      | queued next result hd hp hf hs hl ha =>
          have ho : this.closeQueued = false := by
            by_contra hclose
            rcases hk (by simpa using hclose) with he | he | he
            · exact hd he
            · exact he hp
            · exact he hf
          exact h.queue ho (fun hsound => hs.reader.sound hsound hs.output) hs.queued
            (fun _ => (by decide : (0x2 : UInt8) ≠ 0x8))
  | flush => exact (pollFlush_moves this).1.disciplined h
  | shutdown =>
      have hw := pollShutdown_cases this h.sound
      simp only [call]
      generalize this.pollShutdown = result at hw
      cases hw with
      | again next result ho hm => exact hm.disciplined h
      | maskless next error hs hq hl hc => exact h.same hs hq hl
      | queued next result ho hs hl =>
          exact h.queue ho (fun hsound => hs.reader.sound hsound hs.output) hs.queued (by simp [hl])

theorem close_is_last (inner : Environment) (tail earlyData : Bytes) (clientSide : Bool)
    (requests : List Call) (final : WebSocketStream)
    (hkeeps : Run.Meets step KeepsClose (new inner tail earlyData clientSide) requests)
    (hrun : Run.exec step (new inner tail earlyData clientSide) requests = some final) :
    CloseIsLast final.queued := by
  have h : Disciplined final := by
    refine Run.rule _ Disciplined ?_ _ requests final (disciplined_new _ _ _ _) hkeeps hrun
    intro state request next hd hk hs
    exact Option.some.inj hs ▸ call_disciplined state request hd hk
  exact h.last

-- The peer closes first and the shutdown comes after it.
theorem close_is_last_peer_first :
    CloseIsLast (((new (trickle [0x88, 0]) [] [] true).call (.read 4)).2.call .shutdown).2.queued :=
  close_is_last (trickle [0x88, 0]) [] [] true [.read 4, .shutdown] _
    ⟨fun hc => absurd hc (by decide), fun _ _ => ⟨trivial, fun _ _ => trivial⟩⟩ rfl

-- A shutdown before the peer's Close queues a second one, and a write after a
-- shutdown still queues data.
theorem not_closeIsLast :
    ¬CloseIsLast (((new (trickle [0x88, 0]) [] [] true).calls [.shutdown, .read 4]).2.queued) ∧
      ¬CloseIsLast (((new (trickle []) [] [] true).calls [.shutdown, .write [1]]).2.queued) := by
  constructor
  · intro h
    exact absurd (h [] ⟨0x8, []⟩ [⟨0x8, []⟩] rfl rfl) (by simp)
  · intro h
    exact absurd (h [] ⟨0x8, []⟩ [⟨0x2, [1]⟩] rfl rfl) (by simp)

end WebSocketStream

end SingBox.Vless
