import SingBox.Vless.WebSocket.Progress

namespace SingBox.Vless

open Library
open Async (Yields)

namespace Environment

-- A transport that is slow at most and has taken `sent`.
structure Ready (sent : Bytes) (inner : Environment) : Prop where
  reliable : inner.Reliable
  fair : inner.Fair
  sent : inner.sent = sent

theorem wait_wf : WellFounded fun next inner : Environment => next.wait < inner.wait :=
  InvImage.wf wait wellFounded_lt

theorem Ready.next {sent more : Bytes} {inner next : Environment} (h : inner.Ready sent)
    (hreads : WebSocketStream.Rest inner.reads next.reads)
    (hwrites : WebSocketStream.Rest inner.writes next.writes)
    (hmasks : next.masks = inner.masks) (hsent : next.sent = inner.sent ++ more) :
    next.Ready (sent ++ more) := by
  refine ⟨⟨hwrites.accepting h.reliable.accepting, ?_, ?_⟩, h.fair.of_rest hreads hwrites,
    by rw [hsent, h.sent]⟩
  · obtain ⟨used, hu⟩ := hreads
    exact fun n error => hu n ▸ h.reliable.reads (n + used) error
  · rw [hmasks]
    exact h.reliable.masks

-- The same with nothing more taken.
theorem Ready.same {sent : Bytes} {inner next : Environment} (h : inner.Ready sent)
    (hreads : WebSocketStream.Rest inner.reads next.reads)
    (hwrites : WebSocketStream.Rest inner.writes next.writes)
    (hmasks : next.masks = inner.masks) (hsent : next.sent = inner.sent) : next.Ready sent := by
  have hnext := h.next hreads hwrites hmasks (hsent.trans (List.append_nil _).symm)
  rwa [List.append_nil] at hnext

theorem Waited.rest {inner next : Environment} (h : inner.Waited next) :
    WebSocketStream.Rest inner.reads next.reads ∧ WebSocketStream.Rest inner.writes next.writes := by
  cases h with
  | read _ hreads hwrites => exact ⟨⟨1, hreads⟩, hwrites ▸ .refl _⟩
  | write _ hwrites hreads => exact ⟨hreads ▸ .refl _, ⟨1, hwrites⟩⟩

-- A call that only waits until it is ready, and that does not fail.
structure Patient {α : Type} (poll : Environment → Poll (IoResult α) × Environment) : Prop where
  waited : ∀ state next, poll state = (.pending, next) → state.Waited next
  kept : ∀ state next, poll state = (.pending, next) →
    next.incoming = state.incoming ∧ next.masks = state.masks ∧ next.sent = state.sent
  fine : ∀ state error next, state.Reliable → poll state ≠ (.ready (.error error), next)

theorem Ready.await {α : Type} {poll : Environment → Poll (IoResult α) × Environment}
    (hpoll : Patient poll) {sent : Bytes} {inner : Environment} (h : inner.Ready sent) :
    ∃ last value next, last.Ready sent ∧ last.incoming = inner.incoming ∧
      poll last = (.ready (.ok value), next) ∧ Yields (Async.await poll) inner value next := by
  have hpending : ∀ state next, (state.Ready sent ∧ state.incoming = inner.incoming) →
      poll state = (.pending, next) →
      (next.Ready sent ∧ next.incoming = inner.incoming) ∧ next.wait < state.wait := by
    rintro state next ⟨hstate, hsame⟩ hp
    have hwaited := hpoll.waited state next hp
    obtain ⟨hreads, hwrites⟩ := hwaited.rest
    obtain ⟨hincoming, hmasks, hsent⟩ := hpoll.kept state next hp
    exact ⟨⟨hstate.same hreads hwrites hmasks hsent, hincoming.trans hsame⟩,
      hwaited.wait_lt hstate.fair⟩
  obtain ⟨last, value, next, ⟨hlast, hsame⟩, hp, hyields⟩ := Yields.await _ wait_wf hpending
    (fun state error next hstate => hpoll.fine state error next hstate.1.reliable) inner ⟨h, rfl⟩
  exact ⟨last, value, next, hlast, hsame, hp, hyields⟩

theorem pollRead_pending {room : Nat} {inner next : Environment}
    (h : inner.pollRead room = (.pending, next)) :
    inner.reads 0 = .pending ∧ { inner with reads := fun n => inner.reads (n + 1) } = next := by
  unfold pollRead at h
  cases hr : inner.reads 0 with
  | pending => rw [hr] at h; exact ⟨rfl, (Prod.mk.inj h).2⟩
  | ready extra => simp [hr] at h
  | failed error => simp [hr] at h

theorem pollWrite_pending {data : Bytes} {inner next : Environment}
    (h : inner.pollWrite data = (.pending, next)) :
    inner.writes 0 = .pending ∧ { inner with writes := fun n => inner.writes (n + 1) } = next := by
  unfold pollWrite at h
  cases hw : inner.writes 0 with
  | pending => rw [hw] at h; exact ⟨rfl, (Prod.mk.inj h).2⟩
  | _ => simp [hw] at h

theorem pollDrained_pending {inner next : Environment} (h : inner.pollDrained = (.pending, next)) :
    inner.writes 0 = .pending ∧ { inner with writes := fun n => inner.writes (n + 1) } = next := by
  unfold pollDrained at h
  cases hw : inner.writes 0 with
  | pending => rw [hw] at h; exact ⟨rfl, (Prod.mk.inj h).2⟩
  | _ => simp [hw] at h

theorem patient_pollRead (room : Nat) : Patient (·.pollRead room) where
  waited state next hp := by
    obtain ⟨hr, rfl⟩ := pollRead_pending hp
    exact .read hr (fun _ => rfl) rfl
  kept state next hp := by
    obtain ⟨_, rfl⟩ := pollRead_pending hp
    exact ⟨rfl, rfl, rfl⟩
  fine state error next hstate hp := by
    simp only [pollRead] at hp
    cases hr : state.reads 0 with
    | pending => simp [hr] at hp
    | ready extra => simp [hr] at hp
    | failed other => exact hstate.reads 0 other hr

theorem patient_pollWrite (data : Bytes) : Patient (·.pollWrite data) where
  waited state next hp := by
    obtain ⟨hw, rfl⟩ := pollWrite_pending hp
    exact .write hw (fun _ => rfl) rfl
  kept state next hp := by
    obtain ⟨_, rfl⟩ := pollWrite_pending hp
    exact ⟨rfl, rfl, rfl⟩
  fine state error next hstate hp := by
    simp only [pollWrite] at hp
    rcases hstate.accepting 0 with hw | ⟨extra, hw⟩ <;> simp [hw] at hp

theorem patient_pollDrained : Patient pollDrained where
  waited state next hp := by
    obtain ⟨hw, rfl⟩ := pollDrained_pending hp
    exact .write hw (fun _ => rfl) rfl
  kept state next hp := by
    obtain ⟨_, rfl⟩ := pollDrained_pending hp
    exact ⟨rfl, rfl, rfl⟩
  fine state error next hstate hp := by
    simp only [pollDrained] at hp
    rcases hstate.accepting 0 with hw | ⟨extra, hw⟩ <;> simp [hw] at hp

-- Everything that comes in can be read.
def source (sent : Bytes) : Source Environment where
  good := Ready sent
  rest inner := inner.incoming
  read := by
    intro inner room hready hroom hrest
    obtain ⟨last, bytes, next, hlast, hsame, hp, hyields⟩ := Ready.await (patient_pollRead room) hready
    refine ⟨bytes, next, hyields, ?_⟩
    simp only [pollRead] at hp
    cases hr : last.reads 0 with
    | pending => simp [hr] at hp
    | failed error => simp [hr] at hp
    | ready extra =>
        rw [hr] at hp
        obtain ⟨hbytes, rfl⟩ := Prod.mk.inj hp
        obtain rfl := Except.ok.inj (Poll.ready.inj hbytes)
        have hpos : 0 < last.incoming.length := List.length_pos_iff.mpr (hsame ▸ hrest)
        refine ⟨hlast.same ⟨1, fun _ => rfl⟩ (.refl _) rfl rfl, ?_, ?_, ?_⟩
        · rw [← List.length_pos_iff, List.length_take]
          omega
        · rw [List.length_take]
          omega
        · rw [← hsame]
          exact (List.take_append_drop _ _).symm

-- One write takes something, and nothing is read by it.
theorem Ready.write {sent : Bytes} {inner : Environment} (h : inner.Ready sent) {data : Bytes}
    (hdata : data ≠ []) :
    ∃ count next, Yields (Async.await (AsyncWrite.pollWrite · data)) inner count next ∧ 0 < count ∧
      next.Ready (sent ++ data.take count) ∧ next.incoming = inner.incoming := by
  have hpos := List.length_pos_iff.mpr hdata
  obtain ⟨last, count, next, hlast, hsame, hp, hyields⟩ := Ready.await (patient_pollWrite data) h
  refine ⟨count, next, hyields, ?_⟩
  simp only [pollWrite] at hp
  rcases hlast.reliable.accepting 0 with hw | ⟨extra, hw⟩
  · simp [hw] at hp
  · rw [hw] at hp
    obtain ⟨hcount, rfl⟩ := Prod.mk.inj hp
    obtain rfl := Except.ok.inj (Poll.ready.inj hcount)
    exact ⟨by omega, hlast.next (.refl _) ⟨1, fun _ => rfl⟩ rfl rfl, hsame⟩

theorem Ready.writeRounds {sent : Bytes} {inner : Environment} (h : inner.Ready sent) (rounds : Nat)
    {data : Bytes} (hdata : data.length ≤ rounds) :
    ∃ next, Yields (fun polls => Async.writeRounds polls rounds data) inner () next ∧
      next.Ready (sent ++ data) ∧ next.incoming = inner.incoming := by
  induction rounds generalizing sent inner data with
  | zero =>
      obtain rfl := List.eq_nil_of_length_eq_zero (Nat.le_zero.mp hdata)
      exact ⟨inner, .pure inner (), by rwa [List.append_nil], rfl⟩
  | succ rounds ih =>
      cases data with
      | nil => exact ⟨inner, .pure inner (), by rwa [List.append_nil], rfl⟩
      | cons byte data =>
          obtain ⟨count, mid, hwrite, hcount, hmid, hsame⟩ := h.write (List.cons_ne_nil byte data)
          have hless : ((byte :: data).drop count).length ≤ rounds := by
            rw [List.length_drop]
            simp only [List.length_cons] at hdata ⊢
            omega
          obtain ⟨next, hrounds, hnext, hincoming⟩ := ih hmid hless
          rw [List.append_assoc, List.take_append_drop] at hnext
          exact ⟨next, .writeRounds (List.cons_ne_nil byte data) hcount hwrite hrounds, hnext,
            hincoming.trans hsame⟩

theorem Ready.writeAll {sent : Bytes} {inner : Environment} (h : inner.Ready sent) (data : Bytes) :
    ∃ next, Yields (Async.writeAll data) inner () next ∧ next.Ready (sent ++ data) ∧
      next.incoming = inner.incoming := h.writeRounds data.length (Nat.le_refl _)

theorem Ready.flush {sent : Bytes} {inner : Environment} (h : inner.Ready sent) :
    ∃ next, Yields Async.flush inner () next ∧ next.Ready sent ∧ next.incoming = inner.incoming := by
  obtain ⟨last, value, next, hlast, hsame, hp, hyields⟩ := Ready.await patient_pollDrained h
  refine ⟨next, hyields, ?_⟩
  simp only [pollDrained] at hp
  rcases hlast.reliable.accepting 0 with hw | ⟨extra, hw⟩
  · simp [hw] at hp
  · rw [hw] at hp
    obtain ⟨_, rfl⟩ := Prod.mk.inj hp
    exact ⟨hlast.same (.refl _) ⟨1, fun _ => rfl⟩ rfl rfl, hsame⟩

end Environment

end SingBox.Vless
