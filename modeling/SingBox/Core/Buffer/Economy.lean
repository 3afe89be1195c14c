import SingBox.Core.Buffer.Transparent

namespace SingBox.Core

open Library

namespace PacketBufferPool

variable (this : PacketBufferPool) {buffer : Buffer} {leases : List Buffer}

theorem length_acquire : this.acquire.2.buffers.length = this.buffers.length - 1 := by
  rw [PacketBufferPool.acquire]
  cases hbuffers : this.buffers with
  | nil => exact congrArg List.length hbuffers
  | cons buffer buffers => rfl

theorem length_recycle_le (buffer : Buffer) : (this.recycle buffer).buffers.length ≤ this.buffers.length + 1 := by
  rw [PacketBufferPool.recycle]
  split
  · omega
  · split
    · exact Nat.le_refl _
    · omega

theorem length_recycle (hcapacity : UDP_BUFFER_SIZE ≤ buffer.capacity)
    (hfew : this.buffers.length < MAX_RETAINED_BUFFERS) :
    (this.recycle buffer).buffers.length = this.buffers.length + 1 := by
  rw [PacketBufferPool.recycle, if_neg (Nat.not_lt.mpr hcapacity), if_pos hfew]
  rfl

theorem length_release_le (leases : List Buffer) :
    (this.release leases).buffers.length ≤ this.buffers.length + leases.length := by
  induction leases with
  | nil => exact Nat.le_refl _
  | cons buffer leases ih =>
      have hlast := length_recycle_le (this.release leases) buffer
      rw [List.length_cons]
      exact hlast.trans (by omega)

theorem length_release (hready : ∀ lease ∈ leases, lease.Ready)
    (hfew : this.buffers.length + leases.length ≤ MAX_RETAINED_BUFFERS) :
    (this.release leases).buffers.length = this.buffers.length + leases.length := by
  induction leases with
  | nil => rfl
  | cons buffer leases ih =>
      obtain ⟨hbuffer, hleases⟩ := List.forall_mem_cons.mp hready
      rw [List.length_cons] at hfew ⊢
      have hrest := ih hleases (by omega)
      have hlast := length_recycle (this.release leases) hbuffer.roomy (by omega)
      exact hlast.trans (by omega)

end PacketBufferPool

-- How many buffers of the pool a packet keeps from it.
def PooledPacket.borrowed (this : PooledPacket) : Nat := if this.recyclePool then 1 else 0

def PooledPacket.Roomy (this : PooledPacket) : Prop :=
  this.recyclePool = true → UDP_BUFFER_SIZE ≤ this.data.capacity

theorem PooledPacket.length_drop_le (this : PooledPacket) (pool : PacketBufferPool) :
    (this.drop pool).buffers.length ≤ pool.buffers.length + this.borrowed := by
  rw [PooledPacket.drop, PooledPacket.borrowed]
  split
  · exact pool.length_recycle_le this.data
  · exact Nat.le_refl _

theorem PooledPacket.Roomy.length_drop {this : PooledPacket} (h : this.Roomy) (pool : PacketBufferPool)
    (hfew : pool.buffers.length + this.borrowed ≤ MAX_RETAINED_BUFFERS) :
    (this.drop pool).buffers.length = pool.buffers.length + this.borrowed := by
  rw [PooledPacket.borrowed] at hfew ⊢
  rw [PooledPacket.drop]
  by_cases hpooled : this.recyclePool = true
  · rw [if_pos hpooled] at hfew
    rw [if_pos hpooled, if_pos hpooled]
    exact pool.length_recycle (h hpooled) hfew
  · rw [if_neg hpooled, if_neg hpooled]
    rfl

namespace PacketBuffers

-- The buffers that are leased or that packets have, and all that are there with the ones that
-- wait in the pool.
def leased (this : PacketBuffers) : Nat := Slots.total (fun call => call.leases.length) this.calls

def borrowed (this : PacketBuffers) : Nat := Slots.total PooledPacket.borrowed this.packets

def inUse (this : PacketBuffers) : Nat := this.leased + this.borrowed

def held (this : PacketBuffers) : Nat := this.pool.buffers.length + this.inUse

variable {this next : PacketBuffers}

theorem length_acquire (count : Nat) (pool : PacketBufferPool) :
    (acquire count pool).2.buffers.length = pool.buffers.length - count := by
  induction count generalizing pool with
  | zero => rfl
  | succ count ih =>
      have hrest := ih pool.acquire.2
      rw [PacketBufferPool.length_acquire] at hrest
      exact hrest.trans (by omega)

theorem length_leases (count : Nat) (pool : PacketBufferPool) : (acquire count pool).1.length = count := by
  induction count generalizing pool with
  | zero => rfl
  | succ count ih => exact congrArg (· + 1) (ih pool.acquire.2)

-- Buffers are made only when none waits.
theorem held_begin (receiver : Receiver) :
    (this.begin receiver).held = max this.held (this.begin receiver).inUse := by
  have hpool := length_acquire receiver.sockets this.pool
  have hleases := length_leases receiver.sockets this.pool
  have hleased : (this.begin receiver).leased = this.leased + receiver.sockets := by
    rw [leased, begin, Slots.total_append]
    exact congrArg (Slots.total _ this.calls + ·) hleases
  have hborrowed : (this.begin receiver).borrowed = this.borrowed := rfl
  rw [held, held, inUse, inUse, hleased, hborrowed]
  have hlength : (this.begin receiver).pool.buffers.length =
      this.pool.buffers.length - receiver.sockets := hpool
  omega

section

variable {index socket : Nat} {call : Receiving} {pass : RecvPass} {buffer : Buffer}
  {received : Option (Result Packet)}

-- A call that is over holds no lease.
theorem leased_over (hcall : this.calls[index]? = some (some call)) :
    Slots.total (fun call => call.leases.length) (this.calls.set index none) + call.leases.length =
      this.leased := Slots.total_set _ hcall none

theorem length_others (hsocket : socket < call.leases.length) :
    (call.leases.eraseIdx socket).length + 1 = call.leases.length := by
  rw [List.length_eraseIdx_of_lt hsocket]
  omega

theorem borrowed_received (this : PacketBuffers) {pooled : PooledPacket} (hpooled : pooled.recyclePool = true) :
    Slots.total PooledPacket.borrowed (this.packets ++ [some pooled]) = this.borrowed + 1 := by
  have hone : pooled.borrowed = 1 := if_pos hpooled
  rw [Slots.total_append]
  exact congrArg (this.borrowed + ·) hone

-- The buffer of the socket is in the packet or goes back, and the others go back.
theorem held_settle_le (this : PacketBuffers) (hcall : this.calls[index]? = some (some call))
    (hsocket : socket < call.leases.length) (hshows : pass.Shows buffer received) :
    (this.settle index socket call pass).held ≤ this.held := by
  have hover := leased_over hcall
  have hothers := length_others hsocket
  have hreleased := this.pool.length_release_le (call.leases.eraseIdx socket)
  cases hshows with
  | @again left ready =>
      have hsame := Slots.total_set (fun call : Receiving => call.leases.length) hcall
        (some { call with leases := call.leases.set socket left })
      simp only [Option.elim_some, List.length_set] at hsame
      simp only [held, inUse, settle, leased, borrowed]
      omega
  | @failed left chain _ =>
      have hlast := (this.pool.release (call.leases.eraseIdx socket)).length_recycle_le left
      simp only [held, inUse, settle, leased, borrowed] at hover ⊢
      omega
  | received shows =>
      have hpacket := this.borrowed_received shows.pooled
      simp only [held, inUse, settle, leased, borrowed] at hover hpacket ⊢
      omega

-- Nothing is thrown away while there is room for all of them in the pool.
theorem le_held_settle (this : PacketBuffers) (hcall : this.calls[index]? = some (some call)) (hsound : call.Sound)
    (hsocket : call.leases[socket]? = some buffer) (hshows : pass.Shows buffer received)
    (hfew : this.held ≤ MAX_RETAINED_BUFFERS) :
    this.held ≤ (this.settle index socket call pass).held := by
  obtain ⟨hlease, rfl⟩ := List.getElem?_eq_some_iff.mp hsocket
  have hover := leased_over hcall
  have hothers := length_others hlease
  have hready : ∀ lease ∈ call.leases.eraseIdx socket, lease.Ready :=
    fun lease hmem => hsound.ready lease (List.mem_of_mem_eraseIdx hmem)
  have hreleased := this.pool.length_release hready (by
    simp only [held, inUse] at hfew
    omega)
  cases hshows with
  | @again left ready =>
      have hsame := Slots.total_set (fun call : Receiving => call.leases.length) hcall
        (some { call with leases := call.leases.set socket left })
      simp only [Option.elim_some, List.length_set] at hsame
      simp only [held, inUse, settle, leased, borrowed]
      omega
  | @failed left chain hcapacity =>
      have hroomy : UDP_BUFFER_SIZE ≤ left.capacity :=
        hcapacity ▸ (hsound.ready _ (List.getElem_mem hlease)).roomy
      have hlast := (this.pool.release (call.leases.eraseIdx socket)).length_recycle hroomy (by
          simp only [held, inUse] at hfew
          omega)
      simp only [held, inUse, settle, leased, borrowed] at hover ⊢
      omega
  | received shows =>
      have hpacket := this.borrowed_received shows.pooled
      simp only [held, inUse, settle, leased, borrowed] at hover hpacket ⊢
      omega

-- A socket that receives does so in its lease.
theorem Sound.receive_cases (h : this.Sound) {datagram : Socks.Datagram}
    (hcall : this.calls[index]? = some (some call))
    (hreceive : this.receive index socket datagram call = some next) :
    ∃ connections buffer pass received, call.leases[socket]? = some buffer ∧
      pass.Shows buffer received ∧
        next = PacketBuffers.settle { this with connections } index socket call pass := by
  have hsound := h.calls.of_getElem? hcall
  obtain ⟨buffer, hbuffer, hreceive⟩ := Option.bind_eq_some_iff.mp hreceive
  have hready := hsound.ready buffer (List.mem_of_getElem? hbuffer)
  cases hreceiver : call.receiver with
  | direct hasIpv6 =>
      rw [hreceiver] at hreceive
      exact ⟨this.connections, buffer, _, _, hbuffer, shows_directPass hready datagram,
        (Option.some.inj hreceive).symm⟩
  | socks number =>
      rw [hreceiver] at hreceive
      obtain ⟨connection, -, hreceive⟩ := Option.bind_eq_some_iff.mp hreceive
      exact ⟨_, buffer, _, _, hbuffer, (connection.shows_pass hready datagram).1,
        (Option.some.inj hreceive).symm⟩

end

-- There are never more buffers than there were, or than are in use.
theorem Sound.held_step_le (h : this.Sound) {action : PacketAction}
    (hstep : this.step action = some next) : next.held ≤ max this.held next.inUse := by
  cases action with
  | associate controlSourceIp =>
      obtain rfl := Option.some.inj hstep
      exact Nat.le_max_left _ _
  | recv receiver =>
      obtain rfl := Option.some.inj hstep
      exact (held_begin receiver).le
  | receive index socket datagram =>
      simp only [PacketBuffers.step] at hstep
      split at hstep
      · rename_i call hcall
        obtain ⟨connections, buffer, pass, received, hbuffer, hshows, rfl⟩ :=
          h.receive_cases hcall hstep
        obtain ⟨hsocket, -⟩ := List.getElem?_eq_some_iff.mp hbuffer
        have hle : (PacketBuffers.settle { this with connections } index socket call pass).held ≤
            this.held := held_settle_le _ hcall hsocket hshows
        exact hle.trans (Nat.le_max_left _ _)
      · cases hstep
  | abort index =>
      simp only [PacketBuffers.step] at hstep
      split at hstep
      · rename_i call hcall
        obtain rfl := Option.some.inj hstep
        have hover := leased_over hcall
        have hreleased := this.pool.length_release_le call.leases
        refine Nat.le_trans ?_ (Nat.le_max_left _ _)
        simp only [held, inUse, leased, borrowed] at hover ⊢
        omega
      · cases hstep
  | take index =>
      simp only [PacketBuffers.step] at hstep
      split at hstep
      · rename_i packet hpacket
        obtain rfl := Option.some.inj hstep
        have htaken := Slots.total_set PooledPacket.borrowed hpacket (some packet.takeData)
        have hnone : packet.takeData.borrowed = 0 := rfl
        simp only [Option.elim_some, hnone] at htaken
        refine Nat.le_trans ?_ (Nat.le_max_left _ _)
        simp only [held, inUse, leased, borrowed]
        omega
      · cases hstep
  | clone index =>
      simp only [PacketBuffers.step] at hstep
      split at hstep
      · rename_i packet hpacket
        obtain rfl := Option.some.inj hstep
        have hcloned := Slots.total_append PooledPacket.borrowed this.packets (some packet.clone)
        have hnone : packet.clone.borrowed = 0 := rfl
        simp only [Option.elim_some, hnone] at hcloned
        refine Nat.le_trans ?_ (Nat.le_max_left _ _)
        simp only [held, inUse, leased, borrowed]
        omega
      · cases hstep
  | assign index data =>
      simp only [PacketBuffers.step] at hstep
      split at hstep
      · rename_i packet hpacket
        obtain rfl := Option.some.inj hstep
        have hassigned := Slots.total_set PooledPacket.borrowed hpacket (some { packet with data })
        have hsame : PooledPacket.borrowed { packet with data } = packet.borrowed := rfl
        simp only [Option.elim_some, hsame] at hassigned
        refine Nat.le_trans ?_ (Nat.le_max_left _ _)
        simp only [held, inUse, leased, borrowed]
        omega
      · cases hstep
  | drop index =>
      simp only [PacketBuffers.step] at hstep
      split at hstep
      · rename_i packet hpacket
        obtain rfl := Option.some.inj hstep
        have hover := Slots.total_set PooledPacket.borrowed hpacket none
        have hdropped := packet.length_drop_le this.pool
        simp only [Option.elim_some, Option.elim_none] at hover
        refine Nat.le_trans ?_ (Nat.le_max_left _ _)
        simp only [held, inUse, leased, borrowed]
        omega
      · cases hstep

-- No vector is put in the place of a buffer or taken out of a packet, and there is room in the
-- pool for all that are in use.
def Frugal (this : PacketBuffers) (action : PacketAction) : Prop :=
  (match action with
    | .take _ | .assign _ _ => False
    | _ => True) ∧
  ∀ next, this.step action = some next → next.inUse ≤ MAX_RETAINED_BUFFERS

-- No buffer has been lost, and none has to be.
structure Thrifty (this : PacketBuffers) : Prop where
  sound : this.Sound
  roomy : Slots.All PooledPacket.Roomy this.packets
  few : this.held ≤ MAX_RETAINED_BUFFERS

theorem roomy_settle (this : PacketBuffers) (hroomy : Slots.All PooledPacket.Roomy this.packets) {index socket : Nat}
    {call : Receiving} {pass : RecvPass} {buffer : Buffer} {received : Option (Result Packet)}
    (hbuffer : buffer.Ready) (hshows : pass.Shows buffer received) :
    Slots.All PooledPacket.Roomy (this.settle index socket call pass).packets := by
  cases hshows with
  | again ready => exact hroomy
  | failed chain _ => exact hroomy
  | received shows =>
      refine hroomy.append ?_
      rintro packet ⟨⟩ -
      exact shows.capacity ▸ hbuffer.roomy

-- A frugal step loses no buffer.
theorem Thrifty.le_held_step (h : this.Thrifty) {action : PacketAction} (hfrugal : this.Frugal action)
    (hstep : this.step action = some next) :
    this.held ≤ next.held ∧ Slots.All PooledPacket.Roomy next.packets := by
  have hfew := h.few
  cases action with
  | associate controlSourceIp =>
      obtain rfl := Option.some.inj hstep
      exact ⟨Nat.le_refl _, h.roomy⟩
  | recv receiver =>
      obtain rfl := Option.some.inj hstep
      exact ⟨(held_begin receiver).symm ▸ Nat.le_max_left _ _, h.roomy⟩
  | receive index socket datagram =>
      simp only [PacketBuffers.step] at hstep
      split at hstep
      · rename_i call hcall
        obtain ⟨connections, buffer, pass, received, hbuffer, hshows, rfl⟩ :=
          h.sound.receive_cases hcall hstep
        have hsound := h.sound.calls.of_getElem? hcall
        have hready := hsound.ready buffer (List.mem_of_getElem? hbuffer)
        have hle : this.held ≤
            (PacketBuffers.settle { this with connections } index socket call pass).held :=
          le_held_settle { this with connections } hcall hsound hbuffer hshows hfew
        exact ⟨hle, roomy_settle { this with connections } h.roomy hready hshows⟩
      · cases hstep
  | abort index =>
      simp only [PacketBuffers.step] at hstep
      split at hstep
      · rename_i call hcall
        obtain rfl := Option.some.inj hstep
        have hover := leased_over hcall
        have hreleased := this.pool.length_release (h.sound.calls.of_getElem? hcall).ready (by
            simp only [held, inUse] at hfew
            omega)
        refine ⟨?_, h.roomy⟩
        simp only [held, inUse, leased, borrowed] at hover ⊢
        omega
      · cases hstep
  | take index => exact absurd hfrugal.1 id
  | clone index =>
      simp only [PacketBuffers.step] at hstep
      split at hstep
      · rename_i packet hpacket
        obtain rfl := Option.some.inj hstep
        have hcloned := Slots.total_append PooledPacket.borrowed this.packets (some packet.clone)
        refine ⟨?_, h.roomy.append ?_⟩
        · simp only [held, inUse, leased, borrowed]
          omega
        · rintro other ⟨⟩ hpooled
          cases hpooled
      · cases hstep
  | assign index data => exact absurd hfrugal.1 id
  | drop index =>
      simp only [PacketBuffers.step] at hstep
      split at hstep
      · rename_i packet hpacket
        obtain rfl := Option.some.inj hstep
        have hover := Slots.total_set PooledPacket.borrowed hpacket none
        simp only [Option.elim_some, Option.elim_none] at hover
        have hdropped := (h.roomy.of_getElem? hpacket).length_drop this.pool (by
            simp only [held, inUse, leased, borrowed] at hfew
            omega)
        refine ⟨?_, h.roomy.set index fun _ hpacket => by cases hpacket⟩
        simp only [held, inUse, leased, borrowed]
        omega
      · cases hstep

theorem Thrifty.step (h : this.Thrifty) {action : PacketAction} (hfrugal : this.Frugal action)
    (hstep : this.step action = some next) : next.Thrifty := by
  obtain ⟨-, hroomy⟩ := h.le_held_step hfrugal hstep
  have hpeak := h.sound.held_step_le hstep
  exact ⟨(h.sound.step action).1 next hstep, hroomy,
    hpeak.trans (Nat.max_le.mpr ⟨h.few, hfrugal.2 next hstep⟩)⟩

-- The state in which `count` buffers were in use has been reached.
def Reached (actions : List PacketAction) (this : PacketBuffers) (mid : PacketBuffers) : Prop :=
  ∃ front, front <+: actions ∧ Run.exec step this front = some mid

theorem Sound.peak {actions : List PacketAction} {final : PacketBuffers} (h : this.Sound)
    (hrun : Run.exec PacketBuffers.step this actions = some final) :
    final.held ≤ this.held ∨ ∃ mid, Reached actions this mid ∧ final.held ≤ mid.inUse := by
  induction actions generalizing this with
  | nil => exact .inl (Option.some.inj hrun ▸ Nat.le_refl _)
  | cons action actions ih =>
      obtain ⟨next, hstep, hrest⟩ := Option.bind_eq_some_iff.mp hrun
      rcases ih ((h.step action).1 next hstep) hrest with hfinal | ⟨mid, ⟨front, hfront, hmid⟩, hfinal⟩
      · rcases le_max_iff.mp (hfinal.trans (h.held_step_le hstep)) with hthis | hnext
        · exact .inl hthis
        · refine .inr ⟨next, ⟨[action], List.prefix_append [action] actions, ?_⟩, hnext⟩
          rw [Run.exec, hstep]
          rfl
      · refine .inr ⟨mid, ⟨action :: front, List.cons_prefix_cons.mpr ⟨rfl, hfront⟩, ?_⟩, hfinal⟩
        rw [Run.exec, hstep]
        exact hmid

theorem Thrifty.exec {actions : List PacketAction} {final mid : PacketBuffers} (h : this.Thrifty)
    (hfrugal : Run.Meets PacketBuffers.step Frugal this actions)
    (hrun : Run.exec PacketBuffers.step this actions = some final) :
    this.held ≤ final.held ∧ (Reached actions this mid → mid.inUse ≤ final.held) := by
  induction actions generalizing this with
  | nil =>
      obtain rfl := Option.some.inj hrun
      refine ⟨Nat.le_refl _, fun ⟨front, hfront, hmid⟩ => ?_⟩
      obtain rfl := List.prefix_nil.mp hfront
      obtain rfl := Option.some.inj hmid
      exact Nat.le_add_left _ _
  | cons action actions ih =>
      obtain ⟨next, hstep, hrest⟩ := Option.bind_eq_some_iff.mp hrun
      obtain ⟨hheld, hlater⟩ := ih (h.step hfrugal.1 hstep) (hfrugal.2 next hstep) hrest
      have hthis : this.held ≤ final.held := (h.le_held_step hfrugal.1 hstep).1.trans hheld
      refine ⟨hthis, fun ⟨front, hfront, hmid⟩ => ?_⟩
      cases front with
      | nil =>
          obtain rfl := Option.some.inj hmid
          exact (Nat.le_add_left _ _).trans hthis
      | cons first front =>
          obtain ⟨rfl, htail⟩ := List.cons_prefix_cons.mp hfront
          rw [Run.exec, hstep] at hmid
          exact hlater ⟨front, htail, hmid⟩

-- The pool keeps few buffers, all of them empty, and a call has a whole one for each socket. There
-- are at no time more buffers than have been in use at once, and none is lost while there is room
-- for all that are.
theorem pool_bounded {actions : List PacketAction} {final : PacketBuffers}
    (hrun : Run.exec step {} actions = some final) :
    final.pool.Kept ∧ (∀ call, some call ∈ final.calls → call.Sound) ∧
      (∃ mid, Reached actions {} mid ∧ final.held ≤ mid.inUse) ∧
      (Run.Meets step Frugal {} actions → ∀ mid, Reached actions {} mid → mid.inUse ≤ final.held) := by
  have hsound : final.Sound :=
    Run.invariant (fun _ action next h hstep => (h.step action).1 next hstep) _ actions final
      sound_new hrun
  refine ⟨hsound.pool, hsound.calls, ?_, fun hfrugal mid hreached => ?_⟩
  · rcases sound_new.peak hrun with hnone | hpeak
    · exact ⟨{}, ⟨[], List.nil_prefix, rfl⟩, hnone⟩
    · exact hpeak
  · have hthrifty : Thrifty {} := ⟨sound_new, nofun, Nat.zero_le _⟩
    exact (hthrifty.exec hfrugal hrun).2 hreached

-- A packet is received and dropped, and both buffers of its call have gone back.
theorem pool_bounded_dropped : ∃ final,
    Run.exec step {} [.recv (.direct true),
      .receive 0 1 ⟨⟨.v4 0x0a000001#32, 53⟩, [7], by decide⟩, .drop 0] = some final ∧
      final.pool.buffers.length = 2 ∧ final.pool.Kept := by
  have hrun : ∃ final, Run.exec step {} [.recv (.direct true),
      .receive 0 1 ⟨⟨.v4 0x0a000001#32, 53⟩, [7], by decide⟩, .drop 0] = some final ∧
      final.pool.buffers.length = 2 := ⟨_, rfl, rfl⟩
  obtain ⟨final, hrun, hlength⟩ := hrun
  exact ⟨final, hrun, hlength, (pool_bounded hrun).1⟩

end PacketBuffers

end SingBox.Core
