import SingBox.Core.Dialer
import SingBox.Library.Reader

namespace SingBox.Core

open Library

structure NtpConfig where
  enabled : Bool := false
  server : String := ""
  serverPort : UInt16 := 0

namespace Ntp

def NTP_PORT : UInt16 := 123
def NTP_UNIX_EPOCH_DELTA : Nat := 2208988800
def NANOS_PER_SECOND : Nat := 1000000000

-- `SystemTime::duration_since(UNIX_EPOCH)`. A time is in nanoseconds after that epoch.
def durationSinceEpoch (time : Int) : Result Nat :=
  Result.withContext "system clock is before Unix epoch"
    (if 0 ≤ time then .ok time.toNat else Result.bail "second time provided was later than self")

def unixNanos (time : Int) : Result Int := do
  let duration ← durationSinceEpoch time
  return duration / NANOS_PER_SECOND * NANOS_PER_SECOND + duration % NANOS_PER_SECOND

def ntpTimestamp (input : Bytes) : Result Int := do
  Result.ensure (input.length == 8) "invalid NTP timestamp"
  let seconds := ofBe (input.take 4)
  let fraction := ofBe (input.drop 4)
  return (seconds - NTP_UNIX_EPOCH_DELTA) * NANOS_PER_SECOND +
    (fraction * NANOS_PER_SECOND / 2 ^ 32 : Nat)

def systemTimeToNtp (time : Int) : Result Bytes := do
  let duration ← durationSinceEpoch time
  let seconds := duration / NANOS_PER_SECOND + NTP_UNIX_EPOCH_DELTA
  Result.ensure (seconds < 2 ^ 64) "NTP timestamp overflow"
  Result.withContext "NTP era overflow" (Result.ensure (seconds < 2 ^ 32)
    "out of range integral type conversion attempted")
  let fraction := duration % NANOS_PER_SECOND * 2 ^ 32 / NANOS_PER_SECOND
  return toBe 4 seconds ++ toBe 4 fraction

-- What a query meets: the socket, the clock when it sends and when it has received, and the
-- datagram that comes back for the one that it sends, if one does in five seconds.
structure Exchange where
  socket : Result Unit
  sent : Int
  answer : Bytes → Result Bytes
  received : Int

-- A datagram in the buffer of a response.
def response (datagram : Bytes) : Bytes := (datagram ++ List.replicate 48 0).take 48

def query (exchange : Exchange) : Result Int := do
  exchange.socket
  let clientSend ← unixNanos exchange.sent
  let transmit ← systemTimeToNtp exchange.sent
  let datagram ← exchange.answer (0x23 :: List.replicate 39 0 ++ transmit)
  let response := response datagram
  let clientReceive ← unixNanos exchange.received
  Result.ensure (response.getD 0 0 &&& 7 == 4) "invalid NTP response mode"
  Result.ensure (response.getD 1 0 != 0) "NTP server is unsynchronized"
  let serverReceive ← ntpTimestamp ((response.take 40).drop 32)
  let serverSend ← ntpTimestamp ((response.take 48).drop 40)
  return ((serverReceive - clientSend) + (serverSend - clientReceive)).tdiv 2

-- The loop of `synchronize` over the addresses.
def queryEach (exchange : SocketAddr → Exchange) (lastError : Option (List String)) :
    List SocketAddr → Option (Result Int)
  | [] => lastError.map .error
  | address :: rest =>
      match query (exchange address) with
      | .ok offset => some (.ok offset)
      | .error chain => queryEach exchange (some chain) rest

def synchronize (lookupHost : String → UInt16 → Result (List SocketAddr))
    (exchange : SocketAddr → Exchange) (config : NtpConfig) (dialer : SystemDialer) :
    Result Int := do
  Result.ensure (config.server != "") "NTP server is empty"
  let port := if config.serverPort = 0 then NTP_PORT else config.serverPort
  let addresses ← dialer.resolve lookupHost config.server port
  (queryEach exchange none addresses).getD
    (Result.bail s!"NTP server did not resolve: {config.server}")

-- The times that a timestamp can hold: up to the end of the first era, in 2036.
def InEra (time : Int) : Prop :=
  0 ≤ time ∧ time < (2 ^ 32 - NTP_UNIX_EPOCH_DELTA : Nat) * NANOS_PER_SECOND

instance (time : Int) : Decidable (InEra time) := inferInstanceAs (Decidable (_ ∧ _))

theorem durationSinceEpoch_eq {time : Int} (h : 0 ≤ time) :
    durationSinceEpoch time = .ok time.toNat := by
  rw [durationSinceEpoch, if_pos h]
  rfl

theorem unixNanos_eq {time : Int} (h : 0 ≤ time) : unixNanos time = .ok time := by
  rw [unixNanos, durationSinceEpoch_eq h]
  refine congrArg Except.ok ?_
  simp only [NANOS_PER_SECOND]
  omega

-- The fraction is cut off on the way there and on the way back.
theorem fraction_nanos {nanos : Nat} (h : nanos < NANOS_PER_SECOND) :
    nanos * 2 ^ 32 / NANOS_PER_SECOND < 2 ^ 32 ∧
      nanos * 2 ^ 32 / NANOS_PER_SECOND * NANOS_PER_SECOND / 2 ^ 32 ≤ nanos ∧
      nanos ≤ nanos * 2 ^ 32 / NANOS_PER_SECOND * NANOS_PER_SECOND / 2 ^ 32 + 1 := by
  simp only [NANOS_PER_SECOND] at *
  omega

theorem seconds_lt {time : Int} (h : InEra time) :
    time.toNat / NANOS_PER_SECOND + NTP_UNIX_EPOCH_DELTA < 2 ^ 32 := by
  obtain ⟨hpos, hlt⟩ := h
  simp only [NANOS_PER_SECOND, NTP_UNIX_EPOCH_DELTA] at *
  omega

theorem systemTimeToNtp_eq {time : Int} (h : InEra time) :
    systemTimeToNtp time = .ok
      (toBe 4 (time.toNat / NANOS_PER_SECOND + NTP_UNIX_EPOCH_DELTA) ++
        toBe 4 (time.toNat % NANOS_PER_SECOND * 2 ^ 32 / NANOS_PER_SECOND)) := by
  have hseconds := seconds_lt h
  have hwide := Nat.lt_trans hseconds (by decide : 2 ^ 32 < 2 ^ 64)
  unfold systemTimeToNtp
  refine Result.bind_eq_ok.mpr ⟨_, durationSinceEpoch_eq h.1, ?_⟩
  refine Result.ensure_bind_eq_ok.mpr ⟨decide_eq_true hwide, ?_⟩
  refine Result.bind_eq_ok.mpr ⟨(), Result.withContext_eq_ok.mpr ?_, rfl⟩
  exact Result.ensure_eq_ok.mpr (decide_eq_true hseconds)

theorem ntpTimestamp_eq {seconds fraction : Nat} (hs : seconds < 2 ^ 32) (hf : fraction < 2 ^ 32) :
    ntpTimestamp (toBe 4 seconds ++ toBe 4 fraction) =
      .ok ((seconds - NTP_UNIX_EPOCH_DELTA) * NANOS_PER_SECOND +
        (fraction * NANOS_PER_SECOND / 2 ^ 32 : Nat)) := by
  have hlength : (toBe 4 seconds).length = 4 := toBe_length 4 seconds
  unfold ntpTimestamp
  refine Result.ensure_bind_eq_ok.mpr ⟨by simp, ?_⟩
  rw [List.take_left' hlength, List.drop_left' hlength, ofBe_toBe 4 _ hs, ofBe_toBe 4 _ hf]
  rfl

-- A time that is written as a timestamp is read back a nanosecond early at most.
theorem ntpTimestamp_systemTimeToNtp {time : Int} (h : InEra time) :
    ∃ timestamp read, systemTimeToNtp time = .ok timestamp ∧ timestamp.length = 8 ∧
      ntpTimestamp timestamp = .ok read ∧ read ≤ time ∧ time ≤ read + 1 := by
  have hnanos := fraction_nanos (Nat.mod_lt time.toNat (by decide : 0 < NANOS_PER_SECOND))
  refine ⟨_, _, systemTimeToNtp_eq h, by simp, ntpTimestamp_eq (seconds_lt h) hnanos.1, ?_⟩
  obtain ⟨hpos, -⟩ := h
  obtain ⟨-, hbelow, habove⟩ := hnanos
  have hparts := Nat.div_add_mod time.toNat NANOS_PER_SECOND
  simp only [NANOS_PER_SECOND, NTP_UNIX_EPOCH_DELTA] at *
  omega

-- A query that takes `up` to the server and `down` back. The server works on it for a while,
-- and its clock is `shift` ahead.
structure Answered (shift up work down : Int) (exchange : Exchange) : Prop where
  socket : exchange.socket = .ok ()
  sent : InEra exchange.sent
  received : exchange.received = exchange.sent + up + work + down
  receivedAfter : 0 ≤ exchange.received
  receive : InEra (exchange.sent + up + shift)
  send : InEra (exchange.sent + up + work + shift)
  answer : ∀ request, ∃ datagram, exchange.answer request = .ok datagram ∧
    48 ≤ datagram.length ∧ (datagram.getD 0 0 &&& 7) = 4 ∧ datagram.getD 1 0 ≠ 0 ∧
    systemTimeToNtp (exchange.sent + up + shift) = .ok ((datagram.take 40).drop 32) ∧
    systemTimeToNtp (exchange.sent + up + work + shift) = .ok ((datagram.take 48).drop 40)

theorem response_getD {datagram : Bytes} (h : 48 ≤ datagram.length) {index : Nat}
    (hi : index < 48) : (response datagram).getD index 0 = datagram.getD index 0 := by
  have hlt : index < datagram.length := Nat.lt_of_lt_of_le hi h
  rw [List.getD_eq_getElem?_getD, List.getD_eq_getElem?_getD, response, List.getElem?_take,
    if_pos hi, List.getElem?_append_left hlt]

theorem response_take {datagram : Bytes} (h : 48 ≤ datagram.length) {count : Nat}
    (hc : count ≤ 48) : (response datagram).take count = datagram.take count := by
  rw [response, List.take_take, Nat.min_eq_left hc, List.take_append_of_le_length]
  exact Nat.le_trans hc h

theorem two_mul_tdiv (sum : Int) : sum - 1 ≤ 2 * sum.tdiv 2 ∧ 2 * sum.tdiv 2 ≤ sum + 1 := by
  obtain h | h := Int.le_total 0 sum
  · rw [Int.tdiv_eq_ediv_of_nonneg h]
    omega
  · have hneg := Int.tdiv_eq_ediv_of_nonneg (b := 2) (Int.neg_nonneg_of_nonpos h)
    rw [Int.neg_tdiv] at hneg
    omega

-- Half of what the way there takes longer than the way back, and what has been cut off, is what
-- the offset is wrong by.
theorem query_offset {shift up work down : Int} {exchange : Exchange}
    (h : Answered shift up work down exchange) :
    ∃ offset, query exchange = .ok offset ∧ up - down - 3 ≤ 2 * (offset - shift) ∧
      2 * (offset - shift) ≤ up - down + 1 := by
  obtain ⟨transmit, _, htransmit, -⟩ := ntpTimestamp_systemTimeToNtp h.sent
  obtain ⟨datagram, hanswer, hlength, hmode, hstratum, hreceive, hsend⟩ :=
    h.answer (0x23 :: List.replicate 39 0 ++ transmit)
  obtain ⟨_, receive, hreceived, -, hreceive', hrlow, hrhigh⟩ :=
    ntpTimestamp_systemTimeToNtp h.receive
  obtain ⟨_, send, hsent, -, hsend', hslow, hshigh⟩ := ntpTimestamp_systemTimeToNtp h.send
  obtain rfl := Except.ok.inj (hreceived.symm.trans hreceive)
  obtain rfl := Except.ok.inj (hsent.symm.trans hsend)
  refine ⟨((receive - exchange.sent) + (send - exchange.received)).tdiv 2, ?_, ?_⟩
  · unfold query
    refine Result.bind_eq_ok.mpr ⟨(), h.socket, ?_⟩
    refine Result.bind_eq_ok.mpr ⟨_, unixNanos_eq h.sent.1, ?_⟩
    refine Result.bind_eq_ok.mpr ⟨_, htransmit, ?_⟩
    refine Result.bind_eq_ok.mpr ⟨_, hanswer, ?_⟩
    refine Result.bind_eq_ok.mpr ⟨_, unixNanos_eq h.receivedAfter, ?_⟩
    rw [response_getD hlength (by decide), response_getD hlength (by decide),
      response_take hlength (by decide), response_take hlength (by decide)]
    refine Result.ensure_bind_eq_ok.mpr ⟨beq_iff_eq.mpr hmode, ?_⟩
    refine Result.ensure_bind_eq_ok.mpr ⟨bne_iff_ne.mpr hstratum, ?_⟩
    refine Result.bind_eq_ok.mpr ⟨_, hreceive', ?_⟩
    exact Result.bind_eq_ok.mpr ⟨_, hsend', rfl⟩
  · have hreceived := h.received
    obtain ⟨hlow, hhigh⟩ :=
      two_mul_tdiv ((receive - exchange.sent) + (send - exchange.received))
    omega

theorem queryEach_cases (exchange : SocketAddr → Exchange) (lastError : Option (List String))
    (addresses : List SocketAddr) :
    (∃ address ∈ addresses, ∃ offset, query (exchange address) = .ok offset ∧
        queryEach exchange lastError addresses = some (.ok offset)) ∨
      (∀ address ∈ addresses, ∃ chain, query (exchange address) = .error chain) ∧
        ∀ offset, queryEach exchange lastError addresses ≠ some (.ok offset) := by
  induction addresses generalizing lastError with
  | nil =>
      refine .inr ⟨fun _ h => (by cases h), fun offset h => ?_⟩
      obtain ⟨chain, -, heq⟩ := Option.map_eq_some_iff.mp h
      cases heq
  | cons address rest ih =>
      rw [queryEach]
      cases hquery : query (exchange address) with
      | ok offset => exact .inl ⟨address, List.mem_cons_self, offset, hquery, rfl⟩
      | error chain =>
          obtain ⟨other, hother, offset, hoffset, heach⟩ | ⟨hfail, hnever⟩ := ih (some chain)
          · exact .inl ⟨other, List.mem_cons_of_mem _ hother, offset, hoffset, heach⟩
          · exact .inr ⟨List.forall_mem_cons.mpr ⟨⟨chain, hquery⟩, hfail⟩, hnever⟩

-- If the servers that answer agree on the time, the clock is set by what one of them says, or
-- not at all because none has answered.
theorem synchronize_offset {lookupHost : String → UInt16 → Result (List SocketAddr)}
    {exchange : SocketAddr → Exchange} {config : NtpConfig} {dialer : SystemDialer} {shift : Int}
    (hanswered : ∀ address offset, query (exchange address) = .ok offset →
      ∃ up work down, Answered shift up work down (exchange address)) :
    (∃ address offset up work down, synchronize lookupHost exchange config dialer = .ok offset ∧
      Answered shift up work down (exchange address) ∧
      up - down - 3 ≤ 2 * (offset - shift) ∧ 2 * (offset - shift) ≤ up - down + 1) ∨
    ∃ chain, synchronize lookupHost exchange config dialer = .error chain ∧
      ∀ addresses,
        dialer.resolve lookupHost config.server
            (if config.serverPort = 0 then NTP_PORT else config.serverPort) = .ok addresses →
        config.server ≠ "" →
        ∀ address ∈ addresses, ∃ chain, query (exchange address) = .error chain := by
  cases hresult : synchronize lookupHost exchange config dialer with
  | error chain =>
      refine .inr ⟨chain, rfl, fun addresses hresolve hserver => ?_⟩
      obtain ⟨address, haddress, offset, -, heach⟩ | ⟨hfail, -⟩ :=
        queryEach_cases exchange none addresses
      · have hok : synchronize lookupHost exchange config dialer = .ok offset := by
          unfold synchronize
          refine Result.ensure_bind_eq_ok.mpr ⟨bne_iff_ne.mpr hserver, ?_⟩
          refine Result.bind_eq_ok.mpr ⟨addresses, hresolve, ?_⟩
          rw [heach, Option.getD_some]
        cases hresult.symm.trans hok
      · exact hfail
  | ok offset =>
      unfold synchronize at hresult
      obtain ⟨-, hresult⟩ := Result.ensure_bind_eq_ok.mp hresult
      obtain ⟨addresses, -, hresult⟩ := Result.bind_eq_ok.mp hresult
      obtain ⟨address, -, found, hfound, heach⟩ | ⟨-, hnever⟩ :=
        queryEach_cases exchange none addresses
      · rw [heach, Option.getD_some] at hresult
        obtain rfl := Except.ok.inj hresult
        obtain ⟨up, work, down, h⟩ := hanswered address found hfound
        obtain ⟨other, hother, hlow, hhigh⟩ := query_offset h
        obtain rfl := Except.ok.inj (hother.symm.trans hfound)
        exact .inl ⟨address, other, up, work, down, rfl, h, hlow, hhigh⟩
      · cases heach : queryEach exchange none addresses with
        | none =>
            rw [heach] at hresult
            cases hresult
        | some result =>
            rw [heach, Option.getD_some] at hresult
            exact absurd (heach.trans (congrArg some hresult)) (hnever offset)

-- A server that is five seconds ahead, twenty milliseconds away and ten back.
def sampleDatagram : Bytes :=
  [0x24, 1] ++ List.replicate 30 0 ++
    (toBe 4 3908988805 ++ toBe 4 85899345) ++ (toBe 4 3908988805 ++ toBe 4 90194313)

def sampleExchange : Exchange where
  socket := .ok ()
  sent := 1700000000000000000
  answer _ := .ok sampleDatagram
  received := 1700000000031000000

theorem sample_answered : Answered 5000000000 20000000 1000000 10000000 sampleExchange where
  socket := rfl
  sent := by decide
  received := by decide
  receivedAfter := by decide
  receive := by decide
  send := by decide
  answer _ := ⟨sampleDatagram, rfl, by decide, by decide, by decide, by decide, by decide⟩

theorem synchronize_offset_sample :
    (∃ address offset up work down, synchronize (fun _ _ => .ok []) (fun _ => sampleExchange)
        { enabled := true, server := "192.0.2.1" } {} = .ok offset ∧
      Answered 5000000000 up work down ((fun _ : SocketAddr => sampleExchange) address) ∧
      up - down - 3 ≤ 2 * (offset - 5000000000) ∧ 2 * (offset - 5000000000) ≤ up - down + 1) ∨
    ∃ chain, synchronize (fun _ _ => .ok []) (fun _ => sampleExchange)
        { enabled := true, server := "192.0.2.1" } {} = .error chain ∧
      ∀ addresses,
        SystemDialer.resolve (fun _ _ => .ok []) {} "192.0.2.1" NTP_PORT = .ok addresses →
        "192.0.2.1" ≠ "" →
        ∀ address ∈ addresses, ∃ chain, query ((fun _ : SocketAddr => sampleExchange) address) =
          .error chain :=
  synchronize_offset fun _ _ _ => ⟨_, _, _, sample_answered⟩

end Ntp

end SingBox.Core
