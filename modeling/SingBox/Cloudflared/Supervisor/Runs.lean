import SingBox.Cloudflared.Supervisor

namespace SingBox.Cloudflared

open Library

theorem saturatingSucc_toNat (value : UInt8) :
    (saturatingSucc value).toNat = min 255 (value.toNat + 1) := by
  have hlt := value.toNat_lt
  unfold saturatingSucc
  split
  · rename_i h
    subst h
    rfl
  · rename_i h
    have hne : value.toNat ≠ 255 := fun he => h (UInt8.toNat_inj.mp he)
    rw [UInt8.toNat_add]
    simp only [UInt8.reduceToNat]
    omega

-- What the checks of `start` let through.
theorem start_ok {env : Startup} {options : CloudflaredInboundOptions}
    {connections : List Connection} (h : options.start env = .ok connections) :
    options.protocol ∈ ["http2", "h2", "auto", "quic"] ∧
      (options.postQuantum = true → options.protocol ∉ ["http2", "h2"]) ∧
      ∀ connection ∈ connections, connection.configuredProtocol = options.protocol ∧
        connection.postQuantum = options.postQuantum := by
  unfold CloudflaredInboundOptions.start at h
  obtain ⟨_, hprotocol, h⟩ := Result.bind_eq_ok.mp h
  obtain ⟨_, _, h⟩ := Result.bind_eq_ok.mp h
  obtain ⟨_, hquantum, h⟩ := Result.bind_eq_ok.mp h
  obtain ⟨_, _, h⟩ := Result.bind_eq_ok.mp h
  obtain ⟨_, _, h⟩ := Result.bind_eq_ok.mp h
  obtain ⟨_, _, h⟩ := Result.bind_eq_ok.mp h
  obtain ⟨_, _, h⟩ := Result.bind_eq_ok.mp h
  have hprotocol := Result.ensure_eq_ok.mp hprotocol
  have hquantum := Result.ensure_eq_ok.mp hquantum
  refine ⟨by simpa using hprotocol, fun hset => ?_, ?_⟩
  · simpa [hset] using hquantum
  · obtain rfl := Except.ok.inj h
    intro connection hmem
    obtain ⟨index, _, rfl⟩ := List.mem_map.mp hmem
    exact ⟨rfl, rfl⟩

namespace Supervisor

-- Whether the attempts go over to HTTP/2 when QUIC does not work.
def FallsBack (connection : Connection) : Prop :=
  connection.configuredProtocol = "auto" ∧ connection.postQuantum = false

instance (connection : Connection) : Decidable (FallsBack connection) :=
  inferInstanceAs (Decidable (_ ∧ _))

-- The attempt of the `n`-th pass lasted less than 30 s.
def short (rounds : Nat → Option Round) (n : Nat) : Bool :=
  (rounds n).any fun round => round.elapsed < ofSeconds 30

-- Three attempts in a row have ended of which the second and the third were short.
def GivenUp (rounds : Nat → Option Round) (n : Nat) : Prop :=
  ∃ first < n, first + 3 ≤ n ∧ short rounds (first + 1) = true ∧ short rounds (first + 2) = true

instance (rounds : Nat → Option Round) (n : Nat) : Decidable (GivenUp rounds n) :=
  inferInstanceAs (Decidable (∃ first < n, _))

-- The attempts since the last long one, which is counted, or since the fallback.
def inRow (connection : Connection) (rounds : Nat → Option Round) : Nat → Nat
  | 0 => 0
  | n + 1 =>
      if FallsBack connection ∧ GivenUp rounds (n + 1) ∧ ¬GivenUp rounds n then 0
      else (if short rounds n then inRow connection rounds n else 0) + 1

-- The supervisor before its `n`-th attempt.
def before (connection : Connection) (rounds : Nat → Option Round) : Nat → Option Supervisor :=
  Run.reached (step connection) (new connection) rounds

theorem givenUp_succ {rounds : Nat → Option Round} {n : Nat} :
    GivenUp rounds (n + 1) ↔ GivenUp rounds n ∨
      2 ≤ n ∧ short rounds (n - 1) = true ∧ short rounds n = true := by
  constructor
  · rintro ⟨first, _, hfirst, hsecond, hthird⟩
    by_cases hlast : first + 3 = n + 1
    · obtain rfl : n = first + 2 := by omega
      exact .inr ⟨by omega, hsecond, hthird⟩
    · exact .inl ⟨first, by omega, by omega, hsecond, hthird⟩
  · rintro (⟨first, hlt, hfirst, hsecond, hthird⟩ | ⟨hle, hsecond, hthird⟩)
    · exact ⟨first, by omega, by omega, hsecond, hthird⟩
    · obtain ⟨first, rfl⟩ : ∃ first, n = first + 2 := ⟨n - 2, by omega⟩
      exact ⟨first, by omega, by omega, hsecond, hthird⟩

-- What holds before the `n`-th attempt. While the attempts run over QUIC the counter
-- tells the short ones among the last two.
structure Sound (connection : Connection) (rounds : Nat → Option Round) (n : Nat)
    (this : Supervisor) : Prop where
  edge : this.edgeIndex < connection.edges.length
  fixed : ¬FallsBack connection → this.protocol = (new connection).protocol
  switched : FallsBack connection → (this.protocol = .http2 ↔ GivenUp rounds n)
  row : FallsBack connection → this.protocol = .quic → this.retries.toNat =
    if n = 0 then 0 else if n = 1 ∨ short rounds (n - 1) = false then 1 else 2
  count : this.retries.toNat = min 255 (inRow connection rounds n)

theorem sound_new {connection : Connection} {rounds : Nat → Option Round}
    (hedges : connection.edges ≠ []) : Sound connection rounds 0 (new connection) where
  edge := Nat.mod_lt _ (List.length_pos_iff.mpr hedges)
  fixed _ := rfl
  switched hfalls := by
    have hprotocol : (new connection).protocol = .quic := by simp [new, hfalls.1]
    refine iff_of_false (by simp [hprotocol]) ?_
    rintro ⟨first, hlt, _⟩
    omega
  row _ _ := rfl
  count := rfl

theorem advance_retries (this : Supervisor) (elapsed : Nat) :
    (saturatingSucc (if ofSeconds 30 ≤ elapsed then 0 else this.retries)).toNat =
      min 255 ((if elapsed < ofSeconds 30 then this.retries.toNat else 0) + 1) := by
  rw [saturatingSucc_toNat]
  split <;> split <;> first | omega | rfl

-- The fallback, or one more attempt over the same transport.
theorem advance_cases (connection : Connection) (this : Supervisor) (elapsed : Nat) :
    let retries := min 255 ((if elapsed < ofSeconds 30 then this.retries.toNat else 0) + 1)
    let next := this.advance connection elapsed
    next.edgeIndex = (this.edgeIndex + 1) % connection.edges.length ∧
      (FallsBack connection ∧ this.protocol = .quic ∧ 3 ≤ retries ∧
          next.protocol = .http2 ∧ next.retries = 0 ∨
        ¬(FallsBack connection ∧ this.protocol = .quic ∧ 3 ≤ retries) ∧
          next.protocol = this.protocol ∧ next.retries.toNat = retries) := by
  intro retries next
  have hretries := advance_retries this elapsed
  have hthree : 3 ≤ saturatingSucc (if ofSeconds 30 ≤ elapsed then 0 else this.retries) ↔
      3 ≤ retries := by
    rw [UInt8.le_iff_toNat_le, hretries]
    rfl
  have hand : (connection.configuredProtocol = "auto" ∧ connection.postQuantum = false ∧
      this.protocol = .quic ∧
        3 ≤ saturatingSucc (if ofSeconds 30 ≤ elapsed then 0 else this.retries)) ↔
      (FallsBack connection ∧ this.protocol = .quic ∧ 3 ≤ retries) := by
    rw [hthree, FallsBack, and_assoc]
  by_cases h : FallsBack connection ∧ this.protocol = .quic ∧ 3 ≤ retries
  · rw [show next = _ from if_pos (hand.mpr h)]
    exact ⟨rfl, .inl ⟨h.1, h.2.1, h.2.2, rfl, rfl⟩⟩
  · rw [show next = _ from if_neg (mt hand.mp h)]
    exact ⟨rfl, .inr ⟨h, rfl, hretries⟩⟩

-- Over QUIC the counter reaches three with the attempt that ends such a row of three.
theorem Sound.reaches_three {connection : Connection} {rounds : Nat → Option Round} {n : Nat}
    {this : Supervisor} (h : Sound connection rounds n this) (hfalls : FallsBack connection)
    (hquic : this.protocol = .quic) :
    3 ≤ min 255 ((if short rounds n then this.retries.toNat else 0) + 1) ↔
      GivenUp rounds (n + 1) := by
  have hnot : ¬GivenUp rounds n := by
    rw [← h.switched hfalls, hquic]
    decide
  have hrow := h.row hfalls hquic
  rw [givenUp_succ]
  simp only [hnot, false_or]
  cases hshort : short rounds n with
  | false => simp
  | true =>
      simp only [if_true, and_true]
      by_cases hn : n < 2
      · have : this.retries.toNat ≤ 1 := by
          rw [hrow]
          split
          · omega
          · rw [if_pos (.inl (by omega))]
        omega
      · rw [hrow, if_neg (by omega)]
        cases hprevious : short rounds (n - 1) with
        | false => simp
        | true =>
            have hone : n ≠ 1 := by omega
            simp [hone]
            omega

theorem Sound.advance {connection : Connection} {rounds : Nat → Option Round} {n : Nat}
    {this : Supervisor} {round : Round} (h : Sound connection rounds n this)
    (hround : rounds n = some round) :
    Sound connection rounds (n + 1) (this.advance connection round.elapsed) := by
  have hshort : short rounds n = true ↔ round.elapsed < ofSeconds 30 := by simp [short, hround]
  obtain ⟨hedge, hcases⟩ := advance_cases connection this round.elapsed
  have hlt : (this.advance connection round.elapsed).edgeIndex < connection.edges.length := by
    rw [hedge]
    exact Nat.mod_lt _ (Nat.zero_lt_of_lt h.edge)
  have hcount : (if round.elapsed < ofSeconds 30 then this.retries.toNat else 0) =
      if short rounds n then this.retries.toNat else 0 := by simp only [hshort]
  rw [hcount] at hcases
  obtain ⟨hfalls, hquic, hthree, hprotocol, hretries⟩ | ⟨hstays, hprotocol, hretries⟩ := hcases
  · have hgiven := (h.reaches_three hfalls hquic).mp hthree
    have hnot : ¬GivenUp rounds n := by
      rw [← h.switched hfalls, hquic]
      decide
    exact
      { edge := hlt
        fixed := fun hother => absurd hfalls hother
        switched := fun _ => iff_of_true hprotocol hgiven
        row := fun _ hquic => by rw [hprotocol] at hquic; cases hquic
        count := by
          rw [hretries, inRow, if_pos ⟨hfalls, hgiven, hnot⟩]
          rfl }
  · have hsame : FallsBack connection → (GivenUp rounds (n + 1) ↔ GivenUp rounds n) := by
      intro hfalls
      cases hthis : this.protocol with
      | quic =>
          have hnot : ¬GivenUp rounds n := by
            rw [← h.switched hfalls, hthis]
            decide
          refine iff_of_false (fun hgiven => hstays ⟨hfalls, hthis, ?_⟩) hnot
          exact (h.reaches_three hfalls hthis).mpr hgiven
      | http2 =>
          have hgiven := (h.switched hfalls).mp hthis
          exact iff_of_true (givenUp_succ.mpr (.inl hgiven)) hgiven
    exact
      { edge := hlt
        fixed := fun hother => hprotocol.trans (h.fixed hother)
        switched := fun hfalls => by rw [hprotocol, hsame hfalls, h.switched hfalls]
        row := fun hfalls hquic => by
          rw [hprotocol] at hquic
          have hrow := h.row hfalls hquic
          have hlow : ¬3 ≤ min 255 ((if short rounds n then this.retries.toNat else 0) + 1) :=
            fun hthree => hstays ⟨hfalls, hquic, hthree⟩
          rw [hretries]
          simp only [Nat.add_sub_cancel, if_neg (Nat.succ_ne_zero n)]
          cases hs : short rounds n with
          | false => simp
          | true =>
              rw [hs] at hlow
              simp only [if_true] at hlow ⊢
              by_cases hzero : n = 0
              · simp [hrow, hzero]
              · rw [if_neg hzero] at hrow
                have hnone : ¬(n + 1 = 1 ∨ true = false) := by simp [hzero]
                rw [if_neg hnone]
                split at hrow <;> omega
        count := by
          have hkeep : ¬(FallsBack connection ∧ GivenUp rounds (n + 1) ∧ ¬GivenUp rounds n) := by
            rintro ⟨hfalls, hgiven, hnot⟩
            exact hnot ((hsame hfalls).mp hgiven)
          rw [hretries, inRow, if_neg hkeep, h.count]
          cases short rounds n with
          | false => rfl
          | true =>
              simp only [if_true]
              omega }

theorem sound_before {connection : Connection} {rounds : Nat → Option Round} {n : Nat}
    {this : Supervisor} (hedges : connection.edges ≠ [])
    (h : before connection rounds n = some this) : Sound connection rounds n this := by
  refine Run.reached_rule (Sound connection rounds) ?_ (sound_new hedges) n this h
  intro n this round next hsound hround hs
  obtain rfl := step_eq_some hs
  exact hsound.advance hround

theorem backoff_eq (this : Supervisor) :
    this.backoff = ofSeconds (2 ^ min this.retries.toNat 7) ∧ this.backoff ≤ ofSeconds 128 := by
  have hmin : (min this.retries 7).toNat = min this.retries.toNat 7 := by
    rw [show min this.retries 7 = if this.retries ≤ 7 then this.retries else 7 from rfl]
    split
    · rename_i hle
      exact (Nat.min_eq_left (UInt8.le_iff_toNat_le.mp hle)).symm
    · rename_i hgt
      have hlt : (7 : UInt8).toNat < this.retries.toNat := by
        rw [UInt8.le_iff_toNat_le] at hgt
        omega
      exact (Nat.min_eq_right (Nat.le_of_lt hlt)).symm
  have hle : 2 ^ min this.retries.toNat 7 ≤ 2 ^ 7 :=
    Nat.pow_le_pow_right (by decide) (Nat.min_le_right _ _)
  rw [backoff, hmin, Nat.one_shiftLeft]
  exact ⟨rfl, Nat.mul_le_mul_right _ hle⟩

-- A wait is the delay the edge has asked for, or twice as long for each attempt in a row.
theorem wait_cases {connection : Connection} {this next : Supervisor} {round : Round} {wait : Nat}
    (h : this.decide connection round = .wait wait next) :
    (∃ error rejection, round.result = .error error ∧
        error.downcastRetryable = some rejection ∧ rejection.delay ≠ 0 ∧ wait = rejection.delay) ∨
      wait = ofSeconds (2 ^ min next.retries.toNat 7) ∧ wait ≤ ofSeconds 128 := by
  obtain ⟨_, hwait⟩ := decide_eq_wait h
  cases hdelay : serverDelay (errorOf round.result) with
  | none =>
      obtain ⟨heq, hle⟩ := backoff_eq next
      rw [hdelay, Option.getD_none] at hwait
      exact .inr ⟨hwait.trans heq, hwait ▸ hle⟩
  | some delay =>
      rw [hdelay, Option.getD_some] at hwait
      obtain ⟨hmap, hne⟩ := Option.filter_eq_some_iff.mp hdelay
      obtain ⟨rejection, hrejection, rfl⟩ := Option.map_eq_some_iff.mp hmap
      cases hresult : round.result with
      | ok result => simp [hresult, errorOf, Error.msg, Error.downcastRetryable] at hrejection
      | error error =>
          rw [hresult] at hrejection
          exact .inl ⟨error, rejection, rfl, hrejection, by simpa using hne, hwait⟩

-- The supervisor over whole runs, of any configuration that is accepted, with any edges and
-- as any of the connections.
theorem supervise_keeps {env : Startup} {options : CloudflaredInboundOptions}
    {connections : List Connection} (hstart : options.start env = .ok connections)
    {accepted : Connection} (hmem : accepted ∈ connections) {edges : List EdgeAddr}
    (hedges : edges ≠ []) (connectionIndex : UInt8) (rounds : Nat → Option Round) (n : Nat)
    {this : Supervisor}
    (hbefore : before { accepted with edges, connectionIndex } rounds n = some this) :
    let connection := { accepted with edges, connectionIndex }
    let attempt := this.attempt connection
    this.edgeIndex < edges.length ∧ attempt.edge.isSome ∧
      (options.postQuantum = true ∨ options.protocol = "quic" → attempt.transport = .quic) ∧
      (options.protocol = "http2" ∨ options.protocol = "h2" → attempt.transport = .http2) ∧
      (options.protocol = "auto" → options.postQuantum = false →
        (attempt.transport = .http2 ↔ GivenUp rounds n)) ∧
      attempt.registration.numPreviousAttempts.toNat = min 255 (inRow connection rounds n) ∧
      ∀ round wait next, rounds n = some round → this.decide connection round = .wait wait next →
        (∃ error rejection, round.result = .error error ∧
            error.downcastRetryable = some rejection ∧ rejection.delay ≠ 0 ∧
            wait = rejection.delay) ∨
          wait = ofSeconds (2 ^ min next.retries.toNat 7) ∧ wait ≤ ofSeconds 128 := by
  intro connection attempt
  obtain ⟨hprotocol, hquantum, hall⟩ := start_ok hstart
  obtain ⟨hconfigured, hpost⟩ := hall accepted hmem
  have hsound : Sound connection rounds n this := sound_before hedges hbefore
  have hfalls : FallsBack connection ↔ options.protocol = "auto" ∧ options.postQuantum = false := by
    rw [← hconfigured, ← hpost]
    rfl
  have hnew : (new connection).protocol =
      if ["http2", "h2"].contains options.protocol then .http2 else .quic := by
    rw [← hconfigured]
    rfl
  refine ⟨hsound.edge, ?_, ?_, ?_, ?_, hsound.count, fun _ _ _ _ => wait_cases⟩
  · simpa [attempt, Supervisor.attempt] using hsound.edge
  · intro hquic
    have hnot : ¬FallsBack connection := by
      rw [hfalls]
      rintro ⟨hauto, hoff⟩
      obtain hon | hname := hquic
      · rw [hoff] at hon
        cases hon
      · rw [hauto] at hname
        revert hname
        decide
    have hother : options.protocol ∉ ["http2", "h2"] := by
      obtain hon | hname := hquic
      · exact hquantum hon
      · rw [hname]
        decide
    exact (hsound.fixed hnot).trans (hnew.trans (if_neg (by simpa using hother)))
  · intro hhttp2
    have hin : ["http2", "h2"].contains options.protocol = true := by
      obtain hname | hname := hhttp2 <;> rw [hname] <;> decide
    have hnot : ¬FallsBack connection := by
      rw [hfalls]
      rintro ⟨hauto, _⟩
      rw [hauto] at hin
      revert hin
      decide
    exact (hsound.fixed hnot).trans (hnew.trans (if_pos hin))
  · intro hauto hoff
    exact hsound.switched (hfalls.mpr ⟨hauto, hoff⟩)

-- Three refused attempts in a row take a connection with the protocol `auto` to HTTP/2.
theorem supervise_keeps_fallback :
    let accepted : Connection :=
      { configuredProtocol := "auto", datagramVersion := "v2", postQuantum := false,
        gracePeriod := ofSeconds 30, credentials := ⟨"account", [1], [2], ""⟩,
        baseRegistration := {}, edges := [⟨⟨.v4 1, 7844⟩, 4⟩, ⟨⟨.v4 2, 7844⟩, 4⟩],
        connectionIndex := 3 }
    let rounds : Nat → Option Round := fun _ => some { result := .error (.msg "refused"), elapsed := 1 }
    ∃ this, before accepted rounds 3 = some this ∧ (this.attempt accepted).transport = .http2 := by
  intro accepted rounds
  have hbefore : before accepted rounds 3 = some { edgeIndex := 0, protocol := .http2, retries := 0 } := by
    decide
  have hedges : accepted.edges ≠ [] := by decide
  let env : Startup :=
    { parseToken := fun _ => .ok accepted.credentials, discoverEdges := fun _ _ _ => .ok accepted.edges }
  have hstart : CloudflaredInboundOptions.start env { token := "", protocol := "auto" } =
      .ok ((List.range 4).map fun index => { accepted with connectionIndex := UInt8.ofNat index }) := by
    decide
  have haccepted : accepted ∈ (List.range 4).map fun index =>
      { accepted with connectionIndex := UInt8.ofNat index } := by decide
  have hkeeps := supervise_keeps hstart haccepted hedges 3 rounds 3 hbefore
  refine ⟨_, hbefore, (hkeeps.2.2.2.2.1 rfl rfl).mpr ?_⟩
  decide

end Supervisor

end SingBox.Cloudflared
