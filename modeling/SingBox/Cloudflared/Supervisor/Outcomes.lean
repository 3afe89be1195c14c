import SingBox.Cloudflared.Supervisor

namespace SingBox.Cloudflared.Supervisor

open Library

-- What the edge asks of the supervisor with its answer to a registration.
def Honours (response : ConnectionResponse) (decision : Decision) : Prop :=
  match response with
  | .error _ false _ => decision = .stop
  | .error _ true retryAfter =>
      0 < retryAfter → ∃ next, decision = .wait retryAfter.toNat next
  | .connectionDetails _ _ _ => True

-- The supervisor behind an attempt during which the inbound is not closed.
def decideAfter (connection : Connection) (this : Supervisor) (attempt : Attempt)
    (elapsed : Nat) : Decision :=
  this.decide connection { result := attempt.runWithShutdown, elapsed }

-- The answer comes over QUIC, or it asks for nothing the supervisor would not do without it.
def Reaches (connection : Connection) (this : Supervisor) (attempt : Attempt) (elapsed : Nat)
    (response : ConnectionResponse) : Prop :=
  match attempt, response with
  | .quic _, _ => True
  | .http2 _, .error _ false _ => False
  | .http2 _, .error _ true retryAfter =>
      0 < retryAfter → retryAfter.toNat = (this.advance connection elapsed).backoff
  | .http2 _, .connectionDetails _ _ _ => True

-- An edge that rejects the tunnel for good, over HTTP/2, before it closes the connection.
theorem not_honours : ¬∀ connection this attempt elapsed response, response ∈ attempt.responses →
    Honours response (decideAfter connection this attempt elapsed) := by
  intro h
  let connection : Connection :=
    { configuredProtocol := "http2", datagramVersion := "v2", postQuantum := false,
      gracePeriod := ofSeconds 30, credentials := ⟨"account", [1], [2], ""⟩,
      baseRegistration := {}, edges := [⟨⟨.v4 1, 7844⟩, 4⟩], connectionIndex := 0 }
  let rejection : ConnectionResponse := .error "Unauthorized" false 0
  have hstop := h connection (new connection)
    (.http2 (.served [.controlStream (.ok rejection)] .closed)) 1 rejection (by decide)
  revert hstop
  unfold Honours
  decide

theorem finish_untyped {shared : Option RegistrationResult} {ending : Http2Ending} {error : Error}
    (h : Http2Attempt.finish shared ending = .error error) :
    error.downcastPermanent = none ∧ error.downcastRetryable = none := by
  cases ending with
  | acceptFailed text =>
      obtain rfl := Except.error.inj h
      exact ⟨rfl, rfl⟩
  | closed | shutdown =>
      cases shared with
      | some result => cases h
      | none =>
          obtain rfl := Except.error.inj h
          exact ⟨rfl, rfl⟩

-- What an HTTP/2 connection comes to says nothing of what its control streams met.
theorem http2_untyped {attempt : Http2Attempt} {error : Error}
    (h : attempt.runWithShutdown = .error error) :
    error.downcastPermanent = none ∧ error.downcastRetryable = none := by
  unfold Http2Attempt.runWithShutdown at h
  cases hlocal : attempt.runLocal with
  | ok result =>
      rw [hlocal] at h
      cases h
  | error inner =>
      rw [hlocal] at h
      obtain rfl := Except.error.inj h
      rw [Error.downcastPermanent_context, Error.downcastRetryable_context]
      cases attempt with
      | unconnected text =>
          obtain rfl := Except.error.inj hlocal
          exact ⟨rfl, rfl⟩
      | served events ending => exact finish_untyped hlocal

theorem decide_http2 (connection : Connection) (this : Supervisor) (attempt : Http2Attempt)
    (elapsed : Nat) :
    decideAfter connection this (.http2 attempt) elapsed =
      .wait (this.advance connection elapsed).backoff (this.advance connection elapsed) := by
  have huntyped : (errorOf attempt.runWithShutdown).downcastPermanent = none ∧
      (errorOf attempt.runWithShutdown).downcastRetryable = none := by
    cases hrun : attempt.runWithShutdown with
    | ok result => exact ⟨rfl, rfl⟩
    | error error => exact http2_untyped hrun
  simp [decideAfter, decide, Attempt.runWithShutdown, serverDelay, huntyped.1, huntyped.2]

theorem honours_quic {connection : Connection} {this : Supervisor} {attempt : QuicAttempt}
    {elapsed : Nat} {response : ConnectionResponse}
    (hmem : response ∈ (Attempt.quic attempt).responses) :
    Honours response (decideAfter connection this (.quic attempt) elapsed) := by
  obtain ⟨ending, rfl⟩ : ∃ ending, attempt = .answered (.ok response) ending := by
    cases attempt with
    | unconnected text => simp [Attempt.responses] at hmem
    | answered answer ending =>
        cases answer with
        | error text => simp [Attempt.responses] at hmem
        | ok answer =>
            obtain rfl : response = answer := by simpa [Attempt.responses] using hmem
            exact ⟨ending, rfl⟩
  cases response with
  | connectionDetails uuid locationName managed => trivial
  | error cause shouldRetry retryAfter =>
      have hrun : (Attempt.quic (.answered (.ok (.error cause shouldRetry retryAfter)) ending)
          ).runWithShutdown = .error (Error.context "run Cloudflare QUIC connection"
            { cause := if shouldRetry then
                .retryable { cause, delay := (max retryAfter 0).toNat }
              else .permanent { cause } }) := by
        cases shouldRetry <;> rfl
      cases shouldRetry with
      | false =>
          change decideAfter _ _ _ _ = .stop
          rw [decideAfter, hrun]
          rfl
      | true =>
          intro hpos
          have hmax : (max retryAfter 0).toNat = retryAfter.toNat := by omega
          have hne : retryAfter.toNat ≠ 0 := by omega
          refine ⟨this.advance connection elapsed, ?_⟩
          rw [decideAfter, hrun]
          simp [decide, errorOf, Error.context, Error.downcastPermanent, Error.downcastRetryable,
            serverDelay, hmax, Option.filter, hne]

-- A registration's answer decides over QUIC, and over HTTP/2 only where it asks for nothing
-- of its own.
theorem honours_iff_reaches (connection : Connection) (this : Supervisor) (attempt : Attempt)
    (elapsed : Nat) (response : ConnectionResponse) (hmem : response ∈ attempt.responses) :
    Honours response (decideAfter connection this attempt elapsed) ↔
      Reaches connection this attempt elapsed response := by
  cases attempt with
  | quic attempt => exact iff_of_true (honours_quic hmem) trivial
  | http2 attempt =>
      rw [decide_http2]
      cases response with
      | connectionDetails uuid locationName managed => exact .rfl
      | error cause shouldRetry retryAfter =>
          cases shouldRetry with
          | false => exact iff_of_false nofun id
          | true =>
              refine imp_congr_right fun _ => ⟨?_, fun heq => ?_⟩
              · rintro ⟨next, hwait⟩
                exact (Decision.wait.inj hwait).1.symm
              · exact ⟨_, by rw [heq]⟩

-- A rejection for a minute, over QUIC.
theorem honours_iff_reaches_quic :
    let connection : Connection :=
      { configuredProtocol := "quic", datagramVersion := "v3", postQuantum := true,
        gracePeriod := ofSeconds 30, credentials := ⟨"account", [1], [2], ""⟩,
        baseRegistration := {}, edges := [⟨⟨.v4 1, 7844⟩, 4⟩], connectionIndex := 0 }
    let response : ConnectionResponse := .error "busy" true 60000000000
    Honours response
      (decideAfter connection (new connection) (.quic (.answered (.ok response) (.ok ()))) 1) := by
  intro connection response
  exact (honours_iff_reaches connection (new connection) _ 1 response (by decide)).mpr trivial

end SingBox.Cloudflared.Supervisor
