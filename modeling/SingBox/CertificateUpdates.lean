import SingBox.Core.CertificateUpdates

namespace SingBox.AnyTls

open Library SingBox.Core

-- The inbound's one acceptor. `build_server_config` makes its configuration.
def certificateConsumer {κ γ : Type} (buildServerConfig : κ → Option γ) :
    CertificateConsumer κ Unit where
  marks := false
  binds targets := targets == [()]
  mayEnd _ certificate applied := (buildServerConfig certificate).isSome == applied

-- The most recent certificate of those published that a configuration can be built from is the
-- one in force.
def InForce {κ γ : Type} (buildServerConfig : κ → Option γ) (state : CertificateState κ Unit) :
    Prop :=
  state.phase = .waiting → ¬state.channel.Unseen state.receiver → ∀ target ∈ state.targets,
    state.inForce target =
      (state.published.filter fun certificate => (buildServerConfig certificate).isSome).getLast?

-- Zero is no certificate to build from.
def buildNonzero (certificate : Nat) : Option Unit := if certificate = 0 then none else some ()

-- The good certificate 2 is replaced by a bad one before the task comes to read it.
def replaced : List (CertificateAction Nat Unit) :=
  [.publish 1, .subscribe, .start, .bind (some [()]), .publish 2, .publish 0, .wake, .read, .apply false]

theorem not_inForce :
    ¬∀ actions state,
      Run.exec (CertificateState.step (certificateConsumer buildNonzero)) .initial actions = some state →
      InForce buildNonzero state := by
  intro h
  have hforce := h replaced _ rfl rfl (by decide) () (List.mem_singleton_self ())
  exact absurd hforce (by decide)

end SingBox.AnyTls

namespace SingBox.Hysteria2

open Library SingBox.Core

-- The servers that `start` has bound. `update_certificate` replaces the certificate of one of
-- them, or leaves it.
def certificateConsumer {κ σ : Type} : CertificateConsumer κ σ where
  marks := true
  binds _ := true
  mayEnd _ _ _ := true

-- In every run of an inbound the certificate that was published last has been tried once the
-- task waits for the next one, and the last one that could be applied is in force.
theorem certificates_current {κ γ σ : Type} [DecidableEq σ] (buildServerConfig : κ → Option γ) :
    (∀ actions state, Run.exec (CertificateState.step (AnyTls.certificateConsumer buildServerConfig))
        .initial actions = some state →
      state.Current (AnyTls.certificateConsumer buildServerConfig)) ∧
    (∀ actions (state : CertificateState κ σ),
      Run.exec (CertificateState.step certificateConsumer) .initial actions = some state →
      state.Current certificateConsumer) :=
  ⟨fun _ _ => CertificateState.run_current, fun _ _ => CertificateState.run_current⟩

end SingBox.Hysteria2
