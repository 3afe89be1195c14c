import SingBox.Cli.Acme.Issues

namespace SingBox.Cli

open Library

section

variable (crates : Crates) (outside : Outside) (options : AcmeOptions)

theorem startIssuing_error {calls later : History} {chain : List String}
    (h : (issueCertificate crates outside options).run calls = (.error chain, later)) :
    (startIssuing crates outside options).run calls = (.error chain, later) := Steps.bind_error h

theorem startIssuing_ok {calls later : History} {issued : ManagedCertificate Certificate}
    (h : (issueCertificate crates outside options).run calls = (.ok issued, later)) :
    ∃ delay clock, (startIssuing crates outside options).run calls =
      (.ok delay, later ++ [.publish issued.material] ++ [.clock clock]) := by
  rw [startIssuing, Steps.bind_ok h]
  exact ⟨_, _, rfl⟩

theorem renew_error {calls later : History} {chain : List String} {delay : Nat}
    (h : (issueCertificate crates outside options).run (calls ++ [.sleep delay]) = (.error chain, later)) :
    (renew crates outside options delay).run calls = (.ok RENEW_RETRY, later) := by
  have hsleep : (call (fun _ => .sleep delay) fun _ => .ok ()).run calls =
      (.ok (), calls ++ [.sleep delay]) := rfl
  rw [renew, Steps.bind_ok hsleep, Steps.bind_ok (Steps.attempt_run h)]
  rfl

theorem renew_ok {calls later : History} {issued : ManagedCertificate Certificate} {delay : Nat}
    (h : (issueCertificate crates outside options).run (calls ++ [.sleep delay]) = (.ok issued, later)) :
    ∃ next clock, (renew crates outside options delay).run calls =
      (.ok next, later ++ [.clock clock] ++ [.publish issued.material]) := by
  have hsleep : (call (fun _ => .sleep delay) fun _ => .ok ()).run calls =
      (.ok (), calls ++ [.sleep delay]) := rfl
  rw [renew, Steps.bind_ok hsleep, Steps.bind_ok (Steps.attempt_run h)]
  exact ⟨_, _, rfl⟩

-- What the calls of a function add when it fails, and when it does not.
def KeepsBacked {α : Type} (run : Steps History α) : Prop :=
  ∀ calls, Publishes crates options.domain calls →
    Publishes crates options.domain (run.run calls).2 ∧
    ∀ chain, (run.run calls).1 = .error chain → published (run.run calls).2 = published calls

theorem startIssuing_keeps : KeepsBacked crates options (startIssuing crates outside options) := by
  intro calls h
  obtain ⟨more, hcalls, hquiet, hstored⟩ :=
    (issueCertificate_issues crates outside options calls).quiet
  cases hissue : (issueCertificate crates outside options).run calls with
  | mk result later =>
  rw [hissue] at hcalls hstored
  have hlater : later = calls ++ more := hcalls
  cases result with
  | error chain =>
      rw [startIssuing_error crates outside options hissue, hlater]
      refine ⟨h.quiet hquiet, fun _ _ => ?_⟩
      rw [published_append, hquiet, List.append_nil]
  | ok issued =>
      obtain ⟨delay, clock, hstart⟩ := startIssuing_ok crates outside options hissue
      rw [hstart, hlater]
      refine ⟨((h.quiet hquiet).publish ?_).quiet rfl, fun chain hchain => by cases hchain⟩
      exact ((hstored issued rfl).mono fun call hmem => List.mem_append_right calls hmem).backed

theorem startIssuing_after {calls : History} (more : History)
    (h : Publishes crates options.domain calls) (hmore : published more = []) :
    Publishes crates options.domain ((startIssuing crates outside options).run (calls ++ more)).2 ∧
      ∀ chain, ((startIssuing crates outside options).run (calls ++ more)).1 = .error chain →
        published ((startIssuing crates outside options).run (calls ++ more)).2 = published calls := by
  obtain ⟨hpublishes, hfails⟩ := startIssuing_keeps crates outside options _ (h.quiet hmore)
  refine ⟨hpublishes, fun chain hchain => ?_⟩
  rw [hfails chain hchain, published_append, hmore, List.append_nil]

theorem renew_keeps (delay : Nat) : KeepsBacked crates options (renew crates outside options delay) := by
  intro calls h
  obtain ⟨more, hcalls, hquiet, hstored⟩ :=
    (issueCertificate_issues crates outside options (calls ++ [.sleep delay])).quiet
  have hsleep : Publishes crates options.domain (calls ++ [.sleep delay]) := h.quiet rfl
  cases hissue : (issueCertificate crates outside options).run (calls ++ [.sleep delay]) with
  | mk result later =>
  rw [hissue] at hcalls hstored
  have hlater : later = calls ++ [.sleep delay] ++ more := hcalls
  cases result with
  | error chain =>
      rw [renew_error crates outside options hissue, hlater]
      exact ⟨hsleep.quiet hquiet, fun _ hchain => by cases hchain⟩
  | ok issued =>
      obtain ⟨next, clock, hrenew⟩ := renew_ok crates outside options hissue
      rw [hrenew, hlater]
      refine ⟨Publishes.publish ((hsleep.quiet hquiet).quiet rfl) ?_, fun chain hchain => by cases hchain⟩
      exact ((hstored issued rfl).mono fun call hmem =>
        List.mem_append_left _ (List.mem_append_right _ hmem)).backed

-- The one call there is reads the file, and a certificate comes from what it has returned.
theorem loadCachedCertificate_run (calls : History) :
    ∃ result, (loadCachedCertificate crates outside options).run calls =
        (result, calls ++ [.readCached (outside.readCached calls)]) ∧
      ∀ certificate, result = .ok (some certificate) → ∃ content cached,
        outside.readCached calls = .ok (some content) ∧ crates.fromSlice content = .ok cached ∧
        parseManagedCertificate crates cached options.domain = .ok certificate := by
  have hread : (call .readCached outside.readCached).run calls =
      (outside.readCached calls, calls ++ [.readCached (outside.readCached calls)]) := rfl
  rw [loadCachedCertificate]
  cases hanswer : outside.readCached calls with
  | error chain =>
      rw [hanswer] at hread
      exact ⟨_, Steps.bind_error hread, fun certificate h => by cases h⟩
  | ok found =>
      rw [hanswer] at hread
      rw [Steps.bind_ok hread]
      cases found with
      | none => exact ⟨_, rfl, fun certificate h => by cases h⟩
      | some content =>
          show ∃ result, (Steps.ofResult _ >>= _ : Steps History _).run _ = _ ∧ _
          cases hcached : Result.withContext s!"decode cached certificate {options.certificatePath}"
              (crates.fromSlice content) with
          | error chain =>
              exact ⟨_, Steps.bind_error rfl, fun certificate h => by cases h⟩
          | ok cached =>
              rw [Steps.bind_ok (show (Steps.ofResult (.ok cached) : Steps History _).run _ = _ from rfl)]
              have hdecoded := Result.withContext_eq_ok.mp hcached
              cases hparse : parseManagedCertificate crates cached options.domain with
              | error chain => exact ⟨_, rfl, fun certificate h => by cases h⟩
              | ok certificate =>
                  refine ⟨.ok (some certificate), rfl, fun other h => ?_⟩
                  cases h
                  exact ⟨content, cached, rfl, hdecoded, hparse⟩

-- A cached certificate that is published has just been loaded.
theorem initialDelay_after {calls more : History} {cached : Option (ManagedCertificate Certificate)}
    (h : Publishes crates options.domain calls) (hmore : published more = [])
    (hcached : ∀ certificate, cached = some certificate → ∃ earlier content found,
      calls ++ more = earlier ++ [.readCached (.ok (some content))] ∧
      crates.fromSlice content = .ok found ∧
      parseManagedCertificate crates found options.domain = .ok certificate) :
    Publishes crates options.domain ((initialDelay crates outside options cached).run (calls ++ more)).2 ∧
      ∀ chain, ((initialDelay crates outside options cached).run (calls ++ more)).1 = .error chain →
        published ((initialDelay crates outside options cached).run (calls ++ more)).2 =
          published calls := by
  cases cached with
  | none => exact startIssuing_after crates outside options more h hmore
  | some certificate =>
      have hnow : (now outside).run (calls ++ more) =
          (.ok (outside.clock (calls ++ more)), calls ++ more ++ [.clock (outside.clock (calls ++ more))]) :=
        rfl
      rw [initialDelay, Steps.bind_ok hnow]
      split
      case isTrue hclock =>
        obtain ⟨earlier, content, found, hread, hdecode, hparse⟩ := hcached certificate rfl
        have hloaded : Loaded crates options.domain
            (calls ++ more ++ [.clock (outside.clock (calls ++ more))]) certificate := by
          refine ⟨earlier, content, found, _, ?_, hdecode, hparse, hclock⟩
          rw [hread, List.append_assoc]
          rfl
        exact ⟨(((h.quiet hmore).quiet rfl).publish hloaded.backed).quiet rfl,
          fun chain hchain => by cases hchain⟩
      case isFalse =>
        rw [List.append_assoc]
        refine startIssuing_after crates outside options _ h ?_
        rw [published_append, hmore]
        rfl

theorem start_keeps : KeepsBacked crates options (start crates outside options) := by
  intro calls h
  have hcreate : (call (fun _ => .createDirectory) outside.createDirectory).run calls =
      (outside.createDirectory calls, calls ++ [.createDirectory]) := rfl
  rw [start]
  cases hanswer : outside.createDirectory calls with
  | error chain =>
      rw [hanswer] at hcreate
      rw [Steps.bind_error hcreate]
      refine ⟨h.quiet rfl, fun _ _ => ?_⟩
      rw [published_append]
      exact List.append_nil _
  | ok =>
      rw [hanswer] at hcreate
      rw [Steps.bind_ok hcreate]
      obtain ⟨result, hload, hcached⟩ :=
        loadCachedCertificate_run crates outside options (calls ++ [.createDirectory])
      rw [Steps.bind_ok (Steps.attempt_run hload), List.append_assoc]
      cases result with
      | error chain =>
          exact initialDelay_after crates outside options h rfl fun certificate hnone => by cases hnone
      | ok cached =>
          refine initialDelay_after crates outside options h rfl fun certificate hsome => ?_
          obtain ⟨content, found, hread, hdecode, hparse⟩ := hcached certificate (congrArg _ hsome)
          refine ⟨calls ++ [.createDirectory], content, found, ?_, hdecode, hparse⟩
          rw [hread, List.append_assoc, List.singleton_append]

-- By induction over the life of a provider.
theorem provides_publishes {calls : History} {delay : Option Nat}
    (h : Provides crates outside options calls delay) : Publishes crates options.domain calls := by
  induction h with
  | new => exact fun front certificate back hsplit => by simp at hsplit
  | started _ hrun ih =>
      have hkept := (start_keeps crates outside options _ ih).1
      rwa [hrun] at hkept
  | failed _ hrun ih =>
      have hkept := (start_keeps crates outside options _ ih).1
      rwa [hrun] at hkept
  | @renewed calls later delay next _ hrun ih =>
      have hkept := (renew_keeps crates outside options delay calls ih).1
      rwa [hrun] at hkept
  | closed _ ih => exact ih

-- An issuance that has failed publishes nothing, whoever has asked for it.
theorem renew_failed {calls later : History} {chain : List String} {delay : Nat}
    (h : (issueCertificate crates outside options).run (calls ++ [.sleep delay]) = (.error chain, later)) :
    (renew crates outside options delay).run calls = (.ok RENEW_RETRY, later) ∧
      published later = published calls := by
  refine ⟨renew_error crates outside options h, ?_⟩
  obtain ⟨more, hcalls, hquiet, -⟩ :=
    (issueCertificate_issues crates outside options (calls ++ [.sleep delay])).quiet
  rw [h] at hcalls
  rw [show later = _ from hcalls, published_append, published_append, hquiet, List.append_nil]
  exact List.append_nil _

end

-- Whatever the calls return, and so wherever one of them fails.
theorem issue_cleans_up (crates : Crates) (outside : Outside) (options : AcmeOptions) :
    (∀ calls, Issues crates options.domain calls
      ((issueCertificate crates outside options).run calls)) ∧
    (∀ calls delay, Provides crates outside options calls delay →
      Publishes crates options.domain calls) ∧
    (∀ calls delay chain later, Provides crates outside options calls delay →
      (start crates outside options).run calls = (.error chain, later) →
      published later = published calls) ∧
    ∀ calls delay chain later,
      (issueCertificate crates outside options).run (calls ++ [.sleep delay]) = (.error chain, later) →
      (renew crates outside options delay).run calls = (.ok RENEW_RETRY, later) ∧
        published later = published calls := by
  refine ⟨issueCertificate_issues crates outside options, fun calls delay => provides_publishes _ _ _,
    fun calls delay chain later hcalls h => ?_,
    fun calls delay chain later => renew_failed crates outside options⟩
  have hkept := (start_keeps crates outside options _ (provides_publishes _ _ _ hcalls)).2 chain
  rw [h] at hkept
  exact hkept rfl

end SingBox.Cli
