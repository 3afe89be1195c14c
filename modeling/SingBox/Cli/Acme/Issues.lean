import SingBox.Cli.Acme.Issue

namespace SingBox.Cli

open Library
open Core (toAsciiLowercase)

-- The leaf certificate names every domain, whatever the case of its letters.
def CoversDomains (crates : Crates) (domains : List String) (certificate : Certificate) : Prop :=
  ∃ leaf names, crates.parseX509Certificate (certificate.certificateChain.headD []) = .ok leaf ∧
    leaf.alternativeNames = .ok (some names) ∧
    ∀ domain ∈ domains, ∃ name, .dnsName name ∈ names ∧ toAsciiLowercase name = toAsciiLowercase domain

-- The certificate is what has been written, as it is read back.
def Stored (crates : Crates) (domains : List String) (calls : History)
    (certificate : ManagedCertificate Certificate) : Prop :=
  ∃ cached content, parseManagedCertificate crates cached domains = .ok certificate ∧
    crates.toVecPretty cached = .ok content ∧ .atomicWrite content (.ok ()) ∈ calls

-- The last calls have read the certificate from its file, and found it not to have expired.
def Loaded (crates : Crates) (domains : List String) (calls : History)
    (certificate : ManagedCertificate Certificate) : Prop :=
  ∃ earlier content cached clock, calls = earlier ++ [.readCached (.ok (some content)), .clock clock] ∧
    crates.fromSlice content = .ok cached ∧
    parseManagedCertificate crates cached domains = .ok certificate ∧ clock < certificate.notAfter

-- What may be published after these calls.
def Backed (crates : Crates) (domains : List String) (calls : History) (certificate : Certificate) :
    Prop :=
  CoversDomains crates domains certificate ∧ ∃ managed, managed.material = certificate ∧
    (Stored crates domains calls managed ∨ Loaded crates domains calls managed)

def Publishes (crates : Crates) (domains : List String) (calls : History) : Prop :=
  ∀ front certificate back, calls = front ++ .publish certificate :: back →
    Backed crates domains front certificate

-- What an issuance does, however it ends: each record that its calls have created is removed
-- after all of them, the last one first.
def Issues (crates : Crates) (domains : List String) (calls : History)
    (outcome : Result (ManagedCertificate Certificate) × History) : Prop :=
  ∃ body, outcome.2 = calls ++ (body ++ (created body).reverse.map .remove) ∧ Quiet body ∧
    ∀ certificate, outcome.1 = .ok certificate →
      CoversDomains crates domains certificate.material ∧ Stored crates domains body certificate

section Parse

variable {crates : Crates}

theorem mem_dnsNames {names : List GeneralName} {text : String} (h : text ∈ dnsNames names) :
    ∃ name, .dnsName name ∈ names ∧ toAsciiLowercase name = text := by
  obtain ⟨found, hfound, htext⟩ := List.mem_filterMap.mp h
  cases found with
  | dnsName name => exact ⟨name, hfound, Option.some.inj htext⟩
  | other => cases htext

theorem ensureCovered_ok {names domains : List String} (h : ensureCovered names domains = .ok ()) :
    ∀ domain ∈ domains, toAsciiLowercase domain ∈ names := by
  induction domains with
  | nil => exact fun domain hmem => absurd hmem List.not_mem_nil
  | cons first domains ih =>
      intro domain hmem
      obtain ⟨_, hfirst, hrest⟩ := Result.bind_eq_ok.mp h
      cases List.mem_cons.mp hmem with
      | inl heq =>
          rw [heq]
          exact List.contains_iff_mem.mp (Result.ensure_eq_ok.mp hfirst)
      | inr hmem => exact ih hrest domain hmem

theorem Certificate.new_ok {chain : List Bytes} {key : Bytes} {certificate : Certificate}
    (h : Certificate.new chain key = .ok certificate) : certificate.certificateChain = chain := by
  obtain ⟨_, _, h⟩ := Result.bind_eq_ok.mp h
  obtain ⟨_, _, h⟩ := Result.bind_eq_ok.mp h
  cases h
  rfl

theorem parseLeaf_ok {der : Bytes} {leaf : X509Certificate} (h : parseLeaf crates der = .ok leaf) :
    crates.parseX509Certificate der = .ok leaf := by
  unfold parseLeaf at h
  split at h
  case h_1 certificate hparse =>
    cases h
    exact hparse
  case h_2 => cases h

-- The checks that both the new certificate and the cached one pass.
theorem parseManagedCertificate_covers {cached : CachedCertificate} {domains : List String}
    {managed : ManagedCertificate Certificate}
    (h : parseManagedCertificate crates cached domains = .ok managed) :
    CoversDomains crates domains managed.material := by
  obtain ⟨chain, _, h⟩ := Result.bind_eq_ok.mp h
  obtain ⟨_, _, h⟩ := Result.bind_eq_ok.mp h
  obtain ⟨leaf, hleaf, h⟩ := Result.bind_eq_ok.mp h
  obtain ⟨found, hfound, h⟩ := Result.bind_eq_ok.mp h
  obtain ⟨names, hnames, h⟩ := Result.bind_eq_ok.mp h
  obtain ⟨_, hcovered, h⟩ := Result.bind_eq_ok.mp h
  rw [Result.ofOption_eq_ok.mp hnames] at hfound
  split at h
  case isFalse => cases h
  case isTrue hpos =>
    obtain ⟨key, _, h⟩ := Result.bind_eq_ok.mp h
    obtain ⟨secret, _, h⟩ := Result.bind_eq_ok.mp h
    obtain ⟨material, hmaterial, h⟩ := Result.bind_eq_ok.mp h
    cases h
    refine ⟨leaf, names, ?_, hfound, fun domain hmem => ?_⟩
    · show crates.parseX509Certificate (material.certificateChain.headD []) = _
      rw [Certificate.new_ok hmaterial]
      exact parseLeaf_ok hleaf
    · exact mem_dnsNames (ensureCovered_ok hcovered domain hmem)

end Parse

theorem Stored.mono {crates : Crates} {domains : List String} {calls more : History}
    {certificate : ManagedCertificate Certificate} (h : Stored crates domains calls certificate)
    (hmore : ∀ call ∈ calls, call ∈ more) : Stored crates domains more certificate := by
  obtain ⟨cached, content, hparse, hcontent, hmem⟩ := h
  exact ⟨cached, content, hparse, hcontent, hmore _ hmem⟩

theorem Stored.backed {crates : Crates} {domains : List String} {calls : History}
    {certificate : ManagedCertificate Certificate} (h : Stored crates domains calls certificate) :
    Backed crates domains calls certificate.material := by
  have hstored := h
  obtain ⟨cached, content, hparse, _, _⟩ := h
  exact ⟨parseManagedCertificate_covers hparse, certificate, rfl, .inl hstored⟩

theorem Loaded.backed {crates : Crates} {domains : List String} {calls : History}
    {certificate : ManagedCertificate Certificate} (h : Loaded crates domains calls certificate) :
    Backed crates domains calls certificate.material := by
  have hloaded := h
  obtain ⟨earlier, content, cached, clock, _, _, hparse, _⟩ := h
  exact ⟨parseManagedCertificate_covers hparse, certificate, rfl, .inr hloaded⟩

section Publishes

variable {crates : Crates} {domains : List String} {calls more : History}

theorem publish_notMem {certificate : Certificate} (h : published calls = []) :
    AcmeCall.publish certificate ∉ calls := by
  intro hmem
  have hsees : certificate ∈ published calls := List.mem_filterMap.mpr ⟨_, hmem, rfl⟩
  rw [h] at hsees
  cases hsees

theorem Publishes.append (h : Publishes crates domains calls)
    (hmore : ∀ mid certificate back, more = mid ++ .publish certificate :: back →
      Backed crates domains (calls ++ mid) certificate) : Publishes crates domains (calls ++ more) := by
  intro front certificate back hsplit
  cases List.append_eq_append_iff.mp hsplit with
  | inl hlate =>
      obtain ⟨mid, rfl, hmid⟩ := hlate
      exact hmore mid certificate back hmid
  | inr hearly =>
      obtain ⟨mid, rfl, hmid⟩ := hearly
      cases mid with
      | nil =>
          have hbacked := hmore [] certificate back hmid.symm
          rwa [List.append_nil, List.append_nil] at hbacked
      | cons call mid =>
          cases (List.cons.inj hmid).1
          exact h _ _ _ rfl

theorem Publishes.quiet (h : Publishes crates domains calls) (hmore : published more = []) :
    Publishes crates domains (calls ++ more) := by
  refine h.append fun mid certificate back hsplit => ?_
  have hmem : AcmeCall.publish certificate ∈ more := by
    rw [hsplit]
    exact List.mem_append_right _ List.mem_cons_self
  exact absurd hmem (publish_notMem hmore)

theorem Publishes.publish (h : Publishes crates domains calls) {certificate : Certificate}
    (hbacked : Backed crates domains calls certificate) :
    Publishes crates domains (calls ++ [.publish certificate]) := by
  refine h.append fun mid other back hsplit => ?_
  cases mid with
  | nil =>
      cases (List.cons.inj hsplit).1
      rwa [List.append_nil]
  | cons call mid => cases (List.append_eq_nil_iff.mp (List.cons.inj hsplit).2.symm).2

theorem Issues.quiet {outcome : Result (ManagedCertificate Certificate) × History}
    (h : Issues crates domains calls outcome) :
    ∃ more, outcome.2 = calls ++ more ∧ published more = [] ∧
      ∀ certificate, outcome.1 = .ok certificate → Stored crates domains more certificate := by
  obtain ⟨body, hcalls, hquiet, hok⟩ := h
  refine ⟨_, hcalls, ?_, fun certificate hresult => ?_⟩
  · rw [published_append, hquiet.published, List.nil_append]
    exact List.filterMap_eq_nil_iff.mpr fun call hmem => by
      obtain ⟨record, -, rfl⟩ := List.mem_map.mp hmem
      rfl
  · exact (hok certificate hresult).2.mono fun call hmem => List.mem_append_left _ hmem

-- An error before there is a block.
theorem Issues.of_error {body : History} {chain : List String}
    (hbody : Quiet body) (hcreated : created body = []) :
    Issues crates domains calls (.error chain, calls ++ body) := by
  refine ⟨body, ?_, hbody, fun certificate hresult => by cases hresult⟩
  rw [hcreated]
  exact congrArg _ (List.append_nil body).symm

end Publishes

section

variable (crates : Crates) (outside : Outside) (options : AcmeOptions)

theorem removeRecords_run (records : List DnsRecord) (calls : History) :
    (Steps.forEach (removeRecord outside) records).run calls =
      (.ok (), calls ++ records.map .remove) := by
  induction records generalizing calls with
  | nil => exact Prod.ext rfl (List.append_nil _).symm
  | cons record records ih =>
      have hremove : (removeRecord outside record).run calls = (.ok (), calls ++ [.remove record]) := rfl
      rw [Steps.forEach, Steps.bind_ok hremove, ih, List.append_assoc]
      rfl

theorem goes_of_bind {α β : Type} {run : Steps Issuing α} {next : α → Steps Issuing β}
    {this last : Issuing} {value : β} (hgoes : Steps.Relates Goes run)
    (h : (run >>= next).run this = (.ok value, last)) :
    ∃ first mid, run.run this = (.ok first, mid) ∧ Goes this mid ∧
      (next first).run mid = (.ok value, last) := by
  obtain ⟨first, mid, hrun, hnext⟩ := Steps.of_bind h
  have hmid := hgoes this
  rw [hrun] at hmid
  exact ⟨first, mid, hrun, hmid, hnext⟩

theorem call_ok {α : Type} {event : Result α → AcmeCall} {answer : History → Result α}
    {this next : Issuing} {value : α} (h : (Issuing.call event answer).run this = (.ok value, next)) :
    next.calls = this.calls ++ [event (.ok value)] := by
  have hanswer : answer this.calls = .ok value := congrArg Prod.fst h
  have hcalls : this.calls ++ [event (answer this.calls)] = next.calls :=
    congrArg (fun run => run.2.calls) h
  rw [← hcalls, hanswer]

-- A block that comes to a certificate has ended with the call that stores it.
theorem issueBlock_ok {urls : List String} {propagationDelay : Nat} {this last : Issuing}
    {certificate : ManagedCertificate Certificate}
    (h : (issueBlock crates outside options urls propagationDelay).run this = (.ok certificate, last)) :
    ∃ body, last.calls = this.calls ++ body ∧ Stored crates options.domain body certificate := by
  obtain ⟨_, _, -, hfirst, h⟩ :=
    goes_of_bind (.forEach Goes.refl Goes.trans (goes_presentChallenge outside) urls) h
  obtain ⟨_, _, -, hwait, h⟩ := goes_of_bind (goes_waitForRecords outside propagationDelay) h
  obtain ⟨_, _, -, hready, h⟩ :=
    goes_of_bind (.forEach Goes.refl Goes.trans (goes_setChallengeReady outside) urls) h
  obtain ⟨_, _, -, hpoll, h⟩ := goes_of_bind (goes_call _ fun _ => ⟨rfl, rfl, rfl⟩) h
  obtain ⟨_, _, -, hstatus, h⟩ := goes_of_bind (goes_ofResult _) h
  obtain ⟨privateKeyPem, _, -, hfinalize, h⟩ := goes_of_bind (goes_call _ fun _ => ⟨rfl, rfl, rfl⟩) h
  obtain ⟨certificatePem, _, -, hcertificate, h⟩ :=
    goes_of_bind (goes_call _ fun _ => ⟨rfl, rfl, rfl⟩) h
  obtain ⟨managed, _, hparse, hmanaged, h⟩ := goes_of_bind (goes_ofResult _) h
  obtain ⟨content, mid, hcontent, hencoded, h⟩ := goes_of_bind (goes_ofResult _) h
  obtain ⟨_, _, hwrite, h⟩ := Steps.of_bind h
  cases h
  obtain ⟨calls, hcalls, -⟩ := hfirst.trans <| hwait.trans <| hready.trans <| hpoll.trans <|
    hstatus.trans <| hfinalize.trans <| hcertificate.trans <| hmanaged.trans hencoded
  refine ⟨calls ++ [.atomicWrite content (.ok ())], ?_, _, content, congrArg Prod.fst hparse,
    congrArg Prod.fst hcontent, List.mem_append_right _ List.mem_cons_self⟩
  rw [call_ok hwrite, hcalls, List.append_assoc]

theorem runBlock_run {urls : List String} {propagationDelay : Nat} {calls : History}
    {result : Result (ManagedCertificate Certificate)} {last : Issuing}
    (h : (issueBlock crates outside options urls propagationDelay).run ⟨[], calls⟩ = (result, last)) :
    (runBlock crates outside options urls propagationDelay).run calls =
      (.ok (result, last.records), last.calls) :=
  congrArg (fun run : Result (ManagedCertificate Certificate) × Issuing =>
    ((.ok (run.1, run.2.records) : Result _), run.2.calls)) h

-- The block and the removals after it.
theorem runBlock_issues (urls : List String) (propagationDelay : Nat) {first : History}
    (calls : History) (hfirst : Quiet first) (hcreated : created first = []) :
    Issues crates options.domain calls ((runBlock crates outside options urls propagationDelay >>=
      fun found => Steps.forEach (removeRecord outside) found.2.reverse >>=
        fun _ => Steps.ofResult found.1).run (calls ++ first)) := by
  obtain ⟨body, hcalls, hrecords, hquiet⟩ :=
    goes_issueBlock crates outside options urls propagationDelay ⟨[], calls ++ first⟩
  cases hblock : (issueBlock crates outside options urls propagationDelay).run ⟨[], calls ++ first⟩ with
  | mk result last =>
  rw [hblock] at hcalls hrecords
  rw [Steps.bind_ok (runBlock_run crates outside options hblock),
    Steps.bind_ok (removeRecords_run outside _ _)]
  refine ⟨first ++ body, ?_, hfirst.append hquiet, fun certificate hresult => ?_⟩
  · show last.calls ++ last.records.reverse.map .remove = _
    rw [created_append, hcreated, hcalls, hrecords]
    simp only [List.nil_append, List.append_assoc]
  · have hresult : result = .ok certificate := hresult
    rw [hresult] at hblock
    obtain ⟨stored, hstored, hcertificate⟩ := issueBlock_ok crates outside options hblock
    rw [hcalls] at hstored
    rw [← List.append_cancel_left hstored] at hcertificate
    have hfinal := hcertificate.mono fun call hmem => List.mem_append_right first hmem
    exact ⟨hfinal.backed.1, hfinal⟩

theorem issueCertificate_issues (calls : History) :
    Issues crates options.domain calls ((issueCertificate crates outside options).run calls) := by
  have haccount : (call (fun _ => .account) outside.account).run calls =
      (outside.account calls, calls ++ [.account]) := rfl
  cases hanswer : outside.account calls with
  | error chain =>
      rw [hanswer] at haccount
      rw [issueCertificate, Steps.bind_error haccount]
      exact Issues.of_error ⟨rfl, rfl⟩ rfl
  | ok =>
      rw [hanswer] at haccount
      rw [issueCertificate, Steps.bind_ok haccount]
      have horder : (call (fun _ => .newOrder)
          (outside.newOrder options.domain options.profile)).run (calls ++ [.account]) =
          (outside.newOrder options.domain options.profile (calls ++ [.account]),
            calls ++ [.account, .newOrder]) := Prod.ext rfl (List.append_assoc ..)
      cases hurls : outside.newOrder options.domain options.profile (calls ++ [.account]) with
      | error chain =>
          rw [hurls] at horder
          rw [Steps.bind_error horder]
          exact Issues.of_error ⟨rfl, rfl⟩ rfl
      | ok urls =>
          rw [hurls] at horder
          rw [Steps.bind_ok horder]
          cases options.propagationDelay with
          | error chain => exact Issues.of_error ⟨rfl, rfl⟩ rfl
          | ok propagationDelay =>
              exact runBlock_issues crates outside options urls propagationDelay calls ⟨rfl, rfl⟩ rfl

end

end SingBox.Cli
