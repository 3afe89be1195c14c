import SingBox.Cli.Acme
import SingBox.Core.Rule
import SingBox.Library.Reader
import SingBox.Library.Steps

namespace SingBox.Cli

open Library
open Core (toAsciiLowercase)

structure DnsRecord where
  zoneId : String
  recordId : String
  name : String
  value : String
deriving DecidableEq

-- `sing_box_core::Certificate`
structure Certificate where
  certificateChain : List Bytes
  privateKey : Bytes
deriving DecidableEq

def Certificate.new (certificateChain : List Bytes) (privateKey : Bytes) : Result Certificate := do
  Result.ensure (!certificateChain.isEmpty) "certificate chain is empty"
  Result.ensure (!privateKey.isEmpty) "certificate private key is empty"
  return { certificateChain, privateKey }

structure CachedCertificate where
  certificatePem : String
  privateKeyPem : String
deriving DecidableEq

inductive GeneralName where
  | dnsName (name : String)
  | other

-- What is looked at of a certificate. The extension with the names may be missing.
structure X509Certificate where
  alternativeNames : Result (Option (List GeneralName))
  notAfter : Int

-- The crates that read and write certificates: `rustls_pemfile`, `x509_parser`, `serde_json`.
structure Crates where
  certs : String → Result (List Bytes)
  privateKey : String → Result (Option Bytes)
  parseX509Certificate : Bytes → Except String X509Certificate
  fromSlice : Bytes → Result CachedCertificate
  toVecPretty : CachedCertificate → Result Bytes

section Parse

variable (crates : Crates)

def parseLeaf (der : Bytes) : Result X509Certificate :=
  match crates.parseX509Certificate der with
  | .ok certificate => .ok certificate
  | .error error => Result.bail s!"parse ACME leaf certificate: {error}"

def dnsNames (names : List GeneralName) : List String :=
  names.filterMap fun
    | .dnsName name => some (toAsciiLowercase name)
    | .other => none

def ensureCovered (alternativeNames : List String) : List String → Result Unit
  | [] => .ok ()
  | domain :: domains => do
      Result.ensure (alternativeNames.contains (toAsciiLowercase domain))
        s!"ACME certificate does not cover configured domain {domain}"
      ensureCovered alternativeNames domains

def parseManagedCertificate (cached : CachedCertificate) (expectedDomains : List String) :
    Result (ManagedCertificate Certificate) := do
  let certificateChain ← crates.certs cached.certificatePem
  Result.ensure (!certificateChain.isEmpty) "ACME certificate chain is empty"
  let certificate ← parseLeaf crates (certificateChain.headD [])
  let names ← Result.ofOption "ACME leaf certificate has no subject alternative names"
    (← certificate.alternativeNames)
  ensureCovered (dnsNames names) expectedDomains
  if h : 0 < certificate.notAfter then
    let privateKey ← Result.ofOption "ACME private key is empty"
      (← crates.privateKey cached.privateKeyPem)
    let material ← Certificate.new certificateChain privateKey
    return {
      material
      notAfter := certificate.notAfter * 10 ^ 9
      notAfter_pos := Int.mul_pos h (by decide) }
  else Result.bail "invalid ACME certificate expiration"

end Parse

inductive AuthorizationStatus where
  | valid
  | pending
  | other (status : String)

-- The challenge is that of DNS-01: its identifier, and what the record is to say.
structure Authorization where
  status : AuthorizationStatus
  challenge : Option (String × String)

-- The calls a provider makes, in so far as they matter with what they have returned.
inductive AcmeCall where
  | createDirectory
  | readCached (content : Result (Option Bytes))
  | clock (now : Int)
  | account
  | newOrder
  | authorization (url : String)
  | present (domain value : String) (result : Result DnsRecord)
  | sleep (duration : Nat)
  | waitForPropagation (record : DnsRecord)
  | setReady (url : String)
  | pollReady
  | finalize
  | pollCertificate
  | atomicWrite (content : Bytes) (result : Result Unit)
  | remove (record : DnsRecord)
  -- `sender.send_replace`
  | publish (certificate : Certificate)

abbrev History := List AcmeCall

-- What the calls return, each after the calls before it. An order has the URLs of its
-- authorizations, and there may be no file with a cached certificate.
structure Outside where
  createDirectory : History → Result Unit
  readCached : History → Result (Option Bytes)
  clock : History → Int
  account : History → Result Unit
  newOrder : List String → String → History → Result (List String)
  authorization : String → History → Result Authorization
  present : String → String → History → Result DnsRecord
  waitForPropagation : DnsRecord → History → Result Unit
  setReady : String → History → Result Unit
  pollReady : History → Result String
  finalize : History → Result String
  pollCertificate : History → Result String
  atomicWrite : Bytes → History → Result Unit
  remove : DnsRecord → History → Result Unit

structure AcmeOptions where
  domain : List String
  profile : String
  certificatePath : String
  -- what `CloudflareDns::new` makes of the options of the challenge
  propagationDelay : Result Nat

-- The block in `issue_certificate`, with the records it has created.
structure Issuing where
  records : List DnsRecord
  calls : History

def Issuing.call {α : Type} (event : Result α → AcmeCall) (answer : History → Result α) :
    Steps Issuing α := ExceptT.mk fun this =>
  (answer this.calls, { this with calls := this.calls ++ [event (answer this.calls)] })

def call {α : Type} (event : Result α → AcmeCall) (answer : History → Result α) :
    Steps History α := ExceptT.mk fun calls => (answer calls, calls ++ [event (answer calls)])

section Issue

variable (crates : Crates) (outside : Outside) (options : AcmeOptions)

-- A round of the first loop over the authorizations.
def presentChallenge (url : String) : Steps Issuing Unit := do
  let authorization ← Issuing.call (fun _ => .authorization url) (outside.authorization url)
  match authorization.status with
  | .valid => pure ()
  | .other status =>
      Steps.ofResult (Result.bail s!"unexpected ACME authorization status: {status}")
  | .pending => do
      let (domain, value) ← Steps.ofResult
        (Result.ofOption "ACME server did not offer DNS-01" authorization.challenge)
      let record ← Issuing.call (.present domain value) (outside.present domain value)
      Steps.modify fun this => { this with records := this.records ++ [record] }

def waitForRecords (propagationDelay : Nat) : Steps Issuing Unit := ExceptT.mk fun this =>
  if this.records.isEmpty then (.ok (), this)
  else
    (do
      Issuing.call (fun _ => .sleep propagationDelay) fun _ => .ok ()
      Steps.forEach (fun record => Issuing.call (fun _ => .waitForPropagation record)
        (outside.waitForPropagation record)) this.records).run this

-- A round of the second loop.
def setChallengeReady (url : String) : Steps Issuing Unit := do
  let authorization ← Issuing.call (fun _ => .authorization url) (outside.authorization url)
  match authorization.status with
  | .pending => do
      let _ ← Steps.ofResult
        (Result.ofOption "ACME server did not offer DNS-01" authorization.challenge)
      Issuing.call (fun _ => .setReady url) (outside.setReady url)
  | _ => pure ()

def issueBlock (urls : List String) (propagationDelay : Nat) :
    Steps Issuing (ManagedCertificate Certificate) := do
  Steps.forEach (presentChallenge outside) urls
  waitForRecords outside propagationDelay
  Steps.forEach (setChallengeReady outside) urls
  let status ← Issuing.call (fun _ => .pollReady) outside.pollReady
  Steps.ensure (status = "Ready") s!"ACME order became {status}"
  let privateKeyPem ← Issuing.call (fun _ => .finalize) outside.finalize
  let certificatePem ← Issuing.call (fun _ => .pollCertificate) outside.pollCertificate
  let managed ← Steps.ofResult
    (parseManagedCertificate crates { certificatePem, privateKeyPem } options.domain)
  let content ← Steps.ofResult (crates.toVecPretty { certificatePem, privateKeyPem })
  Issuing.call (.atomicWrite content) (outside.atomicWrite content)
  return managed

-- The block's result, whichever it is, and its records.
def runBlock (urls : List String) (propagationDelay : Nat) :
    Steps History (Result (ManagedCertificate Certificate) × List DnsRecord) := ExceptT.mk fun calls =>
  let (result, issuing) := (issueBlock crates outside options urls propagationDelay).run ⟨[], calls⟩
  (.ok (result, issuing.records), issuing.calls)

-- What `remove` returns is only logged.
def removeRecord (record : DnsRecord) : Steps History Unit := do
  let _ ← Steps.attempt (call (fun _ => .remove record) (outside.remove record))

def issueCertificate : Steps History (ManagedCertificate Certificate) := do
  call (fun _ => .account) outside.account
  let urls ← call (fun _ => .newOrder) (outside.newOrder options.domain options.profile)
  let propagationDelay ← Steps.ofResult options.propagationDelay
  let (result, records) ← runBlock crates outside options urls propagationDelay
  Steps.forEach (removeRecord outside) records.reverse
  Steps.ofResult result

def loadCachedCertificate : Steps History (Option (ManagedCertificate Certificate)) := do
  match ← call .readCached outside.readCached with
  | none => return none
  | some content =>
      let cached ← Steps.ofResult (Result.withContext
        s!"decode cached certificate {options.certificatePath}" (crates.fromSlice content))
      some <$> Steps.ofResult (parseManagedCertificate crates cached options.domain)

def now : Steps History Int := ExceptT.mk fun calls =>
  (.ok (outside.clock calls), calls ++ [.clock (outside.clock calls)])

def publish (certificate : Certificate) : Steps History Unit :=
  Steps.modify (· ++ [.publish certificate])

def startIssuing : Steps History Nat := do
  let issued ← issueCertificate crates outside options
  publish issued.material
  return renewalDelay issued.notAfter (← now outside)

-- The certificate that `start` begins with, and how long the loop is to wait at first.
def initialDelay : Option (ManagedCertificate Certificate) → Steps History Nat
  | none => startIssuing crates outside options
  | some cached => do
      let clock ← now outside
      if clock < cached.notAfter then
        publish cached.material
        return renewalDelay cached.notAfter (← now outside)
      else startIssuing crates outside options

-- `AcmeCertificateProvider::start`, up to the wait of the loop that it spawns. A cached
-- certificate that cannot be loaded is as good as none.
def start : Steps History Nat := do
  call (fun _ => .createDirectory) outside.createDirectory
  match ← Steps.attempt (loadCachedCertificate crates outside options) with
  | .ok cached => initialDelay crates outside options cached
  | .error _ => initialDelay crates outside options none

-- A round of `renewal_loop`.
def renew (delay : Nat) : Steps History Nat := do
  call (fun _ => .sleep delay) fun _ => .ok ()
  match ← Steps.attempt (issueCertificate crates outside options) with
  | .ok certificate =>
      let delay := renewalDelay certificate.notAfter (← now outside)
      publish certificate.material
      return delay
  | .error _ => return RENEW_RETRY

-- The calls of a provider so far, and how long its loop is to wait if that has been spawned.
-- `start` may be called again after it has failed, and after a `close`.
inductive Provides : History → Option Nat → Prop
  | new : Provides [] none
  | started {calls later : History} {delay : Nat} : Provides calls none →
      (start crates outside options).run calls = (.ok delay, later) → Provides later (some delay)
  | failed {calls later : History} {chain : List String} : Provides calls none →
      (start crates outside options).run calls = (.error chain, later) → Provides later none
  | renewed {calls later : History} {delay next : Nat} : Provides calls (some delay) →
      (renew crates outside options delay).run calls = (.ok next, later) → Provides later (some next)
  | closed {calls : History} {delay : Nat} : Provides calls (some delay) → Provides calls none

end Issue

-- The records whose `present` has returned them.
def created (calls : History) : List DnsRecord :=
  calls.filterMap fun
    | .present _ _ (.ok record) => some record
    | _ => none

def removed (calls : History) : List DnsRecord :=
  calls.filterMap fun
    | .remove record => some record
    | _ => none

-- What the subscribers get to see.
def published (calls : History) : List Certificate :=
  calls.filterMap fun
    | .publish certificate => some certificate
    | _ => none

theorem created_append (front back : History) : created (front ++ back) = created front ++ created back :=
  List.filterMap_append ..

theorem removed_append (front back : History) : removed (front ++ back) = removed front ++ removed back :=
  List.filterMap_append ..

theorem published_append (front back : History) :
    published (front ++ back) = published front ++ published back := List.filterMap_append ..

-- Calls that neither remove a record nor publish anything.
structure Quiet (calls : History) : Prop where
  removed : removed calls = []
  published : published calls = []

theorem Quiet.append {front back : History} (hf : Quiet front) (hb : Quiet back) :
    Quiet (front ++ back) :=
  ⟨by rw [removed_append, hf.removed, hb.removed]; rfl,
    by rw [published_append, hf.published, hb.published]; rfl⟩

-- The block goes on, and has its records from the calls it has made.
def Goes (this next : Issuing) : Prop :=
  ∃ calls, next.calls = this.calls ++ calls ∧ next.records = this.records ++ created calls ∧
    Quiet calls

theorem Goes.refl (this : Issuing) : Goes this this :=
  ⟨[], (List.append_nil _).symm, (List.append_nil _).symm, rfl, rfl⟩

theorem Goes.trans {first second third : Issuing} (hf : Goes first second) (hs : Goes second third) :
    Goes first third := by
  obtain ⟨front, hfront, hrecords, hquiet⟩ := hf
  obtain ⟨back, hback, hothers, hrest⟩ := hs
  refine ⟨front ++ back, ?_, ?_, hquiet.append hrest⟩
  · rw [hback, hfront, List.append_assoc]
  · rw [hothers, hrecords, created_append, List.append_assoc]

variable {α β : Type}

-- A call that says nothing of records.
theorem goes_call {event : Result α → AcmeCall} (answer : History → Result α)
    (h : ∀ result, created [event result] = [] ∧ Quiet [event result]) :
    Steps.Relates Goes (Issuing.call event answer) := fun this =>
  ⟨[event (answer this.calls)], rfl, by
    rw [(h _).1, List.append_nil]
    rfl, (h _).2⟩

theorem goes_ofResult (result : Result α) : Steps.Relates Goes (Steps.ofResult result) :=
  .ofResult Goes.refl result

theorem goes_bind {run : Steps Issuing α} {next : α → Steps Issuing β} (h : Steps.Relates Goes run)
    (hnext : ∀ value, Steps.Relates Goes (next value)) : Steps.Relates Goes (run >>= next) :=
  .bind Goes.trans h hnext

section

variable (crates : Crates) (outside : Outside) (options : AcmeOptions)

theorem goes_present (domain value : String) :
    Steps.Relates Goes (Issuing.call (.present domain value) (outside.present domain value) >>=
      fun record => Steps.modify fun this => { this with records := this.records ++ [record] }) := by
  intro this
  cases hanswer : outside.present domain value this.calls with
  | error chain =>
      have hcall : (Issuing.call (.present domain value) (outside.present domain value)).run this =
          (.error chain, { this with calls := this.calls ++ [.present domain value (.error chain)] }) := by
        show (_, _) = _
        rw [hanswer]
      rw [Steps.bind_error hcall]
      exact ⟨_, rfl, (List.append_nil _).symm, rfl, rfl⟩
  | ok record =>
      have hcall : (Issuing.call (.present domain value) (outside.present domain value)).run this =
          (.ok record, { this with calls := this.calls ++ [.present domain value (.ok record)] }) := by
        show (_, _) = _
        rw [hanswer]
      rw [Steps.bind_ok hcall]
      exact ⟨_, rfl, rfl, rfl, rfl⟩

theorem goes_presentChallenge (url : String) : Steps.Relates Goes (presentChallenge outside url) := by
  refine goes_bind (goes_call _ fun _ => ⟨rfl, rfl, rfl⟩) fun authorization => ?_
  cases authorization.status with
  | valid => exact .pure Goes.refl ()
  | other status => exact goes_ofResult _
  | pending => exact goes_bind (goes_ofResult _) fun challenge => goes_present outside _ _

theorem goes_waitForRecords (propagationDelay : Nat) :
    Steps.Relates Goes (waitForRecords outside propagationDelay) := by
  intro this
  show Goes this (ite _ _ _ : Result Unit × Issuing).2
  split
  · exact .refl this
  · refine goes_bind (goes_call _ fun _ => ⟨rfl, rfl, rfl⟩) (fun _ => ?_) this
    exact .forEach Goes.refl Goes.trans (fun record => goes_call _ fun _ => ⟨rfl, rfl, rfl⟩) _

theorem goes_setChallengeReady (url : String) :
    Steps.Relates Goes (setChallengeReady outside url) := by
  refine goes_bind (goes_call _ fun _ => ⟨rfl, rfl, rfl⟩) fun authorization => ?_
  cases authorization.status with
  | valid | other => exact .pure Goes.refl ()
  | pending => exact goes_bind (goes_ofResult _) fun _ => goes_call _ fun _ => ⟨rfl, rfl, rfl⟩

theorem goes_issueBlock (urls : List String) (propagationDelay : Nat) :
    Steps.Relates Goes (issueBlock crates outside options urls propagationDelay) := by
  refine goes_bind (.forEach Goes.refl Goes.trans (goes_presentChallenge outside) urls) fun _ => ?_
  refine goes_bind (goes_waitForRecords outside propagationDelay) fun _ => ?_
  refine goes_bind (.forEach Goes.refl Goes.trans (goes_setChallengeReady outside) urls) fun _ => ?_
  refine goes_bind (goes_call _ fun _ => ⟨rfl, rfl, rfl⟩) fun status => ?_
  refine goes_bind (goes_ofResult _) fun _ => ?_
  refine goes_bind (goes_call _ fun _ => ⟨rfl, rfl, rfl⟩) fun privateKeyPem => ?_
  refine goes_bind (goes_call _ fun _ => ⟨rfl, rfl, rfl⟩) fun certificatePem => ?_
  refine goes_bind (goes_ofResult _) fun managed => goes_bind (goes_ofResult _) fun content => ?_
  exact goes_bind (goes_call _ fun _ => ⟨rfl, rfl, rfl⟩) fun _ => .pure Goes.refl managed

end

end SingBox.Cli
