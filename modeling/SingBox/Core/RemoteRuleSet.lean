import SingBox.Core.Rule
import SingBox.Core.Srs.Decode
import SingBox.Library.Run

namespace SingBox.Core

open Library

inductive RuleSetFormat where
  | source
  | binary
deriving DecidableEq

namespace RuleSetFormat

-- The location up to its query or fragment decides, whatever its case.
def inferred (location : String) : Option RuleSetFormat :=
  let path := (location.toList.takeWhile fun char => char != '?' && char != '#').map Char.toLower
  if ".json".toList.isSuffixOf path then some .source
  else if ".srs".toList.isSuffixOf path then some .binary
  else none

def resolve (configured location : String) : Result RuleSetFormat :=
  if configured = "source" then .ok .source
  else if configured = "binary" then .ok .binary
  else if configured = "" then
    Result.ofOption s!"cannot infer rule-set format from location: {location}" (inferred location)
  else Result.bail s!"unsupported rule-set format: {configured}"

end RuleSetFormat

inductive RuleSetFetchResult where
  | notModified
  | modified (content : Bytes) (etag : Option String)
deriving DecidableEq

-- What the remote branch of `prepare_rule_set` looks at.
structure RemoteRuleSetConfig where
  tag : String
  url : String
  format : String := ""
  downloadDetour : String := ""
  httpClient : Option String := none
  updateInterval : String := ""

structure RemoteService where
  tag : String
  url : String
  format : RuleSetFormat
  updateInterval : Nat
  state : CompiledRuleSet
  etag : Option String

-- Where `update_remote_rule_set` waits: for the interval, or for the response to a
-- request that carries an ETag.
inductive UpdateTask where
  | sleeping
  | fetching (etag : Option String)
  | returned
deriving DecidableEq

section

-- `serde_json` with the comments taken out, a zlib stream, the order of a hash set
-- and the length of an interval in nanoseconds.
variable (parseExtendedJson : String → Result RuleSetSource)
  (iter : List String → List String) (zlib : Bytes → Bytes × Option String)
  (parseDuration : String → Result Nat)

def decodeRuleSet (format : RuleSetFormat) (content : Bytes) : Result RuleSetSource :=
  match format with
  | .source => do
      let content ← Srs.fromUtf8 "source rule-set is not UTF-8" content
      Result.withContext "decode source rule-set" (parseExtendedJson content)
  | .binary => Result.withContext "decode binary rule-set" (Srs.decode iter zlib content)

def decodeAndCompileRuleSet (tag : String) (format : RuleSetFormat) (content : Bytes) :
    Result CompiledRuleSet := do
  let source ← decodeRuleSet parseExtendedJson iter zlib format content
  Result.ensure (1 ≤ source.version && source.version ≤ 5)
    s!"unsupported rule-set version: {source.version}"
  CompiledRuleSet.compileRules tag 0 source.rules

-- A day, if nothing is configured.
def intervalOf (config : RemoteRuleSetConfig) : Result Nat :=
  if config.updateInterval = "" then .ok (24 * 60 * 60 * 1000000000)
  else
    Result.withContext s!"invalid update_interval for rule-set {config.tag}"
      (parseDuration config.updateInterval)

-- The remote branch of `prepare_rule_set`. `fetched` is what the fetcher answers to
-- a request without an ETag, if there is a fetcher.
def prepareRemote (config : RemoteRuleSetConfig)
    (fetched : Option (Result RuleSetFetchResult)) : Result RemoteService := do
  Result.ensure (config.url != "") "remote rule-set URL is empty"
  Result.ensure (config.downloadDetour == "") "remote rule-set download_detour is not supported"
  Result.ensure config.httpClient.isNone "remote rule-set http_client is not supported"
  let format ← RuleSetFormat.resolve config.format config.url
  let updateInterval ← intervalOf parseDuration config
  Result.ensure (updateInterval != 0) "update_interval cannot be zero"
  let fetched ← Result.ofOption "remote rule-set requires a rule-set fetcher" fetched
  let response ← Result.withContext s!"download remote rule-set {config.tag}" fetched
  match response with
  | .notModified => Result.bail "remote rule-set returned not-modified without a local copy"
  | .modified content etag => do
      let state ← Result.withContext s!"load remote rule-set {config.tag}"
        (decodeAndCompileRuleSet parseExtendedJson iter zlib config.tag format content)
      return { tag := config.tag, url := config.url, format, updateInterval, state, etag }

-- `update_remote_rule_set`. `state` is the rule-set that the router matches with.
structure RemoteRuleSet where
  service : RemoteService
  task : UpdateTask

namespace RemoteRuleSet

-- What wakes the task. Once it is cancelled, either branch of a `select!` may be taken.
inductive Action where
  | cancelled
  | slept
  | responded (response : Result RuleSetFetchResult)

-- `Router::start`
def start (service : RemoteService) : RemoteRuleSet := { service, task := .sleeping }

def handleResponse (this : RemoteService) (response : Result RuleSetFetchResult) : RemoteService :=
  match response with
  | .ok .notModified => this
  | .ok (.modified content nextEtag) =>
      match decodeAndCompileRuleSet parseExtendedJson iter zlib this.tag this.format content with
      | .ok rules => { this with state := rules, etag := nextEtag }
      | .error _ => this
  | .error _ => this

-- The task runs from one of its waits to the next.
def step (this : RemoteRuleSet) : Action → Option RemoteRuleSet
  | .cancelled =>
      match this.task with
      | .returned => none
      | _ => some { this with task := .returned }
  | .slept =>
      match this.task with
      | .sleeping => some { this with task := .fetching this.service.etag }
      | _ => none
  | .responded response =>
      match this.task with
      | .fetching _ =>
          some { service := handleResponse parseExtendedJson iter zlib this.service response,
                 task := .sleeping }
      | _ => none

-- The rules and the ETag of a response, if it is a modified one that compiles.
def accepted (service : RemoteService) :
    Result RuleSetFetchResult → Option (CompiledRuleSet × Option String)
  | .ok (.modified content etag) =>
      (decodeAndCompileRuleSet parseExtendedJson iter zlib service.tag service.format
        content).toOption.map (·, etag)
  | _ => none

-- The responses that the run receives, in their order.
def received (actions : List Action) : List (Result RuleSetFetchResult) :=
  actions.filterMap fun
    | .responded response => some response
    | _ => none

def lastAccepted (service : RemoteService) (responses : List (Result RuleSetFetchResult)) :
    Option (CompiledRuleSet × Option String) :=
  (responses.filterMap (accepted parseExtendedJson iter zlib service)).getLast?

-- The rules in force and the ETag are those of the last response that was accepted.
-- The task asks with this ETag.
structure Paired (service : RemoteService) (responses : List (Result RuleSetFetchResult))
    (this : RemoteRuleSet) : Prop where
  tag : this.service.tag = service.tag
  format : this.service.format = service.format
  last : lastAccepted parseExtendedJson iter zlib service responses =
    some (this.service.state, this.service.etag)
  asked : ∀ etag, this.task = .fetching etag → etag = this.service.etag

variable {parseExtendedJson iter zlib parseDuration}

theorem handleResponse_accepted {service : RemoteService} {response : Result RuleSetFetchResult}
    {rules : CompiledRuleSet} {etag : Option String}
    (h : accepted parseExtendedJson iter zlib service response = some (rules, etag)) :
    handleResponse parseExtendedJson iter zlib service response =
      { service with state := rules, etag } := by
  unfold accepted at h
  split at h
  · rename_i content next
    cases hrules : decodeAndCompileRuleSet parseExtendedJson iter zlib service.tag service.format
        content with
    | error chain =>
        rw [hrules] at h
        cases h
    | ok compiled =>
        rw [hrules] at h
        obtain ⟨rfl, rfl⟩ := Prod.mk.inj (Option.some.inj h)
        simp only [handleResponse, hrules]
  · cases h

theorem handleResponse_refused {service : RemoteService} {response : Result RuleSetFetchResult}
    (h : accepted parseExtendedJson iter zlib service response = none) :
    handleResponse parseExtendedJson iter zlib service response = service := by
  unfold handleResponse
  split
  · rfl
  · rename_i content next
    cases hrules : decodeAndCompileRuleSet parseExtendedJson iter zlib service.tag service.format
        content with
    | error chain => rfl
    | ok rules =>
        simp only [accepted, hrules] at h
        cases h
  · rfl

-- `accepted` looks at the tag and the format only.
theorem accepted_congr {service other : RemoteService} (htag : other.tag = service.tag)
    (hformat : other.format = service.format) (response : Result RuleSetFetchResult) :
    accepted parseExtendedJson iter zlib other response =
      accepted parseExtendedJson iter zlib service response := by
  unfold accepted
  rw [htag, hformat]

theorem lastAccepted_concat (service : RemoteService) (responses : List (Result RuleSetFetchResult))
    (response : Result RuleSetFetchResult) :
    lastAccepted parseExtendedJson iter zlib service (responses ++ [response]) =
      (accepted parseExtendedJson iter zlib service response).or
        (lastAccepted parseExtendedJson iter zlib service responses) := by
  rw [lastAccepted, List.filterMap_append, List.getLast?_append]
  cases h : accepted parseExtendedJson iter zlib service response <;>
    simp [h, lastAccepted]

theorem Paired.respond {service : RemoteService} {responses : List (Result RuleSetFetchResult)}
    {this : RemoteRuleSet} (h : Paired parseExtendedJson iter zlib service responses this)
    (response : Result RuleSetFetchResult) :
    Paired parseExtendedJson iter zlib service (responses ++ [response])
      { service := handleResponse parseExtendedJson iter zlib this.service response,
        task := .sleeping } := by
  obtain ⟨htag, hformat, hlast, _⟩ := h
  have hcongr : accepted parseExtendedJson iter zlib this.service response =
      accepted parseExtendedJson iter zlib service response := accepted_congr htag hformat response
  have hasked : ∀ etag, UpdateTask.sleeping = .fetching etag →
      etag = (handleResponse parseExtendedJson iter zlib this.service response).etag := by
    intro etag he
    cases he
  cases haccepted : accepted parseExtendedJson iter zlib this.service response with
  | none =>
      rw [handleResponse_refused haccepted] at hasked ⊢
      refine ⟨htag, hformat, ?_, hasked⟩
      rw [lastAccepted_concat, ← hcongr, haccepted, Option.none_or, hlast]
  | some pair =>
      obtain ⟨rules, etag⟩ := pair
      rw [handleResponse_accepted haccepted] at hasked ⊢
      refine ⟨htag, hformat, ?_, hasked⟩
      rw [lastAccepted_concat, ← hcongr, haccepted, Option.some_or]

theorem Paired.step {service : RemoteService} {responses : List (Result RuleSetFetchResult)}
    {this next : RemoteRuleSet} (h : Paired parseExtendedJson iter zlib service responses this)
    (action : Action) (hs : this.step parseExtendedJson iter zlib action = some next) :
    Paired parseExtendedJson iter zlib service (responses ++ received [action]) next := by
  cases action with
  | cancelled =>
      simp only [RemoteRuleSet.step] at hs
      split at hs
      · cases hs
      · obtain rfl := Option.some.inj hs
        refine ⟨h.tag, h.format, (List.append_nil responses).symm ▸ h.last, ?_⟩
        intro etag he
        cases he
  | slept =>
      simp only [RemoteRuleSet.step] at hs
      split at hs
      · obtain rfl := Option.some.inj hs
        refine ⟨h.tag, h.format, (List.append_nil responses).symm ▸ h.last, ?_⟩
        intro etag he
        exact (UpdateTask.fetching.inj he).symm
      · cases hs
  | responded response =>
      simp only [RemoteRuleSet.step] at hs
      split at hs
      · obtain rfl := Option.some.inj hs
        exact h.respond response
      · cases hs

theorem paired_of_exec {service : RemoteService} {responses : List (Result RuleSetFetchResult)}
    {this final : RemoteRuleSet} (h : Paired parseExtendedJson iter zlib service responses this)
    (actions : List Action)
    (he : Run.exec (RemoteRuleSet.step parseExtendedJson iter zlib) this actions = some final) :
    Paired parseExtendedJson iter zlib service (responses ++ received actions) final := by
  induction actions generalizing this responses with
  | nil =>
      obtain rfl := Option.some.inj he
      simpa [received] using h
  | cons action rest ih =>
      obtain ⟨next, hs, hr⟩ := Option.bind_eq_some_iff.mp he
      have hrest := ih (h.step action hs) hr
      have hsplit : received [action] ++ received rest = received (action :: rest) := by
        rw [received, received, received, ← List.filterMap_append, List.singleton_append]
      rwa [List.append_assoc, hsplit] at hrest

theorem paired_start {config : RemoteRuleSetConfig} {response : Result RuleSetFetchResult}
    {service : RemoteService}
    (h : prepareRemote parseExtendedJson iter zlib parseDuration config (some response) =
      .ok service) :
    Paired parseExtendedJson iter zlib service [response] (start service) := by
  simp only [prepareRemote, Result.bind_eq_ok] at h
  obtain ⟨_, _, _, _, _, _, format, _, _, _, _, _, fetched, hfetched, result, hresult, hservice⟩ := h
  obtain rfl : response = fetched := Except.ok.inj hfetched
  have hresponse := Result.withContext_eq_ok.mp hresult
  cases result with
  | notModified => cases hservice
  | modified content etag =>
      obtain ⟨rules, hrules, hservice'⟩ := Result.bind_eq_ok.mp hservice
      obtain rfl := Except.ok.inj hservice'
      have hcompiled := Result.withContext_eq_ok.mp hrules
      refine ⟨rfl, rfl, ?_, ?_⟩
      · rw [hresponse]
        simp only [lastAccepted, List.filterMap_cons, List.filterMap_nil, accepted, hcompiled]
        rfl
      · intro other ho
        cases ho

-- Whatever the fetcher answers and whenever the task is cancelled, the rules in force
-- and the ETag are those of the last modified response that compiled, the one of
-- `prepare_rule_set` being the first. Any other response changes neither.
theorem update_keeps_pair {config : RemoteRuleSetConfig} {response : Result RuleSetFetchResult}
    {service : RemoteService}
    (hprepared : prepareRemote parseExtendedJson iter zlib parseDuration config (some response) =
      .ok service)
    (actions : List Action) {this : RemoteRuleSet}
    (hrun : Run.exec (RemoteRuleSet.step parseExtendedJson iter zlib) (start service) actions =
      some this) :
    lastAccepted parseExtendedJson iter zlib service (response :: received actions) =
        some (this.service.state, this.service.etag) ∧
      (∀ etag, this.task = .fetching etag → etag = this.service.etag) ∧
      ∀ answer next, this.step parseExtendedJson iter zlib (.responded answer) = some next →
        accepted parseExtendedJson iter zlib service answer = none → next.service = this.service := by
  have hpaired := paired_of_exec (paired_start hprepared) actions hrun
  refine ⟨hpaired.last, hpaired.asked, fun answer next hs hrefused => ?_⟩
  rw [← accepted_congr hpaired.tag hpaired.format] at hrefused
  simp only [RemoteRuleSet.step] at hs
  split at hs
  · obtain rfl := Option.some.inj hs
    exact handleResponse_refused hrefused
  · cases hs

-- A source of one rule, under the names `a` and `b`.
def sampleSource (text : String) : Result RuleSetSource :=
  if text = "a" then .ok { version := 5, rules := [{ port := [443] }] }
  else if text = "b" then .ok { version := 5, rules := [{ port := [80] }] }
  else Result.bail "expected value"

def sampleConfig : RemoteRuleSetConfig :=
  { tag := "r", url := "https://example.com/r.json", format := "source" }

def sampleService : RemoteService where
  tag := "r"
  url := "https://example.com/r.json"
  format := .source
  updateInterval := 24 * 60 * 60 * 1000000000
  state := [.default { destinationPorts := { exact := [443] } }]
  etag := some "1"

def sampleActions : List Action :=
  [.slept, .responded (.ok (.modified [98] (some "2"))), .slept, .responded (.ok .notModified),
    .slept, .responded (.ok (.modified [99] (some "3"))), .slept, .responded (.error ["timeout"]),
    .slept, .cancelled]

theorem update_keeps_pair_sample :
    lastAccepted sampleSource id (·, none) sampleService
        (.ok (.modified [97] (some "1")) :: received sampleActions) =
      some ([.default { destinationPorts := { exact := [80] } }], some "2") := by
  have hprepared : prepareRemote sampleSource id (·, none) (fun _ => .ok 0) sampleConfig
      (some (.ok (.modified [97] (some "1")))) = .ok sampleService := rfl
  exact (update_keeps_pair hprepared sampleActions rfl).1

end RemoteRuleSet

end

end SingBox.Core
