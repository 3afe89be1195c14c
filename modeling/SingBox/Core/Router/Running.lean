import SingBox.Core.Router.Build

namespace SingBox.Core

open Library

-- A task of `Router::start`.
inductive ServiceTask where
  | «local» (service : LocalService) (watch : LocalRuleSet CompiledRuleSet)
  | remote (update : RemoteRuleSet)

namespace ServiceTask

-- `write` is someone else's: it creates, replaces or deletes the file at a path.
inductive Action where
  | read (fails : Bool)
  | inspect (fails : Bool)
  | update (action : RemoteRuleSet.Action)
  | write (path : String) (file : Option FileFingerprint)

def tag : ServiceTask → String
  | .local service _ => service.tag
  | .remote update => update.service.tag

-- The rules that the task has in common with the router.
def state : ServiceTask → CompiledRuleSet
  | .local service watch => watch.rules.getD service.state
  | .remote update => update.service.state

-- `files` are the files as they are when the task is spawned.
def start (files : String → Option FileFingerprint) : RuleSetService → ServiceTask
  | .local service =>
      .local service
        { file := files service.path, task := .waiting service.fingerprint,
          rules := some service.state }
  | .remote service => .remote (RemoteRuleSet.start service)

def write (path : String) (file : Option FileFingerprint) : ServiceTask → ServiceTask
  | .local service watch =>
      if path = service.path then .local service { watch with file } else .local service watch
  | .remote update => .remote update

section

variable (parseExtendedJson : String → Result RuleSetSource)
  (iter : List String → List String) (zlib : Bytes → Bytes × Option String)
  (contentOf : FileFingerprint → Bytes)

def decodeLocal (service : LocalService) (content : Bytes) : Option CompiledRuleSet :=
  (decodeAndCompileRuleSet parseExtendedJson iter zlib service.tag service.format
    content).toOption

def step : ServiceTask → Action → Option ServiceTask
  | .local service watch, .read fails =>
      (watch.step contentOf (decodeLocal parseExtendedJson iter zlib service) (.read fails)).map
        (.local service)
  | .local service watch, .inspect fails =>
      (watch.step contentOf (decodeLocal parseExtendedJson iter zlib service) (.inspect fails)).map
        (.local service)
  | .remote update, .update action =>
      (update.step parseExtendedJson iter zlib action).map .remote
  | task, .write path file => some (task.write path file)
  | .local _ _, .update _ => none
  | .remote _, .read _ => none
  | .remote _, .inspect _ => none

end

end ServiceTask

-- The router while its tasks run.
structure Running (ω : Type) [OutboundComponent ω] where
  router : Router
  outbounds : OutboundManager ω
  tasks : List ServiceTask

namespace Running

variable {ω : Type} [OutboundComponent ω]

-- `service` is a step of one of the tasks. Outbounds are added, never removed.
inductive Action (ω : Type) where
  | service (index : Nat) (action : ServiceTask.Action)
  | write (path : String) (file : Option FileFingerprint)
  | add (outbound : ω)

def start (router : Router) (services : List RuleSetService) (outbounds : OutboundManager ω)
    (files : String → Option FileFingerprint) : Running ω where
  router := router
  outbounds := outbounds
  tasks := services.map (ServiceTask.start files)

section

variable (parseExtendedJson : String → Result RuleSetSource)
  (iter : List String → List String) (zlib : Bytes → Bytes × Option String)
  (contentOf : FileFingerprint → Bytes)

-- A file is written under all tasks at once, whichever of them look at its path.
def step (this : Running ω) : Action ω → Option (Running ω)
  | .service _ (.write _ _) => none
  | .service index action => do
      let task ← this.tasks[index]?
      let next ← task.step parseExtendedJson iter zlib contentOf action
      some { this with
        router := { this.router with
          ruleSets := Function.update this.router.ruleSets next.tag (some next.state) }
        tasks := this.tasks.set index next }
  | .write path file => some { this with tasks := this.tasks.map (.write path file) }
  | .add outbound => some { this with outbounds := (this.outbounds.add outbound).2 }

end

end Running

section

variable {parseExtendedJson : String → Result RuleSetSource}
  {iter : List String → List String} {zlib : Bytes → Bytes × Option String}
  {parseDuration : String → Result Nat} {outside : Outside} {contentOf : FileFingerprint → Bytes}

theorem RemoteRuleSet.handleResponse_tag (service : RemoteService)
    (response : Result RuleSetFetchResult) :
    (handleResponse parseExtendedJson iter zlib service response).tag = service.tag := by
  unfold handleResponse
  split
  · rfl
  · split <;> rfl
  · rfl

theorem RemoteRuleSet.step_tag {this next : RemoteRuleSet} {action : Action}
    (h : this.step parseExtendedJson iter zlib action = some next) :
    next.service.tag = this.service.tag := by
  cases action with
  | cancelled =>
      simp only [step] at h
      split at h
      · cases h
      · exact Option.some.inj h ▸ rfl
  | slept =>
      simp only [step] at h
      split at h
      · exact Option.some.inj h ▸ rfl
      · cases h
  | responded response =>
      simp only [step] at h
      split at h
      · exact Option.some.inj h ▸ handleResponse_tag _ response
      · cases h

namespace ServiceTask

theorem write_local (path : String) (file : Option FileFingerprint) (service : LocalService)
    (watch : LocalRuleSet CompiledRuleSet) :
    (ServiceTask.local service watch).write path file =
      if path = service.path then .local service { watch with file } else .local service watch :=
  rfl

@[simp] theorem write_tag (path : String) (file : Option FileFingerprint) (task : ServiceTask) :
    (task.write path file).tag = task.tag := by
  cases task with
  | «local» service watch =>
      rw [write_local]
      split <;> rfl
  | remote update => rfl

@[simp] theorem write_state (path : String) (file : Option FileFingerprint) (task : ServiceTask) :
    (task.write path file).state = task.state := by
  cases task with
  | «local» service watch =>
      rw [write_local]
      split <;> rfl
  | remote update => rfl

theorem step_tag {task next : ServiceTask} {action : Action}
    (h : task.step parseExtendedJson iter zlib contentOf action = some next) :
    next.tag = task.tag := by
  cases task with
  | «local» service watch =>
      cases action with
      | read fails =>
          obtain ⟨_, _, rfl⟩ := Option.map_eq_some_iff.mp h
          rfl
      | inspect fails =>
          obtain ⟨_, _, rfl⟩ := Option.map_eq_some_iff.mp h
          rfl
      | update action => cases h
      | write path file => exact Option.some.inj h ▸ write_tag path file _
  | remote update =>
      cases action with
      | read fails => cases h
      | inspect fails => cases h
      | update action =>
          obtain ⟨later, hlater, rfl⟩ := Option.map_eq_some_iff.mp h
          exact RemoteRuleSet.step_tag hlater
      | write path file => exact Option.some.inj h ▸ rfl

end ServiceTask

namespace Running

variable {ω : Type} [OutboundComponent ω]

theorem step_service {this next : Running ω} {index : Nat} {action : ServiceTask.Action}
    (hs : this.step parseExtendedJson iter zlib contentOf (.service index action) = some next) :
    ∃ task, this.tasks[index]? = some task ∧ ∃ later,
      task.step parseExtendedJson iter zlib contentOf action = some later ∧
      next = { this with
        router := { this.router with
          ruleSets := Function.update this.router.ruleSets later.tag (some later.state) }
        tasks := this.tasks.set index later } := by
  have hs : (do
      let task ← this.tasks[index]?
      let next ← task.step parseExtendedJson iter zlib contentOf action
      some { this with
        router := { this.router with
          ruleSets := Function.update this.router.ruleSets next.tag (some next.state) }
        tasks := this.tasks.set index next }) = some next := by
    cases action with
    | write path file => cases hs
    | read fails => exact hs
    | inspect fails => exact hs
    | update action => exact hs
  obtain ⟨task, htask, hs⟩ := Option.bind_eq_some_iff.mp hs
  obtain ⟨later, hlater, hs⟩ := Option.bind_eq_some_iff.mp hs
  exact ⟨task, htask, later, hlater, (Option.some.inj hs).symm⟩

-- What a run keeps of the router it has started with.
structure Serves (origin this : Running ω) : Prop where
  rules : this.router.rules = origin.router.rules
  finalOutbound : this.router.finalOutbound = origin.router.finalOutbound
  tags : this.tasks.map ServiceTask.tag = origin.tasks.map ServiceTask.tag
  shared : ∀ (index : Nat) (task : ServiceTask), this.tasks[index]? = some task →
    this.router.ruleSets task.tag = some task.state
  others : ∀ tag ∉ origin.tasks.map ServiceTask.tag,
    this.router.ruleSets tag = origin.router.ruleSets tag
  outbounds : ∀ tag outbound, origin.outbounds.entries tag = some outbound →
    this.outbounds.entries tag = some outbound

theorem Serves.step {origin this next : Running ω} {action : Action ω}
    (h : origin.Serves this) (hnodup : (origin.tasks.map ServiceTask.tag).Nodup)
    (hs : this.step parseExtendedJson iter zlib contentOf action = some next) :
    origin.Serves next := by
  cases action with
  | service index action =>
      obtain ⟨task, htask, later, hlater, rfl⟩ := step_service hs
      have htag := ServiceTask.step_tag hlater
      have hmem : later.tag ∈ origin.tasks.map ServiceTask.tag := by
        rw [← h.tags, htag]
        exact List.mem_map_of_mem (List.mem_of_getElem? htask)
      have htags : (this.tasks.set index later).map ServiceTask.tag =
          origin.tasks.map ServiceTask.tag := by
        rw [List.map_set, htag, ← h.tags]
        refine List.ext_getElem? fun other => ?_
        by_cases hother : index = other
        · subst hother
          obtain ⟨hlt, rfl⟩ := List.getElem?_eq_some_iff.mp htask
          simp [hlt]
        · rw [List.getElem?_set_ne hother]
      refine ⟨h.rules, h.finalOutbound, htags, fun other found hfound => ?_, fun tag hnot => ?_,
        h.outbounds⟩
      · by_cases hother : index = other
        · subst hother
          obtain ⟨hlt, -⟩ := List.getElem?_eq_some_iff.mp htask
          rw [List.getElem?_set_self hlt] at hfound
          obtain rfl := Option.some.inj hfound
          exact Function.update_self ..
        · rw [List.getElem?_set_ne hother] at hfound
          refine (Function.update_of_ne (fun heq => hother ?_) _ _).trans (h.shared other found hfound)
          -- the tags tell the tasks apart
          have hindex : index < (this.tasks.map ServiceTask.tag).length := by
            rw [List.length_map]
            exact (List.getElem?_eq_some_iff.mp htask).1
          refine (List.getElem?_inj hindex (h.tags ▸ hnodup)).mp ?_
          rw [List.getElem?_map, List.getElem?_map, htask, hfound, Option.map_some, Option.map_some,
            heq, htag]
      · have hne : tag ≠ later.tag := fun heq => hnot (heq ▸ hmem)
        exact (Function.update_of_ne hne _ _).trans (h.others tag hnot)
  | write path file =>
      obtain rfl := Option.some.inj hs
      refine ⟨h.rules, h.finalOutbound, ?_, fun index task htask => ?_, h.others, h.outbounds⟩
      · rw [← h.tags, List.map_map]
        exact List.map_congr_left fun task _ => ServiceTask.write_tag path file task
      · obtain ⟨before, hbefore, rfl⟩ := Option.map_eq_some_iff.mp (List.getElem?_map ▸ htask)
        rw [ServiceTask.write_tag, ServiceTask.write_state]
        exact h.shared index before hbefore
  | add outbound =>
      obtain rfl := Option.some.inj hs
      refine ⟨h.rules, h.finalOutbound, h.tags, h.shared, h.others, fun tag found hfound => ?_⟩
      exact Manager.entries_add (h.outbounds tag found hfound) "outbound" outbound

theorem Serves.refl {origin : Running ω}
    (hshared : ∀ task ∈ origin.tasks, origin.router.ruleSets task.tag = some task.state) :
    origin.Serves origin :=
  ⟨rfl, rfl, rfl, fun _ task htask => hshared task (List.mem_of_getElem? htask), fun _ _ => rfl,
    fun _ _ => id⟩

theorem serves_of_exec {origin final : Running ω} {actions : List (Action ω)}
    (hshared : ∀ task ∈ origin.tasks, origin.router.ruleSets task.tag = some task.state)
    (hnodup : (origin.tasks.map ServiceTask.tag).Nodup)
    (he : Run.exec (step parseExtendedJson iter zlib contentOf) origin actions = some final) :
    origin.Serves final :=
  Run.invariant (fun _ _ _ hi hs => Serves.step hi hnodup hs) origin actions final (.refl hshared) he

end Running

namespace ServiceTask

-- The answers among the steps of a task.
def answer : Action → Option RemoteRuleSet.Action
  | .update action => some action
  | _ => none

end ServiceTask

namespace Router

variable {ω : Type} [OutboundComponent ω]

theorem prepareRuleSet_service {config : RuleSetConfig}
    {prepared : CompiledRuleSet × Option RuleSetService} {service : RuleSetService}
    (files : String → Option FileFingerprint)
    (h : prepareRuleSet parseExtendedJson iter zlib parseDuration outside config = .ok prepared)
    (hservice : prepared.2 = some service) :
    (ServiceTask.start files service).tag = config.tag ∧
      (ServiceTask.start files service).state = prepared.1 := by
  obtain ⟨-, -, hnone⟩ | ⟨found, hfound, -, rfl⟩ | ⟨found, hfound, -, rfl⟩ := prepareRuleSet_cases h
  · cases hnone.symm.trans hservice
  · obtain rfl := Option.some.inj hservice
    exact ⟨(prepareLocal_spec hfound).1, rfl⟩
  · obtain rfl := Option.some.inj hservice
    exact ⟨(prepareRemote_spec hfound).1, rfl⟩

-- The tasks are told apart by their tags.
theorem nodup_tags {sets : List (RuleSetConfig × CompiledRuleSet × Option RuleSetService)}
    (hsets : ∀ set ∈ sets,
      prepareRuleSet parseExtendedJson iter zlib parseDuration outside set.1 = .ok set.2)
    (hnodup : (sets.map fun set => set.1.tag).Nodup) (files : String → Option FileFingerprint) :
    (((sets.filterMap fun set => set.2.2).map (ServiceTask.start files)).map
      ServiceTask.tag).Nodup := by
  refine List.Nodup.sublist ?_ hnodup
  clear hnodup
  induction sets with
  | nil => exact .slnil
  | cons set sets ih =>
      obtain ⟨hset, hsets⟩ := List.forall_mem_cons.mp hsets
      have ih := ih hsets
      cases hservice : set.2.2 with
      | none =>
          simp only [List.filterMap_cons, hservice, List.map_cons]
          exact ih.cons _
      | some service =>
          simp only [List.filterMap_cons, hservice, List.map_cons,
            (prepareRuleSet_service files hset hservice).1]
          exact ih.cons_cons _

-- The answers that the fetcher gives to one task.
def answers (index : Nat) (actions : List (Running.Action ω)) : List (Result RuleSetFetchResult) :=
  actions.filterMap fun
    | .service other (.update (.responded response)) =>
        if other = index then some response else none
    | _ => none

section

variable {outbounds : OutboundManager ω} {config : RouteConfig} {defaultOutbound : String}
  {router : Router} {services : List RuleSetService} {files : String → Option FileFingerprint}
  {actions : List (Running.Action ω)} {this : Running ω}

variable (hbuild : buildWithFetcher parseExtendedJson iter zlib parseDuration outside outbounds
  config defaultOutbound = .ok (router, services))

include hbuild

theorem shared_of_build (files : String → Option FileFingerprint) :
    (∀ task ∈ services.map (ServiceTask.start files), router.ruleSets task.tag = some task.state) ∧
      ((services.map (ServiceTask.start files)).map ServiceTask.tag).Nodup := by
  obtain ⟨sets, -, hsets, hnodup, htable, rfl⟩ := prepared_of_build hbuild
  refine ⟨fun task htask => ?_, nodup_tags hsets hnodup files⟩
  obtain ⟨service, hservice, rfl⟩ := List.mem_map.mp htask
  obtain ⟨set, hset, hsome⟩ := List.mem_filterMap.mp hservice
  obtain ⟨htag, hstate⟩ := prepareRuleSet_service files (hsets set hset) hsome
  rw [htable, htag, hstate]
  exact Prepared.putAll_mem hnodup hset

theorem serves_of_build
    (hrun : Run.exec (Running.step parseExtendedJson iter zlib contentOf)
      (Running.start router services outbounds files) actions = some this) :
    (Running.start router services outbounds files).Serves this :=
  Running.serves_of_exec (shared_of_build hbuild files).1 (shared_of_build hbuild files).2 hrun

-- The tags of the rule-sets stay those of the configuration.
theorem tags_of_run
    (hserves : (Running.start router services outbounds files).Serves this) (tag : String) :
    (this.router.ruleSets tag).isSome ↔ tag ∈ config.ruleSet.map RuleSetConfig.tag := by
  obtain ⟨sets, hfst, hsets, hnodup, htable, hservices⟩ := prepared_of_build hbuild
  have hstart : (router.ruleSets tag).isSome ↔ tag ∈ config.ruleSet.map RuleSetConfig.tag := by
    rw [htable, ← hfst, List.map_map]
    exact Prepared.putAll_isSome hnodup tag
  by_cases htask : tag ∈ (Running.start router services outbounds files).tasks.map ServiceTask.tag
  · have hbefore : (router.ruleSets tag).isSome := by
      obtain ⟨task, hmem, rfl⟩ := List.mem_map.mp htask
      exact Option.isSome_of_eq_some ((shared_of_build hbuild files).1 task hmem)
    have hafter : (this.router.ruleSets tag).isSome := by
      obtain ⟨task, hmem, rfl⟩ := List.mem_map.mp (hserves.tags ▸ htask)
      obtain ⟨index, hindex⟩ := List.getElem?_of_mem hmem
      exact Option.isSome_of_eq_some (hserves.shared index task hindex)
    exact iff_of_true hafter (hstart.mp hbefore)
  · rw [hserves.others tag htask]
    exact hstart

-- Whatever the rules of a router that has been built decide, there is an outbound for it.
theorem lands_of_decides
    (hserves : (Running.start router services outbounds files).Serves this) {δ : Type}
    (dial : ω → Session → Result δ) {decision : Result String} (session : Session)
    (hdecides : Decides this.router.finalOutbound this.router.rules decision) :
    Lands this.outbounds dial (connectSelected this.outbounds dial (decision, session)) := by
  obtain ⟨⟨-, -, hfinal⟩, -, -, _, -, -, -, hrules⟩ := buildWithFetcher_eq_ok.mp hbuild
  have hknown : ∀ tag, (outbounds.entries tag).isSome →
      Lands this.outbounds dial (connectSelected this.outbounds dial (.ok tag, session)) := by
    intro tag htag
    obtain ⟨outbound, hentry⟩ := Option.isSome_iff_exists.mp htag
    exact lands_of_entry (hserves.outbounds tag outbound hentry) dial session
  rw [hserves.rules, hserves.finalOutbound] at hdecides
  obtain rfl | ⟨rule, hrule, hdecision⟩ := hdecides
  · exact hknown _ hfinal
  · obtain ⟨source, -, hcompiled⟩ := Result.mapM_mem hrules hrule
    obtain ⟨hcompiled, -, hroute⟩ := compileRule_eq_ok.mp hcompiled
    cases haction : rule.action with
    | routeOptions address port =>
        rw [haction] at hdecision
        cases hdecision
    | route outbound =>
        rw [haction] at hdecision
        obtain rfl := Option.some.inj hdecision
        exact hknown outbound (hroute outbound haction)
    | reject method =>
        rw [haction] at hdecision
        obtain rfl := Option.some.inj hdecision
        exact .inl ⟨method, compile_method hcompiled haction, rfl⟩

-- From a router that has been built no run leads to one that selects what is not there. The
-- rule-sets keep their tags, and a connection is rejected by a rule or handed to an outbound,
-- even if rule-sets are replaced while `select` reads them.
theorem connect_lands
    (hrun : Run.exec (Running.step parseExtendedJson iter zlib contentOf)
      (Running.start router services outbounds files) actions = some this) :
    (∀ tag, (this.router.ruleSets tag).isSome ↔ tag ∈ config.ruleSet.map RuleSetConfig.tag) ∧
    (∀ rule ∈ this.router.rules, ∀ tag ∈ rule.matcher.ruleSets,
      (this.router.ruleSets tag).isSome) ∧
    ∀ {δ : Type} (dial : ω → Session → Result δ) (session : Session),
      ((∀ tag, session.outbound = some tag → (this.outbounds.entries tag).isSome) →
        Lands this.outbounds dial (this.router.connect this.outbounds dial session)) ∧
      ∀ reads ruleSets decision rewritten,
        Run.exec (Selecting.step this.router.finalOutbound)
            (Selecting.start this.router.ruleSets this.router.rules session) reads =
          some (⟨ruleSets, .done decision rewritten⟩ : Selecting) →
        Lands this.outbounds dial
          (connectSelected this.outbounds dial (decision, rewritten)) := by
  have hserves := serves_of_build hbuild hrun
  refine ⟨tags_of_run hbuild hserves, fun rule hrule tag htag => ?_, fun dial session => ⟨?_, ?_⟩⟩
  · rw [tags_of_run hbuild hserves, ← tags_of_run hbuild (.refl (shared_of_build hbuild files).1)]
    obtain ⟨-, -, -, _, -, -, -, hrules⟩ := buildWithFetcher_eq_ok.mp hbuild
    rw [hserves.rules] at hrule
    obtain ⟨source, -, hcompiled⟩ := Result.mapM_mem hrules hrule
    exact (compileRule_eq_ok.mp hcompiled).2.1 tag htag
  · intro hknown
    unfold connect
    split
    · rename_i tag htag
      obtain ⟨outbound, hentry⟩ := Option.isSome_iff_exists.mp (hknown tag htag)
      exact lands_of_entry hentry dial session
    · exact lands_of_decides hbuild hserves dial _ (select_decides this.router session)
  · intro reads ruleSets decision rewritten hreads
    have hstart : Within this.router.finalOutbound this.router.rules
        (Selecting.start this.router.ruleSets this.router.rules session).task := fun _ hrule => hrule
    have hwithin := within_of_exec hstart hreads
    exact lands_of_decides hbuild hserves dial rewritten hwithin

end

end Router

end

-- The outbound that refuses every connection.
structure BlockOutbound where
  tag : String
deriving DecidableEq

instance : OutboundComponent BlockOutbound where
  kind _ := "block"
  tag := BlockOutbound.tag
  start _ _ := .ok ()
  close _ := .ok ()
  dependencies _ := []

def BlockOutbound.connect (this : BlockOutbound) (_ : Session) : Result Unit :=
  Result.bail s!"connection blocked by outbound {this.tag}"

namespace Router

def sampleRoute : RouteConfig where
  ruleSet := [{ tag := "ads", rules := [{ port := [25] }] },
    { kind := "remote", tag := "r", url := "https://example.com/r.json", format := "source" }]
  rules := [{ ruleSet := ["ads"], action := "reject" }, { ruleSet := ["r"], outbound := "block" }]

def sampleOutside : Outside where
  read _ := Result.bail "no such file"
  metadata _ := Result.bail "no such file"
  fetch := some fun _ => .ok (.modified [97] (some "1"))

def sampleAds : CompiledRuleSet := [.default { destinationPorts := { exact := [25] } }]

def sampleRouter : Router where
  finalOutbound := "block"
  rules := [{ matcher := { ruleSets := ["ads"] }, action := .reject "default" },
    { matcher := { ruleSets := ["r"] }, action := .route "block" }]
  ruleSets := ((Prepared.new.put "ads" (sampleAds, none)).put "r"
    (RemoteRuleSet.sampleService.state, some (.remote RemoteRuleSet.sampleService))).ruleSets

def sampleOutbounds : OutboundManager BlockOutbound :=
  OutboundManager.withOutbounds [{ tag := "block" }]

-- The updater installs its second answer, while another outbound is added.
def sampleRun : List (Running.Action BlockOutbound) :=
  [.service 0 (.update .slept), .add { tag := "other" },
    .service 0 (.update (.responded (.ok (.modified [98] (some "2")))))]

theorem sample_built :
    buildWithFetcher RemoteRuleSet.sampleSource id (·, none) (fun _ => .ok 0) sampleOutside
        sampleOutbounds sampleRoute "block" =
      .ok (sampleRouter, [.remote RemoteRuleSet.sampleService]) := rfl

def sampleSession : Session where
  network := .tcp
  source := none
  destination := { host := "example.com", port := 80 }
  inbound := "in"

theorem sample_ran : ∃ this,
    Run.exec (Running.step RemoteRuleSet.sampleSource id (·, none) fun _ => [])
        (Running.start sampleRouter [.remote RemoteRuleSet.sampleService] sampleOutbounds
          fun _ => none) sampleRun = some this :=
  ⟨_, rfl⟩

theorem connect_lands_sample : ∃ this,
    Run.exec (Running.step RemoteRuleSet.sampleSource id (·, none) fun _ => [])
        (Running.start sampleRouter [.remote RemoteRuleSet.sampleService] sampleOutbounds
          fun _ => none) sampleRun = some this ∧
      Lands this.outbounds BlockOutbound.connect
        (this.router.connect this.outbounds BlockOutbound.connect sampleSession) := by
  obtain ⟨this, hrun⟩ := sample_ran
  refine ⟨this, hrun, ((connect_lands sample_built hrun).2.2 _ sampleSession).1 fun tag htag => ?_⟩
  cases htag

end Router

end SingBox.Core
