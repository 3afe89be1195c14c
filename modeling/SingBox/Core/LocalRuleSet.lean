import SingBox.Library.Reader
import SingBox.Library.Run

namespace SingBox.Core

open Library

structure FileFingerprint where
  length : UInt64
  modified : Option Nat
  device : UInt64
  inode : UInt64
  changedSeconds : Int64
  changedNanoseconds : Int64
deriving DecidableEq

-- The local branch of `prepare_rule_set` and, after it, `watch_local_rule_set`.
-- `preparing` is about to read the file, `prepared` about to inspect it, `waiting`
-- stands between two ticks and `reloading` is about to read a changed file.
inductive ReloadTask (Rules : Type) where
  | preparing
  | prepared (rules : Rules)
  | failed
  | waiting (fingerprint : FileFingerprint)
  | reloading (fingerprint : FileFingerprint)
deriving DecidableEq

-- A file is known by its fingerprint: equal fingerprints mean equal content.
-- `rules` are the ones in the `CompiledRuleSet`, once there is one.
structure LocalRuleSet (Rules : Type) where
  file : Option FileFingerprint
  task : ReloadTask Rules
  rules : Option Rules
deriving DecidableEq

namespace LocalRuleSet

-- `write` is someone else's: it creates, replaces or deletes the file. The others
-- are steps of the task, which may fail whatever the file is like.
inductive Action where
  | write (file : Option FileFingerprint)
  | read (fails : Bool)
  | inspect (fails : Bool)
deriving DecidableEq

section

variable {Rules : Type} (contentOf : FileFingerprint → Bytes)
  (decodeAndCompile : Bytes → Option Rules)

def start (file : Option FileFingerprint) : LocalRuleSet Rules :=
  { file, task := .preparing, rules := none }

-- `tokio::fs::read` and `file_fingerprint`.
def readFile (this : LocalRuleSet Rules) (fails : Bool) : Option Bytes :=
  if fails then none else this.file.map contentOf

def fileFingerprint (this : LocalRuleSet Rules) (fails : Bool) : Option FileFingerprint :=
  if fails then none else this.file

def step (this : LocalRuleSet Rules) : Action → Option (LocalRuleSet Rules)
  | .write file => some { this with file }
  | .read fails =>
      match this.task with
      | .preparing =>
          match (this.readFile contentOf fails).bind decodeAndCompile with
          | some rules => some { this with task := .prepared rules }
          | none => some { this with task := .failed }
      | .reloading fingerprint =>
          match (this.readFile contentOf fails).bind decodeAndCompile with
          | some rules => some { this with task := .waiting fingerprint, rules := some rules }
          | none => some { this with task := .waiting fingerprint }
      | _ => none
  | .inspect fails =>
      match this.task with
      | .prepared rules =>
          match this.fileFingerprint fails with
          | some fingerprint =>
              some { this with task := .waiting fingerprint, rules := some rules }
          | none => some { this with task := .failed }
      | .waiting fingerprint =>
          match this.fileFingerprint fails with
          | some current =>
              if current = fingerprint then some this
              else some { this with task := .reloading current }
          | none => some this
      | _ => none

-- A file with this fingerprint compiles to these rules, if it compiles at all.
def CompilesTo (fingerprint : FileFingerprint) (rules : Option Rules) : Prop :=
  ∀ compiled, decodeAndCompile (contentOf fingerprint) = some compiled → rules = some compiled

-- Between ticks, an unchanged fingerprint means that the file is in force.
def Current (this : LocalRuleSet Rules) : Prop :=
  ∀ fingerprint, this.task = .waiting fingerprint → this.file = some fingerprint →
    CompilesTo contentOf decodeAndCompile fingerprint this.rules

-- The file that `prepare_rule_set` inspects is still the one it has read, a read
-- after a change does not fail with that change on disk, and the fingerprint on
-- record does not come back with other rules in force.
def Follows (this : LocalRuleSet Rules) : Action → Prop
  | .inspect false => ∀ rules fingerprint, this.task = .prepared rules →
      this.file = some fingerprint →
        CompilesTo contentOf decodeAndCompile fingerprint (some rules)
  | .read true => ∀ fingerprint, this.task = .reloading fingerprint →
      this.file = some fingerprint →
        CompilesTo contentOf decodeAndCompile fingerprint this.rules
  | .write (some fingerprint) => this.task = .waiting fingerprint →
      CompilesTo contentOf decodeAndCompile fingerprint this.rules
  | _ => True

variable {contentOf decodeAndCompile}

theorem current_start (file : Option FileFingerprint) :
    (start file : LocalRuleSet Rules).Current contentOf decodeAndCompile := by
  intro fingerprint ht
  cases ht

-- A state that is not between ticks is current.
theorem current_of_busy {this : LocalRuleSet Rules}
    (h : ∀ fingerprint, this.task ≠ .waiting fingerprint) :
    this.Current contentOf decodeAndCompile := by
  intro fingerprint ht
  exact absurd ht (h fingerprint)

theorem current_waiting {this : LocalRuleSet Rules} {fingerprint : FileFingerprint}
    (ht : this.task = .waiting fingerprint) :
    this.Current contentOf decodeAndCompile ↔
      (this.file = some fingerprint →
        CompilesTo contentOf decodeAndCompile fingerprint this.rules) := by
  constructor
  · intro h hf
    exact h fingerprint ht hf
  · intro h other ho hf
    obtain rfl : fingerprint = other := ReloadTask.waiting.inj (ht.symm.trans ho)
    exact h hf

theorem follows_write_iff {this : LocalRuleSet Rules} (file : Option FileFingerprint) :
    this.Follows contentOf decodeAndCompile (.write file) ↔
      { this with file }.Current contentOf decodeAndCompile := by
  cases file with
  | none =>
      refine ⟨fun _ other ht hf => ?_, fun _ => trivial⟩
      cases hf
  | some fingerprint =>
      constructor
      · intro hw other ht hf
        obtain rfl := Option.some.inj hf
        exact hw ht
      · intro hn ht
        exact hn fingerprint ht rfl

theorem follows_read_iff {this next : LocalRuleSet Rules} (fails : Bool)
    (hs : this.step contentOf decodeAndCompile (.read fails) = some next) :
    this.Follows contentOf decodeAndCompile (.read fails) ↔
      next.Current contentOf decodeAndCompile := by
  simp only [step] at hs
  split at hs
  · rename_i ht
    -- the first load: neither outcome stands between two ticks
    have hbusy : next.Current contentOf decodeAndCompile := by
      split at hs
      all_goals
        obtain rfl := Option.some.inj hs
        exact current_of_busy (by simp)
    refine ⟨fun _ => hbusy, fun _ => ?_⟩
    cases fails with
    | false => trivial
    | true =>
        intro fingerprint hr
        cases ht.symm.trans hr
  · rename_i fingerprint ht
    cases fails with
    | true =>
        obtain rfl : { this with task := .waiting fingerprint } = next := by
          simpa [readFile] using hs
        rw [current_waiting rfl]
        constructor
        · intro h
          exact h fingerprint ht
        · intro h other ho
          obtain rfl : fingerprint = other := ReloadTask.reloading.inj (ht.symm.trans ho)
          exact h
    | false =>
        refine ⟨fun _ => ?_, fun _ => trivial⟩
        split at hs
        · rename_i rules hr
          obtain rfl := Option.some.inj hs
          rw [current_waiting rfl]
          intro hf compiled hc
          have hf : this.file = some fingerprint := hf
          simp only [readFile, hf, Bool.false_eq_true, if_false, Option.map_some,
            Option.bind_some, hc] at hr
          exact hr.symm
        · rename_i hr
          obtain rfl := Option.some.inj hs
          rw [current_waiting rfl]
          intro hf compiled hc
          have hf : this.file = some fingerprint := hf
          simp [readFile, hf, hc] at hr
  · cases hs

theorem follows_inspect_iff {this next : LocalRuleSet Rules} (fails : Bool)
    (h : this.Current contentOf decodeAndCompile)
    (hs : this.step contentOf decodeAndCompile (.inspect fails) = some next) :
    this.Follows contentOf decodeAndCompile (.inspect fails) ↔
      next.Current contentOf decodeAndCompile := by
  simp only [step] at hs
  split at hs
  · rename_i rules ht
    split at hs
    · rename_i fingerprint hp
      obtain rfl := Option.some.inj hs
      rw [current_waiting rfl]
      cases fails with
      | true => simp [fileFingerprint] at hp
      | false =>
          have hf : this.file = some fingerprint := by simpa [fileFingerprint] using hp
          constructor
          · intro hfollows _
            exact hfollows rules fingerprint ht hf
          · intro hc other found ho hfound
            obtain rfl : rules = other := ReloadTask.prepared.inj (ht.symm.trans ho)
            obtain rfl : fingerprint = found := Option.some.inj (hf.symm.trans hfound)
            exact hc hf
    · rename_i hp
      obtain rfl := Option.some.inj hs
      refine ⟨fun _ => current_of_busy (by simp), fun _ => ?_⟩
      cases fails with
      | true => trivial
      | false =>
          intro other found _ hfound
          simp [fileFingerprint, hfound] at hp
  · rename_i fingerprint ht
    refine ⟨fun _ => ?_, fun _ => ?_⟩
    · split at hs
      · split at hs
        · exact Option.some.inj hs ▸ h
        · exact Option.some.inj hs ▸ current_of_busy (by simp)
      · exact Option.some.inj hs ▸ h
    · cases fails with
      | true => trivial
      | false =>
          intro rules _ hr
          cases ht.symm.trans hr
  · cases hs

-- Steps that the task is not at are not spoken about.
theorem follows_of_refused {this : LocalRuleSet Rules} (action : Action)
    (hs : this.step contentOf decodeAndCompile action = none) :
    this.Follows contentOf decodeAndCompile action := by
  cases action with
  | write file => cases hs
  | read fails =>
      cases fails with
      | false => trivial
      | true =>
          intro fingerprint ht
          simp only [step, ht] at hs
          split at hs <;> cases hs
  | inspect fails =>
      cases fails with
      | true => trivial
      | false =>
          intro rules fingerprint ht
          simp only [step, ht] at hs
          split at hs <;> cases hs

-- Along a run the file is in force at every moment between ticks, if and only if
-- every step of the run follows the file.
theorem current_iff_follows (file : Option FileFingerprint) (actions : List Action) :
    Run.Always (step contentOf decodeAndCompile) (Current contentOf decodeAndCompile) (start file)
        actions ↔
      Run.Meets (step contentOf decodeAndCompile) (Follows contentOf decodeAndCompile) (start file)
        actions := by
  refine Run.always_iff_meets ?_ (fun _ => follows_of_refused) _ actions (current_start file)
  intro this action next h hs
  cases action with
  | write written => exact Option.some.inj hs ▸ follows_write_iff written
  | read fails => exact follows_read_iff fails hs
  | inspect fails => exact follows_inspect_iff fails h hs

end

-- Two versions of a file, each of which compiles to its own bytes.
def firstVersion : FileFingerprint := ⟨1, some 10, 1, 7, 10, 0⟩
def secondVersion : FileFingerprint := ⟨1, some 11, 1, 8, 11, 0⟩

def versionBytes (fingerprint : FileFingerprint) : Bytes :=
  if fingerprint = secondVersion then [2] else [1]

-- The file is replaced after `prepare_rule_set` has read it: the fingerprint of the
-- second version goes on record with the rules of the first. The same happens
-- when the watcher's read fails once.
theorem not_current :
    ¬Run.Always (step versionBytes some) (Current versionBytes some) (start (some firstVersion))
        [.read false, .write (some secondVersion), .inspect false] ∧
      ¬Run.Always (step versionBytes some) (Current versionBytes some) (start (some firstVersion))
        [.read false, .inspect false, .write (some secondVersion), .inspect false, .read true] := by
  constructor
  · intro h
    have hlast := (((h.2 _ rfl).2 _ rfl).2 _ rfl) secondVersion rfl rfl [2] rfl
    cases hlast
  · intro h
    have hlast := (((((h.2 _ rfl).2 _ rfl).2 _ rfl).2 _ rfl).2 _ rfl) secondVersion rfl rfl [2] rfl
    cases hlast

end LocalRuleSet

end SingBox.Core
