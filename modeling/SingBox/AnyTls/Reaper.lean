import Mathlib.Data.List.Basic
import Mathlib.Order.Basic

namespace SingBox.AnyTls

-- What the idle reaper sees of a session in the list. `lastUsed` is the time under the lock,
-- `none` while somebody else holds it.
structure PooledSession where
  closed : Bool
  active : Nat
  lastUsed : Option Nat
deriving DecidableEq, Repr

-- A tick of the reaper, with the options of the outbound.
structure ReaperTick where
  now : Nat
  timeout : Nat
  minIdle : Nat
deriving DecidableEq, Repr

namespace ReaperTick

def isIdle (session : PooledSession) : Bool := session.active = 0

-- `duration_since` is zero for a time that is later.
def recentlyUsed (this : ReaperTick) (session : PooledSession) : Bool :=
  session.lastUsed.all fun last => this.now - last ≤ this.timeout

-- The sessions that `retain` keeps, and `retired`. `idle` is the variable of the source.
def retain (this : ReaperTick) : Nat → List PooledSession → List PooledSession × List PooledSession
  | _, [] => ([], [])
  | idle, session :: rest =>
      if session.closed then this.retain idle rest
      else if session.active ≠ 0 ∨ idle ≤ this.minIdle then
        let (kept, retired) := this.retain idle rest
        (session :: kept, retired)
      else if this.recentlyUsed session then
        let (kept, retired) := this.retain idle rest
        (session :: kept, retired)
      else
        let (kept, retired) := this.retain (idle - 1) rest
        (kept, session :: retired)

def run (this : ReaperTick) (sessions : List PooledSession) :
    List PooledSession × List PooledSession :=
  this.retain (sessions.countP isIdle) sessions

def isOpen (session : PooledSession) : Bool := !session.closed

def openIdle (session : PooledSession) : Bool := isOpen session && isIdle session

def closedIdle (session : PooledSession) : Bool := session.closed && isIdle session

-- An open session that is not in use and has not been for the time of the timeout.
def mayGo (this : ReaperTick) (session : PooledSession) : Bool :=
  openIdle session && !this.recentlyUsed session

-- No closed session stays, every open one stays or is retired, and only those are retired
-- that may go. The others stay where they are.
structure Parted (this : ReaperTick) (sessions kept retired : List PooledSession) : Prop where
  allOpen : ∀ session ∈ kept, isOpen session
  parted : (kept ++ retired).Perm (sessions.filter isOpen)
  used : kept.filter (!this.mayGo ·) = (sessions.filter isOpen).filter (!this.mayGo ·)
  expired : ∀ session ∈ retired, this.mayGo session

-- What a tick is to do with the sessions of the list.
structure Keeps (this : ReaperTick) (sessions kept retired : List PooledSession) : Prop
    extends this.Parted sessions kept retired where
  enough : min this.minIdle (sessions.countP openIdle) ≤ kept.countP openIdle

-- What it does.
structure Parts (this : ReaperTick) (idle : Nat) (sessions kept retired : List PooledSession) : Prop
    extends this.Parted sessions kept retired where
  count : retired.length = min (sessions.countP this.mayGo) (idle - this.minIdle)

section

variable {this : ReaperTick} {idle : Nat} {sessions kept retired : List PooledSession}
  {session : PooledSession}

theorem Parts.closed (h : this.Parts idle sessions kept retired) (hclosed : session.closed = true) :
    this.Parts idle (session :: sessions) kept retired := by
  have hopen : isOpen session = false := by simp [isOpen, hclosed]
  have hgo : this.mayGo session = false := by simp [mayGo, openIdle, hopen]
  have hfilter : (session :: sessions).filter isOpen = sessions.filter isOpen :=
    List.filter_cons_of_neg (by simp [hopen])
  refine ⟨⟨h.allOpen, hfilter ▸ h.parted, hfilter ▸ h.used, h.expired⟩, ?_⟩
  rw [h.count, List.countP_cons_of_neg (by simp [hgo])]

-- A session that stays may go only if `idle` has come down to the minimum.
theorem Parts.keep (h : this.Parts idle sessions kept retired) (hopen : session.closed = false)
    (hstays : this.mayGo session = true → idle ≤ this.minIdle) :
    this.Parts idle (session :: sessions) (session :: kept) retired := by
  have hisOpen : isOpen session = true := by simp [isOpen, hopen]
  have hfilter : (session :: sessions).filter isOpen = session :: sessions.filter isOpen :=
    List.filter_cons_of_pos hisOpen
  refine ⟨⟨List.forall_mem_cons.mpr ⟨hisOpen, h.allOpen⟩, ?_, ?_, h.expired⟩, ?_⟩
  · rw [hfilter]
    exact h.parted.cons session
  · rw [hfilter, List.filter_cons, List.filter_cons, h.used]
  · rw [h.count, List.countP_cons]
    by_cases hgo : this.mayGo session = true
    · have hle := hstays hgo
      rw [Nat.sub_eq_zero_of_le hle, Nat.min_zero, Nat.min_zero]
    · rw [if_neg hgo, Nat.add_zero]

theorem Parts.retire (h : this.Parts (idle - 1) sessions kept retired)
    (hgo : this.mayGo session = true) (hidle : this.minIdle < idle) :
    this.Parts idle (session :: sessions) kept (session :: retired) := by
  have hisOpen : isOpen session = true := by
    simp only [mayGo, openIdle, Bool.and_eq_true] at hgo
    exact hgo.1.1
  have hfilter : (session :: sessions).filter isOpen = session :: sessions.filter isOpen :=
    List.filter_cons_of_pos hisOpen
  refine ⟨⟨h.allOpen, ?_, ?_, List.forall_mem_cons.mpr ⟨hgo, h.expired⟩⟩, ?_⟩
  · rw [hfilter]
    exact List.perm_middle.trans (h.parted.cons session)
  · rw [hfilter, h.used, List.filter_cons_of_neg (by simp [hgo])]
  · rw [List.length_cons, h.count, List.countP_cons, if_pos hgo]
    omega

end

theorem retain_parts (this : ReaperTick) (idle : Nat) (sessions : List PooledSession) :
    this.Parts idle sessions (this.retain idle sessions).1 (this.retain idle sessions).2 := by
  induction sessions generalizing idle with
  | nil => exact ⟨⟨by simp [retain], by simp [retain], rfl, by simp [retain]⟩, by simp [retain]⟩
  | cons session rest ih =>
      unfold retain
      split
      · rename_i hclosed
        exact (ih idle).closed hclosed
      rename_i hopen
      have hopen : session.closed = false := by simpa using hopen
      split
      · rename_i hstays
        refine (ih idle).keep hopen fun hgo => ?_
        simp only [mayGo, openIdle, isIdle, Bool.and_eq_true, decide_eq_true_eq] at hgo
        exact hstays.resolve_left (not_not_intro hgo.1.2)
      rename_i hleave
      obtain ⟨hactive, hidle⟩ := not_or.mp hleave
      split
      · rename_i hrecent
        refine (ih idle).keep hopen fun hgo => ?_
        simp [mayGo, hrecent] at hgo
      · rename_i hexpired
        have hgo : this.mayGo session = true := by
          simp only [mayGo, openIdle, isOpen, isIdle, hopen, not_not.mp hactive, hexpired]
          rfl
        exact (ih (idle - 1)).retire hgo (Nat.lt_of_not_le hidle)

theorem countP_isIdle (sessions : List PooledSession) :
    sessions.countP isIdle = sessions.countP openIdle + sessions.countP closedIdle := by
  induction sessions with
  | nil => rfl
  | cons session rest ih =>
      obtain ⟨closed, active, lastUsed⟩ := session
      cases closed <;> simp only [List.countP_cons, ih, openIdle, closedIdle, isOpen, isIdle] <;>
        simp <;> omega

theorem openIdle_of_mayGo {this : ReaperTick} {session : PooledSession}
    (h : this.mayGo session = true) : openIdle session = true :=
  ((Bool.and_eq_true _ _).mp h).1

-- A session that is retired is one open idle session less.
theorem Parted.countP_openIdle {this : ReaperTick} {sessions kept retired : List PooledSession}
    (h : this.Parted sessions kept retired) :
    kept.countP openIdle + retired.length = sessions.countP openIdle := by
  have hretired : retired.countP openIdle = retired.length :=
    List.countP_eq_length.mpr fun session hsession => openIdle_of_mayGo (h.expired session hsession)
  have hopen : (sessions.filter isOpen).countP openIdle = sessions.countP openIdle := by
    rw [List.countP_filter]
    refine List.countP_congr fun session _ => ?_
    simp only [openIdle, Bool.and_eq_true]
    exact ⟨And.left, fun h => ⟨h, h.1⟩⟩
  calc
    kept.countP openIdle + retired.length = (kept ++ retired).countP openIdle := by
      rw [List.countP_append, hretired]
    _ = sessions.countP openIdle := (h.parted.countP_eq openIdle).trans hopen

-- Closed sessions without streams count as idle ones. Enough are left if and only if there
-- are none, or the expired ones do not use up what is beyond the minimum, or all together
-- are not more than that.
theorem run_keeps_iff (this : ReaperTick) (sessions : List PooledSession) :
    this.Keeps sessions (this.run sessions).1 (this.run sessions).2 ↔
      sessions.countP closedIdle = 0 ∨
      sessions.countP this.mayGo ≤ sessions.countP openIdle - this.minIdle ∨
      sessions.countP openIdle + sessions.countP closedIdle ≤ this.minIdle := by
  have hparts := this.retain_parts (sessions.countP isIdle) sessions
  have hcount := hparts.count
  have hleft := hparts.toParted.countP_openIdle
  have hgo : sessions.countP this.mayGo ≤ sessions.countP openIdle :=
    List.countP_mono_left fun session _ => openIdle_of_mayGo
  have hidle := countP_isIdle sessions
  have henough : min this.minIdle (sessions.countP openIdle) ≤
      (this.run sessions).1.countP openIdle ↔
        sessions.countP closedIdle = 0 ∨
        sessions.countP this.mayGo ≤ sessions.countP openIdle - this.minIdle ∨
        sessions.countP openIdle + sessions.countP closedIdle ≤ this.minIdle := by
    rw [run]
    omega
  exact ⟨fun h => henough.mp h.enough, fun h => ⟨hparts.toParted, henough.mpr h⟩⟩

-- A closed session and an open one that has expired, with one that is to be left.
theorem not_run_keeps : ¬∀ (this : ReaperTick) (sessions : List PooledSession),
    this.Keeps sessions (this.run sessions).1 (this.run sessions).2 := by
  intro h
  have henough := (h { now := 100, timeout := 30, minIdle := 1 }
    [⟨true, 0, some 0⟩, ⟨false, 0, some 0⟩]).enough
  exact absurd henough (by decide)

end ReaperTick

end SingBox.AnyTls
