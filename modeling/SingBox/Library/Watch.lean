import Mathlib.Data.Nat.Basic

namespace SingBox.Library

-- `tokio::sync::watch`: the latest value only, and how many have come before it.
structure Watch (α : Type) where
  value : α
  version : Nat := 0
deriving DecidableEq

-- The version that was last marked as seen.
structure WatchReceiver where
  seen : Nat
deriving DecidableEq

namespace Watch

variable {α : Type} (this : Watch α)

def sendReplace (value : α) : Watch α := { value, version := this.version + 1 }

-- What is there when it is subscribed to counts as seen.
def subscribe : WatchReceiver := ⟨this.version⟩

-- What `changed` waits for.
def Unseen (receiver : WatchReceiver) : Prop := receiver.seen ≠ this.version

instance (receiver : WatchReceiver) : Decidable (this.Unseen receiver) :=
  inferInstanceAs (Decidable (_ ≠ _))

-- `changed` when it returns, and `borrow_and_update`.
def markSeen : WatchReceiver := ⟨this.version⟩

-- A receiver of this channel.
def Behind (receiver : WatchReceiver) : Prop := receiver.seen ≤ this.version

-- The receiver has nothing unseen only if `value` is the latest.
def Fresh (receiver : WatchReceiver) (value : α) : Prop :=
  this.Behind receiver ∧ (¬this.Unseen receiver → this.value = value)

variable {this} {receiver : WatchReceiver} {value other : α}

theorem behind_subscribe : this.Behind this.subscribe := Nat.le_refl _

theorem Behind.sendReplace (h : this.Behind receiver) : (this.sendReplace value).Behind receiver :=
  Nat.le_succ_of_le h

theorem Fresh.sendReplace (h : this.Fresh receiver value) :
    (this.sendReplace other).Fresh receiver value := by
  refine ⟨h.1.sendReplace, fun hseen => absurd (?_ : receiver.seen ≠ this.version + 1) hseen⟩
  have hle : receiver.seen ≤ this.version := h.1
  omega

theorem fresh_read (h : this.Behind receiver) : this.Fresh receiver this.value := ⟨h, fun _ => rfl⟩

end Watch

end SingBox.Library
