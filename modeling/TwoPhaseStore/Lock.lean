/-!
Reader/writer locks.  A lock is free, shared by one holder or more, or held exclusively by one.
It records its holders, so it says not only that it is held but by whom.  An attempt never waits:
it succeeds now or not at all.
-/

namespace TwoPhaseStore

/-- Who holds a lock: a party known by name, or whatever is still running `depth` levels deep. -/
inductive Holder where
  | named (name : String)
  | nested (depth : Nat)
deriving DecidableEq, Repr

/-- A shared lock has a first holder and maybe others, so it is never shared by nobody. -/
inductive Lock where
  | free
  | shared (holder : Holder) (others : List Holder)
  | exclusive (holder : Holder)
deriving DecidableEq, Repr

namespace Lock

def isFree : Lock → Bool
  | free => true
  | _ => false

/-- Whether one more reader is let in. -/
def admitsReader : Lock → Bool
  | exclusive _ => false
  | _ => true

def holders : Lock → List Holder
  | free => []
  | shared h hs => h :: hs
  | exclusive h => [h]

/-- The lock shared by these holders. -/
def ofReaders : List Holder → Lock
  | [] => free
  | h :: hs => shared h hs

/-- Takes the lock shared. -/
def share? (who : Holder) : Lock → Option Lock
  | free => some (shared who [])
  | shared h hs => some (shared who (h :: hs))
  | exclusive _ => none

/-- Takes the lock exclusively. -/
def claim? (who : Holder) : Lock → Option Lock
  | free => some (exclusive who)
  | _ => none

/-- Lets go of one hold of `who`; a lock that `who` does not hold stays as it is. -/
def release (who : Holder) : Lock → Lock
  | free => free
  | shared h hs => ofReaders ((h :: hs).erase who)
  | exclusive h => if h = who then free else exclusive h

theorem isFree_iff {l : Lock} : l.isFree = true ↔ l = free := by cases l <;> simp [isFree]

theorem isFree_iff_holders {l : Lock} : l.isFree = true ↔ l.holders = [] := by
  cases l <;> simp [isFree, holders]

theorem holders_ofReaders (hs : List Holder) : (ofReaders hs).holders = hs := by
  cases hs <;> rfl

theorem share?_isSome (who : Holder) (l : Lock) : (l.share? who).isSome = l.admitsReader := by
  cases l <;> rfl

theorem claim?_isSome (who : Holder) (l : Lock) : (l.claim? who).isSome = l.isFree := by
  cases l <;> rfl

theorem claim?_eq_some {who : Holder} {l m : Lock} :
    l.claim? who = some m ↔ l = free ∧ m = exclusive who := by
  cases l <;> simp [claim?, eq_comm]

theorem holders_share? {who : Holder} {l m : Lock} (h : l.share? who = some m) :
    m.holders = who :: l.holders := by
  cases l <;> simp [share?] at h <;> subst h <;> rfl

theorem holders_release (who : Holder) (l : Lock) :
    (l.release who).holders = l.holders.erase who := by
  cases l with
  | free => rfl
  | shared h hs => exact holders_ofReaders _
  | exclusive h => by_cases hw : h = who <;> simp [release, holders, hw]

@[simp] theorem release_exclusive_self (who : Holder) : (exclusive who).release who = free := by
  simp [release]

@[simp] theorem release_free (who : Holder) : free.release who = free := rfl

theorem release_of_share? {who : Holder} {l m : Lock} (h : l.share? who = some m) :
    m.release who = l := by
  cases l <;> simp [share?] at h <;> subst h <;> simp [release, ofReaders]

end Lock

end TwoPhaseStore
