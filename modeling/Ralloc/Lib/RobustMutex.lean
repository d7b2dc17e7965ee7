import Mathlib.Data.Nat.Notation
import Mathlib.Tactic.Lemma

/-!
# Robust mutexes

A POSIX mutex with the robust attribute, as processes see it that only try to lock it: a lock that
is held by a process which died goes to the next process that tries it, with a return code that says
so.
-/

namespace Lib

/-- Return codes of `pthread_mutex_trylock`. -/
inductive LockCode where
  | ok
  | EBUSY
  | EOWNERDEAD
  | EAGAIN
  | EINVAL
  deriving DecidableEq, Repr

/-- A mutex that processes of type `P` lock; `orphaned` if its owner died. -/
inductive Mutex (P : Type) where
  | free
  | held (owner : P)
  | orphaned
  deriving DecidableEq, Repr

namespace Mutex

variable {P : Type} [DecidableEq P] {p q : P}

/-- `pthread_mutex_trylock` by `p`. -/
def trylock (p : P) : Mutex P → LockCode × Mutex P
  | free => (.ok, held p)
  | held q => (.EBUSY, held q)
  | orphaned => (.EOWNERDEAD, held p)

/-- `pthread_mutex_unlock` by `p`; it has no effect if `p` is not the owner. -/
def unlock (p : P) (m : Mutex P) : Mutex P := if m = held p then free else m

/-- The process `p` dies. -/
def die (p : P) (m : Mutex P) : Mutex P := if m = held p then orphaned else m

/-- The owner unlocks. -/
@[simp] lemma unlock_held : (held p).unlock p = free := if_pos rfl

/-- An unlock by someone who does not hold the mutex does nothing. -/
@[simp] lemma unlock_orphaned : (orphaned : Mutex P).unlock p = orphaned := if_neg (by simp)

/-- The death of the owner leaves an orphan. -/
@[simp] lemma die_held : (held p).die p = orphaned := if_pos rfl

/-- Another death changes nothing. -/
@[simp] lemma die_orphaned : (orphaned : Mutex P).die p = orphaned := if_neg (by simp)

/-- Nobody's mutex is not affected by a death. -/
@[simp] lemma die_free : (free : Mutex P).die p = free := if_neg (by simp)

end Mutex

end Lib
