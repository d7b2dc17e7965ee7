import Ralloc.Lib.CodedCell
import Ralloc.Model.CrossPtr

/-!
# Pointer cells

Model of the operations of `pptr`, `atomic_pptr` and `AtomicCrossPtrCnt`. A cell is the word in it.
A `pptr` or `atomic_pptr` also has its own address, because the word depends on it; an
`AtomicCrossPtrCnt` has the start of the descriptor region. Pointers are 64-bit numbers and null is
0.
-/

namespace Ralloc

open Lib

namespace Pptr

/-- The copy constructor and the assignment of a `pptr` at `p'`, from one at `p` with the word
`off`. -/
def copy (off p p' : ℕ) : ℕ := toPptrOff (fromPptrOff off p) p'

end Pptr

namespace AtomicPptr

/-- `atomic_pptr::load`. -/
def load (off p : ℕ) : ℕ := fromPptrOff off p

/-- `atomic_pptr::store`; the constructor from a pointer and the assignment of a pointer do the
same. -/
def store (desired p : ℕ) : ℕ := toPptrOff desired p

/-- `atomic_pptr::compare_exchange_strong`, and `compare_exchange_weak` if `spurious` is free: the
result, the word and `expected` after it. -/
def compareExchange (off p expected desired : ℕ) (spurious : Bool) : Bool × ℕ × ℕ :=
  let oldOff := toPptrOff expected p
  let newOff := toPptrOff desired p
  let (ret, off, oldOff) := Lib.compareExchange off oldOff newOff spurious
  (ret, off,
    if ret then expected
    else if isNullPptr oldOff then 0 else fromPptrOff oldOff p)

/-- What may be done to the word of an `atomic_pptr`. -/
inductive Write where
  /-- the constructor from a pointer, the assignment of a pointer, or `store` -/
  | store (v : ℕ)
  /-- the constructor from a `pptr` at `src` with the word `off` -/
  | construct (off src : ℕ)
  /-- the assignment of an `atomic_pptr` at `src` with the word `off` -/
  | assign (off src : ℕ)
  | compareExchange (expected desired : ℕ) (spurious : Bool)

/-- The word after it. -/
def Write.apply (off p : ℕ) : Write → ℕ
  | .store v => AtomicPptr.store v p
  | .construct off' src => AtomicPptr.store (fromPptrOff off' src) p
  | .assign off' src => AtomicPptr.store (load off' src) p
  | .compareExchange expected desired spurious =>
    (AtomicPptr.compareExchange off p expected desired spurious).2.1

/-- The pointers in it are addresses. -/
def Write.Addresses : Write → Prop
  | .store v => v < ADDR
  | .construct off src => fromPptrOff off src < ADDR
  | .assign off src => load off src < ADDR
  | .compareExchange expected desired _ => expected < ADDR ∧ desired < ADDR

/-- The word at `p` was written by the constructors, `store`, assignments and `compare_exchange`
only. -/
inductive Written (p : ℕ) : ℕ → Prop
  | construct {v : ℕ} (hv : v < ADDR) : Written p (store v p)
  | constructFrom {off src : ℕ} (hv : fromPptrOff off src < ADDR) :
    Written p (store (fromPptrOff off src) p)
  | write {off : ℕ} (w : Write) (hw : w.Addresses) (run : Written p off) : Written p (w.apply off p)

end AtomicPptr

namespace AtomicCrossPtrCnt

/-- `compare_exchange_strong`, and `compare_exchange_weak` if `spurious` is free: the result, the
word and `expected` after it. -/
def compareExchange (start word : ℕ) (expected desired : ℕ × ℕ) (spurious : Bool) :
    Bool × ℕ × (ℕ × ℕ) :=
  let oldOff := pack start expected.1 expected.2
  let newOff := pack start desired.1 desired.2
  let (ret, word, oldOff) := Lib.compareExchange word oldOff newOff spurious
  (ret, word, if ret then expected else unpack start oldOff)

/-- The pointers that are stored: null, or to a descriptor other than number 0. -/
def IsDesc (start ptr : ℕ) : Prop :=
  ptr = 0 ∨ ∃ i, 1 ≤ i ∧ i < 2 ^ MAX_DESC_AMOUNT_BITS ∧ ptr = (start + i * DESCSIZE) % WORD

/-- The word was written by the constructor, `store` and `compare_exchange` only. -/
inductive Written (start : ℕ) : ℕ → Prop
  /-- the constructor, or `store` -/
  | store {ptr : ℕ} (cnt : ℕ) (hp : IsDesc start ptr) : Written start (pack start ptr cnt)
  | compareExchange {word : ℕ} {expected desired : ℕ × ℕ} (spurious : Bool)
    (he : IsDesc start expected.1) (hd : IsDesc start desired.1) (run : Written start word) :
    Written start (compareExchange start word expected desired spurious).2.1

end AtomicCrossPtrCnt

end Ralloc
