import Ralloc.Lib.Simulation
import Mathlib.Data.Finset.Image
import Mathlib.Data.Nat.Notation
import Mathlib.Logic.Function.Basic

/-!
# What an allocator is for

An `Arena` is an allocator as its clients see it: which blocks they hold, what is in them, and which
threads wait for one. Held blocks never overlap; that is part of the type. The allocator may give a
waiting thread any block that has room for the request and lies in its range, may change any byte
that is in no held block, and does nothing else. So what a client reads in a block it holds is what
was written there. A crash takes blocks away and may change any byte; the blocks that it leaves keep
their address and length.

`Arena.above` is an arena whose addresses are counted from some address on. It does what the arena
does (`Step.above`).
-/

namespace Lib

/-- The blocks that clients hold with their lengths, the bytes, and for each thread the size it
waits for. -/
structure Arena (T V : Type*) where
  len : ℕ → Option ℕ
  byte : ℕ → V
  asked : T → Option ℕ
  apart : ∀ {p q m n}, len p = some m → len q = some n → p ≠ q → p + m ≤ q ∨ q + n ≤ p

namespace Arena

variable {T V : Type*}

/-- What passes between clients and allocator: a thread asks for a block, gets it with its length,
gives it back, or a client writes or reads a byte of one. After a crash the clients have the blocks
in `kept`. -/
inductive Event (T V : Type*) where
  | malloc (t : T) (size : ℕ)
  | got (t : T) (p len : ℕ)
  | free (t : T) (p : ℕ)
  | write (a : ℕ) (v : V)
  | read (a : ℕ) (v : V)
  | crash (kept : Finset ℕ)
  deriving DecidableEq

/-- Address `a` lies in a held block. -/
def Held (A : Arena T V) (a : ℕ) : Prop := ∃ p m, A.len p = some m ∧ p ≤ a ∧ a < p + m

/-- The blocks that are held before and after are the same bytes. -/
def Keeps (A A' : Arena T V) : Prop := ∀ a, A.Held a → A'.Held a → A'.byte a = A.byte a

/-- One step of an allocator for the addresses from `lo` up to `hi`. -/
inductive Step [DecidableEq T] (lo hi : ℕ) (A A' : Arena T V) : Option (Event T V) → Prop
  | quiet (len : A'.len = A.len) (asked : A'.asked = A.asked) (keeps : A.Keeps A') :
    Step lo hi A A' none
  | malloc (t : T) (size : ℕ) (idle : A.asked t = none) (len : A'.len = A.len)
    (asked : A'.asked = Function.update A.asked t (some size)) (keeps : A.Keeps A') :
    Step lo hi A A' (some (.malloc t size))
  | got (t : T) (p m : ℕ) {size : ℕ} (waits : A.asked t = some size) (room : size ≤ m)
    (new : A.len p = none) (below : lo ≤ p) (above : p + m ≤ hi)
    (len : A'.len = Function.update A.len p (some m))
    (asked : A'.asked = Function.update A.asked t none) (keeps : A.Keeps A') :
    Step lo hi A A' (some (.got t p m))
  | free (t : T) (p : ℕ) {m : ℕ} (idle : A.asked t = none) (held : A.len p = some m)
    (len : A'.len = Function.update A.len p none) (asked : A'.asked = A.asked)
    (keeps : A.Keeps A') :
    Step lo hi A A' (some (.free t p))
  | write (a : ℕ) (v : V) (held : A.Held a) (len : A'.len = A.len) (asked : A'.asked = A.asked)
    (byte : A'.byte = Function.update A.byte a v) : Step lo hi A A' (some (.write a v))
  | read (a : ℕ) (v : V) (held : A.Held a) (byte : A.byte a = v) (same : A' = A) :
    Step lo hi A A' (some (.read a v))
  | crash (kept : Finset ℕ) (held : ∀ p ∈ kept, ∃ m, A.len p = some m)
    (len : ∀ p, A'.len p = if p ∈ kept then A.len p else none) (asked : ∀ t, A'.asked t = none) :
    Step lo hi A A' (some (.crash kept))

/-- The allocators for the addresses from `lo` up to `hi`. At the start nobody has or wants a
block. -/
def system (T V : Type*) [DecidableEq T] (lo hi : ℕ) : System (Arena T V) (Event T V) where
  init A := (∀ p, A.len p = none) ∧ ∀ t, A.asked t = none
  step A o A' := Step lo hi A A' o

section above

variable {A A' : Arena T V} {k : ℕ}

/-- The arena seen from `k` on. -/
def above (A : Arena T V) (k : ℕ) : Arena T V where
  len p := A.len (k + p)
  byte a := A.byte (k + a)
  asked := A.asked
  apart := by
    intro p q m n hp hq ne
    have := A.apart hp hq (by omega)
    omega

/-- The addresses of an event, counted from `k` on. -/
def Event.above (k : ℕ) : Event T V → Event T V
  | .malloc t size => .malloc t size
  | .got t p len => .got t (p - k) len
  | .free t p => .free t (p - k)
  | .write a v => .write (a - k) v
  | .read a v => .read (a - k) v
  | .crash kept => .crash (kept.image (· - k))

/-- No block starts below `k`. -/
def From (A : Arena T V) (k : ℕ) : Prop := ∀ p m, A.len p = some m → k ≤ p

/-- The bytes of blocks are the same ones, counted from `k`. -/
lemma From.held_above (from_k : A.From k) {a : ℕ} : (A.above k).Held a ↔ A.Held (k + a) := by
  constructor
  · rintro ⟨p, m, hp, lo, hi⟩
    exact ⟨k + p, m, hp, by omega, by omega⟩
  · rintro ⟨p, m, hp, lo, hi⟩
    have le := from_k p m hp
    refine ⟨p - k, m, ?_, by omega, by omega⟩
    show A.len (k + (p - k)) = some m
    rwa [Nat.add_sub_of_le le]

/-- A byte of a block, counted from `k`. -/
lemma From.held_sub (from_k : A.From k) {a : ℕ} (held : A.Held a) :
    k ≤ a ∧ (A.above k).Held (a - k) := by
  obtain ⟨p, m, hp, lo, hi⟩ := held
  have le := (from_k p m hp).trans lo
  refine ⟨le, from_k.held_above.2 ?_⟩
  rw [Nat.add_sub_of_le le]
  exact ⟨p, m, hp, lo, hi⟩

/-- What keeps the bytes of blocks keeps them when they are counted from `k`. -/
lemma From.keeps_above (from_k : A.From k) (from_k' : A'.From k) (keeps : A.Keeps A') :
    (A.above k).Keeps (A'.above k) :=
  fun a ha ha' => keeps (k + a) (from_k.held_above.1 ha) (from_k'.held_above.1 ha')

/-- An update at an address, counted from `k` on. -/
lemma update_above {α : Type*} (f : ℕ → α) {p : ℕ} (le : k ≤ p) (x : α) :
    (fun q => Function.update f p x (k + q)) = Function.update (fun q => f (k + q)) (p - k) x := by
  funext q
  by_cases e : q = p - k
  · subst e
    rw [Function.update_self, Nat.add_sub_of_le le, Function.update_self]
  · rw [Function.update_of_ne e, Function.update_of_ne (by omega)]

/-- What an arena does, seen from `k` on. -/
lemma Step.above [DecidableEq T] {lo hi : ℕ} {o : Option (Event T V)} (le : k ≤ lo)
    (from_k : A.From k) (from_k' : A'.From k) (st : Step lo hi A A' o) :
    Step (lo - k) (hi - k) (A.above k) (A'.above k) (o.map (Event.above k)) := by
  have same : A'.len = A.len → (A'.above k).len = (A.above k).len := fun e => by
    funext p
    exact congrFun e (k + p)
  cases st with
  | quiet len asked keeps => exact .quiet (same len) asked (from_k.keeps_above from_k' keeps)
  | malloc t size idle len asked keeps =>
    exact .malloc t size idle (same len) asked (from_k.keeps_above from_k' keeps)
  | got t p m waits room new below above len asked keeps =>
    have new' : (A.above k).len (p - k) = none := by
      show A.len (k + (p - k)) = none
      rwa [Nat.add_sub_of_le (le.trans below)]
    refine .got t (p - k) m waits room new' (by omega) (by omega) ?_ asked
      (from_k.keeps_above from_k' keeps)
    show (fun q => A'.len (k + q)) = _
    rw [len]
    exact update_above A.len (le.trans below) _
  | @free t p m idle held len asked keeps =>
    have lek := from_k p m held
    have held' : (A.above k).len (p - k) = some m := by
      show A.len (k + (p - k)) = some m
      rwa [Nat.add_sub_of_le lek]
    refine .free t (p - k) idle held' ?_ asked (from_k.keeps_above from_k' keeps)
    show (fun q => A'.len (k + q)) = _
    rw [len]
    exact update_above A.len lek _
  | write a v held len asked byte =>
    obtain ⟨lek, held'⟩ := from_k.held_sub held
    refine .write (a - k) v held' (same len) asked ?_
    show (fun b => A'.byte (k + b)) = _
    rw [byte]
    exact update_above A.byte lek _
  | read a v held byte stays =>
    obtain ⟨lek, held'⟩ := from_k.held_sub held
    refine .read (a - k) v held' ?_ (by rw [stays])
    show A.byte (k + (a - k)) = v
    rwa [Nat.add_sub_of_le lek]
  | crash kept held len asked =>
    have mem : ∀ p, p ∈ kept.image (· - k) ↔ k + p ∈ kept := by
      intro p
      rw [Finset.mem_image]
      constructor
      · rintro ⟨q, hq, rfl⟩
        obtain ⟨m, hm⟩ := held q hq
        rwa [Nat.add_sub_of_le (from_k q m hm)]
      · exact fun hp => ⟨k + p, hp, Nat.add_sub_cancel_left ..⟩
    refine .crash (kept.image (· - k)) (fun p hp => held _ ((mem p).1 hp)) (fun p => ?_) asked
    show A'.len (k + p) = if _ then A.len (k + p) else none
    rw [len]
    simp only [mem]

end above

end Arena

end Lib
