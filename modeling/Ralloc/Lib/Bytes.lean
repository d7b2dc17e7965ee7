import Mathlib.Algebra.Order.Ring.Nat
import Mathlib.Tactic.Ring

/-!
# Byte memory

Memory as a function from addresses to bytes, with little-endian loads and stores of any width. A
load only reads its own bytes (`load_congr`), a store only changes its own bytes (`store_out`), and
a load of what was just stored gives the value back (`load_store`). Everything else about words in
memory follows from these three. `ofWords` is memory that is given word by word.
-/

namespace Lib

/-- Byte-addressed memory. -/
abbrev Mem := ℕ → UInt8

/-- The `n` bytes at `a`, least significant first. -/
def load (m : Mem) (a : ℕ) : ℕ → ℕ
  | 0 => 0
  | n + 1 => (m a).toNat + 256 * load m (a + 1) n

/-- Write the `n` low bytes of `w` at `a`. -/
def store (m : Mem) (a n w : ℕ) : Mem :=
  fun x => if a ≤ x ∧ x < a + n then UInt8.ofNat (w / 256 ^ (x - a)) else m x

/-- A store leaves every byte outside its window alone. -/
lemma store_out {m : Mem} {a n w x} (h : x < a ∨ a + n ≤ x) : store m a n w x = m x :=
  if_neg (by omega)

/-- The later of two stores to a window stays. -/
lemma store_store (m : Mem) (a n w w' : ℕ) : store (store m a n w) a n w' = store m a n w' := by
  funext x
  unfold store
  split <;> rfl

/-- A load reads no byte outside its window. -/
lemma load_congr {m m' : Mem} {a n} (h : ∀ x, a ≤ x → x < a + n → m' x = m x) :
    load m' a n = load m a n := by
  induction n generalizing a with
  | zero => rfl
  | succ n ih =>
    rw [load, load, h a (le_refl _) (by omega)]
    rw [ih fun x h1 h2 => h x (by omega) (by omega)]

/-- A store does not show in a load of other bytes. -/
lemma load_store_out {m : Mem} {a n w b k} (h : b + k ≤ a ∨ a + n ≤ b) :
    load (store m a n w) b k = load m b k :=
  load_congr fun _ _ _ => store_out (by omega)

/-- A load is below the range of its width. -/
lemma load_lt (m : Mem) (a n : ℕ) : load m a n < 256 ^ n := by
  induction n generalizing a with
  | zero => simp [load]
  | succ n ih =>
    have h1 := ih (a + 1)
    have h2 := (m a).toNat_lt
    rw [load, pow_succ]
    omega

/-- The bytes of a store, read from some position inside its window on. -/
private lemma load_store_from {m : Mem} {a n w : ℕ} (k j : ℕ) (h : j + k = n) :
    load (store m a n w) (a + j) k = w / 256 ^ j % 256 ^ k := by
  induction k generalizing j with
  | zero => simp [load, Nat.mod_one]
  | succ k ih =>
    have hb : store m a n w (a + j) = UInt8.ofNat (w / 256 ^ j) := by
      rw [store, if_pos (by omega), show a + j - a = j by omega]
    have h1 := ih (j + 1) (by omega)
    rw [show a + (j + 1) = a + j + 1 by omega] at h1
    rw [load, hb, h1, UInt8.toNat_ofNat', pow_succ 256 j, ← Nat.div_div_eq_div_mul,
      show 256 ^ (k + 1) = 256 * 256 ^ k by ring, Nat.mod_mul]

/-- Two memories with the same bytes at different places. -/
lemma load_shift {m m' : Mem} {a b n} (h : ∀ i < n, m (a + i) = m' (b + i)) :
    load m a n = load m' b n := by
  induction n generalizing a b with
  | zero => rfl
  | succ n ih =>
    have rest : load m (a + 1) n = load m' (b + 1) n := ih fun i hi => by
      rw [Nat.add_assoc, Nat.add_assoc, Nat.add_comm 1]
      exact h (i + 1) (by omega)
    rw [load, load, show m a = m' b from h 0 (by omega), rest]

/-- Memory that consists of the 64-bit words `w`. -/
def ofWords (w : ℕ → ℕ) : Mem := fun o => UInt8.ofNat (w (o / 8) / 256 ^ (o % 8))

/-- Some bytes of one of the words. -/
lemma load_ofWords {w : ℕ → ℕ} {k j n : ℕ} (h : j + n ≤ 8) :
    load (ofWords w) (8 * k + j) n = w k / 256 ^ j % 256 ^ n := by
  induction n generalizing j with
  | zero => simp [load, Nat.mod_one]
  | succ n ih =>
    have hb : ofWords w (8 * k + j) = UInt8.ofNat (w k / 256 ^ j) := by
      rw [ofWords, show (8 * k + j) / 8 = k by omega, show (8 * k + j) % 8 = j by omega]
    have h1 := ih (j := j + 1) (by omega)
    rw [show 8 * k + (j + 1) = 8 * k + j + 1 by omega] at h1
    rw [load, hb, h1, UInt8.toNat_ofNat', pow_succ 256 j, ← Nat.div_div_eq_div_mul,
      show 256 ^ (n + 1) = 256 * 256 ^ n by ring, Nat.mod_mul]

/-- A load gives back what was stored. -/
lemma load_store {m : Mem} {a n w : ℕ} (h : w < 256 ^ n) : load (store m a n w) a n = w := by
  have := load_store_from (m := m) (a := a) (n := n) (w := w) n 0 (by omega)
  simpa [Nat.mod_eq_of_lt h] using this

/-- The `n` bytes at `src` copied to `dst`. -/
def copy (m : Mem) (dst src n : ℕ) : Mem :=
  fun x => if dst ≤ x ∧ x < dst + n then m (src + (x - dst)) else m x

/-- The bytes of the copy. -/
lemma copy_in {m : Mem} {dst src n i} (h : i < n) : copy m dst src n (dst + i) = m (src + i) := by
  rw [copy, if_pos ⟨by omega, by omega⟩, Nat.add_sub_cancel_left]

/-- A copy leaves every byte outside its target alone. -/
lemma copy_out {m : Mem} {dst src n x} (h : x < dst ∨ dst + n ≤ x) : copy m dst src n x = m x :=
  if_neg (by omega)

/-- A copy leaves the bytes outside a window at its target alone, whatever is in memory, exactly
when it is not longer than the window. -/
lemma copy_frame_iff {dst src n k : ℕ} (ne : dst ≠ src) :
    (∀ m x, x < dst ∨ dst + k ≤ x → copy m dst src n x = m x) ↔ n ≤ k := by
  refine ⟨fun frame => Nat.le_of_not_lt fun lt => ?_, fun le m x hx => copy_out (by omega)⟩
  -- the byte behind the window and the byte it is overwritten with
  have h := frame (fun x => if x = dst + k then 1 else 0) (dst + k) (.inr le_rfl)
  rw [copy_in lt] at h
  simp [Ne.symm ne] at h

/-- The `n` bytes at `dst` set to `v`. -/
def memset (m : Mem) (dst : ℕ) (v : UInt8) (n : ℕ) : Mem :=
  fun x => if dst ≤ x ∧ x < dst + n then v else m x

/-- The bytes that are set. -/
lemma memset_in {m : Mem} {dst v n i} (h : i < n) : memset m dst v n (dst + i) = v :=
  if_pos ⟨by omega, by omega⟩

/-- The other bytes. -/
lemma memset_out {m : Mem} {dst v n x} (h : x < dst ∨ dst + n ≤ x) : memset m dst v n x = m x :=
  if_neg (by omega)

end Lib
