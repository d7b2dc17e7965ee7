import Mathlib.Algebra.BigOperators.Group.Finset.Basic
import Mathlib.Algebra.Order.BigOperators.Group.Finset
import Mathlib.Algebra.Ring.Nat
import Mathlib.Tactic.Ring

/-!
# Progress of processes that disturb each other

Processes share a memory without locks. Each has a `rank`, a bound on the steps it has left as long
as nobody else changes what it has read; a change by one process can throw every other one back, but
only so far. If the changes that a process still makes are bounded as well, by its `load`, then no
process can be thrown back forever: `potential` weighs a change with all the steps that it can cost
the others, and `potential_step` is the balance of one step.

Some changes nobody has to make yet, but anybody may come across them: they are in the `pool`.
-/

namespace Lib

/-- What the processes `ι` with control states `P` and a shared memory `H` have left to do. -/
structure Budget (ι H P : Type*) where
  rank : ι → H → P → ℕ
  load : ι → H → P → ℕ
  pool : H → ℕ

namespace Budget

variable {ι H P : Type*} (B : Budget ι H P) (T : Finset ι) (C : ℕ)

/-- The changes that are left. -/
def changes (h : H) (p : ι → P) : ℕ := B.pool h + ∑ t ∈ T, B.load t h (p t)

/-- The steps that are left, if a change costs every process at most `C` steps. -/
def potential (h : H) (p : ι → P) : ℕ := C * T.card * B.changes T h p + ∑ t ∈ T, B.rank t h (p t)

variable {B T C} [DecidableEq ι] {t : ι} {h h' : H} {p : ι → P} {q : P}
  {cost credit change gain : ℕ}

/-- A sum over all processes when one of them has moved. -/
lemma sum_update (f : ι → H → P → ℕ) (ht : t ∈ T) :
    ∑ u ∈ T, f u h' (Function.update p t q u) = f t h' q + ∑ u ∈ T.erase t, f u h' (p u) := by
  rw [← Finset.add_sum_erase T _ ht, Function.update_self]
  refine congrArg (f t h' q + ·) (Finset.sum_congr rfl fun u hu => ?_)
  rw [Function.update_of_ne (Finset.ne_of_mem_erase hu)]

/-- The changes that are left after a step. -/
lemma changes_step (ht : t ∈ T) (loads : ∀ u ≠ t, B.load u h' (p u) = B.load u h (p u))
    (own : B.load t h' q + B.pool h' + change ≤ B.load t h (p t) + B.pool h + gain) :
    B.changes T h' (Function.update p t q) + change ≤ B.changes T h p + gain := by
  have others : ∑ u ∈ T.erase t, B.load u h' (p u) = ∑ u ∈ T.erase t, B.load u h (p u) :=
    Finset.sum_congr rfl fun u hu => loads u (Finset.ne_of_mem_erase hu)
  rw [changes, changes, sum_update B.load ht, others, ← Finset.add_sum_erase T _ ht]
  omega

/-- The ranks after a step. -/
lemma ranks_step (ht : t ∈ T) (ranks : ∀ u ≠ t, B.rank u h' (p u) ≤ B.rank u h (p u) + C * change)
    (own : B.rank t h' q + cost ≤ B.rank t h (p t) + credit) :
    ∑ u ∈ T, B.rank u h' (Function.update p t q u) + cost ≤
      ∑ u ∈ T, B.rank u h (p u) + credit + C * T.card * change := by
  have others : ∑ u ∈ T.erase t, B.rank u h' (p u) ≤
      ∑ u ∈ T.erase t, B.rank u h (p u) + C * T.card * change := by
    calc ∑ u ∈ T.erase t, B.rank u h' (p u)
        ≤ ∑ u ∈ T.erase t, (B.rank u h (p u) + C * change) :=
          Finset.sum_le_sum fun u hu => ranks u (Finset.ne_of_mem_erase hu)
      _ = ∑ u ∈ T.erase t, B.rank u h (p u) + (T.erase t).card * (C * change) := by
          rw [Finset.sum_add_distrib, Finset.sum_const, nsmul_eq_mul, Nat.cast_id]
      _ ≤ ∑ u ∈ T.erase t, B.rank u h (p u) + T.card * (C * change) := by
          gcongr
          exact Finset.erase_subset t T
      _ = ∑ u ∈ T.erase t, B.rank u h (p u) + C * T.card * change := by ring
  rw [sum_update B.rank ht, ← Finset.add_sum_erase T (fun u => B.rank u h (p u)) ht]
  omega

/-- The balance of a step of process `t`: whatever it costs the others is paid by the change that it
makes. -/
theorem potential_step (ht : t ∈ T) (loads : ∀ u ≠ t, B.load u h' (p u) = B.load u h (p u))
    (ranks : ∀ u ≠ t, B.rank u h' (p u) ≤ B.rank u h (p u) + C * change)
    (work : B.load t h' q + B.pool h' + change ≤ B.load t h (p t) + B.pool h + gain)
    (own : B.rank t h' q + cost ≤ B.rank t h (p t) + credit) :
    B.potential T C h' (Function.update p t q) + cost ≤
      B.potential T C h p + credit + C * T.card * gain := by
  have changes := Nat.mul_le_mul_left (C * T.card) (changes_step ht loads work)
  have ranks := ranks_step ht ranks own
  rw [Nat.mul_add, Nat.mul_add] at changes
  rw [potential, potential]
  omega

end Budget

end Lib
