import Ralloc.Machine.Realloc

/-!
# `RP_calloc`

Model of `RP_calloc`, with `RP_malloc` as a run of the machine by one thread. The product of its
arguments is a `size_t`, and the length that it sets to 0 is the one in the descriptor of the new
block, which has 32 bits. `calloc_iff`: an `RP_calloc` that returns a block gives the array that was
asked for exactly when the length of the array, rounded up to superblocks if it is large, fits the
descriptor.
-/

namespace Ralloc

open Lib SuperblockState

variable {cfg : Cfg} {t num size n : ℕ} {h h₁ h' : Heap} {s : State}

/-- What `RP_calloc` leaves of the heap after its `RP_malloc`. -/
def zeroed (cfg : Cfg) (t : ℕ) (h : Heap) : Heap :=
  { h with mem := memset h.mem (h.ret t) 0 (mallocSize cfg h (h.ret t)) }

/-- `RP_calloc(num, size)` by thread `t`: the heap and the result when it returns. -/
inductive Calloc (cfg : Cfg) (t num size : ℕ) (h : Heap) : Heap → ℕ → Prop
  | failed {h₁ : Heap} (malloc : Solo cfg t (callMalloc t (num * size % WORD) h) (h₁, .idle))
    (none : h₁.ret t = 0) : Calloc cfg t num size h h₁ 0
  | zeroed {h₁ : Heap} (malloc : Solo cfg t (callMalloc t (num * size % WORD) h) (h₁, .idle))
    (got : h₁.ret t ≠ 0) : Calloc cfg t num size h (zeroed cfg t h₁) (h₁.ret t)

/-- What an `RP_calloc` for an array of `n` bytes has to leave behind when it returns `q`. -/
structure Calloced (cfg : Cfg) (n : ℕ) (h h' : Heap) (q : ℕ) : Prop where
  size : n ≤ mallocSize cfg h' q
  zero : ∀ i < n, h'.mem (q + i) = 0
  others : ∀ x, h.client x = .held → Untouched cfg x h h'

/-- A block that `RP_calloc(num, size)` returns is the array that was asked for. -/
def CallocOk (cfg : Cfg) (t num size : ℕ) (h : Heap) : Prop :=
  ∀ h' q, Calloc cfg t num size h h' q → q ≠ 0 → Calloced cfg (num * size) h h' q

/-- No block is as long as `2 ^ 64` bytes. -/
lemma Reach.mallocSize_lt (hs : Reach cfg s) (idle : s.pc t = .idle)
    (run : Solo cfg t (callMalloc t n s.heap) (h₁, .idle)) :
    mallocSize cfg h₁ (h₁.ret t) < WORD := by
  by_cases large : MAX_SZ < n
  · rw [mallocSize_large large run]
    exact lt_trans (Nat.mod_lt _ (by decide)) (show HALF < WORD by decide)
  · have small : n ≤ MAX_SZ := Nat.le_of_not_lt large
    rw [hs.mallocSize_eq idle (.inl small) run, allocSize, if_pos small]
    have cls := (getSizeclass_spec small).1
    calc blockSize (getSizeclass n)
      _ ≤ maxcount (getSizeclass n) * blockSize (getSizeclass n) :=
        Nat.le_mul_of_pos_left _ (lt_of_lt_of_le (by decide) cls.four_le)
      _ ≤ SBSIZE := cls.mul_le
      _ < WORD := by decide

/-- The bytes of the new block are set to 0, and those of the blocks that were there before are
not. -/
lemma Mallocked.calloced (ml : Mallocked cfg t n s h₁) :
    Calloced cfg n s.heap (zeroed cfg t h₁) (h₁.ret t) := by
  have size : mallocSize cfg (zeroed cfg t h₁) (h₁.ret t) = mallocSize cfg h₁ (h₁.ret t) := rfl
  have le : n ≤ mallocSize cfg h₁ (h₁.ret t) := ml.size ▸ ml.le
  refine ⟨size ▸ le, fun i hi => memset_in (hi.trans_le le), fun x hx => ?_⟩
  have old := ml.others x hx
  refine old.trans ⟨old.client, rfl, fun a lo hi => memset_out ?_⟩
  obtain ⟨L, inv⟩ := ml.reach.inv
  have hq := inv.rep.held_iff.1 ml.got.client
  have hx' := inv.rep.held_iff.1 old.client
  rcases inv.rep.disjoint inv.ok (by simp [hq]) (by simp [hx']) (ml.ret_ne hx) with h1 | h1
  · exact .inr (h1.trans lo)
  · exact .inl (hi.trans_le h1)

/-- An `RP_calloc` that returns a block gives the array that was asked for exactly when the array is
at most `MAX_SZ` bytes long or its length rounded up to superblocks is below `2 ^ 32`. -/
theorem calloc_iff (hs : Reach cfg s) (idle : s.pc t = .idle)
    (succeeds : ∃ h' q, Calloc cfg t num size s.heap h' q ∧ q ≠ 0) :
    CallocOk cfg t num size s.heap ↔
      num * size ≤ MAX_SZ ∨ (num * size + SBSIZE - 1) / SBSIZE * SBSIZE < HALF := by
  constructor
  · intro ok
    obtain ⟨h', q, run, ne⟩ := succeeds
    have le := (ok h' q run ne).size
    cases run with
    | failed _ none => exact absurd rfl ne
    | zeroed malloc _ =>
      -- the product did not wrap, because the block is long enough
      have lt := hs.mallocSize_lt idle malloc
      have nowrap : num * size % WORD = num * size := Nat.mod_eq_of_lt (le.trans_lt lt)
      rw [nowrap] at malloc
      exact not_not.1 (mt (not_le_mallocSize · malloc) (not_not.2 le))
  · intro fits h' q run ne
    have nowrap : num * size % WORD = num * size := by
      refine Nat.mod_eq_of_lt ?_
      rw [SBSIZE_eq] at fits
      unfold MAX_SZ HALF at fits
      unfold WORD
      omega
    cases run with
    | failed _ none => exact absurd rfl ne
    | zeroed malloc _ =>
      rw [nowrap] at malloc
      exact (hs.mallocked idle fits malloc).calloced

/-- The `RP_malloc` of an `RP_calloc` on `sample`, in `k` steps. -/
def runCalloc (num size k : ℕ) (s : State) : Option Heap := do
  let s₁ ← quickStep sample s (.malloc 0 (num * size % WORD))
  let r := alone sample 0 k (s₁.heap, s₁.pc 0)
  if r.2 = .idle ∧ r.1.ret 0 ≠ 0 then some r.1 else none

/-- A run on the sample that computes an `RP_calloc`. -/
lemma calloc_of_run {k : ℕ} (e : runCalloc num size k s = some h₁) :
    Calloc sample 0 num size s.heap (zeroed sample 0 h₁) (h₁.ret 0) ∧ h₁.ret 0 ≠ 0 := by
  simp only [runCalloc, quickStep_eq, bind, Option.bind_eq_some_iff] at e
  obtain ⟨s₁, start, e⟩ := e
  obtain ⟨-, rfl⟩ := step_call start
  rw [State.pc_put_self] at e
  split at e
  case isTrue hc =>
    obtain ⟨idle, got⟩ := hc
    cases e
    exact ⟨.zeroed (solo_of_idle idle) got, got⟩
  case isFalse => cases e

/-- An array of `2 ^ 52 + 3` elements of 4096 bytes is given a block of 12288 bytes. -/
theorem calloc_wraps : ∃ h' q, Calloc sample 0 (2 ^ 52 + 3) 4096 (init sample).heap h' q ∧ q ≠ 0 ∧
    mallocSize sample h' q = 12288 ∧ ¬CallocOk sample 0 (2 ^ 52 + 3) 4096 (init sample).heap := by
  have test : (runCalloc (2 ^ 52 + 3) 4096 13 (init sample)).any (fun h =>
      decide (mallocSize sample h (h.ret 0) = 12288)) = true := by
    decide +kernel
  obtain ⟨h₁, e, size⟩ := Option.any_eq_true _ _ |>.1 test
  obtain ⟨run, ne⟩ := calloc_of_run e
  have size' : mallocSize sample (zeroed sample 0 h₁) (h₁.ret 0) = 12288 := of_decide_eq_true size
  refine ⟨_, _, run, ne, size', fun ok => ?_⟩
  have le := (ok _ _ run ne).size
  rw [size'] at le
  omega

/-- An array of three elements of 4096 bytes. -/
theorem calloc_sample : ∃ h' q, Calloc sample 0 3 4096 (init sample).heap h' q ∧
    CallocOk sample 0 3 4096 (init sample).heap := by
  have test : (runCalloc 3 4096 13 (init sample)).isSome = true := by
    decide +kernel
  obtain ⟨h₁, e⟩ := Option.isSome_iff_exists.1 test
  obtain ⟨run, ne⟩ := calloc_of_run e
  exact ⟨_, _, run, (calloc_iff .refl rfl ⟨_, _, run, ne⟩).2 (.inl (by decide))⟩

end Ralloc
