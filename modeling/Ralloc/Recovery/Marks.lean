import Mathlib.Data.Finset.Sort
import Ralloc.Recovery.Turn

/-!
# Heaps and marks before a sweep

`Recoverable cfg h N`: the descriptors of the first `N` superblocks are as the allocator writes
them. A set `M` of marked addresses sorts the superblocks by what the sweep has to do with them: a
small one with a mark is rebuilt (`Used`), a large block with a mark in its first superblock is kept
with all its superblocks (`Kept`, `Covered`), and everything else is reclaimed (`Reclaimed`).
-/

namespace Ralloc

open Lib SuperblockState

variable {cfg : Cfg} {h : Heap} {N d e k sc : ℕ} {M : Finset ℕ}

/-- Superblock `d` is in use for blocks of class `sc`. -/
structure IsSmall (cfg : Cfg) (h : Heap) (d sc : ℕ) : Prop where
  cls : SmallClass sc
  heap : (h.desc d).heap = some sc
  superblock : (h.desc d).superblock = some (cfg.sb d)
  size : (h.desc d).blockSize = blockSize sc
  maxcount : (h.desc d).maxcount = maxcount sc

/-- Superblock `d` is the first of the `k` superblocks of a large block. -/
structure IsLarge (cfg : Cfg) (h : Heap) (d k : ℕ) : Prop where
  pos : 0 < k
  heap : (h.desc d).heap = some 0
  superblock : (h.desc d).superblock = some (cfg.sb d)
  size : (h.desc d).blockSize = k * SBSIZE
  maxcount : (h.desc d).maxcount = 1

/-- The region ends behind `N` superblocks, and each of them but the skipped first one is unused,
small, or the first of a large block whose other superblocks are unused. -/
structure Recoverable (cfg : Cfg) (h : Heap) (N : ℕ) : Prop where
  pos : 0 < N
  curr : h.currAddr = cfg.sb N
  inside : cfg.sb N ≤ cfg.base + cfg.filesize
  kind : ∀ d, 0 < d → d < N → (h.desc d).heap = none ∨ (∃ sc, IsSmall cfg h d sc) ∨
    ∃ k, IsLarge cfg h d k
  fits : ∀ {d k}, 0 < d → d < N → IsLarge cfg h d k → d + k ≤ N
  interior : ∀ {d k j}, 0 < d → d < N → IsLarge cfg h d k → d < j → j < d + k →
    (h.desc j).heap = none

/-- A superblock is not both. -/
lemma IsSmall.not_large (hs : IsSmall cfg h d sc) (hl : IsLarge cfg h d k) : False := by
  have h1 := hs.cls.1
  have h2 := hs.heap
  rw [hl.heap, Option.some.injEq] at h2
  omega

/-- It has one class. -/
lemma IsSmall.unique {sc'} (hs : IsSmall cfg h d sc) (hs' : IsSmall cfg h d sc') : sc = sc' := by
  have := hs.heap
  rw [hs'.heap, Option.some.injEq] at this
  exact this.symm

/-- And one length. -/
lemma IsLarge.unique {k'} (hl : IsLarge cfg h d k) (hl' : IsLarge cfg h d k') : k = k' := by
  have := hl.size
  rw [hl'.size] at this
  exact (Nat.eq_of_mul_eq_mul_right (by simp [SBSIZE_eq]) this).symm

/-- The address `m` lies in superblock `d`. -/
def InSb (cfg : Cfg) (d m : ℕ) : Prop := cfg.sb d ≤ m ∧ m < cfg.sb (d + 1)

instance (cfg : Cfg) (d m : ℕ) : Decidable (InSb cfg d m) := inferInstanceAs (Decidable (_ ∧ _))

/-- Superblock `d` has a mark. -/
def Marked (cfg : Cfg) (M : Finset ℕ) (d : ℕ) : Prop := ∃ m ∈ M, InSb cfg d m

/-- A small superblock with a mark. -/
structure Used (cfg : Cfg) (h : Heap) (M : Finset ℕ) (d sc : ℕ) : Prop where
  small : IsSmall cfg h d sc
  marked : Marked cfg M d

/-- A large block with a mark in its first superblock. -/
structure Kept (cfg : Cfg) (h : Heap) (M : Finset ℕ) (d k : ℕ) : Prop where
  large : IsLarge cfg h d k
  marked : Marked cfg M d

/-- What of `Recoverable` is about superblocks that have a mark. The sweep does not look at other
descriptors. -/
structure Sweepable (cfg : Cfg) (h : Heap) (N : ℕ) (M : Finset ℕ) : Prop where
  pos : 0 < N
  curr : h.currAddr = cfg.sb N
  inside : cfg.sb N ≤ cfg.base + cfg.filesize
  kind : ∀ d, 0 < d → d < N → Marked cfg M d →
    (h.desc d).heap = none ∨ (∃ sc, IsSmall cfg h d sc) ∨ ∃ k, IsLarge cfg h d k
  fits : ∀ {d k}, 0 < d → d < N → Kept cfg h M d k → d + k ≤ N
  interior : ∀ {d k j}, 0 < d → d < N → Kept cfg h M d k → d < j → j < d + k →
    (h.desc j).heap = none

/-- A superblock of the region lies inside the mapping. -/
lemma Sweepable.insideOf (rc : Sweepable cfg h N M) (hd : d < N) : cfg.Inside d :=
  le_trans (Cfg.sb_le_sb.2 hd) rc.inside

/-- Such a heap can be swept for any marks. -/
lemma Recoverable.sweepable (rc : Recoverable cfg h N) (M : Finset ℕ) : Sweepable cfg h N M :=
  ⟨rc.pos, rc.curr, rc.inside, fun d h1 h2 _ => rc.kind d h1 h2,
    fun h1 h2 hk => rc.fits h1 h2 hk.large, fun h1 h2 hk => rc.interior h1 h2 hk.large⟩

/-- A superblock of such a large block behind the first one. -/
def Covered (cfg : Cfg) (h : Heap) (M : Finset ℕ) (e : ℕ) : Prop :=
  ∃ d k, 0 < d ∧ Kept cfg h M d k ∧ d < e ∧ e < d + k

/-- Everything else. -/
structure Reclaimed (cfg : Cfg) (h : Heap) (M : Finset ℕ) (e : ℕ) : Prop where
  used : ∀ sc, ¬Used cfg h M e sc
  kept : ∀ k, ¬Kept cfg h M e k
  covered : ¬Covered cfg h M e

/-- The marks from superblock `d` on, in order. -/
def marksFrom (cfg : Cfg) (M : Finset ℕ) (d : ℕ) : List ℕ := M.sort.filter fun m => cfg.sb d ≤ m

/-- The marks in superblock `d`, in order. -/
def marksIn (cfg : Cfg) (M : Finset ℕ) (d : ℕ) : List ℕ := M.sort.filter fun m => InSb cfg d m

/-- The sweep takes the marks in order. -/
lemma sort_sorted (M : Finset ℕ) : M.sort.Pairwise (· < ·) :=
  (Finset.sortedLT_sort M).pairwise

/-- The marks in a superblock. -/
lemma mem_marksIn {m} : m ∈ marksIn cfg M d ↔ m ∈ M ∧ InSb cfg d m := by
  simp [marksIn]

/-- The marks from a superblock on. -/
lemma mem_marksFrom {m} : m ∈ marksFrom cfg M d ↔ m ∈ M ∧ cfg.sb d ≤ m := by
  simp [marksFrom]

/-- They come in order. -/
lemma marksIn_sorted : (marksIn cfg M d).Pairwise (· < ·) := (sort_sorted M).filter _

/-- There are some exactly if the superblock is marked. -/
lemma marksIn_ne_nil : marksIn cfg M d ≠ [] ↔ Marked cfg M d := by
  refine ⟨fun hne => ?_, fun ⟨m, hm, hin⟩ => List.ne_nil_of_mem (mem_marksIn.2 ⟨hm, hin⟩)⟩
  obtain ⟨m, hm⟩ := List.exists_mem_of_ne_nil _ hne
  exact ⟨m, mem_marksIn.1 hm⟩

/-- A sorted list from `a` on is what lies below `b` and then what lies from `b` on. -/
lemma filter_split {l : List ℕ} (sorted : l.Pairwise (· < ·)) {a b : ℕ} (le : a ≤ b) :
    (l.filter fun m => a ≤ m) =
      (l.filter fun m => a ≤ m ∧ m < b) ++ l.filter fun m => b ≤ m := by
  induction l with
  | nil => rfl
  | cons x l ih =>
    obtain ⟨lt, sorted⟩ := List.pairwise_cons.1 sorted
    have ih := ih sorted
    by_cases h1 : a ≤ x
    · by_cases h2 : x < b
      · simpa [h1, h2, show ¬b ≤ x by omega] using ih
      · have hnil : (l.filter fun m => decide (a ≤ m ∧ m < b)) = [] := by
          refine List.filter_eq_nil_iff.2 fun y hy => ?_
          have := lt y hy
          simp
          omega
        rw [List.filter_cons_of_pos (by simpa using h1), List.filter_cons_of_neg (by simp [h2]),
          List.filter_cons_of_pos (by simpa using h2), hnil, List.nil_append, ih, hnil,
          List.nil_append]
    · simpa [h1, show ¬b ≤ x by omega] using ih

/-- The marks from one superblock on are those before another one and those from there on. -/
lemma marksFrom_split (le : d ≤ e) : marksFrom cfg M d =
    (M.sort.filter fun m => cfg.sb d ≤ m ∧ m < cfg.sb e) ++ marksFrom cfg M e :=
  filter_split (sort_sorted M) (Cfg.sb_le_sb.2 le)

/-- The marks of a superblock come first. -/
lemma marksFrom_succ : marksFrom cfg M d = marksIn cfg M d ++ marksFrom cfg M (d + 1) :=
  marksFrom_split (Nat.le_succ d)

/-- Superblocks without marks can be skipped. -/
lemma marksFrom_skip (le : d ≤ e) (no : ∀ m ∈ M, ¬(cfg.sb d ≤ m ∧ m < cfg.sb e)) :
    marksFrom cfg M d = marksFrom cfg M e := by
  rw [marksFrom_split le, List.filter_eq_nil_iff.2, List.nil_append]
  intro m hm
  simpa using no m ((Finset.mem_sort _).1 hm)

/-- If there is a mark before a superblock, the first one is. -/
lemma marksFrom_head (le : d ≤ e) {m} (hm : m ∈ M) (hin : cfg.sb d ≤ m ∧ m < cfg.sb e) :
    ∃ x xs, marksFrom cfg M d = x :: xs ∧ x < cfg.sb e := by
  rw [marksFrom_split le]
  cases hl : M.sort.filter fun m => decide (cfg.sb d ≤ m ∧ m < cfg.sb e) with
  | nil =>
    have := List.filter_eq_nil_iff.1 hl m ((Finset.mem_sort _).2 hm)
    simp [hin] at this
  | cons x xs =>
    have hx : x ∈ M.sort.filter fun m => decide (cfg.sb d ≤ m ∧ m < cfg.sb e) := by
      rw [hl]
      exact List.mem_cons_self
    have := (List.mem_filter.1 hx).2
    simp only [decide_eq_true_eq] at this
    exact ⟨x, xs ++ marksFrom cfg M e, rfl, this.2⟩

/-- The test of the sweep whether a mark is in the current superblock. -/
lemma shift_eq_iff {m} : cfg.sb d >>> SB_SHIFT = m >>> SB_SHIFT ↔ InSb cfg d m := by
  have h1 := cfg.sb_mod d
  have h2 := cfg.sb_succ d
  rw [SBSIZE_eq] at h1 h2
  rw [InSb, SB_SHIFT, Nat.shiftRight_eq_div_pow, Nat.shiftRight_eq_div_pow]
  omega

/-- A mark below a superblock is not in it. -/
lemma splits_behind {x xs} (hx : x < cfg.sb d) : Splits (cfg.sb d) [] (x :: xs) := by
  refine ⟨by simp, fun m hm => ?_⟩
  cases hm
  rw [ne_eq, shift_eq_iff]
  exact fun hin => absurd hin.1 (by omega)

/-- The marks split at every superblock that the sweep comes to in time. -/
lemma splits_marks : Splits (cfg.sb d) (marksIn cfg M d) (marksFrom cfg M (d + 1)) := by
  refine ⟨fun m hm => shift_eq_iff.2 (mem_marksIn.1 hm).2, fun m hm => ?_⟩
  rw [ne_eq, shift_eq_iff]
  have := (mem_marksFrom.1 (List.mem_of_head? hm)).2
  exact fun hin => absurd hin.2 (by omega)

/-- The blocks that the sweep frees in a small superblock. -/
def freedBlocks (cfg : Cfg) (M : Finset ℕ) (d sc : ℕ) : List ℕ :=
  gaps (blockSize sc) (cfg.sb d + maxcount sc * blockSize sc) (cfg.sb d) (marksIn cfg M d)

/-- Freed blocks lie `block_size` apart. -/
lemma freedBlocks_spaced (cfg : Cfg) (M : Finset ℕ) (d : ℕ) (hsc : SmallClass sc) :
    (freedBlocks cfg M d sc).Pairwise fun a b => a + blockSize sc ≤ b :=
  gaps_spaced (by have := hsc.eight_le; omega) marksIn_sorted

/-- Freed blocks start inside their superblock. -/
lemma inSb_of_mem_freedBlocks (hsc : SmallClass sc) {c} (hc : c ∈ freedBlocks cfg M d sc) :
    InSb cfg d c := by
  have pos : 0 < blockSize sc := by have := hsc.eight_le; omega
  have hle := hsc.mul_le
  have hs := cfg.sb_succ d
  have below : ∀ m ∈ marksIn cfg M d, m < cfg.sb (d + 1) := fun m hm => (mem_marksIn.1 hm).2.2
  refine ⟨le_of_mem_gaps pos marksIn_sorted (fun m hm => ?_) hc, ?_⟩
  · have := (mem_marksIn.1 hm).2.1
    omega
  · rcases (mem_gaps pos marksIn_sorted).1 hc with ⟨j, -, hlt, hend⟩ | ⟨m, -, -, -, hend⟩
    · rcases hend with hend | hne
      · omega
      · obtain ⟨m, hm⟩ := List.exists_mem_of_ne_nil _ hne
        exact (hlt m hm).trans (below m hm)
    · rcases hend with hend | ⟨m', hm', hlt⟩
      · omega
      · exact hlt.trans (below m' hm')

/-- The same for any superblock: nothing is freed in one that is not small or has no mark. -/
def freedIn (cfg : Cfg) (h : Heap) (M : Finset ℕ) (d : ℕ) : List ℕ :=
  match (h.desc d).heap with
  | none => []
  | some sc =>
    if 0 < sc ∧ (h.desc d).superblock = some (cfg.sb d) ∧ marksIn cfg M d ≠ [] then
      freedBlocks cfg M d sc
    else []

/-- Memory after the sweep has come to superblock `d`: each freed block is linked to the one before
it, the first one to null. -/
def relinked (cfg : Cfg) (h : Heap) (M : Finset ℕ) : ℕ → Mem
  | 0 => h.mem
  | 1 => h.mem
  | d + 2 =>
    linkAll ((freedIn cfg h M (d + 1)).zip (0 :: freedIn cfg h M (d + 1)))
    (relinked cfg h M (d + 1))

/-- One more superblock. -/
lemma relinked_succ (pos : 0 < d) : relinked cfg h M (d + 1) =
    linkAll ((freedIn cfg h M d).zip (0 :: freedIn cfg h M d)) (relinked cfg h M d) := by
  obtain ⟨d, rfl⟩ := Nat.exists_eq_add_one.2 pos
  rfl

/-- What is freed in a small superblock. -/
lemma Used.freedIn_eq (hu : Used cfg h M d sc) : freedIn cfg h M d = freedBlocks cfg M d sc := by
  rw [freedIn, hu.small.heap]
  exact if_pos ⟨hu.small.cls.1, hu.small.superblock, marksIn_ne_nil.2 hu.marked⟩

/-- Nothing is freed in a superblock that is not used. -/
lemma Sweepable.freedIn_nil (rc : Sweepable cfg h N M) (pos : 0 < d) (lt : d < N)
    (no : ∀ sc, ¬Used cfg h M d sc) : freedIn cfg h M d = [] := by
  rw [freedIn]
  by_cases hm : Marked cfg M d
  · rcases rc.kind d pos lt hm with e | ⟨sc, hs⟩ | ⟨k, hl⟩
    · rw [e]
    · exact absurd ⟨hs, hm⟩ (no sc)
    · rw [hl.heap]
      exact if_neg fun h => absurd h.1 (lt_irrefl 0)
  · split
    · rfl
    · exact if_neg fun h => hm (marksIn_ne_nil.1 h.2.2)

/-- Superblocks that are not used do not change memory. -/
lemma Sweepable.relinked_skip (rc : Sweepable cfg h N M) (pos : 0 < d) (le : d + k ≤ N)
    (no : ∀ e sc, d ≤ e → e < d + k → ¬Used cfg h M e sc) :
    relinked cfg h M (d + k) = relinked cfg h M d := by
  induction k with
  | zero => rfl
  | succ k ih =>
    have none := rc.freedIn_nil (d := d + k) (by omega) (by omega)
      fun sc => no (d + k) sc (by omega) (by omega)
    rw [← Nat.add_assoc, relinked_succ (by omega), none]
    exact ih (by omega) fun e sc h1 h2 => no e sc h1 (by omega)

end Ralloc
