import Ralloc.Recovery.Exact

/-!
# Marks that are not block starts

The mark phase is conservative and also marks data that only looks like a pointer into the region.
`KeepsLive cfg h N M M'`: the sweep for the marks `M'` ends without a failed assertion and leaves
the blocks `M` alone. The code does not guarantee that for every `M'`; `keepsLive_iff` is the exact
condition `Harmless` under which it does, said in terms of the descriptors and the marks only.
-/

namespace Ralloc

open Lib SuperblockState

variable {cfg : Cfg} {h h' : Heap} {N d e k sc fuel : ℕ} {M M' : Finset ℕ}

/-- `b` is a block of `size` bytes: of a small superblock that is in use, or a large one. -/
def IsBlock (cfg : Cfg) (h : Heap) (N b size : ℕ) : Prop :=
  (∃ d sc, (0 < d ∧ d < N) ∧ IsSmall cfg h d sc ∧ b ∈ cfg.blocks sc d ∧ size = blockSize sc) ∨
    ∃ d k, (0 < d ∧ d < N) ∧ IsLarge cfg h d k ∧ b = cfg.sb d ∧ size = k * SBSIZE

/-- In `h'` no block of `M` shares a byte with a block on a free list or with a superblock on
`avail_sb`. -/
structure Live (cfg : Cfg) (h : Heap) (N : ℕ) (M : Finset ℕ) (h' : Heap) : Prop where
  free : ∀ b size, b ∈ M → IsBlock cfg h N b size → ∀ d sc, 0 < d → d < N →
    (h'.desc d).heap = some sc → sc ≠ 0 → ∀ c ∈ freeListOf cfg h' d sc,
      c + blockSize sc ≤ b ∨ b + size ≤ c
  avail : ∀ b size, b ∈ M → IsBlock cfg h N b size → ∃ D, h'.Lists .avail D ∧
    ∀ d ∈ D, cfg.sb (d + 1) ≤ b ∨ b + size ≤ cfg.sb d

/-- The sweep for the marks `M'` ends without a failed assertion and keeps the blocks `M`. -/
def KeepsLive (cfg : Cfg) (h : Heap) (N : ℕ) (M M' : Finset ℕ) : Prop :=
  ∃ n, ∀ fuel, n ≤ fuel → ∃ w, sweep cfg fuel h M'.sort = .done w ∧ Live cfg h N M w.heap

/-- The address `c` lies a multiple of `block_size` behind the last mark of superblock `d` at or
below it, or behind the start of the superblock if there is none, and below the end of the last
block or another mark. -/
def Gap (cfg : Cfg) (M : Finset ℕ) (d sc c : ℕ) : Prop :=
  (∃ j, c = cfg.sb d + j * blockSize sc) ∧ (∀ m ∈ M, InSb cfg d m → c < m) ∨
  ∃ m ∈ M, InSb cfg d m ∧ (∀ m' ∈ M, InSb cfg d m' → m' ≤ c → m' ≤ m) ∧
    (∃ j, c = m + (j + 1) * blockSize sc) ∧
    (c < cfg.sb d + maxcount sc * blockSize sc ∨ ∃ m' ∈ M, InSb cfg d m' ∧ c < m')

/-- The marks `M'` do no harm to the blocks `M`. -/
structure Harmless (cfg : Cfg) (h : Heap) (N : ℕ) (M M' : Finset ℕ) : Prop where
  /-- no mark in the first superblock -/
  first : ∀ m ∈ M', cfg.sb 1 ≤ m
  /-- no mark in a later superblock of a large block that has one in its first superblock -/
  inner : ∀ d k, 0 < d → d < N → IsLarge cfg h d k → Marked cfg M' d →
    ∀ m ∈ M', ¬(cfg.sb (d + 1) ≤ m ∧ m < cfg.sb (d + k))
  /-- the last gap of a small superblock with a mark is a multiple of `block_size` -/
  aligned : ∀ d sc, 0 < d → d < N → IsSmall cfg h d sc → Marked cfg M' d →
    ∀ c, Gap cfg M' d sc c → (∀ c', Gap cfg M' d sc c' → c' ≤ c) →
      (c - cfg.sb d) % blockSize sc = 0
  /-- no gap shares a byte with a block of `M` -/
  apart : ∀ d sc, 0 < d → d < N → IsSmall cfg h d sc → Marked cfg M' d →
    ∀ c, Gap cfg M' d sc c → ∀ b size, b ∈ M → IsBlock cfg h N b size →
      c + blockSize sc ≤ b ∨ b + size ≤ c

/-- The gaps are what the sweep frees. -/
lemma gap_iff (hsc : SmallClass sc) (hm : Marked cfg M d) {c : ℕ} :
    Gap cfg M d sc c ↔ c ∈ freedBlocks cfg M d sc := by
  have pos : 0 < blockSize sc := by have := hsc.eight_le; omega
  have hne := marksIn_ne_nil.2 hm
  rw [freedBlocks, mem_gaps pos marksIn_sorted]
  simp only [Gap, mem_marksIn, and_imp, and_assoc, hne, ne_eq, not_false_eq_true, or_true,
    and_true, exists_and_right]

/-- The sweep does not fail exactly if the first three conditions hold. -/
lemma admissible_iff : Admissible cfg h N M ↔ (∀ m ∈ M, cfg.sb 1 ≤ m) ∧
    (∀ d k, 0 < d → d < N → IsLarge cfg h d k → Marked cfg M d →
      ∀ m ∈ M, ¬(cfg.sb (d + 1) ≤ m ∧ m < cfg.sb (d + k))) ∧
    ∀ d sc, 0 < d → d < N → IsSmall cfg h d sc → Marked cfg M d →
      ∀ c, Gap cfg M d sc c → (∀ c', Gap cfg M d sc c' → c' ≤ c) →
        (c - cfg.sb d) % blockSize sc = 0 := by
  have last : ∀ d sc, IsSmall cfg h d sc → Marked cfg M d → (LastAligned cfg M d sc ↔
      ∀ c, Gap cfg M d sc c → (∀ c', Gap cfg M d sc c' → c' ≤ c) →
        (c - cfg.sb d) % blockSize sc = 0) := by
    intro d sc hs hm
    simp only [gap_iff hs.cls hm]
    rcases freedBlocks_cases cfg M d hs.cls with e | ⟨l, z, e, before⟩
    · simp [LastAligned, e]
    · have hz : ∀ c' ∈ freedBlocks cfg M d sc, c' ≤ z := by
        intro c' hc'
        rw [e, List.mem_append, List.mem_singleton] at hc'
        rcases hc' with hc' | rfl
        · have := before c' hc'
          omega
        · exact le_rfl
      have hzm : z ∈ freedBlocks cfg M d sc := by simp [e]
      refine ⟨fun al c hc max => ?_, fun al c hc => ?_⟩
      · rw [le_antisymm (hz c hc) (max z hzm)]
        exact al z (by simp [e])
      · rw [e, List.getLast?_concat] at hc
        cases hc
        exact al z hzm hz
  constructor
  · rintro ⟨first, inner, aligned⟩
    exact ⟨first, fun d k h1 h2 hl hm => inner d k h1 h2 ⟨hl, hm⟩,
      fun d sc h1 h2 hs hm => (last d sc hs hm).1 (aligned d sc h1 h2 ⟨hs, hm⟩)⟩
  · rintro ⟨first, inner, aligned⟩
    exact ⟨first, fun d k h1 h2 hk => inner d k h1 h2 hk.large hk.marked,
      fun d sc h1 h2 hu => (last d sc hu.small hu.marked).2 (aligned d sc h1 h2 hu.small hu.marked)⟩

/-- No superblock of a block of `M` is reclaimed. -/
lemma Reclaimed.apart (hr : Reclaimed cfg h M' d) {b size : ℕ} (hb : b ∈ M')
    (blk : IsBlock cfg h N b size) : cfg.sb (d + 1) ≤ b ∨ b + size ≤ cfg.sb d := by
  rcases blk with ⟨e, sc, ⟨h1, h2⟩, hs, hm, rfl⟩ | ⟨e, k, ⟨h1, h2⟩, hl, rfl, rfl⟩
  · have hin := inSb_of_mem_blocks hs.cls hm
    have ne : d ≠ e := by
      rintro rfl
      exact hr.used sc ⟨hs, b, hb, hin⟩
    obtain ⟨i, hi, rfl⟩ := Cfg.mem_blocks.1 hm
    have hend := (Cfg.blk_bounds cfg e hs.cls hi).2
    rw [← Cfg.sb_succ] at hend
    rcases Nat.lt_or_gt_of_ne ne with lt | lt
    · exact .inl (le_trans (Cfg.sb_le_sb.2 lt) hin.1)
    · exact .inr (le_trans hend (Cfg.sb_le_sb.2 lt))
  · have hk : Kept cfg h M' e k := ⟨hl, _, hb, inSb_sb cfg e⟩
    rw [← Cfg.sb_add]
    by_cases lt : d < e
    · exact .inl (Cfg.sb_le_sb.2 lt)
    · refine .inr (Cfg.sb_le_sb.2 ?_)
      by_contra hlt
      by_cases he : d = e
      · exact hr.kept k (he ▸ hk)
      · exact hr.covered ⟨e, k, h1, hk, by omega, by omega⟩

section iff

variable (rc : Sweepable cfg h N M') (range : ∀ m ∈ M', cfg.heapStart ≤ m ∧ m < h.currAddr)
include rc

/-- What a superblock that is in use after the sweep was before. -/
lemma Swept.used_of_heap (sw : Swept cfg h N M' h') (h1 : 0 < d) (h2 : d < N)
    (hheap : (h'.desc d).heap = some sc) (hsc : sc ≠ 0) : Used cfg h M' d sc := by
  have st := sw.settled d h1 h2
  by_cases hc : Covered cfg h M' d
  · obtain ⟨e, k, pos, hk, lt, hi⟩ := id hc
    rw [st.covered hc, rc.interior pos (by omega) hk lt hi] at hheap
    cases hheap
  by_cases hu : ∃ sc', Used cfg h M' d sc'
  · obtain ⟨sc', hu⟩ := hu
    have e := (st.used sc' hu).plain
    simp only [Descriptor.plain, Prod.mk.injEq] at e
    rw [e.2.1, hu.small.heap] at hheap
    cases hheap
    exact hu
  by_cases hk : ∃ k, Kept cfg h M' d k
  · obtain ⟨k, hk⟩ := hk
    rw [st.kept k hk, Descriptor.keep, hk.large.heap] at hheap
    cases hheap
    exact absurd rfl hsc
  · have hr : Reclaimed cfg h M' d := ⟨fun sc hu' => hu ⟨sc, hu'⟩, fun k hk' => hk ⟨k, hk'⟩, hc⟩
    rw [st.reclaimed hr] at hheap
    cases hheap

include range

/-- A sweep that keeps live blocks had harmless marks. -/
lemma KeepsLive.harmless (keeps : KeepsLive cfg h N M M') : Harmless cfg h N M M' := by
  obtain ⟨n, hn⟩ := keeps
  obtain ⟨w, hw, live⟩ := hn (max n (N + SBSIZE + 1)) (le_max_left ..)
  rcases sweep_outcome rc range (lt_of_lt_of_le (Nat.lt_succ_self _) (le_max_right n _))
    with ⟨adm, w', e, -, -, sw⟩ | ⟨-, a, e⟩
  · rw [hw] at e
    cases e
    obtain ⟨first, inner, aligned⟩ := admissible_iff.1 adm
    refine ⟨first, inner, aligned, fun d sc h1 h2 hs hm c hc b size hb blk => ?_⟩
    have u := (sw.settled d h1 h2).used sc ⟨hs, hm⟩
    have hheap : (w.heap.desc d).heap = some sc := by
      have e := u.plain
      simp only [Descriptor.plain, Prod.mk.injEq] at e
      rw [e.2.1, hs.heap]
    refine live.free b size hb blk d sc h1 h2 hheap (by have := hs.cls.1; omega) c ?_
    rw [u.freeListOf_eq, List.mem_reverse]
    exact (gap_iff hs.cls hm).1 hc
  · rw [hw] at e
    cases e

/-- Harmless marks keep the live blocks. -/
lemma Harmless.keepsLive (hl : Harmless cfg h N M M') (sub : M ⊆ M') :
    KeepsLive cfg h N M M' := by
  refine ⟨N + SBSIZE + 1, fun fuel hfuel => ?_⟩
  have adm : Admissible cfg h N M' := admissible_iff.2 ⟨hl.first, hl.inner, hl.aligned⟩
  rcases sweep_outcome rc range (show N + SBSIZE < fuel from hfuel)
    with ⟨-, w, e, -, -, sw⟩ | ⟨nadm, -⟩
  · refine ⟨w, e, fun b size hb blk d sc h1 h2 hheap hsc c hc => ?_, fun b size hb blk => ?_⟩
    · have hu := sw.used_of_heap rc h1 h2 hheap hsc
      rw [((sw.settled d h1 h2).used sc hu).freeListOf_eq, List.mem_reverse] at hc
      exact hl.apart d sc h1 h2 hu.small hu.marked c ((gap_iff hu.small.cls hu.marked).2 hc)
        b size hb blk
    · obtain ⟨D, hD, -, mem⟩ := sw.avail
      exact ⟨D, hD, fun d hd => ((mem d).1 hd).2.apart (sub hb) blk⟩
  · exact absurd adm nadm

end iff

/-- Precise marks are harmless. -/
lemma Precise.harmless (hM : Precise cfg h N M') (rc : Sweepable cfg h N M') (sub : M ⊆ M') :
    Harmless cfg h N M M' := by
  obtain ⟨first, inner, aligned⟩ := admissible_iff.1 (hM.admissible rc)
  refine ⟨first, inner, aligned, fun d sc h1 h2 hs hm c hc b size hb blk => ?_⟩
  obtain ⟨hc, hn⟩ := (hM.mem_freedBlocks ⟨hs, hm⟩).1 ((gap_iff hs.cls hm).1 hc)
  obtain ⟨i, hi, rfl⟩ := Cfg.mem_blocks.1 hc
  obtain ⟨lo, hi⟩ := Cfg.blk_bounds cfg d hs.cls hi
  rw [← Cfg.sb_succ] at hi
  -- a block of other superblocks lies before or behind this one
  have other : ∀ {e k}, d < e ∨ e + k ≤ d → cfg.sb e ≤ b → b + size ≤ cfg.sb (e + k) →
      cfg.blk sc d i + blockSize sc ≤ b ∨ b + size ≤ cfg.blk sc d i := by
    rintro e k (lt | le) hb he
    · exact .inl (hi.trans ((Cfg.sb_le_sb.2 lt).trans hb))
    · exact .inr (he.trans ((Cfg.sb_le_sb.2 le).trans lo))
  rcases blk with ⟨e, sc', he, hs', hm', rfl⟩ | ⟨e, k, he, hl, rfl, rfl⟩
  · obtain ⟨j, hj, rfl⟩ := Cfg.mem_blocks.1 hm'
    by_cases same : d = e
    · subst same
      obtain rfl := hs.unique hs'
      refine Cfg.blk_disjoint fun e => hn ?_
      rw [e]
      exact sub hb
    · obtain ⟨lo', hi'⟩ := Cfg.blk_bounds cfg e hs'.cls hj
      rw [← Cfg.sb_succ] at hi'
      exact other (by omega) lo' hi'
  · have hk : Kept cfg h M' e k := ⟨hl, _, sub hb, inSb_sb cfg e⟩
    refine other ?_ le_rfl (by rw [Cfg.sb_add])
    by_contra hin
    by_cases same : d = e
    · exact hs.not_large (same ▸ hl)
    · have hnone := rc.interior he.1 he.2 hk (show e < d by omega) (by omega)
      rw [hs.heap] at hnone
      cases hnone

/-- The sweep for more marks than the live blocks `M` completes and keeps them exactly if the marks
are harmless. -/
theorem keepsLive_iff (rc : Recoverable cfg h N) (sub : M ⊆ M')
    (range : ∀ m ∈ M', cfg.heapStart ≤ m ∧ m < h.currAddr) :
    KeepsLive cfg h N M M' ↔ Harmless cfg h N M M' :=
  ⟨fun keeps => keeps.harmless (rc.sweepable M') range,
    fun hl => hl.keepsLive (rc.sweepable M') range sub⟩

/-- A pointer to the second word of the first block of a small superblock, besides pointers to that
block and to the third one. -/
def fieldMarks : Finset ℕ := {sample.blk 39 1 0, sample.blk 39 1 0 + 8, sample.blk 39 1 2}

/-- The sweep for `fieldMarks` frees 14336 bytes behind the field, among them bytes of the third
block. -/
theorem field_pointer_loses_block : Recoverable sample swept 5 ∧
    (∀ b ∈ ({sample.blk 39 1 0, sample.blk 39 1 2} : Finset ℕ), StartsBlock sample swept 5 b) ∧
    ({sample.blk 39 1 0, sample.blk 39 1 2} : Finset ℕ) ⊆ fieldMarks ∧
    (∀ m ∈ fieldMarks, sample.heapStart ≤ m ∧ m < swept.currAddr) ∧
    ¬KeepsLive sample swept 5 {sample.blk 39 1 0, sample.blk 39 1 2} fieldMarks := by
  have range : ∀ m ∈ fieldMarks, sample.heapStart ≤ m ∧ m < swept.currAddr := by decide
  refine ⟨swept_recoverable, fun b hb => ?_, by decide, range, fun keeps => ?_⟩
  · refine .inl ⟨1, 39, by decide, swept_small, ?_⟩
    revert b
    decide
  · have hm : Marked sample fieldMarks 1 := ⟨sample.blk 39 1 0, by decide, by decide⟩
    have gap : Gap sample fieldMarks 1 39 (sample.blk 39 1 0 + 8 + 14336) := by
      refine .inr ⟨sample.blk 39 1 0 + 8, by decide, by decide, by decide, ⟨0, by decide⟩, ?_⟩
      exact .inl (by decide)
    have := (keeps.harmless (swept_recoverable.sweepable _) range).apart 1 39
      (by decide) (by decide)
      swept_small hm _ gap (sample.blk 39 1 2) 14336 (by decide)
      (.inl ⟨1, 39, by decide, swept_small, by decide, by decide⟩)
    revert this
    decide

/-- A pointer into an unused superblock does no harm. -/
theorem keepsLive_sample : Recoverable sample swept 5 ∧
    (KeepsLive sample swept 5 {sample.blk 39 1 1} {sample.blk 39 1 1, sample.sb 4 + 5} ↔
      Harmless sample swept 5 {sample.blk 39 1 1} {sample.blk 39 1 1, sample.sb 4 + 5}) :=
  ⟨swept_recoverable, keepsLive_iff swept_recoverable (by decide) (by decide)⟩

end Ralloc
