import Ralloc.Machine.Trace
import Ralloc.Recovery.Outcome

/-!
# Recovery is exact

If every mark is the start of a block that is in use or an address in a superblock that is not, the
sweep ends at `curr_addr` with all marks consumed, and what it has freed is what is not marked
(`sweep_exact`).
-/

namespace Ralloc

open Lib SuperblockState

variable {cfg : Cfg} {h h' : Heap} {N d e k sc fuel : ℕ} {M : Finset ℕ}

/-- `m` is the start of a block of a small superblock that is in use, or of a large block. -/
def StartsBlock (cfg : Cfg) (h : Heap) (N m : ℕ) : Prop :=
  (∃ d sc, (0 < d ∧ d < N) ∧ IsSmall cfg h d sc ∧ m ∈ cfg.blocks sc d) ∨
    ∃ d k, (0 < d ∧ d < N) ∧ IsLarge cfg h d k ∧ m = cfg.sb d

/-- `m` lies in an unused superblock that is not part of a large block. -/
def InUnused (cfg : Cfg) (h : Heap) (N m : ℕ) : Prop :=
  ∃ d, (0 < d ∧ d < N) ∧ InSb cfg d m ∧ (h.desc d).heap = none ∧
    ∀ e k, 0 < e → IsLarge cfg h e k → ¬(e ≤ d ∧ d < e + k)

/-- The marks of a mark phase that has found pointers to block starts only. -/
def Precise (cfg : Cfg) (h : Heap) (N : ℕ) (M : Finset ℕ) : Prop :=
  ∀ m ∈ M, StartsBlock cfg h N m ∨ InUnused cfg h N m

/-- An address lies in one superblock only. -/
lemma InSb.unique {m : ℕ} (h1 : InSb cfg d m) (h2 : InSb cfg e m) : d = e := by
  by_contra ne
  rcases Nat.lt_or_gt_of_ne ne with lt | lt
  · have : cfg.sb (d + 1) ≤ cfg.sb e := Cfg.sb_le_sb.2 lt
    have := h1.2
    have := h2.1
    omega
  · have : cfg.sb (e + 1) ≤ cfg.sb d := Cfg.sb_le_sb.2 lt
    have := h2.2
    have := h1.1
    omega

/-- A block starts in its superblock. -/
lemma inSb_of_mem_blocks {b : ℕ} (hsc : SmallClass sc) (hb : b ∈ cfg.blocks sc d) :
    InSb cfg d b := by
  obtain ⟨i, hi, rfl⟩ := Cfg.mem_blocks.1 hb
  refine ⟨(Cfg.blk_bounds cfg d hsc hi).1, ?_⟩
  rw [Cfg.sb_succ]
  exact Cfg.blk_lt cfg d hsc hi

/-- A superblock contains its start. -/
lemma inSb_sb (cfg : Cfg) (d : ℕ) : InSb cfg d (cfg.sb d) := by
  refine ⟨le_rfl, ?_⟩
  rw [Cfg.sb_succ, SBSIZE_eq]
  omega

/-- Every precise mark lies in a superblock of the region. -/
lemma Precise.inSb (hM : Precise cfg h N M) {m} (hm : m ∈ M) :
    ∃ d, (0 < d ∧ d < N) ∧ InSb cfg d m := by
  rcases hM m hm with (⟨d, sc, hd, hs, hb⟩ | ⟨d, k, hd, hl, rfl⟩) | ⟨d, hd, hin, -⟩
  · exact ⟨d, hd, inSb_of_mem_blocks hs.cls hb⟩
  · exact ⟨d, hd, inSb_sb cfg d⟩
  · exact ⟨d, hd, hin⟩

/-- The marks in a small superblock are starts of its blocks. -/
lemma Precise.mem_blocks (hM : Precise cfg h N M) (hs : IsSmall cfg h d sc) {m}
    (hm : m ∈ marksIn cfg M d) : m ∈ cfg.blocks sc d := by
  obtain ⟨hm, hin⟩ := mem_marksIn.1 hm
  rcases hM m hm with (⟨e, sc', -, hs', hb⟩ | ⟨e, k, -, hl, rfl⟩) | ⟨e, -, hin', hnone, -⟩
  · obtain rfl := (inSb_of_mem_blocks hs'.cls hb).unique hin
    rwa [hs.unique hs']
  · obtain rfl := (inSb_sb cfg e).unique hin
    exact absurd hl hs.not_large
  · obtain rfl := hin'.unique hin
    rw [hs.heap] at hnone
    cases hnone

/-- A large block with a mark in its first superblock is marked itself. -/
lemma Precise.marked_large (hM : Precise cfg h N M) (hl : IsLarge cfg h d k) :
    Marked cfg M d ↔ cfg.sb d ∈ M := by
  refine ⟨fun ⟨m, hm, hin⟩ => ?_, fun hm => ⟨_, hm, inSb_sb cfg d⟩⟩
  rcases hM m hm with (⟨e, sc', -, hs', hb⟩ | ⟨e, k, -, hl', rfl⟩) | ⟨e, -, hin', hnone, -⟩
  · obtain rfl := (inSb_of_mem_blocks hs'.cls hb).unique hin
    exact absurd hl hs'.not_large
  · obtain rfl := (inSb_sb cfg e).unique hin
    exact hm
  · obtain rfl := hin'.unique hin
    rw [hl.heap] at hnone
    cases hnone

/-- The last mark of a superblock at or below an address. -/
lemma exists_last_mark {b : ℕ} (hex : ∃ m ∈ marksIn cfg M d, m ≤ b) :
    ∃ m ∈ marksIn cfg M d, m ≤ b ∧ ∀ m' ∈ marksIn cfg M d, m' ≤ b → m' ≤ m := by
  obtain ⟨x, hx, hxb⟩ := hex
  obtain ⟨m, hm, max⟩ := ((marksIn cfg M d).toFinset.filter (· ≤ b)).exists_max_image id
    ⟨x, by simp [hx, hxb]⟩
  simp only [Finset.mem_filter, List.mem_toFinset, id_eq] at hm max
  exact ⟨m, hm.1, hm.2, fun m' h1 h2 => max m' ⟨h1, h2⟩⟩

/-- With precise marks the gaps between them are the unmarked blocks. -/
lemma Precise.mem_freedBlocks (hM : Precise cfg h N M) (hu : Used cfg h M d sc) {b : ℕ} :
    b ∈ freedBlocks cfg M d sc ↔ b ∈ cfg.blocks sc d ∧ b ∉ M := by
  have hsc := hu.small.cls
  have pos : 0 < blockSize sc := by have := hsc.eight_le; omega
  have idx : ∀ {m}, m ∈ marksIn cfg M d → ∃ i < maxcount sc, m = cfg.sb d + i * blockSize sc := by
    intro m hm
    obtain ⟨i, hi, e⟩ := Cfg.mem_blocks.1 (hM.mem_blocks hu.small hm)
    exact ⟨i, hi, e.symm⟩
  have blk : ∀ j, cfg.sb d + j * blockSize sc < cfg.sb d + maxcount sc * blockSize sc →
      cfg.sb d + j * blockSize sc ∈ cfg.blocks sc d := by
    intro j hj
    exact Cfg.blk_mem (Nat.lt_of_mul_lt_mul_right (Nat.lt_of_add_lt_add_left hj))
  have mark_lt : ∀ {m}, m ∈ marksIn cfg M d → m < cfg.sb d + maxcount sc * blockSize sc := by
    intro m hm
    obtain ⟨i, hi, rfl⟩ := idx hm
    exact Nat.add_lt_add_left (Nat.mul_lt_mul_of_pos_right hi pos) _
  have here : ∀ {c}, c ∈ cfg.blocks sc d → c ∈ M → c ∈ marksIn cfg M d := fun hc hm =>
    mem_marksIn.2 ⟨hm, inSb_of_mem_blocks hsc hc⟩
  rw [freedBlocks, mem_gaps pos marksIn_sorted]
  constructor
  · rintro (⟨j, rfl, hlt, hend⟩ | ⟨m, hm, near, ⟨j, rfl⟩, hend⟩)
    · have hb := blk j (by
        rcases hend with hend | hne
        · exact hend
        · obtain ⟨m, hm⟩ := List.exists_mem_of_ne_nil _ hne
          exact (hlt m hm).trans (mark_lt hm))
      exact ⟨hb, fun hmem => absurd (hlt _ (here hb hmem)) (lt_irrefl _)⟩
    · obtain ⟨i, -, rfl⟩ := idx hm
      have e : cfg.sb d + i * blockSize sc + (j + 1) * blockSize sc =
          cfg.sb d + (i + (j + 1)) * blockSize sc := by rw [Nat.add_mul i]; omega
      have hpos : 0 < (j + 1) * blockSize sc := Nat.mul_pos (Nat.succ_pos j) pos
      have hb := blk (i + (j + 1)) (by
        rw [← e]
        rcases hend with hend | ⟨m', hm', hlt⟩
        · exact hend
        · exact hlt.trans (mark_lt hm'))
      rw [← e] at hb
      refine ⟨hb, fun hmem => ?_⟩
      have := near _ (here hb hmem) le_rfl
      omega
  · rintro ⟨hb, hnot⟩
    obtain ⟨i, hi, rfl⟩ := Cfg.mem_blocks.1 hb
    have hend : cfg.blk sc d i < cfg.sb d + maxcount sc * blockSize sc :=
      Nat.add_lt_add_left (Nat.mul_lt_mul_of_pos_right hi pos) _
    by_cases no : ∀ m ∈ marksIn cfg M d, cfg.blk sc d i < m
    · exact .inl ⟨i, rfl, no, .inl hend⟩
    · simp only [not_forall, not_lt] at no
      obtain ⟨x, hx, hxb⟩ := no
      obtain ⟨m, hm, hmb, near⟩ := exists_last_mark ⟨x, hx, hxb⟩
      obtain ⟨j, -, rfl⟩ := idx hm
      have ne : cfg.sb d + j * blockSize sc ≠ cfg.blk sc d i := fun e =>
        hnot (e ▸ (mem_marksIn.1 hm).1)
      have hji : j < i := by
        by_contra hle
        have := Nat.mul_le_mul_right (blockSize sc) (not_lt.1 hle)
        unfold Cfg.blk at ne hmb
        omega
      refine .inr ⟨_, hm, near, ⟨i - j - 1, ?_⟩, .inl hend⟩
      rw [Cfg.blk, show i - j - 1 + 1 = i - j by omega, Nat.add_assoc, ← Nat.add_mul,
        show j + (i - j) = i by omega]

/-- Precise marks are admissible. -/
lemma Precise.admissible (hM : Precise cfg h N M) (rc : Sweepable cfg h N M) :
    Admissible cfg h N M := by
  refine ⟨fun m hm => ?_, fun e k h1 h2 hk m hm hin => ?_, fun e sc h1 h2 hu c hc => ?_⟩
  · obtain ⟨d, hd, hin⟩ := hM.inSb hm
    exact le_trans (Cfg.sb_le_sb.2 hd.1) hin.1
  · obtain ⟨d, -, hd⟩ := hM.inSb hm
    have h3 : e < d := by
      have := lt_of_le_of_lt hin.1 hd.2
      by_contra hle
      exact absurd (Cfg.sb_le_sb.2 (show d + 1 ≤ e + 1 by omega)) (not_le.2 this)
    have h4 : d < e + k := by
      have := lt_of_le_of_lt hd.1 hin.2
      by_contra hle
      exact absurd (Cfg.sb_le_sb.2 (not_lt.1 hle)) (not_le.2 this)
    have hnone := rc.interior h1 h2 hk h3 h4
    rcases hM m hm with (⟨d', sc', -, hs, hb⟩ | ⟨d', k', -, hl, rfl⟩) | ⟨d', -, hin', -, out⟩
    · obtain rfl := (inSb_of_mem_blocks hs.cls hb).unique hd
      rw [hs.heap] at hnone
      cases hnone
    · obtain rfl := (inSb_sb cfg d').unique hd
      rw [hl.heap] at hnone
      cases hnone
    · obtain rfl := hin'.unique hd
      exact out e k h1 hk.large ⟨by omega, h4⟩
  · have hb := ((hM.mem_freedBlocks hu).1 (List.mem_of_getLast? hc)).1
    obtain ⟨i, -, rfl⟩ := Cfg.mem_blocks.1 hb
    rw [Cfg.blk, Nat.add_sub_cancel_left]
    exact Nat.mul_mod_left ..

/-- Superblock `d` is on list `on` once and on no other list. -/
def Heap.OnOnly (h : Heap) (d : ℕ) (on : Option ListId) : Prop :=
  ∀ l, ∃ D, h.Lists l D ∧ D.count d = if on = some l then 1 else 0

/-- The free list that the anchor of superblock `d` of class `sc` describes. -/
def freeListOf (cfg : Cfg) (h : Heap) (d sc : ℕ) : List ℕ :=
  walk h.link (cfg.blk sc d (h.desc d).anchor.avail) (h.desc d).anchor.count

/-- The anchor of a rebuilt superblock describes what the sweep has freed there. -/
lemma UsedRep.freeListOf_eq {C : List ℕ} (u : UsedRep cfg h h' d sc C) :
    freeListOf cfg h' d sc = C.reverse := by
  by_cases hC : C = []
  · rw [freeListOf, u.full hC, hC]
    rfl
  · obtain ⟨i, hlast, ha⟩ := u.part hC
    rw [freeListOf, ha]
    refine u.linked.walk_eq' (fun _ => ?_) (List.length_reverse ..).symm
    rw [List.head?_reverse, hlast]

/-- Which list a superblock is on after a sweep. -/
lemma Swept.onOnly (sw : Swept cfg h N M h') (hd : 0 < d ∧ d < N) {on : Option ListId}
    (avail : Reclaimed cfg h M d ↔ on = some .avail)
    (part : ∀ sc, (Used cfg h M d sc ∧ freedBlocks cfg M d sc ≠ []) ↔ on = some (.part sc)) :
    h'.OnOnly d on := by
  have count : ∀ {D : List ℕ} {p : Prop} [Decidable p], D.Nodup → (d ∈ D ↔ p) →
      D.count d = if p then 1 else 0 := by
    intro D p _ nd mem
    split
    · exact List.count_eq_one_of_mem nd (mem.2 ‹p›)
    · exact List.count_eq_zero_of_not_mem fun hm => ‹¬p› (mem.1 hm)
  intro l
  cases l with
  | avail =>
    obtain ⟨D, hl, nd, mem⟩ := sw.avail
    refine ⟨D, hl, count nd ?_⟩
    rw [mem, ← avail]
    exact and_iff_right hd
  | part sc =>
    obtain ⟨P, hl, nd, mem⟩ := sw.part sc
    refine ⟨P, hl, count nd ?_⟩
    rw [mem, ← part]
    exact and_iff_right hd

/-- The heap `h'` after an exact recovery of `h`. -/
structure Exact (cfg : Cfg) (h : Heap) (N : ℕ) (M : Finset ℕ) (h' : Heap) : Prop where
  /-- the free list of a small superblock with a mark has exactly its unmarked blocks -/
  small : ∀ d sc, 0 < d → d < N → IsSmall cfg h d sc → Marked cfg M d →
    (h'.desc d).plain = (h.desc d).plain ∧ (freeListOf cfg h' d sc).Nodup ∧
      ∀ b, b ∈ freeListOf cfg h' d sc ↔ b ∈ cfg.blocks sc d ∧ b ∉ M
  /-- it is full and on no list if all its blocks are marked -/
  full : ∀ d sc, 0 < d → d < N → IsSmall cfg h d sc → Marked cfg M d →
    (∀ b ∈ cfg.blocks sc d, b ∈ M) → (h'.desc d).anchor.state = SB_FULL ∧ h'.OnOnly d none
  /-- and otherwise partial and once on the partial list of its class -/
  part : ∀ d sc, 0 < d → d < N → IsSmall cfg h d sc → Marked cfg M d →
    (∃ b ∈ cfg.blocks sc d, b ∉ M) →
      (h'.desc d).anchor.state = SB_PARTIAL ∧ h'.OnOnly d (some (.part sc))
  /-- a marked large block is full, and its superblocks are on no list -/
  large : ∀ d k, 0 < d → d < N → IsLarge cfg h d k → cfg.sb d ∈ M →
    (h'.desc d).plain = (h.desc d).plain ∧ (h'.desc d).anchor.state = SB_FULL ∧
      ∀ j, d ≤ j → j < d + k → h'.OnOnly j none
  /-- every other superblock is reset and once on `avail_sb` -/
  free : ∀ d, 0 < d → d < N → (∀ sc, IsSmall cfg h d sc → ¬Marked cfg M d) →
    (∀ e k, 0 < e → IsLarge cfg h e k → cfg.sb e ∈ M → ¬(e ≤ d ∧ d < e + k)) →
      h'.desc d = { Descriptor.reset with nextFree := (h'.desc d).nextFree } ∧
        h'.OnOnly d (some .avail)
  /-- memory changes only in the link words of unmarked blocks of such small superblocks -/
  bytes : ∀ a, (∀ d sc, 0 < d → d < N → IsSmall cfg h d sc → Marked cfg M d →
    ∀ b ∈ cfg.blocks sc d, b ∉ M → a < b ∨ b + 8 ≤ a) → h'.mem a = h.mem a

section exact

variable (hM : Precise cfg h N M) (rc : Sweepable cfg h N M) (sw : Swept cfg h N M h')
include hM

/-- A rebuilt superblock has free blocks exactly when some block is unmarked. -/
lemma Precise.freed_ne_nil (hu : Used cfg h M d sc) :
    freedBlocks cfg M d sc ≠ [] ↔ ∃ b ∈ cfg.blocks sc d, b ∉ M := by
  refine ⟨fun hne => ?_, fun ⟨b, hb, hn⟩ =>
    List.ne_nil_of_mem ((hM.mem_freedBlocks hu).2 ⟨hb, hn⟩)⟩
  obtain ⟨b, hb⟩ := List.exists_mem_of_ne_nil _ hne
  obtain ⟨h1, h2⟩ := (hM.mem_freedBlocks hu).1 hb
  exact ⟨b, h1, h2⟩

include rc sw

/-- With precise marks the swept heap is exact. -/
lemma Precise.exact : Exact cfg h N M h' := by
  constructor
  case small =>
    intro d sc h1 h2 hs hm
    have hu : Used cfg h M d sc := ⟨hs, hm⟩
    have u := (sw.settled d h1 h2).used sc hu
    rw [u.freeListOf_eq]
    refine ⟨u.plain, List.nodup_reverse.2 ?_, fun b => ?_⟩
    · refine (freedBlocks_spaced cfg M d hs.cls).imp fun {a b} hab => ?_
      have := hs.cls.eight_le
      omega
    · rw [List.mem_reverse]
      exact hM.mem_freedBlocks hu
  case full =>
    intro d sc h1 h2 hs hm hall
    have hu : Used cfg h M d sc := ⟨hs, hm⟩
    have hC : freedBlocks cfg M d sc = [] := by
      by_contra hne
      obtain ⟨b, hb, hn⟩ := (hM.freed_ne_nil hu).1 hne
      exact hn (hall b hb)
    have u := (sw.settled d h1 h2).used sc hu
    refine ⟨by rw [u.full hC]; rfl, sw.onOnly ⟨h1, h2⟩ ?_ fun sc' => ?_⟩
    · simpa using fun hr : Reclaimed cfg h M d => hr.used sc hu
    · refine iff_of_false (fun ⟨hu', hne⟩ => hne ?_) (by simp)
      rw [← hs.unique hu'.small]
      exact hC
  case part =>
    intro d sc h1 h2 hs hm hex
    have hu : Used cfg h M d sc := ⟨hs, hm⟩
    have hne := (hM.freed_ne_nil hu).2 hex
    have u := (sw.settled d h1 h2).used sc hu
    obtain ⟨i, -, ha⟩ := u.part hne
    refine ⟨by rw [ha], sw.onOnly ⟨h1, h2⟩ ?_ fun sc' => ?_⟩
    · simpa using fun hr : Reclaimed cfg h M d => hr.used sc hu
    · refine ⟨fun ⟨hu', _⟩ => by rw [hs.unique hu'.small], fun e => ?_⟩
      cases e
      exact ⟨hu, hne⟩
  case large =>
    intro d k h1 h2 hl hm
    have hk : Kept cfg h M d k := ⟨hl, (hM.marked_large hl).2 hm⟩
    have hdesc := (sw.settled d h1 h2).kept k hk
    have hend := rc.fits h1 h2 hk
    refine ⟨by rw [hdesc]; rfl, by rw [hdesc]; rfl, fun j h3 h4 => ?_⟩
    refine sw.onOnly ⟨by omega, by omega⟩ ?_ fun sc => ?_
    · refine iff_of_false (fun hr => ?_) (by simp)
      by_cases e : j = d
      · subst e
        exact hr.kept k hk
      · exact hr.covered ⟨d, k, h1, hk, by omega, h4⟩
    · refine iff_of_false (fun ⟨hu, _⟩ => ?_) (by simp)
      by_cases e : j = d
      · subst e
        exact hu.small.not_large hl
      · have := rc.interior h1 h2 hk (by omega) h4
        rw [hu.small.heap] at this
        cases this
  case free =>
    intro d h1 h2 hsm hlg
    have hr : Reclaimed cfg h M d := by
      refine ⟨fun sc hu => hsm sc hu.small hu.marked, fun k hk => ?_, ?_⟩
      · exact hlg d k h1 hk.large ((hM.marked_large hk.large).1 hk.marked)
          ⟨le_rfl, by have := hk.large.pos; omega⟩
      · rintro ⟨e, k, h3, hk, h4, h5⟩
        exact hlg e k h3 hk.large ((hM.marked_large hk.large).1 hk.marked) ⟨h4.le, h5⟩
    refine ⟨(sw.settled d h1 h2).reclaimed hr, sw.onOnly ⟨h1, h2⟩ (by simpa using hr) fun sc => ?_⟩
    exact iff_of_false (fun ⟨hu, _⟩ => hr.used sc hu) (by simp)
  case bytes =>
    intro a ha
    refine sw.mem a fun e sc h1 h2 hu c hc => ?_
    obtain ⟨hb, hn⟩ := (hM.mem_freedBlocks hu).1 hc
    exact ha e sc h1 h2 hu.small hu.marked c hb hn

end exact

/-- The sweep for precise marks ends at `curr_addr`, has consumed all marks, and is exact. -/
theorem sweep_exact (rc : Recoverable cfg h N) (hM : Precise cfg h N M)
    (hfuel : N + SBSIZE < fuel) : ∃ w, sweep cfg fuel h M.sort = .done w ∧
      w.sb = h.currAddr ∧ w.marks = [] ∧ Exact cfg h N M w.heap := by
  have range : ∀ m ∈ M, cfg.heapStart ≤ m ∧ m < h.currAddr := by
    intro m hm
    obtain ⟨d, hd, hin⟩ := hM.inSb hm
    rw [rc.curr]
    exact ⟨le_trans (Nat.le_add_right ..) hin.1,
      lt_of_lt_of_le hin.2 (Cfg.sb_le_sb.2 hd.2)⟩
  have rc := rc.sweepable M
  rcases sweep_outcome rc range hfuel with ⟨-, w, e, h1, h2, sw⟩ | ⟨nadm, -⟩
  · exact ⟨w, e, h1, h2, hM.exact rc sw⟩
  · exact absurd (hM.admissible rc) nadm

/-- A heap of five superblocks: the skipped one, one of class 39, a large block of two superblocks,
and an unused one. -/
def swept : Heap :=
  { blank sample with
    currAddr := sample.sb 5
    desc := fun d =>
      if d = 1 then ⟨none, none, .zero, some (sample.sb 1), some 39, 14336, 4⟩
      else if d = 2 then ⟨none, none, .zero, some (sample.sb 2), some 0, 2 * SBSIZE, 1⟩
      else .reset }

/-- Its second superblock has small blocks. -/
lemma swept_small : IsSmall sample swept 1 39 :=
  ⟨by decide, rfl, rfl, by decide, by decide⟩

/-- Behind it there is a large block of two superblocks. -/
lemma swept_large : IsLarge sample swept 2 2 := ⟨by decide, rfl, rfl, rfl, rfl⟩

/-- It is a heap that recovery can start from. -/
lemma swept_recoverable : Recoverable sample swept 5 := by
  have large : ∀ {d k}, d < 5 → IsLarge sample swept d k → d = 2 ∧ k = 2 := by
    intro d k hd hl
    have h2 : d = 2 := by
      have := hl.heap
      interval_cases d <;> first | rfl | cases this
    subst h2
    exact ⟨rfl, hl.unique swept_large⟩
  refine ⟨by decide, rfl, by decide, fun d h1 h2 => ?_, fun h1 h2 hl => ?_,
    fun {d k j} h1 h2 hl h3 h4 => ?_⟩
  · interval_cases d
    · exact .inr (.inl ⟨39, swept_small⟩)
    · exact .inr (.inr ⟨2, swept_large⟩)
    · exact .inl rfl
    · exact .inl rfl
  · obtain ⟨rfl, rfl⟩ := large h2 hl
    decide
  · obtain ⟨rfl, rfl⟩ := large h2 hl
    obtain rfl : j = 3 := by omega
    rfl

/-- The sweep of a small heap with a mark of every kind. -/
theorem sweep_exact_sample : Recoverable sample swept 5 ∧
    Precise sample swept 5 {sample.blk 39 1 1, sample.sb 2, sample.sb 4 + 5} ∧
    ∃ w, sweep sample 70000 swept
        (({sample.blk 39 1 1, sample.sb 2, sample.sb 4 + 5} : Finset ℕ).sort) = .done w ∧
      w.sb = swept.currAddr ∧ w.marks = [] ∧
      Exact sample swept 5 {sample.blk 39 1 1, sample.sb 2, sample.sb 4 + 5} w.heap := by
  have hM : Precise sample swept 5 {sample.blk 39 1 1, sample.sb 2, sample.sb 4 + 5} := by
    intro m hm
    simp only [Finset.mem_insert, Finset.mem_singleton] at hm
    rcases hm with rfl | rfl | rfl
    · exact .inl (.inl ⟨1, 39, by decide, swept_small, Cfg.blk_mem (by decide)⟩)
    · exact .inl (.inr ⟨2, 2, by decide, swept_large, rfl⟩)
    · refine .inr ⟨4, by decide, by decide, rfl, fun e k h1 hl hin => ?_⟩
      have he : e = 2 := by
        have := hl.heap
        have := hin.1
        interval_cases e <;> first | rfl | contradiction
      subst he
      have := hl.unique swept_large
      omega
  exact ⟨swept_recoverable, hM, sweep_exact swept_recoverable hM (by decide)⟩

end Ralloc
