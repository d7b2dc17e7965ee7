import Ralloc.Machine.Exec

/-!
# Where superblocks and blocks are

Superblock `d` of a heap starts at `cfg.sb d`; block `i` of a superblock of class `sc` starts at
`cfg.blk sc d i`. The lemmas here say that the address computations of the source (`desc_lookup`,
`sb_lookup`, `compute_idx`) agree with these, that blocks are disjoint and word aligned, and what a
write of one link word does to the others. No later module computes with addresses.
-/

namespace Ralloc

open Lib

namespace Cfg

/-- The start of superblock `d`. -/
def sb (cfg : Cfg) (d : ℕ) : ℕ := cfg.heapStart + d * SBSIZE

/-- The start of block `i` of superblock `d` of class `sc`. -/
def blk (cfg : Cfg) (sc d i : ℕ) : ℕ := cfg.sb d + i * blockSize sc

/-- The blocks of superblock `d` of class `sc`. -/
def blocks (cfg : Cfg) (sc d : ℕ) : List ℕ := (List.range (maxcount sc)).map (cfg.blk sc d)

/-- Superblock `d` lies inside the mapping. -/
def Inside (cfg : Cfg) (d : ℕ) : Prop := cfg.sb (d + 1) ≤ cfg.base + cfg.filesize

variable {cfg : Cfg}

/-- Superblocks lie side by side. -/
lemma sb_succ (cfg : Cfg) (d : ℕ) : cfg.sb (d + 1) = cfg.sb d + SBSIZE := by
  simp only [sb, SBSIZE_eq]
  omega

/-- Several of them. -/
lemma sb_add (cfg : Cfg) (d n : ℕ) : cfg.sb (d + n) = cfg.sb d + n * SBSIZE := by
  simp only [sb, SBSIZE_eq]
  omega

/-- Superblocks are aligned. -/
lemma sb_mod (cfg : Cfg) (d : ℕ) : cfg.sb d % SBSIZE = 0 := by
  have := cfg.aligned
  simp only [sb, SBSIZE_eq] at *
  omega

/-- No superblock starts at null. -/
lemma sb_pos (cfg : Cfg) (d : ℕ) : 0 < cfg.sb d := by
  have := cfg.header
  simp only [sb, PAGESIZE] at *
  omega

/-- They come in the order of their indices. -/
lemma sb_le_sb {d e : ℕ} : cfg.sb d ≤ cfg.sb e ↔ d ≤ e := by
  simp only [sb, SBSIZE_eq]
  omega

/-- Their starts are different. -/
lemma sb_inj {d e : ℕ} : cfg.sb d = cfg.sb e ↔ d = e := by
  simp only [sb, SBSIZE_eq]
  omega

/-- Addresses in superblocks of the mapping use 48 bits. -/
lemma Inside.lt {d a : ℕ} (h : cfg.Inside d) (ha : a < cfg.sb d + SBSIZE) : a < ADDR := by
  have h1 := cfg.bound
  have h2 : cfg.sb (d + 1) ≤ cfg.base + cfg.filesize := h
  rw [sb_succ] at h2
  omega

/-- `desc_lookup` of an address in superblock `d`. -/
lemma Inside.sbIndex {d a : ℕ} (h : cfg.Inside d) (lo : cfg.sb d ≤ a) (hi : a < cfg.sb d + SBSIZE) :
    sbIndex cfg.heapStart a = d := by
  have hlt := h.lt hi
  obtain ⟨o, rfl⟩ := Nat.exists_eq_add_of_le lo
  refine sbIndex_eq cfg.aligned (by omega) ?_
  unfold ADDR at hlt
  unfold WORD
  unfold sb at hlt
  omega

/-- The start of a superblock gives its index back. -/
lemma Inside.sbIndex_sb {d : ℕ} (h : cfg.Inside d) : Ralloc.sbIndex cfg.heapStart (cfg.sb d) = d :=
  h.sbIndex (le_refl _) (by simp [SBSIZE_eq])

/-- `sb_lookup` of descriptor `d`. -/
lemma Inside.sbLookup {d : ℕ} (h : cfg.Inside d) : sbLookup cfg.heapStart d = cfg.sb d := by
  have hlt := h.lt (a := cfg.sb d) (by simp [SBSIZE_eq])
  refine sbLookup_eq ?_
  unfold ADDR at hlt
  unfold WORD
  unfold sb at hlt
  omega

/-- Growing a region that ends at a superblock by whole superblocks. -/
lemma grow_of_fits {n k : ℕ} (inside : cfg.sb n ≤ cfg.base + cfg.filesize) (hk : k * SBSIZE < HALF)
    (fits : cfg.fits (cfg.sb n) PAGESIZE (k * SBSIZE) = true) :
    alignAdj (cfg.sb n) PAGESIZE = cfg.sb n ∧
      bumpNext (cfg.sb n) PAGESIZE (k * SBSIZE) = cfg.sb (n + k) ∧
      cfg.sb (n + k) ≤ cfg.base + cfg.filesize := by
  have adj := alignAdj_page (cfg.sb_mod n)
  have hlt : cfg.sb n + k * SBSIZE < WORD := by
    have := cfg.bound
    unfold ADDR at this
    unfold HALF at hk
    unfold WORD
    omega
  have next : bumpNext (cfg.sb n) PAGESIZE (k * SBSIZE) = cfg.sb (n + k) := by
    rw [bumpNext, adj, Nat.mod_eq_of_lt hlt, sb_add]
  refine ⟨adj, next, ?_⟩
  rw [Region.fits, next, decide_eq_true_eq] at fits
  rwa [cfg.limit_eq] at fits

/-- The first block starts with the superblock. -/
lemma blk_zero (cfg : Cfg) (sc d : ℕ) : cfg.blk sc d 0 = cfg.sb d := by simp [blk]

/-- The blocks of a superblock by their indices. -/
lemma mem_blocks {sc d b : ℕ} : b ∈ cfg.blocks sc d ↔ ∃ i < maxcount sc, cfg.blk sc d i = b := by
  simp [blocks]

/-- There are `maxcount` blocks. -/
lemma length_blocks (cfg : Cfg) (sc d : ℕ) : (cfg.blocks sc d).length = maxcount sc := by
  simp [blocks]

/-- One of them. -/
lemma blk_mem {sc d i : ℕ} (h : i < maxcount sc) : cfg.blk sc d i ∈ cfg.blocks sc d :=
  mem_blocks.2 ⟨i, h, rfl⟩

/-- Their starts are different too. -/
lemma blk_inj {sc d i j : ℕ} (hsc : SmallClass sc) : cfg.blk sc d i = cfg.blk sc d j ↔ i = j := by
  have := hsc.eight_le
  refine ⟨fun h => ?_, fun h => by rw [h]⟩
  simp only [blk, Nat.add_left_cancel_iff] at h
  exact Nat.eq_of_mul_eq_mul_right (by omega) h

/-- So no block is listed twice. -/
lemma blocks_nodup {sc d : ℕ} (hsc : SmallClass sc) : (cfg.blocks sc d).Nodup :=
  List.Nodup.map (fun _ _ h => (blk_inj hsc).1 h) List.nodup_range

/-- A block lies inside its superblock. -/
lemma blk_bounds (cfg : Cfg) (d : ℕ) {sc i : ℕ} (hsc : SmallClass sc) (hi : i < maxcount sc) :
    cfg.sb d ≤ cfg.blk sc d i ∧ cfg.blk sc d i + blockSize sc ≤ cfg.sb d + SBSIZE := by
  have h1 := hsc.mul_le
  have h2 : (i + 1) * blockSize sc ≤ maxcount sc * blockSize sc := Nat.mul_le_mul_right _ hi
  rw [Nat.add_mul, Nat.one_mul] at h2
  unfold blk
  omega

/-- A block starts inside its superblock. -/
lemma blk_lt (cfg : Cfg) (d : ℕ) {sc i : ℕ} (hsc : SmallClass sc) (hi : i < maxcount sc) :
    cfg.blk sc d i < cfg.sb d + SBSIZE := by
  have := blk_bounds cfg d hsc hi
  have := hsc.eight_le
  omega

/-- `desc_lookup` of a block. -/
lemma sbIndex_of_mem {sc d b : ℕ} (hsc : SmallClass sc) (hd : cfg.Inside d)
    (hb : b ∈ cfg.blocks sc d) : sbIndex cfg.heapStart b = d := by
  obtain ⟨i, hi, rfl⟩ := mem_blocks.1 hb
  exact hd.sbIndex (blk_bounds cfg d hsc hi).1 (blk_lt cfg d hsc hi)

/-- Blocks use 48-bit addresses. -/
lemma lt_of_mem {sc d b : ℕ} (hsc : SmallClass sc) (hd : cfg.Inside d)
    (hb : b ∈ cfg.blocks sc d) : b < ADDR := by
  obtain ⟨i, hi, rfl⟩ := mem_blocks.1 hb
  exact hd.lt (blk_lt cfg d hsc hi)

/-- Blocks are word aligned. -/
lemma mod_of_mem {sc d b : ℕ} (hsc : SmallClass sc) (hb : b ∈ cfg.blocks sc d) : b % 8 = 0 := by
  obtain ⟨i, hi, rfl⟩ := mem_blocks.1 hb
  obtain ⟨k, hk⟩ := Nat.dvd_of_mod_eq_zero hsc.aligned
  have := cfg.sb_mod d
  rw [blk, hk, show i * (8 * k) = 8 * (i * k) by rw [Nat.mul_left_comm]]
  rw [SBSIZE_eq] at this
  omega

/-- `compute_idx` of a block. -/
lemma computeIdx_blk {sc d i : ℕ} (hsc : SmallClass sc) (hi : i < maxcount sc) :
    computeIdx (cfg.sb d) (cfg.blk sc d i) sc = some i := by
  have h := blk_bounds cfg d hsc hi
  have h' := blk_lt cfg d hsc hi
  have h8 := hsc.eight_le
  rw [computeIdx, if_pos ⟨h.1, by rw [hsc.sbSize_eq]; exact h', hsc⟩]
  rw [blk, Nat.add_sub_cancel_left, Nat.mul_div_cancel _ (by omega)]

/-- A block is outside the other superblocks. -/
lemma not_mem_range_of_ne {sc d e b : ℕ} (hsc : SmallClass sc) (hb : b ∈ cfg.blocks sc d)
    (ne : d ≠ e) : b < cfg.sb e ∨ cfg.sb e + SBSIZE ≤ b := by
  obtain ⟨i, hi, rfl⟩ := mem_blocks.1 hb
  have h1 := (blk_bounds cfg d hsc hi).1
  have h2 := blk_lt cfg d hsc hi
  rcases Nat.lt_or_gt_of_ne ne with lt | lt
  · have : cfg.sb (d + 1) ≤ cfg.sb e := sb_le_sb.2 lt
    rw [sb_succ] at this
    omega
  · have : cfg.sb (e + 1) ≤ cfg.sb d := sb_le_sb.2 lt
    rw [sb_succ] at this
    omega

/-- Two different blocks of one superblock do not overlap. -/
lemma blk_disjoint {sc d i j : ℕ} (ne : i ≠ j) :
    cfg.blk sc d i + blockSize sc ≤ cfg.blk sc d j ∨
      cfg.blk sc d j + blockSize sc ≤ cfg.blk sc d i := by
  unfold blk
  rcases Nat.lt_or_gt_of_ne ne with lt | lt
  · have : (i + 1) * blockSize sc ≤ j * blockSize sc := Nat.mul_le_mul_right _ lt
    rw [Nat.add_mul, Nat.one_mul] at this
    omega
  · have : (j + 1) * blockSize sc ≤ i * blockSize sc := Nat.mul_le_mul_right _ lt
    rw [Nat.add_mul, Nat.one_mul] at this
    omega

end Cfg

namespace Heap

/-- A link that was written reads back. -/
lemma link_setLink_self {h : Heap} {b v : ℕ} (hb : b < ADDR) (hv : v < ADDR) :
    (h.setLink b v).link b = v := by
  unfold link setLink
  rw [load_store (toPptrOff_lt hv hb), fromPptrOff_toPptrOff hv hb]

/-- Writing a link keeps the links of other aligned words. -/
lemma link_setLink_ne {h : Heap} {b v c : ℕ} (ne : c ≠ b) (hb : b % 8 = 0) (hc : c % 8 = 0) :
    (h.setLink b v).link c = h.link c := by
  unfold link setLink
  rw [load_store_out (by omega)]

end Heap

end Ralloc
