import Ralloc.Model.Config
import Mathlib.Tactic.IntervalCases
import Mathlib.Data.List.GetD

/-!
# Size classes

Model of `SizeClass.hpp` and `SizeClass.cpp`: the table of size classes, the lookup table from
request sizes to classes that the constructor `SizeClass::SizeClass` fills, and the block index
`BaseMeta::compute_idx`.

The rows of `SIZE_CLASSES` with `bin = no` expand to nothing in both uses of the macro, so only the
39 rows with `bin = yes` appear. `getSizeclass_spec` is what the rest of the development uses of the
lookup table: the class found is the first one whose blocks are large enough.
-/

namespace Ralloc

/-- `SizeClassData`. -/
structure SizeClassData where
  blockSize : ℕ
  sbSize : ℕ
  blockNum : ℕ
  cacheBlockNum : ℕ
  deriving DecidableEq, Repr, Inhabited

/-- The rows of `SIZE_CLASSES` that make a bin: `lg_grp`, `lg_delta`, `ndelta`. -/
def sizeClassRows : List (ℕ × ℕ × ℕ) :=
  [(3, 3, 0), (3, 3, 1), (3, 3, 2), (3, 3, 3),
   (5, 3, 1), (5, 3, 2), (5, 3, 3), (5, 3, 4),
   (6, 4, 1), (6, 4, 2), (6, 4, 3), (6, 4, 4),
   (7, 5, 1), (7, 5, 2), (7, 5, 3), (7, 5, 4),
   (8, 6, 1), (8, 6, 2), (8, 6, 3), (8, 6, 4),
   (9, 7, 1), (9, 7, 2), (9, 7, 3), (9, 7, 4),
   (10, 8, 1), (10, 8, 2), (10, 8, 3), (10, 8, 4),
   (11, 9, 1), (11, 9, 2), (11, 9, 3), (11, 9, 4),
   (12, 10, 1), (12, 10, 2), (12, 10, 3), (12, 10, 4),
   (13, 11, 1), (13, 11, 2), (13, 11, 3)]

/-- The entry of `SizeClass::sizeclasses` for one row (`SIZE_CLASS_bin_yes`). -/
def SizeClassData.ofRow : ℕ × ℕ × ℕ → SizeClassData
  | (lgGrp, lgDelta, ndelta) =>
    let size := (1 <<< lgGrp) + (ndelta <<< lgDelta)
    ⟨size, SBSIZE, SBSIZE / size, SBSIZE / size⟩

/-- `SizeClass::sizeclasses`; entry 0 is reserved for large allocations. -/
def sizeclasses : List SizeClassData :=
  ⟨0, 0, 0, 0⟩ :: sizeClassRows.map SizeClassData.ofRow

/-- `SizeClass::get_sizeclass_by_idx`. -/
def getSizeclassByIdx (idx : ℕ) : SizeClassData := sizeclasses.getD idx default

/-- The block size of a class. -/
def blockSize (sc : ℕ) : ℕ := (getSizeclassByIdx sc).blockSize

/-- `SizeClassData::get_block_num`: the number of blocks of a superblock of the class. -/
def maxcount (sc : ℕ) : ℕ := (getSizeclassByIdx sc).blockNum

/-- The number of blocks of the class that a thread may keep in its cache. -/
def cacheBlockNum (sc : ℕ) : ℕ := (getSizeclassByIdx sc).cacheBlockNum

/-- A class of small blocks. -/
def SmallClass (sc : ℕ) : Prop := 0 < sc ∧ sc < MAX_SZ_IDX

instance (sc : ℕ) : Decidable (SmallClass sc) := inferInstanceAs (Decidable (_ ∧ _))

/-- One turn of the constructor's loop: the while loop writes the class into the lookup table from
the first free entry up to the class's block size. -/
def fillLookup (table : List ℕ) (sc : ℕ) : List ℕ :=
  table ++ List.replicate (blockSize sc + 1 - table.length) sc

/-- `SizeClass::sizeclass_lookup` as the constructor leaves it. -/
def sizeclassLookup : List ℕ := (List.range' 1 (MAX_SZ_IDX - 1)).foldl fillLookup []

/-- `SizeClass::get_sizeclass`. -/
def getSizeclass (size : ℕ) : ℕ := sizeclassLookup.getD size 0

/-- `BaseMeta::compute_idx`. The `switch` divides by the block size of the class; a class without a
case, or a block outside the superblock, fails an assertion. -/
def computeIdx (superblock block sc : ℕ) : Option ℕ :=
  if superblock ≤ block ∧ block < superblock + (getSizeclassByIdx sc).sbSize ∧ SmallClass sc then
    some ((block - superblock) / blockSize sc)
  else none

/-- What the table says about every class of small blocks. -/
theorem SmallClass.table {sc : ℕ} (h : SmallClass sc) :
    8 ≤ blockSize sc ∧ blockSize sc % 8 = 0 ∧ 4 ≤ maxcount sc ∧
      maxcount sc = SBSIZE / blockSize sc ∧ cacheBlockNum sc = maxcount sc ∧
      (getSizeclassByIdx sc).sbSize = SBSIZE := by
  obtain ⟨h0, h1⟩ := h
  rw [MAX_SZ_IDX] at h1
  interval_cases sc <;> decide

/-- A block has room for a link. -/
lemma SmallClass.eight_le {sc} (h : SmallClass sc) : 8 ≤ blockSize sc := h.table.1

/-- Blocks consist of whole words. -/
lemma SmallClass.aligned {sc} (h : SmallClass sc) : blockSize sc % 8 = 0 := h.table.2.1

/-- A superblock has at least four blocks. -/
lemma SmallClass.four_le {sc} (h : SmallClass sc) : 4 ≤ maxcount sc := h.table.2.2.1

/-- Small classes are for small sizes. -/
lemma SmallClass.le_max {sc} (h : SmallClass sc) : blockSize sc ≤ MAX_SZ :=
  (show ∀ sc < MAX_SZ_IDX, blockSize sc ≤ MAX_SZ by decide) sc h.2

/-- A cache has room for the blocks of one superblock. -/
lemma SmallClass.cacheBlockNum_eq {sc} (h : SmallClass sc) : cacheBlockNum sc = maxcount sc :=
  h.table.2.2.2.2.1

/-- Small classes use superblocks of the one size. -/
lemma SmallClass.sbSize_eq {sc} (h : SmallClass sc) : (getSizeclassByIdx sc).sbSize = SBSIZE :=
  h.table.2.2.2.2.2

/-- The blocks of a superblock fit into it. -/
lemma SmallClass.mul_le {sc} (h : SmallClass sc) : maxcount sc * blockSize sc ≤ SBSIZE := by
  rw [h.table.2.2.2.1]
  exact Nat.div_mul_le_self _ _

/-- The largest number of blocks in a superblock. -/
def MAX_BLOCKS : ℕ := SBSIZE / 8

/-- Of the smallest class. -/
lemma MAX_BLOCKS_eq : MAX_BLOCKS = 8192 := rfl

/-- No class has more blocks in a superblock. -/
lemma SmallClass.maxcount_le {sc} (h : SmallClass sc) : maxcount sc ≤ MAX_BLOCKS := by
  rw [h.table.2.2.2.1]
  exact Nat.div_le_div_left h.eight_le (by decide)

/-- Block sizes grow with the class. -/
lemma blockSize_lt_succ {sc} (h : sc + 1 < MAX_SZ_IDX) : blockSize sc < blockSize (sc + 1) := by
  rw [MAX_SZ_IDX] at h
  have : sc < 39 := by omega
  interval_cases sc <;> decide

/-- The lookup table after the classes `1 .. n`: entry `size` is the first class with blocks of at
least that size. -/
private lemma foldl_fillLookup (n : ℕ) (hn : n < MAX_SZ_IDX) :
    (n = 0 ∨ ((List.range' 1 n).foldl fillLookup []).length = blockSize n + 1) ∧
    ∀ size sc, ((List.range' 1 n).foldl fillLookup [])[size]? = some sc →
      0 < sc ∧ sc ≤ n ∧ size ≤ blockSize sc ∧ (1 < sc → blockSize (sc - 1) < size) := by
  induction n with
  | zero => exact ⟨.inl rfl, by simp⟩
  | succ n ih =>
    obtain ⟨hlen, hmem⟩ := ih (by omega)
    rw [List.range'_concat, List.foldl_append]
    simp only [List.foldl_cons, List.foldl_nil, Nat.one_mul]
    rw [show 1 + n = n + 1 by omega]
    set table := (List.range' 1 n).foldl fillLookup [] with htable
    have hlt := blockSize_lt_succ hn
    have hlen' : table.length ≤ blockSize (n + 1) := by
      rcases hlen with rfl | h
      · simp [htable]
      · omega
    refine ⟨.inr ?_, fun size sc hget => ?_⟩
    · simp only [fillLookup, List.length_append, List.length_replicate]
      omega
    · rw [fillLookup, List.getElem?_append] at hget
      split at hget
      · obtain ⟨h1, h2, h3, h4⟩ := hmem size sc hget
        exact ⟨h1, by omega, h3, h4⟩
      · rw [List.getElem?_replicate] at hget
        split at hget
        · cases hget
          refine ⟨by omega, le_refl _, by omega, fun h1 => ?_⟩
          rcases hlen with rfl | h
          · omega
          · rw [Nat.add_sub_cancel]
            omega
        · cases hget

/-- The class of a small request is the first one with blocks of at least the requested size. -/
theorem getSizeclass_spec {size : ℕ} (h : size ≤ MAX_SZ) :
    SmallClass (getSizeclass size) ∧ size ≤ blockSize (getSizeclass size) ∧
      (1 < getSizeclass size → blockSize (getSizeclass size - 1) < size) := by
  obtain ⟨hlen, hmem⟩ := foldl_fillLookup (MAX_SZ_IDX - 1) (by decide)
  have hlt : size < sizeclassLookup.length := by
    rw [sizeclassLookup, hlen.resolve_left (by decide)]
    have : blockSize (MAX_SZ_IDX - 1) = MAX_SZ := by decide
    omega
  have hget : sizeclassLookup[size]? = some (getSizeclass size) := by
    rw [getSizeclass, List.getD_eq_getElem?_getD, List.getElem?_eq_getElem hlt]
    rfl
  obtain ⟨h1, h2, h3, h4⟩ := hmem size _ hget
  exact ⟨⟨h1, by unfold MAX_SZ_IDX at h2 ⊢; omega⟩, h3, h4⟩

end Ralloc
