import Ralloc.Model.Config
import Mathlib.Data.Nat.Bitwise

/-!
# Regions

Model of the parts of `RegionManager.cpp`, `RegionManager.hpp` and `BaseMeta` that compute with
addresses of a mapped region: the bump allocation of `RegionManager::__nvm_region_allocator`,
`BaseMeta::round_up`, and the lookups between superblocks and descriptors. All arithmetic is on
64-bit words.

`Cfg` is the superblock region as `BaseMeta::BaseMeta` leaves it, with what the rest of the
development needs to know about it as fields.
-/

namespace Ralloc

/-- A mapped region: `base_addr` and `FILESIZE`. -/
structure Region where
  base : ℕ
  filesize : ℕ
  deriving DecidableEq, Repr

/-- The address after the last byte of the mapping, `base_addr + FILESIZE`. -/
def Region.limit (r : Region) : ℕ := (r.base + r.filesize) % WORD

/-- The argument checks of `__nvm_region_allocator`: a positive size and an alignment that is a
power of two and at least `sizeof(void*)`. -/
def argsOk (alignment size : ℕ) : Bool :=
  size ≠ 0 ∧ alignment &&& ((WORD - alignment) % WORD) = alignment ∧ 8 ≤ alignment

/-- `new_curr_addr` after the alignment adjustment. -/
def alignAdj (cur alignment : ℕ) : ℕ :=
  let adj := cur &&& (alignment - 1)
  if adj ≠ 0 then (cur + (alignment - adj)) % WORD else cur

/-- The new `curr_addr` when `size` bytes are taken at the adjusted address. -/
def bumpNext (cur alignment size : ℕ) : ℕ := (alignAdj cur alignment + size) % WORD

/-- The out-of-space test of `__nvm_region_allocator` (and of `small_sb_alloc`, which inlines
it). -/
def Region.fits (r : Region) (cur alignment size : ℕ) : Bool :=
  bumpNext cur alignment size ≤ r.limit

/-- `BaseMeta::round_up`, for a power of two `multiple`. -/
def roundUp (n multiple : ℕ) : ℕ :=
  ((n + multiple - 1) % WORD) &&& (WORD - multiple)

/-- The index computed by `BaseMeta::desc_lookup` when the superblock region starts at `start`. -/
def sbIndex (start ptr : ℕ) : ℕ :=
  (ptr >>> SB_SHIFT + WORD - start >>> SB_SHIFT) % WORD

/-- `BaseMeta::sb_lookup` on the descriptor with index `d`. -/
def sbLookup (start d : ℕ) : ℕ := (start + d <<< SB_SHIFT) % WORD

/-- The superblock region of a heap: where it is mapped and where its superblocks start. -/
structure Cfg extends Region where
  heapStart : ℕ
  /-- the first page is the header -/
  header : base + PAGESIZE ≤ heapStart
  /-- the constructor expands the region with alignment `SBSIZE` -/
  aligned : heapStart % SBSIZE = 0
  /-- the warm-up expansion of the constructor succeeded -/
  warm : heapStart + SB_REGION_EXPAND_SIZE ≤ base + filesize
  /-- addresses use 48 bits -/
  bound : base + filesize ≤ ADDR

/-- The limit that `region_allocator` compares with is the end of the mapping. -/
lemma Cfg.limit_eq (cfg : Cfg) : cfg.limit = cfg.base + cfg.filesize := by
  have h := cfg.bound
  unfold ADDR at h
  exact Nat.mod_eq_of_lt (by unfold WORD; omega)

/-- The least multiple of `m` that is not below `n`. -/
def alignUp (n m : ℕ) : ℕ := (n + m - 1) / m * m

/-- A rounded address is aligned. -/
lemma alignUp_mod (n m : ℕ) : alignUp n m % m = 0 := Nat.mul_mod_left ..

/-- Rounding goes up. -/
lemma le_alignUp {n m : ℕ} (pos : 0 < m) : n ≤ alignUp n m := by
  have h := Nat.lt_mul_div_succ (n + m - 1) pos
  rw [Nat.mul_succ, Nat.mul_comm] at h
  rw [alignUp]
  omega

/-- By less than the alignment. -/
lemma alignUp_lt {n m : ℕ} (pos : 0 < m) : alignUp n m < n + m := by
  have h := Nat.div_mul_le_self (n + m - 1) m
  rw [alignUp]
  omega

/-- The next multiple of `m`, by the distance to it. -/
lemma alignUp_eq {n m : ℕ} (pos : 0 < m) :
    alignUp n m = if n % m = 0 then n else n + (m - n % m) := by
  have hn := Nat.div_add_mod' n m
  have hr := Nat.mod_lt n pos
  rw [alignUp]
  split
  case isTrue h =>
    rw [h, Nat.add_zero] at hn
    rw [← hn, Nat.add_sub_assoc pos, Nat.add_comm, Nat.add_mul_div_right _ _ pos,
      Nat.div_eq_of_lt (by omega), Nat.zero_add]
  case isFalse h =>
    have : n + m - 1 = n % m - 1 + (n / m + 1) * m := by rw [Nat.add_mul]; omega
    rw [this, Nat.add_mul_div_right _ _ pos, Nat.div_eq_of_lt (by omega), Nat.zero_add, Nat.add_mul]
    omega

/-- The alignment adjustment of `__nvm_region_allocator` rounds up, modulo the word size. -/
lemma alignAdj_eq {cur k : ℕ} (hc : cur < WORD) :
    alignAdj cur (2 ^ k) = alignUp cur (2 ^ k) % WORD := by
  rw [alignAdj, alignUp_eq (Nat.two_pow_pos k), Nat.and_two_pow_sub_one_eq_mod]
  by_cases h : cur % 2 ^ k = 0
  · simp [h, Nat.mod_eq_of_lt hc]
  · simp [h]

/-- Aligning an address that is a multiple of the alignment does nothing. -/
lemma alignAdj_of_aligned {cur k : ℕ} (h : cur % 2 ^ k = 0) : alignAdj cur (2 ^ k) = cur := by
  unfold alignAdj
  simp [Nat.and_two_pow_sub_one_eq_mod, h]

/-- A multiple of `SBSIZE` is a multiple of `PAGESIZE`. -/
lemma alignAdj_page {cur : ℕ} (h : cur % SBSIZE = 0) : alignAdj cur PAGESIZE = cur := by
  rw [SBSIZE_eq] at h
  exact alignAdj_of_aligned (k := 12) (by omega)

/-- Clearing the low bits of a word. -/
lemma and_high_mask {x k : ℕ} (hx : x < WORD) (hk : k ≤ 64) :
    x &&& (WORD - 2 ^ k) = x / 2 ^ k * 2 ^ k := by
  have hmask : WORD - 2 ^ k = (2 ^ (64 - k) - 1) <<< k := by
    rw [Nat.shiftLeft_eq, Nat.sub_mul, ← pow_add, Nat.sub_add_cancel hk, Nat.one_mul]
    rfl
  rw [hmask, ← Nat.shiftLeft_eq]
  apply Nat.eq_of_testBit_eq
  intro i
  rw [Nat.testBit_and, Nat.testBit_shiftLeft, Nat.testBit_shiftLeft, Nat.testBit_two_pow_sub_one,
    Nat.testBit_div_two_pow]
  by_cases hi : k ≤ i
  · rw [Nat.sub_add_cancel hi]
    by_cases h64 : i < 64
    · simp [hi, show i - k < 64 - k by omega]
    · have : x.testBit i = false := Nat.testBit_lt_two_pow
        (lt_of_lt_of_le hx (by unfold WORD; exact Nat.pow_le_pow_right (by decide) (by omega)))
      simp [this]
  · simp [hi]

/-- `round_up` to superblocks, as long as the sum does not wrap. -/
lemma roundUp_eq {n : ℕ} (h : n + SBSIZE ≤ WORD) :
    roundUp n SBSIZE = (n + SBSIZE - 1) / SBSIZE * SBSIZE := by
  unfold roundUp
  rw [Nat.mod_eq_of_lt (by rw [SBSIZE_eq] at h ⊢; omega)]
  exact and_high_mask (k := 16) (by rw [SBSIZE_eq] at h ⊢; omega) (by decide)

/-- `desc_lookup` finds the superblock's own index. -/
lemma sbIndex_eq {start d o : ℕ} (al : start % SBSIZE = 0) (ho : o < SBSIZE)
    (hb : start + d * SBSIZE + o < WORD) : sbIndex start (start + d * SBSIZE + o) = d := by
  unfold sbIndex SB_SHIFT
  rw [SBSIZE_eq] at al ho hb ⊢
  rw [Nat.shiftRight_eq_div_pow, Nat.shiftRight_eq_div_pow]
  unfold WORD at hb ⊢
  omega

/-- `sb_lookup` gives the start of the superblock. -/
lemma sbLookup_eq {start d : ℕ} (hb : start + d * SBSIZE < WORD) :
    sbLookup start d = start + d * SBSIZE := by
  unfold sbLookup SB_SHIFT
  rw [Nat.shiftLeft_eq]
  exact Nat.mod_eq_of_lt (by rw [SBSIZE_eq] at hb; exact hb)

end Ralloc
