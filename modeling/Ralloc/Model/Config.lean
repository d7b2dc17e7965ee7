import Mathlib.Algebra.Group.Nat.Defs
import Mathlib.Tactic.Lemma

/-!
# Constants

The constants of `pm_config.hpp` that the allocator computes with, under their source names, and
the width of the machine words. Macros that only choose a build (heap file prefix, mmap flag) are
left out.
-/

namespace Ralloc

/-- Range of `uint64_t`, `size_t` and pointers. -/
def WORD : ℕ := 2 ^ 64

/-- Range of `uint32_t`. -/
def HALF : ℕ := 2 ^ 32

/-- Addresses on x86-64 do not use the 16 most significant bits. -/
def ADDR : ℕ := 2 ^ 48

/-- `PAGESIZE`. -/
def PAGESIZE : ℕ := 4096

/-- `CACHELINE_SIZE`. -/
def CACHELINE_SIZE : ℕ := 64

/-- `SBSIZE`: the size of a superblock. -/
def SBSIZE : ℕ := 16 * PAGESIZE

/-- `SB_SHIFT`: a superblock is `2 ^ 16` bytes. -/
def SB_SHIFT : ℕ := 16

/-- `DESCSIZE`: the size of a descriptor. -/
def DESCSIZE : ℕ := CACHELINE_SIZE

/-- `DESC_SHIFT`: a descriptor is `2 ^ 6` bytes. -/
def DESC_SHIFT : ℕ := 6

/-- `MIN_SB_REGION_SIZE`. -/
def MIN_SB_REGION_SIZE : ℕ := 1 * 1024 * 1024 * 1024

/-- `SB_REGION_EXPAND_SIZE`: by how much the superblock region grows for small requests. -/
def SB_REGION_EXPAND_SIZE : ℕ := MIN_SB_REGION_SIZE

/-- `MAX_SZ_IDX`: number of size classes; index 0 is reserved for large blocks. -/
def MAX_SZ_IDX : ℕ := 40

/-- `MAX_SZ`: the last size covered by a size class. -/
def MAX_SZ : ℕ := 2 ^ 13 + 2 ^ 11 * 3

/-- `MAX_ROOTS`. -/
def MAX_ROOTS : ℕ := 1024

/-- `MAX_DESC_AMOUNT_BITS`. -/
def MAX_DESC_AMOUNT_BITS : ℕ := 24

/-- `MAX_DESC_OFFSET_BITS`: bits of a descriptor offset in a counted list word. -/
def MAX_DESC_OFFSET_BITS : ℕ := MAX_DESC_AMOUNT_BITS + 6

/-- `MAX_DESC_OFFSET_MASK`. -/
def MAX_DESC_OFFSET_MASK : ℕ := 2 ^ MAX_DESC_OFFSET_BITS - 1

/-- Range of the counter in a counted list word, the bits above the offset. -/
def CNT : ℕ := 2 ^ (64 - MAX_DESC_OFFSET_BITS)

/-- `MAX_SB_REGION_SIZE`. -/
def MAX_SB_REGION_SIZE : ℕ := SBSIZE * 2 ^ MAX_DESC_AMOUNT_BITS

/-- `PPTR_PATTERN_POS`. -/
def PPTR_PATTERN_POS : ℕ := 0x52b0

/-- `PPTR_PATTERN_NEG`: the least bit is the sign. -/
def PPTR_PATTERN_NEG : ℕ := 0x52b1

/-- `PPTR_PATTERN_SHIFT`. -/
def PPTR_PATTERN_SHIFT : ℕ := 16

/-- `PPTR_PATTERN_MASK`. -/
def PPTR_PATTERN_MASK : ℕ := 2 ^ PPTR_PATTERN_SHIFT - 2

/-- Superblocks in one expansion of the superblock region. -/
def EXPAND_SBS : ℕ := SB_REGION_EXPAND_SIZE / SBSIZE

/-- The size as a number. -/
lemma SBSIZE_eq : SBSIZE = 65536 := rfl

/-- An expansion is a whole number of superblocks. -/
lemma EXPAND_eq : SB_REGION_EXPAND_SIZE = EXPAND_SBS * SBSIZE := rfl

/-- The counter has at least one value. -/
lemma CNT_pos : 0 < CNT := by decide

end Ralloc
