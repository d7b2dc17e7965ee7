import Ralloc.Model.Region

/-!
# Mappings of a region

Model of what `RegionManager` and `Regions` do to find a region again after a restart. A region is a
file that is mapped at an address chosen by `mmap`. Its first page is a header with `curr_addr` and
the offset of the heap start from the base. When the file is created, the heap start is the first
multiple of an alignment behind the header: a cache line for the descriptors and for `BaseMeta`, a
superblock for the superblocks. After a restart it is read back from its offset.
-/

namespace Ralloc

/-- An address at which `mmap` may place a file of `filesize` bytes. -/
structure MapAddr (filesize : ℕ) where
  addr : ℕ
  page : addr % PAGESIZE = 0
  bound : addr + filesize ≤ ADDR

/-- `RegionManager::FILESIZE` of a region for `size` bytes. -/
def fileSize (size : ℕ) : ℕ := (size / PAGESIZE + 2) * PAGESIZE

/-- Where the superblock file that `_RP_init` creates for `numSb` superblocks may be mapped. -/
abbrev SbAddr (numSb : ℕ) := MapAddr (fileSize (numSb * SBSIZE))

/-- Where the descriptor file may be mapped. -/
abbrev DescAddr (numSb : ℕ) := MapAddr (fileSize (numSb * DESCSIZE))

/-- `curr_addr` in `RegionManager::__map_persistent_region`. -/
def mapCurrAddr (base : ℕ) : ℕ := (base + PAGESIZE) % WORD

/-- `RegionManager::__store_heap_start`: the word in the header. -/
def storeHeapStart (base root : ℕ) : ℕ := (root + WORD - base) % WORD

/-- `RegionManager::__fetch_heap_start`. -/
def fetchHeapStart (base off : ℕ) : ℕ := (off + base) % WORD

/-- `Regions::regions_address` of a region that was created at `first` with the given alignment of
its first expansion and is now mapped at `now`. -/
def regionsAddress (alignment first now : ℕ) : ℕ :=
  fetchHeapStart now (storeHeapStart first (alignAdj (mapCurrAddr first) alignment))

/-- `BaseMeta::desc_lookup` for descriptors from `descs` and superblocks from `sbs` on. -/
def descLookup (descs sbs ptr : ℕ) : ℕ := (descs + sbIndex sbs ptr * DESCSIZE) % WORD

/-- The index that `BaseMeta::sb_lookup` computes. -/
def descIndex (descs desc : ℕ) : ℕ := (desc >>> DESC_SHIFT + WORD - descs >>> DESC_SHIFT) % WORD

/-- `BaseMeta::sb_lookup`. -/
def sbLookupDesc (descs sbs desc : ℕ) : ℕ := sbLookup sbs (descIndex descs desc)

variable {filesize k : ℕ}

/-- The heap start keeps its distance from the base. -/
lemma regionsAddress_eq (first now : MapAddr filesize) (hk : k ≤ 16) :
    regionsAddress (2 ^ k) first.addr now.addr =
      now.addr + (alignUp (first.addr + PAGESIZE) (2 ^ k) - first.addr) := by
  have h1 := first.bound
  have h2 := now.bound
  have hle : 2 ^ k ≤ 2 ^ 16 := Nat.pow_le_pow_right (by decide) hk
  have hp : PAGESIZE = 4096 := rfl
  unfold ADDR at h1 h2
  have h3 := alignUp_lt (n := first.addr + PAGESIZE) (Nat.two_pow_pos k)
  have h4 := le_alignUp (n := first.addr + PAGESIZE) (Nat.two_pow_pos k)
  have hcurr : mapCurrAddr first.addr = first.addr + PAGESIZE :=
    Nat.mod_eq_of_lt (by unfold WORD; omega)
  rw [regionsAddress, hcurr, alignAdj_eq (by unfold WORD; omega), fetchHeapStart, storeHeapStart]
  unfold WORD
  omega

/-- The heap start of the superblocks. -/
lemma regionsAddress_sbs (first now : MapAddr filesize) :
    regionsAddress SBSIZE first.addr now.addr =
      now.addr + (alignUp (first.addr + PAGESIZE) SBSIZE - first.addr) := by
  have h := regionsAddress_eq first now (show 16 ≤ 16 from le_rfl)
  rwa [← show SBSIZE = 2 ^ 16 from rfl] at h

/-- Descriptors are aligned wherever their region is mapped. -/
lemma regionsAddress_descs (first now : MapAddr filesize) :
    regionsAddress CACHELINE_SIZE first.addr now.addr = now.addr + PAGESIZE := by
  have hp := first.page
  have e : alignUp (first.addr + PAGESIZE) (2 ^ 6) = first.addr + PAGESIZE := by
    rw [alignUp_eq (by decide), if_pos]
    unfold PAGESIZE at hp ⊢
    omega
  have h := regionsAddress_eq first now (show 6 ≤ 16 by decide)
  rw [e] at h
  rw [show CACHELINE_SIZE = 2 ^ 6 from rfl, h]
  omega

/-- The index of the `n`-th descriptor. -/
lemma descIndex_eq {descs n : ℕ} (al : descs % DESCSIZE = 0) (hb : descs + n * DESCSIZE < WORD) :
    descIndex descs (descs + n * DESCSIZE) = n := by
  unfold descIndex DESC_SHIFT
  unfold DESCSIZE CACHELINE_SIZE at al hb ⊢
  rw [Nat.shiftRight_eq_div_pow, Nat.shiftRight_eq_div_pow]
  unfold WORD at hb ⊢
  omega

end Ralloc
