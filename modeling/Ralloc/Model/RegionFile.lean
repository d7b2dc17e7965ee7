import Ralloc.Lib.Bytes
import Ralloc.Model.Image

/-!
# The file of a region

Model of the functions of `RegionManager` on the bytes of the file they map. The file starts with
three words: `curr_addr` as a `pptr`, the offset of the heap start, and the size of the file. Bytes
are numbered from the start of the file, so that the file does not depend on where it is mapped.
-/

namespace Ralloc

open Lib RegionIndex

/-- The bytes asked for when the file is created, for a heap of `numSb` superblocks. -/
def RegionIndex.bytes (numSb : ℕ) : RegionIndex → ℕ
  | DESC_IDX => numSb * DESCSIZE
  | SB_IDX => numSb * SBSIZE
  | META_IDX => BASEMETA_SIZE

/-- `FILESIZE` of a region. -/
def RegionIndex.filesize (numSb : ℕ) (i : RegionIndex) : ℕ := fileSize (i.bytes numSb)

/-- The alignment of the first expansion. -/
def RegionIndex.alignment : RegionIndex → ℕ
  | SB_IDX => SBSIZE
  | _ => CACHELINE_SIZE

/-- The size of the first expansion: the superblocks are warmed up by the constructor of `BaseMeta`,
the other regions are expanded to their full size when they are created. -/
def RegionIndex.firstSize (numSb : ℕ) : RegionIndex → ℕ
  | SB_IDX => SB_REGION_EXPAND_SIZE
  | i => i.bytes numSb

/-- `curr_addr_ptr->load()` when the file is mapped at `base`. -/
def currAddr (base : ℕ) (file : Mem) : ℕ := fromPptrOff (load file 0 8) base

/-- A new value of `curr_addr`. -/
def setCurrAddr (base : ℕ) (file : Mem) (p : ℕ) : Mem := store file 0 8 (toPptrOff p base)

/-- `__map_persistent_region` on the empty file. -/
def mapPersistentRegion (filesize base : ℕ) : Mem :=
  store (setCurrAddr base (fun _ => 0) (mapCurrAddr base)) 16 8 filesize

/-- `__remap_persistent_region`: a NUL byte is written at the end of the file. -/
def remapPersistentRegion (filesize : ℕ) (file : Mem) : Mem :=
  Function.update file (filesize - 1) 0

/-- `__store_heap_start`. -/
def storeStart (base : ℕ) (file : Mem) (root : ℕ) : Mem :=
  store file 8 8 (storeHeapStart base root)

/-- `__fetch_heap_start`. -/
def fetchStart (base : ℕ) (file : Mem) : ℕ := fetchHeapStart base (load file 8 8)

/-- `__nvm_region_allocator` without interference: the address and the file, unless it returns
-1. -/
def regionAllocator (r : Region) (file : Mem) (alignment size : ℕ) : Option (ℕ × Mem) :=
  let cur := currAddr r.base file
  if argsOk alignment size ∧ r.fits cur alignment size then
    some (alignAdj cur alignment, setCurrAddr r.base file (bumpNext cur alignment size))
  else none

variable {base p : ℕ} {file : Mem}

/-- Writing `curr_addr` leaves the heap start alone. -/
@[simp] lemma load_setCurrAddr_start : load (setCurrAddr base file p) 8 8 = load file 8 8 :=
  load_store_out (by omega)

/-- Writing the heap start leaves `curr_addr` alone. -/
@[simp] lemma load_storeStart_curr : load (storeStart base file p) 0 8 = load file 0 8 :=
  load_store_out (by omega)

/-- `curr_addr` reads back. -/
lemma currAddr_setCurrAddr (hp : p < ADDR) (hb : base < ADDR) :
    currAddr base (setCurrAddr base file p) = p := by
  rw [currAddr, setCurrAddr, load_store (toPptrOff_lt hp hb), fromPptrOff_toPptrOff hp hb]

end Ralloc
