import Ralloc.Model.CrossPtr
import Ralloc.Model.Mapping

/-!
# The files of a heap

The bytes that a heap keeps in its three files, and how the program reads them when the files are
mapped at some addresses. Four kinds of pointers occur: the self-relative `pptr` and `atomic_pptr`
(links of descriptors and of blocks, `curr_addr`), `CrossPtr` with an offset into another region
(`superblock`, `heap`), `AtomicCrossPtrCnt` with an offset and a counter (the list heads), and plain
offsets from the base (`heap_start`).

`view F B` is the state that the program finds in the files `F` mapped at `B`, in terms that have
nothing to do with addresses: numbers of descriptors, superblocks, blocks and size classes.
-/

namespace Ralloc

open Lib SuperblockState

/-- `RegionIndex`. -/
inductive RegionIndex where
  | DESC_IDX
  | SB_IDX
  | META_IDX
  deriving DecidableEq, Repr

open RegionIndex

/-- A page-aligned address below `2 ^ 48`. -/
structure PageAddr where
  addr : ℕ
  page : addr % PAGESIZE = 0
  lt : addr < ADDR

/-- The contents of the files. -/
abbrev Files := RegionIndex → Mem

/-- Where the files are mapped. -/
abbrev Bases := RegionIndex → PageAddr

/-- The offset of `BaseMeta::heaps`, behind `avail_sb` and the mutex. -/
def HEAPS_OFF : ℕ := 64

/-- `sizeof(ProcHeap)`. -/
def PROCHEAP_SIZE : ℕ := CACHELINE_SIZE

/-- The offset of `BaseMeta::roots`. -/
def ROOTS_OFF : ℕ := HEAPS_OFF + MAX_SZ_IDX * PROCHEAP_SIZE

/-- `sizeof(BaseMeta)`. -/
def BASEMETA_SIZE : ℕ := ROOTS_OFF + MAX_ROOTS * 8

/-- The offset of the counted word of a list in `BaseMeta`. -/
def ListId.headOff : ListId → ℕ
  | .avail => 0
  | .part sc => HEAPS_OFF + sc * PROCHEAP_SIZE

/-- The offset of the link field of a list in `Descriptor`. -/
def ListId.linkOff : ListId → ℕ
  | .avail => 0
  | .part _ => 8

section decode

variable (F : Files) (B : Bases)

/-- Read `n` bytes at the absolute address `a` of a region. -/
def readAt (i : RegionIndex) (a n : ℕ) : ℕ := load (F i) (a - (B i).addr) n

/-- `Regions::regions_address` after a restart. -/
def startOf (i : RegionIndex) : ℕ := fetchHeapStart (B i).addr (readAt F B i ((B i).addr + 8) 8)

/-- `curr_addr` of a region. -/
def currOf (i : RegionIndex) : ℕ := fromPptrOff (readAt F B i (B i).addr 8) (B i).addr

/-- The cast of a `CrossPtr` to a pointer; it is null exactly when its offset is 0. -/
def crossPtr (i : RegionIndex) (off : ℕ) : Option ℕ :=
  if off = 0 then none else some (translate (startOf F B i) off)

/-- The pointer and the counter at the head of a list. -/
def headAt (l : ListId) : ℕ × ℕ :=
  AtomicCrossPtrCnt.unpack (startOf F B DESC_IDX)
    (readAt F B META_IDX (startOf F B META_IDX + l.headOff) 8)

/-- `next_free` or `next_partial` of the descriptor at `p`. -/
def nextAt (l : ListId) (p : ℕ) : ℕ :=
  fromPptrOff (readAt F B DESC_IDX (p + l.linkOff) 8) (p + l.linkOff)

/-- The numbers of the descriptors on a list from the pointer `p` on. -/
def listFrom (l : ListId) : ℕ → ℕ → List ℕ
  | 0, _ => []
  | n + 1, p =>
    if p = 0 then [] else descIndex (startOf F B DESC_IDX) p :: listFrom l n (nextAt F B l p)

/-- The address of descriptor `d`. -/
def descAt (d : ℕ) : ℕ := startOf F B DESC_IDX + d * DESCSIZE

/-- The bits of an anchor: `avail:31`, `count:31`, `state:2`. -/
def anchorAt (p : ℕ) : ℕ := readAt F B DESC_IDX (p + 16) 8

/-- `superblock` of the descriptor at `p`. -/
def superblockAt (p : ℕ) : Option ℕ := crossPtr F B SB_IDX (readAt F B DESC_IDX (p + 24) 8)

/-- `heap` of the descriptor at `p`. -/
def heapAt (p : ℕ) : Option ℕ := crossPtr F B META_IDX (readAt F B DESC_IDX (p + 32) 8)

/-- `block_size` of the descriptor at `p`. -/
def blockSizeAt (p : ℕ) : ℕ := readAt F B DESC_IDX (p + 40) 4

/-- The number of the superblock at `q`. -/
def sbNumber (q : ℕ) : ℕ := untranslate (startOf F B SB_IDX) q / SBSIZE

/-- The index in `BaseMeta::heaps` of the `ProcHeap` at `q`. -/
def heapIndex (q : ℕ) : ℕ := (untranslate (startOf F B META_IDX) q - HEAPS_OFF) / PROCHEAP_SIZE

/-- The `pptr` in the first word of the block at `b`. -/
def linkAt (b : ℕ) : ℕ := fromPptrOff (readAt F B SB_IDX b 8) b

/-- The numbers of the first `anchor.count` free blocks of the small superblock at `sb` with the
descriptor at `p`. -/
def freeAt (p sb : ℕ) : List ℕ :=
  (walk (linkAt F B) (sb + anchorAt F B p % 2 ^ 31 * blockSizeAt F B p)
    (anchorAt F B p / 2 ^ 31 % 2 ^ 31)).map fun b => (b - sb) / blockSizeAt F B p

/-- How many superblocks there are below `curr_addr`. -/
def sbCount : ℕ := (currOf F B SB_IDX - startOf F B SB_IDX) / SBSIZE

end decode

/-- A state without addresses. -/
structure View where
  /-- the descriptors on `avail_sb` and its counter -/
  avail : List ℕ × ℕ
  /-- the descriptors on the partial list of a size class and its counter -/
  part : Fin MAX_SZ_IDX → List ℕ × ℕ
  /-- of a superblock in use the number its descriptor names, if any, and its size class -/
  used : ℕ → Option (Option ℕ × ℕ)
  /-- of a superblock in use for small blocks the first `anchor.count` free blocks -/
  free : ℕ → List ℕ
  /-- the offsets of `heap_start` -/
  start : RegionIndex → ℕ
  /-- the offsets of `curr_addr` -/
  curr : RegionIndex → ℕ

/-- What the program finds in the files `F` when they are mapped at `B`. -/
def view (F : Files) (B : Bases) : View where
  avail := (listFrom F B .avail (sbCount F B) (headAt F B .avail).1, (headAt F B .avail).2)
  part sc := (listFrom F B (.part sc) (sbCount F B) (headAt F B (.part sc)).1,
    (headAt F B (.part sc)).2)
  used d :=
    if d < sbCount F B then
      (heapAt F B (descAt F B d)).map fun q =>
        ((superblockAt F B (descAt F B d)).map (sbNumber F B), heapIndex F B q)
    else none
  free d :=
    if d < sbCount F B ∧ (heapAt F B (descAt F B d)).any (heapIndex F B · ≠ 0) then
      freeAt F B (descAt F B d) ((superblockAt F B (descAt F B d)).getD 0)
    else []
  start i := startOf F B i - (B i).addr
  curr i := currOf F B i - (B i).addr

end Ralloc
