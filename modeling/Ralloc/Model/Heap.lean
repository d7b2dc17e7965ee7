import Ralloc.Lib.Bytes
import Ralloc.Lib.Chain
import Ralloc.Model.Pptr
import Ralloc.Model.SizeClass
import Ralloc.Model.Region
import Mathlib.Logic.Function.Basic

/-!
# The heap

The data of `BaseMeta.hpp` and `TCache.hpp` that the allocator works on: anchors, descriptors, the
counted list heads, thread caches, and block memory.

A `Descriptor*` is the index of the descriptor in the descriptor region, a `ProcHeap*` the index in
`BaseMeta::heaps`, and a null pointer of either kind is `none`. A `char*` is an address, null is 0.
Links between blocks live in the blocks themselves, as `pptr` words in byte memory. `pushes` counts
the pushes on a list since the heap was created; the program does not have it, it only gives a
meaning to the wrap-around of the counter in a list word.
-/

namespace Ralloc

open Lib

/-- `SuperblockState`. -/
inductive SuperblockState where
  | SB_ERROR
  | SB_FULL
  | SB_PARTIAL
  | SB_EMPTY
  deriving DecidableEq, Repr

open SuperblockState

/-- `Anchor`. -/
structure Anchor where
  avail : ℕ
  count : ℕ
  state : SuperblockState
  deriving DecidableEq, Repr

/-- `Anchor()`, all bits zero. -/
def Anchor.zero : Anchor := ⟨0, 0, SB_ERROR⟩

/-- The anchor of a superblock that has given all its blocks away. -/
def Anchor.full (n : ℕ) : Anchor := ⟨n, 0, SB_FULL⟩

/-- `Descriptor`. -/
structure Descriptor where
  nextFree : Option ℕ
  nextPartial : Option ℕ
  anchor : Anchor
  superblock : Option ℕ
  heap : Option ℕ
  blockSize : ℕ
  maxcount : ℕ
  deriving DecidableEq, Repr

/-- `Descriptor()`. A descriptor that was never constructed is all zero bytes, which read the
same. -/
def Descriptor.reset : Descriptor := ⟨none, none, .zero, none, none, 0, 0⟩

/-- A descriptor that is constructed and linked to the next one. -/
def Descriptor.chained (d : ℕ) : Descriptor := { Descriptor.reset with nextFree := some (d + 1) }

/-- The fields of a descriptor that are not atomic; they are the ones recovery relies on. -/
def Descriptor.plain (D : Descriptor) : Option ℕ × Option ℕ × ℕ × ℕ :=
  (D.superblock, D.heap, D.blockSize, D.maxcount)

/-- The lists of descriptors: `BaseMeta::avail_sb` and `heaps[sc].partial_list`. -/
inductive ListId where
  | avail
  | part (sc : ℕ)
  deriving DecidableEq, Repr

/-- The link field of a list: `next_free` or `next_partial`. -/
def Descriptor.next (D : Descriptor) : ListId → Option ℕ
  | .avail => D.nextFree
  | .part _ => D.nextPartial

/-- Store into the link field of a list. -/
def Descriptor.setNext (D : Descriptor) : ListId → Option ℕ → Descriptor
  | .avail, v => { D with nextFree := v }
  | .part _, v => { D with nextPartial := v }

/-- `ptr_cnt`, the value of a counted list word. -/
structure PtrCnt where
  ptr : Option ℕ
  cnt : ℕ
  deriving DecidableEq, Repr

/-- A list word a thread has loaded, with the number of pushes at that moment. -/
structure Seen extends PtrCnt where
  stamp : ℕ
  deriving DecidableEq, Repr

/-- `TCacheBin`. -/
structure TCacheBin where
  block : ℕ
  num : ℕ
  deriving DecidableEq, Repr

/-- What the clients do with a block: hold it, or have handed it to a `do_free` of thread `t` that
has not put it into the cache yet. -/
inductive Client where
  | none
  | held
  | freeing (t : ℕ)
  deriving DecidableEq, Repr

/-- Everything outside the control state of the threads: the superblock region's `curr_addr`, the
metadata, block memory, the thread caches, and per thread the argument of its last `do_malloc` and
the last pointer returned to it. -/
structure Heap where
  currAddr : ℕ
  head : ListId → PtrCnt
  pushes : ListId → ℕ
  desc : ℕ → Descriptor
  mem : Mem
  roots : ℕ → ℕ
  cache : ℕ → ℕ → TCacheBin
  client : ℕ → Client
  req : ℕ → ℕ
  ret : ℕ → ℕ

namespace Heap

/-- Load a list word. -/
def see (h : Heap) (l : ListId) : Seen := ⟨h.head l, h.pushes l⟩

/-- Read the `pptr` in the first word of a block. -/
def link (h : Heap) (b : ℕ) : ℕ := fromPptrOff (load h.mem b 8) b

/-- Write the `pptr` in the first word of a block. -/
def setLink (h : Heap) (b v : ℕ) : Heap := { h with mem := store h.mem b 8 (toPptrOff v b) }

/-- Write a descriptor. -/
def setDesc (h : Heap) (d : ℕ) (D : Descriptor) : Heap :=
  { h with desc := Function.update h.desc d D }

/-- Write a list word. -/
def setHead (h : Heap) (l : ListId) (w : PtrCnt) : Heap :=
  { h with head := Function.update h.head l w }

/-- Write the cache bin of a thread and a class. -/
def setCache (h : Heap) (t sc : ℕ) (c : TCacheBin) : Heap :=
  { h with cache := Function.update h.cache t (Function.update (h.cache t) sc c) }

/-- Change what the clients do with a block. -/
def setClient (h : Heap) (b : ℕ) (c : Client) : Heap :=
  { h with client := Function.update h.client b c }

/-- Return a pointer to thread `t`. -/
def setRet (h : Heap) (t p : ℕ) : Heap := { h with ret := Function.update h.ret t p }

/-- The descriptors on a list are `D`. -/
def Lists (h : Heap) (l : ListId) (D : List ℕ) : Prop :=
  IsList (fun d => (h.desc d).next l) (h.head l).ptr D

/-- The descriptor that was written. -/
@[simp] lemma desc_setDesc_self (h : Heap) (d D) : (h.setDesc d D).desc d = D :=
  Function.update_self ..

/-- The other descriptors. -/
lemma desc_setDesc_ne {h : Heap} {d e D} (ne : e ≠ d) : (h.setDesc d D).desc e = h.desc e :=
  Function.update_of_ne ne ..

/-- The cache that was written. -/
@[simp] lemma cache_setCache_self (h : Heap) (t sc c) : (h.setCache t sc c).cache t sc = c := by
  simp [setCache]

/-- The caches of other threads. -/
lemma cache_setCache_thread {h : Heap} {t u sc c} (ne : u ≠ t) :
    (h.setCache t sc c).cache u = h.cache u := Function.update_of_ne ne ..

/-- The other caches of the thread. -/
lemma cache_setCache_class {h : Heap} {t sc sc' c} (ne : sc' ≠ sc) :
    (h.setCache t sc c).cache t sc' = h.cache t sc' := by
  simp [setCache, ne]

/-- The block whose status was set. -/
@[simp] lemma client_setClient_self (h : Heap) (b c) : (h.setClient b c).client b = c :=
  Function.update_self ..

/-- The other blocks. -/
lemma client_setClient_ne {h : Heap} {b b' c} (ne : b' ≠ b) :
    (h.setClient b c).client b' = h.client b' := Function.update_of_ne ne ..

end Heap

end Ralloc
