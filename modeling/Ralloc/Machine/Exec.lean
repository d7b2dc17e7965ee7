import Ralloc.Model.Heap

/-!
# The allocator as a step machine

Model of `BaseMeta::do_malloc`, `BaseMeta::do_free`, `ralloc::public_flush_cache` and
`BaseMeta::set_root` with everything they call in `BaseMeta.cpp` and `TCache.cpp`. One step of a
thread is one atomic load, store or compare-and-swap on `avail_sb`, a `partial_list`, `next_free`,
`next_partial`, an anchor or `curr_addr`, one write of a block's link word, one `FLUSH` or one
`FLUSHFENCE`. What a thread does in between, on its own cache, on fields of descriptors that are not
atomic and on its locals, belongs to the neighbouring step.

`PC` is the control state of a thread with the locals that are live there. Functions that several
callers share carry the place to return to. `exec` is one step of one thread; `spur` makes a weak
compare-and-swap fail although the value is the expected one. A failed assertion stops the thread in
`PC.abort`.
-/

namespace Ralloc

open Lib SuperblockState

/-- The function whose assertion failed (for `null`, a field read through a null descriptor
heap). -/
inductive Site where
  | fillCache
  | flushCache
  | mallocFromPartial
  | mallocFromNewsb
  | heapPushPartial
  | computeIdx
  | pushList
  | popBlock
  | popList
  | smallSbAlloc
  | smallSbRetire
  | expandGetLargeSb
  | largeSbRetire
  | doMalloc
  | doFree
  | setRoot
  | null
  deriving DecidableEq, Repr

/-- Where `flush_cache` returns to: `do_free` of a block, or the next class of
`public_flush_cache`. -/
inductive FlushK where
  | free (p : ℕ)
  | exit
  deriving DecidableEq, Repr

/-- Where a push on a descriptor list returns to: the `goto retry` of `malloc_from_partial`, the
loop of `flush_cache`, `small_sb_alloc` after it has organised a new expansion that starts at `res`,
or `do_free` of a large block. -/
inductive PushK where
  | retry (sc : ℕ)
  | flush (sc : ℕ) (k : FlushK)
  | newsb (sc res : ℕ)
  | done
  deriving DecidableEq, Repr

/-- Where `new (desc) Descriptor()` returns to: `small_sb_retire`, the `i`-th turn of
`organize_sb_list`, the end of `small_sb_alloc`, or `expand_get_large_sb`. -/
inductive CtorK where
  | retire (k : PushK)
  | organize (start count i : ℕ) (k : PushK)
  | newsb (sc res : ℕ)
  | large (sbs res : ℕ)
  deriving DecidableEq, Repr

/-- The steps of `Descriptor::Descriptor`: two atomic stores, the anchor with the plain fields,
`FLUSH(this)` and `FLUSHFENCE`. -/
inductive CtorPhase where
  | nextFree
  | nextPartial
  | fields
  | flush
  | fence
  deriving DecidableEq, Repr

/-- A run of cached blocks of one superblock that `flush_cache` is giving back. -/
structure Run where
  d : ℕ
  superblock : ℕ
  head : ℕ
  tail : ℕ
  count : ℕ
  idx : ℕ
  deriving DecidableEq, Repr

/-- Control states. -/
inductive PC where
  | idle
  | abort (a : Site)
  -- `heap_pop_partial`, and the pop from `avail_sb` in `small_sb_alloc`
  | popLoad (l : ListId) (sc : ℕ)
  | popNext (l : ListId) (sc : ℕ) (old : Seen) (p : ℕ)
  | popCas (l : ListId) (sc : ℕ) (old : Seen) (p : ℕ) (next : Option ℕ)
  -- `malloc_from_partial`
  | anchorLoad (sc d : ℕ)
  | anchorCas (sc d : ℕ) (old : Anchor) (maxc bsize sb : ℕ)
  -- the expansion in `small_sb_alloc`
  | growLoad (sc : ℕ)
  | growCheck (sc cur : ℕ)
  | growFlush (sc cur : ℕ)
  | growFence (sc cur : ℕ)
  | growCas (sc cur : ℕ)
  | grownFlush (sc res : ℕ)
  | grownFence (sc res : ℕ)
  -- `malloc_from_newsb`
  | newSet (sc sb : ℕ)
  | newLink (sc d sb idx : ℕ)
  | newAnchor (sc d sb : ℕ)
  | newFlush (sc d : ℕ)
  | newFence (sc d : ℕ)
  -- `TCacheBin::pop_block`
  | popBlock (sc : ℕ)
  -- `Descriptor::Descriptor`
  | ctor (d : ℕ) (ph : CtorPhase) (k : CtorK)
  -- `organize_sb_list`, `small_sb_retire`, `heap_push_partial`
  | orgLink (start count i : ℕ) (k : PushK)
  | pushLoad (first last : ℕ) (k : PushK)
  | heapPushPartial (d : ℕ) (k : PushK)
  | pushStore (l : ListId) (first last : ℕ) (old : Seen) (k : PushK)
  | pushCas (l : ListId) (first last : ℕ) (old : Seen) (k : PushK)
  -- `flush_cache`
  | flushHead (sc : ℕ) (k : FlushK)
  | flushLoad (sc : ℕ) (r : Run) (k : FlushK)
  | flushStore (sc : ℕ) (r : Run) (old : Anchor) (k : FlushK)
  | flushCas (sc : ℕ) (r : Run) (old : Anchor) (k : FlushK)
  -- the end of `do_free`
  | pushBlock (sc p : ℕ)
  -- `do_malloc` of a large block
  | largeLoad (sbs : ℕ)
  | largeFlush (sbs cur : ℕ)
  | largeFence (sbs cur : ℕ)
  | largeCas (sbs cur : ℕ)
  | largeGrownFlush (sbs res : ℕ)
  | largeGrownFence (sbs res : ℕ)
  | largeSet (sbs res : ℕ)
  | largeAnchor (sbs res : ℕ)
  | largeDescFlush (sbs res : ℕ)
  | largeDescFence (sbs res : ℕ)
  -- `set_root`
  | rootSet (p i : ℕ)
  | rootFlush (p i : ℕ)
  | rootFence (p i : ℕ)
  deriving DecidableEq, Repr

/-- Go on if the asserted condition holds. -/
def check (c : Prop) [Decidable c] (a : Site) (h : Heap) (go : Heap × PC) : Heap × PC :=
  if c then go else (h, .abort a)

/-- The head of the loops in `heap_pop_partial` and `small_sb_alloc`: a null head sends
`malloc_from_partial` back to `fill_cache`, which takes a new superblock, and makes `small_sb_alloc`
expand the region. -/
def popTest (l : ListId) (sc : ℕ) (old : Seen) : PC :=
  match old.ptr, l with
  | some p, _ => .popNext l sc old p
  | none, .avail => .growLoad sc
  | none, .part _ => .popLoad .avail sc

/-- After a successful pop. -/
def popped (cfg : Cfg) (l : ListId) (sc p : ℕ) : PC :=
  match l with
  | .avail => .newSet sc (sbLookup cfg.heapStart p)
  | .part _ => .anchorLoad sc p

/-- The body of the loop of `malloc_from_partial` up to its compare-and-swap. -/
def anchorTest (cfg : Cfg) (sc d : ℕ) (old : Anchor) (maxc bsize sb : ℕ) (h : Heap) : Heap × PC :=
  if old.state = SB_EMPTY then
    check ((getSizeclassByIdx sc).sbSize = SBSIZE) .smallSbRetire h
      (h, .ctor (sbIndex cfg.heapStart sb) .nextFree (.retire (.retry sc)))
  else check (old.state = SB_PARTIAL) .mallocFromPartial h (h, .anchorCas sc d old maxc bsize sb)

/-- The end of `fill_cache` when `block_num` blocks have come from a partial superblock. -/
def filled (sc blockNum : ℕ) (h : Heap) : Heap × PC :=
  if blockNum = 0 then (h, .popLoad .avail sc)
  else check (blockNum ≤ cacheBlockNum sc) .fillCache h (h, .popBlock sc)

/-- The loop of `malloc_from_newsb` over the blocks. -/
def newLoop (sc d sb idx : ℕ) : PC :=
  if idx + 1 < maxcount sc then .newLink sc d sb idx else .newAnchor sc d sb

/-- Return from `Descriptor::Descriptor`. -/
def ctorDone (d : ℕ) : CtorK → PC
  | .retire k => .pushLoad d d k
  | .organize start count i k =>
    if i + 1 < count then .orgLink start count i k else .pushLoad start (start + i) k
  | .newsb sc res => .newSet sc res
  | .large sbs res => .largeSet sbs res

/-- `organize_sb_list(sb, count)`. -/
def organizeSbList (cfg : Cfg) (sb count : ℕ) (k : PushK) : PC :=
  .ctor (sbIndex cfg.heapStart sb) .nextFree (.organize (sbIndex cfg.heapStart sb) count 0 k)

/-- Return from a push. -/
def pushDone (cfg : Cfg) : PushK → PC
  | .retry sc => .popLoad (.part sc) sc
  | .flush sc k => .flushHead sc k
  | .newsb sc res => .ctor (sbIndex cfg.heapStart res) .nextFree (.newsb sc res)
  | .done => .idle

/-- Return from `flush_cache`. -/
def flushDone (sc : ℕ) : FlushK → PC
  | .free p => .pushBlock sc p
  | .exit => if sc + 1 < MAX_SZ_IDX then .flushHead (sc + 1) .exit else .idle

/-- The inner loop of `flush_cache`: how far the cache stays inside one superblock. -/
def scanRun (next : ℕ → ℕ) (lo hi : ℕ) : ℕ → ℕ → ℕ → ℕ × ℕ
  | 0, tail, count => (tail, count)
  | n + 1, tail, count =>
    if next tail < lo ∨ next tail ≥ hi then (tail, count)
    else scanRun next lo hi n (next tail) (count + 1)

/-- `newanchor` in `flush_cache`, for `blockCount` blocks that start at block `idx`. -/
def giveAnchor (old : Anchor) (idx blockCount maxc : ℕ) : Anchor :=
  if old.count + blockCount = maxc then ⟨idx, maxc - 1, SB_EMPTY⟩
  else ⟨idx, old.count + blockCount, if old.state = SB_FULL then SB_PARTIAL else old.state⟩

/-- What `flush_cache` does after its compare-and-swap. -/
def gaveBack (cfg : Cfg) (sc : ℕ) (r : Run) (old new : Anchor) (k : FlushK) : PC :=
  if old.state = SB_FULL then
    if new.state = SB_EMPTY then
      .ctor (sbIndex cfg.heapStart r.superblock) .nextFree (.retire (.flush sc k))
    else .heapPushPartial r.d (.flush sc k)
  else .flushHead sc k

/-- One step of the constructor on the fields of the descriptor. -/
def ctorWrite (D : Descriptor) : CtorPhase → Descriptor
  | .nextFree => { D with nextFree := none }
  | .nextPartial => { D with nextPartial := none }
  | .fields =>
    { D with anchor := .zero, superblock := none, heap := none, blockSize := 0, maxcount := 0 }
  | .flush | .fence => D

/-- Control inside the constructor. -/
def ctorNext (d : ℕ) (k : CtorK) : CtorPhase → PC
  | .nextFree => .ctor d .nextPartial k
  | .nextPartial => .ctor d .fields k
  | .fields => .ctor d .flush k
  | .flush => .ctor d .fence k
  | .fence => ctorDone d k

/-- One step of thread `t`. -/
def exec (cfg : Cfg) (t : ℕ) (spur : Bool) (h : Heap) : PC → Heap × PC
  | .idle => (h, .idle)
  | .abort a => (h, .abort a)
  | .popLoad l sc => (h, popTest l sc (h.see l))
  | .popNext l sc old p => (h, .popCas l sc old p ((h.desc p).next l))
  | .popCas l sc old p next =>
    -- `small_sb_alloc` uses the strong form, which does not fail spuriously
    if h.head l = old.toPtrCnt ∧ ¬(spur ∧ l ≠ .avail) then
      (h.setHead l ⟨next, old.cnt⟩, popped cfg l sc p)
    else (h, popTest l sc (h.see l))
  | .anchorLoad sc d =>
    let D := h.desc d
    anchorTest cfg sc d D.anchor D.maxcount D.blockSize (D.superblock.getD 0) h
  | .anchorCas sc d old maxc bsize sb =>
    if (h.desc d).anchor = old ∧ ¬spur then
      let h' := h.setDesc d { h.desc d with anchor := .full maxc }
      check (old.avail < maxc ∧ (h.cache t sc).num = 0) .mallocFromPartial h'
        (filled sc old.count (h'.setCache t sc ⟨sb + old.avail * bsize, old.count⟩))
    else anchorTest cfg sc d (h.desc d).anchor maxc bsize sb h
  | .growLoad sc => (h, .growCheck sc h.currAddr)
  | .growCheck sc cur =>
    -- `continue`: the head in `oldhead` is still the null one that led here
    if (h.head .avail).ptr ≠ none then (h, .growLoad sc)
    else check (cfg.fits cur PAGESIZE SB_REGION_EXPAND_SIZE) .smallSbAlloc h
      (h, .growFlush sc cur)
  | .growFlush sc cur => (h, .growFence sc cur)
  | .growFence sc cur => (h, .growCas sc cur)
  | .growCas sc cur =>
    if h.currAddr = cur then
      ({ h with currAddr := bumpNext cur PAGESIZE SB_REGION_EXPAND_SIZE },
        .grownFlush sc (alignAdj cur PAGESIZE))
    else (h, .growLoad sc)
  | .grownFlush sc res => (h, .grownFence sc res)
  | .grownFence sc res =>
    (h, organizeSbList cfg (res + SBSIZE) (SB_REGION_EXPAND_SIZE / SBSIZE - 1) (.newsb sc res))
  | .newSet sc sb =>
    let d := sbIndex cfg.heapStart sb
    check (sb ≠ 0) .mallocFromNewsb h
      (h.setDesc d
          { h.desc d with
            heap := some sc, blockSize := blockSize sc, maxcount := maxcount sc,
            superblock := some sb },
        newLoop sc d sb 0)
  | .newLink sc d sb idx =>
    (h.setLink (sb + idx * blockSize sc) (sb + (idx + 1) * blockSize sc), newLoop sc d sb (idx + 1))
  | .newAnchor sc d sb =>
    check ((h.cache t sc).num = 0) .pushList h
      ((h.setCache t sc ⟨sb, maxcount sc⟩).setDesc d
        { h.desc d with anchor := .full (maxcount sc) }, .newFlush sc d)
  | .newFlush sc d => (h, .newFence sc d)
  | .newFence sc _ =>
    check (0 < maxcount sc ∧ maxcount sc ≤ cacheBlockNum sc) .fillCache h (h, .popBlock sc)
  | .popBlock sc =>
    let c := h.cache t sc
    check (0 < c.num) .popBlock h
      (((h.setCache t sc ⟨h.link c.block, c.num - 1⟩).setClient c.block .held).setRet t c.block,
        .idle)
  | .ctor d ph k => (h.setDesc d (ctorWrite (h.desc d) ph), ctorNext d k ph)
  | .orgLink start count i k =>
    (h.setDesc (start + i) { h.desc (start + i) with nextFree := some (start + i + 1) },
      .ctor (start + i + 1) .nextFree (.organize start count (i + 1) k))
  | .pushLoad first last k => (h, .pushStore .avail first last (h.see .avail) k)
  | .heapPushPartial d k =>
    match (h.desc d).heap with
    | none => (h, .abort .null)
    | some sc => (h, .pushStore (.part sc) d d (h.see (.part sc)) k)
  | .pushStore l first last old k =>
    check (l = .avail ∨ old.ptr ≠ some first) .heapPushPartial h
      (h.setDesc last ((h.desc last).setNext l old.ptr), .pushCas l first last old k)
  | .pushCas l first last old k =>
    if h.head l = old.toPtrCnt ∧ ¬spur then
      ({ h.setHead l ⟨some first, (old.cnt + 1) % CNT⟩ with
          pushes := Function.update h.pushes l (h.pushes l + 1) },
        pushDone cfg k)
    else (h, .pushStore l first last (h.see l) k)
  | .flushHead sc k =>
    let c := h.cache t sc
    if c.num = 0 then (h, flushDone sc k)
    else
      let d := sbIndex cfg.heapStart c.block
      let sb := (h.desc d).superblock.getD 0
      let (tail, count) := scanRun h.link sb (sb + (getSizeclassByIdx sc).sbSize)
        (c.num - 1) c.block 1
      check (count ≤ c.num) .popList h
        (match computeIdx sb c.block sc with
        | none => (h, .abort .computeIdx)
        | some idx => (h.setCache t sc ⟨h.link tail, c.num - count⟩,
            .flushLoad sc ⟨d, sb, c.block, tail, count, idx⟩ k))
  | .flushLoad sc r k => (h, .flushStore sc r (h.desc r.d).anchor k)
  | .flushStore sc r old k =>
    let h' := h.setLink r.tail (r.superblock + old.avail * blockSize sc)
    check (old.count < (h.desc r.d).maxcount) .flushCache h' (h', .flushCas sc r old k)
  | .flushCas sc r old k =>
    let new := giveAnchor old r.idx r.count (h.desc r.d).maxcount
    if (h.desc r.d).anchor = old ∧ ¬spur then
      let h' := h.setDesc r.d { h.desc r.d with anchor := new }
      check ((old.avail < maxcount sc ∨ old.state = SB_FULL) ∧ new.avail < maxcount sc ∧
        new.count < maxcount sc) .flushCache h' (h', gaveBack cfg sc r old new k)
    else (h, .flushStore sc r (h.desc r.d).anchor k)
  | .pushBlock sc p =>
    let c := h.cache t sc
    (((h.setLink p c.block).setCache t sc ⟨p, c.num + 1⟩).setClient p .none, .idle)
  | .largeLoad sbs =>
    check (argsOk PAGESIZE sbs ∧ cfg.fits h.currAddr PAGESIZE sbs) .expandGetLargeSb h
      (h, .largeFlush sbs h.currAddr)
  | .largeFlush sbs cur => (h, .largeFence sbs cur)
  | .largeFence sbs cur => (h, .largeCas sbs cur)
  | .largeCas sbs cur =>
    if h.currAddr = cur then
      ({ h with currAddr := bumpNext cur PAGESIZE sbs },
        .largeGrownFlush sbs (alignAdj cur PAGESIZE))
    else (h, .largeLoad sbs)
  | .largeGrownFlush sbs res => (h, .largeGrownFence sbs res)
  | .largeGrownFence sbs res => (h, .ctor (sbIndex cfg.heapStart res) .nextFree (.large sbs res))
  | .largeSet sbs res =>
    let d := sbIndex cfg.heapStart res
    check (res ≠ 0) .doMalloc h
      -- `block_size` is a 32-bit field
      (h.setDesc d
          { h.desc d with
            heap := some 0, blockSize := sbs % HALF, maxcount := 1, superblock := some res },
        .largeAnchor sbs res)
  | .largeAnchor sbs res =>
    let d := sbIndex cfg.heapStart res
    (h.setDesc d { h.desc d with anchor := ⟨0, 0, SB_FULL⟩ }, .largeDescFlush sbs res)
  | .largeDescFlush sbs res => (h, .largeDescFence sbs res)
  | .largeDescFence _ res => ((h.setClient res .held).setRet t res, .idle)
  | .rootSet p i =>
    check (i < MAX_ROOTS) .setRoot h
      ({ h with
          roots := Function.update h.roots i ((p + WORD - cfg.heapStart) % WORD)
          ret := Function.update h.ret t
            (if h.roots i = 0 then 0 else (cfg.heapStart + h.roots i) % WORD) },
        .rootFlush p i)
  | .rootFlush p i => (h, .rootFence p i)
  | .rootFence _ _ => (h, .idle)

/-- The call `do_malloc(size)` of thread `t` up to its first step. -/
def callMalloc (t size : ℕ) (h : Heap) : Heap × PC :=
  ({ h with req := Function.update h.req t size },
    if size > MAX_SZ then .largeLoad (roundUp size SBSIZE)
    else
      let sc := getSizeclass size
      if (h.cache t sc).num = 0 then .popLoad (.part sc) sc else .popBlock sc)

/-- The call `do_free(p)` of thread `t` up to its first step. -/
def callFree (cfg : Cfg) (t p : ℕ) (h : Heap) : Heap × PC :=
  if p = 0 then (h, .idle)
  else check (cfg.heapStart ≤ p ∧ p < h.currAddr) .doFree h <|
    let D := h.desc (sbIndex cfg.heapStart p)
    match D.heap with
    | none => (h, .abort .null)
    | some 0 =>
      check (D.blockSize % SBSIZE = 0) .largeSbRetire h
        (h.setClient p .none,
          organizeSbList cfg (D.superblock.getD 0) (D.blockSize / SBSIZE) .done)
    | some sc =>
      (h.setClient p (.freeing t),
        if (h.cache t sc).num ≥ cacheBlockNum sc then .flushHead sc (.free p) else .pushBlock sc p)

/-- The threads and their heap. -/
structure State where
  heap : Heap
  pc : ℕ → PC

/-- What can happen next: a thread starts a call, the client writes a byte, or a thread takes a
step. -/
inductive Act where
  | malloc (t size : ℕ)
  | free (t p : ℕ)
  | exit (t : ℕ)
  | setRoot (t p i : ℕ)
  | write (a : ℕ) (v : UInt8)
  | run (t : ℕ) (spur : Bool)
  deriving DecidableEq

/-- Put a thread's new control state and the new heap in place. -/
def State.put (s : State) (t : ℕ) (r : Heap × PC) : State := ⟨r.1, Function.update s.pc t r.2⟩

/-- The thread that has made a step. -/
@[simp] lemma State.pc_put_self (s : State) (t : ℕ) (r : Heap × PC) : (s.put t r).pc t = r.2 :=
  Function.update_self ..

/-- The other threads are where they were. -/
lemma State.pc_put_ne {s : State} {t u : ℕ} {r : Heap × PC} (ne : u ≠ t) :
    (s.put t r).pc u = s.pc u := Function.update_of_ne ne ..

/-- One action. A thread only starts a call when it is not inside one. -/
def step (cfg : Cfg) (s : State) : Act → Option State
  | .malloc t size => if s.pc t = .idle then some (s.put t (callMalloc t size s.heap)) else none
  | .free t p => if s.pc t = .idle then some (s.put t (callFree cfg t p s.heap)) else none
  | .exit t => if s.pc t = .idle then some (s.put t (s.heap, .flushHead 1 .exit)) else none
  | .setRoot t p i => if s.pc t = .idle then some (s.put t (s.heap, .rootSet p i)) else none
  | .write a v => some { s with heap := { s.heap with mem := Function.update s.heap.mem a v } }
  | .run t spur => some (s.put t (exec cfg t spur s.heap (s.pc t)))

end Ralloc
