import Ralloc.Model.Heap

/-!
# The recovery sweep

Model of the sweep phase of `GarbageCollection::operator()`: with the marked addresses in the order
of `std::set`, it goes through the superblocks of the region, rebuilds the free list of every
superblock that has a mark, and puts the others on `avail_sb`.

The sweep is sequential. Its loops need not end (a `block_size` of 0 keeps them in place), so they
take fuel, and `Outcome` tells running out of it apart from a failed assertion.
-/

namespace Ralloc

open Lib SuperblockState

/-- Where a collection can fail: the assertions of the sweep, and the call of the filter function of
a root that has none, which throws. -/
inductive CollectSite where
  | rootFilter
  | maxcount
  | head
  | aligned
  | heapPushPartial
  | marks
  deriving DecidableEq, Repr

/-- How a loop ends: not within its fuel, with a failed assertion, or with a result. -/
inductive Outcome (α : Type) where
  | timeout
  | failed (a : CollectSite)
  | done (x : α)

/-- Go on with the result. -/
def Outcome.bind {α β : Type} : Outcome α → (α → Outcome β) → Outcome β
  | .timeout, _ => .timeout
  | .failed a, _ => .failed a
  | .done x, f => f x

/-- Without fuel nothing follows. -/
@[simp] lemma Outcome.bind_timeout {α β : Type} (f : α → Outcome β) :
    Outcome.timeout.bind f = .timeout := rfl

/-- After an assertion that has failed nothing follows. -/
@[simp] lemma Outcome.bind_failed {α β : Type} (a : CollectSite) (f : α → Outcome β) :
    (Outcome.failed a).bind f = .failed a := rfl

/-- What follows a result. -/
@[simp] lemma Outcome.bind_done {α β : Type} (x : α) (f : α → Outcome β) :
    (Outcome.done x).bind f = f x := rfl

/-- The free list under construction in one superblock: memory, `free_blocks_head` and
`anchor.count`. -/
structure FreeList where
  heap : Heap
  head : ℕ
  count : ℕ

/-- Put a block on the free list. -/
def FreeList.push (l : FreeList) (b : ℕ) : FreeList := ⟨l.heap.setLink b l.head, b, l.count + 1⟩

/-- The `for` loops that free the blocks from `b` on below `bound`. -/
def freeLoop (blockSize bound : ℕ) : ℕ → ℕ → FreeList → Outcome FreeList
  | 0, _, _ => .timeout
  | n + 1, b, l =>
    if b < bound then freeLoop blockSize bound n (b + blockSize) (l.push b) else .done l

/-- The locals of one turn: `anchor.state`, the free list, and `last_possible_free_block`. -/
structure Scan where
  state : SuperblockState
  list : FreeList
  last : ℕ

/-- One mark `m` in the superblock at `sb` with descriptor `D`. -/
def scanMark (fuel sb : ℕ) (D : Descriptor) (m : ℕ) (c : Scan) : Outcome Scan :=
  if D.heap ≠ none ∧ D.superblock = some sb then
    if D.heap = some 0 then
      if D.maxcount = 1 then .done { c with state := SB_FULL } else .failed .maxcount
    else
      (freeLoop D.blockSize m fuel c.last c.list).bind fun l =>
        .done ⟨SB_PARTIAL, l, m + D.blockSize⟩
  else .done c

/-- The loop over the marks in this superblock; the rest is left for the next ones. -/
def scanMarks (fuel sb : ℕ) (D : Descriptor) : List ℕ → Scan → Outcome (Scan × List ℕ)
  | [], c => .done (c, [])
  | m :: ms, c =>
    if sb >>> SB_SHIFT = m >>> SB_SHIFT then
      (scanMark fuel sb D m c).bind (scanMarks fuel sb D ms)
    else .done (c, m :: ms)

/-- The locals of the sweep: `curr_sb`, `curr_desc`, the marks from `curr_marked_blk` on, and
`avail_sb`. -/
structure Sweep where
  heap : Heap
  sb : ℕ
  desc : ℕ
  marks : List ℕ
  avail : Option ℕ

/-- `heap_push_partial`, here with only one thread, after the other fields of the descriptor are
set to those of `D`. -/
def pushPartial (h : Heap) (d sc : ℕ) (D : Descriptor) : Outcome Heap :=
  if (h.head (.part sc)).ptr = some d then .failed .heapPushPartial
  else .done
    { (h.setDesc d { D with nextPartial := (h.head (.part sc)).ptr }).setHead (.part sc)
        ⟨some d, ((h.head (.part sc)).cnt + 1) % CNT⟩ with
      pushes := Function.update h.pushes (.part sc) (h.pushes (.part sc) + 1) }

/-- The end of a turn for a small superblock that is in use. -/
def finishSmall (w : Sweep) (D : Descriptor) (ms : List ℕ) (l : FreeList) : Outcome Sweep :=
  if l.count = 0 then
    .done ⟨l.heap.setDesc w.desc
      { D with nextFree := none, nextPartial := none, anchor := .full D.maxcount },
      w.sb + SBSIZE, w.desc + 1, ms, w.avail⟩
  else if l.head = 0 then .failed .head
  else if (l.head - w.sb) % D.blockSize ≠ 0 then .failed .aligned
  else
    (pushPartial l.heap w.desc (D.heap.getD 0)
      { D with
        nextFree := none, anchor := ⟨(l.head - w.sb) / D.blockSize, l.count, SB_PARTIAL⟩ }).bind
      fun h => .done ⟨h, w.sb + SBSIZE, w.desc + 1, ms, w.avail⟩

/-- One turn of the sweep of a region that starts at `start`. -/
def sweepTurnFrom (start fuel : ℕ) (w : Sweep) : Outcome Sweep :=
  let D := w.heap.desc w.desc
  (scanMarks fuel w.sb D w.marks ⟨SB_EMPTY, ⟨w.heap, 0, 0⟩, w.sb⟩).bind fun (c, ms) =>
    if c.state = SB_EMPTY then
      .done ⟨c.list.heap.setDesc w.desc { Descriptor.reset with nextFree := w.avail },
        w.sb + SBSIZE, w.desc + 1, ms, some w.desc⟩
    else if D.heap = some 0 then
      -- a large block: go to the superblock behind it
      .done ⟨c.list.heap.setDesc w.desc
          { D with nextFree := none, nextPartial := none, anchor := ⟨0, 0, SB_FULL⟩ },
        w.sb + D.blockSize, sbIndex start (w.sb + D.blockSize), ms, w.avail⟩
    else
      -- `maxcount * block_size` is computed with 32 bits
      (freeLoop D.blockSize (w.sb + D.maxcount * D.blockSize % HALF) fuel c.last c.list).bind
        (finishSmall w D ms)

/-- The loop over the superblocks below `sbEnd`. -/
def sweepLoopFrom (start fuel sbEnd : ℕ) : ℕ → Sweep → Outcome Sweep
  | 0, _ => .timeout
  | n + 1, w =>
    if w.sb < sbEnd then (sweepTurnFrom start fuel w).bind (sweepLoopFrom start fuel sbEnd n)
    else .done w

/-- The heap after step 0, which empties all lists. -/
def clearLists (h : Heap) : Heap := { h with head := fun _ => ⟨none, 0⟩, pushes := fun _ => 0 }

/-- The sweep for the marks in `marked_blk`, from the first superblock after the skipped one to the
final assertion. -/
def sweepFrom (start fuel : ℕ) (h : Heap) (marks : List ℕ) : Outcome Sweep :=
  let sb := start + SBSIZE
  (sweepLoopFrom start fuel h.currAddr fuel
      ⟨clearLists h, sb, sbIndex start sb, marks, none⟩).bind fun w =>
    if w.marks = [] then .done { w with heap := w.heap.setHead .avail ⟨w.avail, 0⟩ }
    else .failed .marks

/-- One turn of the sweep. -/
def sweepTurn (cfg : Cfg) (fuel : ℕ) (w : Sweep) : Outcome Sweep :=
  sweepTurnFrom cfg.heapStart fuel w

/-- The loop over the superblocks below `sbEnd`. -/
def sweepLoop (cfg : Cfg) (fuel sbEnd n : ℕ) (w : Sweep) : Outcome Sweep :=
  sweepLoopFrom cfg.heapStart fuel sbEnd n w

/-- The sweep of a region that starts at a multiple of `SBSIZE`. -/
def sweep (cfg : Cfg) (fuel : ℕ) (h : Heap) (marks : List ℕ) : Outcome Sweep :=
  sweepFrom cfg.heapStart fuel h marks

/-- The loop ends at `sb_end`, or makes a turn and goes on. -/
lemma sweepLoop_succ (cfg : Cfg) (fuel sbEnd n : ℕ) (w : Sweep) :
    sweepLoop cfg fuel sbEnd (n + 1) w =
      if w.sb < sbEnd then (sweepTurn cfg fuel w).bind (sweepLoop cfg fuel sbEnd n) else .done w :=
      rfl

end Ralloc
