import Mathlib.Algebra.BigOperators.Intervals
import Ralloc.Machine.Realloc

/-!
# How many steps are left in a call

The allocator has no locks; what does it owe a thread when all others have stopped somewhere inside
their own calls? `callLeft` bounds the steps that are left in a call from any control state. The
loops are the difficulty: `heap_pop_partial` and the pushes start over when the list word has
changed, `malloc_from_partial` starts over with every empty superblock that it retires,
`flush_cache` goes around once for every run of blocks in the cache. A loop that is alone starts
over for a reason that can be counted: a stale value is stale only once, a retired superblock leaves
its class, a run leaves the cache.

One case is left out (`Stale`). A thread that has found `avail_sb` empty tries to expand the region;
when it sees that somebody else has filled `avail_sb` meanwhile it starts over with `continue`, and
keeps the empty head it loaded before.

`Onward` is what one step does: the call is over, or fewer steps are left. There is a lemma for
every loop. A spurious failure of a weak compare-and-swap costs two steps.
-/

namespace Ralloc

open Lib SuperblockState

variable {cfg : Cfg} {t sc d : ℕ} {h : Heap} {pc : PC} {s : State} {L : Ledger}

/-- The thread runs alone; `spur` says at each step whether a weak compare-and-swap fails
spuriously. -/
def runAlone (cfg : Cfg) (t : ℕ) : List Bool → Heap × PC → Heap × PC
  | [], r => r
  | spur :: l, r => runAlone cfg t l (exec cfg t spur r.1 r.2)

/-- The thread is in the branch for an empty `avail_sb` and will come back to its head with the
empty list it has loaded, but `avail_sb` is not empty. -/
def Stale (h : Heap) : PC → Prop
  | .growLoad _ | .growCheck _ _ => (h.head .avail).ptr ≠ none
  | .growFlush _ cur | .growFence _ cur | .growCas _ cur =>
    cur ≠ h.currAddr ∧ (h.head .avail).ptr ≠ none
  | _ => False

/-- There is room for an expansion. -/
def Room (cfg : Cfg) (cur : ℕ) : Prop := cfg.fits cur PAGESIZE SB_REGION_EXPAND_SIZE = true

/-- The steps left in the constructor. -/
def CtorPhase.left : CtorPhase → ℕ
  | .nextFree => 5
  | .nextPartial => 4
  | .fields => 3
  | .flush => 2
  | .fence => 1

/-- The steps of `small_sb_alloc` from `organize_sb_list` to the end. -/
def GROWN_STEPS : ℕ := 6 * (EXPAND_SBS - 1) + 8

/-- The number of superblocks whose descriptor has class `sc`. -/
def classSbs (cfg : Cfg) (h : Heap) (sc : ℕ) : ℕ :=
  ((Finset.range ((h.currAddr - cfg.heapStart) / SBSIZE)).filter
    fun d => (h.desc d).heap = some sc).card

/-- `malloc_from_newsb` with the pop that follows. -/
def newLeft (sc : ℕ) : ℕ := maxcount sc + 5

/-- `small_sb_alloc` and what follows. -/
def availLeft (sc : ℕ) : ℕ := GROWN_STEPS + newLeft sc + 7

/-- `malloc_from_partial` without its first turn: every turn that starts over retires a superblock
of the class. -/
def partLeft (cfg : Cfg) (h : Heap) (sc : ℕ) : ℕ := 16 * classSbs cfg h sc + availLeft sc

/-- `flush_cache` and what follows: every turn takes a block out of the cache. -/
def flushLeft (h : Heap) (t sc : ℕ) : FlushK → ℕ
  | .free _ => 16 * (h.cache t sc).num + 2
  | .exit => ∑ c ∈ Finset.Ico sc MAX_SZ_IDX, (16 * (h.cache t c).num + 1)

/-- What follows a push. -/
def pushLeft (cfg : Cfg) (t : ℕ) (h : Heap) : PushK → ℕ
  | .retry sc => partLeft cfg h sc + 15
  | .flush sc k => flushLeft h t sc k
  | .newsb sc _ => newLeft sc + 5
  | .done => 0

/-- What follows a push of a superblock that the constructor has not cleared yet. -/
def retireLeft (cfg : Cfg) (t : ℕ) (h : Heap) : CtorPhase → PushK → ℕ
  | .flush, k | .fence, k => pushLeft cfg t h k
  | _, .retry sc => partLeft cfg h sc - 1
  | _, k => pushLeft cfg t h k

/-- A bound on the steps that are left in a call. -/
def callLeft (cfg : Cfg) (t : ℕ) (h : Heap) : PC → ℕ
  | .idle | .abort _ => 0
  | .popLoad .avail sc => availLeft sc
  | .popLoad (.part _) sc => partLeft cfg h sc + 15
  | .popNext .avail sc old _ =>
    if h.head .avail = old.toPtrCnt then newLeft sc + 2 else availLeft sc + 1
  | .popNext (.part c) sc old _ =>
    partLeft cfg h sc + if h.head (.part c) = old.toPtrCnt then 14 else 16
  | .popCas .avail sc old _ _ =>
    if h.head .avail = old.toPtrCnt then newLeft sc + 1 else availLeft sc
  | .popCas (.part c) sc old _ _ =>
    partLeft cfg h sc + if h.head (.part c) = old.toPtrCnt then 13 else 15
  | .anchorLoad sc _ => partLeft cfg h sc + 12
  | .anchorCas sc d old _ _ _ =>
    if (h.desc d).anchor = old then availLeft sc + 2 else partLeft cfg h sc + 12
  | .growLoad sc => GROWN_STEPS + newLeft sc + 6
  | .growCheck sc cur => GROWN_STEPS + newLeft sc + if h.currAddr = cur then 5 else 10
  | .growFlush sc cur => GROWN_STEPS + newLeft sc + if h.currAddr = cur then 4 else 9
  | .growFence sc cur => GROWN_STEPS + newLeft sc + if h.currAddr = cur then 3 else 8
  | .growCas sc cur => GROWN_STEPS + newLeft sc + if h.currAddr = cur then 2 else 7
  | .grownFlush sc _ => GROWN_STEPS + newLeft sc + 1
  | .grownFence sc _ => GROWN_STEPS + newLeft sc
  | .newSet sc _ => newLeft sc
  | .newLink sc _ _ idx => maxcount sc - (idx + 1) + 5
  | .newAnchor _ _ _ => 4
  | .newFlush _ _ => 3
  | .newFence _ _ => 2
  | .popBlock _ => 1
  | .ctor _ ph (.retire k) => ph.left + 3 + retireLeft cfg t h ph k
  | .ctor _ ph (.organize _ count i k) => ph.left + 6 * (count - (i + 1)) + 3 + pushLeft cfg t h k
  | .ctor _ ph (.newsb sc _) => ph.left + newLeft sc
  | .ctor _ ph (.large _ _) => ph.left + 4
  | .orgLink _ count i k => 6 + 6 * (count - (i + 2)) + 3 + pushLeft cfg t h k
  | .pushLoad _ _ k | .heapPushPartial _ k => 3 + pushLeft cfg t h k
  | .pushStore l _ _ old k => (if h.head l = old.toPtrCnt then 2 else 4) + pushLeft cfg t h k
  | .pushCas l _ _ old k => (if h.head l = old.toPtrCnt then 1 else 3) + pushLeft cfg t h k
  | .flushHead sc k => flushLeft h t sc k
  | .flushLoad sc _ k => 11 + flushLeft h t sc k
  | .flushStore sc r old k =>
    (if (h.desc r.d).anchor = old then 10 else 12) + flushLeft h t sc k
  | .flushCas sc r old k => (if (h.desc r.d).anchor = old then 9 else 11) + flushLeft h t sc k
  | .pushBlock _ _ => 1
  | .largeLoad _ => 15
  | .largeFlush _ cur => if h.currAddr = cur then 14 else 18
  | .largeFence _ cur => if h.currAddr = cur then 13 else 17
  | .largeCas _ cur => if h.currAddr = cur then 12 else 16
  | .largeGrownFlush _ _ => 11
  | .largeGrownFence _ _ => 10
  | .largeSet _ _ => 4
  | .largeAnchor _ _ => 3
  | .largeDescFlush _ _ => 2
  | .largeDescFence _ _ => 1
  | .rootSet _ _ => 3
  | .rootFlush _ _ => 2
  | .rootFence _ _ => 1

/-- No assertion of the thread has failed and none of a caller's argument will, and the pop it is in
has not been overtaken by a full turn of the counter. -/
def Going (h : Heap) : PC → Prop
  | .abort _ => False
  | .popNext l _ old _ | .popCas l _ old _ _ => h.pushes l - old.stamp < CNT
  | .rootSet _ i => i < MAX_ROOTS
  | _ => True

/-- The assertion of an expansion has failed, and there is no room for one. -/
def NoMemory (cfg : Cfg) (t : ℕ) (h : Heap) : PC → Prop
  | .abort .smallSbAlloc => ¬Room cfg h.currAddr
  | .abort .expandGetLargeSb => ∃ sbs, LargeOk h t sbs ∧ cfg.fits h.currAddr PAGESIZE sbs = false
  | _ => False

/-- A call is over: it has returned, or it was a `do_malloc` and there is no memory. -/
def Over (cfg : Cfg) (t : ℕ) (inMalloc : Bool) (r : Heap × PC) : Prop :=
  r.2 = .idle ∨ inMalloc = true ∧ NoMemory cfg t r.1 r.2

/-- The call goes on, and fewer than `left` steps are left. -/
structure Nearer (cfg : Cfg) (t : ℕ) (inMalloc : Bool) (left : ℕ) (r : Heap × PC) : Prop where
  call : r.2.inMalloc = inMalloc
  going : Going r.1 r.2
  fresh : ¬Stale r.1 r.2
  left : callLeft cfg t r.1 r.2 + 1 ≤ left

/-- One step. -/
def Onward (cfg : Cfg) (t : ℕ) (inMalloc : Bool) (left : ℕ) (r : Heap × PC) : Prop :=
  Over cfg t inMalloc r ∨ Nearer cfg t inMalloc left r

/-- The assertions that can fail. -/
def Site.CanFail (a : Site) : Prop := a = .smallSbAlloc ∨ a = .expandGetLargeSb ∨ a = .setRoot

/-- The result of a step is no failed assertion but one of those that can fail. -/
def Safe (r : Heap × PC) : Prop := ∀ a, r.2 = .abort a → a.CanFail

variable {m : Bool} {n : ℕ} {r : Heap × PC}

/-- Threads that keep the invariant fail in no other assertion. -/
lemma Sound.safe (sound : Sound cfg t h L r) : Safe r := by
  obtain ⟨L', -, th⟩ := sound
  intro a e
  have known := th.known
  rwa [e] at known

/-- More steps are allowed. -/
lemma Onward.mono (o : Onward cfg t m n r) {n' : ℕ} (le : n ≤ n') : Onward cfg t m n' r :=
  o.imp_right fun ⟨h1, h2, h3, h4⟩ => ⟨h1, h2, h3, le_trans h4 le⟩

/-- An assertion that cannot fail. -/
lemma Onward.check {c : Prop} [Decidable c] {a : Site} {g : Heap} {go : Heap × PC}
    (safe : Safe (check c a g go)) (site : ¬a.CanFail) (next : c → Safe go → Onward cfg t m n go) :
    Onward cfg t m n (check c a g go) := by
  rw [Ralloc.check] at safe ⊢
  split at safe
  case isTrue hc =>
    rw [if_pos hc]
    exact next hc safe
  case isFalse => exact absurd (safe a rfl) site

/-- A list that is not empty. -/
lemma popTest_some {l : ListId} {old : Seen} {p : ℕ} (e : old.ptr = some p) :
    popTest l sc old = .popNext l sc old p := by
  simp only [popTest, e]

/-- `small_sb_alloc` finds `avail_sb` empty. -/
lemma popTest_avail {old : Seen} (e : old.ptr = none) : popTest .avail sc old = .growLoad sc := by
  simp only [popTest, e]

/-- `malloc_from_partial` finds no superblock. -/
lemma popTest_part {old : Seen} {k : ℕ} (e : old.ptr = none) :
    popTest (.part k) sc old = .popLoad .avail sc := by
  simp only [popTest, e]

section count

variable {g : Heap}

/-- The superblocks of a class depend on `curr_addr` and the classes of the descriptors. -/
lemma classSbs_congr (curr : g.currAddr = h.currAddr)
    (same : ∀ d, (g.desc d).heap = some sc ↔ (h.desc d).heap = some sc) :
    classSbs cfg g sc = classSbs cfg h sc := by
  simp only [classSbs, curr, same]

/-- A write to a descriptor that does not change who belongs to the class. -/
lemma classSbs_setDesc {D : Descriptor} (same : D.heap = some sc ↔ (h.desc d).heap = some sc) :
    classSbs cfg (h.setDesc d D) sc = classSbs cfg h sc := by
  refine classSbs_congr (g := h.setDesc d D) rfl fun e => ?_
  by_cases he : e = d
  · subst he
    rw [Heap.desc_setDesc_self, same]
  · rw [Heap.desc_setDesc_ne he]

/-- The range of the count is the range of the superblocks. -/
lemma Rep.sbs_range (rep : Rep cfg h L) : (h.currAddr - cfg.heapStart) / SBSIZE = L.n := by
  have e : cfg.sb L.n = cfg.heapStart + L.n * SBSIZE := rfl
  rw [rep.curr, e, Nat.add_sub_cancel_left, Nat.mul_div_cancel _ (by decide)]

/-- A superblock that loses its class. -/
lemma classSbs_retire (ok : L.Ok cfg) (rep : Rep cfg h L) {o} (role : L.role d = .small sc o)
    {D : Descriptor} (none : D.heap = none) :
    classSbs cfg (h.setDesc d D) sc + 1 = classSbs cfg h sc := by
  have lt : d < L.n := by
    have := mt (ok.born d).2 (by rw [role]; simp)
    omega
  have before : d ∈ (Finset.range L.n).filter fun d => (h.desc d).heap = some sc :=
    Finset.mem_filter.2 ⟨Finset.mem_range.2 lt, (rep.small role).1⟩
  have after : (Finset.range L.n).filter (fun e => ((h.setDesc d D).desc e).heap = some sc) =
      ((Finset.range L.n).filter fun e => (h.desc e).heap = some sc).erase d := by
    ext e
    by_cases he : e = d
    · subst he
      simp [none]
    · simp [Heap.desc_setDesc_ne he, he]
  have curr : (h.setDesc d D).currAddr = h.currAddr := rfl
  rw [classSbs, classSbs, curr, rep.sbs_range, after]
  exact Finset.card_erase_add_one before

/-- The same for the steps that are bounded by it. -/
lemma partLeft_setDesc {D : Descriptor} (same : D.heap = some sc ↔ (h.desc d).heap = some sc) :
    partLeft cfg (h.setDesc d D) sc = partLeft cfg h sc := by
  rw [partLeft, classSbs_setDesc same, partLeft]

/-- Only the class of the descriptor matters to what follows a push. -/
lemma pushLeft_setDesc {D : Descriptor} {k : PushK}
    (same : ∀ sc, k = .retry sc → (D.heap = some sc ↔ (h.desc d).heap = some sc)) :
    pushLeft cfg t (h.setDesc d D) k = pushLeft cfg t h k := by
  cases k with
  | retry sc => rw [pushLeft, partLeft_setDesc (same sc rfl), pushLeft]
  | flush sc k => cases k <;> rfl
  | _ => rfl

/-- The same when the class stays. -/
lemma pushLeft_setDesc_heap {D : Descriptor} (k : PushK) (same : D.heap = (h.desc d).heap) :
    pushLeft cfg t (h.setDesc d D) k = pushLeft cfg t h k :=
  pushLeft_setDesc fun sc _ => by rw [same]

/-- A list word does not matter. -/
lemma pushLeft_heads {k : PushK} (curr : g.currAddr = h.currAddr) (desc : g.desc = h.desc)
    (cache : g.cache = h.cache) : pushLeft cfg t g k = pushLeft cfg t h k := by
  cases k with
  | retry sc =>
    rw [pushLeft, partLeft, classSbs_congr curr fun d => by rw [desc], pushLeft, partLeft]
  | flush sc k => cases k <;> simp only [pushLeft, flushLeft, cache]
  | _ => rfl

/-- The cache of the class that is flushed, split off the others. -/
lemma flushLeft_exit (small : SmallClass sc) : flushLeft h t sc .exit =
    16 * (h.cache t sc).num + 1 + flushLeft h t (sc + 1) .exit :=
  Finset.sum_eq_sum_Ico_succ_bot small.2 _

/-- A write to the cache of one class leaves the classes after it alone. -/
lemma sum_setCache (f : ℕ → ℕ) (c : TCacheBin) :
    ∑ e ∈ Finset.Ico (sc + 1) MAX_SZ_IDX, f ((h.setCache t sc c).cache t e).num =
      ∑ e ∈ Finset.Ico (sc + 1) MAX_SZ_IDX, f (h.cache t e).num := by
  refine Finset.sum_congr rfl fun e he => ?_
  have ne : e ≠ sc := by
    have := (Finset.mem_Ico.1 he).1
    omega
  rw [Heap.cache_setCache_class ne]

/-- A turn of `flush_cache` takes a block out of the cache. -/
lemma flushLeft_setCache (small : SmallClass sc) (k : FlushK) {c : TCacheBin}
    (lt : c.num < (h.cache t sc).num) :
    flushLeft (h.setCache t sc c) t sc k + 16 ≤ flushLeft h t sc k := by
  cases k with
  | free p =>
    rw [flushLeft, flushLeft, Heap.cache_setCache_self]
    omega
  | exit =>
    have rest : flushLeft (h.setCache t sc c) t (sc + 1) .exit = flushLeft h t (sc + 1) .exit :=
      sum_setCache (fun n => 16 * n + 1) c
    rw [flushLeft_exit small, flushLeft_exit small, rest, Heap.cache_setCache_self]
    omega

/-- An empty cache. -/
lemma flushLeft_done (small : SmallClass sc) {k : FlushK} (num : (h.cache t sc).num = 0) :
    Onward cfg t false (flushLeft h t sc k) (h, flushDone sc k) := by
  cases k with
  | free p =>
    refine .inr ⟨rfl, trivial, id, ?_⟩
    rw [flushLeft, num]
    exact le_rfl
  | exit =>
    rw [flushDone]
    split
    · refine .inr ⟨rfl, trivial, id, ?_⟩
      show flushLeft h t (sc + 1) .exit + 1 ≤ _
      rw [flushLeft_exit small]
      omega
    · exact .inl (.inl rfl)

end count

/-- At the head of `heap_pop_partial`. -/
lemma onward_popTest_part {c : ℕ} :
    Onward cfg t true (partLeft cfg h sc + 15) (h, popTest (.part c) sc (h.see (.part c))) := by
  cases e : (h.see (.part c)).ptr with
  | none =>
    rw [popTest_part e]
    refine .inr ⟨rfl, trivial, id, ?_⟩
    simp only [callLeft, partLeft]
    omega
  | some p =>
    have current : h.head (.part c) = (h.see (.part c)).toPtrCnt := rfl
    have le : h.pushes (.part c) - (h.see (.part c)).stamp = 0 := Nat.sub_self _
    rw [popTest_some e]
    refine .inr ⟨rfl, ?_, id, ?_⟩
    · rw [Going, le]
      exact CNT_pos
    · rw [callLeft, if_pos current]

/-- At the head of `small_sb_alloc`. -/
lemma onward_popTest_avail :
    Onward cfg t true (availLeft sc) (h, popTest .avail sc (h.see .avail)) := by
  cases e : (h.see .avail).ptr with
  | none =>
    rw [popTest_avail e]
    exact .inr ⟨rfl, trivial, not_not.2 e, le_rfl⟩
  | some p =>
    have current : h.head .avail = (h.see .avail).toPtrCnt := rfl
    have le : h.pushes .avail - (h.see .avail).stamp = 0 := Nat.sub_self _
    rw [popTest_some e]
    refine .inr ⟨rfl, ?_, id, ?_⟩
    · rw [Going, le]
      exact CNT_pos
    · rw [callLeft, if_pos current, availLeft]
      omega

/-- From the link of the first descriptor to the compare-and-swap. -/
lemma callLeft_popNext {l : ListId} {old : Seen} {p : ℕ} {next : Option ℕ} :
    callLeft cfg t h (.popCas l sc old p next) + 1 = callLeft cfg t h (.popNext l sc old p) := by
  cases l <;> simp only [callLeft] <;> split <;> omega

/-- The pops. -/
lemma onward_pop (spur : Bool) {l : ListId} {old : Seen} {p : ℕ} {next : Option ℕ} :
    Onward cfg t true (callLeft cfg t h (.popCas l sc old p next) + 2 * spur.toNat)
      (exec cfg t spur h (.popCas l sc old p next)) := by
  rw [exec]
  cases l with
  | avail =>
    by_cases e : h.head .avail = old.toPtrCnt
    · rw [if_pos ⟨e, by simp⟩, callLeft, if_pos e]
      exact .inr ⟨rfl, trivial, id, Nat.le_add_right ..⟩
    · rw [if_neg fun hc => e hc.1, callLeft, if_neg e]
      exact onward_popTest_avail.mono (Nat.le_add_right ..)
  | part c =>
    by_cases e : h.head (.part c) = old.toPtrCnt
    · rw [callLeft, if_pos e]
      cases spur with
      | false =>
        rw [if_pos ⟨e, by simp⟩]
        refine .inr ⟨rfl, trivial, id, ?_⟩
        have same : partLeft cfg (h.setHead (.part c) ⟨next, old.cnt⟩) sc = partLeft cfg h sc := rfl
        simp only [popped, callLeft, same]
        omega
      | true =>
        rw [if_neg (by simp)]
        exact onward_popTest_part.mono le_rfl
    · rw [if_neg fun hc => e hc.1, callLeft, if_neg e]
      exact onward_popTest_part.mono (Nat.le_add_right ..)

/-- The loop of `malloc_from_partial`: an empty superblock is retired, from another one the thread
takes all blocks. -/
lemma onward_anchorTest {maxc bsize sb : ℕ}
    (safe : Safe (anchorTest cfg sc d (h.desc d).anchor maxc bsize sb h)) :
    Onward cfg t true (partLeft cfg h sc + 12)
      (anchorTest cfg sc d (h.desc d).anchor maxc bsize sb h) := by
  unfold anchorTest at safe ⊢
  split at safe
  case isTrue e =>
    rw [if_pos e]
    refine .check safe (by simp [Site.CanFail]) fun _ _ => .inr ⟨rfl, trivial, id, ?_⟩
    simp only [callLeft, retireLeft, CtorPhase.left]
    omega
  case isFalse e =>
    rw [if_neg e]
    refine .check safe (by simp [Site.CanFail]) fun _ _ => .inr ⟨rfl, trivial, id, ?_⟩
    simp only [callLeft, partLeft, if_true]
    omega

/-- The compare-and-swap of `malloc_from_partial`. -/
lemma onward_anchorCas (spur : Bool) {old : Anchor} {maxc bsize sb : ℕ}
    (part : old.state = SB_PARTIAL)
    (safe : Safe (exec cfg t spur h (.anchorCas sc d old maxc bsize sb))) :
    Onward cfg t true (callLeft cfg t h (.anchorCas sc d old maxc bsize sb) + 2 * spur.toNat)
      (exec cfg t spur h (.anchorCas sc d old maxc bsize sb)) := by
  rw [exec] at safe ⊢
  by_cases e : (h.desc d).anchor = old
  · rw [callLeft, if_pos e]
    cases spur with
    | false =>
      rw [if_pos ⟨e, by simp⟩] at safe ⊢
      refine .check safe (by simp [Site.CanFail]) fun _ safe => ?_
      unfold filled at safe ⊢
      split at safe
      case isTrue none =>
        rw [if_pos none]
        refine .inr ⟨rfl, trivial, id, ?_⟩
        simp only [callLeft]
        omega
      case isFalse some =>
        rw [if_neg some]
        refine .check safe (by simp [Site.CanFail]) fun _ _ => .inr ⟨rfl, trivial, id, ?_⟩
        simp only [callLeft]
        omega
    | true =>
      rw [if_neg (by simp)] at safe ⊢
      have ne : ¬old.state = SB_EMPTY := by simp [part]
      rw [anchorTest, e, if_neg ne, Ralloc.check, if_pos part]
      refine .inr ⟨rfl, trivial, id, ?_⟩
      simp only [callLeft, e, if_true, Bool.toNat_true]
      omega
  · rw [if_neg fun hc => e hc.1] at safe ⊢
    rw [callLeft, if_neg e]
    exact (onward_anchorTest safe).mono (Nat.le_add_right ..)

section grow

variable {cur : ℕ}

/-- From the load of `curr_addr` to the check. -/
lemma callLeft_growLoad :
    callLeft cfg t h (.growCheck sc h.currAddr) + 1 = callLeft cfg t h (.growLoad sc) := by
  simp only [callLeft, if_true]

/-- From the check to the flush. -/
lemma callLeft_growCheck :
    callLeft cfg t h (.growFlush sc cur) + 1 = callLeft cfg t h (.growCheck sc cur) := by
  simp only [callLeft]
  split <;> omega

/-- From the flush to the fence. -/
lemma callLeft_growFlush :
    callLeft cfg t h (.growFence sc cur) + 1 = callLeft cfg t h (.growFlush sc cur) := by
  simp only [callLeft]
  split <;> omega

/-- From the fence to the compare-and-swap. -/
lemma callLeft_growFence :
    callLeft cfg t h (.growCas sc cur) + 1 = callLeft cfg t h (.growFence sc cur) := by
  simp only [callLeft]
  split <;> omega

/-- The compare-and-swap of an expansion leads on or back to the load. -/
lemma callLeft_growCas (spur : Bool) :
    callLeft cfg t (exec cfg t spur h (.growCas sc cur)).1
      (exec cfg t spur h (.growCas sc cur)).2 + 1 = callLeft cfg t h (.growCas sc cur) := by
  rw [exec]
  by_cases e : h.currAddr = cur
  · rw [if_pos e]
    simp only [callLeft, if_pos e]
  · rw [if_neg e]
    simp only [callLeft, if_neg e]

/-- The check before an expansion. -/
lemma onward_growCheck (spur : Bool) (empty : (h.head .avail).ptr = none)
    (room : Room cfg h.currAddr → Room cfg cur) :
    Onward cfg t true (callLeft cfg t h (.growCheck sc cur))
      (exec cfg t spur h (.growCheck sc cur)) := by
  rw [exec, if_neg (not_not.2 empty), check]
  split
  · exact .inr ⟨rfl, trivial, fun st => st.2 empty, callLeft_growCheck.le⟩
  case isFalse fits => exact .inl (.inr ⟨rfl, fun full => fits (room full)⟩)

/-- The compare-and-swap of an expansion. -/
lemma onward_growCas (spur : Bool) (fresh : ¬Stale h (.growCas sc cur)) :
    Onward cfg t true (callLeft cfg t h (.growCas sc cur))
      (exec cfg t spur h (.growCas sc cur)) := by
  have left : callLeft cfg t (exec cfg t spur h (.growCas sc cur)).1
      (exec cfg t spur h (.growCas sc cur)).2 + 1 = callLeft cfg t h (.growCas sc cur) :=
    callLeft_growCas spur
  rw [← left, exec]
  split
  · exact .inr ⟨rfl, trivial, id, le_rfl⟩
  case isFalse e => exact .inr ⟨rfl, trivial, fun st => fresh ⟨fun e' => e e'.symm, st⟩, le_rfl⟩

/-- The expansion goes to `organize_sb_list`. -/
lemma onward_grownFence (spur : Bool) {res : ℕ} :
    Onward cfg t true (callLeft cfg t h (.grownFence sc res))
      (exec cfg t spur h (.grownFence sc res)) := by
  refine .inr ⟨rfl, trivial, id, ?_⟩
  have count : SB_REGION_EXPAND_SIZE / SBSIZE - 1 = 16383 := rfl
  simp only [exec, organizeSbList, callLeft, pushLeft, CtorPhase.left, GROWN_STEPS, EXPAND_SBS_eq,
    count]
  omega

end grow

/-- The loop of `malloc_from_newsb`. -/
lemma onward_newLoop {sb idx : ℕ} :
    Onward cfg t true (maxcount sc - idx + 5) (h, newLoop sc d sb idx) := by
  rw [newLoop]
  split
  · refine .inr ⟨rfl, trivial, id, ?_⟩
    simp only [callLeft]
    omega
  · refine .inr ⟨rfl, trivial, id, ?_⟩
    simp only [callLeft]
    omega

/-- The class of the superblock is all that matters while it is retired. -/
lemma retireLeft_setDesc {D : Descriptor} (same : D.heap = (h.desc d).heap) (ph : CtorPhase)
    (k : PushK) : retireLeft cfg t (h.setDesc d D) ph k = retireLeft cfg t h ph k := by
  have part : ∀ sc, partLeft cfg (h.setDesc d D) sc = partLeft cfg h sc :=
    fun sc => partLeft_setDesc (by rw [same])
  have push : pushLeft cfg t (h.setDesc d D) k = pushLeft cfg t h k := pushLeft_setDesc_heap k same
  cases ph <;> cases k <;> first | exact push | simp only [retireLeft, part]

/-- When the constructor clears the fields the superblock leaves its class. -/
lemma retireLeft_fields (ok : L.Ok cfg) (rep : Rep cfg h L) {k : PushK} {o}
    (role : L.role d = .small k.sc o) {D : Descriptor} (none : D.heap = none) :
    retireLeft cfg t (h.setDesc d D) .flush k = retireLeft cfg t h .fields k := by
  cases k with
  | retry sc =>
    have one := classSbs_retire ok rep role none
    rw [PushK.sc] at one
    simp only [retireLeft, pushLeft, partLeft]
    omega
  | flush sc k => cases k <;> rfl
  | _ => rfl

/-- The constructor in `small_sb_retire`. -/
lemma onward_retire (ok : L.Ok cfg) (rep : Rep cfg h L) {ph : CtorPhase} {k : PushK}
    (th : ThInv cfg h L t (.ctor d ph (.retire k))) :
    Onward cfg t k.inMalloc (callLeft cfg t h (.ctor d ph (.retire k)))
      (h.setDesc d (ctorWrite (h.desc d) ph), ctorNext d (.retire k) ph) := by
  have keep : ph ≠ .fields → ∀ q, retireLeft cfg t (h.setDesc d (ctorWrite (h.desc d) ph)) q k =
      retireLeft cfg t h q k := by
    intro ne q
    refine retireLeft_setDesc ?_ q k
    cases ph with
    | fields => exact absurd rfl ne
    | _ => rfl
  cases ph with
  | nextFree =>
    have same : retireLeft cfg t h .nextPartial k = retireLeft cfg t h .nextFree k := by
      cases k <;> rfl
    refine .inr ⟨rfl, trivial, id, ?_⟩
    simp only [ctorNext, callLeft, keep (by simp), same, CtorPhase.left]
    omega
  | nextPartial =>
    have same : retireLeft cfg t h .fields k = retireLeft cfg t h .nextPartial k := by
      cases k <;> rfl
    refine .inr ⟨rfl, trivial, id, ?_⟩
    simp only [ctorNext, callLeft, keep (by simp), same, CtorPhase.left]
    omega
  | fields =>
    have role : L.role d = .small k.sc (.thr t) := th.role_own ok rfl
    have gone := retireLeft_fields ok rep role (t := t) (D := ctorWrite (h.desc d) .fields) rfl
    refine .inr ⟨rfl, trivial, id, ?_⟩
    simp only [ctorNext, callLeft, gone, CtorPhase.left]
    omega
  | flush =>
    have rest : pushLeft cfg t _ k = pushLeft cfg t h k := keep (by simp) .fence
    refine .inr ⟨rfl, trivial, id, ?_⟩
    simp only [ctorNext, callLeft, rest, CtorPhase.left, retireLeft]
    omega
  | fence =>
    have rest : pushLeft cfg t _ k = pushLeft cfg t h k := keep (by simp) .fence
    refine .inr ⟨rfl, trivial, id, ?_⟩
    simp only [ctorNext, ctorDone, callLeft, rest, CtorPhase.left, retireLeft]
    omega

/-- A descriptor that is not assigned has no class. -/
lemma ThInv.raw_class (th : ThInv cfg h L t pc) (ok : L.Ok cfg) (rep : Rep cfg h L)
    (raw : d ∈ rawOf cfg pc) (small : SmallClass sc) : (h.desc d).heap ≠ some sc := by
  rw [← th.owned.raw, ok.mem_sbs (r := .raw t) trivial] at raw
  have no := rep.desc d
  rw [raw] at no
  intro e
  have pos := small.1
  rcases no with no | no <;> rw [no] at e <;> cases e
  exact lt_irrefl 0 pos

/-- The constructor in `organize_sb_list`, if it does not matter to what follows. -/
lemma onward_organize {ph : CtorPhase} {k : PushK} {start count i : ℕ}
    (rest : pushLeft cfg t (h.setDesc d (ctorWrite (h.desc d) ph)) k = pushLeft cfg t h k) :
    Onward cfg t k.inMalloc (callLeft cfg t h (.ctor d ph (.organize start count i k)))
      (h.setDesc d (ctorWrite (h.desc d) ph), ctorNext d (.organize start count i k) ph) := by
  cases ph with
  | fence =>
    rw [ctorNext, ctorDone]
    split
    · refine .inr ⟨rfl, trivial, id, ?_⟩
      simp only [callLeft, rest, CtorPhase.left]
      omega
    · refine .inr ⟨rfl, trivial, id, ?_⟩
      simp only [callLeft, rest, CtorPhase.left]
      omega
  | _ =>
    refine .inr ⟨rfl, trivial, id, ?_⟩
    simp only [ctorNext, callLeft, rest, CtorPhase.left]
    omega

/-- In `organize_sb_list` it does not matter: the superblock has no class, and a thread that will
start over has one in mind. -/
lemma ThInv.organize_rest (ok : L.Ok cfg) (rep : Rep cfg h L) {ph : CtorPhase} {k : PushK}
    {start count i : ℕ} (th : ThInv cfg h L t (.ctor d ph (.organize start count i k))) :
    pushLeft cfg t (h.setDesc d (ctorWrite (h.desc d) ph)) k = pushLeft cfg t h k := by
  obtain ⟨kok, -, hd, hi, -⟩ := th.known
  have raw : d ∈ rawOf cfg (.ctor d ph (.organize start count i k)) :=
    List.mem_append_left _ (List.mem_range'_1.2 ⟨by omega, by omega⟩)
  refine pushLeft_setDesc fun sc e => ?_
  subst e
  have before := th.raw_class ok rep raw (Filling.toAsked kok).small
  cases ph with
  | fields => exact iff_of_false (by simp [ctorWrite]) before
  | _ => rfl

/-- The links of `organize_sb_list`. -/
lemma onward_orgLink (spur : Bool) {k : PushK} {start count i : ℕ} :
    Onward cfg t k.inMalloc (callLeft cfg t h (.orgLink start count i k))
      (exec cfg t spur h (.orgLink start count i k)) := by
  have rest : pushLeft cfg t (h.setDesc (start + i)
      { h.desc (start + i) with nextFree := some (start + i + 1) }) k = pushLeft cfg t h k :=
    pushLeft_setDesc_heap k rfl
  refine .inr ⟨rfl, trivial, id, ?_⟩
  simp only [exec, callLeft, rest, CtorPhase.left]
  omega

/-- The constructor in `malloc_from_newsb`. -/
lemma onward_ctorNewsb (spur : Bool) {ph : CtorPhase} {res : ℕ} :
    Onward cfg t true (callLeft cfg t h (.ctor d ph (.newsb sc res)))
      (exec cfg t spur h (.ctor d ph (.newsb sc res))) := by
  rw [exec]
  cases ph with
  | fence => exact .inr ⟨rfl, trivial, id, (Nat.add_comm ..).le⟩
  | _ =>
    refine .inr ⟨rfl, trivial, id, ?_⟩
    simp only [ctorNext, callLeft, CtorPhase.left]
    omega

/-- The constructors. -/
lemma onward_ctor (ok : L.Ok cfg) (rep : Rep cfg h L) {ph : CtorPhase} {k : CtorK}
    (th : ThInv cfg h L t (.ctor d ph k)) (spur : Bool) :
    Onward cfg t k.inMalloc (callLeft cfg t h (.ctor d ph k))
    (exec cfg t spur h (.ctor d ph k)) := by
  cases k with
  | retire k =>
    rw [exec]
    exact onward_retire ok rep th
  | organize start count i k =>
    rw [exec]
    exact onward_organize (th.organize_rest ok rep)
  | newsb sc res => exact onward_ctorNewsb spur
  | large sbs res =>
    rw [exec]
    cases ph <;> exact .inr ⟨rfl, trivial, id, le_rfl⟩

/-- The load before a push. -/
lemma onward_pushLoad (spur : Bool) {first last : ℕ} {k : PushK} :
    Onward cfg t k.inMalloc (callLeft cfg t h (.pushLoad first last k))
      (exec cfg t spur h (.pushLoad first last k)) := by
  refine .inr ⟨rfl, trivial, id, ?_⟩
  simp only [exec, callLeft, Heap.see, if_true]
  omega

/-- The end of a push. -/
lemma onward_pushDone (k : PushK) :
    Onward cfg t k.inMalloc (1 + pushLeft cfg t h k) (h, pushDone cfg k) := by
  cases k with
  | retry sc => exact .inr ⟨rfl, trivial, id, (Nat.add_comm ..).le⟩
  | flush sc k => exact .inr ⟨rfl, trivial, id, (Nat.add_comm ..).le⟩
  | newsb sc res =>
    refine .inr ⟨rfl, trivial, id, ?_⟩
    simp only [pushDone, callLeft, pushLeft, CtorPhase.left]
    omega
  | done => exact .inl (.inl rfl)

/-- The pushes. -/
lemma onward_push (spur : Bool) {l : ListId} {first last : ℕ} {old : Seen} {k : PushK} :
    Onward cfg t k.inMalloc (callLeft cfg t h (.pushCas l first last old k) + 2 * spur.toNat)
      (exec cfg t spur h (.pushCas l first last old k)) := by
  have again : callLeft cfg t h (.pushStore l first last (h.see l) k) = 2 + pushLeft cfg t h k :=
    congrArg (· + pushLeft cfg t h k) (if_pos rfl)
  rw [exec]
  by_cases e : h.head l = old.toPtrCnt
  · rw [callLeft, if_pos e]
    cases spur with
    | false =>
      rw [if_pos ⟨e, by simp⟩]
      let g := { h.setHead l ⟨some first, (old.cnt + 1) % CNT⟩ with
        pushes := Function.update h.pushes l (h.pushes l + 1) }
      have rest : pushLeft cfg t g k = pushLeft cfg t h k := pushLeft_heads rfl rfl rfl
      rw [← rest]
      exact onward_pushDone k
    | true =>
      rw [if_neg (by simp)]
      refine .inr ⟨rfl, trivial, id, ?_⟩
      rw [again, Bool.toNat_true]
      omega
  · rw [if_neg fun hc => e hc.1, callLeft, if_neg e]
    refine .inr ⟨rfl, trivial, id, ?_⟩
    rw [again]
    omega

/-- The store before a push. -/
lemma onward_pushStore (spur : Bool) {l : ListId} {first last : ℕ} {old : Seen} {k : PushK}
    (safe : Safe (exec cfg t spur h (.pushStore l first last old k))) :
    Onward cfg t k.inMalloc (callLeft cfg t h (.pushStore l first last old k))
      (exec cfg t spur h (.pushStore l first last old k)) := by
  rw [exec] at safe ⊢
  refine .check safe (by simp [Site.CanFail]) fun _ _ => .inr ⟨rfl, trivial, id, ?_⟩
  have heap : ((h.desc last).setNext l old.ptr).heap = (h.desc last).heap := by cases l <;> rfl
  have rest : pushLeft cfg t (h.setDesc last ((h.desc last).setNext l old.ptr)) k =
      pushLeft cfg t h k := pushLeft_setDesc_heap k heap
  have head : (h.setDesc last ((h.desc last).setNext l old.ptr)).head = h.head := rfl
  simp only [callLeft, rest, head]
  split <;> omega

/-- `heap_push_partial` finds the class of its superblock. -/
lemma onward_heapPushPartial (spur : Bool) {k : PushK}
    (safe : Safe (exec cfg t spur h (.heapPushPartial d k))) :
    Onward cfg t k.inMalloc (callLeft cfg t h (.heapPushPartial d k))
      (exec cfg t spur h (.heapPushPartial d k)) := by
  rw [exec] at safe ⊢
  cases e : (h.desc d).heap with
  | none =>
    rw [e] at safe
    exact absurd (safe .null rfl) (by simp [Site.CanFail])
  | some sc =>
    refine .inr ⟨rfl, trivial, id, ?_⟩
    simp only [callLeft, Heap.see, if_true]
    omega

/-- The head of the loop of `flush_cache`. -/
lemma onward_flushHead (small : SmallClass sc) (spur : Bool) {k : FlushK}
    (safe : Safe (exec cfg t spur h (.flushHead sc k))) :
    Onward cfg t false (callLeft cfg t h (.flushHead sc k))
      (exec cfg t spur h (.flushHead sc k)) := by
  rw [exec] at safe ⊢
  by_cases num : (h.cache t sc).num = 0
  · rw [if_pos num]
    exact flushLeft_done small num
  · rw [if_neg num] at safe ⊢
    dsimp only at safe ⊢
    generalize hq : scanRun h.link _ _ _ _ 1 = q at safe ⊢
    have one : 1 ≤ q.2 := hq ▸ le_scanRun ..
    obtain ⟨tail, count⟩ := q
    dsimp only at safe one ⊢
    refine .check safe (by simp [Site.CanFail]) fun le safe => ?_
    cases e : computeIdx _ (h.cache t sc).block sc with
    | none =>
      rw [e] at safe
      exact absurd (safe .computeIdx rfl) (by simp [Site.CanFail])
    | some idx =>
      refine .inr ⟨rfl, trivial, id, ?_⟩
      have lt : (TCacheBin.mk (h.link tail) ((h.cache t sc).num - count)).num <
          (h.cache t sc).num := Nat.sub_lt (Nat.pos_of_ne_zero num) one
      have := flushLeft_setCache small k lt
      simp only [callLeft]
      omega

/-- The compare-and-swap of `flush_cache`. -/
lemma onward_flushCas (spur : Bool) {r : Run} {old : Anchor} {k : FlushK}
    (safe : Safe (exec cfg t spur h (.flushCas sc r old k))) :
    Onward cfg t false (callLeft cfg t h (.flushCas sc r old k) + 2 * spur.toNat)
      (exec cfg t spur h (.flushCas sc r old k)) := by
  have again : callLeft cfg t h (.flushStore sc r (h.desc r.d).anchor k) =
      10 + flushLeft h t sc k :=
    congrArg (· + flushLeft h t sc k) (if_pos rfl)
  rw [exec] at safe ⊢
  dsimp only at safe ⊢
  by_cases e : (h.desc r.d).anchor = old
  · rw [callLeft, if_pos e]
    cases spur with
    | false =>
      rw [if_pos ⟨e, by simp⟩] at safe ⊢
      refine .check safe (by simp [Site.CanFail]) fun _ _ => .inr ?_
      -- the anchor does not matter to the rest of the call
      have rest : ∀ {D : Descriptor}, flushLeft (h.setDesc r.d D) t sc k = flushLeft h t sc k := by
        intro D
        cases k <;> rfl
      unfold gaveBack
      split
      · split
        · refine ⟨rfl, trivial, id, ?_⟩
          simp only [callLeft, retireLeft, pushLeft, rest, CtorPhase.left]
          omega
        · refine ⟨rfl, trivial, id, ?_⟩
          simp only [callLeft, pushLeft, rest]
          omega
      · refine ⟨rfl, trivial, id, ?_⟩
        simp only [callLeft, rest]
        omega
    | true =>
      rw [if_neg (by simp)]
      refine .inr ⟨rfl, trivial, id, ?_⟩
      rw [again, Bool.toNat_true]
      omega
  · rw [if_neg fun hc => e hc.1, callLeft, if_neg e]
    refine .inr ⟨rfl, trivial, id, ?_⟩
    rw [again]
    omega

end Ralloc
