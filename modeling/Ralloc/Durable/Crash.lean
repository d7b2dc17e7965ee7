import Ralloc.Durable.Invariant
import Ralloc.Recovery.Again

/-!
# Crashes

What a crash and the recovery after it do to the blocks that clients hold. `Found cfg s m p`: in the
memory `m` that is left, the block `p`, held when the crash came in state `s`, can be reached from a
root through other such blocks. It `Survives` if `m` has its descriptor, if it lies below the
`curr_addr` of `m`, and if the garbage collection of `m` keeps it and puts none of its bytes on a
free list.

Small blocks that are found always have their descriptor, whatever the threads were doing when the
crash came (`PReach.durable_of_le`). Large blocks need not, since `do_malloc` never flushes their
descriptor (`PReach.exists_torn`). `crashSafe_iff`: large blocks and harmful false positives are all
that can go wrong.
-/

namespace Ralloc

open Lib SuperblockState

variable {cfg : Cfg} {s : State} {ℓ : HeapLog} {m : Heap} {p q d t N : ℕ} {L : Ledger}
  {M : Finset ℕ}

/-- The held blocks that can be reached in `m` from a root through pointers to such blocks. -/
inductive Found (cfg : Cfg) (s : State) (m : Heap) : ℕ → Prop
  | root {i} (hi : i < MAX_ROOTS)
    (held : s.heap.client (castCross cfg.heapStart (m.roots i)) = .held) :
    Found cfg s m (castCross cfg.heapStart (m.roots i))
  | word {p i} (found : Found cfg s m p) (hi : i + 8 ≤ mallocSize cfg s.heap p)
    (held : s.heap.client (m.link (p + i)) = .held) : Found cfg s m (m.link (p + i))

/-- The metadata of the block `p` is in `m` as it was in `s`. -/
structure Durable (cfg : Cfg) (s : State) (m : Heap) (p : ℕ) : Prop where
  desc : (m.desc (sbIndex cfg.heapStart p)).plain = (s.heap.desc (sbIndex cfg.heapStart p)).plain
  below : p + mallocSize cfg s.heap p ≤ m.currAddr

/-- Recovery from `m` keeps the block `p`. -/
structure Survives (cfg : Cfg) (s : State) (m : Heap) (p : ℕ) : Prop extends Durable cfg s m p where
  kept : ∃ N, m.currAddr = cfg.sb N ∧ IsBlock cfg m N p (mallocSize cfg s.heap p) ∧
    ∃ n, ∀ fuel, n ≤ fuel → ∃ M w, collect cfg fuel m = .done (M, w) ∧ p ∈ M ∧
    Live cfg m N {p} w.heap

/-- A crash now loses no block that can be found afterwards. -/
def CrashSafe (cfg : Cfg) (s : State) (ℓ : HeapLog) : Prop :=
  ∀ m, CrashImage ℓ m → ∀ p, Found cfg s m p → Survives cfg s m p

/-- No block that can be found after a crash is larger than `MAX_SZ`. -/
def SmallOnly (cfg : Cfg) (s : State) (ℓ : HeapLog) : Prop :=
  ∀ m, CrashImage ℓ m → ∀ p, Found cfg s m p → mallocSize cfg s.heap p ≤ MAX_SZ

/-- `M` is what the mark phase of a garbage collection of `m` marks. -/
def Marks (cfg : Cfg) (m : Heap) (M : Finset ℕ) : Prop :=
  IsLeast {S | Mark.Closed cfg.heapStart m S} (M : Set ℕ)

/-- The marks in `m` do no harm to the block `p`. -/
def Unharmed (cfg : Cfg) (m : Heap) (p : ℕ) : Prop :=
  ∀ N M, m.currAddr = cfg.sb N → Marks cfg m M → Harmless cfg m N {p} M

/-- No mark in `m` is in a superblock whose descriptor is only partly there. -/
def Whole (cfg : Cfg) (m : Heap) : Prop :=
  ∀ N M, m.currAddr = cfg.sb N → Marks cfg m M → Sweepable cfg m N M

/-- A block that is found was held when the crash came. -/
lemma Found.held (f : Found cfg s m p) : s.heap.client p = .held := by
  cases f with
  | root hi held => exact held
  | word found hi held => exact held

section held

/-- A held block that is not larger than `MAX_SZ` belongs to a size class. -/
lemma Inv.small_of_le (inv : Inv cfg s L) (held : s.heap.client p = .held)
    (le : mallocSize cfg s.heap p ≤ MAX_SZ) : ∃ sc o,
      L.role (sbIndex cfg.heapStart p) = .small sc o ∧
      p ∈ cfg.blocks sc (sbIndex cfg.heapStart p) := by
  rcases inv.ok.role_held (inv.rep.held_iff.1 held) with small | hr
  · exact small
  · obtain ⟨e, k, pos, -, size, -⟩ := inv.rep.extent_large inv.ok hr
    rw [size, SBSIZE_eq] at le
    unfold MAX_SZ at le
    omega

/-- A larger one is a large block. -/
lemma Inv.large_of_lt (inv : Inv cfg s L) (held : s.heap.client p = .held)
    (lt : MAX_SZ < mallocSize cfg s.heap p) :
    (s.heap.desc (sbIndex cfg.heapStart p)).heap = some 0 := by
  rcases inv.ok.role_held (inv.rep.held_iff.1 held) with ⟨sc, o, hr, hm⟩ | hr
  · rw [(inv.rep.extent_small inv.ok hr hm).1] at lt
    exact absurd (inv.ok.cls hr).le_max (not_le.2 lt)
  · exact inv.heap_of_large hr

/-- A block has at least one byte. -/
lemma Inv.mallocSize_pos (inv : Inv cfg s L) (held : s.heap.client p = .held) :
    0 < mallocSize cfg s.heap p := by
  rcases inv.ok.role_held (inv.rep.held_iff.1 held) with ⟨sc, o, hr, hm⟩ | hr
  · rw [(inv.rep.extent_small inv.ok hr hm).1]
    exact lt_of_lt_of_le (by decide) (inv.ok.cls hr).eight_le
  · obtain ⟨e, k, pos, -, size, -⟩ := inv.rep.extent_large inv.ok hr
    rw [size]
    exact Nat.mul_pos pos (by simp [SBSIZE_eq])

/-- Nobody is still busy with the descriptor of a small block that is held. -/
lemma Inv.unsettled_ne (inv : Inv cfg s L) {sc o} (hr : L.role d = .small sc o)
    (hm : p ∈ cfg.blocks sc d) (held : L.place p = .held) : (s.pc t).unsettled ≠ some d := by
  intro e
  have th := inv.thread t
  generalize s.pc t = pc at th e
  -- a new superblock: all its blocks are in the hands of the thread, and then in its cache
  have fresh : ∀ {sc'}, freshOf pc = some (sc', d) → False := by
    intro sc' hf
    have hr' : L.role d = .small sc' (.fresh t) := by
      refine (inv.ok.mem_sbs (r := .small sc' (.fresh t)) trivial).1 ?_
      rw [th.owned.fresh, hf, only_self]
      exact List.mem_singleton_self d
    rw [hr] at hr'
    cases hr'
    have := inv.rep.fresh hr p hm
    rw [held] at this
    cases this
  have cached : ∀ {sc'}, SmallClass sc' → L.blks.items (.cached t sc') = cfg.blocks sc' d →
      False := by
    intro sc' small hc
    obtain ⟨o', hr', -⟩ := inv.ok.role_of_cached small hc
    rw [hr] at hr'
    cases hr'
    have : L.place p = .cached t sc := (inv.ok.mem_items (c := .cached t sc) trivial).1
      (by rwa [hc])
    rw [held] at this
    cases this
  cases pc with
  | newLink sc' d' sb idx =>
    cases e
    exact fresh rfl
  | newAnchor sc' d' sb =>
    cases e
    exact fresh rfl
  | newFlush sc' d' =>
    cases e
    exact cached th.known.1.small th.known.2
  | newFence sc' d' =>
    cases e
    exact cached th.known.1.small th.known.2
  | ctor d' ph k =>
    have raw : d' = d → ¬ph.Early → False := by
      rintro rfl late
      have hr' := th.role_raw inv.ok (CtorOk.mem_raw th.known fun _ _ => late)
      rw [hr] at hr'
      cases hr'
    cases ph with
    | flush => exact raw (Option.some.inj e) id
    | fence => exact raw (Option.some.inj e) id
    | _ => cases e
  | _ => cases e

/-- The superblocks of an expansion that is not durable yet are in the hands of the thread. -/
lemma Inv.role_grown (inv : Inv cfg s L) {x} (e : (s.pc t).grown = some x)
    (lo : x.1 < cfg.sb (d + 1)) (hi : cfg.sb (d + 1) ≤ x.1 + x.2) : L.role d = .raw t := by
  have th := inv.thread t
  generalize s.pc t = pc at th e
  have range : ∀ {res k : ℕ}, cfg.IsSb res → x = (res, k * SBSIZE) →
      sbIndex cfg.heapStart res ≤ d ∧ d < sbIndex cfg.heapStart res + k := by
    rintro res k sb rfl
    have sb : cfg.sb (sbIndex cfg.heapStart res) = res := sb
    have lo : res < cfg.sb (d + 1) := lo
    have hi : cfg.sb (d + 1) ≤ res + k * SBSIZE := hi
    rw [← sb, ← Cfg.sb_add, Cfg.sb_le_sb] at hi
    rw [← sb, ← not_le, Cfg.sb_le_sb] at lo
    omega
  have grown : ∀ {res : ℕ}, cfg.IsSb res → x = (res, SB_REGION_EXPAND_SIZE) →
      d ∈ List.range' (sbIndex cfg.heapStart res + 1) (EXPAND_SBS - 1) ++
      [sbIndex cfg.heapStart res] := by
    intro res sb e
    have := range (k := EXPAND_SBS) sb e
    rw [List.mem_append, List.mem_range'_1, List.mem_singleton]
    omega
  have large : ∀ {sbs res : ℕ}, LargeOk s.heap t sbs → cfg.IsSb res → x = (res, sbs) →
      d ∈ List.range' (sbIndex cfg.heapStart res) (sbs / SBSIZE) := by
    intro sbs res ok sb e
    rw [← Nat.div_mul_cancel (Nat.dvd_of_mod_eq_zero ok.mod)] at e
    exact List.mem_range'_1.2 (range sb e)
  refine th.role_raw inv.ok ?_
  cases pc with
  | grownFlush sc res => exact grown th.known.2 (Option.some.inj e).symm
  | grownFence sc res => exact grown th.known.2 (Option.some.inj e).symm
  | largeGrownFlush sbs res => exact large th.known.1 th.known.2.1 (Option.some.inj e).symm
  | largeGrownFence sbs res => exact large th.known.1 th.known.2.1 (Option.some.inj e).symm
  | _ => cases e

end held

section image

/-- What is left of settled plain fields. -/
lemma CrashImage.plain (im : CrashImage ℓ m) {D : Descriptor}
    (h : ℓ.Settled (.desc d) fun h => (h.desc d).plain = D.plain) : (m.desc d).plain = D.plain := by
  have field : ∀ h : Heap, (h.desc d).plain = D.plain ↔ (h.desc d).superblock = D.superblock ∧
      (h.desc d).heap = D.heap ∧ (h.desc d).blockSize = D.blockSize ∧
      (h.desc d).maxcount = D.maxcount := by
    intro h
    simp only [Descriptor.plain, Prod.mk.injEq]
  refine (field m).2 ⟨?_, ?_, ?_, ?_⟩
  · exact im.sat (.superblock d) (P := (· = D.superblock)) (h.imp fun h e => ((field h).1 e).1)
  · exact im.sat (.heap d) (P := (· = D.heap)) (h.imp fun h e => ((field h).1 e).2.1)
  · exact im.sat (.blockSize d) (P := (· = D.blockSize)) (h.imp fun h e => ((field h).1 e).2.2.1)
  · exact im.sat (.maxcount d) (P := (· = D.maxcount)) (h.imp fun h e => ((field h).1 e).2.2.2)

/-- The region that is left ends behind some superblock. -/
lemma CurrDurable.exists_end (cd : CurrDurable cfg s ℓ) (inv : Inv cfg s L) (im : CrashImage ℓ m) :
    ∃ N, 0 < N ∧ m.currAddr = cfg.sb N ∧ cfg.sb N ≤ cfg.base + cfg.filesize := by
  obtain ⟨le, N, pos, curr⟩ := im.sat .currAddr
    (P := fun (a : ℕ) => a ≤ s.heap.currAddr ∧ ∃ n, 0 < n ∧ a = cfg.sb n) cd.shape
  refine ⟨N, pos, curr, ?_⟩
  rw [inv.rep.curr] at le
  exact curr ▸ le.trans inv.ok.inside

/-- What a crash leaves in `curr_addr` is the end of a superblock inside the region. -/
lemma PReach.exists_end (reach : PReach cfg s ℓ) (im : CrashImage ℓ m) :
    ∃ N, 0 < N ∧ m.currAddr = cfg.sb N ∧ cfg.sb N ≤ cfg.base + cfg.filesize := by
  obtain ⟨L, inv⟩ := reach.reach.1.inv
  exact reach.durable.2.exists_end inv im

/-- A small block that is held has its metadata after a crash. -/
lemma Inv.durable_of_le (inv : Inv cfg s L) (dd : DescSettled s ℓ) (cd : CurrDurable cfg s ℓ)
    (im : CrashImage ℓ m) (held : s.heap.client p = .held) (le : mallocSize cfg s.heap p ≤ MAX_SZ) :
    Durable cfg s m p := by
  obtain ⟨sc, o, hr, hm⟩ := inv.small_of_le held le
  set d := sbIndex cfg.heapStart p
  have hp := inv.rep.held_iff.1 held
  constructor
  case desc =>
    refine im.plain (dd.settled d ?_ fun t => inv.unsettled_ne hr hm hp)
    have pos := (inv.ok.cls hr).1
    rw [(inv.rep.small hr).1, ne_eq, Option.some.injEq]
    omega
  case below =>
    have hi := (inv.rep.extent_small inv.ok hr hm).2.hi
    have inside : cfg.sb (d + 1) ≤ s.heap.currAddr := by
      rw [inv.rep.curr, Cfg.sb_le_sb]
      have := mt (inv.ok.born d).2 (by simp [hr])
      omega
    rcases cd.below _ inside with settled | ⟨t, x, grown, h1, h2⟩
    · exact hi.trans (im.sat .currAddr (P := fun a => cfg.sb (d + 1) ≤ a) settled)
    · rw [inv.role_grown grown h1 h2] at hr
      cases hr

/-- The descriptor of a small block is durable when the block is held. -/
lemma PReach.durable_of_le (reach : PReach cfg s ℓ) (im : CrashImage ℓ m)
    (held : s.heap.client p = .held) (le : mallocSize cfg s.heap p ≤ MAX_SZ) :
    Durable cfg s m p := by
  obtain ⟨L, inv⟩ := reach.reach.1.inv
  obtain ⟨dd, cd⟩ := reach.durable
  exact inv.durable_of_le dd.toSettled cd im held le

/-- It is a block of a small superblock of what is left. -/
lemma Durable.isSmall (dur : Durable cfg s m p) (inv : Inv cfg s L) (curr : m.currAddr = cfg.sb N)
    (held : s.heap.client p = .held) (le : mallocSize cfg s.heap p ≤ MAX_SZ) : ∃ d sc,
      (0 < d ∧ d < N) ∧ IsSmall cfg m d sc ∧ p ∈ cfg.blocks sc d ∧
      mallocSize cfg s.heap p = blockSize sc := by
  obtain ⟨sc, o, hr, hm⟩ := inv.small_of_le held le
  obtain ⟨desc, below⟩ := dur
  obtain ⟨size, ext⟩ := inv.rep.extent_small inv.ok hr hm
  have small := inv.rep.small hr
  simp only [Descriptor.plain, Prod.mk.injEq] at desc
  refine ⟨_, sc, ⟨?_, ?_⟩, ⟨inv.ok.cls hr, ?_, ?_, ?_, ?_⟩, hm, size⟩
  · have := mt (inv.ok.born (sbIndex cfg.heapStart p)).2 (by simp [hr])
    omega
  · by_contra ge
    have := (inv.ok.cls hr).eight_le
    have := (Cfg.sb_le_sb.2 (not_lt.1 ge)).trans ext.lo
    omega
  · rw [desc.2.1, small.1]
  · rw [desc.1, small.2.2.2]
  · rw [desc.2.2.1, small.2.1]
  · rw [desc.2.2.2, small.2.2.1]

/-- So its superblock is a small one in what a crash leaves. -/
lemma PReach.isSmall_of_le (reach : PReach cfg s ℓ) (im : CrashImage ℓ m)
    (curr : m.currAddr = cfg.sb N) (held : s.heap.client p = .held)
    (le : mallocSize cfg s.heap p ≤ MAX_SZ) : ∃ d sc,
      (0 < d ∧ d < N) ∧ IsSmall cfg m d sc ∧ p ∈ cfg.blocks sc d ∧
      mallocSize cfg s.heap p = blockSize sc := by
  obtain ⟨L, inv⟩ := reach.reach.1.inv
  exact (reach.durable_of_le im held le).isSmall inv curr held le

/-- A block that has its metadata is in the range of the mark phase. -/
lemma Durable.inRange (dur : Durable cfg s m p) (inv : Inv cfg s L)
    (held : s.heap.client p = .held) :
    p ≠ 0 ∧ Mark.inRange cfg.heapStart m p = true := by
  have lo := (inv.rep.held_inside inv.ok held).1
  have pos := inv.mallocSize_pos held
  have below := dur.below
  rw [SBSIZE_eq] at lo
  exact ⟨by omega, by simp only [Mark.inRange, decide_eq_true_eq]; omega⟩

/-- What is found is marked. -/
lemma Found.mem_of_durable (found : Found cfg s m p) (inv : Inv cfg s L)
    (durable : ∀ q, Found cfg s m q → Durable cfg s m q) {S : Set ℕ}
    (closed : Mark.Closed cfg.heapStart m S) : p ∈ S := by
  induction found with
  | root hi held =>
    obtain ⟨ne, range⟩ := (durable _ (.root hi held)).inRange inv held
    refine closed.root_mem hi ?_ range
    cases e : isNullCross (m.roots _) with
    | false => rw [visitsRoot, e, Bool.not_false]
    | true => exact absurd (by rw [castCross, e, if_pos rfl]) ne
  | @word q i found hi held ih =>
    obtain ⟨ne, range⟩ := (durable _ (.word found hi held)).inRange inv held
    have desc := (durable _ found).desc
    simp only [Descriptor.plain, Prod.mk.injEq] at desc
    refine closed.link_mem ih ?_ ne range
    rw [desc.2.2.1]
    exact lt_of_lt_of_le (by omega) hi

/-- What is found does not depend on the descriptors that are left. -/
lemma Found.put_heap (found : Found cfg s m p) (d : ℕ) (v : Option ℕ) :
    Found cfg s (m.put (.heap d) v) p := by
  induction found with
  | root hi held => exact .root hi held
  | word found hi held ih => exact .word ih hi held

/-- The descriptor of a large block can be unused after a crash. -/
lemma PReach.image_put_heap (reach : PReach cfg s ℓ) (im : CrashImage ℓ m)
    (large : (s.heap.desc d).heap = some 0) : CrashImage ℓ (m.put (.heap d) (none : Option ℕ)) := by
  obtain ⟨n, now, durable, -, old⟩ := reach.durable.1.stale d large
  have unused : (m.put (.heap d) (none : Option ℕ)).read (.heap d) = (none : Option ℕ) :=
    Heap.read_put_self m (.heap d) (none : Option ℕ)
  exact Log.Image.update im (fun l ne => Heap.read_put_ne ne _)
    ⟨n, durable, now, old.trans unused.symm⟩

/-- Then its plain fields are not what they were. -/
lemma plain_put_heap_ne {h : Heap} (large : (h.desc d).heap = some 0) :
    ((m.put (.heap d) (none : Option ℕ)).desc d).plain ≠ (h.desc d).plain := by
  intro e
  have unused : (m.put (.heap d) (none : Option ℕ)).desc d = { m.desc d with heap := none } :=
    Heap.desc_setDesc_self ..
  rw [unused] at e
  have heap : none = (h.desc d).heap := congrArg (fun x => x.2.1) e
  rw [large] at heap
  cases heap

/-- A large block that is found can be without its descriptor. -/
lemma PReach.exists_torn (reach : PReach cfg s ℓ) (im : CrashImage ℓ m) (found : Found cfg s m p)
    (lt : MAX_SZ < mallocSize cfg s.heap p) :
    ∃ m', CrashImage ℓ m' ∧ Found cfg s m' p ∧ ¬Durable cfg s m' p := by
  obtain ⟨L, inv⟩ := reach.reach.1.inv
  have large := inv.large_of_lt found.held lt
  exact ⟨_, reach.image_put_heap im large, found.put_heap _ _, fun torn =>
    plain_put_heap_ne large torn.desc⟩

end image

section recovery

variable (reach : PReach cfg s ℓ) (im : CrashImage ℓ m)
  (small : ∀ q, Found cfg s m q → mallocSize cfg s.heap q ≤ MAX_SZ)
include reach im

/-- What the mark phase has to do. -/
lemma PReach.exists_marks : ∃ N M, m.currAddr = cfg.sb N ∧ Marks cfg m M := by
  obtain ⟨N, -, curr, -⟩ := reach.exists_end im
  obtain ⟨M, marks, -⟩ := collect_eq cfg (Nat.lt_succ_self (m.currAddr - cfg.heapStart))
  exact ⟨N, M, curr, marks⟩

include small

/-- What is found is marked. -/
lemma PReach.found_mem {S : Set ℕ} (closed : Mark.Closed cfg.heapStart m S)
    (found : Found cfg s m p) :
    p ∈ S := by
  obtain ⟨L, inv⟩ := reach.reach.1.inv
  exact found.mem_of_durable inv (fun q found => reach.durable_of_le im found.held (small q found))
    closed

/-- A block that is found and that the marks do not harm survives. -/
lemma PReach.survives (curr : m.currAddr = cfg.sb N) (marks : Marks cfg m M)
    (sw : Sweepable cfg m N M) (hl : Harmless cfg m N {p} M) (found : Found cfg s m p) :
    Survives cfg s m p := by
  have mem := reach.found_mem im small marks.1 found
  have le := small _ found
  obtain ⟨d, sc, hd, hs, hm, size⟩ := reach.isSmall_of_le im curr found.held le
  refine ⟨reach.durable_of_le im found.held le, N, curr, .inl ⟨d, sc, hd, hs, hm, size⟩, ?_⟩
  obtain ⟨n, keeps⟩ := hl.keepsLive sw (fun a ha => Mark.range_of_isLeast marks ha)
    (Finset.singleton_subset_iff.2 mem)
  refine ⟨max n (m.currAddr - cfg.heapStart + 1), fun fuel hfuel => ?_⟩
  have enough : m.currAddr - cfg.heapStart < fuel := by omega
  obtain ⟨M', marks', e⟩ := collect_eq cfg enough
  obtain rfl : M' = M := Finset.coe_injective (marks'.unique marks)
  obtain ⟨w, ew, live⟩ := keeps fuel (by omega)
  exact ⟨M', w, by rw [e, ew]; rfl, mem, live⟩

/-- If nothing else is marked, the marks are as a sweep needs them. -/
lemma PReach.sweepable_of_found (curr : m.currAddr = cfg.sb N) (only : ∀ a ∈ M, Found cfg s m a) :
    Sweepable cfg m N M := by
  have starts : ∀ {d a}, a ∈ M → InSb cfg d a → ∃ sc, IsSmall cfg m d sc := by
    intro d a ha hin
    obtain ⟨e, sc, -, hs, hm, -⟩ := reach.isSmall_of_le im curr (only a ha).held
      (small _ (only a ha))
    rw [hin.unique (inSb_of_mem_blocks hs.cls hm)]
    exact ⟨sc, hs⟩
  obtain ⟨N', pos, curr', inside⟩ := reach.exists_end im
  obtain rfl : N = N' := Cfg.sb_inj.1 (curr ▸ curr')
  refine ⟨pos, curr, inside, fun d _ _ ⟨a, ha, hin⟩ => .inr (.inl (starts ha hin)), ?_, ?_⟩
  · rintro d k - - ⟨hl, a, ha, hin⟩
    obtain ⟨sc, hs⟩ := starts ha hin
    exact absurd hl hs.not_large
  · rintro d k j - - ⟨hl, a, ha, hin⟩
    obtain ⟨sc, hs⟩ := starts ha hin
    exact absurd hl hs.not_large

/-- Then they do no harm. -/
lemma PReach.harmless_of_found (curr : m.currAddr = cfg.sb N) (marks : Marks cfg m M)
    (only : ∀ a ∈ M, Found cfg s m a) (found : Found cfg s m p) : Harmless cfg m N {p} M := by
  have sw := reach.sweepable_of_found im small curr only
  refine Precise.harmless (fun a ha => .inl (.inl ?_)) sw ?_
  · obtain ⟨d, sc, hd, hs, hm, -⟩ := reach.isSmall_of_le im curr (only a ha).held
      (small _ (only a ha))
    exact ⟨d, sc, hd, hs, hm⟩
  · exact Finset.singleton_subset_iff.2 (reach.found_mem im small marks.1 found)

omit reach im small

/-- If a block survives, the marks do it no harm. -/
lemma Survives.unharmed (sv : Survives cfg s m p) (whole : Whole cfg m) : Unharmed cfg m p := by
  intro N M curr marks
  obtain ⟨N', curr', -, n, keeps⟩ := sv.kept
  obtain rfl : N = N' := Cfg.sb_inj.1 (curr ▸ curr')
  refine KeepsLive.harmless (whole N M curr marks) (fun a ha => Mark.range_of_isLeast marks ha)
    ⟨max n (m.currAddr - cfg.heapStart + 1), fun fuel hfuel => ?_⟩
  obtain ⟨M', w, e, -, live⟩ := keeps fuel (by omega)
  obtain ⟨marks', ew⟩ := collect_done (by omega) e
  obtain rfl : M' = M := Finset.coe_injective (marks'.unique marks)
  exact ⟨w, ew, live⟩

end recovery

/-- The metadata of every block that is found is durable exactly if none of them is large. -/
lemma PReach.durable_iff (reach : PReach cfg s ℓ) :
    (∀ m, CrashImage ℓ m → ∀ p, Found cfg s m p → Durable cfg s m p) ↔ SmallOnly cfg s ℓ := by
  refine ⟨fun durable m im p found => ?_, fun small m im p found =>
    reach.durable_of_le im found.held (small m im p found)⟩
  by_contra lt
  obtain ⟨m', im', found', torn⟩ := reach.exists_torn im found (not_le.1 lt)
  exact torn (durable m' im' p found')

/-- Where every block survives none of them is large. -/
lemma CrashSafe.smallOnly (safe : CrashSafe cfg s ℓ) (reach : PReach cfg s ℓ) : SmallOnly cfg s ℓ :=
  reach.durable_iff.1 fun m im p found => (safe m im p found).toDurable

section sample

/-- The last block of a superblock for blocks of 14336 bytes. -/
def lastBlock : ℕ := sample.blk 39 1 3

/-- Its bytes, and those that a word at its last byte reads. -/
def lastBytes (a : ℕ) : Bool := lastBlock ≤ a ∧ a < lastBlock + 14336 + 8

/-- A client has allocated all blocks of the superblock and made the last one root 0. Nobody has
ever written to this block. -/
structure LastRooted (s : State) (ℓ : HeapLog) : Prop where
  reach : PReach sample s ℓ
  clear : ℓ.Since 0 (Clear lastBytes (lastBlock - sample.heapStart))
  held : s.heap.client lastBlock = .held
  size : mallocSize sample s.heap lastBlock = 14336
  root : s.heap.roots 0 = lastBlock - sample.heapStart

/-- There is such a run. -/
lemma exists_lastRooted : ∃ s ℓ, LastRooted s ℓ := by
  obtain ⟨s, ℓ, reach, clear, ht⟩ :=
      preach_of_test (S := lastBytes) (r := lastBlock - sample.heapStart)
    (.malloc 0 14336 :: List.replicate 12 (.run 0 false) ++
      [.malloc 0 14336, .run 0 false, .malloc 0 14336, .run 0 false, .malloc 0 14336, .run 0 false,
        .setRoot 0 lastBlock 0, .run 0 false, .run 0 false, .run 0 false])
    (fun s => decide (s.heap.client lastBlock = .held ∧ mallocSize sample s.heap lastBlock = 14336 ∧
      s.heap.roots 0 = lastBlock - sample.heapStart)) (by decide +kernel)
  obtain ⟨held, size, root⟩ := of_decide_eq_true ht
  exact ⟨s, ℓ, reach, clear, held, size, root⟩

variable (lr : LastRooted s ℓ) (im : CrashImage ℓ m)
include lr

/-- What a crash leaves as the root is found. -/
lemma LastRooted.found_of_root (e : m.roots 0 = lastBlock - sample.heapStart) :
    Found sample s m lastBlock := by
  have cast : castCross sample.heapStart (m.roots 0) = lastBlock := by
    rw [e]
    decide
  have found : Found sample s m (castCross sample.heapStart (m.roots 0)) :=
    .root (by decide) (by rw [cast]; exact lr.held)
  rwa [cast] at found

include im

/-- Nothing else is found. -/
lemma LastRooted.eq_of_found (found : Found sample s m p) : p = lastBlock := by
  have clear := im.clear lr.clear
  obtain ⟨L, inv⟩ := lr.reach.reach.1.inv
  have zero : s.heap.client 0 ≠ .held := fun held => by
    have lo := (inv.rep.held_inside inv.ok held).1
    rw [SBSIZE_eq] at lo
    omega
  induction found with
  | @root i hi held =>
    rcases clear.roots i with e | ⟨-, e⟩
    · rw [e] at held
      exact absurd held zero
    · rw [e]
      decide
  | @word q i found hi held ih =>
    subst ih
    rw [lr.size] at hi
    rw [clear.link_eq fun x lo hi' => decide_eq_true ⟨by omega, by omega⟩] at held
    exact absurd held zero

/-- All found blocks are small. -/
lemma LastRooted.le (found : Found sample s m p) : mallocSize sample s.heap p ≤ MAX_SZ := by
  rw [lr.eq_of_found im found, lr.size]
  decide

/-- What is found is all that a mark phase can find. -/
lemma LastRooted.closed : Mark.Closed sample.heapStart m {a | Found sample s m a} := by
  have clear := im.clear lr.clear
  constructor
  · intro i hi set _
    obtain ⟨rfl, e⟩ := (clear.roots i).resolve_left set
    rw [e, show (sample.heapStart + (lastBlock - sample.heapStart)) % WORD = lastBlock by decide]
    exact lr.found_of_root e
  · intro a found i hi ne _
    obtain rfl := lr.eq_of_found im found
    have durable := (lr.reach.durable_of_le im lr.held (lr.le im found)).desc
    simp only [Descriptor.plain, Prod.mk.injEq] at durable
    have size : i < 14336 := by
      rw [durable.2.2.1] at hi
      exact lt_of_lt_of_eq hi lr.size
    exact absurd (clear.link_eq fun x lo hi' => decide_eq_true ⟨by omega, by omega⟩) ne

omit im in
/-- Nothing else is marked. -/
lemma LastRooted.only : ∀ m, CrashImage ℓ m → ∀ M, Marks sample m M → ∀ a ∈ M, Found sample s m a :=
  fun _ im _ marks _ ha => marks.2 (lr.closed im) ha

omit im in
/-- Every marked superblock has its descriptor. -/
lemma LastRooted.whole : ∀ m, CrashImage ℓ m → Whole sample m := by
  intro m im N M curr marks
  exact lr.reach.sweepable_of_found im (fun q => lr.le im) curr (lr.only m im M marks)

end sample

/-- After a crash the blocks that are found have their metadata exactly if none of them is large. If
the marked superblocks have whole descriptors, recovery keeps the blocks exactly if moreover no mark
does them harm, which is so if nothing else is marked. -/
theorem crashSafe_iff (reach : PReach cfg s ℓ) :
    ((∀ m, CrashImage ℓ m → ∀ p, Found cfg s m p → Durable cfg s m p) ↔ SmallOnly cfg s ℓ) ∧
    ((∀ m, CrashImage ℓ m → Whole cfg m) → (CrashSafe cfg s ℓ ↔ SmallOnly cfg s ℓ ∧
      ∀ m, CrashImage ℓ m → ∀ p, Found cfg s m p → Unharmed cfg m p)) ∧
    ((∀ m, CrashImage ℓ m → ∀ M, Marks cfg m M → ∀ a ∈ M, Found cfg s m a) →
      (CrashSafe cfg s ℓ ↔ SmallOnly cfg s ℓ)) := by
  refine ⟨reach.durable_iff, fun whole => ⟨fun safe => ⟨safe.smallOnly reach, ?_⟩, ?_⟩,
    fun only => ⟨fun safe => safe.smallOnly reach, ?_⟩⟩
  · exact fun m im p found => (safe m im p found).unharmed (whole m im)
  · rintro ⟨small, unharmed⟩ m im p found
    obtain ⟨N, M, curr, marks⟩ := reach.exists_marks im
    exact reach.survives im (small m im) curr marks (whole m im N M curr marks)
      (unharmed m im p found N M curr marks) found
  · intro small m im p found
    obtain ⟨N, M, curr, marks⟩ := reach.exists_marks im
    have sw := reach.sweepable_of_found im (small m im) curr (only m im M marks)
    have hl := reach.harmless_of_found im (small m im) curr marks (only m im M marks) found
    exact reach.survives im (small m im) curr marks sw hl found

/-- A crash loses nothing, and the marks do no harm. -/
theorem small_root_sample : ∃ s ℓ, PReach sample s ℓ ∧ Found sample s s.heap lastBlock ∧
    SmallOnly sample s ℓ ∧ CrashSafe sample s ℓ ∧
    (∀ m, CrashImage ℓ m → ∀ p, Found sample s m p → Durable sample s m p) ∧
    ∀ m, CrashImage ℓ m → ∀ p, Found sample s m p → Unharmed sample m p := by
  obtain ⟨s, ℓ, lr⟩ := exists_lastRooted
  obtain ⟨durable, whole, only⟩ := crashSafe_iff lr.reach
  have small : SmallOnly sample s ℓ := fun m im p found => lr.le im found
  have safe := (only lr.only).2 small
  exact ⟨s, ℓ, lr.reach, lr.found_of_root lr.root, small, safe, durable.2 small,
    ((whole lr.whole).1 safe).2⟩

/-- The first calls of a client: allocate, and make the block root 0. -/
lemma exists_root (size n p : ℕ)
    (test : (runCalls sample (init sample) [(.malloc 0 size, n), (.setRoot 0 p 0, 3)]).any (fun s =>
      decide (s.heap.client p = .held ∧ castCross sample.heapStart (s.heap.roots 0) = p ∧
        size ≤ mallocSize sample s.heap p)) = true) :
    ∃ s ℓ, PReach sample s ℓ ∧ Found sample s s.heap p ∧ size ≤ mallocSize sample s.heap p := by
  obtain ⟨s, e, hs⟩ := Option.any_eq_true _ _ |>.1 test
  obtain ⟨held, root, size⟩ := of_decide_eq_true hs
  obtain ⟨ℓ, reach⟩ := (Calls.init.runCalls e).reach.1.log
  have found : Found sample s s.heap (castCross sample.heapStart (s.heap.roots 0)) :=
    .root (by decide) (by rwa [root])
  exact ⟨s, ℓ, reach, by rwa [root] at found, size⟩

/-- A client has allocated 20000 bytes and made the block a root. After a crash the root can be
there and the descriptor of the block unused. -/
theorem large_root_lost : ∃ s ℓ m, PReach sample s ℓ ∧
    Found sample s s.heap (sample.sb EXPAND_SBS) ∧ CrashImage ℓ m ∧
    Found sample s m (sample.sb EXPAND_SBS) ∧ (m.desc EXPAND_SBS).heap = none ∧
    ¬CrashSafe sample s ℓ := by
  obtain ⟨s, ℓ, reach, found, size⟩ := exists_root 20000 15 (sample.sb EXPAND_SBS)
    (by decide +kernel)
  have lt : MAX_SZ < mallocSize sample s.heap (sample.sb EXPAND_SBS) :=
    lt_of_lt_of_le (by decide) size
  obtain ⟨L, inv⟩ := reach.reach.1.inv
  have large := inv.large_of_lt found.held lt
  rw [show sbIndex sample.heapStart (sample.sb EXPAND_SBS) = EXPAND_SBS by decide] at large
  refine ⟨s, ℓ, _, reach, found, reach.image_put_heap reach.image large, found.put_heap _ _,
    Heap.read_put_self s.heap (.heap EXPAND_SBS) (none : Option ℕ), fun safe => ?_⟩
  exact absurd (safe.smallOnly reach _ reach.image _ found) (not_le.2 lt)

end Ralloc
