import Ralloc.Machine.Inv

/-!
# What one thread leaves alone for another

`Frame u h L h' L'`: the change from `h` and `L` to `h'` and `L'` takes nothing away from thread
`u`. Its cache and what it has in its hands are the same, the descriptors it alone may write are the
same up to the anchor of an assigned superblock, whose free blocks can only get more, and a list
without a new push has no new members and no changed links.

`ThInv.frame` is the only place where the invariant of a thread meets the step of another one.
-/

namespace Ralloc

open Lib SuperblockState

/-- The change from `h`, `L` to `h'`, `L'` respects what thread `u` has and knows. -/
structure Frame (u : ℕ) (h : Heap) (L : Ledger) (h' : Heap) (L' : Ledger) : Prop where
  cache : h'.cache u = h.cache u
  req : h'.req u = h.req u
  raw : L'.sbs.items (.raw u) = L.sbs.items (.raw u)
  own : ∀ sc, L'.sbs.items (.small sc (.thr u)) = L.sbs.items (.small sc (.thr u))
  fresh : ∀ sc, L'.sbs.items (.small sc (.fresh u)) = L.sbs.items (.small sc (.fresh u))
  freeing : ∀ sc, L'.blks.items (.freeing u sc) = L.blks.items (.freeing u sc)
  hands : ∀ sc, L'.blks.items (.hands u sc) = L.blks.items (.hands u sc)
  cached : ∀ sc, L'.blks.items (.cached u sc) = L.blks.items (.cached u sc)
  free : ∀ {d sc}, L.role d = .small sc (.thr u) →
    (L.blks.items (.free d)).length ≤ (L'.blks.items (.free d)).length
  link : ∀ {sc b}, L.place b = .hands u sc → h'.link b = h.link b
  rawDesc : ∀ {d}, L.role d = .raw u → h'.desc d = h.desc d
  ownDesc : ∀ {d sc}, L.role d = .small sc (.thr u) →
    (h'.desc d).nextFree = (h.desc d).nextFree ∧ (h'.desc d).nextPartial = (h.desc d).nextPartial
  pushes : ∀ l, h.pushes l ≤ h'.pushes l
  next : ∀ {l p}, h'.pushes l = h.pushes l → p ∈ L'.sbs.items l.role →
    p ∈ L.sbs.items l.role ∧ (h'.desc p).next l = (h.desc p).next l

namespace Frame

variable {cfg : Cfg} {u : ℕ} {h h' : Heap} {L L' : Ledger}

/-- What the thread was asked for. -/
lemma asked (F : Frame u h L h' L') {sc} (a : Asked h u sc) : Asked h' u sc :=
  ⟨a.small, F.req ▸ a.le, F.req ▸ a.eq⟩

/-- The class that it fills its cache for. -/
lemma filling (F : Frame u h L h' L') {sc} (f : Filling h u sc) : Filling h' u sc :=
  ⟨F.asked f.toAsked, F.cache ▸ f.num⟩

/-- A head that it has loaded. -/
lemma seenOk (F : Frame u h L h' L') {l old} (s : SeenOk h l old) : SeenOk h' l old :=
  ⟨le_trans s.le (F.pushes l), s.cnt⟩

/-- The large size that it was asked for. -/
lemma largeOk (F : Frame u h L h' L') {sbs} (l : LargeOk h u sbs) : LargeOk h' u sbs :=
  ⟨l.mod, l.pos, l.lt, F.req ▸ l.req, F.req ▸ l.large⟩

/-- What it does after a push. -/
lemma pushOk (F : Frame u h L h' L') {k : PushK} (hk : k.Ok cfg h u) : k.Ok cfg h' u := by
  cases k with
  | retry sc => exact F.filling hk
  | flush sc k => exact hk
  | newsb sc res => exact ⟨F.filling hk.1, hk.2⟩
  | done => trivial

/-- The run of blocks in its hands. -/
lemma runOk (F : Frame u h L h' L') (ok : L.Ok cfg) {sc r}
    (hr : RunOk cfg h (L.blks.items (.hands u sc)) sc r) :
    RunOk cfg h' (L'.blks.items (.hands u sc)) sc r := by
  rw [F.hands sc]
  refine { hr with linked := hr.linked.congr fun b hb => ?_ }
  exact F.link ((ok.mem_items (c := .hands u sc) trivial).1 (List.dropLast_subset _ hb))

/-- The last block of a run keeps its link. -/
lemma link_tail (F : Frame u h L h' L') (ok : L.Ok cfg) {sc r}
    (hr : RunOk cfg h (L.blks.items (.hands u sc)) sc r) : h'.link r.tail = h.link r.tail :=
  F.link ((ok.mem_items (c := .hands u sc) trivial).1 (List.mem_of_getLast? hr.tail))

/-- The descriptors in the hands of the thread are the same. -/
lemma desc_raw (F : Frame u h L h' L') (ok : L.Ok cfg) {pc} (ow : Owned cfg L u pc) {d}
    (hd : d ∈ rawOf cfg pc) : h'.desc d = h.desc d :=
  F.rawDesc ((ok.mem_sbs (r := .raw u) trivial).1 (ow.raw ▸ hd))

/-- A superblock that it owns. -/
lemma role_own (ok : L.Ok cfg) {pc} (ow : Owned cfg L u pc) {sc d}
    (hd : ownOf pc = some (sc, d)) : L.role d = .small sc (.thr u) := by
  refine (ok.mem_sbs (r := .small sc (.thr u)) trivial).1 ?_
  rw [ow.own sc, hd]
  simp

/-- What it owns altogether. -/
lemma owned (F : Frame u h L h' L') {pc} (ow : Owned cfg L u pc) : Owned cfg L' u pc := by
  constructor
  case raw => rw [F.raw, ow.raw]
  case own => intro sc; rw [F.own, ow.own]
  case fresh => intro sc; rw [F.fresh, ow.fresh]
  case freeing => intro sc; rw [F.freeing, ow.freeing]
  case hands => intro sc hne; rw [F.hands, ow.hands sc hne]

/-- The superblocks behind the first one of its large block. -/
lemma restReset (F : Frame u h L h' L') (ok : L.Ok cfg) {pc} (ow : Owned cfg L u pc) {d sbs}
    (raw : rawOf cfg pc = List.range' d (sbs / SBSIZE)) (hr : RestReset h d sbs) :
    RestReset h' d sbs := by
  intro j h1 h2
  rw [F.desc_raw ok ow (by rw [raw, List.mem_range'_1]; omega)]
  exact hr j h1 h2

/-- A superblock the thread is retiring stays entirely free. -/
lemma all_free (F : Frame u h L h' L') (ok' : L'.Ok cfg) {pc} (ow : Owned cfg L' u pc) {sc d}
    (hd : ownOf pc = some (sc, d)) (hr : L.role d = .small sc (.thr u))
    (all : (L.blks.items (.free d)).length = maxcount sc) :
    (L'.blks.items (.free d)).length = maxcount sc := by
  have hr' := role_own ok' ow hd
  have le := (List.subperm_of_subset (ok'.blks (.free d) trivial).nodup
    fun b hb => ok'.free_sub hr' hb).length_le
  rw [Cfg.length_blocks] at le
  have := F.free hr
  omega

/-- The descriptor that it constructs. -/
lemma ctorOk (F : Frame u h L h' L') (ok : L.Ok cfg) (ok' : L'.Ok cfg) {d ph k}
    (ow : Owned cfg L u (.ctor d ph k)) (hk : CtorOk cfg h L u d ph k) :
    CtorOk cfg h' L' u d ph k := by
  cases k with
  | retire k =>
    obtain ⟨h1, h2, h3, h4, h5⟩ := hk
    refine ⟨F.pushOk h1, h2, h3, ?_, fun e => ?_⟩
    · by_cases e : ph.Early
      · obtain ⟨f1, f2⟩ := F.ownDesc (role_own ok ow (show ownOf _ = _ from if_pos e))
        cases ph with
        | nextFree => trivial
        | nextPartial => exact f1.trans h4
        | fields => exact ⟨f1.trans h4.1, f2.trans h4.2⟩
        | flush => exact e.elim
        | fence => exact e.elim
      · rw [F.desc_raw ok ow (show d ∈ rawOf cfg _ from by simp [rawOf, e])]
        exact h4
    · have own : ownOf (.ctor d ph (.retire k)) = some (k.sc, d) := if_pos e
      exact F.all_free ok' (F.owned ow) own (role_own ok ow own) (h5 e)
  | organize start count i k =>
    obtain ⟨h1, h2, rfl, h4, h5, h6⟩ := hk
    have raw : ∀ j < count, h'.desc (start + j) = h.desc (start + j) := fun j hj =>
      F.desc_raw ok ow (by simp [rawOf, List.mem_range'_1, hj])
    refine ⟨F.pushOk h1, h2, rfl, h4, ?_, fun j hj => ?_⟩
    · rw [raw i h4]
      exact h5
    · rw [raw j (by omega)]
      exact h6 j hj
  | newsb sc res =>
    refine ⟨F.filling hk.1, hk.2.1, ?_⟩
    rw [F.desc_raw ok ow (by simp [rawOf])]
    exact hk.2.2
  | large sbs res =>
    obtain ⟨h1, h2, h3, h4⟩ := hk
    refine ⟨F.largeOk h1, h2, ?_, F.restReset ok ow rfl h4⟩
    rw [F.desc_raw ok ow (by simp [rawOf, List.mem_range'_1, h1.count_pos])]
    exact h3

/-- The chain of a push is in the hands of the thread. -/
lemma chain (F : Frame u h L h' L') (ok : L.Ok cfg) {pc} (ow : Owned cfg L u pc) {first last l}
    (raw : rawOf cfg pc = List.range' first (last + 1 - first) ++ l) {j} (h1 : first ≤ j)
    (h2 : j ≤ last) : h'.desc j = h.desc j := by
  refine F.desc_raw ok ow ?_
  rw [raw, List.mem_append, List.mem_range'_1]
  exact .inl (by omega)

/-- The first descriptor of a large block is in the hands of the thread. -/
lemma desc_first (F : Frame u h L h' L') (ok : L.Ok cfg) {pc} (ow : Owned cfg L u pc) {d sbs}
    (raw : rawOf cfg pc = List.range' d (sbs / SBSIZE)) (hl : LargeOk h u sbs) :
    h'.desc d = h.desc d := by
  refine F.desc_raw ok ow ?_
  rw [raw, List.mem_range'_1]
  have := hl.count_pos
  omega

/-- What is known about a large block whose descriptor is filled in. -/
lemma largeDesc (F : Frame u h L h' L') (ok : L.Ok cfg) {pc} (ow : Owned cfg L u pc) {sbs res}
    (raw : rawOf cfg pc = List.range' (sbIndex cfg.heapStart res) (sbs / SBSIZE))
    (lo : LargeOk h u sbs ∧ cfg.IsSb res ∧ RestReset h (sbIndex cfg.heapStart res) sbs ∧
      LargeDesc (h.desc (sbIndex cfg.heapStart res)) sbs res) :
    LargeOk h' u sbs ∧ cfg.IsSb res ∧ RestReset h' (sbIndex cfg.heapStart res) sbs ∧
      LargeDesc (h'.desc (sbIndex cfg.heapStart res)) sbs res := by
  obtain ⟨hl, hs, hr, hd⟩ := lo
  refine ⟨F.largeOk hl, hs, F.restReset ok ow raw hr, ?_⟩
  rw [F.desc_first ok ow raw hl]
  exact hd

/-- A block of the superblock that the thread is setting up keeps its link. -/
lemma link_blk (F : Frame u h L h' L') (ok : L.Ok cfg) {sc d j}
    (hh : L.blks.items (.hands u sc) = cfg.blocks sc d) (hj : j < maxcount sc) :
    h'.link (cfg.blk sc d j) = h.link (cfg.blk sc d j) :=
  F.link ((ok.mem_items (c := .hands u sc) trivial).1 (hh ▸ Cfg.blk_mem hj))

/-- What a thread knows survives the steps of other threads. -/
lemma known (F : Frame u h L h' L') (ok : L.Ok cfg) (ok' : L'.Ok cfg) {pc}
    (ow : Owned cfg L u pc) (lo : Local cfg h L u pc) : Local cfg h' L' u pc := by
  cases pc with
  | idle => trivial
  | abort a => exact lo
  | popLoad l sc => exact ⟨lo.1, F.filling lo.2⟩
  | popNext l sc old p =>
    obtain ⟨hl, hf, hs, hp⟩ := lo
    exact ⟨hl, F.filling hf, F.seenOk hs, hp⟩
  | popCas l sc old p next =>
    obtain ⟨hl, hf, hs, hp, hn⟩ := lo
    refine ⟨hl, F.filling hf, F.seenOk hs, hp, fun e hm => ?_⟩
    -- without a push since the load the members and their links are the old ones
    have same : h'.pushes l = h.pushes l := by
      have := F.pushes l
      have := hs.le
      omega
    obtain ⟨hm', hnext⟩ := F.next same hm
    rw [hnext]
    exact hn (same ▸ e) hm'
  | anchorLoad sc d => exact F.filling lo
  | anchorCas sc d old maxc bsize sb => exact ⟨F.filling lo.1, lo.2⟩
  | growLoad sc => exact F.filling lo
  | growCheck sc cur => exact F.filling lo
  | growFlush sc cur => exact ⟨F.filling lo.1, lo.2⟩
  | growFence sc cur => exact ⟨F.filling lo.1, lo.2⟩
  | growCas sc cur => exact ⟨F.filling lo.1, lo.2⟩
  | grownFlush sc res => exact ⟨F.filling lo.1, lo.2⟩
  | grownFence sc res => exact ⟨F.filling lo.1, lo.2⟩
  | newSet sc sb =>
    refine ⟨F.filling lo.1, lo.2.1, ?_⟩
    rw [F.desc_raw ok ow (by simp [rawOf])]
    exact lo.2.2
  | newLink sc d sb idx =>
    obtain ⟨hf, hsb, hi, hh, hl⟩ := lo
    refine ⟨F.filling hf, hsb, hi, (F.hands sc).trans hh, fun j hj => ?_⟩
    rw [F.link_blk ok hh (by omega)]
    exact hl j hj
  | newAnchor sc d sb =>
    obtain ⟨hf, hsb, hh, hl⟩ := lo
    refine ⟨F.filling hf, hsb, (F.hands sc).trans hh, fun j hj => ?_⟩
    rw [F.link_blk ok hh (by omega)]
    exact hl j hj
  | newFlush sc d => exact ⟨F.asked lo.1, (F.cached sc).trans lo.2⟩
  | newFence sc d => exact ⟨F.asked lo.1, (F.cached sc).trans lo.2⟩
  | popBlock sc => exact ⟨F.asked lo.1, F.cache ▸ lo.2⟩
  | ctor d ph k => exact F.ctorOk ok ok' ow lo
  | orgLink start count i k =>
    obtain ⟨hk, hf, hi, hd, hc⟩ := lo
    have raw : ∀ j < count, h'.desc (start + j) = h.desc (start + j) := fun j hj =>
      F.desc_raw ok ow (by simp [rawOf, List.mem_range'_1, hj])
    refine ⟨F.pushOk hk, hf, hi, ?_, fun j hj => ?_⟩
    · rw [raw i (by omega)]
      exact hd
    · rw [raw j (by omega)]
      exact hc j hj
  | pushLoad first last k =>
    obtain ⟨hk, hle, hd, hc⟩ := lo
    refine ⟨F.pushOk hk, hle, ?_, fun j h1 h2 => ?_⟩
    · rw [F.chain ok ow rfl hle le_rfl]
      exact hd
    · rw [F.chain ok ow rfl h1 h2.le]
      exact hc j h1 h2
  | heapPushPartial d k => exact ⟨F.pushOk lo.1, lo.2⟩
  | pushStore l first last old k =>
    cases l with
    | avail =>
      obtain ⟨hk, hle, hd, hc⟩ := lo
      refine ⟨F.pushOk hk, hle, ?_, fun j h1 h2 => ?_⟩
      · rw [F.chain ok ow rfl hle le_rfl]
        exact hd
      · rw [F.chain ok ow rfl h1 h2.le]
        exact hc j h1 h2
    | part sc => exact lo
  | pushCas l first last old k =>
    cases l with
    | avail =>
      obtain ⟨hk, hle, hd, hc⟩ := lo
      refine ⟨F.pushOk hk, hle, ?_, fun j h1 h2 => ?_⟩
      · rw [F.chain ok ow rfl hle le_rfl]
        exact hd
      · rw [F.chain ok ow rfl h1 h2.le]
        exact hc j h1 h2
    | part sc =>
      obtain ⟨hsc, rfl, hn, hk⟩ := lo
      refine ⟨hsc, rfl, ?_, hk⟩
      rw [(F.ownDesc (role_own ok ow rfl)).2]
      exact hn
  | flushHead sc k => exact lo
  | flushLoad sc r k => exact F.runOk ok lo
  | flushStore sc r old k => exact ⟨F.runOk ok lo.1, lo.2⟩
  | flushCas sc r old k =>
    refine ⟨F.runOk ok lo.1, lo.2.1, ?_⟩
    rw [F.link_tail ok lo.1]
    exact lo.2.2
  | pushBlock sc p => exact ⟨lo.1, F.cache ▸ lo.2⟩
  | largeLoad sbs => exact F.largeOk lo
  | largeFlush sbs cur => exact ⟨F.largeOk lo.1, lo.2⟩
  | largeFence sbs cur => exact ⟨F.largeOk lo.1, lo.2⟩
  | largeCas sbs cur => exact ⟨F.largeOk lo.1, lo.2⟩
  | largeGrownFlush sbs res => exact ⟨F.largeOk lo.1, lo.2.1, F.restReset ok ow rfl lo.2.2⟩
  | largeGrownFence sbs res => exact ⟨F.largeOk lo.1, lo.2.1, F.restReset ok ow rfl lo.2.2⟩
  | largeSet sbs res => exact ⟨F.largeOk lo.1, lo.2.1, F.restReset ok ow rfl lo.2.2⟩
  | largeAnchor sbs res => exact F.largeDesc ok ow rfl lo
  | largeDescFlush sbs res => exact F.largeDesc ok ow rfl lo
  | largeDescFence sbs res => exact F.largeDesc ok ow rfl lo
  | rootSet p i => trivial
  | rootFlush p i => trivial
  | rootFence p i => trivial

/-- The invariant of a thread survives the steps of other threads. -/
theorem thInv (F : Frame u h L h' L') (ok : L.Ok cfg) (ok' : L'.Ok cfg) {pc}
    (th : ThInv cfg h L u pc) : ThInv cfg h' L' u pc :=
  ⟨F.owned th.owned, F.known ok ok' th.owned th.known⟩

end Frame

end Ralloc
