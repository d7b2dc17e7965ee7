import Ralloc.Machine.Ledger

/-!
# The invariant of the machine

`Rep cfg h L`: the heap `h` represents the ledger `L`. Descriptors have the fields of their role,
anchors and link words spell out the free lists, list words and link fields the descriptor lists,
cache bins the cached blocks.

`Owned` and `Local` are the part of one thread. `Owned` reads off the control state what the thread
has in its hands, `Local` says what its locals know. Neither depends on the control state of another
thread; what another thread has to leave alone for them to survive is `Frame` (see `Frame.lean`).
-/

namespace Ralloc

open Lib SuperblockState

/-- The role of the superblocks on a list. -/
def ListId.role : ListId → Role
  | .avail => .avail
  | .part sc => .small sc .listed

/-- What a role says about a descriptor. -/
def DescRep (cfg : Cfg) (d : ℕ) (D : Descriptor) : Role → Prop
  | .unborn => D = .reset
  | .avail => D = { Descriptor.reset with nextFree := D.nextFree }
  | .raw _ => D.heap = none ∨ D.heap = some 0
  | .small sc _ => D.heap = some sc ∧ D.blockSize = blockSize sc ∧ D.maxcount = maxcount sc ∧
      D.superblock = some (cfg.sb d)
  | .large p => if p = cfg.sb d then D.heap = some 0 ∧ D.maxcount = 1 ∧ D.superblock = some p
      else D = .reset

/-- What an anchor says about the free blocks `F` of superblock `d` of class `sc`. -/
def AnchorRep (cfg : Cfg) (sc d : ℕ) (a : Anchor) (F : List ℕ) : Owner → Prop
  | .fresh _ => a = .zero ∧ F = []
  | .full => a = .full (maxcount sc) ∧ F = []
  | .listed | .thr _ => F.head? = some (cfg.blk sc d a.avail) ∧ a.avail < maxcount sc ∧
      (a.state = SB_PARTIAL ∧ a.count = F.length ∧ F.length < maxcount sc ∨
        a.state = SB_EMPTY ∧ a.count = maxcount sc - 1 ∧ F.length = maxcount sc)

/-- What a cache bin says about the cached blocks `C`. -/
structure CacheRep (link : ℕ → ℕ) (bin : TCacheBin) (sc : ℕ) (C : List ℕ) : Prop where
  num : bin.num = C.length
  head : C ≠ [] → C.head? = some bin.block
  linked : Linked link C
  le : C.length ≤ cacheBlockNum sc

/-- What the clients know of a place. -/
def Place.client : Place → Client
  | .held => .held
  | .freeing t _ => .freeing t
  | _ => .none

/-- The heap represents the ledger. -/
structure Rep (cfg : Cfg) (h : Heap) (L : Ledger) : Prop where
  curr : h.currAddr = cfg.sb L.n
  pos : 0 < L.n
  desc : ∀ d, DescRep cfg d (h.desc d) (L.role d)
  anchor : ∀ {d sc o}, L.role d = .small sc o →
    AnchorRep cfg sc d (h.desc d).anchor (L.blks.items (.free d)) o
  free : ∀ d, Linked h.link (L.blks.items (.free d))
  fresh : ∀ {d sc u}, L.role d = .small sc (.fresh u) → ∀ b ∈ cfg.blocks sc d,
    L.place b = .hands u sc
  list : ∀ l, IsList (fun d => (h.desc d).next l) (h.head l).ptr (L.sbs.items l.role)
  cnt : ∀ l, (h.head l).cnt = h.pushes l % CNT
  cache : ∀ t sc, CacheRep h.link (h.cache t sc) sc (L.blks.items (.cached t sc))
  client : ∀ b, h.client b = (L.place b).client
  large : ∀ {d}, L.role d = .large (cfg.sb d) → ∃ k, 0 < k ∧
    L.sbs.items (.large (cfg.sb d)) = List.range' d k ∧ (h.desc d).blockSize = k * SBSIZE

/-- The list of an optional pair at one key. -/
def only : Option (ℕ × ℕ) → ℕ → List ℕ
  | some (c, x), sc => if c = sc then [x] else []
  | none, _ => []

/-- Nothing. -/
@[simp] lemma only_none (sc : ℕ) : only none sc = [] := rfl

/-- At its key. -/
@[simp] lemma only_self (sc x : ℕ) : only (some (sc, x)) sc = [x] := if_pos rfl

/-- At another key. -/
lemma only_ne {c sc x : ℕ} (h : c ≠ sc) : only (some (c, x)) sc = [] := if_neg h

/-- The class a push works for. -/
def PushK.sc : PushK → ℕ
  | .retry sc => sc
  | .flush sc _ => sc
  | .newsb sc _ => sc
  | .done => 0

/-- The block that the surrounding `do_free` still has to put into the cache. -/
def FlushK.freeing (sc : ℕ) : FlushK → Option (ℕ × ℕ)
  | .free p => some (sc, p)
  | .exit => none

/-- The same seen from a push. -/
def PushK.freeing : PushK → Option (ℕ × ℕ)
  | .flush sc k => k.freeing sc
  | _ => none

/-- The superblock that `small_sb_alloc` will return once the rest of an expansion is pushed. -/
def PushK.raw (cfg : Cfg) : PushK → List ℕ
  | .newsb _ res => [sbIndex cfg.heapStart res]
  | _ => []

/-- The constructor has not cleared the fields yet. -/
def CtorPhase.Early : CtorPhase → Prop
  | .flush | .fence => False
  | _ => True

instance : DecidablePred CtorPhase.Early := fun ph => by
  cases ph <;> first | exact isTrue trivial | exact isFalse id

/-- The superblocks a thread has in its hands that are not assigned. -/
def rawOf (cfg : Cfg) : PC → List ℕ
  | .grownFlush _ res | .grownFence _ res =>
    List.range' (sbIndex cfg.heapStart res + 1) (EXPAND_SBS - 1) ++ [sbIndex cfg.heapStart res]
  | .newSet _ sb => [sbIndex cfg.heapStart sb]
  | .ctor d ph (.retire _) => if ph.Early then [] else [d]
  | .ctor _ _ (.organize start count _ k) => List.range' start count ++ k.raw cfg
  | .ctor d _ (.newsb _ _) => [d]
  | .ctor d _ (.large sbs _) => List.range' d (sbs / SBSIZE)
  | .orgLink start count _ k => List.range' start count ++ k.raw cfg
  | .pushLoad first last k => List.range' first (last + 1 - first) ++ k.raw cfg
  | .pushStore .avail first last _ k => List.range' first (last + 1 - first) ++ k.raw cfg
  | .pushCas .avail first last _ k => List.range' first (last + 1 - first) ++ k.raw cfg
  | .largeGrownFlush sbs res | .largeGrownFence sbs res | .largeSet sbs res | .largeAnchor sbs res
  | .largeDescFlush sbs res | .largeDescFence sbs res =>
    List.range' (sbIndex cfg.heapStart res) (sbs / SBSIZE)
  | _ => []

/-- The assigned superblock a thread has taken from a partial list or has to put there or retire,
with its class. -/
def ownOf : PC → Option (ℕ × ℕ)
  | .anchorLoad sc d => some (sc, d)
  | .anchorCas sc d _ _ _ _ => some (sc, d)
  | .ctor d ph (.retire k) => if ph.Early then some (k.sc, d) else none
  | .heapPushPartial d k => some (k.sc, d)
  | .pushStore (.part sc) d _ _ _ => some (sc, d)
  | .pushCas (.part sc) d _ _ _ => some (sc, d)
  | _ => none

/-- The superblock that `malloc_from_newsb` is setting up, with its class. -/
def freshOf : PC → Option (ℕ × ℕ)
  | .newLink sc d _ _ => some (sc, d)
  | .newAnchor sc d _ => some (sc, d)
  | _ => none

/-- The block that a `do_free` has not put into the cache yet, with its class. -/
def freeOf : PC → Option (ℕ × ℕ)
  | .ctor _ _ (.retire k) => k.freeing
  | .heapPushPartial _ k => k.freeing
  | .pushLoad _ _ k => k.freeing
  | .pushStore _ _ _ _ k => k.freeing
  | .pushCas _ _ _ _ k => k.freeing
  | .flushHead sc k => k.freeing sc
  | .flushLoad sc _ k => k.freeing sc
  | .flushStore sc _ _ k => k.freeing sc
  | .flushCas sc _ _ k => k.freeing sc
  | .pushBlock sc p => some (sc, p)
  | _ => none

/-- The class of the blocks a thread has in its hands. -/
def handsOf : PC → Option ℕ
  | .newLink sc _ _ _ => some sc
  | .newAnchor sc _ _ => some sc
  | .flushLoad sc _ _ => some sc
  | .flushStore sc _ _ _ => some sc
  | .flushCas sc _ _ _ => some sc
  | _ => none

/-- The ledger gives thread `t` what its control state says it has. -/
structure Owned (cfg : Cfg) (L : Ledger) (t : ℕ) (pc : PC) : Prop where
  raw : L.sbs.items (.raw t) = rawOf cfg pc
  own : ∀ sc, L.sbs.items (.small sc (.thr t)) = only (ownOf pc) sc
  fresh : ∀ sc, L.sbs.items (.small sc (.fresh t)) = only (freshOf pc) sc
  freeing : ∀ sc, L.blks.items (.freeing t sc) = only (freeOf pc) sc
  hands : ∀ sc, handsOf pc ≠ some sc → L.blks.items (.hands t sc) = []

/-- Thread `t` is inside a `do_malloc` of class `sc`. -/
structure Asked (h : Heap) (t sc : ℕ) : Prop where
  small : SmallClass sc
  le : h.req t ≤ MAX_SZ
  eq : sc = getSizeclass (h.req t)

/-- Thread `t` is inside a `fill_cache` of class `sc` and has no blocks yet. -/
structure Filling (h : Heap) (t sc : ℕ) : Prop extends Asked h t sc where
  num : (h.cache t sc).num = 0

/-- A loaded list word. -/
structure SeenOk (h : Heap) (l : ListId) (old : Seen) : Prop where
  le : old.stamp ≤ h.pushes l
  cnt : old.cnt = old.stamp % CNT

/-- The address is the start of the superblock that `desc_lookup` finds for it. -/
def Cfg.IsSb (cfg : Cfg) (a : ℕ) : Prop := cfg.sb (sbIndex cfg.heapStart a) = a

/-- What a push returns to. -/
def PushK.Ok (cfg : Cfg) (h : Heap) (t : ℕ) : PushK → Prop
  | .retry sc => Filling h t sc
  | .flush sc _ => SmallClass sc
  | .newsb sc res => Filling h t sc ∧ cfg.IsSb res
  | .done => True

/-- How far the constructor is. -/
def PhaseOk (D : Descriptor) : CtorPhase → Prop
  | .nextFree => True
  | .nextPartial => D.nextFree = none
  | .fields => D.nextFree = none ∧ D.nextPartial = none
  | .flush | .fence => D = .reset

/-- A large request of `sbs` bytes after rounding. -/
structure LargeOk (h : Heap) (t sbs : ℕ) : Prop where
  mod : sbs % SBSIZE = 0
  pos : 0 < sbs
  lt : sbs < HALF
  req : h.req t ≤ sbs
  large : MAX_SZ < h.req t

/-- A large block has at least one superblock. -/
lemma LargeOk.count_pos {h : Heap} {t sbs} (l : LargeOk h t sbs) : 0 < sbs / SBSIZE := by
  have h1 := l.mod
  have h2 := l.pos
  rw [SBSIZE_eq] at h1 ⊢
  omega

/-- The descriptors behind the first one of a large block are as after construction. -/
def RestReset (h : Heap) (d sbs : ℕ) : Prop :=
  ∀ j, d < j → j < d + sbs / SBSIZE → h.desc j = .reset

/-- The fields `do_malloc` has given to the descriptor of a large block. -/
def LargeDesc (D : Descriptor) (sbs res : ℕ) : Prop :=
  D.heap = some 0 ∧ D.maxcount = 1 ∧ D.superblock = some res ∧ D.blockSize = sbs

/-- The run that `flush_cache` has cut off the cache. -/
structure RunOk (cfg : Cfg) (h : Heap) (R : List ℕ) (sc : ℕ) (r : Run) : Prop where
  small : SmallClass sc
  head : R.head? = some r.head
  tail : R.getLast? = some r.tail
  count : R.length = r.count
  linked : Linked h.link R
  sub : ∀ b ∈ R, b ∈ cfg.blocks sc r.d
  superblock : r.superblock = cfg.sb r.d
  idx : r.head = cfg.blk sc r.d r.idx
  idx_lt : r.idx < maxcount sc

/-- An anchor that `flush_cache` has loaded. -/
structure OldOk (sc : ℕ) (old : Anchor) : Prop where
  count : old.count < maxcount sc
  cases : old.state = SB_FULL ∨ old.state = SB_PARTIAL ∧ old.avail < maxcount sc

/-- What the constructor knows, by its caller. -/
def CtorOk (cfg : Cfg) (h : Heap) (L : Ledger) (t d : ℕ) (ph : CtorPhase) : CtorK → Prop
  | .retire k => k.Ok cfg h t ∧ SmallClass k.sc ∧ k.raw cfg = [] ∧ PhaseOk (h.desc d) ph ∧
      (ph.Early → (L.blks.items (.free d)).length = maxcount k.sc)
  | .organize start count i k => k.Ok cfg h t ∧ k.freeing = none ∧ d = start + i ∧ i < count ∧
      PhaseOk (h.desc d) ph ∧ ∀ j < i, h.desc (start + j) = .chained (start + j)
  | .newsb sc res => Filling h t sc ∧ res = cfg.sb d ∧ PhaseOk (h.desc d) ph
  | .large sbs res => LargeOk h t sbs ∧ res = cfg.sb d ∧ PhaseOk (h.desc d) ph ∧ RestReset h d sbs

/-- What thread `t` knows at a control state. -/
def Local (cfg : Cfg) (h : Heap) (L : Ledger) (t : ℕ) : PC → Prop
  | .idle => True
  | .abort a => a = .smallSbAlloc ∨ a = .expandGetLargeSb ∨ a = .setRoot
  | .popLoad l sc => (l = .avail ∨ l = .part sc) ∧ Filling h t sc
  | .popNext l sc old p => (l = .avail ∨ l = .part sc) ∧ Filling h t sc ∧ SeenOk h l old ∧
      old.ptr = some p
  | .popCas l sc old p next => (l = .avail ∨ l = .part sc) ∧ Filling h t sc ∧ SeenOk h l old ∧
      old.ptr = some p ∧
      (h.pushes l = old.stamp → p ∈ L.sbs.items l.role → (h.desc p).next l = next)
  | .anchorLoad sc _ => Filling h t sc
  | .anchorCas sc d old maxc bsize sb => Filling h t sc ∧ old.state = SB_PARTIAL ∧
      maxc = maxcount sc ∧ bsize = blockSize sc ∧ sb = cfg.sb d
  | .growLoad sc => Filling h t sc
  | .growCheck sc _ => Filling h t sc
  | .growFlush sc cur | .growFence sc cur | .growCas sc cur =>
      Filling h t sc ∧ cfg.fits cur PAGESIZE SB_REGION_EXPAND_SIZE = true
  | .grownFlush sc res | .grownFence sc res => Filling h t sc ∧ cfg.IsSb res
  | .newSet sc sb => Filling h t sc ∧ cfg.IsSb sb ∧
      (h.desc (sbIndex cfg.heapStart sb)).anchor = .zero
  | .newLink sc d sb idx => Filling h t sc ∧ sb = cfg.sb d ∧ idx + 1 < maxcount sc ∧
      L.blks.items (.hands t sc) = cfg.blocks sc d ∧
      ∀ j < idx, h.link (cfg.blk sc d j) = cfg.blk sc d (j + 1)
  | .newAnchor sc d sb => Filling h t sc ∧ sb = cfg.sb d ∧
      L.blks.items (.hands t sc) = cfg.blocks sc d ∧
      ∀ j, j + 1 < maxcount sc → h.link (cfg.blk sc d j) = cfg.blk sc d (j + 1)
  | .newFlush sc d | .newFence sc d => Asked h t sc ∧
      L.blks.items (.cached t sc) = cfg.blocks sc d
  | .popBlock sc => Asked h t sc ∧ 0 < (h.cache t sc).num
  | .ctor d ph k => CtorOk cfg h L t d ph k
  | .orgLink start count i k => k.Ok cfg h t ∧ k.freeing = none ∧ i + 1 < count ∧
      h.desc (start + i) = .reset ∧ ∀ j < i, h.desc (start + j) = .chained (start + j)
  | .pushLoad first last k => k.Ok cfg h t ∧ first ≤ last ∧ h.desc last = .reset ∧
      ∀ j, first ≤ j → j < last → h.desc j = .chained j
  | .heapPushPartial _ k => k.Ok cfg h t ∧ ∃ sc fk, k = .flush sc fk
  | .pushStore .avail first last _ k => k.Ok cfg h t ∧ first ≤ last ∧
      h.desc last = { Descriptor.reset with nextFree := (h.desc last).nextFree } ∧
      ∀ j, first ≤ j → j < last → h.desc j = .chained j
  | .pushStore (.part sc) first last old k => SmallClass sc ∧ first = last ∧
      old.ptr ≠ some first ∧ ∃ fk, k = .flush sc fk
  | .pushCas .avail first last old k => k.Ok cfg h t ∧ first ≤ last ∧
      h.desc last = { Descriptor.reset with nextFree := old.ptr } ∧
      ∀ j, first ≤ j → j < last → h.desc j = .chained j
  | .pushCas (.part sc) first last old k => SmallClass sc ∧ first = last ∧
      (h.desc last).nextPartial = old.ptr ∧ ∃ fk, k = .flush sc fk
  | .flushHead sc _ => SmallClass sc
  | .flushLoad sc r _ => RunOk cfg h (L.blks.items (.hands t sc)) sc r
  | .flushStore sc r old _ => RunOk cfg h (L.blks.items (.hands t sc)) sc r ∧ OldOk sc old
  | .flushCas sc r old _ => RunOk cfg h (L.blks.items (.hands t sc)) sc r ∧ OldOk sc old ∧
      (old.avail < maxcount sc → h.link r.tail = cfg.blk sc r.d old.avail)
  | .pushBlock sc _ => SmallClass sc ∧ (h.cache t sc).num < cacheBlockNum sc
  | .largeLoad sbs => LargeOk h t sbs
  | .largeFlush sbs cur | .largeFence sbs cur | .largeCas sbs cur =>
      LargeOk h t sbs ∧ cfg.fits cur PAGESIZE sbs = true
  | .largeGrownFlush sbs res | .largeGrownFence sbs res | .largeSet sbs res => LargeOk h t sbs ∧
      cfg.IsSb res ∧ RestReset h (sbIndex cfg.heapStart res) sbs
  | .largeAnchor sbs res | .largeDescFlush sbs res | .largeDescFence sbs res => LargeOk h t sbs ∧
      cfg.IsSb res ∧ RestReset h (sbIndex cfg.heapStart res) sbs ∧
      LargeDesc (h.desc (sbIndex cfg.heapStart res)) sbs res
  | .rootSet _ _ | .rootFlush _ _ | .rootFence _ _ => True

/-- The invariant of one thread. -/
structure ThInv (cfg : Cfg) (h : Heap) (L : Ledger) (t : ℕ) (pc : PC) : Prop where
  owned : Owned cfg L t pc
  known : Local cfg h L t pc

/-- The invariant of the machine. -/
structure Inv (cfg : Cfg) (s : State) (L : Ledger) : Prop where
  ok : L.Ok cfg
  rep : Rep cfg s.heap L
  thread : ∀ t, ThInv cfg s.heap L t (s.pc t)

end Ralloc
