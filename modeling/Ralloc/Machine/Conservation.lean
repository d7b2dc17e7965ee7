import Ralloc.Machine.Trace

/-!
# Block conservation

The places of blocks, read off the data structures: a cache bin holds the first `_block_num` blocks
of its list, a superblock the first `anchor.count` blocks from `anchor.avail` on (none if it is
full, all if it is empty), and a thread inside `malloc_from_newsb` or `flush_cache` the blocks it is
about to hand over. `block_conservation`: in every reachable state each block of an assigned
superblock is at exactly one of them.
-/

namespace Ralloc

open Lib SuperblockState

variable {cfg : Cfg} {s : State} {L : Ledger} {h : Heap}

/-- Superblock `d` is assigned to the size class `sc`. -/
def Heap.Assigned (h : Heap) (d sc : ℕ) : Prop := (h.desc d).heap = some sc ∧ sc ≠ 0

/-- The blocks in a cache bin. -/
def cachedBlocks (h : Heap) (t sc : ℕ) : List ℕ :=
  walk h.link (h.cache t sc).block (h.cache t sc).num

/-- How many free blocks an anchor stands for. -/
def freeCount (D : Descriptor) : ℕ :=
  match D.anchor.state with
  | SB_ERROR => 0
  | SB_FULL => 0
  | SB_PARTIAL => D.anchor.count
  | SB_EMPTY => D.maxcount

/-- The free blocks of a superblock. -/
def freeBlocks (h : Heap) (d : ℕ) : List ℕ :=
  let D := h.desc d
  walk h.link (D.superblock.getD 0 + D.anchor.avail * D.blockSize) (freeCount D)

/-- The blocks in the private hands of a thread: of the superblock that `malloc_from_newsb` is
setting up, or of the run that `flush_cache` is giving back. -/
def privateBlocks (h : Heap) : PC → List ℕ
  | .newLink sc _ sb _ => (List.range (maxcount sc)).map fun i => sb + i * blockSize sc
  | .newAnchor sc _ sb => (List.range (maxcount sc)).map fun i => sb + i * blockSize sc
  | .flushLoad _ r _ => walk h.link r.head r.count
  | .flushStore _ r _ _ => walk h.link r.head r.count
  | .flushCas _ r _ _ => walk h.link r.head r.count
  | _ => []

/-- Where a block of an assigned superblock can be. -/
inductive Spot where
  | client
  | cache (t : ℕ)
  | hands (t : ℕ)
  | free
  deriving DecidableEq

/-- Block `b` of superblock `d` of class `sc` is at a place. A block that was passed to a `do_free`
counts as the client's until the call has put it into the cache. -/
def Spot.Has (s : State) (sc d b : ℕ) : Spot → Prop
  | .client => s.heap.client b ≠ .none
  | .cache t => b ∈ cachedBlocks s.heap t sc
  | .hands t => b ∈ privateBlocks s.heap (s.pc t)
  | .free => b ∈ freeBlocks s.heap d

/-- A descriptor with a size class belongs to an assigned superblock. -/
lemma Rep.role_of_assigned (rep : Rep cfg h L) {d sc} (ha : h.Assigned d sc) :
    ∃ o, L.role d = .small sc o := by
  obtain ⟨hh, h0⟩ := ha
  have hd := rep.desc d
  cases hr : L.role d with
  | unborn =>
    rw [hr] at hd
    rw [show h.desc d = .reset from hd] at hh
    cases hh
  | avail =>
    rw [hr] at hd
    rw [show h.desc d = _ from hd] at hh
    cases hh
  | raw t =>
    rw [hr] at hd
    rcases hd with e | e <;> rw [hh] at e <;> cases e
    exact absurd rfl h0
  | small sc' o =>
    rw [hr] at hd
    rw [hd.1] at hh
    cases hh
    exact ⟨o, rfl⟩
  | large p =>
    rw [hr] at hd
    by_cases e : p = cfg.sb d
    · rw [DescRep, if_pos e, hh] at hd
      cases hd.1
      exact absurd rfl h0
    · rw [DescRep, if_neg e] at hd
      rw [hd] at hh
      cases hh

/-- The ledger's cached blocks are those in the bin. -/
lemma Rep.cachedBlocks_eq (rep : Rep cfg h L) (t sc : ℕ) :
    cachedBlocks h t sc = L.blks.items (.cached t sc) :=
  (rep.cache t sc).linked.walk_eq' (rep.cache t sc).head (rep.cache t sc).num

/-- The ledger's free blocks are those the anchor stands for. -/
lemma Rep.freeBlocks_eq (rep : Rep cfg h L) {d sc o} (hr : L.role d = .small sc o) :
    freeBlocks h d = L.blks.items (.free d) := by
  obtain ⟨-, hb, hm, hs⟩ := rep.small hr
  have ha := rep.anchor hr
  have main : ∀ {a : Anchor} {F : List ℕ}, a = (h.desc d).anchor → F = L.blks.items (.free d) →
      (F.head? = some (cfg.blk sc d a.avail) ∧ a.avail < maxcount sc ∧
      (a.state = SB_PARTIAL ∧ a.count = F.length ∧ F.length < maxcount sc ∨
        a.state = SB_EMPTY ∧ a.count = maxcount sc - 1 ∧ F.length = maxcount sc)) →
      freeBlocks h d = F := by
    rintro a F rfl rfl ⟨hh, -, hst⟩
    refine (rep.free d).walk_eq' (fun _ => ?_) ?_
    · rw [hh, hs, hb]
      rfl
    · rw [freeCount]
      rcases hst with ⟨e, hc, -⟩ | ⟨e, -, hc⟩ <;> simp only [e]
      · exact hc
      · rw [hm, hc]
  cases o with
  | full =>
    rw [ha.2, freeBlocks, freeCount, ha.1]
    rfl
  | fresh u =>
    rw [ha.2, freeBlocks, freeCount, ha.1]
    rfl
  | listed => exact main rfl rfl ha
  | thr u => exact main rfl rfl ha

/-- A run is the walk from its head. -/
lemma RunOk.walk_eq {R sc r} (run : RunOk cfg h R sc r) : walk h.link r.head r.count = R :=
  run.linked.walk_eq' (fun _ => run.head) run.count.symm

/-- The control states without blocks in hand. -/
lemma privateBlocks_nil {pc} (e : handsOf pc = none) : privateBlocks h pc = [] := by
  cases pc <;> first | rfl | cases e

/-- The ledger's blocks in the hands of a thread are those its control state names. -/
lemma ThInv.privateBlocks_eq {t pc sc} (th : ThInv cfg h L t pc) (e : handsOf pc = some sc) :
    privateBlocks h pc = L.blks.items (.hands t sc) := by
  obtain ⟨-, lo⟩ := th
  cases pc with
  | newLink sc' d sb idx =>
    cases e
    obtain ⟨-, rfl, -, hh, -⟩ := lo
    exact hh.symm
  | newAnchor sc' d sb =>
    cases e
    obtain ⟨-, rfl, hh, -⟩ := lo
    exact hh.symm
  | flushLoad sc' r k => cases e; exact RunOk.walk_eq lo
  | flushStore sc' r old k => cases e; exact RunOk.walk_eq lo.1
  | flushCas sc' r old k => cases e; exact RunOk.walk_eq lo.1
  | _ => cases e

/-- Blocks in the hands of a thread, by their place in the ledger. -/
lemma ThInv.mem_privateBlocks {t pc b} (th : ThInv cfg h L t pc) (ok : L.Ok cfg) :
    b ∈ privateBlocks h pc ↔ ∃ sc, L.place b = .hands t sc := by
  have mem : ∀ {sc}, b ∈ L.blks.items (.hands t sc) ↔ L.place b = .hands t sc := fun {sc} =>
    ok.mem_items (c := .hands t sc) trivial
  cases e : handsOf pc with
  | none =>
    rw [privateBlocks_nil e]
    refine ⟨fun hb => (by cases hb), fun ⟨sc, hb⟩ => ?_⟩
    rw [← mem, th.owned.hands sc (by rw [e]; simp)] at hb
    cases hb
  | some sc =>
    rw [th.privateBlocks_eq e]
    refine ⟨fun hb => ⟨sc, mem.1 hb⟩, fun ⟨sc', hb⟩ => ?_⟩
    by_cases e' : sc' = sc
    · subst e'
      exact mem.2 hb
    · -- the blocks in hand are of one class
      rw [← mem, th.owned.hands sc' (by rw [e]; simpa using Ne.symm e')] at hb
      cases hb

/-- The spot of a place. -/
def Place.spot : Place → Option Spot
  | .none => .none
  | .held => some .client
  | .freeing _ _ => some .client
  | .cached t _ => some (.cache t)
  | .hands t _ => some (.hands t)
  | .free _ => some .free

/-- A block of superblock `d` that belongs to a class belongs to the class of `d`. -/
lemma Ledger.Ok.same_class (ok : L.Ok cfg) {d sc sc' o b} (hr : L.role d = .small sc o)
    (hb : b ∈ cfg.blocks sc d) (hc : L.InClass cfg b sc') : sc' = sc := by
  obtain ⟨e, o', hr', hb'⟩ := hc
  cases ok.eq_of_mem hr hr' hb hb'
  rw [hr] at hr'
  cases hr'
  rfl

/-- What the data structures say about a block is what the ledger says. -/
lemma Inv.has_iff (inv : Inv cfg s L) {sc d o b} (hr : L.role d = .small sc o)
    (hb : b ∈ cfg.blocks sc d) (w : Spot) : w.Has s sc d b ↔ (L.place b).spot = some w := by
  cases w with
  | client =>
    show s.heap.client b ≠ .none ↔ _
    rw [inv.rep.client]
    cases L.place b <;> simp [Place.client, Place.spot]
  | cache t =>
    show b ∈ cachedBlocks s.heap t sc ↔ _
    rw [inv.rep.cachedBlocks_eq, inv.ok.mem_items (c := .cached t sc) trivial]
    refine ⟨fun h => by rw [h]; rfl, fun h => ?_⟩
    cases hp : L.place b with
    | cached u sc' =>
      rw [hp] at h
      cases h
      rw [inv.ok.same_class hr hb (inv.ok.inClass hp)]
    | _ => rw [hp] at h; cases h
  | hands t =>
    refine ((inv.thread t).mem_privateBlocks inv.ok).trans ?_
    cases L.place b <;> simp [Place.spot]
  | free =>
    show b ∈ freeBlocks s.heap d ↔ _
    rw [inv.rep.freeBlocks_eq hr, inv.ok.mem_items (c := .free d) trivial]
    refine ⟨fun h => by rw [h]; rfl, fun h => ?_⟩
    cases hp : L.place b with
    | free e =>
      obtain ⟨sc', o', hr', hb'⟩ := inv.ok.inClass hp
      rw [inv.ok.eq_of_mem hr hr' hb hb']
    | _ => rw [hp] at h; cases h

/-- In every reachable state, each block of a superblock that is assigned to a size class is at
exactly one place, and no list of blocks has a block twice. -/
theorem block_conservation (hs : Reach cfg s) {d sc : ℕ} (ha : s.heap.Assigned d sc) :
    (∀ i < maxcount sc, ∃! w : Spot, w.Has s sc d (cfg.blk sc d i)) ∧
      (freeBlocks s.heap d).Nodup ∧
      ∀ t, (cachedBlocks s.heap t sc).Nodup ∧ (privateBlocks s.heap (s.pc t)).Nodup := by
  obtain ⟨L, inv⟩ := hs.inv
  obtain ⟨o, hr⟩ := inv.rep.role_of_assigned ha
  refine ⟨fun i hi => ?_, ?_, fun t => ⟨?_, ?_⟩⟩
  · have hb : cfg.blk sc d i ∈ cfg.blocks sc d := Cfg.blk_mem hi
    simp only [inv.has_iff hr hb]
    have placed := inv.ok.placed hr _ hb
    cases hp : L.place (cfg.blk sc d i) with
    | none => exact absurd hp placed
    | _ => exact ⟨_, rfl, fun w hw => (Option.some.inj hw).symm⟩
  · rw [inv.rep.freeBlocks_eq hr]
    exact (inv.ok.blks (.free d) trivial).nodup
  · rw [inv.rep.cachedBlocks_eq]
    exact (inv.ok.blks (.cached t sc) trivial).nodup
  · cases e : handsOf (s.pc t) with
    | none =>
      rw [privateBlocks_nil e]
      exact List.nodup_nil
    | some sc' =>
      rw [(inv.thread t).privateBlocks_eq e]
      exact (inv.ok.blks (.hands t sc') trivial).nodup

/-- A thread that asks for 14336 bytes gets a superblock of four blocks assigned to class 39. -/
theorem block_conservation_sample : ∃ s, Reach sample s ∧ s.heap.Assigned 1 39 ∧
    (∀ i < maxcount 39, ∃! w : Spot, w.Has s 39 1 (sample.blk 39 1 i)) ∧
      (freeBlocks s.heap 1).Nodup ∧
      ∀ t, (cachedBlocks s.heap t 39).Nodup ∧ (privateBlocks s.heap (s.pc t)).Nodup := by
  obtain ⟨s, hs, ht⟩ := reach_of_test (.malloc 1 14336 :: List.replicate 12 (.run 1 false))
    (fun s => decide ((s.heap.desc 1).heap = some 39)) (by decide +kernel)
  have ha : s.heap.Assigned 1 39 := ⟨of_decide_eq_true ht, by decide⟩
  exact ⟨s, hs, ha, block_conservation hs ha⟩

end Ralloc
