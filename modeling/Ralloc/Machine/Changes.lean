import Ralloc.Machine.Alone

/-!
# How often a call changes what other threads read

A thread that has loaded a list word, an anchor or `curr_addr` has to load it again when another
thread has changed it. `changesLeft` bounds the number of such changes that are left in a call. A
pop from a partial list is paid by the superblock that it finds: an empty one is retired and leaves
its class, any other one ends the call. So the superblocks with a class are counted too, three
changes for each (`smallSbs`), and a thread that gives a class to a superblock pays for it.

`Spends` is what one step does: it changes nothing that others read, or it is one of the counted
changes.
-/

namespace Ralloc

open Lib SuperblockState

variable {cfg : Cfg} {t sc d n : ℕ} {g h : Heap} {pc : PC} {s : State} {L : Ledger}

/-- The number of superblocks that the file has room for. -/
def Cfg.capacity (cfg : Cfg) : ℕ := cfg.filesize / SBSIZE

/-- 1 for a descriptor that has a class of small blocks. -/
def Descriptor.classed (D : Descriptor) : ℕ := if D.heap.getD 0 = 0 then 0 else 1

/-- The number of superblocks that have such a class. -/
def smallSbs (cfg : Cfg) (h : Heap) : ℕ := ∑ d ∈ Finset.range cfg.capacity, (h.desc d).classed

/-- `malloc_from_newsb`: the superblock gets its class, which is paid for, and its anchor. -/
def NEW_CHANGES : ℕ := 5

/-- `small_sb_alloc` and what follows: the expansion, its descriptors, the push and a new
superblock. -/
def AVAIL_CHANGES : ℕ := EXPAND_SBS - 1 + NEW_CHANGES + 3

/-- `flush_cache` and what follows: for every block of the cache an anchor, a descriptor and a
list. -/
def flushChanges (h : Heap) (t sc : ℕ) : FlushK → ℕ
  | .free _ => 3 * (h.cache t sc).num
  | .exit => ∑ c ∈ Finset.Ico sc MAX_SZ_IDX, 3 * (h.cache t c).num

/-- What follows a push. -/
def pushChanges (t : ℕ) (h : Heap) : PushK → ℕ
  | .retry _ => AVAIL_CHANGES + 2
  | .flush sc k => flushChanges h t sc k
  | .newsb _ _ => NEW_CHANGES + 1
  | .done => 0

/-- The constructor changes class and anchor in one step. -/
def CtorPhase.changes : CtorPhase → ℕ
  | .nextFree | .nextPartial | .fields => 1
  | .flush | .fence => 0

/-- The constructor in `small_sb_retire`. In `malloc_from_partial` it is paid by the superblock. -/
def retireChanges (t : ℕ) (h : Heap) : CtorPhase → PushK → ℕ
  | .flush, k | .fence, k => 1 + pushChanges t h k
  | _, .retry _ => AVAIL_CHANGES + 1
  | _, k => 2 + pushChanges t h k

/-- A bound on the changes that are left in a call. -/
def changesLeft (t : ℕ) (h : Heap) : PC → ℕ
  | .popLoad .avail _ | .popNext .avail _ _ _ | .popCas .avail _ _ _ _ => AVAIL_CHANGES
  | .popLoad (.part _) _ | .popNext (.part _) _ _ _ | .popCas (.part _) _ _ _ _ => AVAIL_CHANGES + 2
  | .anchorLoad _ _ | .anchorCas _ _ _ _ _ _ => AVAIL_CHANGES + 1
  | .growLoad _ | .growCheck _ _ | .growFlush _ _ | .growFence _ _ | .growCas _ _ => AVAIL_CHANGES
  | .grownFlush _ _ | .grownFence _ _ => EXPAND_SBS - 1 + NEW_CHANGES + 2
  | .newSet _ _ => NEW_CHANGES
  | .newLink _ _ _ _ | .newAnchor _ _ _ => 1
  | .ctor _ ph (.retire k) => retireChanges t h ph k
  | .ctor _ ph (.organize _ count i k) => ph.changes + (count - (i + 1)) + 1 + pushChanges t h k
  | .ctor _ ph (.newsb _ _) => ph.changes + NEW_CHANGES
  | .ctor _ ph (.large _ _) => ph.changes + 2
  | .orgLink _ count i k => count - (i + 1) + 1 + pushChanges t h k
  | .pushLoad _ _ k | .heapPushPartial _ k => 1 + pushChanges t h k
  | .pushStore _ _ _ _ k | .pushCas _ _ _ _ k => 1 + pushChanges t h k
  | .flushHead sc k => flushChanges h t sc k
  | .flushLoad sc _ k | .flushStore sc _ _ k | .flushCas sc _ _ k => 3 + flushChanges h t sc k
  | .largeLoad _ | .largeFlush _ _ | .largeFence _ _ | .largeCas _ _ => 4
  | .largeGrownFlush _ _ | .largeGrownFence _ _ => 3
  | .largeSet _ _ => 2
  | .largeAnchor _ _ => 1
  | _ => 0

/-- Everything is the same that makes a thread go back to its last load. -/
structure SameShared (h g : Heap) : Prop where
  head : g.head = h.head
  curr : g.currAddr = h.currAddr
  cls : ∀ d, (g.desc d).heap = (h.desc d).heap
  anchor : ∀ d, (g.desc d).anchor = (h.desc d).anchor

/-- A step that changes nothing that others read, or is one of the `n` changes that are left. -/
def Spends (cfg : Cfg) (t : ℕ) (h : Heap) (n : ℕ) (r : Heap × PC) : Prop :=
  SameShared h r.1 ∧ changesLeft t r.1 r.2 + 3 * smallSbs cfg r.1 ≤ n ∨
    changesLeft t r.1 r.2 + 3 * smallSbs cfg r.1 + 1 ≤ n

section Count

/-- A superblock counts at most once. -/
lemma Descriptor.classed_le (D : Descriptor) : D.classed ≤ 1 := by
  rw [classed]
  split <;> omega

/-- Only the classes count. -/
lemma smallSbs_congr (cls : ∀ d, (g.desc d).heap = (h.desc d).heap) :
    smallSbs cfg g = smallSbs cfg h := by
  simp only [smallSbs, Descriptor.classed, cls]

/-- A descriptor is written. -/
lemma smallSbs_setDesc (D : Descriptor) (lt : d < cfg.capacity) :
    smallSbs cfg (h.setDesc d D) + (h.desc d).classed = smallSbs cfg h + D.classed := by
  have mem : d ∈ Finset.range cfg.capacity := Finset.mem_range.2 lt
  have rest : ∑ e ∈ (Finset.range cfg.capacity).erase d, ((h.setDesc d D).desc e).classed =
      ∑ e ∈ (Finset.range cfg.capacity).erase d, (h.desc e).classed :=
    Finset.sum_congr rfl fun e he => by rw [Heap.desc_setDesc_ne (Finset.ne_of_mem_erase he)]
  rw [smallSbs, smallSbs, ← Finset.add_sum_erase _ _ mem, rest, Heap.desc_setDesc_self,
    ← Finset.add_sum_erase _ (fun d => (h.desc d).classed) mem]
  omega

/-- A write to a descriptor adds at most one. -/
lemma smallSbs_setDesc_le (cfg : Cfg) (h : Heap) (d : ℕ) (D : Descriptor) :
    smallSbs cfg (h.setDesc d D) ≤ smallSbs cfg h + D.classed := by
  by_cases lt : d < cfg.capacity
  · exact le_trans (Nat.le_add_right ..) (smallSbs_setDesc D lt).le
  · refine le_trans (Finset.sum_congr rfl fun e he => ?_).le (Nat.le_add_right ..)
    have ne : e ≠ d := fun e' => lt (e' ▸ Finset.mem_range.1 he)
    rw [Heap.desc_setDesc_ne ne]

/-- The superblocks of the region have room in the file. -/
lemma Ledger.Ok.le_capacity (ok : L.Ok cfg) : L.n ≤ cfg.capacity := by
  have inside := ok.inside
  have header := cfg.header
  rw [Cfg.sb] at inside
  rw [Cfg.capacity, Nat.le_div_iff_mul_le (by decide)]
  omega

/-- A superblock with a class loses it. -/
lemma smallSbs_retire (ok : L.Ok cfg) (rep : Rep cfg h L) {o} (role : L.role d = .small sc o)
    {D : Descriptor} (none : D.heap = none) :
    smallSbs cfg (h.setDesc d D) + 1 = smallSbs cfg h := by
  have lt : d < L.n := by
    have := mt (ok.born d).2 (by rw [role]; simp)
    omega
  have before : (h.desc d).classed = 1 := by
    rw [Descriptor.classed, (rep.small role).1]
    exact if_neg (ok.cls role).1.ne'
  have after : D.classed = 0 := by
    rw [Descriptor.classed, none]
    rfl
  rw [← before, smallSbs_setDesc D (lt.trans_le ok.le_capacity), after]
  rfl

/-- At the exit of a thread one class follows another. -/
lemma flushChanges_exit (small : SmallClass sc) : flushChanges h t sc .exit =
    3 * (h.cache t sc).num + flushChanges h t (sc + 1) .exit :=
  Finset.sum_eq_sum_Ico_succ_bot small.2 _

/-- A turn of `flush_cache` takes a block out of the cache. -/
lemma flushChanges_setCache (small : SmallClass sc) (k : FlushK) {c : TCacheBin}
    (lt : c.num < (h.cache t sc).num) :
    flushChanges (h.setCache t sc c) t sc k + 3 ≤ flushChanges h t sc k := by
  cases k with
  | free p =>
    rw [flushChanges, flushChanges, Heap.cache_setCache_self]
    omega
  | exit =>
    have rest : flushChanges (h.setCache t sc c) t (sc + 1) .exit =
        flushChanges h t (sc + 1) .exit :=
      sum_setCache (fun n => 3 * n) c
    rw [flushChanges_exit small, flushChanges_exit small, rest, Heap.cache_setCache_self]
    omega

/-- What is left depends on the heap by the caches only. -/
lemma pushChanges_congr (cache : g.cache = h.cache) (k : PushK) :
    pushChanges t g k = pushChanges t h k := by
  cases k with
  | flush sc k => cases k <;> simp only [pushChanges, flushChanges, cache]
  | _ => rfl

end Count

section Spends

variable {m : ℕ} {r : Heap × PC} {D : Descriptor}

/-- A step that changes nothing. -/
lemma Spends.quiet (same : SameShared h g) (le : changesLeft t g pc ≤ n) :
    Spends cfg t h (n + 3 * smallSbs cfg h) (g, pc) :=
  .inl ⟨same, by rw [smallSbs_congr same.cls]; exact Nat.add_le_add_right le _⟩

/-- A step that only moves on. -/
lemma Spends.stay (le : changesLeft t h pc ≤ n) : Spends cfg t h (n + 3 * smallSbs cfg h) (h, pc) :=
  .quiet ⟨rfl, rfl, fun _ => rfl, fun _ => rfl⟩ le

/-- A step that changes a list word, an anchor or `curr_addr`. -/
lemma Spends.change (cls : ∀ d, (g.desc d).heap = (h.desc d).heap)
    (lt : changesLeft t g pc + 1 ≤ n) :
    Spends cfg t h (n + 3 * smallSbs cfg h) (g, pc) := by
  refine .inr ?_
  show changesLeft t g pc + 3 * smallSbs cfg g + 1 ≤ n + 3 * smallSbs cfg h
  rw [smallSbs_congr cls]
  omega

/-- A write to a descriptor that leaves class and anchor alone. -/
lemma SameShared.setDesc (heap : D.heap = (h.desc d).heap) (anchor : D.anchor = (h.desc d).anchor) :
    SameShared h (h.setDesc d D) := by
  refine ⟨rfl, rfl, fun e => ?_, fun e => ?_⟩
  all_goals
    by_cases he : e = d
    · subst he
      rw [Heap.desc_setDesc_self]
      assumption
    · rw [Heap.desc_setDesc_ne he]

/-- A write to a descriptor that leaves the class alone. -/
lemma heap_setDesc (heap : D.heap = (h.desc d).heap) (e : ℕ) :
    ((h.setDesc d D).desc e).heap = (h.desc e).heap := by
  by_cases he : e = d
  · subst he
    rw [Heap.desc_setDesc_self, heap]
  · rw [Heap.desc_setDesc_ne he]

/-- A write to a descriptor that has no class afterwards. -/
lemma Spends.unclassed (none : D.heap.getD 0 = 0) (lt : changesLeft t (h.setDesc d D) pc + 1 ≤ n) :
    Spends cfg t h (n + 3 * smallSbs cfg h) (h.setDesc d D, pc) := by
  have zero : D.classed = 0 := if_pos none
  have le := smallSbs_setDesc_le cfg h d D
  refine .inr ?_
  show changesLeft t (h.setDesc d D) pc + 3 * smallSbs cfg (h.setDesc d D) + 1 ≤ _
  omega

/-- Links between blocks are not shared. -/
lemma SameShared.setLink (h : Heap) (b v : ℕ) : SameShared h (h.setLink b v) :=
  ⟨rfl, rfl, fun _ => rfl, fun _ => rfl⟩

/-- An assertion that cannot fail. -/
lemma Spends.check {c : Prop} [Decidable c] {a : Site} {go : Heap × PC}
    (safe : Safe (check c a g go)) (site : ¬a.CanFail) (next : c → Safe go → Spends cfg t h n go) :
    Spends cfg t h n (check c a g go) := by
  rw [Ralloc.check] at safe ⊢
  split at safe
  case isTrue hc =>
    rw [if_pos hc]
    exact next hc safe
  case isFalse => exact absurd (safe a rfl) site

/-- The pops. -/
lemma spends_popTest {l : ListId} {old : Seen} : Spends cfg t h
    (changesLeft t h (.popLoad l sc) + 3 * smallSbs cfg h) (h, popTest l sc old) := by
  cases e : old.ptr with
  | none =>
    cases l with
    | avail =>
      rw [popTest_avail e]
      exact .stay le_rfl
    | part c =>
      rw [popTest_part e]
      exact .stay (Nat.le_add_right ..)
  | some p =>
    rw [popTest_some e]
    cases l <;> exact .stay le_rfl

/-- A pop is a change; a superblock off a partial list pays for what may follow. -/
lemma spends_popCas (spur : Bool) {l : ListId} {old : Seen} {p : ℕ} {next : Option ℕ} :
    Spends cfg t h (changesLeft t h (.popCas l sc old p next) + 3 * smallSbs cfg h)
      (exec cfg t spur h (.popCas l sc old p next)) := by
  rw [exec]
  split
  · cases l with
    | avail => exact .change (fun _ => rfl) (show NEW_CHANGES + 1 ≤ AVAIL_CHANGES by decide)
    | part c => exact .change (fun _ => rfl) le_rfl
  · cases l <;> exact spends_popTest

/-- The loop of `malloc_from_partial`. -/
lemma spends_anchorTest {old : Anchor} {maxc bsize sb : ℕ}
    (safe : Safe (anchorTest cfg sc d old maxc bsize sb h)) :
    Spends cfg t h (AVAIL_CHANGES + 1 + 3 * smallSbs cfg h)
      (anchorTest cfg sc d old maxc bsize sb h) := by
  unfold anchorTest at safe ⊢
  split at safe
  case isTrue e =>
    rw [if_pos e]
    exact .check safe (by simp [Site.CanFail]) fun _ _ => .stay le_rfl
  case isFalse e =>
    rw [if_neg e]
    exact .check safe (by simp [Site.CanFail]) fun _ _ => .stay le_rfl

/-- The change of an anchor to full, or the retirement of an empty superblock. -/
lemma spends_anchorCas (spur : Bool) {old : Anchor} {maxc bsize sb : ℕ}
    (safe : Safe (exec cfg t spur h (.anchorCas sc d old maxc bsize sb))) :
    Spends cfg t h (AVAIL_CHANGES + 1 + 3 * smallSbs cfg h)
      (exec cfg t spur h (.anchorCas sc d old maxc bsize sb)) := by
  rw [exec] at safe ⊢
  split at safe
  case isTrue e =>
    rw [if_pos e]
    refine .check safe (by simp [Site.CanFail]) fun _ safe => ?_
    unfold filled at safe ⊢
    split at safe
    case isTrue none =>
      rw [if_pos none]
      exact .change (heap_setDesc rfl) le_rfl
    case isFalse some =>
      rw [if_neg some]
      exact .check safe (by simp [Site.CanFail]) fun _ _ => .change (heap_setDesc rfl)
        (Nat.le_add_left ..)
  case isFalse e =>
    rw [if_neg e]
    exact spends_anchorTest safe

/-- The loop of `malloc_from_newsb`. -/
lemma spends_newLoop (same : SameShared h g) {sb idx : ℕ} :
    Spends cfg t h (1 + 3 * smallSbs cfg h) (g, newLoop sc d sb idx) := by
  rw [newLoop]
  split <;> exact .quiet same le_rfl

/-- `malloc_from_newsb` pays for the class of its superblock. -/
lemma spends_newSet {sb : ℕ} (D : Descriptor) :
    Spends cfg t h (NEW_CHANGES + 3 * smallSbs cfg h) (h.setDesc d D, newLoop sc d sb 0) := by
  have one := D.classed_le
  have le := smallSbs_setDesc_le cfg h d D
  have left : changesLeft t (h.setDesc d D) (newLoop sc d sb 0) = 1 := by
    rw [newLoop]
    split <;> rfl
  refine .inr ?_
  rw [left, NEW_CHANGES]
  show 1 + 3 * smallSbs cfg (h.setDesc d D) + 1 ≤ _
  omega

/-- The constructor changes class and anchor in one of its steps only. -/
lemma sameShared_ctor {ph : CtorPhase} (ne : ph ≠ .fields) :
    SameShared h (h.setDesc d (ctorWrite (h.desc d) ph)) := by
  cases ph with
  | fields => exact absurd rfl ne
  | _ => exact .setDesc rfl rfl

/-- The constructor in `small_sb_retire`. -/
lemma spends_retire (ok : L.Ok cfg) (rep : Rep cfg h L) {ph : CtorPhase} {k : PushK}
    (th : ThInv cfg h L t (.ctor d ph (.retire k))) :
    Spends cfg t h (changesLeft t h (.ctor d ph (.retire k)) + 3 * smallSbs cfg h)
      (h.setDesc d (ctorWrite (h.desc d) ph), ctorNext d (.retire k) ph) := by
  have same : ∀ k, pushChanges t (h.setDesc d (ctorWrite (h.desc d) ph)) k = pushChanges t h k :=
    pushChanges_congr rfl
  cases ph with
  | nextFree =>
    refine .quiet (sameShared_ctor (by simp)) ?_
    cases k <;> simp only [ctorNext, changesLeft, retireChanges, same, le_refl]
  | nextPartial =>
    refine .quiet (sameShared_ctor (by simp)) ?_
    cases k <;> simp only [ctorNext, changesLeft, retireChanges, same, le_refl]
  | fields =>
    -- the superblock loses its class and pays for the next turn of `malloc_from_partial`
    have role : L.role d = .small k.sc (.thr t) := th.role_own ok rfl
    have gone := smallSbs_retire ok rep role (D := ctorWrite (h.desc d) .fields) rfl
    refine .inr ?_
    show changesLeft t _ (.ctor d .flush (.retire k)) + 3 * smallSbs cfg (h.setDesc d _) + 1 ≤ _
    have push := same k
    cases k with
    | retry sc =>
      simp only [changesLeft, retireChanges, pushChanges]
      omega
    | _ =>
      simp only [changesLeft, retireChanges]
      omega
  | flush =>
    refine .quiet (sameShared_ctor (by simp)) ?_
    simp only [ctorNext, changesLeft, retireChanges, same, le_refl]
  | fence =>
    refine .quiet (sameShared_ctor (by simp)) ?_
    simp only [ctorNext, ctorDone, changesLeft, retireChanges, same, le_refl]

/-- The other constructors: the descriptor has no class. -/
lemma spends_ctor (ok : L.Ok cfg) (rep : Rep cfg h L) {ph : CtorPhase} {k : CtorK}
    (th : ThInv cfg h L t (.ctor d ph k)) (spur : Bool) :
    Spends cfg t h (changesLeft t h (.ctor d ph k) + 3 * smallSbs cfg h)
      (exec cfg t spur h (.ctor d ph k)) := by
  have same : ∀ k, pushChanges t (h.setDesc d (ctorWrite (h.desc d) ph)) k = pushChanges t h k :=
    pushChanges_congr rfl
  rw [exec]
  cases k with
  | retire k => exact spends_retire ok rep th
  | organize start count i k =>
    cases ph with
    | fields =>
      refine .unclassed rfl ?_
      simp only [ctorNext, changesLeft, CtorPhase.changes, same]
      omega
    | fence =>
      refine .quiet (sameShared_ctor (by simp)) ?_
      rw [ctorNext, ctorDone]
      split <;> simp only [changesLeft, CtorPhase.changes, same] <;> omega
    | _ =>
      refine .quiet (sameShared_ctor (by simp)) ?_
      simp only [ctorNext, changesLeft, CtorPhase.changes, same]
      omega
  | newsb sc res =>
    cases ph with
    | fields => exact .unclassed rfl le_rfl
    | _ => exact .quiet (sameShared_ctor (by simp)) le_rfl
  | large sbs res =>
    cases ph with
    | fields => exact .unclassed rfl le_rfl
    | _ => exact .quiet (sameShared_ctor (by simp)) le_rfl

/-- The pushes. -/
lemma spends_pushCas (spur : Bool) {l : ListId} {first last : ℕ} {old : Seen} {k : PushK} :
    Spends cfg t h (1 + pushChanges t h k + 3 * smallSbs cfg h)
      (exec cfg t spur h (.pushCas l first last old k)) := by
  rw [exec]
  split
  · let g := { h.setHead l ⟨some first, (old.cnt + 1) % CNT⟩ with
      pushes := Function.update h.pushes l (h.pushes l + 1) }
    have rest : pushChanges t g k = pushChanges t h k := pushChanges_congr rfl k
    have after : changesLeft t g (pushDone cfg k) = pushChanges t g k := by cases k <;> rfl
    refine .change (g := g) (fun _ => rfl) ?_
    rw [after, rest, Nat.add_comm]
  · exact .stay le_rfl

/-- The head of the loop of `flush_cache`. -/
lemma spends_flushHead (small : SmallClass sc) (spur : Bool) {k : FlushK}
    (safe : Safe (exec cfg t spur h (.flushHead sc k))) :
    Spends cfg t h (flushChanges h t sc k + 3 * smallSbs cfg h)
      (exec cfg t spur h (.flushHead sc k)) := by
  rw [exec] at safe ⊢
  by_cases num : (h.cache t sc).num = 0
  · rw [if_pos num]
    refine .stay ?_
    cases k with
    | free p => exact Nat.zero_le _
    | exit =>
      rw [flushDone]
      split
      · rw [flushChanges_exit small]
        exact Nat.le_add_left ..
      · exact Nat.zero_le _
  · rw [if_neg num] at safe ⊢
    dsimp only at safe ⊢
    generalize hq : scanRun h.link _ _ _ _ 1 = q at safe ⊢
    have one : 1 ≤ q.2 := hq ▸ le_scanRun ..
    obtain ⟨tail, count⟩ := q
    dsimp only at safe one ⊢
    refine .check safe (by simp [Site.CanFail]) fun le safe => ?_
    cases e : computeIdx _ (h.cache t sc).block sc with
    | none =>
      rw [e] at safe
      exact absurd (safe .computeIdx rfl) (by simp [Site.CanFail])
    | some idx =>
      have lt : (TCacheBin.mk (h.link tail) ((h.cache t sc).num - count)).num <
          (h.cache t sc).num := Nat.sub_lt (Nat.pos_of_ne_zero num) one
      refine .quiet ⟨rfl, rfl, fun _ => rfl, fun _ => rfl⟩ ?_
      rw [changesLeft, Nat.add_comm]
      exact flushChanges_setCache small k lt

/-- The compare-and-swap of `flush_cache`. -/
lemma spends_flushCas (spur : Bool) {r : Run} {old : Anchor} {k : FlushK}
    (safe : Safe (exec cfg t spur h (.flushCas sc r old k))) :
    Spends cfg t h (3 + flushChanges h t sc k + 3 * smallSbs cfg h)
      (exec cfg t spur h (.flushCas sc r old k)) := by
  rw [exec] at safe ⊢
  dsimp only at safe ⊢
  split at safe
  case isTrue e =>
    rw [if_pos e]
    refine .check safe (by simp [Site.CanFail]) fun _ _ => .change (heap_setDesc rfl) ?_
    have rest : ∀ {D : Descriptor}, flushChanges (h.setDesc r.d D) t sc k =
        flushChanges h t sc k := by
      intro D
      cases k <;> rfl
    unfold gaveBack
    split
    · split <;> simp only [changesLeft, retireChanges, pushChanges, rest] <;> omega
    · simp only [changesLeft, rest]
      omega
  case isFalse e =>
    rw [if_neg e]
    exact .stay le_rfl

/-- Every step of a thread changes nothing that others read, or is one of the changes that are
left. -/
theorem Inv.spends (inv : Inv cfg s L) (spur : Bool)
    (safe : Safe (exec cfg t spur s.heap (s.pc t))) :
    Spends cfg t s.heap (changesLeft t s.heap (s.pc t) + 3 * smallSbs cfg s.heap)
      (exec cfg t spur s.heap (s.pc t)) := by
  have th := inv.thread t
  generalize s.pc t = pc at *
  cases pc with
  | popLoad l sc => exact spends_popTest
  | popNext l sc old p => cases l <;> exact .stay le_rfl
  | popCas l sc old p next => exact spends_popCas spur
  | anchorLoad sc d => exact spends_anchorTest safe
  | anchorCas sc d old maxc bsize sb => exact spends_anchorCas spur safe
  | growCheck sc cur =>
    rw [exec]
    split
    · exact .stay le_rfl
    rw [check]
    split
    · exact .stay le_rfl
    · exact .stay (Nat.zero_le _)
  | growCas sc cur =>
    rw [exec]
    split
    · exact .change (fun _ => rfl) le_rfl
    · exact .stay le_rfl
  | grownFence sc res =>
    have count : SB_REGION_EXPAND_SIZE / SBSIZE - 1 = 16383 := rfl
    refine .stay ?_
    simp only [organizeSbList, changesLeft, CtorPhase.changes, pushChanges, EXPAND_SBS_eq, count]
    omega
  | newSet sc sb =>
    rw [exec] at safe ⊢
    exact .check safe (by simp [Site.CanFail]) fun _ _ => spends_newSet _
  | newLink sc d sb idx =>
    rw [exec]
    exact spends_newLoop (.setLink ..)
  | newAnchor sc d sb =>
    rw [exec] at safe ⊢
    exact .check safe (by simp [Site.CanFail]) fun _ _ => .change (heap_setDesc rfl) le_rfl
  | newFence sc d =>
    rw [exec] at safe ⊢
    exact .check safe (by simp [Site.CanFail]) fun _ _ => .stay le_rfl
  | popBlock sc =>
    rw [exec] at safe ⊢
    exact .check safe (by simp [Site.CanFail]) fun _ _ =>
      .quiet ⟨rfl, rfl, fun _ => rfl, fun _ => rfl⟩ le_rfl
  | ctor d ph k => exact spends_ctor inv.ok inv.rep th spur
  | orgLink start count i k =>
    have lt := th.known.2.2.1
    have rest : pushChanges t (s.heap.setDesc (start + i)
        { s.heap.desc (start + i) with nextFree := some (start + i + 1) }) k =
        pushChanges t s.heap k := pushChanges_congr rfl k
    refine .quiet (.setDesc rfl rfl) ?_
    simp only [changesLeft, CtorPhase.changes, rest]
    omega
  | heapPushPartial d k =>
    rw [exec] at safe ⊢
    cases e : (s.heap.desc d).heap with
    | none =>
      rw [e] at safe
      exact absurd (safe .null rfl) (by simp [Site.CanFail])
    | some sc => exact .stay le_rfl
  | pushStore l first last old k =>
    rw [exec] at safe ⊢
    refine .check safe (by simp [Site.CanFail]) fun _ _ => .quiet (.setDesc ?_ ?_) ?_
    · cases l <;> rfl
    · cases l <;> rfl
    · simp only [changesLeft, pushChanges_congr (g := s.heap.setDesc last _) (h := s.heap) rfl k,
        le_refl]
  | pushCas l first last old k => exact spends_pushCas spur
  | flushHead sc k => exact spends_flushHead th.known spur safe
  | flushStore sc r old k =>
    rw [exec] at safe ⊢
    refine .check safe (by simp [Site.CanFail]) fun _ _ =>
      .quiet ⟨rfl, rfl, fun _ => rfl, fun _ => rfl⟩ ?_
    cases k <;> exact le_rfl
  | flushCas sc r old k => exact spends_flushCas spur safe
  | pushBlock sc p => exact .quiet ⟨rfl, rfl, fun _ => rfl, fun _ => rfl⟩ le_rfl
  | largeLoad sbs =>
    rw [exec, check]
    split
    · exact .stay le_rfl
    · exact .stay (Nat.zero_le _)
  | largeCas sbs cur =>
    rw [exec]
    split
    · exact .change (fun _ => rfl) le_rfl
    · exact .stay le_rfl
  | largeSet sbs res =>
    rw [exec] at safe ⊢
    exact .check safe (by simp [Site.CanFail]) fun _ _ => .unclassed rfl le_rfl
  | largeAnchor sbs res => exact .change (heap_setDesc rfl) le_rfl
  | largeDescFence sbs res => exact .quiet ⟨rfl, rfl, fun _ => rfl, fun _ => rfl⟩ le_rfl
  | rootSet p i =>
    rw [exec, check]
    split
    · exact .quiet ⟨rfl, rfl, fun _ => rfl, fun _ => rfl⟩ le_rfl
    · exact .stay le_rfl
  | _ => exact .stay le_rfl

end Spends

end Ralloc
