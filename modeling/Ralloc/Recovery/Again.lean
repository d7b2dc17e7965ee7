import Ralloc.Recovery.FalsePositive
import Ralloc.Recovery.Mark

/-!
# A second recovery

What a garbage collection finds that runs on the result of another one, as after a crash right
behind a recovery. The first one has changed two things that the mark phase looks at: superblocks
that it has reclaimed have no `block_size` any more, so that nothing is found in them, and the first
word of every block that it has freed is a link. `filter_func` looks at all the eight bytes from
each byte of a block on, hence at the link in a free block that comes next, together with the last
bytes of a marked one.

`stable_iff`: the second garbage collection ends as the first one exactly when these changes keep
the set of addresses that are reachable (`Rescanned`).
-/

namespace Ralloc

open Lib

variable {cfg : Cfg} {h h' : Heap} {N d k sc fuel a : ℕ} {M : Finset ℕ}

/-- What the word at `x` stands for after the sweep. -/
def relink (cfg : Cfg) (h : Heap) (N : ℕ) (M : Finset ℕ) (x : ℕ) : ℕ :=
  fromPptrOff (load (relinked cfg h M N) x 8) x

/-- The word at `x` shares a byte with the link of a block that the sweep frees. -/
def Overwritten (cfg : Cfg) (h : Heap) (N : ℕ) (M : Finset ℕ) (x : ℕ) : Prop :=
  ∃ d sc c, (0 < d ∧ d < N) ∧ Used cfg h M d sc ∧ c ∈ freedBlocks cfg M d sc ∧ c < x + 8 ∧ x < c + 8

/-- The address `a` lies in a superblock that is in use. -/
def InUse (cfg : Cfg) (h : Heap) (N a : ℕ) : Prop :=
  ∃ d, (0 < d ∧ d < N) ∧ InSb cfg d a ∧ ((∃ sc, IsSmall cfg h d sc) ∨ ∃ k, IsLarge cfg h d k)

/-- What can be reached from the roots through blocks of `M` in superblocks that are in use, with
the links that the sweep writes. -/
inductive Reached (cfg : Cfg) (h : Heap) (N : ℕ) (M : Finset ℕ) : ℕ → Prop
  | root {i} (hi : i < MAX_ROOTS) (visits : visitsRoot h.roots i = true)
    (range : Mark.inRange cfg.heapStart h (castCross cfg.heapStart (h.roots i)) = true) :
    Reached cfg h N M (castCross cfg.heapStart (h.roots i))
  | word {a i} (reached : Reached cfg h N M a) (ha : a ∈ M) (use : InUse cfg h N a)
    (hi : i < (h.desc (sbIndex cfg.heapStart a)).blockSize) (ne : relink cfg h N M (a + i) ≠ 0)
    (range : Mark.inRange cfg.heapStart h (relink cfg h N M (a + i)) = true) :
    Reached cfg h N M (relink cfg h N M (a + i))

/-- The sweep for the marks `M` does not change what is reachable. -/
structure Rescanned (cfg : Cfg) (h : Heap) (N : ℕ) (M : Finset ℕ) : Prop where
  /-- no mark depends on what the sweep overwrites or on a superblock that is not in use -/
  reached : ∀ a ∈ M, Reached cfg h N M a
  /-- and what it writes does not look like a pointer to something else -/
  clean : ∀ a ∈ M, InUse cfg h N a → ∀ i < (h.desc (sbIndex cfg.heapStart a)).blockSize,
    Overwritten cfg h N M (a + i) → relink cfg h N M (a + i) ≠ 0 →
    Mark.inRange cfg.heapStart h (relink cfg h N M (a + i)) = true → relink cfg h N M (a + i) ∈ M

/-- The same free blocks in each superblock, and the same superblocks on each list. -/
structure SameFree (cfg : Cfg) (N : ℕ) (h h' : Heap) : Prop where
  blocks : ∀ d sc, 0 < d → d < N → IsSmall cfg h d sc →
    ∀ b, b ∈ freeListOf cfg h' d sc ↔ b ∈ freeListOf cfg h d sc
  lists : ∀ l, ∃ D D', h.Lists l D ∧ h'.Lists l D' ∧ ∀ d, d ∈ D' ↔ d ∈ D

/-- A garbage collection of `h` marks `M` again and leaves the free blocks as they are. -/
def Stable (cfg : Cfg) (fuel N : ℕ) (M : Finset ℕ) (h : Heap) : Prop :=
  ∃ w, collect cfg fuel h = .done (M, w) ∧ SameFree cfg N h w.heap

section mark

/-- All marks are in range. -/
lemma Mark.range_of_isLeast {S : Set ℕ}
    (least : IsLeast {S | Mark.Closed cfg.heapStart h S} S) (ha : a ∈ S) :
    cfg.heapStart ≤ a ∧ a < h.currAddr := by
  have closed : Mark.Closed cfg.heapStart h {a | Mark.inRange cfg.heapStart h a = true} :=
    Mark.closed_iff.2 ⟨fun _ _ _ h => h, fun _ _ _ _ _ h => h⟩
  simpa [Mark.inRange] using least.2 closed ha

/-- What a garbage collection does, with enough fuel. -/
lemma collect_eq (cfg : Cfg) (hfuel : h.currAddr - cfg.heapStart < fuel) :
    ∃ M : Finset ℕ, IsLeast {S | Mark.Closed cfg.heapStart h S} (M : Set ℕ) ∧
      collect cfg fuel h = (sweep cfg fuel h M.sort).bind fun w => .done (M, w) := by
  obtain ⟨m, e, -, least⟩ := Mark.conservative_isLeast (h := clearLists h) (.refl _) hfuel
  refine ⟨m.markedBlk, ⟨⟨least.1.root, least.1.word⟩, fun S hS => least.2 ⟨hS.root, hS.word⟩⟩, ?_⟩
  rw [collect, collectFrom, collectWith, e, Outcome.bind_done]
  rfl

/-- The marks of a garbage collection that ends. -/
lemma collect_done {w : Sweep} (hfuel : h.currAddr - cfg.heapStart < fuel)
    (e : collect cfg fuel h = .done (M, w)) :
    IsLeast {S | Mark.Closed cfg.heapStart h S} (M : Set ℕ) ∧
      sweep cfg fuel h M.sort = .done w := by
  obtain ⟨M', least, e'⟩ := collect_eq cfg hfuel
  rw [e'] at e
  cases es : sweep cfg fuel h M'.sort with
  | timeout => simp [es] at e
  | failed a => simp [es] at e
  | done w' =>
    rw [es] at e
    cases e
    exact ⟨least, es⟩

end mark

section swept

variable (rc : Recoverable cfg h N) (sw : Swept cfg h N M h')
include rc sw

omit rc in
/-- A kept large block is large after the sweep. -/
lemma Swept.large_of_kept (h1 : 0 < d) (h2 : d < N) (hk : Kept cfg h M d k) :
    IsLarge cfg h' d k := by
  have hl := hk.large
  refine ⟨hl.pos, ?_, ?_, ?_, ?_⟩ <;> rw [(sw.settled d h1 h2).kept k hk, Descriptor.keep]
  exacts [hl.heap, hl.superblock, hl.size, hl.maxcount]

/-- A large block after the sweep was kept. -/
lemma Swept.kept_of_large (h1 : 0 < d) (h2 : d < N) (hl : IsLarge cfg h' d k) :
    Kept cfg h M d k := by
  have st := sw.settled d h1 h2
  by_cases hc : Covered cfg h M d
  · obtain ⟨e, k', pos, hk, lt, hi⟩ := id hc
    have := hl.heap
    rw [st.covered hc, rc.interior pos (by omega) hk.large lt hi] at this
    cases this
  by_cases hu : ∃ sc, Used cfg h M d sc
  · obtain ⟨sc, hu⟩ := hu
    have e := (st.used sc hu).plain
    simp only [Descriptor.plain, Prod.mk.injEq] at e
    have := hu.small.cls.1
    have heap := hl.heap
    rw [e.2.1, hu.small.heap, Option.some.injEq] at heap
    omega
  by_cases hk : ∃ k', Kept cfg h M d k'
  · obtain ⟨k', hk⟩ := hk
    rw [hl.unique (sw.large_of_kept h1 h2 hk)]
    exact hk
  · have hr : Reclaimed cfg h M d := ⟨fun sc hu' => hu ⟨sc, hu'⟩, fun k hk' => hk ⟨k, hk'⟩, hc⟩
    have := hl.heap
    rw [st.reclaimed hr] at this
    cases this

/-- The small superblocks after the sweep are the used ones. -/
lemma Swept.isSmall_iff (h1 : 0 < d) (h2 : d < N) :
    IsSmall cfg h' d sc ↔ Used cfg h M d sc := by
  refine ⟨fun hs => ?_, fun hu => ?_⟩
  · have := hs.cls.1
    exact sw.used_of_heap (rc.sweepable M) h1 h2 hs.heap (by omega)
  · have e := ((sw.settled d h1 h2).used sc hu).plain
    simp only [Descriptor.plain, Prod.mk.injEq] at e
    have hs := hu.small
    exact ⟨hs.cls, e.2.1.trans hs.heap, e.1.trans hs.superblock, e.2.2.1.trans hs.size,
      e.2.2.2.trans hs.maxcount⟩

/-- The large blocks after the sweep are the kept ones. -/
lemma Swept.isLarge_iff (h1 : 0 < d) (h2 : d < N) :
    IsLarge cfg h' d k ↔ Kept cfg h M d k :=
  ⟨sw.kept_of_large rc h1 h2, sw.large_of_kept h1 h2⟩

/-- After the sweep the heap is still recoverable. -/
lemma Swept.recoverable (same : h.SameRoots h') : Recoverable cfg h' N := by
  refine ⟨rc.pos, same.currAddr.trans rc.curr, rc.inside, fun d h1 h2 => ?_,
    fun h1 h2 hl => rc.fits h1 h2 (sw.kept_of_large rc h1 h2 hl).large,
    fun {d k j} h1 h2 hl h3 h4 => ?_⟩
  · have st := sw.settled d h1 h2
    by_cases hu : ∃ sc, Used cfg h M d sc
    · obtain ⟨sc, hu⟩ := hu
      exact .inr (.inl ⟨sc, (sw.isSmall_iff rc h1 h2).2 hu⟩)
    by_cases hk : ∃ k, Kept cfg h M d k
    · obtain ⟨k, hk⟩ := hk
      exact .inr (.inr ⟨k, (sw.isLarge_iff rc h1 h2).2 hk⟩)
    by_cases hc : Covered cfg h M d
    · obtain ⟨e, k', pos, hk', lt, hi⟩ := id hc
      rw [st.covered hc]
      exact .inl (rc.interior pos (by omega) hk'.large lt hi)
    · rw [st.reclaimed ⟨fun sc hu' => hu ⟨sc, hu'⟩, fun k hk' => hk ⟨k, hk'⟩, hc⟩]
      exact .inl rfl
  · have hk := sw.kept_of_large rc h1 h2 hl
    have hend := rc.fits h1 h2 hk.large
    have hc : Covered cfg h M j := ⟨d, k, h1, hk, h3, h4⟩
    rw [(sw.settled j (by omega) (by omega)).covered hc]
    exact rc.interior h1 h2 hk.large h3 h4

/-- The sweep sorts the superblocks the same way again. -/
lemma Swept.used_iff (h1 : 0 < d) (h2 : d < N) : Used cfg h' M d sc ↔ Used cfg h M d sc :=
  ⟨fun hu => (sw.isSmall_iff rc h1 h2).1 hu.small,
    fun hu => ⟨(sw.isSmall_iff rc h1 h2).2 hu, hu.marked⟩⟩

/-- A second sweep keeps the same large blocks. -/
lemma Swept.kept_again_iff (h1 : 0 < d) (h2 : d < N) : Kept cfg h' M d k ↔ Kept cfg h M d k :=
  ⟨fun hk => (sw.isLarge_iff rc h1 h2).1 hk.large,
    fun hk => ⟨(sw.isLarge_iff rc h1 h2).2 hk, hk.marked⟩⟩

/-- And reclaims the same superblocks. -/
lemma Swept.reclaimed_iff (h1 : 0 < d) (h2 : d < N) :
    Reclaimed cfg h' M d ↔ Reclaimed cfg h M d := by
  have cov : Covered cfg h' M d ↔ Covered cfg h M d := by
    constructor
    · rintro ⟨e, k, pos, hk, lt, hi⟩
      exact ⟨e, k, pos, (sw.kept_again_iff rc pos (by omega)).1 hk, lt, hi⟩
    · rintro ⟨e, k, pos, hk, lt, hi⟩
      exact ⟨e, k, pos, (sw.kept_again_iff rc pos (by omega)).2 hk, lt, hi⟩
  refine ⟨fun hr => ⟨fun sc hu => ?_, fun k hk => ?_, fun hc => hr.covered (cov.2 hc)⟩,
    fun hr => ⟨fun sc hu => ?_, fun k hk => ?_, fun hc => hr.covered (cov.1 hc)⟩⟩
  · exact hr.used sc ((sw.used_iff rc h1 h2).2 hu)
  · exact hr.kept k ((sw.kept_again_iff rc h1 h2).2 hk)
  · exact hr.used sc ((sw.used_iff rc h1 h2).1 hu)
  · exact hr.kept k ((sw.kept_again_iff rc h1 h2).1 hk)

/-- The same marks are admissible again. -/
lemma Swept.admissible (adm : Admissible cfg h N M) : Admissible cfg h' N M :=
  ⟨adm.first, fun e k h1 h2 hk => adm.rest.inner e k h1 h2 ((sw.kept_again_iff rc h1 h2).1 hk),
    fun e sc h1 h2 hu => adm.rest.aligned e sc h1 h2 ((sw.used_iff rc h1 h2).1 hu)⟩

/-- A second sweep for the same marks leaves the same free blocks. -/
lemma Swept.sameFree {h'' : Heap} (sw' : Swept cfg h' N M h'') : SameFree cfg N h' h'' := by
  refine ⟨fun d sc h1 h2 hs b => ?_, fun l => ?_⟩
  · have hu := (sw.isSmall_iff rc h1 h2).1 hs
    have hu' := (sw.used_iff rc h1 h2).2 hu
    rw [((sw.settled d h1 h2).used sc hu).freeListOf_eq,
      ((sw'.settled d h1 h2).used sc hu').freeListOf_eq]
  · cases l with
    | avail =>
      obtain ⟨D, hl, -, mem⟩ := sw.avail
      obtain ⟨D', hl', -, mem'⟩ := sw'.avail
      refine ⟨D, D', hl, hl', fun d => ?_⟩
      rw [mem, mem']
      exact and_congr_right fun hd => sw.reclaimed_iff rc hd.1 hd.2
    | part sc =>
      obtain ⟨P, hl, -, mem⟩ := sw.part sc
      obtain ⟨P', hl', -, mem'⟩ := sw'.part sc
      refine ⟨P, P', hl, hl', fun d => ?_⟩
      rw [mem, mem']
      exact and_congr_right fun hd => and_congr_left fun _ => sw.used_iff rc hd.1 hd.2

end swept

/-- The heap `h'` is the result of a garbage collection of `h` that has marked `M`. -/
structure Collected (cfg : Cfg) (h : Heap) (N : ℕ) (M : Finset ℕ) (h' : Heap) : Prop where
  least : IsLeast {S | Mark.Closed cfg.heapStart h S} (M : Set ℕ)
  adm : Admissible cfg h N M
  swept : Swept cfg h N M h'
  mem : h'.mem = relinked cfg h M N
  same : h.SameRoots h'

section collected

/-- The number of turns that is enough for both phases. -/
lemma Recoverable.enough (rc : Recoverable cfg h N) (hfuel : (N + 1) * SBSIZE < fuel) :
    h.currAddr - cfg.heapStart < fuel ∧ N + SBSIZE < fuel := by
  rw [SBSIZE_eq] at hfuel ⊢
  rw [rc.curr, Cfg.sb, SBSIZE_eq]
  omega

/-- A garbage collection that ends. -/
lemma Recoverable.collected (rc : Recoverable cfg h N) (hfuel : (N + 1) * SBSIZE < fuel)
    {w : Sweep} (e : collect cfg fuel h = .done (M, w)) : Collected cfg h N M w.heap := by
  obtain ⟨enough, enough'⟩ := rc.enough hfuel
  obtain ⟨least, es⟩ := collect_done enough e
  have range : ∀ m ∈ M, cfg.heapStart ≤ m ∧ m < h.currAddr := fun m hm =>
    Mark.range_of_isLeast least hm
  rcases sweep_outcome (rc.sweepable M) range enough' with ⟨adm, w', ew, -, -, sw⟩ | ⟨-, a, ea⟩
  · obtain rfl : w' = w := by
      rw [ew] at es
      cases es
      rfl
    obtain ⟨mem, same⟩ := sweep_writes (rc.sweepable M) adm
      (fun m hm => rc.curr ▸ (range m hm).2) enough' ew
    exact ⟨least, adm, sw, mem, same⟩
  · rw [ea] at es
    cases es

variable (rc : Recoverable cfg h N) (c : Collected cfg h N M h')

namespace Collected

include c

/-- Words after the sweep. -/
lemma link_eq (x : ℕ) : h'.link x = relink cfg h N M x := by
  rw [Heap.link, relink, c.mem]

/-- Words that the sweep does not overwrite. -/
lemma relink_of_not_overwritten {x : ℕ} (ov : ¬Overwritten cfg h N M x) :
    relink cfg h N M x = h.link x := by
  rw [← c.link_eq, Heap.link, Heap.link]
  refine congrArg (fromPptrOff · x) ?_
  refine load_congr fun y h1 h2 => c.swept.mem y fun e sc pos lt hu b hb => ?_
  by_contra hin
  exact ov ⟨e, sc, b, ⟨pos, lt⟩, hu, hb, by omega, by omega⟩

/-- The same words count as pointers into the heap. -/
lemma inRange_eq (x : ℕ) :
    Mark.inRange cfg.heapStart h' x = Mark.inRange cfg.heapStart h x := by
  rw [Mark.inRange, Mark.inRange, c.same.currAddr]

include rc

/-- A mark lies in a superblock of the region behind the first one. -/
lemma inSb (ha : a ∈ M) : ∃ d, (0 < d ∧ d < N) ∧ InSb cfg d a := by
  have lo := c.adm.first a ha
  have hi : a < cfg.sb N := rc.curr ▸ (Mark.range_of_isLeast c.least ha).2
  have hs : ∀ d, cfg.sb d = cfg.heapStart + d * SBSIZE := fun _ => rfl
  rw [hs, SBSIZE_eq] at lo hi
  refine ⟨(a - cfg.heapStart) / 65536, by omega, ?_⟩
  rw [InSb, hs, hs, SBSIZE_eq]
  omega

/-- Scanned bytes before and after: those of superblocks that are in use stay, others have none. -/
lemma blockSize_eq (ha : a ∈ M) :
    (InUse cfg h N a ∧
      (h'.desc (sbIndex cfg.heapStart a)).blockSize =
      (h.desc (sbIndex cfg.heapStart a)).blockSize) ∨
    (¬InUse cfg h N a ∧ (h'.desc (sbIndex cfg.heapStart a)).blockSize = 0) := by
  obtain ⟨d, hd, hin⟩ := c.inSb rc ha
  have idx : sbIndex cfg.heapStart a = d :=
    ((rc.sweepable M).insideOf hd.2).sbIndex hin.1 (by rw [← Cfg.sb_succ]; exact hin.2)
  have marked : Marked cfg M d := ⟨a, ha, hin⟩
  have st := c.swept.settled d hd.1 hd.2
  rw [idx]
  rcases rc.kind d hd.1 hd.2 with hnone | ⟨sc, hs⟩ | ⟨k, hl⟩
  · have notSmall : ∀ sc, ¬IsSmall cfg h d sc := fun sc hs => by
      rw [hs.heap] at hnone
      cases hnone
    have notLarge : ∀ k, ¬IsLarge cfg h d k := fun k hl => by
      rw [hl.heap] at hnone
      cases hnone
    refine .inr ⟨?_, ?_⟩
    · rintro ⟨e, he, hin', ⟨sc, hs⟩ | ⟨k, hl⟩⟩
      · exact notSmall sc (hin'.unique hin ▸ hs)
      · exact notLarge k (hin'.unique hin ▸ hl)
    · have covered : ¬Covered cfg h M d := by
        rintro ⟨e, k, pos, hk, lt, hi⟩
        refine c.adm.rest.inner e k pos (by omega) hk a ha ⟨?_, ?_⟩
        · exact le_trans (Cfg.sb_le_sb.2 lt) hin.1
        · exact lt_of_lt_of_le hin.2 (Cfg.sb_le_sb.2 hi)
      rw [st.reclaimed ⟨fun sc hu => notSmall sc hu.small, fun k hk => notLarge k hk.large,
        covered⟩]
      rfl
  · have e := (st.used sc ⟨hs, marked⟩).plain
    simp only [Descriptor.plain, Prod.mk.injEq] at e
    exact .inl ⟨⟨d, hd, hin, .inl ⟨sc, hs⟩⟩, e.2.2.1⟩
  · refine .inl ⟨⟨d, hd, hin, .inr ⟨k, hl⟩⟩, ?_⟩
    rw [st.kept k ⟨hl, marked⟩]
    rfl

/-- When the marks are closed again. -/
lemma closed_iff : Mark.Closed cfg.heapStart h' (M : Set ℕ) ↔
    ∀ a ∈ M, InUse cfg h N a → ∀ i < (h.desc (sbIndex cfg.heapStart a)).blockSize,
      Overwritten cfg h N M (a + i) → relink cfg h N M (a + i) ≠ 0 →
      Mark.inRange cfg.heapStart h (relink cfg h N M (a + i)) = true →
      relink cfg h N M (a + i) ∈ M := by
  constructor
  · intro closed a ha use i hi _ ne range
    rcases c.blockSize_eq rc ha with ⟨-, e⟩ | ⟨nuse, -⟩
    · have := closed.link_mem ha (e ▸ hi)
      rw [c.link_eq, c.inRange_eq] at this
      exact this ne range
    · exact absurd use nuse
  · refine fun clean => Mark.closed_iff.2 ⟨fun i hi visits range => ?_,
      fun a ha i hi ne range => ?_⟩
    · rw [c.inRange_eq, c.same.roots] at range
      rw [c.same.roots] at visits ⊢
      exact c.least.1.root_mem hi visits range
    · rcases c.blockSize_eq rc ha with ⟨use, e⟩ | ⟨-, e⟩
      · rw [c.link_eq] at ne range ⊢
        rw [c.inRange_eq] at range
        rw [e] at hi
        by_cases ov : Overwritten cfg h N M (a + i)
        · exact clean a ha use i hi ov ne range
        · rw [c.relink_of_not_overwritten ov] at ne range ⊢
          exact c.least.1.link_mem ha hi ne range
      · exact absurd hi (by omega)

/-- What can be reached is in every set that is closed after the sweep. -/
lemma reached_mem {S : Set ℕ} (hS : Mark.Closed cfg.heapStart h' S)
    (r : Reached cfg h N M a) : a ∈ S := by
  induction r with
  | root hi visits range =>
    have := hS.root_mem hi
    rw [c.same.roots, c.inRange_eq] at this
    exact this visits range
  | word reached ha use hi ne range ih =>
    rcases c.blockSize_eq rc ha with ⟨-, e⟩ | ⟨nuse, -⟩
    · have := hS.link_mem ih (e ▸ hi)
      rw [c.link_eq, c.inRange_eq] at this
      exact this ne range
    · exact absurd use nuse

/-- The marks that can be reached, if the marks are closed again. -/
lemma closed_reached (closed : Mark.Closed cfg.heapStart h' (M : Set ℕ)) :
    Mark.Closed cfg.heapStart h' {a | a ∈ M ∧ Reached cfg h N M a} := by
  refine Mark.closed_iff.2 ⟨fun i hi visits range => ⟨closed.root_mem hi visits range, ?_⟩,
    fun a ha i hi ne range => ⟨closed.link_mem ha.1 hi ne range, ?_⟩⟩
  · rw [c.inRange_eq, c.same.roots] at range
    rw [c.same.roots] at visits ⊢
    exact .root hi visits range
  · rcases c.blockSize_eq rc ha.1 with ⟨use, e⟩ | ⟨-, e⟩
    · rw [c.link_eq] at ne range ⊢
      rw [c.inRange_eq] at range
      exact .word ha.2 ha.1 use (e ▸ hi) ne range
    · exact absurd hi (by omega)

/-- The same addresses are marked again exactly if they stay reachable and nothing else does. -/
lemma isLeast_iff :
    IsLeast {S | Mark.Closed cfg.heapStart h' S} (M : Set ℕ) ↔ Rescanned cfg h N M := by
  constructor
  · intro least
    refine ⟨fun a ha => (least.2 (c.closed_reached rc least.1) ha).2, ?_⟩
    exact (c.closed_iff rc).1 least.1
  · intro r
    exact ⟨(c.closed_iff rc).2 r.clean, fun S hS a ha => c.reached_mem rc hS (r.reached a ha)⟩

/-- The second garbage collection. -/
lemma stable_iff_isLeast (hfuel : (N + 1) * SBSIZE < fuel) : Stable cfg fuel N M h' ↔
    IsLeast {S | Mark.Closed cfg.heapStart h' S} (M : Set ℕ) := by
  have rc' := c.swept.recoverable rc c.same
  obtain ⟨enough, enough'⟩ := rc'.enough hfuel
  constructor
  · rintro ⟨w, e, -⟩
    exact (collect_done enough e).1
  · intro least
    obtain ⟨M', least', e⟩ := collect_eq cfg enough
    obtain rfl : M' = M := Finset.coe_injective (least'.unique least)
    have range : ∀ m ∈ M', cfg.heapStart ≤ m ∧ m < h'.currAddr := fun m hm =>
      Mark.range_of_isLeast least hm
    rcases sweep_outcome (rc'.sweepable _) range enough' with ⟨-, w, ew, -, -, sw⟩ | ⟨nadm, -⟩
    · refine ⟨w, ?_, c.swept.sameFree rc sw⟩
      rw [e, ew]
      rfl
    · exact absurd (c.swept.admissible rc c.adm) nadm

end Collected

end collected

/-- A garbage collection that runs again on its own result marks the same addresses and ends with
the same free blocks, the same superblocks on `avail_sb` and the same ones on each partial list,
exactly if every mark can be reached through superblocks that are in use, with the links that the
sweep writes, and no word of a marked block that the sweep has overwritten in part leads anywhere
else. -/
theorem stable_iff (rc : Recoverable cfg h N) (hfuel : (N + 1) * SBSIZE < fuel) {w : Sweep}
    (done : collect cfg fuel h = .done (M, w)) :
    Stable cfg fuel N M w.heap ↔ Rescanned cfg h N M := by
  have c := rc.collected hfuel done
  rw [c.stable_iff_isLeast rc hfuel, c.isLeast_iff rc]

/-- A heap of two superblocks: the skipped one, and one of class 1, whose first block is pointed to
by root 0. The last two bytes of the block are the pattern of a pointer; everything else is zero. -/
def straddle : Heap :=
  { blank sample with
    currAddr := sample.sb 2
    desc := fun d => if d = 1 then ⟨none, none, .zero, some (sample.sb 1), some 1, 8, 8192⟩
      else .reset
    mem := fun x => if x = sample.sb 1 + 6 then 0xb0 else if x = sample.sb 1 + 7 then 0x52 else 0
    roots := fun i => if i = 0 then SBSIZE else 0 }

/-- Its second superblock has blocks of 8 bytes. -/
lemma straddle_small : IsSmall sample straddle 1 1 := ⟨by decide, rfl, rfl, by decide, by decide⟩

/-- It is a heap that recovery can start from. -/
lemma straddle_recoverable : Recoverable sample straddle 2 := by
  have large : ∀ {d k}, 0 < d → d < 2 → ¬IsLarge sample straddle d k := by
    intro d k h1 h2 hl
    obtain rfl : d = 1 := by omega
    exact straddle_small.not_large hl
  refine ⟨by decide, rfl, by decide, fun d h1 h2 => ?_, fun h1 h2 hl => absurd hl (large h1 h2),
    fun h1 h2 hl => absurd hl (large h1 h2)⟩
  obtain rfl : d = 1 := by omega
  exact .inr (.inl ⟨1, straddle_small⟩)

/-- Only the block is reachable. -/
lemma straddle_least :
    IsLeast {S | Mark.Closed sample.heapStart straddle S} (({sample.sb 1} : Finset ℕ) : Set ℕ) := by
  refine ⟨⟨fun i _ visits _ => ?_, fun a ha i hi ne _ => ?_⟩, fun S hS a ha => ?_⟩
  · obtain rfl : i = 0 := by
      by_contra ne
      simp [straddle, ne] at visits
    simp only [Finset.coe_singleton, Set.mem_singleton_iff]
    decide +kernel
  · obtain rfl : a = sample.sb 1 := by simpa using ha
    have size : (straddle.desc (sbIndex sample.heapStart (sample.sb 1))).blockSize = 8 := by
      decide +kernel
    rw [size] at hi
    refine absurd ?_ ne
    revert i
    decide +kernel
  · obtain rfl : a = sample.sb 1 := by simpa using ha
    have cast : castCross sample.heapStart (straddle.roots 0) = sample.sb 1 := by decide +kernel
    exact cast ▸ hS.root_mem (by decide) (by decide) (by decide +kernel)

/-- The first garbage collection ends. -/
lemma straddle_collect : ∃ w, collect sample 200000 straddle = .done ({sample.sb 1}, w) := by
  have rc := straddle_recoverable
  obtain ⟨enough, enough'⟩ := rc.enough (show (2 + 1) * SBSIZE < 200000 by decide)
  obtain ⟨M, least, e⟩ := collect_eq sample enough
  obtain rfl : M = {sample.sb 1} := Finset.coe_injective (least.unique straddle_least)
  have precise : Precise sample straddle 2 {sample.sb 1} := by
    intro m hm
    obtain rfl := Finset.mem_singleton.1 hm
    refine .inl (.inl ⟨1, 1, by decide, straddle_small, Cfg.mem_blocks.2 ⟨0, by decide, ?_⟩⟩)
    rw [Cfg.blk, Nat.zero_mul, Nat.add_zero]
  rcases sweep_outcome (rc.sweepable _) (fun m hm => Mark.range_of_isLeast least hm) enough' with
    ⟨-, w, ew, -⟩ | ⟨nadm, -⟩
  · refine ⟨w, ?_⟩
    rw [e, ew]
    rfl
  · exact absurd (precise.admissible (rc.sweepable _)) nadm

/-- All other blocks are free; the one behind the marked block is the first. -/
lemma straddle_freed : freedBlocks sample {sample.sb 1} 1 1 =
    (sample.sb 1 + 8) :: stride 8 (sample.sb 1 + 16) (sample.sb 1 + 65536) := by
  have marks : marksIn sample {sample.sb 1} 1 = [sample.sb 1] := by
    rw [marksIn, Finset.sort_singleton]
    exact List.filter_eq_self.2 fun m hm => by
      rw [List.mem_singleton.1 hm]
      simpa using inSb_sb sample 1
  have size : blockSize 1 = 8 := by decide
  have count : maxcount 1 * 8 = 65536 := by decide
  rw [freedBlocks, marks, gaps, gaps, size, count, stride_nil (by decide) le_rfl, List.nil_append,
    stride_cons (by decide) (by omega)]

/-- The two bytes and the null link behind them are a pointer to 21168 bytes further on. -/
lemma straddle_relink :
    relink sample straddle 2 {sample.sb 1} (sample.sb 1 + 6) = sample.sb 1 + 21174 := by
  have used : Used sample straddle {sample.sb 1} 1 1 :=
    ⟨straddle_small, sample.sb 1, by simp, inSb_sb sample 1⟩
  have word : load (relinked sample straddle {sample.sb 1} 2) (sample.sb 1 + 6) 8 =
      load (store straddle.mem (sample.sb 1 + 8) 8 (toPptrOff 0 (sample.sb 1 + 8)))
        (sample.sb 1 + 6) 8 := by
    refine load_congr fun x h1 h2 => ?_
    rw [relinked_succ (by decide), used.freedIn_eq, straddle_freed, List.zip_cons_cons,
      linkAll_cons]
    refine linkAll_out fun g hg => .inl ?_
    obtain ⟨j, e, -⟩ := (mem_stride (by decide)).1 (List.of_mem_zip hg).1
    omega
  rw [relink, word]
  decide +kernel

/-- The second garbage collection takes the last two bytes of the block, together with the null link
that the first one has written behind it, for a pointer. -/
theorem second_recovery_differs : Recoverable sample straddle 2 ∧ ∃ w,
    collect sample 200000 straddle = .done ({sample.sb 1}, w) ∧
      (∀ S, Mark.Closed sample.heapStart w.heap S → sample.sb 1 + 21174 ∈ S) ∧
      ¬Stable sample 200000 2 {sample.sb 1} w.heap := by
  have rc := straddle_recoverable
  obtain ⟨w, e⟩ := straddle_collect
  have c := rc.collected (by decide) e
  have again : ∀ S, Mark.Closed sample.heapStart w.heap S → sample.sb 1 + 21174 ∈ S := by
    intro S hS
    have root : Reached sample straddle 2 {sample.sb 1} (sample.sb 1) := by
      have cast : castCross sample.heapStart (straddle.roots 0) = sample.sb 1 := by decide +kernel
      rw [← cast]
      exact .root (by decide) (by decide) (by decide +kernel)
    have word := Reached.word (i := 6) root (by simp)
      ⟨1, by decide, inSb_sb sample 1, .inl ⟨1, straddle_small⟩⟩ (by decide +kernel)
      (by rw [straddle_relink]; decide +kernel) (by rw [straddle_relink]; decide +kernel)
    rw [straddle_relink] at word
    exact c.reached_mem rc hS word
  refine ⟨rc, w, e, again, fun stable => ?_⟩
  have least := (c.stable_iff_isLeast rc (by decide)).1 stable
  have := again _ least.1
  simp at this

/-- The equivalence for this heap. -/
theorem stable_straddle : Recoverable sample straddle 2 ∧ ∃ w,
    collect sample 200000 straddle = .done ({sample.sb 1}, w) ∧
      (Stable sample 200000 2 {sample.sb 1} w.heap ↔
        Rescanned sample straddle 2 {sample.sb 1}) := by
  obtain ⟨w, e⟩ := straddle_collect
  exact ⟨straddle_recoverable, w, e, stable_iff straddle_recoverable (by decide) e⟩

end Ralloc
